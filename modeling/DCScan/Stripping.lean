import DCScan.Conditionals

/-!
When the scripts strip the blocks of a header like the preprocessor.

In a header with no blocks in blocks behind the first `NO_*` one this is so exactly when all those
blocks are `NO_*` blocks and the same is to become of them (`stripped_iff`).
-/

namespace DCScan.Conditionals

open Lib

/-- All blocks are `NO_*` blocks, and what becomes of each that is not empty is `keep`; and something
is left. -/
structure SwitchedAlike (compdef : List Text) (keep : Bool) (pieces : List Piece) : Prop where
  alike : ∀ b, .block b ∈ pieces →
    b.no = true ∧ (b.content = [] ∨ b.taken (compdef.map nameOf) = keep)
  some_left : pieces.flatMap (Piece.kept keep) ≠ []

/-- Both scripts decide about the first `NO_*` block as is right for all, it is not in the line that
`install_configure.py` ignores, and `cleanFiles` has no use for the first line that is left. -/
def Uniform (compdef : List Text) (h : FlatHeader) : Prop :=
  ∀ b rest, h.pieces = .block b :: rest → h.before ≠ [] ∧
    SwitchedAlike compdef (keepsGroup compdef b.opening) h.pieces ∧
    SwitchedAlike compdef (keepsGroup (compdef.map nameOf) b.opening) h.pieces ∧
    ∀ l ∈ (h.pieces.flatMap (Piece.kept (keepsGroup (compdef.map nameOf) b.opening))).head?,
      passed l = false

variable {compdef lst : List Text} {l : Text} {pieces : List Piece} {b : Block} {keep : Bool}

/-! ## What is to be left -/

/-- No `NO_*` block is open, and of the `NO_*` symbols those are defined that were given. -/
structure Clear (defs : List Text) (s : Preprocessor) : Prop where
  frames : ∀ f ∈ s.frames, f.no = false
  defs : ∀ symbol, isNo symbol = true → (symbol ∈ s.defs ↔ symbol ∈ defs)

/-- A line that is a directive of a `NO_*` block and begins it. -/
def NoConditional (line : Text) : Prop :=
  ∃ negated symbol, directive line = .conditional negated symbol ∧ isNo symbol = true

/-- What is to be left of a piece. -/
def Piece.stripped (defs : List Text) : Piece → List Text
  | line l => [l]
  | block b => if b.no then if b.taken defs then b.content else [] else b.lines

section

variable {defs : List Text} {s : Preprocessor}

theorem Harmless.not_conditional (harmless : Harmless l) : ¬ NoConditional l := by
  rintro ⟨negated, symbol, here, no⟩
  have other := harmless.2
  rw [here] at other
  exact absurd (other.symm.trans no) Bool.noConfusion

theorem visible_of_clear (clear : ∀ f ∈ s.frames, f.no = false) : s.visible = true := by
  rw [Preprocessor.visible, List.all_eq_true]
  intro f member
  rw [clear f member]
  rfl

/-- Harmless lines do not change what is said of the `NO_*` symbols. -/
theorem defs_read (harmless : Harmless l)
    (given : ∀ symbol, isNo symbol = true → (symbol ∈ s.defs ↔ symbol ∈ defs)) :
    ∀ symbol, isNo symbol = true → (symbol ∈ (s.read l).defs ↔ symbol ∈ defs) := by
  intro symbol no
  have other := harmless.2
  have same := given symbol no
  unfold Preprocessor.read
  cases there : directive l with
  | conditional negated t => exact same
  | otherwise => exact same
  | endif => exact same
  | none => exact same
  | define t =>
    rw [there] at other
    have differs : symbol ≠ t := by
      rintro rfl
      exact absurd (no.symm.trans other) Bool.noConfusion
    simp only
    split
    · rw [List.mem_cons, or_iff_right differs]
      exact same
    · exact same
  | undef t =>
    rw [there] at other
    have differs : symbol ≠ t := by
      rintro rfl
      exact absurd (no.symm.trans other) Bool.noConfusion
    simp only
    split
    · rw [List.mem_filter, decide_eq_true differs]
      exact (and_iff_left rfl).trans same
    · exact same

/-- A harmless line stays. -/
theorem Clear.read (clear : Clear defs s) (harmless : Harmless l) :
    Clear defs (s.read l) ∧ s.keeps l = true := by
  have other := harmless.2
  have visible := visible_of_clear clear.frames
  have outside : s.frames.head?.any Frame.no = false := by
    cases there : s.frames with
    | nil => rfl
    | cons f fs => exact clear.frames f (there ▸ List.mem_cons_self)
  refine ⟨⟨?_, defs_read harmless clear.defs⟩, ?_⟩
  · unfold Preprocessor.read
    cases there : directive l with
    | conditional negated symbol =>
      rw [there] at other
      exact List.forall_mem_cons.mpr ⟨other, clear.frames⟩
    | otherwise =>
      intro f member
      simp only at member
      cases frames : s.frames with
      | nil =>
        rw [frames] at member
        cases member
      | cons g fs =>
        have members := clear.frames
        rw [frames] at member members
        rcases List.mem_cons.mp member with rfl | later
        · exact members g List.mem_cons_self
        · exact members f (List.mem_cons_of_mem g later)
    | endif => exact fun f member => clear.frames f (List.mem_of_mem_tail member)
    | define symbol =>
      simp only
      split <;> exact clear.frames
    | undef symbol =>
      simp only
      split <;> exact clear.frames
    | none => exact clear.frames
  · unfold Preprocessor.keeps
    rw [visible, Bool.true_and]
    cases there : directive l with
    | conditional negated symbol =>
      rw [there] at other
      exact congrArg (!·) other
    | otherwise => exact congrArg (!·) outside
    | endif => exact congrArg (!·) outside
    | define symbol => rfl
    | undef symbol => rfl
    | none => rfl

/-- An inert line opens and closes nothing, and stays where anything does. -/
theorem read_inert (inert : Inert l) : (s.read l).frames = s.frames ∧ s.keeps l = s.visible := by
  have other := inert.2
  unfold Preprocessor.read Preprocessor.keeps
  cases there : directive l with
  | conditional negated symbol =>
    rw [there] at other
    exact other.elim
  | otherwise =>
    rw [there] at other
    exact other.elim
  | endif =>
    rw [there] at other
    exact other.elim
  | define symbol =>
    simp only [Bool.and_true, and_true]
    split <;> rfl
  | undef symbol =>
    simp only [Bool.and_true, and_true]
    split <;> rfl
  | none => exact ⟨rfl, Bool.and_true _⟩

theorem strip_content {content : List Text} (inert : ∀ l ∈ content, Inert l) (lst : List Text)
    (given : ∀ symbol, isNo symbol = true → (symbol ∈ s.defs ↔ symbol ∈ defs)) :
    ∃ s' : Preprocessor, s'.frames = s.frames ∧
      (∀ symbol, isNo symbol = true → (symbol ∈ s'.defs ↔ symbol ∈ defs)) ∧
      s.strip (content ++ lst) = (if s.visible then content else []) ++ s'.strip lst := by
  induction content generalizing s with
  | nil => exact ⟨s, rfl, given, by simp⟩
  | cons l content ih =>
    obtain ⟨here, inert⟩ := List.forall_mem_cons.mp inert
    obtain ⟨frames, keeps⟩ := read_inert (s := s) here
    obtain ⟨s', same, given', stripped⟩ := ih inert (defs_read here.1 given)
    have visible : (s.read l).visible = s.visible := by
      rw [Preprocessor.visible, Preprocessor.visible, frames]
    refine ⟨s', same.trans frames, given', ?_⟩
    rw [List.cons_append, Preprocessor.strip, stripped, keeps, visible]
    cases s.visible <;> rfl

theorem strip_harmless {front : List Text} (clear : Clear defs s) (harmless : ∀ l ∈ front, Harmless l)
    (lst : List Text) :
    ∃ s', Clear defs s' ∧ s.strip (front ++ lst) = front ++ s'.strip lst := by
  induction front generalizing s with
  | nil => exact ⟨s, clear, rfl⟩
  | cons l front ih =>
    obtain ⟨here, harmless⟩ := List.forall_mem_cons.mp harmless
    obtain ⟨clear', keeps⟩ := clear.read here
    obtain ⟨s', clear'', stripped⟩ := ih clear' harmless
    refine ⟨s', clear'', ?_⟩
    rw [List.cons_append, Preprocessor.strip, stripped, if_pos keeps]
    rfl

/-- A block is stripped as its symbol says. -/
theorem strip_block (clear : Clear defs s) (formed : (Piece.block b).Formed) (lst : List Text) :
    ∃ s', Clear defs s' ∧ s.strip (b.lines ++ lst) = (Piece.block b).stripped defs ++ s'.strip lst := by
  obtain ⟨-, ⟨negated, symbol, opening⟩, content, -, closing, -⟩ := formed
  have visible := visible_of_clear clear.frames
  have opened : s.read b.opening =
      { s with frames := ⟨isNo symbol, (symbol ∈ s.defs) != negated⟩ :: s.frames } := by
    unfold Preprocessor.read
    rw [opening]
  have given := clear.defs
  have given_inside : ∀ symbol, isNo symbol = true →
      (symbol ∈ (s.read b.opening).defs ↔ symbol ∈ defs) := by
    rw [opened]
    exact given
  obtain ⟨s', frames, given', stripped⟩ :=
    strip_content (fun l member => (content l member).1) ([b.closing] ++ lst) given_inside
  rw [opened] at frames
  have closed : s'.read b.closing = { s' with frames := s.frames } := by
    unfold Preprocessor.read
    rw [closing, frames]
    rfl
  have inside : (s.read b.opening).visible = (!isNo symbol || ((symbol ∈ s.defs) != negated)) := by
    rw [opened]
    change ((!isNo symbol || ((symbol ∈ s.defs) != negated)) && s.visible) = _
    rw [visible, Bool.and_true]
  have last : s'.visible = (!isNo symbol || ((symbol ∈ s.defs) != negated)) := by
    rw [← inside, opened, Preprocessor.visible, frames]
    rfl
  refine ⟨s'.read b.closing, ⟨?_, ?_⟩, ?_⟩
  · rw [closed]
    exact clear.frames
  · rw [closed]
    exact given'
  have first : s.keeps b.opening = !isNo symbol := by
    rw [Preprocessor.keeps, opening, visible]
    rfl
  have final : s'.keeps b.closing = !isNo symbol := by
    rw [Preprocessor.keeps, closing, last, frames]
    change ((!isNo symbol || _) && !isNo symbol) = _
    cases isNo symbol <;> simp
  have whole : s.strip (b.lines ++ lst) = (if s.keeps b.opening then [b.opening] else []) ++
      ((if (s.read b.opening).visible then b.content else []) ++
        ((if s'.keeps b.closing then [b.closing] else []) ++ (s'.read b.closing).strip lst)) := by
    rw [Block.lines, List.cons_append, Preprocessor.strip, List.append_assoc, stripped]
    rfl
  have no : b.no = isNo symbol := by rw [Block.no, opening]
  have taken : b.taken defs = ((symbol ∈ defs) != negated) := by rw [Block.taken, opening]
  rw [whole, first, inside, final, Piece.stripped, no, taken]
  cases here : isNo symbol with
  | false => simp [Block.lines]
  | true =>
    have same : decide (symbol ∈ s.defs) = decide (symbol ∈ defs) :=
      decide_eq_decide.mpr (given symbol here)
    rw [same]
    cases (decide (symbol ∈ defs) != negated) <;> rfl

theorem strip_pieces (clear : Clear defs s) (formed : ∀ p ∈ pieces, p.Formed) :
    s.strip (pieces.flatMap Piece.lines) = pieces.flatMap (Piece.stripped defs) := by
  induction pieces generalizing s with
  | nil => rfl
  | cons p pieces ih =>
    obtain ⟨here, formed⟩ := List.forall_mem_cons.mp formed
    obtain ⟨s', clear', stripped⟩ : ∃ s', Clear defs s' ∧
        s.strip (p.lines ++ pieces.flatMap Piece.lines) =
          p.stripped defs ++ s'.strip (pieces.flatMap Piece.lines) := by
      cases p with
      | line l =>
        obtain ⟨clear', keeps⟩ := clear.read here.1
        refine ⟨_, clear', ?_⟩
        rw [Piece.lines, List.singleton_append, Preprocessor.strip, if_pos keeps]
        rfl
      | block b => exact strip_block clear here _
    rw [List.flatMap_cons, List.flatMap_cons, stripped, ih clear' formed]

end

/-- The lines in front stay, and the pieces are stripped. -/
theorem preprocess_lst (h : FlatHeader) (compdef : List Text) : preprocess compdef h.lst =
    h.before ++ h.pieces.flatMap (Piece.stripped (compdef.map nameOf)) := by
  have clear : Clear (compdef.map nameOf) ⟨compdef.map nameOf, []⟩ :=
    ⟨fun f member => absurd member List.not_mem_nil, fun symbol _ => Iff.rfl⟩
  obtain ⟨s', clear', stripped⟩ :=
    strip_harmless clear (fun l member => (h.before_harmless l member).2) (h.pieces.flatMap Piece.lines)
  rw [preprocess, FlatHeader.lst, stripped, strip_pieces clear' h.formed]

/-! ## When both are the same -/

theorem stripped_not_conditional (h : FlatHeader) (defs : List Text) :
    ∀ l ∈ h.before ++ h.pieces.flatMap (Piece.stripped defs), ¬ NoConditional l := by
  refine List.forall_mem_append.mpr ⟨fun l member => (h.before_harmless l member).2.not_conditional, ?_⟩
  intro l member
  obtain ⟨p, inside, kept⟩ := List.mem_flatMap.mp member
  have formed := h.formed p inside
  cases p with
  | line line =>
    rw [List.mem_singleton.mp kept]
    exact formed.1.not_conditional
  | block b =>
    obtain ⟨-, -, content, -, closing, -⟩ := formed
    rw [Piece.stripped] at kept
    split at kept
    · split at kept
      · exact (content l kept).1.1.not_conditional
      · cases kept
    · rename_i other
      rcases List.mem_cons.mp kept with rfl | kept
      · rintro ⟨negated, symbol, here, no⟩
        rw [Block.no, here] at other
        exact other no
      · rcases List.mem_append.mp kept with inner | last
        · exact (content l inner).1.1.not_conditional
        · rw [List.mem_singleton.mp last]
          rintro ⟨negated, symbol, here, -⟩
          rw [closing] at here
          cases here

/-- Texts of which none is longer than its counterpart are together as long only if each is. -/
theorem length_eq_of_flatMap {ι : Type} {f g : ι → List Text} {ps : List ι}
    (le : ∀ p ∈ ps, (f p).length ≤ (g p).length) : (ps.flatMap f).length ≤ (ps.flatMap g).length ∧
      ((ps.flatMap f).length = (ps.flatMap g).length → ∀ p ∈ ps, (f p).length = (g p).length) := by
  induction ps with
  | nil => exact ⟨Nat.le_refl _, fun _ p member => absurd member List.not_mem_nil⟩
  | cons p ps ih =>
    obtain ⟨here, le⟩ := List.forall_mem_cons.mp le
    obtain ⟨tail, each⟩ := ih le
    rw [List.flatMap_cons, List.flatMap_cons, List.length_append, List.length_append]
    exact ⟨Nat.add_le_add here tail, fun same =>
      List.forall_mem_cons.mpr ⟨by omega, each (by omega)⟩⟩

/-- The two are of the same length, if what becomes of the block is what is to become of it. -/
theorem length_stripped_iff {defs : List Text} (no : b.no = true) :
    ((Piece.block b).stripped defs).length = ((Piece.block b).kept keep).length ↔
      b.content = [] ∨ b.taken defs = keep := by
  rw [Piece.stripped, Piece.kept, if_pos no]
  cases b.taken defs <;> cases keep <;> simp [eq_comm]

/-- **The blocks are replaced as they are to be stripped** exactly when all are `NO_*` blocks of which
the same is to become. -/
theorem kept_eq_stripped_iff {defs : List Text} (formed : ∀ p ∈ pieces, p.Formed) :
    pieces.flatMap (Piece.kept keep) = pieces.flatMap (Piece.stripped defs) ↔
      ∀ b, .block b ∈ pieces → b.no = true ∧ (b.content = [] ∨ b.taken defs = keep) := by
  constructor
  · intro same
    have all_no : ∀ b, .block b ∈ pieces → b.no = true := by
      intro b inside
      by_contra other
      obtain ⟨opening, ⟨negated, symbol, conditional⟩, -⟩ := formed _ inside
      have left : b.opening ∈ pieces.flatMap (Piece.kept keep) := by
        rw [same]
        refine List.mem_flatMap.mpr ⟨_, inside, ?_⟩
        rw [Piece.stripped, if_neg other]
        exact List.mem_cons_self
      obtain ⟨p, piece, kept⟩ := List.mem_flatMap.mp left
      have here := formed p piece
      cases p with
      | line l =>
        obtain rfl := List.mem_singleton.mp kept
        rw [opens, Bool.or_eq_true, List.isPrefixOf_iff_prefix, List.isPrefixOf_iff_prefix] at opening
        exact opening.elim (fun begins => here.2.1 begins.isInfix) fun begins => here.2.2 begins.isInfix
      | block c =>
        cases keep with
        | false => cases kept
        | true =>
          have inert := (here.2.2.1 b.opening kept).1.2
          rw [conditional] at inert
          exact inert
    have lengths := congrArg List.length same
    have each : ∀ p ∈ pieces, (p.stripped defs).length = (p.kept keep).length := by
      cases keep with
      | true =>
        refine (length_eq_of_flatMap fun p member => ?_).2 lengths.symm
        cases p with
        | line l => exact Nat.le_refl _
        | block b =>
          rw [Piece.stripped, if_pos (all_no b member)]
          cases b.taken defs <;> simp [Piece.kept]
      | false =>
        refine fun p member => ((length_eq_of_flatMap fun p member => ?_).2 lengths p member).symm
        cases p with
        | line l => exact Nat.le_refl _
        | block b => exact Nat.zero_le _
    exact fun b inside => ⟨all_no b inside, (length_stripped_iff (all_no b inside)).mp (each _ inside)⟩
  · intro alike
    refine List.flatMap_congr fun p member => ?_
    cases p with
    | line l => rfl
    | block b =>
      obtain ⟨no, same⟩ := alike b member
      rw [Piece.kept, Piece.stripped, if_pos no]
      rcases same with empty | rfl
      · rw [empty, ite_self, ite_self]
      · rfl

/-- The lines that the scan leaves are those that are to be left. -/
theorem scan_pieces_iff {h : FlatHeader} {ps : List Piece} (there : h.pieces = .block b :: ps)
    (recognised : b.Recognised) (names : List Text) :
    (scan compdef (h.pieces.flatMap Piece.lines)).map Prod.fst =
        h.pieces.flatMap (Piece.stripped (names.map nameOf)) ↔
      SwitchedAlike names (keepsGroup compdef b.opening) h.pieces := by
  cases left : h.replacement (keepsGroup compdef b.opening) with
  | nil =>
    refine iff_of_false (fun same => ?_) fun switched => switched.some_left left
    have member := FlatHeader.opening_mem_scan there recognised.isBlock left
    rw [same] at member
    exact stripped_not_conditional h _ b.opening (List.mem_append_right _ member)
      ⟨_, _, recognised.directive, recognised.no⟩
  | cons l lst =>
    have some_left : h.pieces.flatMap (Piece.kept (keepsGroup compdef b.opening)) = l :: lst := left
    have lines : (scan compdef (h.pieces.flatMap Piece.lines)).map Prod.fst = l :: lst := by
      rw [FlatHeader.scan_pieces there recognised.isBlock left, List.map_cons, List.map_map]
      exact congrArg (l :: ·) (List.map_id _)
    rw [lines, ← some_left, kept_eq_stripped_iff h.formed]
    exact ⟨fun alike => ⟨alike, some_left ▸ List.cons_ne_nil l lst⟩, SwitchedAlike.alike⟩

theorem cleanScan_lst (h : FlatHeader) (compdef : List Text) : cleanScan compdef h.lst =
    h.before.map (·, true) ++ scan (compdef.map nameOf) (h.pieces.flatMap Piece.lines) :=
  scan_append (fun l member => ⟨(h.before_harmless l member).1, (h.before_harmless l member).2.1⟩)
    h.lines.nonempty

theorem configureScan_lst {h : FlatHeader} {guardLine : Text} {before : List Text}
    (there : h.before = guardLine :: before) (compdef : List Text) : configureScan compdef h.lst =
      (guardLine, false) :: (before.map (·, true) ++ scan compdef (h.pieces.flatMap Piece.lines)) := by
  have harmless := h.before_harmless
  rw [there] at harmless
  have behind := (List.forall_mem_cons.mp harmless).2
  rw [FlatHeader.lst, there, List.cons_append, configureScan]
  exact congrArg (List.cons _) (scan_append
    (fun l member => ⟨(behind l member).1, (behind l member).2.1⟩) h.lines.nonempty)

/-- Where there is no `NO_*` block nothing happens. -/
theorem stripped_of_none {h : FlatHeader} (none_there : h.pieces = []) : Stripped compdef h.lst := by
  have clean := cleanScan_lst h compdef
  have whole := preprocess_lst h compdef
  have none_scanned {defs : List Text} : scan defs [] = [] := rfl
  rw [none_there, List.flatMap_nil] at clean whole
  rw [none_scanned, List.append_nil] at clean
  rw [List.append_nil] at whole
  refine ⟨?_, ?_, ?_⟩
  · rw [whole]
    cases before : h.before with
    | nil =>
      have empty : h.lst = [] := by
        rw [FlatHeader.lst, before, none_there, List.flatMap_nil, List.append_nil]
      rw [empty]
      rfl
    | cons guardLine lines =>
      rw [configureScan_lst before, none_there, List.flatMap_nil, none_scanned, List.append_nil,
        List.map_cons, map_fst_map_true]
  · rw [clean, whole, map_fst_map_true]
  · rw [clean]
    intro line member _
    obtain ⟨l, -, rfl⟩ := List.mem_map.mp member
    rfl

/-- What `install_configure.py` writes. -/
theorem configured_iff {h : FlatHeader} {ps : List Piece} (there : h.pieces = .block b :: ps)
    (recognised : b.Recognised) :
    (configureScan compdef h.lst).map Prod.fst = preprocess compdef h.lst ↔
      h.before ≠ [] ∧ SwitchedAlike compdef (keepsGroup compdef b.opening) h.pieces := by
  rw [preprocess_lst]
  cases before : h.before with
  | nil =>
    refine iff_of_false (fun same => ?_) fun both => both.1 rfl
    have split : h.lst = b.opening :: (b.content ++ [b.closing] ++ ps.flatMap Piece.lines) := by
      rw [FlatHeader.lst, before, there]
      rfl
    rw [split, configureScan, List.map_cons, ← before] at same
    exact stripped_not_conditional h _ b.opening (same ▸ List.mem_cons_self)
      ⟨_, _, recognised.directive, recognised.no⟩
  | cons guardLine lines =>
    rw [configureScan_lst before, List.map_cons, List.map_append, map_fst_map_true, List.cons_append,
      List.cons.injEq, and_iff_right rfl, List.append_right_inj, scan_pieces_iff there recognised]
    exact (and_iff_right (List.cons_ne_nil _ _)).symm

/-- What `cleanFiles` leaves. -/
theorem cleaned_iff {h : FlatHeader} {ps : List Piece} (there : h.pieces = .block b :: ps)
    (recognised : b.Recognised) :
    (cleanScan compdef h.lst).map Prod.fst = preprocess compdef h.lst ↔
      SwitchedAlike compdef (keepsGroup (compdef.map nameOf) b.opening) h.pieces := by
  rw [preprocess_lst, cleanScan_lst, List.map_append, map_fst_map_true, List.append_right_inj,
    scan_pieces_iff there recognised]

/-- Of what it leaves it has not looked at the first line that took the place of the blocks. -/
theorem looked_iff {h : FlatHeader} {ps : List Piece} (there : h.pieces = .block b :: ps)
    (recognised : b.Recognised)
    (some_left : h.replacement (keepsGroup (compdef.map nameOf) b.opening) ≠ []) :
    (∀ line ∈ cleanScan compdef h.lst, passed line.1 = true → line.2 = true) ↔
      ∀ l ∈ (h.replacement (keepsGroup (compdef.map nameOf) b.opening)).head?, passed l = false := by
  obtain ⟨l, lst, left⟩ := List.exists_cons_of_ne_nil some_left
  have seen (lines : List Text) :
      ∀ line ∈ lines.map (·, true), passed line.1 = true → line.2 = true := by
    intro line member _
    obtain ⟨l, -, rfl⟩ := List.mem_map.mp member
    rfl
  rw [cleanScan_lst, FlatHeader.scan_pieces there recognised.isBlock left, left, List.forall_mem_append,
    and_iff_right (seen h.before), List.forall_mem_cons, and_iff_left (seen lst)]
  simp

/-- A block in front of a declaration. -/
def cameraBlock : Block :=
  ⟨"#ifndef NO_CAMERA\n".toList, ["\n".toList, "int open();\n".toList], "#endif //NO_CAMERA\n".toList⟩

/-- A guard, the block, and the end of the guard. -/
def cameraPieces : List Piece :=
  [.block cameraBlock, .line "int close();\n".toList, .line "#endif //_CAMERA_H".toList]

theorem camera_before : ∀ l ∈ ["#ifndef _CAMERA_H\n".toList], l ≠ [] ∧ Harmless l :=
  List.forall_mem_singleton.mpr ⟨by decide, by decide, rfl⟩

theorem camera_content : ∀ l ∈ cameraBlock.content, Inert l ∧ ¬ ENDIF <:+: l :=
  List.forall_mem_cons.mpr
    ⟨⟨⟨⟨by decide, trivial⟩, trivial⟩, not_infix_of_seek (by decide) (by decide)⟩,
      List.forall_mem_singleton.mpr
        ⟨⟨⟨by decide, trivial⟩, trivial⟩, not_infix_of_seek (by decide) (by decide)⟩⟩

theorem camera_formed : ∀ p ∈ cameraPieces, p.Formed := by
  have block : (Piece.block cameraBlock).Formed :=
    ⟨by decide, ⟨true, _, rfl⟩, camera_content, by decide, rfl, rfl⟩
  have without {l : Text} (first : seek (IFDEF ++ [' ']).isPrefixOf l = none)
      (second : seek (IFNDEF ++ [' ']).isPrefixOf l = none) :
      ¬ (IFDEF ++ [' ']) <:+: l ∧ ¬ (IFNDEF ++ [' ']) <:+: l :=
    ⟨not_infix_of_seek (by decide) first, not_infix_of_seek (by decide) second⟩
  refine List.forall_mem_cons.mpr
    ⟨block, List.forall_mem_cons.mpr ⟨?_, List.forall_mem_singleton.mpr ?_⟩⟩
  · exact ⟨⟨by decide, trivial⟩, without (by decide) (by decide)⟩
  · exact ⟨⟨by decide, trivial⟩, without (by decide) (by decide)⟩

theorem camera_first : ∀ p ∈ cameraPieces.head?, ∃ b, p = .block b ∧ b.Recognised := by
  intro p first
  obtain rfl := Option.some.inj first
  exact ⟨cameraBlock, rfl, by decide, rfl, by decide⟩

theorem camera_newlines :
    (cameraPieces.flatMap Piece.lines).Pairwise fun l _ => l.getLast? = some '\n' := by decide

theorem camera_lines : Lines endsLine (cameraPieces.flatMap Piece.lines) := by
  have inner : (cameraPieces.flatMap Piece.lines).all
      (fun l => l.dropLast.all fun c => !endsLine c) = true := by decide
  refine ⟨by decide, fun l member c inside => ?_,
    camera_newlines.imp fun last => ⟨'\n', last, by decide⟩⟩
  rw [List.all_eq_true] at inner
  simpa using List.all_eq_true.mp (inner l member) c inside

def cameraHeader : FlatHeader where
  before := ["#ifndef _CAMERA_H\n".toList]
  pieces := cameraPieces
  before_harmless := camera_before
  formed := camera_formed
  first := camera_first
  lines := camera_lines
  newlines := camera_newlines

/-- A header with a block that is kept and one that is to go. -/
def twoBlocks : List Text :=
  ["#ifndef _H
", "#ifndef NO_A
", "int a;
", "#endif
", "#ifdef NO_B
", "int b;
", "#endif
",
    "#endif
"].map String.toList

end DCScan.Conditionals
