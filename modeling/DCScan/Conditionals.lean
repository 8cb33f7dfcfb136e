import DCScan.Lib.Lines

/-!
How the scripts strip the conditional blocks of a header.

`checkBlockActive` decides about the block in whose first line it is called, and replaces every block
of the rest of the file by what it decided (`reSub_pieces`). A block ends for it with the next
`#endif`. What is left is not looked at in its first line (`scan_pieces`).
-/

namespace DCScan.Conditionals

open Lib

/-! ## The scripts -/

/-- The characters that `str.split` splits at. -/
def isspace (c : Char) : Bool :=
  c ∈ [' ', '\t', '\n', '\r', '\x0b', '\x0c', '\x1c', '\x1d', '\x1e', '\x1f', '\x85', '\xa0',
    '\u1680', '\u2028', '\u2029', '\u202f', '\u205f', '\u3000'] || ('\u2000' ≤ c && c ≤ '\u200a')

/-- The characters behind which `str.splitlines` splits. -/
def endsLine (c : Char) : Bool :=
  c ∈ ['\n', '\r', '\x0b', '\x0c', '\x1c', '\x1d', '\x1e', '\x85', '\u2028', '\u2029']

/-- `line.split()[-1]`. -/
def lastWord (line : Text) : Text :=
  ((line.reverse.dropWhile isspace).takeWhile fun c => !isspace c).reverse

def IFDEF : Text := "#ifdef".toList

def IFNDEF : Text := "#ifndef".toList

def ENDIF : Text := "#endif".toList

/-- The test of `checkBlockActive`: the line begins a block, and its last word begins with `NO`. -/
def isBlock (line : Text) : Bool :=
  (IFDEF.isPrefixOf line || IFNDEF.isPrefixOf line) && ['N', 'O'].isPrefixOf (lastWord line)

/-- `rgroup` is `\2`, and not empty. -/
def keepsGroup (compdef : List Text) (line : Text) : Bool :=
  if IFDEF.isPrefixOf line then lastWord line ∈ compdef else lastWord line ∉ compdef

/-- Where `#ifn?def +` begins. -/
def opens (s : Text) : Bool := (IFDEF ++ [' ']).isPrefixOf s || (IFNDEF ++ [' ']).isPrefixOf s

/-- The second group of a match that begins here, and the text behind the match. -/
def matchHere (found : Text) : Option (Text × Text) := do
  let (_, group) ← seek ['\n'].isPrefixOf found
  let (content, closing) ← seek ENDIF.isPrefixOf group.tail
  let (_, after) ← seek ['\n'].isPrefixOf closing
  return (content, after.tail)

/-- The first match of `#ifn?def +(.*?)\n(.*?)(#endif.*?\n)`: the text in front of it, its second group
and the text behind it. -/
def reMatch (text : Text) : Option (Text × Text × Text) := do
  let (before, found) ← seek opens text
  let (content, after) ← matchHere found
  return (before, content, after)

/-- `re.sub` with these matches. -/
def reSub (keep : Bool) : Nat → Text → Text
  | 0, text => text
  | n + 1, text =>
    match reMatch text with
    | none => text
    | some (before, content, after) =>
      before ++ (if keep then content else []) ++ reSub keep n after

def checkBlockActive (content : List Text) (compdef : List Text) : List Text :=
  match content with
  | [] => []
  | first :: _ =>
    if isBlock first then
      splitLines endsLine (reSub (keepsGroup compdef first) content.flatten.length content.flatten)
    else []

/-- The loop over the lines: those it leaves, and for each whether its own text was looked at. -/
def scanFrom (compdef : List Text) : Nat → List Text → List (Text × Bool)
  | 0, _ => []
  | _, [] => []
  | n + 1, line :: rest =>
    match checkBlockActive (line :: rest) compdef with
    | [] => (line, true) :: scanFrom compdef n rest
    -- the first line of the replacement takes the place of the block's
    | first :: others => (first, false) :: scanFrom compdef n others

def scan (compdef : List Text) (lst : List Text) : List (Text × Bool) :=
  scanFrom compdef lst.flatten.length lst

/-- `c.split('=')[0]`. -/
def nameOf (c : Text) : Text := c.takeWhile (· ≠ '=')

/-- The scan of `cleanFiles`. -/
def cleanScan (compdef lst : List Text) : List (Text × Bool) := scan (compdef.map nameOf) lst

/-- The scan of `install_configure.py`, which ignores the header guard. -/
def configureScan (compdef : List Text) : List Text → List (Text × Bool)
  | [] => []
  | guardLine :: rest => (guardLine, false) :: scan compdef rest

/-- `line.lstrip().replace('\n', '')`. -/
def ns (line : Text) : Text := (line.dropWhile isspace).filter (· ≠ '\n')

/-- `cleanFiles` goes on with the line: it is not blank, no comment and no directive. -/
def passed (line : Text) : Bool :=
  ns line ≠ [] && !(['/', '*'].isPrefixOf (ns line) || ['*'].isPrefixOf (ns line) ||
    ['/', '/'].isPrefixOf (ns line) || ['#'].isPrefixOf (ns line))

/-! ## The preprocessor -/

inductive Directive where
  /-- `#ifdef`, or `#ifndef`. -/
  | conditional (negated : Bool) (symbol : Text)
  | otherwise
  | endif
  | define (symbol : Text)
  | undef (symbol : Text)
  | none
  deriving DecidableEq

def isBlank (c : Char) : Bool := c = ' ' || c = '\t'

def isIdent (c : Char) : Bool := c.isAlphanum || c = '_'

/-- What a line is to the preprocessor. -/
def directive (line : Text) : Directive :=
  match line.dropWhile isBlank with
  | '#' :: rest =>
    let text := rest.dropWhile isBlank
    let symbol := ((text.dropWhile isIdent).dropWhile isBlank).takeWhile isIdent
    let word := text.takeWhile isIdent
    if word = "ifdef".toList then .conditional false symbol
    else if word = "ifndef".toList then .conditional true symbol
    else if word = "else".toList then .otherwise
    else if word = "endif".toList then .endif
    else if word = "define".toList then .define symbol
    else if word = "undef".toList then .undef symbol
    else .none
  | _ => .none

/-- The symbols whose blocks are stripped. -/
def isNo (symbol : Text) : Bool := ['N', 'O', '_'].isPrefixOf symbol

/-- A block that is open. -/
structure Frame where
  no : Bool
  taken : Bool
  deriving DecidableEq

structure Preprocessor where
  defs : List Text
  frames : List Frame
  deriving DecidableEq

/-- What is in the line is compiled. -/
def Preprocessor.active (s : Preprocessor) : Bool := s.frames.all Frame.taken

def Preprocessor.read (s : Preprocessor) (line : Text) : Preprocessor :=
  match directive line with
  | .conditional negated symbol =>
    { s with frames := ⟨isNo symbol, (symbol ∈ s.defs) != negated⟩ :: s.frames }
  | .otherwise => { s with frames := s.frames.modifyHead fun f => { f with taken := !f.taken } }
  | .endif => { s with frames := s.frames.tail }
  | .define symbol => if s.active then { s with defs := symbol :: s.defs } else s
  | .undef symbol => if s.active then { s with defs := s.defs.filter (· ≠ symbol) } else s
  | .none => s

/-- No `NO_*` block that is open is to go. -/
def Preprocessor.visible (s : Preprocessor) : Bool := s.frames.all fun f => !f.no || f.taken

/-- The line stays: it is in no block that is to go, and no directive of a `NO_*` block. -/
def Preprocessor.keeps (s : Preprocessor) (line : Text) : Bool :=
  s.visible && match directive line with
    | .conditional _ symbol => !isNo symbol
    | .otherwise | .endif => !(s.frames.head?.any Frame.no)
    | _ => true

def Preprocessor.after (s : Preprocessor) (lst : List Text) : Preprocessor := lst.foldl read s

/-- The lines that stay. -/
def Preprocessor.strip (s : Preprocessor) : List Text → List Text
  | [] => []
  | line :: rest => (if s.keeps line then [line] else []) ++ (s.read line).strip rest

/-- What is to be left of the header. -/
def preprocess (compdef lst : List Text) : List Text :=
  Preprocessor.strip ⟨compdef.map nameOf, []⟩ lst

/-- Both scripts strip the `NO_*` blocks like the preprocessor, and nothing else, and `cleanFiles`
looks at every line that it is to go on with. -/
structure Stripped (compdef lst : List Text) : Prop where
  configured : (configureScan compdef lst).map Prod.fst = preprocess compdef lst
  cleaned : (cleanScan compdef lst).map Prod.fst = preprocess compdef lst
  looked : ∀ line ∈ cleanScan compdef lst, passed line.1 = true → line.2 = true

/-! ## Headers without blocks in blocks -/

structure Block where
  opening : Text
  content : List Text
  closing : Text

def Block.lines (b : Block) : List Text := b.opening :: (b.content ++ [b.closing])

/-- It is on a `NO_*` symbol. -/
def Block.no (b : Block) : Bool :=
  match directive b.opening with
  | .conditional _ symbol => isNo symbol
  | _ => false

/-- The preprocessor takes it. -/
def Block.taken (defs : List Text) (b : Block) : Bool :=
  match directive b.opening with
  | .conditional negated symbol => (symbol ∈ defs) != negated
  | _ => true

inductive Piece where
  | line (l : Text)
  | block (b : Block)

def Piece.lines : Piece → List Text
  | line l => [l]
  | block b => b.lines

/-- What is left of it when all blocks are replaced alike. -/
def Piece.kept (keep : Bool) : Piece → List Text
  | line l => [l]
  | block b => if keep then b.content else []

/-- Neither a conditional on a `NO_*` symbol nor a definition of one, and taken for neither. -/
def Harmless (line : Text) : Prop :=
  isBlock line = false ∧ match directive line with
    | .conditional _ symbol | .define symbol | .undef symbol => isNo symbol = false
    | _ => True

/-- No conditional, either. -/
def Inert (line : Text) : Prop :=
  Harmless line ∧ match directive line with
    | .conditional _ _ | .otherwise | .endif => False
    | _ => True

/-- A line outside blocks, or a block with no other in it. Directives begin with their line. -/
def Piece.Formed : Piece → Prop
  | line l => Harmless l ∧ ¬ (IFDEF ++ [' ']) <:+: l ∧ ¬ (IFNDEF ++ [' ']) <:+: l
  | block b => opens b.opening = true ∧
      (∃ negated symbol, directive b.opening = .conditional negated symbol) ∧
      (∀ l ∈ b.content, Inert l ∧ ¬ ENDIF <:+: l) ∧
      ENDIF <+: b.closing ∧ directive b.closing = .endif ∧ b.closing.getLast? = some '\n'

/-- A `NO_*` block in whose first line the symbol is the last word. -/
structure Block.Recognised (b : Block) : Prop where
  isBlock : isBlock b.opening = true
  directive : directive b.opening = .conditional (!IFDEF.isPrefixOf b.opening) (lastWord b.opening)
  no : isNo (lastWord b.opening) = true

/-- A header: the lines in front of the first `NO_*` block, among them any conditionals on other
symbols, and from there on lines and blocks without blocks in them. -/
structure FlatHeader where
  before : List Text
  pieces : List Piece
  before_harmless : ∀ l ∈ before, l ≠ [] ∧ Harmless l
  formed : ∀ p ∈ pieces, p.Formed
  first : ∀ p ∈ pieces.head?, ∃ b, p = .block b ∧ b.Recognised
  lines : Lines endsLine (pieces.flatMap Piece.lines)
  newlines : (pieces.flatMap Piece.lines).Pairwise fun l _ => l.getLast? = some '\n'

def FlatHeader.lst (h : FlatHeader) : List Text := h.before ++ h.pieces.flatMap Piece.lines

variable {compdef lst : List Text} {l rest text : Text} {pieces : List Piece} {b : Block} {keep : Bool}
variable {n m : Nat}

/-! ## The substitution -/

theorem opens_append (here : opens l = true) (rest : Text) : opens (l ++ rest) = true := by
  unfold opens at here ⊢
  simp only [Bool.or_eq_true, List.isPrefixOf_iff_prefix] at here ⊢
  exact here.imp (·.trans (List.prefix_append l rest)) (·.trans (List.prefix_append l rest))

/-- The text up to the end of a line. -/
theorem seek_newline (inner : ∀ c ∈ l.dropLast, endsLine c = false) (last : l.getLast? = some '\n')
    (rest : Text) : seek ['\n'].isPrefixOf (l ++ rest) = some (l.dropLast, '\n' :: rest) := by
  have whole : l ++ rest = l.dropLast ++ '\n' :: rest := by
    rw [← List.dropLast_append_getLast? '\n' last, List.append_assoc, List.dropLast_concat]
    rfl
  have absent : '\n' ∉ l.dropLast := by
    intro member
    exact absurd (inner '\n' member) (by decide)
  rw [whole, seek_char absent]

/-- No block begins in a line that is in none. -/
theorem reMatch_line (formed : (Piece.line l).Formed)
    (ended : l.getLast? = some '\n' ∨ text = []) :
    reMatch (l ++ text) = (reMatch text).map fun found => (l ++ found.1, found.2) := by
  obtain ⟨-, without, without'⟩ := formed
  have nowhere : ∀ s, s ≠ [] → s <:+ l → opens (s ++ text) = false := by
    intro s nonempty part
    have first := not_prefix_of_line (by decide) without ended nonempty part
    have second := not_prefix_of_line (by decide) without' ended nonempty part
    rw [← List.isPrefixOf_iff_prefix, Bool.not_eq_true] at first second
    rw [opens, first, second]
    rfl
  unfold reMatch
  rw [seek_append nowhere]
  cases seek opens text with
  | none => rfl
  | some found =>
    change ((matchHere found.2).bind _) = Option.map _ ((matchHere found.2).bind _)
    cases matchHere found.2 <;> rfl

/-- Behind lines without it comes the `#endif`. -/
theorem seek_endif {content : List Text} (without : ∀ l ∈ content, ¬ ENDIF <:+: l)
    (ended : ∀ l ∈ content, l.getLast? = some '\n') (closing : ENDIF <+: text) :
    seek ENDIF.isPrefixOf (content.flatten ++ text) = some (content.flatten, text) := by
  induction content with
  | nil =>
    have nonempty : text ≠ [] := by
      rintro rfl
      exact absurd (List.prefix_nil.mp closing) (by decide)
    exact seek_of_holds nonempty (List.isPrefixOf_iff_prefix.mpr closing)
  | cons l content ih =>
    obtain ⟨absent, without⟩ := List.forall_mem_cons.mp without
    obtain ⟨last, ended⟩ := List.forall_mem_cons.mp ended
    have nowhere : ∀ s, s ≠ [] → s <:+ l →
        ENDIF.isPrefixOf (s ++ (content.flatten ++ text)) = false := by
      intro s nonempty part
      rw [← Bool.not_eq_true, List.isPrefixOf_iff_prefix]
      exact not_prefix_of_line (by decide) absent (Or.inl last) nonempty part
    rw [List.flatten_cons, List.append_assoc, seek_append nowhere, ih without ended]
    rfl

/-- A block is matched from its first character to its last. -/
theorem reMatch_block (formed : (Piece.block b).Formed) (lines : Lines endsLine b.lines)
    (newlines : b.lines.Pairwise fun l _ => l.getLast? = some '\n') (rest : Text) :
    reMatch (b.lines.flatten ++ rest) = some ([], b.content.flatten, rest) := by
  obtain ⟨opening, -, content, closing, -, last⟩ := formed
  have inner := List.forall_mem_cons.mp lines.inner
  have in_closing := inner.2 b.closing (by simp)
  obtain ⟨first, others⟩ := List.pairwise_cons.mp newlines
  have ended := (List.pairwise_append.mp others).2.2
  have whole : b.lines.flatten ++ rest =
      b.opening ++ (b.content.flatten ++ (b.closing ++ rest)) := by
    simp [Block.lines]
  have here := opens_append opening (b.content.flatten ++ (b.closing ++ rest))
  have nonempty : b.opening ++ (b.content.flatten ++ (b.closing ++ rest)) ≠ [] :=
    List.append_ne_nil_of_left_ne_nil (lines.nonempty b.opening List.mem_cons_self) _
  have groups : matchHere (b.opening ++ (b.content.flatten ++ (b.closing ++ rest))) =
      some (b.content.flatten, rest) := by
    unfold matchHere
    rw [seek_newline inner.1 (first b.closing (by simp))]
    change (seek ENDIF.isPrefixOf (b.content.flatten ++ (b.closing ++ rest))).bind _ = _
    rw [seek_endif (fun l member => (content l member).2)
      (fun l member => ended l member b.closing (by simp)) (closing.trans (List.prefix_append _ _))]
    change (seek ['\n'].isPrefixOf (b.closing ++ rest)).bind _ = _
    rw [seek_newline in_closing last]
    rfl
  rw [whole, reMatch, seek_of_holds nonempty here]
  change (matchHere _).bind _ = _
  rw [groups]
  rfl

theorem reSub_line (formed : (Piece.line l).Formed) (ended : l.getLast? = some '\n' ∨ text = [])
    (n : Nat) : reSub keep n (l ++ text) = l ++ reSub keep n text := by
  cases n with
  | zero => rfl
  | succ n =>
    rw [reSub, reSub, reMatch_line formed ended]
    cases reMatch text with
    | none => rfl
    | some found => simp only [Option.map_some, List.append_assoc]

/-- **Every block is replaced**, whatever its symbol is. -/
theorem reSub_pieces (formed : ∀ p ∈ pieces, p.Formed)
    (lines : Lines endsLine (pieces.flatMap Piece.lines))
    (newlines : (pieces.flatMap Piece.lines).Pairwise fun l _ => l.getLast? = some '\n')
    (enough : (pieces.flatMap Piece.lines).flatten.length ≤ n) :
    reSub keep n (pieces.flatMap Piece.lines).flatten = (pieces.flatMap (Piece.kept keep)).flatten := by
  induction pieces generalizing n with
  | nil => cases n <;> rfl
  | cons p pieces ih =>
    obtain ⟨here, all_formed⟩ := List.forall_mem_cons.mp formed
    rw [List.flatMap_cons] at lines newlines enough ⊢
    rw [List.flatten_append, List.flatMap_cons, List.flatten_append]
    have later := lines.sublist (List.sublist_append_right _ _)
    obtain ⟨within, apart, between⟩ := List.pairwise_append.mp newlines
    rw [List.flatten_append, List.length_append] at enough
    cases p with
    | line l =>
      have ended : l.getLast? = some '\n' ∨ (pieces.flatMap Piece.lines).flatten = [] := by
        cases there : pieces.flatMap Piece.lines with
        | nil => exact Or.inr rfl
        | cons next others =>
          exact Or.inl (between l (List.mem_singleton_self l) next (there ▸ List.mem_cons_self))
      have kept := ih all_formed later apart (Nat.le_trans (Nat.le_add_left _ _) enough)
      simp only [Piece.lines, Piece.kept, List.flatten_cons, List.flatten_nil, List.append_nil]
      rw [reSub_line here ended, kept]
    | block b =>
      have matched := reMatch_block here (lines.sublist (List.sublist_append_left _ _)) within
        (pieces.flatMap Piece.lines).flatten
      have positive : 0 < b.lines.flatten.length := by
        have nonempty := lines.nonempty b.opening (by simp [Piece.lines, Block.lines])
        rw [Block.lines, List.flatten_cons, List.length_append]
        exact Nat.add_pos_left (List.length_pos_iff.mpr nonempty) _
      cases n with
      | zero =>
        simp only [Piece.lines] at enough
        omega
      | succ n =>
        simp only [Piece.lines] at enough ⊢
        rw [reSub, matched]
        simp only [Piece.kept]
        rw [ih all_formed later apart (by omega)]
        cases keep <;> rfl

/-! ## The scan -/

theorem seek_length {p : Text → Bool} {found : Text × Text} (here : seek p text = some found) :
    found.1.length + found.2.length = text.length := by
  conv_rhs => rw [(seek_eq_append here).1]
  exact List.length_append.symm

/-- A match leaves a shorter text. -/
theorem reMatch_length {before content after : Text}
    (matched : reMatch text = some (before, content, after)) :
    before.length + content.length + after.length ≤ text.length := by
  unfold reMatch at matched
  obtain ⟨found, opened, matched⟩ := Option.bind_eq_some_iff.mp matched
  obtain ⟨groups, here, matched⟩ := Option.bind_eq_some_iff.mp matched
  unfold matchHere at here
  obtain ⟨line, first, here⟩ := Option.bind_eq_some_iff.mp here
  obtain ⟨closing, second, here⟩ := Option.bind_eq_some_iff.mp here
  obtain ⟨behind, third, here⟩ := Option.bind_eq_some_iff.mp here
  cases matched
  cases here
  have one := seek_length opened
  have two := seek_length first
  have three := seek_length second
  have four := seek_length third
  simp only [List.length_tail] at *
  omega

theorem length_reSub_le (keep : Bool) (n : Nat) (text : Text) :
    (reSub keep n text).length ≤ text.length := by
  induction n generalizing text with
  | zero => exact Nat.le_refl _
  | succ n ih =>
    rw [reSub]
    cases there : reMatch text with
    | none => exact Nat.le_refl _
    | some found =>
      obtain ⟨before, content, after⟩ := found
      have shorter := reMatch_length there
      have tail := ih after
      cases keep <;> simp only [List.length_append, Bool.false_eq_true, ↓reduceIte, List.length_nil] <;>
        omega

/-- Lines that are put in the place of others are not empty and not longer. -/
theorem checkBlockActive_length {first : Text} {others : List Text}
    (replaced : checkBlockActive lst compdef = first :: others) :
    others.flatten.length < lst.flatten.length ∧ ∀ l ∈ others, l ≠ [] := by
  cases lst with
  | nil => cases replaced
  | cons line lst =>
    rw [checkBlockActive] at replaced
    split at replaced
    · have shorter := length_reSub_le (keepsGroup compdef line) (line :: lst).flatten.length
        (line :: lst).flatten
      have members : ∀ l ∈ first :: others, l ≠ [] := by
        rw [← replaced]
        exact fun l => ne_nil_of_mem_splitLines
      rw [← flatten_splitLines endsLine (reSub _ _ _), replaced, List.flatten_cons,
        List.length_append] at shorter
      have positive := List.length_pos_iff.mpr (members first List.mem_cons_self)
      exact ⟨by omega, fun l member => members l (List.mem_cons_of_mem first member)⟩
    · cases replaced

/-- **The loop ends** after no more rounds than there are characters. -/
theorem scanFrom_enough (lines : ∀ l ∈ lst, l ≠ []) (enough : lst.flatten.length ≤ n)
    (also : lst.flatten.length ≤ m) : scanFrom compdef n lst = scanFrom compdef m lst := by
  induction n generalizing m lst with
  | zero =>
    have empty : lst = [] := by
      cases lst with
      | nil => rfl
      | cons l lst =>
        have positive := List.length_pos_iff.mpr (lines l List.mem_cons_self)
        rw [List.flatten_cons, List.length_append] at enough
        omega
    subst empty
    cases m <;> rfl
  | succ n ih =>
    cases lst with
    | nil => cases m <;> rfl
    | cons l lst =>
      obtain ⟨nonempty, rest⟩ := List.forall_mem_cons.mp lines
      have positive := List.length_pos_iff.mpr nonempty
      have size : (l :: lst).flatten.length = l.length + lst.flatten.length := by
        rw [List.flatten_cons, List.length_append]
      cases m with
      | zero => omega
      | succ m =>
        rw [scanFrom, scanFrom]
        cases there : checkBlockActive (l :: lst) compdef with
        | nil => exact congrArg (List.cons _) (ih rest (by omega) (by omega))
        | cons first others =>
          obtain ⟨shorter, members⟩ := checkBlockActive_length there
          exact congrArg (List.cons _) (ih members (by omega) (by omega))

/-- A line that begins no block stays. -/
theorem scan_cons (nonempty : l ≠ []) (lines : ∀ l ∈ lst, l ≠ []) (other : isBlock l = false) :
    scan compdef (l :: lst) = (l, true) :: scan compdef lst := by
  have positive := List.length_pos_iff.mpr nonempty
  obtain ⟨n, size⟩ : ∃ n, (l :: lst).flatten.length = n + 1 :=
    Nat.exists_eq_add_one_of_ne_zero (by rw [List.flatten_cons, List.length_append]; omega)
  rw [scan, size, scanFrom, checkBlockActive, other]
  refine congrArg (List.cons _) (scanFrom_enough lines ?_ (Nat.le_refl _))
  rw [List.flatten_cons, List.length_append] at size
  omega

/-- So do lines that begin none, in front of others. -/
theorem scan_append {front : List Text} (nonempty : ∀ l ∈ front, l ≠ [] ∧ isBlock l = false)
    (lines : ∀ l ∈ lst, l ≠ []) :
    scan compdef (front ++ lst) = front.map (·, true) ++ scan compdef lst := by
  induction front with
  | nil => rfl
  | cons l front ih =>
    obtain ⟨here, nonempty⟩ := List.forall_mem_cons.mp nonempty
    have behind : ∀ l ∈ front ++ lst, l ≠ [] :=
      List.forall_mem_append.mpr ⟨fun l member => (nonempty l member).1, lines⟩
    rw [List.cons_append, scan_cons here.1 behind here.2, ih nonempty]
    rfl

theorem scan_harmless {front : List Text} (nonempty : ∀ l ∈ front, l ≠ [] ∧ isBlock l = false) :
    scan compdef front = front.map (·, true) := by
  have all : scan compdef (front ++ []) = front.map (·, true) ++ scan compdef [] :=
    scan_append nonempty fun l member => absurd member List.not_mem_nil
  have none_left : scan compdef [] = [] := rfl
  rwa [List.append_nil, none_left, List.append_nil] at all

theorem map_fst_map_true (lines : List Text) : (lines.map (·, true)).map Prod.fst = lines := by
  rw [List.map_map]
  exact List.map_id _

theorem kept_sublist (keep : Bool) (pieces : List Piece) :
    (pieces.flatMap (Piece.kept keep)).Sublist (pieces.flatMap Piece.lines) := by
  induction pieces with
  | nil => exact List.Sublist.slnil
  | cons p pieces ih =>
    rw [List.flatMap_cons, List.flatMap_cons]
    refine List.Sublist.append ?_ ih
    cases p with
    | line l => exact List.Sublist.refl _
    | block b =>
      cases keep with
      | false => exact List.nil_sublist _
      | true => exact ((List.sublist_append_left _ _).trans (List.sublist_cons_self _ _))

theorem kept_harmless (formed : ∀ p ∈ pieces, p.Formed) :
    ∀ l ∈ pieces.flatMap (Piece.kept keep), Harmless l := by
  intro l member
  obtain ⟨p, inside, kept⟩ := List.mem_flatMap.mp member
  have here := formed p inside
  cases p with
  | line line =>
    rw [List.mem_singleton.mp kept]
    exact here.1
  | block b =>
    cases keep with
    | false => cases kept
    | true => exact (here.2.2.1 l kept).1.1

namespace FlatHeader

variable {h : FlatHeader} {ps : List Piece}

/-- The lines that take the place of those from the first block on. -/
def replacement (h : FlatHeader) (keep : Bool) : List Text := h.pieces.flatMap (Piece.kept keep)

theorem replacement_lines (h : FlatHeader) (keep : Bool) :
    ∀ l ∈ h.replacement keep, l ≠ [] ∧ isBlock l = false := by
  intro l member
  exact ⟨(h.lines.sublist (kept_sublist keep h.pieces)).nonempty l member,
    (kept_harmless h.formed l member).1⟩

theorem checkBlockActive_first (there : h.pieces = .block b :: ps)
    (recognised : isBlock b.opening = true) :
    checkBlockActive (h.pieces.flatMap Piece.lines) compdef =
      h.replacement (keepsGroup compdef b.opening) := by
  have split : h.pieces.flatMap Piece.lines =
      b.opening :: (b.content ++ [b.closing] ++ ps.flatMap Piece.lines) := by
    rw [there]
    rfl
  rw [split, checkBlockActive, if_pos recognised, ← split, reSub_pieces h.formed h.lines h.newlines
    (Nat.le_refl _), splitLines_flatten (h.lines.sublist (kept_sublist _ _))]
  rfl

/-- The scan from the first block on leaves what takes its place, if that is anything. -/
theorem scan_pieces (there : h.pieces = .block b :: ps) (recognised : isBlock b.opening = true)
    (some_left : h.replacement (keepsGroup compdef b.opening) = l :: lst) :
    scan compdef (h.pieces.flatMap Piece.lines) = (l, false) :: lst.map (·, true) := by
  have lines := h.replacement_lines (keepsGroup compdef b.opening)
  have replaced : checkBlockActive (h.pieces.flatMap Piece.lines) compdef = _ :=
    checkBlockActive_first there recognised
  rw [some_left] at lines replaced
  have rest := (List.forall_mem_cons.mp lines).2
  obtain ⟨shorter, members⟩ := checkBlockActive_length replaced
  obtain ⟨n, size⟩ : ∃ n, (h.pieces.flatMap Piece.lines).flatten.length = n + 1 :=
    Nat.exists_eq_add_one_of_ne_zero (by omega)
  obtain ⟨first, others, split⟩ : ∃ first others, h.pieces.flatMap Piece.lines = first :: others := by
    rw [there]
    exact ⟨_, _, rfl⟩
  have round : scanFrom compdef (n + 1) (h.pieces.flatMap Piece.lines) =
      (l, false) :: scanFrom compdef n lst := by
    rw [split] at replaced ⊢
    rw [scanFrom, replaced]
  rw [scan, size, round, ← scan_harmless rest]
  exact congrArg (List.cons _) (scanFrom_enough members (by omega) (Nat.le_refl _))

/-- If it is nothing, the line stays in which the block begins. -/
theorem opening_mem_scan (there : h.pieces = .block b :: ps) (recognised : isBlock b.opening = true)
    (none_left : h.replacement (keepsGroup compdef b.opening) = []) :
    b.opening ∈ (scan compdef (h.pieces.flatMap Piece.lines)).map Prod.fst := by
  have replaced : checkBlockActive (h.pieces.flatMap Piece.lines) compdef = _ :=
    checkBlockActive_first there recognised
  obtain ⟨others, split⟩ : ∃ others, h.pieces.flatMap Piece.lines = b.opening :: others := by
    rw [there]
    exact ⟨_, rfl⟩
  rw [none_left, split] at replaced
  have positive := List.length_pos_iff.mpr (h.lines.nonempty b.opening (split ▸ List.mem_cons_self))
  obtain ⟨n, size⟩ : ∃ n, (b.opening :: others).flatten.length = n + 1 :=
    Nat.exists_eq_add_one_of_ne_zero (by rw [List.flatten_cons, List.length_append]; omega)
  rw [split, scan, size, scanFrom, replaced]
  exact List.mem_cons_self

end FlatHeader

end DCScan.Conditionals
