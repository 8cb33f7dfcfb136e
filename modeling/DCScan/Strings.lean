import Mathlib.Data.List.TakeWhile
import DCScan.Lib.Splitting
import DCScan.Vector

/-!
`Utils::String`: the size its values record, and the pieces of a split.

A string made from a C string, copied or assigned has the length of its text and one for the
terminator; one made from a pointer and a length has the length alone, and so have all pieces of a
split but the last, which takes the terminator of its string along.
-/

namespace DCScan.Utils

open Lib

/-- A heap block that holds a C string. -/
structure Chars where
  bytes : List UInt8
  terminated : 0 ∈ bytes

/-- The characters up to the terminator. -/
def untilNul (bytes : List UInt8) : List UInt8 := bytes.takeWhile (· ≠ 0)

def Chars.text (b : Chars) : List UInt8 := untilNul b.bytes

theorem zero_mem_concat (bytes : List UInt8) : 0 ∈ bytes ++ [0] :=
  List.mem_append_right _ List.mem_cons_self

/-- The bytes and a terminator. -/
def Chars.ofBytes (bytes : List UInt8) : Chars := ⟨bytes ++ [0], zero_mem_concat bytes⟩

structure String where
  buffer_size : Nat := 0
  /-- The block it points to, if not `nullptr`. -/
  buffer : Option Chars := none

namespace String

/-- `String()`. -/
def empty : String := {}

def size (s : String) : Nat := s.buffer_size

/-- `String(const char*)`, of a C string with this text. -/
def ofText (granted : Bool) (text : List UInt8) : String :=
  ⟨text.length + 1, if granted then some (.ofBytes text) else none⟩

/-- `String(const char*, const size_t)`, of as many bytes. -/
def ofRange (granted : Bool) (bytes : List UInt8) : String :=
  ⟨bytes.length, if granted then some (.ofBytes bytes) else none⟩

/-- `String(const String&)`; `none` when `strlen` is taken of a null pointer. -/
def copy (granted : Bool) (s : String) : Option String :=
  s.buffer.map fun b => ofText granted b.text

/-- `operator=`, which frees its buffer first; `none` also when that is the one it copies. -/
def assign (granted : Bool) (same : Bool) (s : String) : Option String :=
  if same then none else s.buffer.map fun b => ofText granted b.text

/-- `sizeof(String)`. -/
def plain : Plain := ⟨16, Nat.zero_lt_succ 15⟩

section split
variable (granted : Nat → Bool × Bool) (bytes : List UInt8) (separator : UInt8)

/-- `output.emplace(&buffer[offset], i - offset)`. -/
def emplacePiece (i offset : Nat) (output : Vector String) : Option (Vector String) :=
  output.emplace plain (granted output.size).1
    (ofRange (granted output.size).2 ((bytes.drop offset).take (i - offset)))

/-- The loop of `split` from `i` on, and the last piece. -/
def splitLoop : List UInt8 → (i offset : Nat) → Vector String → Option (Vector String)
  | [], i, offset, output => emplacePiece granted bytes i offset output
  | c :: rest, i, offset, output =>
    if c = separator then
      (emplacePiece granted bytes i offset output).bind (splitLoop rest (i + 1) (i + 1))
    else splitLoop rest (i + 1) offset output

/-- What lies behind `buffer`. -/
def block (s : String) : List UInt8 := (s.buffer.map Chars.bytes).getD []

/-- `split`. The number of the piece decides whether the vector's memory is granted, and the
piece's. `none` when `i` overflows, or a read or a write leaves its block. The result is
constructed in place, or else moved. -/
def split (elided : Bool) (s : String) : Option (Vector String) :=
  if s.buffer_size < 2 ^ 31 ∧ s.buffer_size ≤ s.block.length then
    (splitLoop granted s.block separator (s.block.take s.buffer_size) 0 0 .empty).map fun output =>
      if elided then output else output.move.1
  else none

end split

end String

/-! ## Sequences of operations -/

/-- A text without a terminator in it. -/
abbrev Text0 := {text : List UInt8 // 0 ∉ text}

/-- An operation on the values made so far, with whether the memory it asks for is granted. -/
inductive StringOp where
  | default
  | ofText (text : Text0) (granted : Bool)
  | ofRange (bytes : Text0) (granted : Bool)
  | copy (i : Nat) (granted : Bool)
  | assign (i j : Nat) (granted : Bool)
  | split (i : Nat) (separator : UInt8) (granted : Nat → Bool × Bool) (elided : Bool)

/-- The values after an operation, if there are those it is about; `none` when it is undefined. -/
def stringStep (strings : List String) : StringOp → Option (List String)
  | .default => some (strings ++ [.empty])
  | .ofText text granted => some (strings ++ [.ofText granted text])
  | .ofRange bytes granted => some (strings ++ [.ofRange granted bytes])
  | .copy i granted => (strings[i]?).elim (some strings) fun s =>
    (s.copy granted).map (strings ++ [·])
  | .assign i j granted => (strings[i]?).elim (some strings) fun _ =>
    (strings[j]?).elim (some strings) fun s => (s.assign granted (i = j)).map (strings.set i)
  | .split i separator granted elided => (strings[i]?).elim (some strings) fun s =>
    (s.split granted separator elided).map (strings ++ ·.elements.reduceOption)

/-- The size is this function of the characters of `c_str()`. -/
def String.HasLength (f : List UInt8 → Nat) (s : String) : Prop :=
  ∀ b, s.buffer = some b → s.size = f b.text

/-- Every size is the same function of the characters. -/
def OneLength (f : List UInt8 → Nat) (strings : List String) : Prop :=
  ∀ s ∈ strings, s.HasLength f

/-- The size of a string made from a C string. -/
def lengthOf (text : List UInt8) : Nat := (String.ofText true text).size

/-- The operation is defined, and leaves every value with the size of a C string. -/
def KeepsLength (strings : List String) (op : StringOp) : Prop :=
  ∃ after, stringStep strings op = some after ∧ OneLength lengthOf after

/-- The memory the operation asks for is granted. -/
def StringOp.Granted : StringOp → Prop
  | default => True
  | ofText _ granted | ofRange _ granted | copy _ granted | assign _ _ granted => granted = true
  | split _ _ granted _ => ∀ k, granted k = (true, true)

/-- No string is made from a pointer and a length, or from itself, and none that is split has the
separator in it, unless the pieces are moved. -/
def StringOp.Sound (strings : List String) : StringOp → Prop
  | default | ofText .. => True
  | ofRange .. => False
  | copy i _ => ∀ s, strings[i]? = some s → s.buffer ≠ none
  | assign i j _ => ∀ old s, strings[i]? = some old → strings[j]? = some s →
    i ≠ j ∧ s.buffer ≠ none
  | split i separator _ elided => ∀ s, strings[i]? = some s → s.buffer_size < 2 ^ 31 ∧
    (elided = true → s.buffer ≠ none ∧ separator ∉ s.block.take s.buffer_size)

/-- What `c_str()` shows of an element. -/
def String.shown (element : Option String) : Option (List UInt8) :=
  element.bind fun s => s.buffer.map Chars.text

/-- The split of a string made from a C string with this text gives back the text. -/
def SplitsBack (granted : Nat → Bool × Bool) (elided : Bool) (text : List UInt8)
    (separator : UInt8) : Prop :=
  ∃ output pieces, (String.ofText true text).split granted separator elided = some output ∧
    output.elements.map String.shown = pieces.map some ∧ Splits text separator pieces

variable {bytes text piece : List UInt8} {separator : UInt8} {granted : Nat → Bool × Bool}
variable {elided : Bool} {s : String} {strings : List String} {i : Nat}

/-! ## Texts -/

theorem not_mem_untilNul (bytes : List UInt8) : 0 ∉ untilNul bytes := fun inside => by
  have other := List.mem_takeWhile_imp inside
  exact absurd rfl (of_decide_eq_true other)

theorem untilNul_append (without : 0 ∉ text) (bytes : List UInt8) :
    untilNul (text ++ bytes) = text ++ untilNul bytes :=
  List.takeWhile_append_of_pos fun _ member => decide_eq_true fun same => without (same ▸ member)

theorem untilNul_cons {c : UInt8} (other : c ≠ 0) (bytes : List UInt8) :
    untilNul (c :: bytes) = c :: untilNul bytes :=
  untilNul_append (fun same => other (List.mem_singleton.mp same).symm : 0 ∉ [c]) bytes

theorem untilNul_nul (bytes : List UInt8) : untilNul (0 :: bytes) = [] :=
  List.takeWhile_cons_of_neg (by simp)

/-- What follows a terminator is not read. -/
theorem untilNul_concat (bytes : List UInt8) : untilNul (bytes ++ [0]) = untilNul bytes := by
  induction bytes with
  | nil => rfl
  | cons c bytes ih =>
    by_cases nul : c = 0
    · subst nul
      rw [List.cons_append, untilNul_nul, untilNul_nul]
    · rw [List.cons_append, untilNul_cons nul, ih, untilNul_cons nul]

theorem text_ofBytes (bytes : List UInt8) : (Chars.ofBytes bytes).text = untilNul bytes :=
  untilNul_concat bytes

theorem untilNul_of_not_mem (without : 0 ∉ text) : untilNul text = text := by
  rw [← List.append_nil text, untilNul_append without]
  rfl

/-- A C string is its text, a terminator, and what is behind. -/
theorem Chars.split (b : Chars) : ∃ behind, b.bytes = b.text ++ 0 :: behind := by
  obtain ⟨before, behind, split, without⟩ := List.eq_append_cons_of_mem b.terminated
  refine ⟨behind, ?_⟩
  rw [text, split, untilNul_append without, untilNul_nul, List.append_nil]

/-! ## The pieces -/

theorem emplacePiece_represents (given : ∀ k, granted k = (true, true))
    {before behind : List UInt8} (cut : bytes = before ++ (piece ++ behind))
    {output : Vector String} {l : List String} (represents : Represents output l)
    (sized : output.Sized String.plain) (some_length : output.data ≠ some [])
    (few : l.length < 2 ^ 32) :
    ∃ w, String.emplacePiece granted bytes (before.length + piece.length) before.length output =
        some w ∧ Represents w (l ++ [.ofRange true piece]) ∧ w.Sized String.plain ∧
      w.data ≠ some [] := by
  have range : (bytes.drop before.length).take (before.length + piece.length - before.length) =
      piece := by
    rw [cut, List.drop_left, Nat.add_sub_cancel_left, List.take_left]
  have fits : 2 * (l.length + 1) * String.plain.sizeof < 2 ^ 64 :=
    calc 2 * (l.length + 1) * String.plain.sizeof
      _ ≤ 2 * 2 ^ 32 * 16 := Nat.mul_le_mul_right 16 (Nat.mul_le_mul_left 2 few)
      _ < 2 ^ 64 := by decide
  rw [String.emplacePiece, range, given]
  exact Vector.emplace_granted represents sized some_length fits _

theorem modifyHead_self (pieces : List (List UInt8)) :
    pieces.modifyHead (fun piece => piece) = pieces :=
  congrFun List.modifyHead_id pieces

/-- **The loop of `split`** appends what lies between the separators. -/
theorem splitLoop_represents (given : ∀ k, granted k = (true, true)) (separator : UInt8)
    {behind : List UInt8} :
    ∀ (rest before piece : List UInt8) {output : Vector String} {l : List String},
      bytes = before ++ (piece ++ (rest ++ behind)) → Represents output l →
      output.Sized String.plain → output.data ≠ some [] →
      l.length + rest.length < 2 ^ 32 →
      ∃ w, String.splitLoop granted bytes separator rest (before.length + piece.length)
          before.length output = some w ∧
        Represents w (l ++ ((rest.splitOn separator).modifyHead (piece ++ ·)).map (.ofRange true)) := by
  intro rest
  induction rest with
  | nil =>
    intro before piece output l cut represents sized some_length few
    obtain ⟨w, added, represents', -⟩ :=
      emplacePiece_represents given cut represents sized some_length few
    refine ⟨w, added, ?_⟩
    rwa [List.splitOn_nil, List.modifyHead_cons, List.append_nil, List.map_singleton]
  | cons c rest ih =>
    intro before piece output l cut represents sized some_length few
    rw [List.length_cons] at few
    rw [String.splitLoop, List.splitOn_cons_eq_if_modifyHead]
    by_cases here : c = separator
    · subst here
      obtain ⟨w, added, represents', sized', some_length'⟩ :=
        emplacePiece_represents given cut represents sized some_length (by omega)
      have cut' : bytes = (before ++ piece ++ [c]) ++ ([] ++ (rest ++ behind)) := by
        rw [cut]
        simp only [List.append_assoc, List.cons_append, List.nil_append]
      have next := ih _ _ cut' represents' sized' some_length' (by
        rw [List.length_append, List.length_singleton]
        omega)
      simpa [added, Nat.add_assoc, modifyHead_self] using next
    · have cut' : bytes = before ++ ((piece ++ [c]) ++ (rest ++ behind)) := by
        rw [cut]
        simp only [List.append_assoc, List.cons_append, List.nil_append]
      have next := ih _ _ cut' represents sized some_length (by omega)
      simpa [here, Nat.add_assoc, Function.comp_def, List.modifyHead_modifyHead] using next

/-- Of a string whose size is in its block, `split` makes what lies between the separators. -/
theorem split_eq (given : ∀ k, granted k = (true, true)) (elided : Bool) (separator : UInt8)
    (small : s.buffer_size < 2 ^ 31) (inside : s.buffer_size ≤ s.block.length) :
    ∃ output, Represents output (((s.block.take s.buffer_size).splitOn separator).map
        (String.ofRange true)) ∧
      s.split granted separator elided = some (if elided then output else output.move.1) := by
  have whole : s.block = [] ++ ([] ++ (s.block.take s.buffer_size ++ s.block.drop s.buffer_size)) :=
    (List.take_append_drop _ _).symm
  obtain ⟨output, looped, represents⟩ := splitLoop_represents given separator
    (s.block.take s.buffer_size) [] [] whole Vector.represents_empty Vector.sized_empty
    (by rintro ⟨⟩) (by
      rw [List.length_take, min_eq_left inside, List.length_nil]
      omega)
  refine ⟨output, ?_, ?_⟩
  · simpa [modifyHead_self] using represents
  · rw [String.split, if_pos ⟨small, inside⟩]
    exact congrArg (Option.map _) looped

/-- The terminator is in the last piece, and behind its text. -/
theorem untilNul_splitOn (without : 0 ∉ text) (printed : separator ≠ 0) :
    ((text ++ [0]).splitOn separator).map untilNul = text.splitOn separator := by
  induction text with
  | nil =>
    rw [List.nil_append, List.splitOn_eq_singleton (by simpa using printed), List.map_singleton,
      untilNul_nul, List.splitOn_nil]
  | cons c text ih =>
    rw [List.mem_cons, not_or] at without
    have ih := ih without.2
    rw [List.cons_append, List.splitOn_cons_eq_if_modifyHead, List.splitOn_cons_eq_if_modifyHead, ← ih]
    split
    · rfl
    · cases pieces : (text ++ [0]).splitOn separator with
      | nil => rfl
      | cons first rest =>
        rw [List.modifyHead_cons, List.map_cons, List.map_cons, List.modifyHead_cons,
          untilNul_cons (Ne.symm without.1)]

/-! ## Runs -/

/-- A value has the size of a C string, or no buffer and no size. -/
structure String.Kept (s : String) : Prop where
  length : s.HasLength lengthOf
  unset : s.buffer = none → s.buffer_size = 0

theorem kept_empty : String.empty.Kept where
  length := by rintro _ ⟨⟩
  unset _ := rfl

theorem kept_ofText (without : 0 ∉ text) : (String.ofText true text).Kept := by
  refine ⟨fun b points => ?_, fun points => by cases points⟩
  obtain rfl := Option.some.inj points
  rw [text_ofBytes, untilNul_of_not_mem without]
  rfl

/-- A string made from a pointer and a length is a C string if the terminator is counted. -/
theorem hasLength_ofRange :
    (String.ofRange true bytes).HasLength lengthOf ↔ bytes.length = (untilNul bytes).length + 1 := by
  constructor
  · intro length
    rw [← text_ofBytes]
    exact length _ rfl
  · intro length b points
    obtain rfl := Option.some.inj points
    rw [text_ofBytes]
    exact length

/-- What is before the terminator alone is one too short. -/
theorem not_hasLength_ofRange (without : 0 ∉ bytes) :
    ¬ (String.ofRange true bytes).HasLength lengthOf := by
  rw [hasLength_ofRange, untilNul_of_not_mem without]
  exact Nat.ne_of_lt (Nat.lt_succ_self _)

/-- What `split` goes through is the text and its terminator. -/
theorem String.Kept.take_block (kept : s.Kept) {b : Chars} (points : s.buffer = some b) :
    s.block.take s.buffer_size = b.text ++ [0] := by
  obtain ⟨behind, split⟩ := b.split
  have size : s.buffer_size = b.text.length + 1 := kept.length b points
  rw [block, points, Option.map_some, Option.getD_some, split, size, List.take_length_add_append]
  rfl

theorem String.Kept.inside (kept : s.Kept) : s.buffer_size ≤ s.block.length := by
  cases points : s.buffer with
  | none =>
    rw [kept.unset points]
    exact Nat.zero_le _
  | some b =>
    have length := congrArg List.length (kept.take_block points)
    have size : s.buffer_size = b.text.length + 1 := kept.length b points
    rw [List.length_take, List.length_append, List.length_singleton, ← size] at length
    exact min_eq_left_iff.mp length

/-- The pieces of a split that are not moved. -/
def pieces (s : String) (separator : UInt8) : List (List UInt8) :=
  (s.block.take s.buffer_size).splitOn separator

/-- All pieces have the size of a C string exactly when the separator does not occur. -/
theorem pieces_hasLength (kept : s.Kept) :
    (∀ piece ∈ pieces s separator, (String.ofRange true piece).HasLength lengthOf) ↔
      s.buffer ≠ none ∧ separator ∉ s.block.take s.buffer_size := by
  cases points : s.buffer with
  | none =>
    refine ⟨fun all => ?_, fun given => absurd rfl given.1⟩
    have empty : pieces s separator = [[]] := by
      rw [pieces, kept.unset points, List.take_zero, List.splitOn_nil]
    exact absurd (all [] (empty ▸ List.mem_cons_self)) (not_hasLength_ofRange List.not_mem_nil)
  | some b =>
    rw [and_iff_right (Option.some_ne_none b)]
    have whole := kept.take_block points
    have plain : 0 ∉ b.text := not_mem_untilNul b.bytes
    constructor
    · intro all inside
      obtain ⟨first, rest, cut, without⟩ := List.eq_append_cons_of_mem inside
      have nul_free : 0 ∉ first := by
        have size := congrArg List.length (whole.symm.trans cut)
        simp only [List.length_append, List.length_cons, List.length_nil] at size
        have front : first <+: b.text := List.prefix_of_prefix_length_le
          ⟨separator :: rest, cut.symm.trans whole⟩ (List.prefix_append ..) (by omega)
        exact fun nul => plain (front.subset nul)
      refine not_hasLength_ofRange nul_free (all first ?_)
      rw [pieces, cut, List.splitOn_append_cons_self_of_not_mem without]
      exact List.mem_cons_self
    · intro without piece member
      rw [pieces, List.splitOn_eq_singleton without, List.mem_singleton] at member
      subst member
      rw [hasLength_ofRange, whole, List.length_append, untilNul_append plain, untilNul_nul,
        List.append_nil]
      rfl

/-- The pieces of the vector that `split` returns. -/
theorem reduceOption_ofList (l : List String) : (Block.ofList l).reduceOption = l := by
  change (l.map some).filterMap id = l
  rw [List.filterMap_map]
  exact List.filterMap_some

/-- The values after a split: its pieces are new, unless they are moved. -/
theorem split_step (kept : s.Kept) (given : ∀ k, granted k = (true, true)) (elided : Bool)
    (separator : UInt8) (small : s.buffer_size < 2 ^ 31) (strings : List String) :
    (s.split granted separator elided).map (strings ++ ·.elements.reduceOption) =
      some (strings ++ if elided then (pieces s separator).map (.ofRange true) else []) := by
  obtain ⟨output, represents, done⟩ := split_eq given elided separator small kept.inside
  rw [done, Option.map_some]
  cases elided with
  | false => rfl
  | true => rw [if_pos rfl, represents.elements, reduceOption_ofList]; rfl

theorem split_large (large : ¬ s.buffer_size < 2 ^ 31) : s.split granted separator elided = none :=
  if_neg fun given => large given.1

/-- **A sound operation keeps** the size of a C string. -/
theorem stringStep_kept {op : StringOp} (kept : ∀ s ∈ strings, s.Kept) (granted : op.Granted)
    (sound : op.Sound strings) :
    ∃ after, stringStep strings op = some after ∧ ∀ s ∈ after, s.Kept := by
  have added : ∀ s : String, s.Kept → ∀ x ∈ strings ++ [s], x.Kept := fun s new =>
    List.forall_mem_append.mpr ⟨kept, List.forall_mem_singleton.mpr new⟩
  cases op with
  | default => exact ⟨_, rfl, added _ kept_empty⟩
  | ofText text given =>
    obtain rfl : given = true := granted
    exact ⟨_, rfl, added _ (kept_ofText text.2)⟩
  | ofRange => exact sound.elim
  | copy i given =>
    obtain rfl : given = true := granted
    cases here : strings[i]? with
    | none => exact ⟨strings, by rw [stringStep, here, Option.elim_none], kept⟩
    | some s =>
      obtain ⟨b, points⟩ := Option.ne_none_iff_exists'.mp (sound s here)
      exact ⟨_, by rw [stringStep, here, Option.elim_some, String.copy, points]; rfl,
        added _ (kept_ofText (not_mem_untilNul b.bytes))⟩
  | assign i j given =>
    obtain rfl : given = true := granted
    cases target : strings[i]? with
    | none => exact ⟨strings, by rw [stringStep, target, Option.elim_none], kept⟩
    | some old => cases here : strings[j]? with
      | none =>
        exact ⟨strings, by rw [stringStep, target, Option.elim_some, here, Option.elim_none], kept⟩
      | some s =>
        obtain ⟨other, has⟩ := sound old s target here
        obtain ⟨b, points⟩ := Option.ne_none_iff_exists'.mp has
        refine ⟨strings.set i (.ofText true b.text), ?_, fun x member => ?_⟩
        · rw [stringStep, target, Option.elim_some, here, Option.elim_some, String.assign,
            decide_eq_false other, points]
          rfl
        · rcases List.mem_or_eq_of_mem_set member with before | rfl
          · exact kept x before
          · exact kept_ofText (not_mem_untilNul b.bytes)
  | split i separator given elided =>
    cases here : strings[i]? with
    | none => exact ⟨strings, by rw [stringStep, here, Option.elim_none], kept⟩
    | some s =>
      have kept_s := kept s (List.mem_of_getElem? here)
      obtain ⟨small, whole⟩ := sound s here
      have done := split_step kept_s granted elided separator small strings
      refine ⟨strings ++ if elided then (pieces s separator).map (.ofRange true) else [], ?_, ?_⟩
      · rw [stringStep, here, Option.elim_some]
        exact done
      · refine List.forall_mem_append.mpr ⟨kept, ?_⟩
        cases elided with
        | false => exact fun x none_there => absurd none_there List.not_mem_nil
        | true =>
          intro x new
          obtain ⟨piece, member, rfl⟩ := List.mem_map.mp new
          exact ⟨(pieces_hasLength kept_s).mpr (whole rfl) piece member, by rintro ⟨⟩⟩

/-- **Only a sound operation** does. -/
theorem sound_of_keepsLength {op : StringOp} (kept : ∀ s ∈ strings, s.Kept) (granted : op.Granted)
    (right : KeepsLength strings op) : op.Sound strings := by
  obtain ⟨after, done, lengths⟩ := right
  cases op with
  | default => trivial
  | ofText => trivial
  | ofRange bytes given =>
    obtain rfl : given = true := granted
    obtain rfl := Option.some.inj done
    exact not_hasLength_ofRange bytes.2
      (lengths _ (List.mem_append_right _ List.mem_cons_self))
  | copy i given =>
    intro s here unset
    rw [stringStep, here, Option.elim_some, String.copy, unset] at done
    cases done
  | assign i j given =>
    intro old s target here
    rw [stringStep, target, Option.elim_some, here, Option.elim_some, String.assign] at done
    constructor
    · rintro same
      rw [decide_eq_true same] at done
      cases done
    · intro unset
      rw [unset, Option.map_none, ite_self] at done
      cases done
  | split i separator given elided =>
    intro s here
    have kept_s := kept s (List.mem_of_getElem? here)
    rw [stringStep, here, Option.elim_some] at done
    have small : s.buffer_size < 2 ^ 31 := by
      by_contra large
      rw [split_large large] at done
      cases done
    refine ⟨small, ?_⟩
    rintro rfl
    rw [split_step kept_s granted true separator small, Option.some.injEq] at done
    refine (pieces_hasLength kept_s).mp fun piece member => lengths _ ?_
    rw [← done]
    exact List.mem_append_right _ (List.mem_map_of_mem member)

/-! ## Splitting a C string -/

theorem splitsBack_iff (without : 0 ∉ text) (printed : separator ≠ 0)
    (given : ∀ k, granted k = (true, true)) :
    SplitsBack granted elided text separator ↔ elided = true ∧ text.length + 1 < 2 ^ 31 := by
  have kept := kept_ofText without
  have whole : (String.ofText true text).block.take (String.ofText true text).buffer_size =
      text ++ [0] := by
    rw [kept.take_block rfl, text_ofBytes, untilNul_of_not_mem without]
  constructor
  · rintro ⟨output, pieces, done, shown, splits⟩
    have small : text.length + 1 < 2 ^ 31 := by
      by_contra large
      rw [split_large large] at done
      cases done
    refine ⟨?_, small⟩
    by_contra moved
    obtain ⟨output', -, done'⟩ := split_eq given elided separator small kept.inside
    rw [done', if_neg moved, Option.some.injEq] at done
    subst done
    have length := congrArg List.length shown
    rw [List.length_map, List.length_map, splits.count] at length
    cases length
  · rintro ⟨rfl, small⟩
    obtain ⟨output, represents, done⟩ := split_eq given true separator small kept.inside
    refine ⟨output, text.splitOn separator, done, ?_, splits_splitOn text separator⟩
    rw [represents.elements, whole, ← untilNul_splitOn without printed, Block.ofList, List.map_map,
      List.map_map, List.map_map]
    refine List.map_congr_left fun piece _ => ?_
    exact congrArg some (text_ofBytes piece)

/-- **Strings keep the length of a C string** in a run whose memory is granted, if and only if none is
made from a pointer and a length or assigned to itself, and the separator occurs in none that is
split; and a C string that is split gives back its text if and only if `int` counts its characters and
the pieces are not moved. -/
theorem one_length_iff (ops : List StringOp) (text : Text0) (separator : UInt8)
    (granted : Nat → Bool × Bool) (elided : Bool) :
    ((∀ op ∈ ops, op.Granted) →
      (Throughout stringStep KeepsLength [] ops ↔
        Throughout stringStep (fun strings op => op.Sound strings) [] ops)) ∧
    (separator ≠ 0 → (∀ k, granted k = (true, true)) →
      (SplitsBack granted elided text separator ↔ elided = true ∧ text.1.length + 1 < 2 ^ 31)) := by
  refine ⟨fun given => ?_, fun printed given => splitsBack_iff text.2 printed given⟩
  refine throughout_iff (fun strings => ∀ s ∈ strings, s.Kept)
    (fun _ none_there => absurd none_there List.not_mem_nil) (throughout_of_forall given)
    (fun strings op kept given => ?_) fun strings op after kept given right ran => ?_
  · constructor
    · exact sound_of_keepsLength kept given
    · intro sound
      obtain ⟨after, done, kept'⟩ := stringStep_kept kept given sound
      exact ⟨after, done, fun s member => (kept' s member).length⟩
  · obtain ⟨after', done, kept'⟩ :=
      stringStep_kept kept given (sound_of_keepsLength kept given right)
    obtain rfl := Option.some.inj (ran.symm.trans done)
    exact kept'

/-- A string and its copy. -/
theorem one_length_copy :
    Throughout stringStep KeepsLength [] [.ofText ⟨[], List.not_mem_nil⟩ true, .copy 0 true] := by
  refine ((one_length_iff _ ⟨[], List.not_mem_nil⟩ 44 (fun _ => (true, true)) true).1 ?_).mpr ?_
  · rintro op (_ | ⟨_, _ | ⟨_, ⟨⟩⟩⟩) <;> exact rfl
  · refine ⟨trivial, ?_⟩
    rintro _ ⟨⟩
    refine ⟨?_, fun _ _ => trivial⟩
    rintro _ ⟨⟩ ⟨⟩

theorem zero_not_mem_ab : 0 ∉ ascii "ab" := by decide

/-- Both constructors make a string of the text `ab`, of different sizes. -/
theorem lengths_differ : ¬ ∃ f, ∀ strings ∈ stringStep [.ofText true (ascii "ab")]
    (.ofRange ⟨ascii "ab", zero_not_mem_ab⟩ true), OneLength f strings := by
  rintro ⟨f, all⟩
  have lengths := all _ rfl
  have first : 3 = f (ascii "ab") := lengths _ List.mem_cons_self _ rfl
  have second : 2 = f (ascii "ab") := lengths _ (List.mem_cons_of_mem _ List.mem_cons_self) _ rfl
  omega

end DCScan.Utils
