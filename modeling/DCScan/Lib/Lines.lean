import DCScan.Lib.Text

/-!
Texts as the lists of their lines, each with the character that ends it, and the search for the first
place in a text where a pattern stands.

A pattern that has no end of line in it stands inside one line (`not_prefix_of_line`), so that a
search passes over the lines it does not occur in (`seek_append`).
-/

namespace DCScan.Lib

variable {ends : Char → Bool} {p : Text → Bool} {s l rest pattern : Text} {lines : List Text}

/-! ## Lines -/

/-- Splits behind every character that ends a line. -/
def splitLines (ends : Char → Bool) : Text → List Text
  | [] => []
  | c :: s =>
    if ends c then [c] :: splitLines ends s
    else
      match splitLines ends s with
      | [] => [[c]]
      | l :: ls => (c :: l) :: ls

theorem flatten_splitLines (ends : Char → Bool) (s : Text) : (splitLines ends s).flatten = s := by
  induction s with
  | nil => rfl
  | cons c s ih =>
    rw [splitLines]
    split
    · exact congrArg (c :: ·) ih
    · cases there : splitLines ends s with
      | nil =>
        rw [there] at ih
        exact congrArg (c :: ·) ih
      | cons l ls =>
        rw [there] at ih
        exact congrArg (c :: ·) ih

theorem ne_nil_of_mem_splitLines (member : l ∈ splitLines ends s) : l ≠ [] := by
  induction s generalizing l with
  | nil => cases member
  | cons c s ih =>
    rw [splitLines] at member
    split at member
    · rcases List.mem_cons.mp member with rfl | later
      · exact List.cons_ne_nil _ _
      · exact ih later
    · split at member
      · rw [List.mem_singleton.mp member]
        exact List.cons_ne_nil _ _
      · rename_i there
        rcases List.mem_cons.mp member with rfl | later
        · exact List.cons_ne_nil _ _
        · exact ih (there ▸ List.mem_cons_of_mem _ later)

/-- Lines of which no character ends one but the last, and all end but the last one. -/
structure Lines (ends : Char → Bool) (lines : List Text) : Prop where
  nonempty : ∀ l ∈ lines, l ≠ []
  inner : ∀ l ∈ lines, ∀ c ∈ l.dropLast, ends c = false
  ended : lines.Pairwise fun l _ => ∃ c, l.getLast? = some c ∧ ends c = true

theorem Lines.sublist {fewer : List Text} (whole : Lines ends lines) (part : fewer.Sublist lines) :
    Lines ends fewer :=
  ⟨fun l member => whole.nonempty l (part.subset member),
    fun l member => whole.inner l (part.subset member), whole.ended.sublist part⟩

/-- A line without its last character is passed over. -/
theorem splitLines_append (inner : ∀ c ∈ l, ends c = false) (there : splitLines ends s = rest :: lines) :
    splitLines ends (l ++ s) = (l ++ rest) :: lines := by
  induction l with
  | nil => exact there
  | cons c l ih =>
    rw [List.cons_append, splitLines, if_neg (by rw [inner c List.mem_cons_self]; exact Bool.noConfusion),
      ih fun d member => inner d (List.mem_cons_of_mem c member)]
    rfl

/-- The lines are split where they were joined. -/
theorem splitLines_flatten (whole : Lines ends lines) : splitLines ends lines.flatten = lines := by
  induction lines with
  | nil => rfl
  | cons l ls ih =>
    have tail := ih (whole.sublist (List.sublist_cons_self l ls))
    have nonempty := whole.nonempty l List.mem_cons_self
    have split := List.dropLast_concat_getLast nonempty
    have inner := whole.inner l List.mem_cons_self
    rw [List.flatten_cons]
    by_cases ended : ends (l.getLast nonempty) = true
    · have first : splitLines ends ([l.getLast nonempty] ++ ls.flatten) = [l.getLast nonempty] :: ls := by
        rw [List.singleton_append, splitLines, if_pos ended, tail]
      have whole := splitLines_append inner first
      rwa [← List.append_assoc, split] at whole
    · cases ls with
      | nil =>
        have first : splitLines ends [l.getLast nonempty] = [[l.getLast nonempty]] := by
          rw [splitLines, if_neg ended]
          rfl
        have whole := splitLines_append inner first
        rw [split] at whole
        rwa [List.flatten_nil, List.append_nil]
      | cons next ls =>
        obtain ⟨c, last, ends_here⟩ := List.rel_of_pairwise_cons whole.ended List.mem_cons_self
        rw [List.getLast?_eq_some_getLast nonempty, Option.some.injEq] at last
        exact absurd (last ▸ ends_here) ended

/-! ## The first place -/

/-- The text in front of the first place where `p` holds, and the text from there on. -/
def seek (p : Text → Bool) : Text → Option (Text × Text)
  | [] => none
  | c :: s => if p (c :: s) then some ([], c :: s) else (seek p s).map fun found => (c :: found.1, found.2)

theorem seek_eq_append {found : Text × Text} (here : seek p s = some found) :
    s = found.1 ++ found.2 ∧ found.2 ≠ [] := by
  induction s generalizing found with
  | nil => cases here
  | cons c s ih =>
    rw [seek] at here
    split at here
    · obtain rfl := Option.some.inj here
      exact ⟨rfl, List.cons_ne_nil _ _⟩
    · obtain ⟨later, there, rfl⟩ := Option.map_eq_some_iff.mp here
      obtain ⟨whole, nonempty⟩ := ih there
      exact ⟨congrArg (c :: ·) whole, nonempty⟩

theorem seek_of_holds (nonempty : s ≠ []) (here : p s = true) : seek p s = some ([], s) := by
  cases s with
  | nil => exact absurd rfl nonempty
  | cons c s => exact if_pos here

/-- What does not hold at any place of a text is sought behind it. -/
theorem seek_append (nowhere : ∀ s, s ≠ [] → s <:+ l → p (s ++ rest) = false) :
    seek p (l ++ rest) = (seek p rest).map fun found => (l ++ found.1, found.2) := by
  induction l with
  | nil => exact Option.map_id'.symm
  | cons c l ih =>
    have here := nowhere (c :: l) (List.cons_ne_nil c l) List.suffix_rfl
    have tail := ih fun s nonempty part => nowhere s nonempty (part.trans (List.suffix_cons c l))
    rw [List.cons_append, seek, if_neg (by rw [← List.cons_append, here]; exact Bool.noConfusion), tail,
      Option.map_map]
    rfl

/-- A character is found where it first stands. -/
theorem seek_char {c : Char} (absent : c ∉ l) :
    seek [c].isPrefixOf (l ++ c :: rest) = some (l, c :: rest) := by
  have nowhere : ∀ s, s ≠ [] → s <:+ l → [c].isPrefixOf (s ++ c :: rest) = false := by
    intro s nonempty part
    obtain ⟨d, s, rfl⟩ := List.exists_cons_of_ne_nil nonempty
    have differs : c ≠ d := by
      rintro rfl
      exact absent (part.subset List.mem_cons_self)
    simp [List.isPrefixOf, differs]
  rw [seek_append nowhere, seek_of_holds (List.cons_ne_nil _ _) (by simp [List.isPrefixOf])]
  simp

/-- What a search does not find is not in the text. -/
theorem not_infix_of_seek (nonempty : pattern ≠ []) (nowhere : seek pattern.isPrefixOf s = none) :
    ¬ pattern <:+: s := by
  induction s with
  | nil => exact fun inside => nonempty (List.infix_nil.mp inside)
  | cons c s ih =>
    rw [seek] at nowhere
    split at nowhere
    · cases nowhere
    · rename_i here
      rw [List.isPrefixOf_iff_prefix] at here
      exact fun inside => (List.infix_cons_iff.mp inside).elim here (ih (Option.map_eq_none_iff.mp nowhere))

/-- A pattern without the character that ends a line does not begin in a line and end behind it. -/
theorem not_prefix_of_line {e : Char} (single : e ∉ pattern) (absent : ¬ pattern <:+: l)
    (ended : l.getLast? = some e ∨ rest = []) (nonempty : s ≠ []) (part : s <:+ l) :
    ¬ pattern <+: s ++ rest := by
  intro begins
  rcases Nat.le_total pattern.length s.length with short | long
  · have inside := List.prefix_of_prefix_length_le begins (List.prefix_append s rest) short
    exact absent (inside.isInfix.trans part.isInfix)
  · rcases ended with last | rfl
    · have inside := List.prefix_of_prefix_length_le (List.prefix_append s rest) begins long
      refine single (inside.subset ?_)
      obtain ⟨front, rfl⟩ := part
      rw [List.getLast?_append_of_ne_nil front nonempty] at last
      exact List.mem_of_getLast? last
    · rw [List.append_nil] at begins
      exact absent (begins.isInfix.trans part.isInfix)

end DCScan.Lib
