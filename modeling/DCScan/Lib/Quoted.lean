import Mathlib.Data.List.Basic

/-!
Quoted tokens: a token ends at the first quote that is not doubled, and a doubled quote stands for
one.
-/

namespace DCScan.Lib

variable {α : Type} [DecidableEq α] {quote : α} {token text rest : List α}

/-- What is written between quotes for a token. -/
def escape (quote : α) (token : List α) : List α :=
  token.flatMap fun c => if c = quote then [quote, quote] else [c]

/-- The token whose first quote has been read, and the text behind it; `none` when it has no end. -/
def unquote (quote : α) : List α → Option (List α × List α)
  | [] => none
  | [c] => if c = quote then some ([], []) else none
  | c :: d :: rest =>
    if c = quote then
      if d = quote then (unquote quote rest).map fun read => (quote :: read.1, read.2)
      else some ([], d :: rest)
    else (unquote quote (d :: rest)).map fun read => (c :: read.1, read.2)

theorem unquote_cons_of_ne {c : α} (other : c ≠ quote) :
    unquote quote (c :: text) = (unquote quote text).map fun read => (c :: read.1, read.2) := by
  cases text <;> simp [unquote, other]

theorem escape_of_not_mem (plain : quote ∉ token) : escape quote token = token := by
  induction token with
  | nil => rfl
  | cons c token ih =>
    have other : c ≠ quote := fun same => plain (by simp [same])
    have tail := ih fun inside => plain (List.mem_cons_of_mem c inside)
    rw [escape, List.flatMap_cons, if_neg other]
    exact congrArg (c :: ·) tail

theorem length_le_escape (quote : α) (token : List α) :
    token.length ≤ (escape quote token).length := by
  induction token with
  | nil => exact Nat.zero_le _
  | cons c token ih =>
    have longer : 1 ≤ (if c = quote then [quote, quote] else [c]).length := by split <;> simp
    rw [escape, List.flatMap_cons, List.length_append, List.length_cons]
    rw [escape] at ih
    omega

theorem subset_escape (quote : α) (token : List α) : token ⊆ escape quote token := by
  intro c member
  refine List.mem_flatMap.mpr ⟨c, member, ?_⟩
  split
  · rename_i same
    rw [same]
    exact List.mem_cons_self ..
  · exact List.mem_singleton_self c

/-- Only a token without a quote is written as it is. -/
theorem not_mem_of_escape_eq (same : escape quote token = token) : quote ∉ token := by
  induction token with
  | nil => simp
  | cons c token ih =>
    rw [escape, List.flatMap_cons] at same
    by_cases here : c = quote
    · have longer := congrArg List.length same
      have tail := length_le_escape quote token
      rw [if_pos here, List.length_append] at longer
      rw [escape] at tail
      simp only [List.length_cons, List.length_nil] at longer
      omega
    · rw [if_neg here] at same
      have tail := ih (List.cons.inj same).2
      simpa [Ne.symm here] using tail

/-- What was read was written for the token. -/
theorem eq_escape_of_unquote (read : unquote quote text = some (token, rest)) :
    text = escape quote token ++ quote :: rest := by
  fun_induction unquote quote text generalizing token with
  | case1 => cases read
  | case2 => cases read; rfl
  | case3 => cases read
  | case4 more ih =>
    obtain ⟨⟨inner, behind⟩, before, same⟩ := Option.map_eq_some_iff.mp read
    cases same
    simp [ih before, escape]
  | case5 d more other => cases read; rfl
  | case6 c d more other ih =>
    obtain ⟨⟨inner, behind⟩, before, same⟩ := Option.map_eq_some_iff.mp read
    cases same
    simp [ih before, escape, other]

/-- A token without a quote is read back. -/
theorem unquote_of_not_mem (plain : quote ∉ token) :
    unquote quote (token ++ [quote]) = some (token, []) := by
  induction token with
  | nil => simp [unquote]
  | cons c token ih =>
    have other : c ≠ quote := fun same => plain (by simp [same])
    have tail := ih fun inside => plain (List.mem_cons_of_mem c inside)
    rw [List.cons_append, unquote_cons_of_ne other, tail]
    rfl

end DCScan.Lib
