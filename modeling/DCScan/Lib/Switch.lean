import Mathlib.Data.List.Basic
import Mathlib.Data.List.Nodup

/-!
Numbered names: a list of definitions, of which the last one of a name stands, and a switch
whose case labels are such names.
-/

namespace DCScan.Lib

variable {κ ν β : Type} {defines : List (κ × ν)} {cases : List (κ × β)} {name : κ} {value : ν}
  {body : β}

/-- Names numbered from `n` on are numbered alike only when they are the same, in the same order. -/
theorem eq_of_mem_zipIdx {names other : List κ} {n : Nat}
    (same : ∀ x, x ∈ names.zipIdx n ↔ x ∈ other.zipIdx n) : names = other := by
  have found : ∀ {xs : List κ} {i : Nat} {x : κ}, xs[i]? = some x ↔ (x, n + i) ∈ xs.zipIdx n := by
    intro xs i x
    rw [List.mk_mem_zipIdx_iff_le_and_getElem?_sub]
    simp
  ext i x
  rw [found, same, ← found]

/-- Where something satisfies `p`, something is found that does. -/
theorem exists_find? {items : List β} {p : β → Bool} {x : β} (member : x ∈ items)
    (holds : p x = true) : ∃ y ∈ items, p y = true ∧ items.find? p = some y := by
  have found : (items.find? p).isSome := List.find?_isSome.mpr ⟨x, member, holds⟩
  obtain ⟨y, first⟩ := Option.isSome_iff_exists.mp found
  exact ⟨y, List.mem_of_find?_eq_some first, List.find?_some first, first⟩

variable [DecidableEq κ]

/-- Where no two items have one key, an item is found by its key. -/
theorem find?_of_distinct {items : List β} {key : β → κ} {x : β} (distinct : (items.map key).Nodup)
    (member : x ∈ items) : items.find? (fun y => key y = key x) = some x := by
  obtain ⟨y, there, same, first⟩ := exists_find? (p := fun y => key y = key x) member
    (decide_eq_true rfl)
  rw [first, List.inj_on_of_nodup_map distinct there member (of_decide_eq_true same)]

/-- What a name stands for. -/
def resolve (defines : List (κ × ν)) (name : κ) : Option ν :=
  (defines.reverse.find? fun d => d.1 = name).map Prod.snd

/-- The body of the case whose label stands for the value. -/
def switchOn [DecidableEq ν] (defines : List (κ × ν)) (cases : List (κ × β)) (value : ν) :
    Option β :=
  (cases.find? fun c => resolve defines c.1 = some value).map Prod.snd

/-- A name defined once stands for what it is defined as. -/
theorem resolve_of_mem (distinct : (defines.map Prod.fst).Nodup)
    (member : (name, value) ∈ defines) :
    resolve defines name = some value := by
  have reversed : (defines.reverse.map Prod.fst).Nodup := by
    rwa [List.map_reverse, List.nodup_reverse]
  rw [resolve, find?_of_distinct reversed (List.mem_reverse.mpr member), Option.map_some]

/-- A name that is defined stands for something. -/
theorem resolve_of_name (defined : name ∈ defines.map Prod.fst) :
    ∃ value, resolve defines name = some value := by
  obtain ⟨d, member, rfl⟩ := List.mem_map.mp defined
  obtain ⟨e, -, -, first⟩ := exists_find? (p := fun e => e.1 = d.1) (List.mem_reverse.mpr member)
    (decide_eq_true rfl)
  exact ⟨e.2, by rw [resolve, first, Option.map_some]⟩

/-- Where no two cases have one value, a case is found by the value of its label. -/
theorem switchOn_of_mem [DecidableEq ν] (label : resolve defines name = some value)
    (member : (name, body) ∈ cases)
    (unique : ∀ c ∈ cases, resolve defines c.1 = some value → c.2 = body) :
    switchOn defines cases value = some body := by
  obtain ⟨c, there, matched, first⟩ := exists_find?
    (p := fun c => resolve defines c.1 = some value) member (decide_eq_true label)
  rw [switchOn, first, Option.map_some, unique c there (of_decide_eq_true matched)]

/-! ## Numbering -/

variable {ι : Type} {zero : κ} {names : List κ} {i : Nat}

/-- `zero` stands for 0, and the names are numbered from 1. -/
def numbered (zero : κ) (names : List κ) : List (κ × Nat) := (zero, 0) :: names.zipIdx 1

omit [DecidableEq κ] in
@[simp] theorem numbered_names : (numbered zero names).map Prod.fst = zero :: names := by
  simp [numbered, List.zipIdx_map_fst]

omit [DecidableEq κ] in
/-- Names are numbered alike only when they are listed alike. -/
theorem eq_of_mem_numbered {other : List κ}
    (same : ∀ x, x ∈ numbered zero names ↔ x ∈ numbered zero other) :
    names = other := by
  refine eq_of_mem_zipIdx (n := 1) fun x => ?_
  have positive : ∀ {xs : List κ}, x ∈ xs.zipIdx 1 → x ≠ (zero, 0) := by
    rintro xs member rfl
    have := (List.mem_zipIdx member).1
    omega
  have inside : ∀ {xs : List κ}, x ∈ xs.zipIdx 1 ↔ x ≠ (zero, 0) ∧ x ∈ numbered zero xs := by
    intro xs
    constructor
    · exact fun member => ⟨positive member, List.mem_cons_of_mem _ member⟩
    · rintro ⟨other, member⟩
      exact (List.mem_cons.mp member).resolve_left other
  rw [inside, inside, same]

omit [DecidableEq κ] in
/-- Items with distinct names, of which two lists hold the same and list the names alike, are listed
alike. -/
theorem eq_of_perm {items other : List ι} {label : ι → κ} (perm : items.Perm other)
    (same : items.map label = other.map label) (distinct : (items.map label).Nodup) :
    items = other := by
  have length := perm.length_eq
  refine List.ext_getElem length fun j in_items in_other => ?_
  have names : label items[j] = label other[j] := by
    have at_j := congrArg (fun l : List κ => l[j]?) same
    simpa [in_items, in_other] using at_j
  exact List.inj_on_of_nodup_map distinct (List.getElem_mem in_items)
    (perm.mem_iff.mpr (List.getElem_mem in_other)) names

theorem resolve_numbered (distinct : (zero :: names).Nodup) (position : names[i]? = some name) :
    resolve (numbered zero names) name = some (i + 1) := by
  refine resolve_of_mem (by rwa [numbered_names]) (List.mem_cons_of_mem _ ?_)
  rw [List.mk_mem_zipIdx_iff_le_and_getElem?_sub]
  exact ⟨by omega, by simpa using position⟩

/-- A switch with a case for some of the numbered items takes each by its number. -/
theorem switchOn_numbered {items chosen : List ι} {x : ι} (label : ι → κ) (body : ι → β)
    (distinct : (zero :: items.map label).Nodup) (within : ∀ y ∈ chosen, y ∈ items)
    (position : items[i]? = some x) (member : x ∈ chosen) :
    switchOn (numbered zero (items.map label)) (chosen.map fun y => (label y, body y)) (i + 1) =
      some (body x) := by
  have value : ∀ {j y}, items[j]? = some y →
      resolve (numbered zero (items.map label)) (label y) = some (j + 1) :=
    fun at_j => resolve_numbered distinct (by rw [List.getElem?_map, at_j, Option.map_some])
  refine switchOn_of_mem (value position)
    (List.mem_map.mpr ⟨x, member, rfl⟩) fun c case matched => ?_
  obtain ⟨y, chosen_y, rfl⟩ := List.mem_map.mp case
  obtain ⟨j, at_j⟩ := List.mem_iff_getElem?.mp (within y chosen_y)
  rw [value at_j, Option.some.injEq, Nat.add_right_cancel_iff] at matched
  rw [matched, position, Option.some.injEq] at at_j
  rw [at_j]

end DCScan.Lib
