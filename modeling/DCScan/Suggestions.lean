import Mathlib.Data.List.Induction
import DCScan.Lib.Bytes
import DCScan.Lib.EditDistance

/-!
The suggestion of a command: `LevenshteinDistance`, and `Command::Closest` over the registry.

The recurrence is that of the edit distance but for its cost, which compares the characters of both
strings at the row's index, one too high and on one axis. What it computes is therefore the longer
length less the rows whose characters agree, as many as there are columns for.
-/

namespace DCScan.CLI

open Lib

/-- What a call depends on beside its strings: whether `malloc` gives the matrix, what it holds, and
what lies behind the terminators of the strings. -/
structure Memory where
  granted : Bool
  fresh : Nat → Nat → Nat
  behind1 : Nat → UInt8
  behind2 : Nat → UInt8

/-- `s[i]`: the terminator is at `s.size()`. -/
def charAt (behind : Nat → UInt8) (s : List UInt8) (i : Nat) : UInt8 :=
  ((s ++ [0])[i]?).getD (behind i)

/-- The least of the three as the nested tests find it. -/
def least (cI cD cS : Nat) : Nat :=
  if cI ≤ cD then if cI ≤ cS then cI else cS
  else if cD ≤ cS then cD else cS

section matrix
variable (s1 s2 : Nat → UInt8) (L1 : Nat)

def cost (i : Nat) : Nat := if s1 i ≠ s2 i then 1 else 0

/-- The body of the loops, for row `i` and column `j`. -/
def setCell (DM : Nat → Nat → Nat) (i j : Nat) : Nat → Nat → Nat :=
  Function.update DM i (Function.update (DM i) j
    (least (DM (i - 1) j + 1) (DM i (j - 1) + 1) (DM (i - 1) (j - 1) + cost s1 s2 i)))

/-- The inner loop. -/
def fillColumn (DM : Nat → Nat → Nat) (j : Nat) : Nat → Nat → Nat :=
  (List.range' 1 (L1 - 1)).foldl (fun DM i => setCell s1 s2 DM i j) DM

/-- The matrix after the first two loops. -/
def borders (fresh : Nat → Nat → Nat) : Nat → Nat → Nat :=
  fun i j => if i = 0 then j else if j = 0 then i else fresh i j

/-- The matrix `DM`. -/
def fill (L2 : Nat) (fresh : Nat → Nat → Nat) : Nat → Nat → Nat :=
  (List.range' 1 (L2 - 1)).foldl (fillColumn s1 s2 L1) (borders fresh)

end matrix

/-- The distance, and the indices both strings were read at. -/
structure Comparison where
  distance : Nat
  read : List Nat
  deriving DecidableEq, Repr

/-- `(i32)s.size() + 1`. -/
def dimension (s : List UInt8) : Int := signed 32 s.length + 1

/-- `LevenshteinDistance`; `none` when an `int` overflows, or the matrix is not there or has no cell
that has been written. -/
def LevenshteinDistance (m : Memory) (s1 s2 : List UInt8) : Option Comparison :=
  let L1 := dimension s1
  let L2 := dimension s2
  if m.granted = true ∧ 1 ≤ L1 ∧ L1 < 2 ^ 31 ∧ 1 ≤ L2 ∧ L2 < 2 ^ 31 ∧ L1 * L2 ≤ 2 ^ 31 then
    some ⟨fill (charAt m.behind1 s1) (charAt m.behind2 s2) L1.toNat L2.toNat m.fresh
        (L1.toNat - 1) (L2.toNat - 1),
      (List.range' 1 (L2.toNat - 1)).flatMap fun _ => List.range' 1 (L1.toNat - 1)⟩
  else none

/-- `min` and `min_c`. -/
structure Best where
  min : Nat
  min_c : Option (List UInt8)

/-- The body of the loop of `Closest`, for the `k`th registered command. -/
def compare (memory : Nat → Memory) (name : List UInt8) (best : Best) (k : Nat) (cmd : List UInt8) :
    Option Best :=
  (LevenshteinDistance (memory k) name cmd).map fun lmin =>
    if lmin.distance < best.min then ⟨lmin.distance, some cmd⟩ else best

/-- The loop from the `k`th command on. -/
def closestFrom (memory : Nat → Memory) (name : List UInt8) :
    Nat → List (List UInt8) → Best → Option Best
  | _, [], best => some best
  | k, cmd :: rest, best =>
    (compare memory name best k cmd).bind (closestFrom memory name (k + 1) rest)

/-- `Command::Closest`, over the names of the registered commands in their order: the name of the
command, unless it is a null pointer. -/
def Closest (memory : Nat → Memory) (registry : List (List UInt8)) (name : List UInt8) :
    Option (Option (List UInt8)) :=
  (closestFrom memory name 0 registry ⟨0xFFFFFF, none⟩).map Best.min_c

/-- No character beyond either string is read. -/
def Within (s1 s2 : List UInt8) (r : Comparison) : Prop :=
  ∀ i ∈ r.read, i < s1.length ∧ i < s2.length

/-- The distance is the edit distance, found within both strings. -/
def Measures (m : Memory) (s1 s2 : List UInt8) : Prop :=
  ∃ r, LevenshteinDistance m s1 s2 = some r ∧ IsEditDistance s1 s2 r.distance ∧ Within s1 s2 r

/-- A registered command at minimal edit distance is returned, and no comparison leaves its strings. -/
structure Suggests (memory : Nat → Memory) (registry : List (List UInt8)) (name : List UInt8) :
    Prop where
  closest : ∃ c ∈ registry, Closest memory registry name = some (some c) ∧
    ∀ d ∈ registry, editDistance name c ≤ editDistance name d
  within : ∀ k cmd, registry[k]? = some cmd → ∀ r, LevenshteinDistance (memory k) name cmd = some r →
    Within name cmd r

variable {s1 s2 : List UInt8} {c1 c2 : Nat → UInt8} {m : Memory} {L1 L2 : Nat}

/-! ## The matrix -/

theorem least_eq (cI cD cS : Nat) : least cI cD cS = min cI (min cD cS) := by
  unfold least
  split_ifs <;> omega

/-- The rows up to the `i`th whose characters agree. -/
def agreeing (c1 c2 : Nat → UInt8) : Nat → Nat
  | 0 => 0
  | i + 1 => agreeing c1 c2 i + if c1 (i + 1) = c2 (i + 1) then 1 else 0

theorem agreeing_le (i : Nat) : agreeing c1 c2 i ≤ i := by
  induction i with
  | zero => exact Nat.le_refl 0
  | succ i ih =>
    rw [agreeing]
    split_ifs <;> omega

/-- What is computed in row `i` and column `j`. -/
def computed (c1 c2 : Nat → UInt8) (i j : Nat) : Nat := max i j - min j (agreeing c1 c2 i)

theorem computed_zero_left (j : Nat) : computed c1 c2 0 j = j := by
  rw [computed, agreeing]
  omega

theorem computed_zero_right (i : Nat) : computed c1 c2 i 0 = i := by
  rw [computed]
  omega

theorem computed_of_le {i j : Nat} (above : i ≤ j) : computed c1 c2 i j = j - agreeing c1 c2 i := by
  have few : agreeing c1 c2 i ≤ i := agreeing_le i
  rw [computed, max_eq_right above, min_eq_right (few.trans above)]

theorem computed_of_ge {i j : Nat} (below : j ≤ i) :
    computed c1 c2 i j = i - min j (agreeing c1 c2 i) := by
  rw [computed, max_eq_left below]

/-- The recurrence. -/
theorem computed_succ (i j : Nat) : computed c1 c2 (i + 1) (j + 1) =
    least (computed c1 c2 i (j + 1) + 1) (computed c1 c2 (i + 1) j + 1)
      (computed c1 c2 i j + cost c1 c2 (i + 1)) := by
  have few : agreeing c1 c2 i ≤ i := agreeing_le i
  have next : agreeing c1 c2 (i + 1) + cost c1 c2 (i + 1) = agreeing c1 c2 i + 1 := by
    rw [agreeing, cost]
    by_cases same : c1 (i + 1) = c2 (i + 1)
    · rw [if_pos same, if_neg (not_not.mpr same)]
    · rw [if_neg same, if_pos same]
  have step : cost c1 c2 (i + 1) ≤ 1 := by
    rw [cost]
    split_ifs <;> omega
  rw [least_eq]
  rcases Nat.lt_trichotomy i j with above | rfl | below
  · rw [computed_of_le (by omega : i + 1 ≤ j + 1), computed_of_le (by omega : i ≤ j + 1),
      computed_of_le (by omega : i + 1 ≤ j), computed_of_le above.le]
    omega
  · rw [computed_of_le (Nat.le_refl (i + 1)), computed_of_le (Nat.le_add_right i 1),
      computed_of_ge (Nat.le_add_right i 1), computed_of_le (Nat.le_refl i)]
    omega
  · rw [computed_of_ge (by omega : j + 1 ≤ i + 1), computed_of_ge (by omega : j + 1 ≤ i),
      computed_of_ge (by omega : j ≤ i + 1), computed_of_ge below.le]
    omega

/-- All cells of the columns before `j`, and of column `j` down to row `k`, are computed. -/
def Filled (c1 c2 : Nat → UInt8) (L1 j k : Nat) (DM : Nat → Nat → Nat) : Prop :=
  ∀ i < L1, ∀ j', i = 0 ∨ j' < j ∨ (j' = j ∧ i ≤ k) → DM i j' = computed c1 c2 i j'

theorem filled_borders (fresh : Nat → Nat → Nat) : Filled c1 c2 L1 1 0 (borders fresh) := by
  intro i _ j' here
  unfold borders
  by_cases first : i = 0
  · subst first
    rw [if_pos rfl, computed_zero_left]
  · have zero : j' = 0 := by omega
    subst zero
    rw [if_neg first, if_pos rfl, computed_zero_right]

/-- The next cell of a column. -/
theorem Filled.setCell {DM : Nat → Nat → Nat} {j k : Nat} (filled : Filled c1 c2 L1 (j + 1) k DM)
    (inside : k + 1 < L1) : Filled c1 c2 L1 (j + 1) (k + 1) (setCell c1 c2 DM (k + 1) (j + 1)) := by
  intro i below j' here
  unfold CLI.setCell
  by_cases row : i = k + 1
  · subst row
    rw [Function.update_self]
    by_cases column : j' = j + 1
    · subst column
      rw [Function.update_self, Nat.add_sub_cancel, Nat.add_sub_cancel, computed_succ,
        filled k (by omega) (j + 1) (by omega), filled (k + 1) inside j (by omega),
        filled k (by omega) j (by omega)]
    · rw [Function.update_of_ne column]
      exact filled (k + 1) inside j' (by omega)
  · rw [Function.update_of_ne row]
    exact filled i below j' (by omega)

/-- **A column is filled** row by row. -/
theorem filled_fillColumn {DM : Nat → Nat → Nat} {j : Nat} (filled : Filled c1 c2 L1 (j + 1) 0 DM) :
    Filled c1 c2 L1 (j + 2) 0 (fillColumn c1 c2 L1 DM (j + 1)) := by
  have rows : ∀ n ≤ L1 - 1, Filled c1 c2 L1 (j + 1) n
      ((List.range' 1 n).foldl (fun DM i => setCell c1 c2 DM i (j + 1)) DM) := by
    intro n most
    induction n with
    | zero => exact filled
    | succ n ih =>
      rw [List.range'_1_concat, List.foldl_concat, Nat.add_comm 1 n]
      exact (ih (by omega)).setCell (by omega)
  intro i below j' here
  exact rows (L1 - 1) (Nat.le_refl _) i below j' (by omega)

/-- **The matrix is filled** column by column. -/
theorem filled_fill (L2 : Nat) (fresh : Nat → Nat → Nat) :
    Filled c1 c2 L1 (L2 - 1 + 1) 0 (fill c1 c2 L1 L2 fresh) := by
  unfold fill
  generalize L2 - 1 = n
  induction n with
  | zero => exact filled_borders fresh
  | succ n ih =>
    rw [List.range'_1_concat, List.foldl_concat, Nat.add_comm 1 n]
    exact filled_fillColumn ih

theorem fill_last (positive : 0 < L1) (L2 : Nat) (fresh : Nat → Nat → Nat) :
    fill c1 c2 L1 L2 fresh (L1 - 1) (L2 - 1) = computed c1 c2 (L1 - 1) (L2 - 1) :=
  filled_fill L2 fresh (L1 - 1) (by omega) (L2 - 1) (by omega)

/-! ## The distance -/

/-- The size of a string that an `int` can count with its terminator. -/
def Counted (s : List UInt8) : Prop := s.length < 2 ^ 31 - 1

instance (s : List UInt8) : Decidable (Counted s) := Nat.decLt _ _

theorem Counted.dimension {s : List UInt8} (counted : Counted s) :
    dimension s = (s.length + 1 : Nat) := by
  have small : s.length < 2 ^ 31 - 1 := counted
  rw [CLI.dimension, signed_of_range (by omega) (by omega)]
  rfl

/-- **What `LevenshteinDistance` returns** of strings whose matrix has indices. -/
theorem LevenshteinDistance_eq (counted1 : Counted s1) (counted2 : Counted s2)
    (granted : m.granted = true) (indexed : (s1.length + 1) * (s2.length + 1) ≤ 2 ^ 31) :
    LevenshteinDistance m s1 s2 = some
      ⟨computed (charAt m.behind1 s1) (charAt m.behind2 s2) s1.length s2.length,
        (List.range' 1 s2.length).flatMap fun _ => List.range' 1 s1.length⟩ := by
  have small1 : s1.length < 2 ^ 31 - 1 := counted1
  have small2 : s2.length < 2 ^ 31 - 1 := counted2
  have defined : m.granted = true ∧ 1 ≤ dimension s1 ∧ dimension s1 < 2 ^ 31 ∧ 1 ≤ dimension s2 ∧
      dimension s2 < 2 ^ 31 ∧ dimension s1 * dimension s2 ≤ 2 ^ 31 := by
    rw [counted1.dimension, counted2.dimension]
    exact ⟨granted, by omega, by omega, by omega, by omega, by exact_mod_cast indexed⟩
  have positive : 0 < s1.length + 1 := Nat.succ_pos _
  simp only [LevenshteinDistance]
  rw [if_pos defined, counted1.dimension, counted2.dimension, Int.toNat_natCast, Int.toNat_natCast,
    fill_last positive, Nat.add_sub_cancel, Nat.add_sub_cancel]

/-- A comparison that is made has its matrix. -/
theorem defined_of_LevenshteinDistance {r : Comparison} (counted1 : Counted s1)
    (counted2 : Counted s2) (made : LevenshteinDistance m s1 s2 = some r) :
    m.granted = true ∧ (s1.length + 1) * (s2.length + 1) ≤ 2 ^ 31 := by
  simp only [LevenshteinDistance] at made
  rw [Option.ite_none_right_eq_some, counted1.dimension, counted2.dimension] at made
  obtain ⟨⟨granted, -, -, -, -, indexed⟩, -⟩ := made
  exact ⟨granted, by exact_mod_cast indexed⟩

/-- An empty string is compared within both strings, and no other. -/
theorem compares_iff (counted1 : Counted s1) (counted2 : Counted s2) :
    (∃ r, LevenshteinDistance m s1 s2 = some r ∧ Within s1 s2 r) ↔
      m.granted = true ∧ (s1 = [] ∨ s2 = []) := by
  constructor
  · rintro ⟨r, made, within⟩
    obtain ⟨granted, indexed⟩ := defined_of_LevenshteinDistance counted1 counted2 made
    refine ⟨granted, ?_⟩
    by_contra some_there
    rw [not_or] at some_there
    have positive1 := List.length_pos_iff.mpr some_there.1
    have positive2 := List.length_pos_iff.mpr some_there.2
    rw [LevenshteinDistance_eq counted1 counted2 granted indexed, Option.some.injEq] at made
    subst made
    -- the last row reads both strings at the terminator of the first
    have terminator : s1.length ∈ (List.range' 1 s2.length).flatMap fun _ =>
        List.range' 1 s1.length := by
      refine List.mem_flatMap.mpr ⟨1, ?_, ?_⟩ <;> rw [List.mem_range'_1] <;> omega
    exact Nat.lt_irrefl _ (within _ terminator).1
  · rintro ⟨granted, empty⟩
    have small1 : s1.length < 2 ^ 31 - 1 := counted1
    have small2 : s2.length < 2 ^ 31 - 1 := counted2
    have indexed : (s1.length + 1) * (s2.length + 1) ≤ 2 ^ 31 := by
      rcases empty with rfl | rfl
      · rw [List.length_nil, Nat.zero_add, Nat.one_mul]
        omega
      · rw [List.length_nil, Nat.zero_add, Nat.mul_one]
        omega
    refine ⟨_, LevenshteinDistance_eq counted1 counted2 granted indexed, fun i read => ?_⟩
    obtain ⟨j, column, row⟩ := List.mem_flatMap.mp read
    rcases empty with rfl | rfl
    · cases row
    · cases column

/-- The distance from an empty string is the other's length. -/
theorem distance_of_empty {r : Comparison} (counted1 : Counted s1) (counted2 : Counted s2)
    (empty : s1 = [] ∨ s2 = []) (made : LevenshteinDistance m s1 s2 = some r) :
    r.distance = editDistance s1 s2 ∧ editDistance s1 s2 = s1.length + s2.length := by
  obtain ⟨granted, indexed⟩ := defined_of_LevenshteinDistance counted1 counted2 made
  rw [LevenshteinDistance_eq counted1 counted2 granted indexed, Option.some.injEq] at made
  subst made
  rcases empty with rfl | rfl
  · rw [editDistance_nil_left, List.length_nil, Nat.zero_add]
    exact ⟨computed_zero_left _, rfl⟩
  · rw [editDistance_nil_right, List.length_nil, Nat.add_zero]
    exact ⟨computed_zero_right _, rfl⟩

theorem measures_iff (counted1 : Counted s1) (counted2 : Counted s2) :
    Measures m s1 s2 ↔ m.granted = true ∧ (s1 = [] ∨ s2 = []) := by
  rw [← compares_iff counted1 counted2]
  constructor
  · rintro ⟨r, made, -, within⟩
    exact ⟨r, made, within⟩
  · rintro ⟨r, made, within⟩
    have empty := ((compares_iff counted1 counted2).mp ⟨r, made, within⟩).2
    exact ⟨r, made, isEditDistance_iff.mpr (distance_of_empty counted1 counted2 empty made).1, within⟩

/-! ## The closest command -/

section closest
variable {memory : Nat → Memory} {registry rest : List (List UInt8)} {name : List UInt8}
variable {v : List UInt8 → Nat} {best : Best} {k : Nat}

/-- The body of the loop, when the distances are known. -/
def keepLess (v : List UInt8 → Nat) (best : Best) (cmd : List UInt8) : Best :=
  if v cmd < best.min then ⟨v cmd, some cmd⟩ else best

/-- The least of the distances below the first `min` is found, or there is none below it. -/
structure Found (v : List UInt8 → Nat) (cmds : List (List UInt8)) (best : Best) : Prop where
  start : best.min_c = none → best.min = 0xFFFFFF
  mem : ∀ c ∈ best.min_c, c ∈ cmds ∧ v c = best.min
  most : best.min ≤ 0xFFFFFF
  less : best.min_c ≠ none → best.min < 0xFFFFFF
  least : ∀ d ∈ cmds, best.min ≤ v d

theorem Found.keepLess {cmds : List (List UInt8)} (found : Found v cmds best) (cmd : List UInt8) :
    Found v (cmds ++ [cmd]) (keepLess v best cmd) := by
  unfold CLI.keepLess
  split
  · rename_i less
    refine ⟨by rintro ⟨⟩, ?_, le_of_lt (less.trans_le found.most), fun _ => less.trans_le found.most,
      ?_⟩
    · rintro c ⟨⟩
      exact ⟨List.mem_append_right _ List.mem_cons_self, rfl⟩
    · refine List.forall_mem_append.mpr ⟨fun d before => ?_, List.forall_mem_singleton.mpr ?_⟩
      · exact le_of_lt (less.trans_le (found.least d before))
      · exact Nat.le_refl _
  · rename_i more
    refine ⟨found.start, fun c here => ?_, found.most, found.less, ?_⟩
    · exact ⟨List.mem_append_left _ (found.mem c here).1, (found.mem c here).2⟩
    · exact List.forall_mem_append.mpr ⟨found.least, List.forall_mem_singleton.mpr (not_lt.mp more)⟩

/-- **The loop finds the least distance.** -/
theorem found_foldl (v : List UInt8 → Nat) (registry : List (List UInt8)) :
    Found v registry (registry.foldl (keepLess v) ⟨0xFFFFFF, none⟩) := by
  induction registry using List.reverseRecOn with
  | nil =>
    refine ⟨fun _ => rfl, by rintro _ ⟨⟩, Nat.le_refl _, fun some_there => absurd rfl some_there, ?_⟩
    exact fun _ none_there => absurd none_there List.not_mem_nil
  | append_singleton registry cmd ih =>
    rw [List.foldl_concat]
    exact ih.keepLess cmd

/-- A loop that ends has made every comparison. -/
theorem made_of_closestFrom {last : Best} (done : closestFrom memory name k rest best = some last)
    (i : Nat) (cmd : List UInt8) (here : rest[i]? = some cmd) :
    ∃ r, LevenshteinDistance (memory (k + i)) name cmd = some r := by
  induction rest generalizing k best i with
  | nil => cases here
  | cons first rest ih =>
    rw [closestFrom] at done
    obtain ⟨next, compared, later⟩ := Option.bind_eq_some_iff.mp done
    cases i with
    | zero =>
      cases here
      obtain ⟨r, made, -⟩ := Option.map_eq_some_iff.mp compared
      exact ⟨r, made⟩
    | succ i =>
      rw [Nat.add_comm i 1, ← Nat.add_assoc]
      exact ih later i here

/-- One whose distances are known keeps the less. -/
theorem closestFrom_eq (known : ∀ i cmd, rest[i]? = some cmd →
      ∃ r, LevenshteinDistance (memory (k + i)) name cmd = some r ∧ r.distance = v cmd) :
    closestFrom memory name k rest best = some (rest.foldl (keepLess v) best) := by
  induction rest generalizing k best with
  | nil => rfl
  | cons cmd rest ih =>
    obtain ⟨r, made, distance⟩ := known 0 cmd rfl
    rw [Nat.add_zero] at made
    rw [closestFrom, compare, made, Option.map_some, Option.bind_some, distance, List.foldl_cons]
    refine ih fun i cmd here => ?_
    have later := known (i + 1) cmd here
    rwa [Nat.add_comm i 1, ← Nat.add_assoc] at later

/-- **The suggestion is right** where nothing is compared character by character, if some command is
near enough to be taken. -/
theorem suggests_iff (named : Counted name) (registered : ∀ cmd ∈ registry, Counted cmd) :
    Suggests memory registry name ↔
      (∀ k cmd, registry[k]? = some cmd → (memory k).granted = true ∧ (name = [] ∨ cmd = [])) ∧
        ∃ c ∈ registry, name.length + c.length < 0xFFFFFF := by
  have loop_eq : (∀ k cmd, registry[k]? = some cmd →
      (memory k).granted = true ∧ (name = [] ∨ cmd = [])) →
      closestFrom memory name 0 registry ⟨0xFFFFFF, none⟩ =
        some (registry.foldl (keepLess (editDistance name)) ⟨0xFFFFFF, none⟩) := by
    refine fun uncompared => closestFrom_eq fun k cmd here => ?_
    rw [Nat.zero_add]
    have counted := registered cmd (List.mem_of_getElem? here)
    obtain ⟨r, made, -⟩ := (compares_iff named counted).mpr (uncompared k cmd here)
    exact ⟨r, made, (distance_of_empty named counted (uncompared k cmd here).2 made).1⟩
  have length : (∀ k cmd, registry[k]? = some cmd →
      (memory k).granted = true ∧ (name = [] ∨ cmd = [])) →
      ∀ c ∈ registry, editDistance name c = name.length + c.length := by
    intro uncompared c member
    obtain ⟨k, here⟩ := List.getElem?_of_mem member
    obtain ⟨r, made, -⟩ := (compares_iff named (registered c member)).mpr (uncompared k c here)
    exact (distance_of_empty named (registered c member) (uncompared k c here).2 made).2
  have found := found_foldl (editDistance name) registry
  constructor
  · rintro ⟨⟨c, member, closest, -⟩, within⟩
    obtain ⟨last, done, taken⟩ := Option.map_eq_some_iff.mp closest
    have uncompared : ∀ k cmd, registry[k]? = some cmd →
        (memory k).granted = true ∧ (name = [] ∨ cmd = []) := by
      intro k cmd here
      obtain ⟨r, made⟩ := made_of_closestFrom done k cmd here
      rw [Nat.zero_add] at made
      exact (compares_iff named (registered cmd (List.mem_of_getElem? here))).mp
        ⟨r, made, within k cmd here r made⟩
    refine ⟨uncompared, c, member, ?_⟩
    rw [loop_eq uncompared, Option.some.injEq] at done
    subst done
    rw [← length uncompared c member, (found.mem c taken).2]
    exact found.less (by rw [taken]; exact Option.some_ne_none c)
  · rintro ⟨uncompared, near, member, small⟩
    refine ⟨?_, fun k cmd here r made => ?_⟩
    · have below : (registry.foldl (keepLess (editDistance name)) ⟨0xFFFFFF, none⟩).min < 0xFFFFFF := by
        refine (found.least near member).trans_lt ?_
        rwa [length uncompared near member]
      cases taken : (registry.foldl (keepLess (editDistance name)) ⟨0xFFFFFF, none⟩).min_c with
      | none => exact absurd (found.start taken) (Nat.ne_of_lt below)
      | some c =>
        obtain ⟨registered_c, distance⟩ := found.mem c taken
        refine ⟨c, registered_c, ?_, fun d other => distance.trans_le (found.least d other)⟩
        rw [Closest, loop_eq uncompared, Option.map_some, taken]
    · have counted := registered cmd (List.mem_of_getElem? here)
      obtain ⟨r', made', within⟩ := (compares_iff named counted).mpr (uncompared k cmd here)
      obtain rfl := Option.some.inj (made.symm.trans made')
      exact within

end closest

/-- **The suggestion uses the true edit distance**, of strings an `int` counts, if and only if one of
the two is empty and the matrix is granted; then the closest command is suggested, if it is nearer
than the first minimum. -/
theorem true_edit_distance_iff (m : Memory) (s1 s2 : List UInt8) (memory : Nat → Memory)
    (registry : List (List UInt8)) (name : List UInt8) :
    (Counted s1 → Counted s2 →
      (Measures m s1 s2 ↔ m.granted = true ∧ (s1 = [] ∨ s2 = []))) ∧
    (Counted name → (∀ cmd ∈ registry, Counted cmd) → (Suggests memory registry name ↔
      (∀ k cmd, registry[k]? = some cmd → (memory k).granted = true ∧ (name = [] ∨ cmd = [])) ∧
        ∃ c ∈ registry, name.length + c.length < 0xFFFFFF)) :=
  ⟨measures_iff, suggests_iff⟩

/-- Memory that is granted, and holds zeros. -/
def Memory.zeroed : Memory := ⟨true, fun _ _ => 0, fun _ => 0, fun _ => 0⟩

/-- The distance from an empty string is measured. -/
theorem measures_from_empty : Measures .zeroed [] (ascii "stop") :=
  ((true_edit_distance_iff .zeroed [] (ascii "stop") (fun _ => .zeroed) [] []).1 (by decide)
    (by decide)).mpr ⟨rfl, Or.inl rfl⟩

/-- `a` and `b` have distance 1, and 0 is returned; the terminators are compared. -/
theorem distance_a_b : ¬ Measures .zeroed (ascii "a") (ascii "b") ∧
    (LevenshteinDistance .zeroed (ascii "a") (ascii "b")).map Comparison.distance = some 0 ∧
    editDistance (ascii "a") (ascii "b") = 1 := by
  have returned : LevenshteinDistance .zeroed (ascii "a") (ascii "b") = some ⟨0, [1]⟩ :=
    (LevenshteinDistance_eq (by decide) (by decide) rfl (by decide)).trans (by decide)
  refine ⟨?_, by rw [returned]; rfl, by decide⟩
  rintro ⟨r, made, -, within⟩
  obtain rfl := Option.some.inj (returned.symm.trans made)
  exact Nat.lt_irrefl 1 (within 1 List.mem_cons_self).1

end DCScan.CLI
