import DCScan.Counting

/-!
`countPacketLegacy`, turn by turn, with the indices that it reads.

The loop ends when a search has found nothing, and a search that has found nothing has looked at the
sample behind the last one. Where no sample is above or below the thresholds the search begins
again, at the first sample.
-/

namespace DCScan.Math

open Lib

inductive Edge where
  | RISING
  | FALLING
  deriving DecidableEq, Repr

structure Cmpdata where
  index : Nat
  edge : Edge
  deriving DecidableEq, Repr

/-- Samples in memory, and what lies behind them. -/
structure Packet (α : Type) where
  data : Nat → α
  size : Nat
  positive : 0 < size

/-- What an earlier call has left in the static variables. -/
structure Statics (α : Type) where
  lastDataPoint : α
  lastEdge : Edge

section model

variable {α : Type}

/-- The loop from the index `idx` on: what it returns, and the indices that it reads. -/
def waitForLimit (data : Nat → α) (size : Nat) (barrier : α) (cmp : α → α → Bool) (idx : Nat) :
    Nat × List Nat :=
  if cmp (data idx) barrier then (idx, [idx])
  else if idx < size then
    let (index, read) := waitForLimit data size barrier cmp (idx + 1)
    (index, idx :: read)
  else (size + 1, [idx])
termination_by size - idx

variable [LT α] [DecidableLT α]

def CMP_LARGER (a b : α) : Bool := b < a

def CMP_SMALLER (a b : α) : Bool := a < b

/-- `lo` and `hi` are `barrier - noise_threshold` and `barrier + noise_threshold`. -/
def waitForAny (data : Nat → α) (start size : Nat) (lo hi : α) : Cmpdata × List Nat :=
  if lo < data start then
    let (index, read) := waitForLimit data size lo CMP_SMALLER start
    (⟨index, .FALLING⟩, start :: read)
  else if data start < hi then
    let (index, read) := waitForLimit data size hi CMP_LARGER start
    (⟨index, .RISING⟩, start :: start :: read)
  else (⟨0, .RISING⟩, [start, start])

/-- Where the function is: in its loop, or behind its end. -/
inductive Progress (α : Type) where
  | looping (index : Nat) (crossings : List Nat)
  | returned (crossings : List Nat) (left : Statics α)

/-- With the indices that have been read. -/
structure Count (α : Type) where
  progress : Progress α
  read : List Nat

/-- What comes before the loop. -/
def Packet.enter (p : Packet α) (lo hi : α) (s : Statics α) : Count α :=
  let looked := if s.lastDataPoint < lo then [0] else []
  if s.lastDataPoint < lo ∧ hi < p.data 0 then ⟨.looping 1 [0], looked⟩
  else if s.lastDataPoint < hi ∧ lo < s.lastDataPoint ∧ s.lastEdge = .RISING then
    let (index, read) := waitForLimit p.data p.size hi CMP_LARGER 0
    if p.size < index then
      ⟨.returned [] ⟨p.data (p.size - 1), s.lastEdge⟩, looked ++ read ++ [p.size - 1]⟩
    else ⟨.looping index [index], looked ++ read⟩
  else ⟨.looping 0 [], looked⟩

/-- One turn of the loop. -/
def Packet.turn (p : Packet α) (lo hi : α) : Count α → Count α
  | ⟨.returned crossings left, read⟩ => ⟨.returned crossings left, read⟩
  | ⟨.looping index crossings, read⟩ =>
    let (compare, more) := waitForAny p.data index p.size lo hi
    if p.size < compare.index then
      ⟨.returned crossings ⟨p.data (p.size - 1), compare.edge⟩, read ++ more ++ [p.size - 1]⟩
    else if compare.edge = .RISING then
      ⟨.looping compare.index (crossings ++ [compare.index]), read ++ more⟩
    else ⟨.looping compare.index crossings, read ++ more⟩

/-- `countPacketLegacy`, after so many turns. -/
def countPacketLegacy [Add α] [Sub α] (p : Packet α) (barrier threshold : α) (s : Statics α)
    (turns : Nat) : Count α :=
  (p.turn (barrier - threshold) (barrier + threshold))^[turns]
    (p.enter (barrier - threshold) (barrier + threshold) s)

/-- The static variables of a first call. -/
def Statics.initial [Add α] (barrier threshold : α) : Statics α := ⟨barrier + threshold, .RISING⟩

/-- The function stays inside its array, returns, and reports crossings in their order. -/
structure CountsInside [Add α] [Sub α] (p : Packet α) (barrier threshold : α) (s : Statics α) :
    Prop where
  inside : ∀ turns, ∀ i ∈ (countPacketLegacy p barrier threshold s turns).read, i < p.size
  returns : ∃ turns crossings left,
    (countPacketLegacy p barrier threshold s turns).progress = .returned crossings left
  increasing : ∀ turns crossings left,
    (countPacketLegacy p barrier threshold s turns).progress = .returned crossings left →
    crossings.Pairwise (· < ·)

end model

section

variable {α : Type} {data : Nat → α} {size idx start turns : Nat} {barrier lo hi : α}
variable {cmp : α → α → Bool} {p : Packet α} {s : Statics α} {c : Count α}

/-! ## Behind the array -/

/-- A search that finds nothing looks behind the last sample. -/
theorem waitForLimit_behind (nothing : size < (waitForLimit data size barrier cmp idx).1) :
    ∃ i ∈ (waitForLimit data size barrier cmp idx).2, size ≤ i := by
  fun_induction waitForLimit data size barrier cmp idx with
  | case1 idx found => exact ⟨idx, List.mem_singleton_self idx, nothing.le⟩
  | case2 idx other inside index read rest ih =>
    rw [rest] at ih
    obtain ⟨i, member, behind⟩ := ih nothing
    exact ⟨i, List.mem_cons_of_mem idx member, behind⟩
  | case3 idx other behind => exact ⟨idx, List.mem_singleton_self idx, Nat.not_lt.mp behind⟩

variable [LT α] [DecidableLT α]

theorem waitForAny_behind (nothing : size < (waitForAny data start size lo hi).1.index) :
    ∃ i ∈ (waitForAny data start size lo hi).2, size ≤ i := by
  unfold waitForAny at nothing ⊢
  split at nothing
  · obtain ⟨i, member, behind⟩ := waitForLimit_behind nothing
    rw [if_pos ‹_›]
    exact ⟨i, List.mem_cons_of_mem start member, behind⟩
  · split at nothing
    · obtain ⟨i, member, behind⟩ := waitForLimit_behind nothing
      rw [if_neg ‹_›, if_pos ‹_›]
      exact ⟨i, List.mem_cons_of_mem start (List.mem_cons_of_mem start member), behind⟩
    · exact absurd nothing (Nat.not_lt_zero size)

/-- Where the function has returned it has read behind its array. -/
def Behind (p : Packet α) (c : Count α) : Prop :=
  ∀ crossings left, c.progress = .returned crossings left → ∃ i ∈ c.read, p.size ≤ i

theorem enter_behind (p : Packet α) (lo hi : α) (s : Statics α) : Behind p (p.enter lo hi s) := by
  intro crossings left
  unfold Packet.enter
  dsimp only
  split
  · rintro ⟨⟩
  · split
    · split
      · rename_i nothing
        obtain ⟨i, member, behind⟩ := waitForLimit_behind nothing
        rintro -
        exact ⟨i, List.mem_append_left _ (List.mem_append_right _ member), behind⟩
      · rintro ⟨⟩
    · rintro ⟨⟩

theorem turn_behind (behind : Behind p c) : Behind p (p.turn lo hi c) := by
  obtain ⟨progress, read⟩ := c
  cases progress with
  | returned crossings left => exact behind
  | looping index crossings =>
    intro crossings' left
    unfold Packet.turn
    dsimp only
    split
    · rename_i nothing
      obtain ⟨i, member, far⟩ := waitForAny_behind nothing
      rintro -
      exact ⟨i, List.mem_append_left _ (List.mem_append_right _ member), far⟩
    · split <;> rintro ⟨⟩

theorem countPacketLegacy_behind [Add α] [Sub α] (p : Packet α) (barrier threshold : α)
    (s : Statics α) (turns : Nat) : Behind p (countPacketLegacy p barrier threshold s turns) := by
  induction turns with
  | zero => exact enter_behind p _ _ s
  | succ turns ih =>
    rw [countPacketLegacy, Function.iterate_succ_apply']
    exact turn_behind ih

/-- **The legacy counter never stays inside its array and returns.** -/
theorem legacy_never_inside [Add α] [Sub α] (p : Packet α) (barrier threshold : α)
    (s : Statics α) : ¬ CountsInside p barrier threshold s := by
  intro counts
  obtain ⟨turns, crossings, left, returned⟩ := counts.returns
  obtain ⟨i, member, behind⟩ :=
    countPacketLegacy_behind p barrier threshold s turns crossings left returned
  exact absurd (counts.inside turns i member) (Nat.not_lt.mpr behind)

/-- Two samples around a barrier, and a third one that is not of the array. -/
def samplePacket : Packet Float :=
  ⟨fun i => if i = 1 then 1.0 else 0.0, 2, Nat.zero_lt_two⟩

/-- With a zero threshold the first call on them looks at the third one. -/
theorem legacy_reads_behind :
    2 ∈ (countPacketLegacy samplePacket 0.5 0.0 (Statics.initial 0.5 0.0) 2).read ∧
      ¬ CountsInside samplePacket 0.5 0.0 (Statics.initial 0.5 0.0) := by
  have behind : 2 ∈ (countPacketLegacy samplePacket 0.5 0.0 (Statics.initial 0.5 0.0) 2).read := by
    decide +kernel
  exact ⟨behind, fun counts => absurd (counts.inside 2 2 behind) (Nat.lt_irrefl 2)⟩

/-! ## Forward -/

/-- What is below both thresholds and above them are different samples. -/
structure Window (lo hi : α) : Prop where
  asymm : ∀ x y : α, x < y → ¬y < x
  low : ∀ x, x < lo → x < hi
  high : ∀ x, hi < x → lo < x

/-- A search can begin at the sample. -/
def Decided (lo hi x : α) : Prop := lo < x ∨ x < hi

omit [LT α] [DecidableLT α] in
theorem waitForLimit_forward (data : Nat → α) (barrier : α) (cmp : α → α → Bool)
    (inside : idx ≤ size) :
    (∀ i ∈ (waitForLimit data size barrier cmp idx).2, i ≤ size) ∧
      idx ≤ (waitForLimit data size barrier cmp idx).1 ∧
      (waitForLimit data size barrier cmp idx).1 ≤ size + 1 ∧
      ((waitForLimit data size barrier cmp idx).1 ≤ size →
        cmp (data (waitForLimit data size barrier cmp idx).1) barrier = true) := by
  fun_induction waitForLimit data size barrier cmp idx with
  | case1 idx found =>
    exact ⟨List.forall_mem_singleton.mpr inside, Nat.le_refl idx, Nat.le_succ_of_le inside,
      fun _ => found⟩
  | case2 idx other below index read rest ih =>
    rw [rest] at ih
    obtain ⟨within, ahead, most, found⟩ := ih below
    exact ⟨List.forall_mem_cons.mpr ⟨inside, within⟩, Nat.le_of_succ_le ahead, most, found⟩
  | case3 idx other last =>
    exact ⟨List.forall_mem_singleton.mpr inside, Nat.le_succ_of_le inside, Nat.le_refl _,
      fun within => absurd within (Nat.not_succ_le_self size)⟩

/-- From a sample at which it can begin a search ends further on, at such a sample or at the end. -/
theorem waitForAny_forward (window : Window lo hi) (inside : start ≤ size)
    (decided : Decided lo hi (data start)) :
    start < (waitForAny data start size lo hi).1.index ∧
      (waitForAny data start size lo hi).1.index ≤ size + 1 ∧
      ((waitForAny data start size lo hi).1.index ≤ size →
        Decided lo hi (data (waitForAny data start size lo hi).1.index)) := by
  unfold waitForAny
  dsimp only
  split
  · rename_i above
    obtain ⟨-, ahead, most, found⟩ := waitForLimit_forward data lo CMP_SMALLER inside
    refine ⟨lt_of_le_of_ne ahead fun same => ?_, most, fun within => ?_⟩
    · have same : start = (waitForLimit data size lo CMP_SMALLER start).1 := same
      have below := found (same ▸ inside)
      rw [← same] at below
      exact window.asymm _ _ above (of_decide_eq_true below)
    · exact Or.inr (window.low _ (of_decide_eq_true (found within)))
  · rename_i not_above
    have below := decided.resolve_left not_above
    obtain ⟨-, ahead, most, found⟩ := waitForLimit_forward data hi CMP_LARGER inside
    rw [if_pos below]
    refine ⟨lt_of_le_of_ne ahead fun same => ?_, most, fun within => ?_⟩
    · have same : start = (waitForLimit data size hi CMP_LARGER start).1 := same
      have above := found (same ▸ inside)
      rw [← same] at above
      exact window.asymm _ _ below (of_decide_eq_true above)
    · exact Or.inl (window.high _ (of_decide_eq_true (found within)))

/-! ## How far behind -/

/-- At most one sample behind the last one has been read. -/
structure Within (p : Packet α) (c : Count α) : Prop where
  read : ∀ i ∈ c.read, i ≤ p.size
  next : ∀ index crossings, c.progress = .looping index crossings → index ≤ p.size

theorem waitForAny_within (inside : start ≤ size) :
    ∀ i ∈ (waitForAny data start size lo hi).2, i ≤ size := by
  unfold waitForAny
  split
  · obtain ⟨within, -⟩ := waitForLimit_forward data lo CMP_SMALLER inside
    exact List.forall_mem_cons.mpr ⟨inside, within⟩
  · split
    · obtain ⟨within, -⟩ := waitForLimit_forward data hi CMP_LARGER inside
      exact List.forall_mem_cons.mpr ⟨inside, List.forall_mem_cons.mpr ⟨inside, within⟩⟩
    · exact List.forall_mem_cons.mpr ⟨inside, List.forall_mem_singleton.mpr inside⟩

theorem enter_within (p : Packet α) (lo hi : α) (s : Statics α) : Within p (p.enter lo hi s) := by
  have looked : ∀ i ∈ if s.lastDataPoint < lo then [0] else [], i ≤ p.size := by
    split
    · exact List.forall_mem_singleton.mpr (Nat.zero_le p.size)
    · exact List.forall_mem_nil _
  obtain ⟨searched, -⟩ := waitForLimit_forward p.data hi CMP_LARGER (Nat.zero_le p.size)
  unfold Packet.enter
  dsimp only
  split
  · exact ⟨looked, by rintro index crossings ⟨⟩; exact p.positive⟩
  · split
    · split
      · refine ⟨List.forall_mem_append.mpr ⟨List.forall_mem_append.mpr ⟨looked, searched⟩,
          List.forall_mem_singleton.mpr (Nat.sub_le ..)⟩, by rintro index crossings ⟨⟩⟩
      · refine ⟨List.forall_mem_append.mpr ⟨looked, searched⟩, ?_⟩
        rintro index crossings ⟨⟩
        exact Nat.not_lt.mp ‹_›
    · exact ⟨looked, by rintro index crossings ⟨⟩; exact Nat.zero_le p.size⟩

theorem turn_within (within : Within p c) : Within p (p.turn lo hi c) := by
  obtain ⟨progress, read⟩ := c
  cases progress with
  | returned crossings left => exact within
  | looping index crossings =>
    have more : ∀ i ∈ (waitForAny p.data index p.size lo hi).2, i ≤ p.size :=
      waitForAny_within (within.next index crossings rfl)
    have searched := List.forall_mem_append.mpr ⟨within.read, more⟩
    unfold Packet.turn
    dsimp only
    split
    · refine ⟨List.forall_mem_append.mpr ⟨searched,
        List.forall_mem_singleton.mpr (Nat.sub_le ..)⟩, by rintro index crossings ⟨⟩⟩
    · have next := Nat.not_lt.mp ‹_›
      split
      · exact ⟨searched, by rintro index crossings ⟨⟩; exact next⟩
      · exact ⟨searched, by rintro index crossings ⟨⟩; exact next⟩

/-- The legacy counter reads its array and the one sample behind it, however long it goes on. -/
theorem countPacketLegacy_within [Add α] [Sub α] (p : Packet α) (barrier threshold : α)
    (s : Statics α) (turns : Nat) : Within p (countPacketLegacy p barrier threshold s turns) := by
  induction turns with
  | zero => exact enter_within p _ _ s
  | succ turns ih =>
    rw [countPacketLegacy, Function.iterate_succ_apply']
    exact turn_within ih

/-! ## Whole runs -/

/-- After some turns these crossings are returned. -/
def Reports (p : Packet α) (lo hi : α) (c : Count α) (crossings : List Nat) : Prop :=
  ∃ turns left, ((p.turn lo hi)^[turns] c).progress = .returned crossings left

theorem Reports.of_turn {crossings : List Nat} (later : Reports p lo hi (p.turn lo hi c) crossings) :
    Reports p lo hi c crossings := by
  obtain ⟨turns, left, returned⟩ := later
  exact ⟨turns + 1, left, returned⟩

theorem turn_returned {crossings : List Nat} {left : Statics α}
    (returned : c.progress = .returned crossings left) : p.turn lo hi c = c := by
  obtain ⟨progress, read⟩ := c
  obtain rfl : progress = .returned crossings left := returned
  rfl

theorem reports_of_returned {crossings : List Nat} {left : Statics α}
    (returned : c.progress = .returned crossings left) : Reports p lo hi c crossings :=
  ⟨0, left, returned⟩

/-- What is returned does not depend on how long one waits. -/
theorem Reports.unique {crossings crossings' : List Nat} (reports : Reports p lo hi c crossings)
    (reports' : Reports p lo hi c crossings') : crossings = crossings' := by
  have stays (more : Nat) {turns : Nat} {crossings : List Nat} {left : Statics α}
      (returned : ((p.turn lo hi)^[turns] c).progress = .returned crossings left) :
      (p.turn lo hi)^[more + turns] c = (p.turn lo hi)^[turns] c := by
    rw [Function.iterate_add_apply]
    exact Function.iterate_fixed (turn_returned returned) more
  obtain ⟨turns, left, returned⟩ := reports
  obtain ⟨turns', left', returned'⟩ := reports'
  have same := (stays turns' returned).symm.trans
    (Nat.add_comm turns' turns ▸ stays turns returned')
  rw [same, returned'] at returned
  cases returned
  rfl

/-- A turn returns, or goes on where the search has ended. -/
theorem turn_cases (p : Packet α) (lo hi : α) (index : Nat) (crossings read : List Nat) :
    (p.size < (waitForAny p.data index p.size lo hi).1.index ∧
      ∃ left, (p.turn lo hi ⟨.looping index crossings, read⟩).progress =
        .returned crossings left) ∨
    (waitForAny p.data index p.size lo hi).1.index ≤ p.size ∧
      ∃ more read', p.turn lo hi ⟨.looping index crossings, read⟩ =
          ⟨.looping (waitForAny p.data index p.size lo hi).1.index (crossings ++ more), read'⟩ ∧
        (more = [] ∨ more = [(waitForAny p.data index p.size lo hi).1.index]) := by
  unfold Packet.turn
  dsimp only
  split
  · exact Or.inl ⟨‹_›, _, rfl⟩
  · refine Or.inr ⟨Nat.not_lt.mp ‹_›, ?_⟩
    split
    · exact ⟨_, _, rfl, Or.inr rfl⟩
    · exact ⟨[], _, by rw [List.append_nil], Or.inl rfl⟩

/-- **From a sample at which a search can begin the loop returns**, and what it adds are indices
further on, in their order. -/
theorem reports_of_decided (window : Window lo hi) {index : Nat} (inside : index ≤ p.size)
    (decided : Decided lo hi (p.data index)) (crossings read : List Nat) :
    ∃ more, Reports p lo hi ⟨.looping index crossings, read⟩ (crossings ++ more) ∧
      (index :: more).Pairwise (· < ·) := by
  induction gap : p.size + 1 - index using Nat.strongRecOn generalizing index crossings read with
  | ind gap ih =>
    subst gap
    obtain ⟨ahead, most, next⟩ := waitForAny_forward window inside decided
    rcases turn_cases p lo hi index crossings read with
      ⟨-, left, returned⟩ | ⟨within, found, read', turned, added⟩
    · refine ⟨[], ?_, List.pairwise_singleton _ index⟩
      rw [List.append_nil]
      exact (reports_of_returned returned).of_turn
    · obtain ⟨more, reports, rising⟩ := ih _ (by omega) within (next within) (crossings ++ found)
        read' rfl
      rw [← turned] at reports
      refine ⟨found ++ more, ?_, ?_⟩
      · rw [← List.append_assoc]
        exact reports.of_turn
      · obtain ⟨later, rising⟩ := List.pairwise_cons.mp rising
        have beyond : ∀ i ∈ more, index < i := fun i member => ahead.trans (later i member)
        rcases added with rfl | rfl
        · exact List.pairwise_cons.mpr ⟨beyond, rising⟩
        · exact List.pairwise_cons.mpr ⟨List.forall_mem_cons.mpr ⟨ahead, beyond⟩,
            List.pairwise_cons.mpr ⟨later, rising⟩⟩

/-- A crossing that the last call has left behind is counted at the first sample. -/
def Carried (p : Packet α) (lo hi : α) (s : Statics α) : Prop :=
  s.lastDataPoint < lo ∧ hi < p.data 0

/-- The last call has ended between the thresholds, on a rising edge. -/
def Waits (lo hi : α) (s : Statics α) : Prop :=
  s.lastDataPoint < hi ∧ lo < s.lastDataPoint ∧ s.lastEdge = .RISING

theorem enter_carried (carried : Carried p lo hi s) :
    p.enter lo hi s = ⟨.looping 1 [0], [0]⟩ := by
  unfold Carried at carried
  unfold Packet.enter
  dsimp only
  rw [if_pos carried, if_pos carried.1]

theorem enter_waits (not_carried : ¬ Carried p lo hi s) (waits : Waits lo hi s) :
    (∃ left, (p.enter lo hi s).progress = .returned [] left) ∨
      ∃ index read, index ≤ p.size ∧ hi < p.data index ∧
        p.enter lo hi s = ⟨.looping index [index], read⟩ := by
  unfold Carried at not_carried
  unfold Waits at waits
  unfold Packet.enter
  dsimp only
  rw [if_neg not_carried, if_pos waits]
  split
  · exact Or.inl ⟨_, rfl⟩
  · have within := Nat.not_lt.mp ‹_›
    obtain ⟨-, -, -, found⟩ :=
      waitForLimit_forward p.data hi CMP_LARGER (Nat.zero_le p.size)
    exact Or.inr ⟨_, _, within, of_decide_eq_true (found within), rfl⟩

theorem enter_otherwise (not_carried : ¬ Carried p lo hi s) (not_waiting : ¬ Waits lo hi s) :
    ∃ read, p.enter lo hi s = ⟨.looping 0 [], read⟩ := by
  unfold Carried at not_carried
  unfold Waits at not_waiting
  unfold Packet.enter
  dsimp only
  rw [if_neg not_carried, if_neg not_waiting]
  exact ⟨_, rfl⟩

/-- From any other sample the search begins again at the first one, which counts as a crossing. -/
theorem turn_undecided {index : Nat} (undecided : ¬ Decided lo hi (p.data index))
    (crossings read : List Nat) : p.turn lo hi ⟨.looping index crossings, read⟩ =
      ⟨.looping 0 (crossings ++ [0]), read ++ [index, index]⟩ := by
  obtain ⟨not_above, not_below⟩ := not_or.mp undecided
  have search : waitForAny p.data index p.size lo hi = (⟨0, .RISING⟩, [index, index]) := by
    rw [waitForAny, if_neg not_above, if_neg not_below]
  simp only [Packet.turn, search, Nat.not_lt_zero, if_false, if_true]

/-- If the first sample is such a one the loop never ends. -/
theorem undecided_stays (undecided : ¬ Decided lo hi (p.data 0)) (turns : Nat)
    (crossings read : List Nat) : ∃ crossings' read',
      (p.turn lo hi)^[turns] ⟨.looping 0 crossings, read⟩ = ⟨.looping 0 crossings', read'⟩ := by
  induction turns generalizing crossings read with
  | zero => exact ⟨crossings, read, rfl⟩
  | succ turns ih =>
    rw [Function.iterate_succ_apply, turn_undecided undecided]
    exact ih _ _

theorem Reports.decided {crossings read crossings' : List Nat}
    (reports : Reports p lo hi ⟨.looping 0 crossings, read⟩ crossings') :
    Decided lo hi (p.data 0) := by
  by_contra undecided
  obtain ⟨turns, left, returned⟩ := reports
  obtain ⟨crossings', read', stays⟩ := undecided_stays undecided turns crossings read
  rw [stays] at returned
  cases returned

/-- Where the loop begins at a crossing, or at a sample at which a search can begin. -/
theorem enter_reports (window : Window lo hi) (goes : Decided lo hi (p.data 0) ∨ Waits lo hi s) :
    ∃ crossings, Reports p lo hi (p.enter lo hi s) crossings ∧
      (crossings.Pairwise (· < ·) ↔ (Carried p lo hi s → Decided lo hi (p.data 1))) := by
  by_cases carried : Carried p lo hi s
  · rw [enter_carried carried]
    by_cases next : Decided lo hi (p.data 1)
    · obtain ⟨more, reports, rising⟩ := reports_of_decided window p.positive next [0] [0]
      obtain ⟨later, rising⟩ := List.pairwise_cons.mp rising
      refine ⟨_, reports, iff_of_true ?_ fun _ => next⟩
      apply List.pairwise_cons.mpr
      exact ⟨fun i member => Nat.zero_lt_one.trans (later i member), rising⟩
    · -- the search begins again, at the crossing
      obtain ⟨more, reports, -⟩ := reports_of_decided window (Nat.zero_le p.size)
        (Or.inl (window.high _ carried.2)) ([0] ++ [0]) ([0] ++ [1, 1])
      rw [← turn_undecided next] at reports
      refine ⟨_, reports.of_turn, iff_of_false (fun rising => ?_) fun first => next (first carried)⟩
      exact Nat.lt_irrefl 0 (List.rel_of_pairwise_cons rising (List.mem_cons_self ..))
  · suffices ordered : ∃ crossings, Reports p lo hi (p.enter lo hi s) crossings ∧
        crossings.Pairwise (· < ·) by
      obtain ⟨crossings, reports, rising⟩ := ordered
      exact ⟨crossings, reports, iff_of_true rising fun first => absurd first carried⟩
    by_cases waits : Waits lo hi s
    · rcases enter_waits carried waits with
        ⟨left, returned⟩ | ⟨index, read, within, above, enter⟩
      · exact ⟨[], reports_of_returned returned, List.Pairwise.nil⟩
      · obtain ⟨more, reports, rising⟩ :=
          reports_of_decided window within (Or.inl (window.high _ above)) [index] read
        exact ⟨_, enter ▸ reports, rising⟩
    · obtain ⟨read, enter⟩ := enter_otherwise carried waits
      obtain ⟨more, reports, rising⟩ := reports_of_decided window (Nat.zero_le p.size)
        (goes.resolve_right waits) [] read
      exact ⟨_, enter ▸ reports, rising.of_cons⟩

/-- **When the legacy counter returns**: unless the first sample is between the thresholds, or on one
of them that is the other too, and the last call has left nothing to wait for. -/
theorem reports_iff (window : Window lo hi) :
    (∃ crossings, Reports p lo hi (p.enter lo hi s) crossings) ↔
      Decided lo hi (p.data 0) ∨ Waits lo hi s := by
  constructor
  · rintro ⟨crossings, reports⟩
    by_contra stuck
    obtain ⟨undecided, not_waiting⟩ := not_or.mp stuck
    have not_carried : ¬ Carried p lo hi s := fun carried =>
      undecided (Or.inl (window.high _ carried.2))
    obtain ⟨read, enter⟩ := enter_otherwise not_carried not_waiting
    rw [enter] at reports
    exact undecided reports.decided
  · intro goes
    obtain ⟨crossings, reports, -⟩ := enter_reports window goes
    exact ⟨crossings, reports⟩

/-- **When the reported crossings increase**: unless the first one is left from the last call and the
next sample is one at which no search begins. -/
theorem increasing_iff (window : Window lo hi) {crossings : List Nat}
    (reports : Reports p lo hi (p.enter lo hi s) crossings) :
    crossings.Pairwise (· < ·) ↔ (Carried p lo hi s → Decided lo hi (p.data 1)) := by
  have goes := (reports_iff window).mp ⟨crossings, reports⟩
  obtain ⟨crossings', reports', rising⟩ := enter_reports window goes
  rw [reports.unique reports']
  exact rising

end

/-! ## Samples of type `f64` -/

section

open Binary64

theorem window_of_le {lo hi : Float} (le : lo ≤ hi) : Window lo hi where
  asymm x y below above := by
    obtain ⟨number, number'⟩ := number_of_lt below
    exact lt_asymm ((ranked.lt number number').mp below) ((ranked.lt number' number).mp above)
  low x below := by
    obtain ⟨number, number'⟩ := number_of_lt below
    rw [ranked.lt number (number_of_le le).2]
    have le' := (ranked.le number' (number_of_le le).2).mp le
    exact ((ranked.lt number number').mp below).trans_le le'
  high x above := (limits_of_le le).high x above

variable {p : Packet Float} {barrier threshold : Float} {s : Statics Float}

theorem countPacketLegacy_returns_iff (le : barrier - threshold ≤ barrier + threshold) :
    (∃ crossings turns left,
      (countPacketLegacy p barrier threshold s turns).progress = .returned crossings left) ↔
        Decided (barrier - threshold) (barrier + threshold) (p.data 0) ∨
          Waits (barrier - threshold) (barrier + threshold) s :=
  reports_iff (window_of_le le)

theorem countPacketLegacy_increasing_iff (le : barrier - threshold ≤ barrier + threshold)
    {turns : Nat} {crossings : List Nat} {left : Statics Float}
    (returned : (countPacketLegacy p barrier threshold s turns).progress = .returned crossings left) :
    crossings.Pairwise (· < ·) ↔
      (Carried p (barrier - threshold) (barrier + threshold) s →
        Decided (barrier - threshold) (barrier + threshold) (p.data 1)) :=
  increasing_iff (window_of_le le) ⟨turns, left, returned⟩

end

end DCScan.Math
