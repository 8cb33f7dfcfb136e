import DCScan.Lib.Since
import DCScan.Session

/-!
The event tables of a client, over any sequence of `SetupEvent` and `RemoveEvent` calls.

`SetupEvent` looks at no bound and keeps what its tables hold for an id; `RemoveEvent` and the two
lookups pass over every id above `MAX_SUB`. So a lookup gives the first set-up since the id was last
removed, or a null pointer.
-/

namespace DCScan.EventTables

open Lib

/-- `evt_callbacks` and `evt_userData`. -/
structure Tables where
  evt_callbacks : UInt8 → Option Pointer
  evt_userData : UInt8 → Option Pointer

/-- Both tables start empty. -/
def Tables.empty : Tables := ⟨fun _ => none, fun _ => none⟩

inductive Call where
  | SetupEvent (id : UInt8) (f userData : Pointer)
  | RemoveEvent (id : UInt8)
  deriving DecidableEq, Repr

def Call.id : Call → UInt8
  | SetupEvent id _ _ => id
  | RemoveEvent id => id

/-- What `SetupEvent` and `RemoveEvent` write to their buffer; they return its size. -/
def Call.written (c : Call) : List UInt8 := [c.id]

/-- The tables after a call. -/
def call (maxSub : UInt8) (t : Tables) : Call → Tables
  | .SetupEvent id f userData =>
    ⟨emplace t.evt_callbacks id f, emplace t.evt_userData id userData⟩
  | .RemoveEvent id =>
    ⟨eraseEvent maxSub t.evt_callbacks id, eraseEvent maxSub t.evt_userData id⟩

def run (maxSub : UInt8) (calls : List Call) : Tables := calls.foldl (call maxSub) .empty

def GetEventCallback (maxSub : UInt8) (t : Tables) (id : UInt8) : Lookup :=
  getEvent maxSub t.evt_callbacks id

def GetEventUserData (maxSub : UInt8) (t : Tables) (id : UInt8) : Lookup :=
  getEvent maxSub t.evt_userData id

/-- The pointer a lookup returns, if it does; `nullptr` is 0. -/
def returned : Lookup → Option Pointer
  | .found p => some p
  | .null => some 0
  | .missing => none

/-- The last call of the id is this set-up. -/
def LastSetup (calls : List Call) (id : UInt8) (f userData : Pointer) : Prop :=
  Since (· = .SetupEvent id f userData) (Call.id · = id) calls

/-- This set-up of the id is the first since the id was last removed. -/
def FirstSetup (calls : List Call) (id : UInt8) (f userData : Pointer) : Prop :=
  ∃ before after, calls = before ++ .SetupEvent id f userData :: after ∧
    (¬∃ f userData, LastSetup before id f userData) ∧ .RemoveEvent id ∉ after

/-- The lookups of every id that is set up give the last set-up's pointers. -/
def LastWriterWins (maxSub : UInt8) (calls : List Call) : Prop :=
  ∀ id f userData, LastSetup calls id f userData →
    returned (GetEventCallback maxSub (run maxSub calls) id) = some f ∧
    returned (GetEventUserData maxSub (run maxSub calls) id) = some userData

/-- Each id that is set up is registered and was first set up as it was last, or is not registered
and was set up with null pointers. -/
def FirstIsLast (maxSub : UInt8) (calls : List Call) : Prop :=
  ∀ id f userData, LastSetup calls id f userData →
    (id ≤ maxSub ∧ FirstSetup calls id f userData) ∨ (maxSub < id ∧ f = 0 ∧ userData = 0)

variable {maxSub id : UInt8} {calls : List Call} {c : Call} {f userData : Pointer} {t : Tables}

/-! ## Set-ups -/

theorem lastSetup_concat : LastSetup (calls ++ [c]) id f userData ↔
    c = .SetupEvent id f userData ∨ (LastSetup calls id f userData ∧ c.id ≠ id) := since_concat

theorem firstSetup_concat : FirstSetup (calls ++ [c]) id f userData ↔
    (c = .SetupEvent id f userData ∧ ¬∃ f userData, LastSetup calls id f userData) ∨
      (FirstSetup calls id f userData ∧ c ≠ .RemoveEvent id) := by
  constructor
  · rintro ⟨before, after, split, fresh, kept⟩
    rcases List.eq_nil_or_concat after with rfl | ⟨after, d, rfl⟩
    · obtain ⟨rfl, same⟩ := List.append_inj' split rfl
      exact Or.inl ⟨(List.cons.inj same).1, fresh⟩
    · rw [List.concat_eq_append, ← List.cons_append, ← List.append_assoc] at split
      obtain ⟨rfl, same⟩ := List.append_inj' split rfl
      obtain rfl := (List.cons.inj same).1
      rw [List.concat_eq_append, List.mem_append, not_or, List.mem_singleton] at kept
      exact Or.inr ⟨⟨before, after, rfl, fresh, kept.1⟩, Ne.symm kept.2⟩
  · rintro (⟨rfl, fresh⟩ | ⟨⟨before, after, rfl, fresh, kept⟩, other⟩)
    · exact ⟨calls, [], rfl, fresh, List.not_mem_nil⟩
    · refine ⟨before, after ++ [c], by simp, fresh, fun removed => ?_⟩
      rcases List.mem_append.mp removed with inside | last
      · exact kept inside
      · exact other (List.mem_singleton.mp last).symm

/-! ## What the tables hold -/

section table
variable {table : UInt8 → Option Pointer} {e : UInt8} {p : Pointer}

theorem eraseEvent_other (different : id ≠ e) : eraseEvent maxSub table e id = table id := by
  unfold eraseEvent
  split
  · exact erase_other different
  · rfl

theorem eraseEvent_registered (registered : id ≤ maxSub) :
    eraseEvent maxSub table id id = none := by
  rw [eraseEvent, if_pos registered, erase_self]

theorem emplace_first (nothing : table id = none) : emplace table id p id = some p := by
  rw [emplace_self, nothing, Option.getD_none]

end table

/-- What the two tables hold for an id. -/
inductive Holds (t : Tables) (calls : List Call) (id : UInt8) : Prop where
  | nothing (notLast : ¬∃ f userData, LastSetup calls id f userData)
      (notFirst : ¬∃ f userData, FirstSetup calls id f userData)
      (callback : t.evt_callbacks id = none) (userData : t.evt_userData id = none)
  | first (f userData : Pointer) (setUp : ∃ f userData, LastSetup calls id f userData)
      (only : ∀ f' userData', FirstSetup calls id f' userData' ↔ f' = f ∧ userData' = userData)
      (callback : t.evt_callbacks id = some f) (userData : t.evt_userData id = some userData)

theorem holds_empty : Holds .empty [] id := by
  refine .nothing ?_ ?_ rfl rfl
  · rintro ⟨_, _, last⟩
    exact since_nil last
  · rintro ⟨_, _, before, after, split, _⟩
    cases before <;> cases split

/-- A call of another id changes nothing. -/
theorem Holds.other (holds : Holds t calls id) (different : c.id ≠ id) :
    Holds (call maxSub t c) (calls ++ [c]) id := by
  have notSetup : ∀ f userData, c ≠ .SetupEvent id f userData := by
    rintro f userData rfl
    exact different rfl
  have notRemove : c ≠ .RemoveEvent id := by
    rintro rfl
    exact different rfl
  have last : ∀ f userData, LastSetup (calls ++ [c]) id f userData ↔
      LastSetup calls id f userData := fun f userData => by
    rw [lastSetup_concat, or_iff_right (notSetup f userData), and_iff_left different]
  have first : ∀ f userData, FirstSetup (calls ++ [c]) id f userData ↔
      FirstSetup calls id f userData := fun f userData => by
    rw [firstSetup_concat, or_iff_right fun setUp => notSetup f userData setUp.1,
      and_iff_left notRemove]
  have callbacks : (call maxSub t c).evt_callbacks id = t.evt_callbacks id := by
    cases c with
    | SetupEvent e f userData => exact emplace_other (Ne.symm different)
    | RemoveEvent e => exact eraseEvent_other (Ne.symm different)
  have userData : (call maxSub t c).evt_userData id = t.evt_userData id := by
    cases c with
    | SetupEvent e f userData => exact emplace_other (Ne.symm different)
    | RemoveEvent e => exact eraseEvent_other (Ne.symm different)
  cases holds with
  | nothing notLast notFirst noCallback noUserData =>
    refine .nothing ?_ ?_ (callbacks.trans noCallback) (userData.trans noUserData)
    · simpa only [last] using notLast
    · simpa only [first] using notFirst
  | first f data setUp only callback kept =>
    refine .first f data ?_ ?_ (callbacks.trans callback) (userData.trans kept)
    · simpa only [last] using setUp
    · simpa only [first] using only

/-- A set-up is kept if it is the first. -/
theorem Holds.setUp (holds : Holds t calls id) :
    Holds (call maxSub t (.SetupEvent id f userData)) (calls ++ [.SetupEvent id f userData]) id := by
  have last : ∃ f' userData', LastSetup (calls ++ [.SetupEvent id f userData]) id f' userData' :=
    ⟨f, userData, lastSetup_concat.mpr (Or.inl rfl)⟩
  cases holds with
  | nothing notLast notFirst noCallback noUserData =>
    refine .first f userData last (fun f' userData' => ?_) (emplace_first noCallback)
      (emplace_first noUserData)
    rw [firstSetup_concat, or_iff_left fun first => notFirst ⟨f', userData', first.1⟩,
      and_iff_left notLast, Call.SetupEvent.injEq, eq_self, true_and, eq_comm, @eq_comm _ userData]
  | first g data setUp only callback kept =>
    refine .first g data last (fun f' userData' => ?_) (emplace_keeps callback) (emplace_keeps kept)
    rw [firstSetup_concat, or_iff_right fun fresh => fresh.2 setUp, and_iff_left (by rintro ⟨⟩), only]

/-- A registered id that is removed is gone. -/
theorem Holds.removed (registered : id ≤ maxSub) :
    Holds (call maxSub t (.RemoveEvent id)) (calls ++ [.RemoveEvent id]) id := by
  refine .nothing ?_ ?_ (eraseEvent_registered registered) (eraseEvent_registered registered)
  · rintro ⟨f, userData, last⟩
    rcases lastSetup_concat.mp last with setUp | ⟨_, different⟩
    · cases setUp
    · exact different rfl
  · rintro ⟨f, userData, first⟩
    rcases firstSetup_concat.mp first with ⟨setUp, _⟩ | ⟨_, different⟩
    · cases setUp
    · exact different rfl

/-- **The tables hold the first set-up** of every registered id since it was last removed. -/
theorem run_holds (registered : id ≤ maxSub) (calls : List Call) :
    Holds (run maxSub calls) calls id := by
  induction calls using List.reverseRecOn with
  | nil => exact holds_empty
  | append_singleton calls c ih =>
    rw [run, List.foldl_append, List.foldl_cons, List.foldl_nil]
    by_cases same : c.id = id
    · subst same
      cases c with
      | SetupEvent e f userData => exact ih.setUp
      | RemoveEvent e => exact .removed registered
    · exact ih.other same

/-- The tables of a session. -/
def Tables.of (s : Session.State) : Tables := ⟨s.events.evtCallbacks, s.events.evtUserData⟩

/-- A thread of a session that sets an event up makes the call in two steps. -/
theorem session_setUp {s s' s'' : Session.State} {thread : Nat}
    (callback : Session.step maxSub s (.setupCallback thread id f userData) = some s')
    (data : Session.step maxSub s' (.setupUserData thread) = some s'') :
    Tables.of s'' = call maxSub (Tables.of s) (.SetupEvent id f userData) := by
  obtain ⟨_, idle, rfl⟩ : s.fault.isSome = false ∧ s.threads thread = .idle ∧ _ = s' := by
    simpa [Session.step] using callback
  simp only [Session.step, Function.update_self] at data
  split at data
  · cases data
  · obtain rfl := Option.some.inj data
    rfl

/-- So does one that removes it. -/
theorem session_removed {s s' s'' : Session.State} {thread : Nat}
    (callback : Session.step maxSub s (.removeCallback thread id) = some s')
    (data : Session.step maxSub s' (.removeUserData thread) = some s'') :
    Tables.of s'' = call maxSub (Tables.of s) (.RemoveEvent id) := by
  obtain ⟨_, idle, rfl⟩ : s.fault.isSome = false ∧ s.threads thread = .idle ∧ _ = s' := by
    simpa [Session.step] using callback
  simp only [Session.step, Function.update_self] at data
  split at data
  · cases data
  · obtain rfl := Option.some.inj data
    rfl

/-- Above `MAX_SUB` both lookups return a null pointer. -/
theorem returned_above (above : maxSub < id) (table : UInt8 → Option Pointer) :
    returned (getEvent maxSub table id) = some 0 := by
  rw [getEvent, if_neg (UInt8.not_le.mpr above), returned]

theorem returned_registered (registered : id ≤ maxSub) {table : UInt8 → Option Pointer}
    {p : Pointer} (here : table id = some p) : returned (getEvent maxSub table id) = some p := by
  rw [getEvent, if_pos registered, here, returned]

/-- **The last writer wins** if and only if every id set up was first set up as it was last, or is not
registered and was set up with null pointers. -/
theorem last_writer_wins_iff (maxSub : UInt8) (calls : List Call) :
    LastWriterWins maxSub calls ↔ FirstIsLast maxSub calls := by
  refine forall_congr' fun id => forall_congr' fun f => forall_congr' fun userData =>
    imp_congr_right fun last => ?_
  rcases UInt8.le_or_lt id maxSub with registered | above
  · cases run_holds registered calls with
    | nothing notLast => exact absurd ⟨f, userData, last⟩ notLast
    | first g data _ only callback kept =>
      rw [GetEventCallback, GetEventUserData, returned_registered registered callback,
        returned_registered registered kept, Option.some.injEq, Option.some.injEq,
        or_iff_left fun unregistered => absurd unregistered.1 (UInt8.not_lt.mpr registered),
        and_iff_right registered, only, eq_comm, @eq_comm _ data]
  · rw [GetEventCallback, GetEventUserData, returned_above above, returned_above above,
      Option.some.injEq, Option.some.injEq,
      or_iff_right fun registered => absurd registered.1 (UInt8.not_le.mpr above),
      and_iff_right above, eq_comm, @eq_comm _ 0]

/-- A second set-up is lost: the first callback stays, with its user data. -/
theorem second_setup_lost :
    ¬ LastWriterWins 1 [.SetupEvent 1 100 200, .SetupEvent 1 300 400] := by
  intro wins
  have last : LastSetup [.SetupEvent 1 100 200, .SetupEvent 1 300 400] 1 300 400 :=
    ⟨[.SetupEvent 1 100 200], _, [], rfl, rfl, fun _ member => absurd member List.not_mem_nil⟩
  exact absurd (wins 1 300 400 last).1 (by decide)

end DCScan.EventTables
