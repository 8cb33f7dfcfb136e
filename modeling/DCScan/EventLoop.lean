import Mathlib.Data.List.Basic
import Mathlib.Data.List.ReduceOption

/-!
The threads of the event loop: `StartEventLoop` and `StopEventLoop`.

Which threads there are depends on the number of MCA channels at the start; whether there is one for the
MCA is remembered in `mca_mode`. A pointer is the number of the thread object that it was assigned,
and keeps it when the object has been deleted.
-/

namespace DCScan.EventLoop

structure State where
  /-- `none` is the null pointer. -/
  evt_loop_dcs_thread : Option Nat
  evt_loop_mca_thread : Option Nat
  evt_loop_cli_thread : Option Nat
  evt_loop_sig : Bool
  mca_mode : Bool
  /-- The thread objects that are not deleted. -/
  objects : List Nat
  /-- The threads that are not joined. -/
  live : List Nat
  next : Nat
  deriving DecidableEq, Repr

/-- Before the first start. -/
def initial : State := ⟨none, none, none, false, false, [], [], 0⟩

inductive Call where
  /-- `new std::thread` -/
  | create (id : Nat)
  | join (id : Nat)
  | delete (id : Nat)
  deriving DecidableEq, Repr

def StartEventLoop (mca_num_channels : UInt16) (s : State) : State × List Call :=
  let mca_mode := mca_num_channels > 0
  let created := if mca_mode then [s.next, s.next + 1, s.next + 2] else [s.next, s.next + 1]
  ({ evt_loop_dcs_thread := some s.next
     evt_loop_mca_thread := if mca_mode then some (s.next + 1) else s.evt_loop_mca_thread
     evt_loop_cli_thread := if mca_mode then some (s.next + 2) else some (s.next + 1)
     evt_loop_sig := true
     mca_mode
     objects := s.objects ++ created
     live := s.live ++ created
     next := s.next + created.length },
    created.map .create)

/-- The pointers that are used to stop the loop. -/
def State.handles (s : State) : List (Option Nat) :=
  if s.mca_mode then [s.evt_loop_dcs_thread, s.evt_loop_mca_thread, s.evt_loop_cli_thread]
  else [s.evt_loop_dcs_thread, s.evt_loop_cli_thread]

/-- `join`, of an object that is there, with a thread that is not joined. -/
def State.join (s : State) : Option Nat → Option State
  | none => none
  | some id => if id ∈ s.objects ∧ id ∈ s.live then some { s with live := s.live.erase id } else none

/-- `delete`, of an object that is there, with no thread that is not joined. -/
def State.delete (s : State) : Option Nat → Option State
  | none => none
  | some id =>
    if id ∈ s.objects ∧ id ∉ s.live then some { s with objects := s.objects.erase id } else none

/-- `none` when the process does not survive it. -/
def StopEventLoop (s : State) : Option (State × List Call) := do
  let joined ← s.handles.foldlM State.join { s with evt_loop_sig := false }
  let deleted ← s.handles.foldlM State.delete joined
  return (deleted, s.handles.reduceOption.map .join ++ s.handles.reduceOption.map .delete)

/-- The thread that a call creates, joins or deletes. -/
def Call.creates : Call → Option Nat
  | create id => some id
  | _ => none

def Call.joins : Call → Option Nat
  | join id => some id
  | _ => none

def Call.deletes : Call → Option Nat
  | delete id => some id
  | _ => none

/-- The loop runs, in these threads. -/
structure Runs (s : State) (ids : List Nat) : Prop where
  handles : s.handles = ids.map some
  objects : s.objects = ids
  live : s.live = ids
  some_there : ids ≠ []

/-- There is no thread. -/
structure Stands (s : State) : Prop where
  objects : s.objects = []
  live : s.live = []

variable {s : State} {ids : List Nat}

/-- What a stop calls joins and deletes each thread. -/
theorem filterMap_joins (ids : List Nat) :
    (ids.map Call.join ++ ids.map Call.delete).filterMap Call.joins = ids := by
  simp [Function.comp_def, Call.joins]

theorem filterMap_deletes (ids : List Nat) :
    (ids.map Call.join ++ ids.map Call.delete).filterMap Call.deletes = ids := by
  simp [Function.comp_def, Call.deletes]

theorem stands_initial : Stands initial := ⟨rfl, rfl⟩

/-- The loop runs in the threads that its start creates. -/
theorem StartEventLoop_runs (mca_num_channels : UInt16) (stands : Stands s) :
    Runs (StartEventLoop mca_num_channels s).1
      ((StartEventLoop mca_num_channels s).2.filterMap Call.creates) := by
  unfold StartEventLoop
  by_cases mca : mca_num_channels > 0
  · constructor <;> simp [State.handles, Call.creates, mca, stands.objects, stands.live]
  · constructor <;> simp [State.handles, Call.creates, mca, stands.objects, stands.live]

/-- Threads are joined one after another. -/
theorem foldlM_join (there : ∀ id ∈ ids, id ∈ s.objects) (live : s.live = ids) :
    (ids.map some).foldlM State.join s = some { s with live := [] } := by
  induction ids generalizing s with
  | nil =>
    cases s
    cases live
    rfl
  | cons id rest ih =>
    have here : id ∈ s.objects ∧ id ∈ s.live := by
      rw [live]
      exact ⟨there id List.mem_cons_self, List.mem_cons_self⟩
    rw [List.map_cons, List.foldlM_cons, State.join, if_pos here]
    refine ih (s := { s with live := s.live.erase id })
      (fun other member => there other (List.mem_cons_of_mem id member)) ?_
    simp only [live, List.erase_cons_head]

/-- Their objects are deleted. -/
theorem foldlM_delete (objects : s.objects = ids) (live : s.live = []) :
    (ids.map some).foldlM State.delete s = some { s with objects := [] } := by
  induction ids generalizing s with
  | nil =>
    cases s
    cases objects
    rfl
  | cons id rest ih =>
    have here : id ∈ s.objects ∧ id ∉ s.live := by
      rw [objects, live]
      exact ⟨List.mem_cons_self, List.not_mem_nil⟩
    rw [List.map_cons, List.foldlM_cons, State.delete, if_pos here]
    refine ih (s := { s with objects := s.objects.erase id }) ?_ live
    simp only [objects, List.erase_cons_head]

/-- A loop that runs is stopped, with the threads in which it runs. -/
theorem StopEventLoop_runs (runs : Runs s ids) :
    ∃ t, StopEventLoop s = some (t, ids.map .join ++ ids.map .delete) ∧ Stands t := by
  have joined : (ids.map some).foldlM State.join { s with evt_loop_sig := false } =
      some { s with evt_loop_sig := false, live := [] } :=
    foldlM_join (fun id member => runs.objects ▸ member) runs.live
  have deleted : (ids.map some).foldlM State.delete { s with evt_loop_sig := false, live := [] } =
      some { s with evt_loop_sig := false, live := [], objects := [] } :=
    foldlM_delete runs.objects rfl
  refine ⟨{ s with evt_loop_sig := false, live := [], objects := [] }, ?_, ⟨rfl, rfl⟩⟩
  have handles : (ids.map some).reduceOption = ids := by simp [List.reduceOption]
  simp only [StopEventLoop, runs.handles, handles, joined, deleted, Option.bind_eq_bind,
    Option.bind_some]
  rfl

end DCScan.EventLoop
