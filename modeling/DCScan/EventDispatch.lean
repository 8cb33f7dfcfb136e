import Mathlib.Data.List.Basic
import DCScan.SessionCalls

/-!
The dispatch of events on the client: when `GetEventCallback` and `GetEventUserData` find
what they look up.

`RemoveEvent` erases a callback before the server has heard of it, while events are still
on their way or are still emitted. `Undisturbed` says that neither happens: no entry is
erased while one of its events is pending, and no event is emitted that the client has
not set up.
-/

namespace DCScan.Session

open Lib Message

variable {maxSub : UInt8} {s t : State} {a : Action} {e : UInt8}

/-- The ids of the events among some messages. -/
def eventIds (ms : List Tagged) : List UInt8 :=
  ms.filterMap fun m => if m.msg.operation = some .EVT_RESPONSE then m.msg.payload.head? else none

/-- The ids of the events being emitted, under way, or being dispatched. -/
def State.pendingEvents (s : State) : List UInt8 :=
  s.events.emitting.map Prod.fst ++ eventIds s.serverOutbound ++ eventIds s.toClient ++
    s.events.dispatching.toList

/-- The client has set `e` up, in both tables. -/
def SetUp (s : State) (e : UInt8) : Prop :=
  (s.events.evtCallbacks e).isSome ∧ (s.events.evtUserData e).isSome

/-- No lookup of a received event's callback or user data has failed. -/
def CallbacksFound (s : State) : Prop :=
  s.fault ≠ some .callbackMissing ∧ s.fault ≠ some .userDataMissing ∧ s.fault ≠ some .nullCallback

/-- `RemoveEvent` erases an entry only when no event of that id is pending, and `EmitEvent`
passes its test only for an event the client has set up. -/
def Undisturbed (maxSub : UInt8) (s : State) : Action → Prop
  | .removeCallback _ e => e ∉ s.pendingEvents
  | .removeUserData t => ∀ e, s.threads t = .removing e → e ∉ s.pendingEvents
  | .emitTest e _ => CheckEvent maxSub s.events.subscriptions e = some true → SetUp s e
  | _ => True

/-- Every pending event is registered and set up. -/
def PendingSetUp (maxSub : UInt8) (s : State) : Prop :=
  ∀ e ∈ s.pendingEvents, e ≤ maxSub ∧ SetUp s e

@[simp] theorem eventIds_append (ms ns : List Tagged) :
    eventIds (ms ++ ns) = eventIds ms ++ eventIds ns :=
  List.filterMap_append

@[simp] theorem eventIds_nil : eventIds [] = [] := rfl

theorem eventIds_cons_event {m : Tagged} {ms : List Tagged}
    (event : m.msg.operation = some .EVT_RESPONSE) :
    eventIds (m :: ms) = m.msg.payload.head?.toList ++ eventIds ms := by
  cases head : m.msg.payload.head? <;> simp [eventIds, event, head]

theorem eventIds_cons_other {m : Tagged} {ms : List Tagged}
    (other : m.msg.operation ≠ some .EVT_RESPONSE) :
    eventIds (m :: ms) = eventIds ms := by
  simp [eventIds, other]

theorem eventIds_cons_subset (m : Tagged) (ms : List Tagged) : eventIds ms ⊆ eventIds (m :: ms) :=
  ((List.sublist_cons_self m ms).filterMap _).subset

/-- A lookup finds the entry of an event that is set up. -/
theorem getEvent_of_isSome {table : UInt8 → Option Pointer} (within : e ≤ maxSub)
    (present : (table e).isSome) :
    ∃ p, getEvent maxSub table e = .found p := by
  obtain ⟨p, entry⟩ := Option.isSome_iff_exists.mp present
  exact ⟨p, by simp [getEvent, within, entry]⟩

/-- What a step does to the tables, the pending events and the fault. -/
inductive EventEffect (maxSub : UInt8) (s : State) : Action → State → Prop where
  /-- The tables stay, and no event becomes pending. -/
  | aside {a : Action} {t : State} (callbacks : t.events.evtCallbacks = s.events.evtCallbacks)
      (userData : t.events.evtUserData = s.events.evtUserData)
      (pending : t.pendingEvents ⊆ s.pendingEvents)
      (fault : t.fault = none ∨ t.fault = some .promiseMissing ∨ t.fault = some .overrun) :
      EventEffect maxSub s a t
  /-- Half of `SetupEvent`. -/
  | insert {a : Action} {t : State}
      (callbacks : ∀ e, (s.events.evtCallbacks e).isSome → (t.events.evtCallbacks e).isSome)
      (userData : ∀ e, (s.events.evtUserData e).isSome → (t.events.evtUserData e).isSome)
      (pending : t.pendingEvents = s.pendingEvents) (fault : t.fault = none) :
      EventEffect maxSub s a t
  /-- Half of `RemoveEvent`. -/
  | remove {a : Action} {t : State} {e : UInt8}
      (unneeded : Undisturbed maxSub s a → e ∉ s.pendingEvents)
      (others : ∀ e', e' ≠ e → SetUp s e' → SetUp t e')
      (pending : t.pendingEvents = s.pendingEvents) (fault : t.fault = none) :
      EventEffect maxSub s a t
  | emit {e : UInt8} {evtData : List UInt8} (within : e ≤ maxSub)
      (passed : CheckEvent maxSub s.events.subscriptions e = some true) :
      EventEffect maxSub s (.emitTest e evtData)
        { s with events.emitting := s.events.emitting ++ [(e, evtData)] }
  | dispatch {m : Tagged} {rest : List Tagged} {e : UInt8} (arrived : s.toClient = m :: rest)
      (event : m.msg.operation = some .EVT_RESPONSE) (head : m.msg.payload.head? = some e) :
      EventEffect maxSub s .clientDecode (dispatchEvent maxSub { s with toClient := rest } e)
  | dispatchSecond {e : UInt8} (found : s.events.dispatching = some e) :
      EventEffect maxSub s .clientDispatch (dispatchUserData maxSub s e)

/-- The server's switch adds no event. -/
private theorem event_effect_of_serverSwitch {m : Tagged} {rest : List Tagged} {r : SVReturn}
    {mem : Uninit}
    (running : s.fault = none)
    (ran : serverSwitch maxSub { s with toServer := rest } m r mem = some t) :
    EventEffect maxSub s (.serverDecode r mem) t := by
  have answered : ∀ {op : InternalOperation} {id : UInt64} {call : Option Nat}, op ≠ .EVT_RESPONSE →
      eventIds (s.serverOutbound ++ [⟨call, ⟨op.code, id, some r.bytes⟩⟩]) =
        eventIds s.serverOutbound := by
    intro op id call notEvent
    rw [eventIds_append, eventIds_cons_other (by simpa using notEvent), eventIds_nil,
      List.append_nil]
  obtain ⟨d, decoded, rfl⟩ := Option.map_eq_some_iff.mp ran
  rcases decodeSwitch_reply decoded with ⟨rfl, _⟩ | ⟨rfl, _⟩ | dropped
  · exact .aside rfl rfl (by simp [State.pendingEvents, answered]) (Or.inl running)
  · exact .aside rfl rfl (by simp [State.pendingEvents, answered]) (Or.inl running)
  · simp only [dropped]
    exact .aside rfl rfl (List.Subset.refl _) (Or.inl running)

/-- The client's switch dispatches an event, or leaves the events alone. -/
private theorem event_effect_of_clientSwitch {m : Tagged} {rest : List Tagged}
    (running : s.fault = none)
    (arrived : s.toClient = m :: rest)
    (ran : clientSwitch maxSub { s with toClient := rest } m = some t) :
    EventEffect maxSub s .clientDecode t := by
  have fewer : ∀ {e}, e ∈ s.events.emitting.map Prod.fst ++ eventIds s.serverOutbound ++
    eventIds rest ++
      s.events.dispatching.toList → e ∈ s.pendingEvents := by
    intro e member
    have kept := eventIds_cons_subset m rest
    simp only [State.pendingEvents, arrived, List.mem_append] at member ⊢
    rcases member with (before | moved) | dispatched
    · exact Or.inl (Or.inl before)
    · exact Or.inl (Or.inr (kept moved))
    · exact Or.inr dispatched
  simp only [clientSwitch] at ran
  split at ran
  · cases ran
    unfold notifyPromise
    split
    · exact .aside rfl rfl (fun _ => fewer) (Or.inr (Or.inl rfl))
    · split
      · exact .aside rfl rfl (fun _ => fewer) (Or.inl running)
      · exact .aside rfl rfl (fun _ => fewer) (Or.inr (Or.inr rfl))
  · cases ran
    exact .aside rfl rfl (fun _ => fewer) (Or.inl running)
  · rename_i event
    obtain ⟨e, head, rfl⟩ := Option.map_eq_some_iff.mp ran
    exact .dispatch arrived event head
  · cases ran
    exact .aside rfl rfl (fun _ => fewer) (Or.inl running)

private theorem isSome_eraseEvent {table : UInt8 → Option Pointer} {id : UInt8} (different : e ≠ id)
    (present : (table e).isSome) : (eraseEvent maxSub table id e).isSome := by
  unfold eraseEvent
  split
  · rwa [erase_other different]
  · exact present

private theorem isSome_emplace {table : UInt8 → Option Pointer} {id : UInt8} {f : Pointer}
    (present : (table e).isSome) : (emplace table id f e).isSome := by
  obtain ⟨p, entry⟩ := Option.isSome_iff_exists.mp present
  rw [emplace_keeps entry]
  rfl

/-- **Every step has one of the effects.** -/
theorem event_effect_of_step (ran : step maxSub s a = some t) : EventEffect maxSub s a t := by
  have running := running_of_step ran
  cases turn_of_step ran with
  | request _ _ made | announce _ made =>
    obtain ⟨⟨nid, msg⟩, _, rfl⟩ := Option.map_eq_some_iff.mp made
    exact .aside rfl rfl (List.Subset.refl _) (Or.inl running)
  | setupCallback =>
    exact .insert (fun _ => isSome_emplace) (fun _ present => present) rfl running
  | setupUserData =>
    exact .insert (fun _ present => present) (fun _ => isSome_emplace) rfl running
  | removeCallback =>
    exact .remove id (fun e' other setUp => ⟨isSome_eraseEvent other setUp.1, setUp.2⟩) rfl running
  | removeUserData stand =>
    exact .remove (fun unneeded => unneeded _ stand)
      (fun e' other setUp => ⟨setUp.1, isSome_eraseEvent other setUp.2⟩) rfl running
  | schedule | register | clientSend =>
    exact .aside rfl rfl (List.Subset.refl _) (Or.inl running)
  | take =>
    unfold waitForId
    split
    · exact .aside rfl rfl (List.Subset.refl _) (Or.inl running)
    · exact .aside rfl rfl (List.Subset.refl _) (Or.inr (Or.inr rfl))
  | serverDecode arrived switched => exact event_effect_of_serverSwitch running switched
  | @emitTest e evtData subscribed within tested =>
    cases subscribed
    · exact .aside rfl rfl (List.Subset.refl _) (Or.inl running)
    · exact .emit within tested
  | @emitPush k mem e evtData nid msg pending made =>
    obtain ⟨event, head⟩ := eventMessage_head made
    refine .aside rfl rfl (fun e' member => ?_) (Or.inl running)
    have emitted : e ∈ s.events.emitting.map Prod.fst :=
      List.mem_map_of_mem (List.mem_of_getElem? pending)
    have pushed : eventIds [⟨none, msg⟩] = [e] := by
      rw [eventIds_cons_event event, head]
      rfl
    simp only [State.pendingEvents, eventIds_append, pushed, List.mem_append,
      List.mem_singleton] at member ⊢
    rcases member with ((left | old | rfl) | under) | dispatched
    · exact Or.inl (Or.inl (Or.inl (((List.eraseIdx_sublist ..).map Prod.fst).subset left)))
    · exact Or.inl (Or.inl (Or.inr old))
    · exact Or.inl (Or.inl (Or.inl emitted))
    · exact Or.inl (Or.inr under)
    · exact Or.inr dispatched
  | @serverSend m rest queued =>
    refine .aside rfl rfl (fun e member => ?_) (Or.inl running)
    have whole : eventIds s.serverOutbound = eventIds [m] ++ eventIds rest := by
      rw [queued, ← eventIds_append, List.singleton_append]
    simp only [State.pendingEvents, whole, eventIds_append, List.mem_append] at member ⊢
    tauto
  | clientDecode arrived switched => exact event_effect_of_clientSwitch running arrived switched
  | clientDispatch found => exact .dispatchSecond found

/-! ## The invariant -/

/-- **A pending event stays set up, and its lookups succeed.** -/
theorem pending_step (inv : PendingSetUp maxSub s) (running : s.fault = none)
    (met : Undisturbed maxSub s a)
    (eff : EventEffect maxSub s a t) : PendingSetUp maxSub t ∧ CallbacksFound t := by
  cases eff with
  | aside callbacks userData pending fault =>
    refine ⟨fun e member => ?_, ?_⟩
    · obtain ⟨within, setUp⟩ := inv e (pending member)
      exact ⟨within, by rwa [SetUp, callbacks, userData]⟩
    · rcases fault with fault | fault | fault <;> simp [CallbacksFound, fault]
  | insert callbacks userData pending fault =>
    refine ⟨fun e member => ?_, by simp [CallbacksFound, fault]⟩
    obtain ⟨within, setUp⟩ := inv e (pending ▸ member)
    exact ⟨within, callbacks e setUp.1, userData e setUp.2⟩
  | @remove a t removed unneeded others pending fault =>
    refine ⟨fun e member => ?_, by simp [CallbacksFound, fault]⟩
    rw [pending] at member
    have different : e ≠ removed := fun same => unneeded met (same ▸ member)
    exact ⟨(inv e member).1, others e different (inv e member).2⟩
  | @emit e evtData within passed =>
    refine ⟨fun e' member => ?_, by simp [CallbacksFound, running]⟩
    by_cases same : e' = e
    · subst same
      exact ⟨within, met passed⟩
    · refine inv e' ?_
      simpa [State.pendingEvents, same] using member
  | @dispatch m rest e arrived event head =>
    have pending : e ∈ s.pendingEvents := by
      simp [State.pendingEvents, arrived, eventIds_cons_event event, head]
    obtain ⟨within, setUp⟩ := inv e pending
    obtain ⟨p, found⟩ := getEvent_of_isSome within setUp.1
    simp only [dispatchEvent, found]
    refine ⟨fun e' member => ?_, by simp [CallbacksFound, running]⟩
    simp only [State.pendingEvents, List.mem_append, Option.toList_some,
      List.mem_singleton] at member
    rcases member with ((emitted | queued) | moved) | rfl
    · exact inv e' (by simp [State.pendingEvents, emitted])
    · exact inv e' (by simp [State.pendingEvents, queued])
    · have kept := eventIds_cons_subset m rest moved
      exact inv e' (by simp [State.pendingEvents, arrived, kept])
    · exact ⟨within, setUp⟩
  | @dispatchSecond e found =>
    obtain ⟨within, setUp⟩ := inv e (by simp [State.pendingEvents, found])
    obtain ⟨p, lookup⟩ := getEvent_of_isSome within setUp.2
    simp only [dispatchUserData, lookup]
    refine ⟨fun e' member => ?_, by simp [CallbacksFound, running]⟩
    refine inv e' ?_
    simp only [State.pendingEvents, Option.toList_none, List.append_nil] at member
    exact List.mem_append_left _ member

/-- An erased entry is gone. -/
private theorem eraseEvent_self {table : UInt8 → Option Pointer} (within : e ≤ maxSub) :
    eraseEvent maxSub table e e = none := by
  rw [eraseEvent, if_pos within, erase_self]

/-- A step that breaks the condition leaves a pending event without an entry. -/
theorem pending_of_disturbed (inv : PendingSetUp maxSub s) (ran : step maxSub s a = some t)
    (disturbed : ¬Undisturbed maxSub s a) : ¬PendingSetUp maxSub t := by
  intro kept
  rw [step.eq_def, if_neg (by simp [running_of_step ran])] at ran
  cases a with
  | removeCallback i e =>
    have pending : e ∈ s.pendingEvents := not_not.mp disturbed
    simp only [Option.ite_none_right_eq_some, Option.some.injEq] at ran
    obtain ⟨_, rfl⟩ := ran
    have present : (eraseEvent maxSub s.events.evtCallbacks e e).isSome := (kept e pending).2.1
    rw [eraseEvent_self (inv e pending).1] at present
    cases present
  | removeUserData i =>
    simp only [Undisturbed, not_forall, not_not] at disturbed
    obtain ⟨e, stand, pending⟩ := disturbed
    simp only [stand, Option.some.injEq] at ran
    subst ran
    have present : (eraseEvent maxSub s.events.evtUserData e e).isSome := (kept e pending).2.2
    rw [eraseEvent_self (inv e pending).1] at present
    cases present
  | emitTest e evtData =>
    simp only [Undisturbed, Classical.not_imp] at disturbed
    obtain ⟨passed, missing⟩ := disturbed
    simp only [passed, Option.map_some, ↓reduceIte, Option.ite_none_right_eq_some,
      Option.some.injEq] at ran
    obtain ⟨_, rfl⟩ := ran
    exact missing (kept e (by simp [State.pendingEvents])).2
  | _ => exact disturbed trivial

/-- **Every received event finds its callback and its user data** in the runs whose steps all
meet the condition, and the first step that does not leaves a pending event without one of them. -/
theorem callbacks_found (reached : (system maxSub).ReachableBy (Undisturbed maxSub) s) :
    CallbacksFound s ∧ PendingSetUp maxSub s ∧
      ∀ a t, (system maxSub).step s a = some t → (PendingSetUp maxSub t ↔ Undisturbed maxSub s a) := by
  have keeps : ∀ {s a t}, PendingSetUp maxSub s → Undisturbed maxSub s a → step maxSub s a = some t →
      PendingSetUp maxSub t ∧ CallbacksFound t := fun inv met ran =>
    pending_step inv (running_of_step ran) met (event_effect_of_step ran)
  have pending : ∀ s, (system maxSub).ReachableBy (Undisturbed maxSub) s → PendingSetUp maxSub s :=
    fun s reached => reached.invariant
      (by rintro _ ⟨nid, serverNid, rfl⟩; simp [PendingSetUp, State.pendingEvents, start])
      fun _ _ _ inv met ran => (keeps inv met ran).1
  have found : CallbacksFound s := reached.invariant_from pending
    (by rintro _ ⟨nid, serverNid, rfl⟩; simp [CallbacksFound, start])
    fun _ _ _ inv _ met ran => (keeps inv met ran).2
  refine ⟨found, pending s reached, fun a t ran => ⟨fun kept => ?_, fun met => ?_⟩⟩
  · by_contra disturbed
    exact pending_of_disturbed (pending s reached) ran disturbed kept
  · exact (keeps (pending s reached) met ran).1

/-- An event is set up and subscribed to, and the server emits it. -/
def emission : List Action :=
  [.setupCallback 0 1 7 8, .setupUserData 0, .announce 0 .zeros, .schedule 0, .clientSend,
    .serverDecode (.ofType 0) .zeros, .emitTest 1 [42], .emitPush 0 .zeros]

/-- An event is set up, subscribed to, emitted and dispatched. -/
theorem callbacks_found_when_subscribed : ∃ s, s.events.dispatching = some 1 ∧ CallbacksFound s ∧
    PendingSetUp 1 s := by
  have replayed : ∃ s, (system 1).ReachableBy (fun s a =>
      (match a with
        | .removeCallback .. | .removeUserData _ => false
        | .emitTest e _ => (s.events.evtCallbacks e).isSome && (s.events.evtUserData e).isSome
        | _ => true) = true) s ∧ s.events.dispatching = some 1 :=
    System.exists_reachableBy_of_replay (s := start 1 0 0) ⟨0, 0, rfl⟩
      (emission ++ [.serverSend, .clientDecode])
      (by decide +kernel)
  obtain ⟨s, reached, dispatching⟩ := replayed
  have undisturbed : (system 1).ReachableBy (Undisturbed 1) s := reached.mono fun s a _ met => by
    cases a with
    | removeCallback | removeUserData => cases met
    | emitTest e evtData => exact fun _ => by simpa [SetUp] using met
    | _ => trivial
  obtain ⟨found, pending, _⟩ := callbacks_found undisturbed
  exact ⟨s, dispatching, found, pending⟩

/-- **The condition is needed.** The client removes its callback while an event is queued at the
server; the event arrives and `GetEventCallback` throws. -/
theorem callback_missing_when_removed : ∃ s, (system 1).Reachable s ∧ ¬CallbacksFound s := by
  have replayed : ∃ s, (system 1).Reachable s ∧ s.fault = some .callbackMissing :=
    System.exists_reachable_of_replay (s := start 1 0 0) ⟨0, 0, rfl⟩
      (emission ++ [.register 0, .removeCallback 0 1, .removeUserData 0, .serverSend, .clientDecode])
      (by decide +kernel)
  obtain ⟨s, reached, missing⟩ := replayed
  exact ⟨s, reached, fun found => found.1 missing⟩

end DCScan.Session
