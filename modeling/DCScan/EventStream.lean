import DCScan.RemoteResults

/-!
The events of a session over the bytes of its connection: from `EmitEvent`, in any number of threads
of the server, to the callbacks that the client's decode loop calls.

`Streaming` records what is pushed by the one and called by the other. Replies and events share the
server's queue, the socket and the client's byte queue; whatever is under way there stands between the
two records.
-/

namespace DCScan.RemoteCalls

open Lib Message Generator Marshalling
open Framing (Carries ibBuffSize)

variable {τ : Type}

/-- The id of an event, and its data. -/
abbrev Emission := UInt8 × List UInt8

/-- The event that a message carries. -/
def eventOf (msg : DefaultMessage) : Option Emission :=
  if msg.operation = some .EVT_RESPONSE then
    match msg.payload with
    | e :: evtData => some (e, evtData)
    | [] => none
  else none

/-- The events among some messages. -/
def eventsOf (ms : List Session.Tagged) : List Emission := ms.filterMap fun m => eventOf m.msg

/-- A session over bytes, and its events. -/
structure Streaming (lay : Layout τ) where
  remote : State lay
  /-- What `EmitEvent` has pushed. -/
  emitted : List Emission
  /-- The event whose callback the decode loop has found, and not called yet. -/
  current : Option Emission
  /-- What callbacks were called with. -/
  called : List Emission

variable {lay : Layout τ}

/-- The event that an action pushes. -/
def pushed (s : State lay) : Action lay → Option Emission
  | .inside (.emitPush k _) => s.session.events.emitting[k]?
  | _ => none

/-- The event that the client's decode loop gets. -/
def decoded (s : State lay) : Action lay → Option Emission
  | .clientDecode heap => (s.down.decodeNext heap).bind fun r => eventOf r.1
  | _ => none

/-- The callback of an event is called. -/
def calls (t : State lay) : Action lay → Bool
  | .inside .clientDispatch => t.session.fault.isNone
  | _ => false

/-- A step of `EmitEvent`. -/
def isEmission : Action lay → Bool
  | .inside (.emitTest ..) | .inside (.emitPush ..) => true
  | _ => false

/-- Nothing is received, fetched or on its way. -/
structure Quiet (l : Framing.State) : Prop where
  consumer : l.consumer = .waitHeader
  queue : l.queue.contents = []
  wire : l.wire = []

section

variable [DecidableEq τ] (lay) {headers : List Header} (run : Run headers)
variable (impl : Nat → Text → List (Any lay) → Any lay) (maxSub : UInt8)

def Streaming.step (s : Streaming lay) (a : Action lay) : Option (Streaming lay) :=
  (RemoteCalls.step lay run impl maxSub s.remote a).map fun remote =>
    { remote
      emitted := s.emitted ++ (pushed s.remote a).toList
      current := if calls remote a then none else (decoded s.remote a).or s.current
      called := s.called ++ if calls remote a then s.current.toList else [] }

def streaming : System (Streaming lay) (Action lay) where
  init s := ∃ nid serverNid block block', block.length = ibBuffSize ∧ block'.length = ibBuffSize ∧
    s = ⟨start lay maxSub nid serverNid block block', [], none, []⟩
  step := Streaming.step lay run impl maxSub

end

/-- Every event that was pushed has been called, or is where it can be, in this order. -/
structure Accounted (s : Streaming lay) : Prop where
  events : s.emitted = s.called ++ (s.current.toList ++
    (eventsOf s.remote.session.toClient ++ eventsOf s.remote.session.serverOutbound))
  dispatching : s.remote.session.fault = none →
    s.remote.session.events.dispatching = s.current.map Prod.fst

variable {s t : Session.State} {a : Session.Action} {maxSub : UInt8} {m : Session.Tagged}
variable {ms rest : List Session.Tagged} {l : Framing.State}

/-! ## The events among messages -/

@[simp] theorem eventsOf_append (ms rest : List Session.Tagged) :
    eventsOf (ms ++ rest) = eventsOf ms ++ eventsOf rest := List.filterMap_append

theorem eventsOf_cons (m : Session.Tagged) (rest : List Session.Tagged) :
    eventsOf (m :: rest) = (eventOf m.msg).toList ++ eventsOf rest := by
  rw [eventsOf, List.filterMap_cons]
  cases eventOf m.msg <;> rfl

@[simp] theorem eventsOf_nil : eventsOf [] = [] := rfl

theorem eventOf_other {msg : DefaultMessage} (other : msg.operation ≠ some .EVT_RESPONSE) :
    eventOf msg = none := if_neg other

/-- What `EmitEvent` makes carries the event. -/
theorem eventOf_emitted {mem : Uninit} {nid nid' : UInt64} {e : UInt8} {evtData : List UInt8}
    {msg : DefaultMessage} (fits : evtData.length + 10 < 2 ^ 31)
    (made : eventMessage mem nid e evtData = some (nid', msg)) : eventOf msg = some (e, evtData) := by
  rw [eventMessage_eq fits, Option.some.injEq, Prod.mk.injEq] at made
  obtain ⟨_, rfl⟩ := made
  exact if_pos DefaultMessage.operation_mk

/-! ## What the steps do to them -/

/-- The server's switch queues a reply at most. -/
theorem eventsOf_serverSwitch {r : SVReturn} {mem : Uninit}
    (ran : Session.serverSwitch maxSub s m r mem = some t) :
    eventsOf t.serverOutbound = eventsOf s.serverOutbound ∧ t.toClient = s.toClient ∧
      t.events.dispatching = s.events.dispatching := by
  obtain ⟨d, switched, rfl⟩ := Option.map_eq_some_iff.mp ran
  rcases decodeSwitch_reply switched with ⟨rfl, _⟩ | ⟨rfl, _⟩ | dropped
  · refine ⟨?_, rfl, rfl⟩
    rw [eventsOf_append, eventsOf_cons, eventOf_other (by simp)]
    simp
  · refine ⟨?_, rfl, rfl⟩
    rw [eventsOf_append, eventsOf_cons, eventOf_other (by simp)]
    simp
  · simp [dropped]

/-- The client's switch looks the callback of an event up, and leaves the events alone otherwise. -/
theorem dispatching_clientSwitch (calm : s.events.dispatching = none)
    (ran : Session.clientSwitch maxSub s m = some t) (running : t.fault = none) :
    t.events.dispatching = (eventOf m.msg).map Prod.fst := by
  unfold Session.clientSwitch at ran
  split at ran
  · rename_i operation
    cases ran
    rw [eventOf_other (by simp [operation])]
    unfold Session.notifyPromise
    split
    · exact calm
    · split <;> exact calm
  · rename_i operation
    cases ran
    rw [eventOf_other (by simp [operation])]
    exact calm
  · rename_i operation
    obtain ⟨e, head, rfl⟩ := Option.map_eq_some_iff.mp ran
    have found : (eventOf m.msg).map Prod.fst = some e := by
      rw [eventOf, if_pos operation]
      cases bytes : m.msg.payload with
      | nil => simp [bytes] at head
      | cons c evtData =>
        rw [bytes] at head
        exact head
    rw [found]
    unfold Session.dispatchEvent at running ⊢
    split at running
    · rfl
    · cases running
    · cases running
  · rename_i operation _ other
    cases ran
    rw [eventOf_other other]
    exact calm

/-- What a step inside the session does to the events. -/
inductive Streams (s : Session.State) (a : Session.Action) (t : Session.State) : Prop where
  | aside (queued : eventsOf t.serverOutbound = eventsOf s.serverOutbound)
      (dispatching : t.events.dispatching = s.events.dispatching)
      (pushes : ∀ k mem, a ≠ .emitPush k mem) (dispatches : a ≠ .clientDispatch)
  | push {k mem x} (same : a = .emitPush k mem) (pending : s.events.emitting[k]? = some x)
      (queued : eventsOf t.serverOutbound = eventsOf s.serverOutbound ++ [x])
      (dispatching : t.events.dispatching = s.events.dispatching)
  | dispatch (same : a = .clientDispatch) (queued : t.serverOutbound = s.serverOutbound)
      (dispatching : t.fault = none → t.events.dispatching = none)

theorem streams_of_inside (sized : Sized s) (inside : isInside a = true)
    (ran : Session.step maxSub s a = some t) : Streams s a t := by
  cases Session.turn_of_step ran with
  | announce _ made =>
    obtain ⟨_, _, rfl⟩ := Option.map_eq_some_iff.mp made
    exact .aside rfl rfl nofun nofun
  | take =>
    unfold Session.waitForId
    split <;> exact .aside rfl rfl nofun nofun
  | emitTest => split <;> exact .aside rfl rfl nofun nofun
  | @emitPush k mem e evtData nid msg pending made =>
    have small : evtData.length + 14 ≤ ibBuffSize :=
      sized.emitting (e, evtData) (List.mem_of_getElem? pending)
    refine .push rfl pending ?_ rfl
    rw [eventsOf_append, eventsOf_cons, eventOf_emitted (by unfold ibBuffSize at small; omega) made]
    rfl
  | clientDispatch =>
    unfold Session.dispatchUserData
    split
    · exact .dispatch rfl rfl nofun
    · exact .dispatch rfl rfl fun _ => rfl
  | request | clientSend | serverSend | serverDecode | clientDecode => cases inside
  | _ => exact .aside rfl rfl nofun nofun

/-! ## Runs -/

/-- A step that is no event's leaves the records as they are. -/
theorem Accounted.aside {s t : Streaming lay} (accounted : Accounted s)
    (emitted : t.emitted = s.emitted) (current : t.current = s.current) (called : t.called = s.called)
    (under : eventsOf t.remote.session.toClient ++ eventsOf t.remote.session.serverOutbound =
      eventsOf s.remote.session.toClient ++ eventsOf s.remote.session.serverOutbound)
    (dispatching : t.remote.session.events.dispatching = s.remote.session.events.dispatching)
    (was : s.remote.session.fault = none) : Accounted t where
  events := by rw [emitted, called, current, under, accounted.events]
  dispatching _ := by rw [dispatching, current, accounted.dispatching was]

theorem nothing_of_reading {a : Action lay} (reads : isReading a = true) :
    (∀ s, pushed s a = none) ∧ (∀ s, decoded s a = none) ∧ ∀ t, calls t a = false := by
  cases a with
  | serverReceive | serverHeader | serverBody => exact ⟨fun _ => rfl, fun _ => rfl, fun _ => rfl⟩
  | clientReceive | clientHeader | clientBody => exact ⟨fun _ => rfl, fun _ => rfl, fun _ => rfl⟩
  | _ => cases reads

theorem nothing_under_way {ms : List DefaultMessage} (carries : Carries l ms) (quiet : Quiet l) :
    ms = [] := by
  have bytes : [] = ms.flatMap frame := by
    rw [← carries.bytes, quiet.queue, quiet.wire, Framing.State.inHand, quiet.consumer]
    rfl
  cases ms with
  | nil => rfl
  | cons m rest =>
    have length := congrArg List.length bytes
    rw [List.flatMap_cons, List.length_append, frame_length, List.length_nil] at length
    omega

/-- What every run keeps. -/
structure Streamed (s : Streaming lay) : Prop where
  linked : Linked s.remote
  accounted : Accounted s

theorem streamed_start {nid serverNid : UInt64} {block block' : List UInt8}
    (size : block.length = ibBuffSize) (size' : block'.length = ibBuffSize) :
    Streamed ⟨start lay maxSub nid serverNid block block', [], none, []⟩ :=
  ⟨linked_start nid serverNid size size', rfl, fun _ => rfl⟩

/-- What is called is the first of what is pushed, and all of it once nothing is under way. -/
theorem Streamed.called {s : Streaming lay} (streamed : Streamed s) : s.called <+: s.emitted ∧
    (s.remote.session.serverOutbound = [] → Quiet s.remote.down → s.current = none →
      s.called = s.emitted) := by
  obtain ⟨linked, accounted⟩ := streamed
  refine ⟨accounted.events ▸ List.prefix_append _ _, fun queued quiet idle => ?_⟩
  have none_there : s.remote.session.toClient = [] :=
    List.map_eq_nil_iff.mp (nothing_under_way linked.down quiet)
  rw [accounted.events, idle, none_there, queued]
  simp

section

variable [DecidableEq τ] {headers : List Header} {run : Run headers}
variable {impl : Nat → Text → List (Any lay) → Any lay}

theorem accounted_of_moves {s : Streaming lay} {t : State lay} {a : Action lay}
    (accounted : Accounted s) (linked : Linked s.remote) (was : s.remote.session.fault = none)
    (moves : Moves run impl maxSub s.remote a t) : Accounted ⟨t, s.emitted ++ (pushed s.remote a).toList,
      if calls t a then none else (decoded s.remote a).or s.current,
      s.called ++ if calls t a then s.current.toList else []⟩ := by
  cases moves with
  | call _ _ _ drew =>
    cases Session.turn_of_step drew with
    | request _ _ made =>
      obtain ⟨_, _, rfl⟩ := Option.map_eq_some_iff.mp made
      exact accounted.aside (by simp [pushed]) (by simp [calls, decoded]) (by simp [calls]) rfl rfl was
  | clientSend =>
    exact accounted.aside (by simp [pushed]) (by simp [calls, decoded]) (by simp [calls]) rfl rfl was
  | upward reads | downward reads =>
    obtain ⟨none_pushed, none_decoded, none_called⟩ := nothing_of_reading reads
    exact accounted.aside (by simp [none_pushed]) (by simp [none_decoded, none_called])
      (by simp [none_called]) rfl rfl was
  | serverDecode _ _ _ switched =>
    obtain ⟨queued, toClient, dispatching⟩ := eventsOf_serverSwitch switched
    refine accounted.aside (by simp [pushed]) (by simp [calls, decoded]) (by simp [calls]) ?_
      dispatching was
    simp only [queued, toClient]
  | serverSend queued =>
    refine accounted.aside (by simp [pushed]) (by simp [calls, decoded]) (by simp [calls]) ?_ rfl was
    rw [queued, eventsOf_append, List.append_assoc, ← eventsOf_append]
    rfl
  | @clientDecode heap msg down session running calm taken switched =>
    obtain ⟨m, rest, under, tagged, rfl, _⟩ := head_of_decodeNext linked.down taken
    rw [under, List.tail_cons, ← under, tagged] at switched
    have none_there : s.current = none := by
      have found := accounted.dispatching was
      rw [calm] at found
      simpa using found.symm
    have same := untouched_of_clientSwitch switched
    have got : decoded s.remote (.clientDecode heap) = eventOf m.msg := by
      simp only [decoded, taken, Option.bind_some]
    refine ⟨?_, fun still => ?_⟩
    · simp only [pushed, calls, got, none_there, same.toClient, same.serverOutbound,
        accounted.events, under, eventsOf_cons]
      simp
    · have found := dispatching_clientSwitch (s := { s.remote.session with toClient := rest })
        calm switched still
      simpa [calls, got, none_there] using found
  | @inside b session apart ran =>
    have same := apart_of_inside apart ran
    cases streams_of_inside linked.sized apart ran with
    | aside queued dispatching pushes dispatches =>
      have others : pushed s.remote (.inside b) = none ∧
          calls { s.remote with session } (.inside b) = false := by
        cases b with
        | emitPush k mem => exact absurd rfl (pushes k mem)
        | clientDispatch => exact absurd rfl dispatches
        | _ => exact ⟨rfl, rfl⟩
      refine accounted.aside (by simp [others]) (by simp [others, decoded]) (by simp [others]) ?_
        dispatching was
      simp only [same.toClient, queued]
    | push known pending queued dispatching =>
      subst known
      refine ⟨?_, fun _ => ?_⟩
      · simp [pushed, pending, calls, decoded, same.toClient, queued, accounted.events]
      · simp only [dispatching, calls, decoded]
        exact accounted.dispatching was
    | dispatch known queued dispatching =>
      subst known
      cases faulted : session.fault with
      | none =>
        refine ⟨?_, fun _ => ?_⟩
        · simp [pushed, calls, faulted, same.toClient, queued, accounted.events]
        · simp [calls, faulted, dispatching faulted]
      | some fault =>
        refine ⟨?_, fun still => ?_⟩
        · simp [pushed, calls, decoded, faulted, same.toClient, queued, accounted.events]
        · cases faulted.symm.trans still

theorem streamed_step {s t : Streaming lay} {a : Action lay} (streamed : Streamed s)
    (fits : EventsFit a) (ran : Streaming.step lay run impl maxSub s a = some t) : Streamed t := by
  obtain ⟨remote, stepped, rfl⟩ := Option.map_eq_some_iff.mp ran
  have moves := moves_of_step stepped
  have running : s.remote.session.fault = none := by
    unfold RemoteCalls.step at stepped
    split at stepped
    · cases stepped
    · rename_i faultless
      simpa using faultless
  exact ⟨linked_step streamed.linked fits moves,
    accounted_of_moves streamed.accounted streamed.linked running moves⟩

/-- **Events come in order.** Whatever else is sent, and however the bytes are cut, the callbacks are
called with the events that were pushed, in their order, each once and with its data; with all of
them once nothing is under way. -/
theorem events_in_order {s : Streaming lay}
    (reached : (streaming lay run impl maxSub).ReachableBy (fun _ a => EventsFit a) s) :
    s.called <+: s.emitted ∧
      (s.remote.session.serverOutbound = [] → Quiet s.remote.down → s.current = none →
        s.called = s.emitted) := by
  have streamed : Streamed s := by
    refine reached.invariant ?_ fun s a t streamed fits ran => streamed_step streamed fits ran
    rintro _ ⟨nid, serverNid, block, block', size, size', rfl⟩
    exact streamed_start size size'
  exact streamed.called

/-! ## An event that gets through -/

/-- Steps by which no event is emitted. -/
abbrev SilentSteps (run : Run headers) (impl : Nat → Text → List (Any lay) → Any lay)
    (maxSub : UInt8) : Streaming lay → Streaming lay → Prop :=
  (streaming lay run impl maxSub).Steps fun _ a => EventsFit a ∧ isEmission a = false

theorem step_inside {s : State lay} {b : Session.Action} {session : Session.State}
    (running : s.session.fault = none) (apart : isInside b = true)
    (ran : Session.step maxSub s.session b = some session) :
    RemoteCalls.step lay run impl maxSub s (.inside b) = some { s with session := session } := by
  rw [RemoteCalls.step, if_neg (by simp [running])]
  simp only [apart, if_true, ran, Option.map_some]

theorem silent_of_reading {s t : State lay} {emitted called : List Emission}
    {current : Option Emission} (steps : ReadingSteps run impl maxSub s t) :
    SilentSteps run impl maxSub ⟨s, emitted, current, called⟩ ⟨t, emitted, current, called⟩ := by
  induction steps with
  | refl => exact .refl _
  | @step s t _ a reads ran _ ih =>
    obtain ⟨none_pushed, none_decoded, none_called⟩ := nothing_of_reading reads
    have stepped : RemoteCalls.step lay run impl maxSub s a = some t := ran
    refine .step ⟨eventsFit_of_regular (s := s) (regular_of_reading reads), ?_⟩ ?_ ih
    · cases a with
      | inside => cases reads
      | _ => rfl
    · simp [streaming, Streaming.step, stepped, none_pushed, none_decoded, none_called]

end

/-- A session in which event 1 is set up and subscribed to. -/
def subscribed : Session.State :=
  ((Session.system 1).run (Session.start 1 0 0) [.setupCallback 0 1 7 8, .setupUserData 0,
    .announce 0 .zeros, .schedule 0, .clientSend, .serverDecode (.ofType 0) .zeros]).getD
      (Session.start 1 0 0)

def subscription : DefaultMessage := ⟨InternalOperation.EVT_SUB.code, 0, some [1]⟩

/-- What `EmitEvent` makes. -/
def event (evtData : List UInt8) : DefaultMessage :=
  ⟨InternalOperation.EVT_RESPONSE.code, 0, some (1 :: evtData)⟩

/-- The same session with the event queued. -/
def eventQueued (evtData : List UInt8) : Session.State :=
  { subscribed with
    events.serverNid := 1
    serverOutbound := [⟨none, event evtData⟩] }

/-- A session over links. -/
def onLinks (session : Session.State) (up down : Framing.State) : State readLayout :=
  ⟨session, up, down, fun _ => none⟩

theorem subscribes : ∃ up, SilentSteps readRun readImpl 1
    ⟨start readLayout 1 0 0 zeros zeros, [], none, []⟩
    ⟨onLinks subscribed up (.idle zeros), [], none, []⟩ := by
  let sent : Session.State := ((Session.system 1).run (Session.start 1 0 0) [.setupCallback 0 1 7 8,
    .setupUserData 0, .announce 0 .zeros, .schedule 0, .clientSend]).getD (Session.start 1 0 0)
  have framed : Framing.Framed subscription := framed_of_payload (by decide) (by decide)
  have sends : SilentSteps readRun readImpl 1 ⟨start readLayout 1 0 0 zeros zeros, [], none, []⟩
      ⟨onLinks sent ((Framing.State.idle zeros).send subscription) (.idle zeros), [], none, []⟩ :=
    .of_run [.inside (.setupCallback 0 1 7 8), .inside (.setupUserData 0),
      .inside (.announce 0 .zeros), .inside (.schedule 0), .clientSend]
      (by simp [EventsFit, FitsQueue, isEmission]) rfl
  have free := Framing.carries_idle zeros_length
  obtain ⟨up, fetches, in_hand⟩ := free.delivers framed
  obtain ⟨m, rest, up', under, _, makes⟩ := ((free.send framed).fetches fetches).decodes in_hand
  obtain ⟨rfl, rfl⟩ := List.cons.inj under
  have serves : RemoteCalls.step readLayout readRun readImpl 1 (onLinks sent up (.idle zeros))
      (.serverDecode .zeros .zeros) = some (onLinks subscribed up' (.idle zeros)) :=
    step_serverDecode (r := .ofType 0) rfl (makes .zeros) rfl rfl
  have decodes : SilentSteps readRun readImpl 1 ⟨onLinks sent up (.idle zeros), [], none, []⟩
      ⟨onLinks subscribed up' (.idle zeros), [], none, []⟩ :=
    .one (a := .serverDecode .zeros .zeros) ⟨trivial, rfl⟩
      (by simp [streaming, Streaming.step, serves, pushed, decoded, calls])
  exact ⟨up', (sends.trans (silent_of_reading (fetches_up rfl fetches))).trans decodes⟩

/-- Its `EmitEvent` queues the event. -/
theorem event_emitted (evtData : List UInt8) (fits : evtData.length + 10 < 2 ^ 31)
    (up : Framing.State) : ∃ session,
      Streaming.step readLayout readRun readImpl 1 ⟨onLinks subscribed up (.idle zeros), [], none, []⟩
        (.inside (.emitTest 1 evtData)) = some ⟨onLinks session up (.idle zeros), [], none, []⟩ ∧
      pushed (onLinks session up (.idle zeros)) (.inside (.emitPush 0 .zeros)) = some (1, evtData) ∧
      Streaming.step readLayout readRun readImpl 1 ⟨onLinks session up (.idle zeros), [], none, []⟩
        (.inside (.emitPush 0 .zeros)) =
          some ⟨onLinks (eventQueued evtData) up (.idle zeros), [(1, evtData)], none, []⟩ := by
  let emitting : Session.State := { subscribed with events.emitting := [(1, evtData)] }
  have tests : Session.step 1 subscribed (.emitTest 1 evtData) = some emitting := by
    have inside : (1 : UInt8) ≤ 1 ∧ (1 : UInt8) ≤ 1 ∧ evtData.length + 10 < 2 ^ 31 :=
      ⟨by decide, by decide, fits⟩
    rw [Session.step, if_neg (by decide)]
    simp only [if_pos inside]
    rfl
  have pushes : Session.step 1 emitting (.emitPush 0 .zeros) = some (eventQueued evtData) := by
    have made : eventMessage .zeros 0 1 evtData = some (1, event evtData) := eventMessage_eq fits
    have running : emitting.fault.isSome = false := rfl
    have pending : emitting.events.emitting[0]? = some (1, evtData) := rfl
    have nid : emitting.events.serverNid = 0 := rfl
    rw [Session.step, running]
    simp only [pending, nid, made, Option.map_some]
    rfl
  have carries : pushed (onLinks emitting up (.idle zeros)) (.inside (.emitPush 0 .zeros)) =
      some (1, evtData) := rfl
  refine ⟨emitting, ?_, carries, ?_⟩
  · have stepped : RemoteCalls.step readLayout readRun readImpl 1
        (onLinks subscribed up (.idle zeros)) (.inside (.emitTest 1 evtData)) =
          some (onLinks emitting up (.idle zeros)) := step_inside rfl rfl tests
    simp [Streaming.step, stepped, pushed, decoded, calls]
  · have stepped : RemoteCalls.step readLayout readRun readImpl 1
        (onLinks emitting up (.idle zeros)) (.inside (.emitPush 0 .zeros)) =
          some (onLinks (eventQueued evtData) up (.idle zeros)) := step_inside rfl rfl pushes
    simp [Streaming.step, stepped, carries, decoded, calls]

/-- An event that is queued is called. -/
theorem event_called (evtData : List UInt8) (fits : evtData.length + 14 ≤ ibBuffSize)
    (up : Framing.State) : ∃ down, SilentSteps readRun readImpl 1
      ⟨onLinks (eventQueued evtData) up (.idle zeros), [(1, evtData)], none, []⟩
      ⟨onLinks { eventQueued evtData with serverOutbound := [] } up down, [(1, evtData)], none,
        [(1, evtData)]⟩ := by
  have framed : Framing.Framed (event evtData) :=
    framed_of_payload (Nat.succ_pos _) (by rw [List.length_cons]; omega)
  let under : Session.State :=
    { eventQueued evtData with serverOutbound := [], toClient := [⟨none, event evtData⟩] }
  have sends : SilentSteps readRun readImpl 1
      ⟨onLinks (eventQueued evtData) up (.idle zeros), [(1, evtData)], none, []⟩
      ⟨onLinks under up ((Framing.State.idle zeros).send (event evtData)), [(1, evtData)], none, []⟩ :=
    .of_run [.serverSend] (by simp [EventsFit, isEmission]) rfl
  have free := Framing.carries_idle zeros_length
  obtain ⟨down, fetches, in_hand⟩ := free.delivers framed
  obtain ⟨m, rest, down', there, _, makes⟩ := ((free.send framed).fetches fetches).decodes in_hand
  obtain ⟨rfl, rfl⟩ := List.cons.inj there
  let found : Session.State :=
    { eventQueued evtData with serverOutbound := [], events.dispatching := some 1 }
  have decodes : RemoteCalls.step readLayout readRun readImpl 1 (onLinks under up down)
      (.clientDecode .zeros) = some (onLinks found up down') :=
    step_clientDecode rfl rfl (makes .zeros) rfl
  have got : decoded (onLinks under up down) (.clientDecode .zeros) = some (1, evtData) := by
    have made : (onLinks under up down).down.decodeNext .zeros = some (event evtData, down') :=
      makes .zeros
    simp only [decoded, made, Option.bind_some]
    exact if_pos DefaultMessage.operation_mk
  have finds : SilentSteps readRun readImpl 1 ⟨onLinks under up down, [(1, evtData)], none, []⟩
      ⟨onLinks found up down', [(1, evtData)], some (1, evtData), []⟩ :=
    .one (a := .clientDecode .zeros) ⟨trivial, rfl⟩
      (by simp [streaming, Streaming.step, decodes, pushed, calls, got])
  have dispatches : SilentSteps readRun readImpl 1
      ⟨onLinks found up down', [(1, evtData)], some (1, evtData), []⟩
      ⟨onLinks { eventQueued evtData with serverOutbound := [] } up down', [(1, evtData)], none,
        [(1, evtData)]⟩ :=
    .of_run [.inside .clientDispatch] (by simp [EventsFit, FitsQueue, isEmission]) rfl
  exact ⟨down', ((sends.trans (silent_of_reading (fetches_down rfl rfl fetches))).trans finds).trans
    dispatches⟩

/-- The one event. -/
theorem events_in_order_once : ∃ s : Streaming readLayout, s.called = [(1, [42])] ∧
    s.called <+: s.emitted ∧
      (s.remote.session.serverOutbound = [] → Quiet s.remote.down → s.current = none →
        s.called = s.emitted) := by
  have start : (streaming readLayout readRun readImpl 1).ReachableBy (fun _ a => EventsFit a)
      ⟨start readLayout 1 0 0 zeros zeros, [], none, []⟩ :=
    .init ⟨0, 0, zeros, zeros, zeros_length, zeros_length, rfl⟩
  obtain ⟨up, first⟩ := subscribes
  obtain ⟨session, tests, _, pushes⟩ := event_emitted [42] (by decide) up
  obtain ⟨down, last⟩ := event_called [42] (by simp [ibBuffSize]) up
  have subscribed := start.steps (first.mono fun _ _ => And.left)
  have fits : EventsFit (.inside (.emitTest 1 [42]) : Action readLayout) := by
    simp [EventsFit, FitsQueue, ibBuffSize]
  have tested := subscribed.step fits tests
  have trivially : EventsFit (.inside (.emitPush 0 .zeros) : Action readLayout) := trivial
  have queued := tested.step trivially pushes
  have reached := queued.steps (last.mono fun _ _ => And.left)
  exact ⟨_, rfl, events_in_order reached⟩

end DCScan.RemoteCalls
