import DCScan.FixedBuffers
import DCScan.Lib.Simulation
import DCScan.Links
import DCScan.SessionUnique

/-!
Calls of registered functions over a connection, down to the bytes: the generated RPC functions and
`SendSync` or `SendAsync` on one side, `GetParamsFromData` and `Execute` on the other, and between them
both send threads, both sockets, both byte queues and both decode loops.

The threads are those of `Session`, whose two lists of messages under way are ghosts here: a message is
made of the bytes in a link, and only the number of the call it belongs to is taken from the list.
`session_reached` says that the lists never differ from the bytes, so that what holds of the sessions of
messages holds of this one.

What the registered functions do may depend on everything that happened before: `impl k` is what they
do in the `k`-th `Execute`.
-/

namespace DCScan.RemoteCalls

open Lib Message Generator Marshalling
open Framing (Framed Carries ibBuffSize)

variable {τ : Type}

/-- What a client thread called: the function, by the position of its declaration, and the arguments. -/
structure Asked (lay : Layout τ) where
  function : Nat
  args : List (Any lay)

structure State (lay : Layout τ) where
  session : Session.State
  /-- From the client to the server. -/
  up : Framing.State
  /-- From the server to the client. -/
  down : Framing.State
  /-- What each call asked for; no step looks at it. -/
  asked : Nat → Option (Asked lay)

inductive Action (lay : Layout τ) where
  /-- Thread `i` calls a function with `SendSync` or `SendAsync`: up to `SetNew`. -/
  | call (i : Nat) (sync : Bool) (function : Nat) (args : List (Any lay)) (stack heap : Uninit)
  | clientSend
  | serverReceive (n : Nat)
  | serverHeader
  | serverBody
  /-- The server decodes a message, executes it and queues the reply. -/
  | serverDecode (heap stack : Uninit)
  | serverSend
  | clientReceive (n : Nat)
  | clientHeader
  | clientBody
  | clientDecode (heap : Uninit)
  /-- Any step of a session that does not touch the connection. -/
  | inside (a : Session.Action)

/-- The call that the next message of a list belongs to. -/
def tag (ms : List Session.Tagged) : Option Nat := ms.head?.bind Session.Tagged.call

/-- The steps that do not touch the connection and make no request. -/
def isInside : Session.Action → Bool
  | .request .. | .clientSend | .serverSend | .serverDecode .. | .clientDecode => false
  | _ => true

/-- The function code of the declaration at a position, a `u16`. -/
def svCall (function : Nat) : UInt16 := UInt16.ofNat (function + 1)

section

variable [DecidableEq τ] (lay : Layout τ) {headers : List Header} (run : Run headers)
variable (impl : Nat → Text → List (Any lay) → Any lay) (maxSub : UInt8)

/-- What the server's decode switch passes to the reply: the value of `Execute` for a request. -/
def result (k : Nat) (msg : DefaultMessage) (stack : Uninit) : Option SVReturn :=
  if msg.operation = some .ASYNC_REQUEST ∨ msg.operation = some .SYNC_REQUEST then do
    let params ← GetParamsFromData lay (DCSGen run) msg.payload (signed 32 msg.size)
    Execute lay (DCSGen run) (impl k) stack params
  else some (.ofType 0)

/-- One step of one thread; nothing runs after a fault. `none` also stands for what C++ leaves
undefined, as in `Marshalling`. -/
def step (s : State lay) (a : Action lay) : Option (State lay) :=
  if s.session.fault.isSome then none else
  match a with
  | .call i sync function args stack heap => do
    let d ← run.declarations[function]?
    -- the compiler checks the arguments
    if args.map Any.type = d.args.map lay.type then
      let (buffer, size_written) ← rpcFunc lay (DCSGen run) stack (svCall function) args
      let session ← Session.step maxSub s.session
        (.request i sync (buffer.take size_written.toNat) heap)
      return { s with
        session := session
        asked := Function.update s.asked s.session.calls.length (some ⟨function, args⟩) }
    else none
  | .clientSend =>
    match s.session.outbound with
    | m :: _ => (Session.step maxSub s.session .clientSend).map fun session =>
      { s with session := session, up := s.up.send m.msg }
    | [] => none
  | .serverReceive n => (s.up.receive n).map fun up => { s with up := up }
  | .serverHeader => (Framing.step s.up .readHeader).map fun up => { s with up := up }
  | .serverBody => (Framing.step s.up .takeBody).map fun up => { s with up := up }
  | .serverDecode heap stack => do
    let (msg, up) ← s.up.decodeNext heap
    let r ← result lay run impl s.session.executed.length msg stack
    let session ← Session.serverSwitch maxSub
      { s.session with toServer := s.session.toServer.tail } ⟨tag s.session.toServer, msg⟩ r heap
    return { s with session := session, up := up }
  | .serverSend =>
    match s.session.serverOutbound with
    | m :: _ => (Session.step maxSub s.session .serverSend).map fun session =>
      { s with session := session, down := s.down.send m.msg }
    | [] => none
  | .clientReceive n => (s.down.receive n).map fun down => { s with down := down }
  | .clientHeader =>
    if s.session.events.dispatching = none then
      (Framing.step s.down .readHeader).map fun down => { s with down := down }
    else none
  | .clientBody =>
    if s.session.events.dispatching = none then
      (Framing.step s.down .takeBody).map fun down => { s with down := down }
    else none
  | .clientDecode heap =>
    if s.session.events.dispatching = none then do
      let (msg, down) ← s.down.decodeNext heap
      let session ← Session.clientSwitch maxSub
        { s.session with toClient := s.session.toClient.tail } ⟨tag s.session.toClient, msg⟩
      return { s with session := session, down := down }
    else none
  | .inside a =>
    if isInside a then (Session.step maxSub s.session a).map fun session => { s with session := session }
    else none

/-- A session that starts, over links over which nothing has been sent. -/
def start (nid serverNid : UInt64) (block block' : List UInt8) : State lay where
  session := Session.start maxSub nid serverNid
  up := .idle block
  down := .idle block'
  asked := fun _ => none

def system : System (State lay) (Action lay) where
  init s := ∃ nid serverNid block block', block.length = ibBuffSize ∧ block'.length = ibBuffSize ∧
    s = start lay maxSub nid serverNid block block'
  step := step lay run impl maxSub

end

/-! ## What the runs are asked to meet -/

/-- An event fits the queue at the other end. -/
def FitsQueue : Session.Action → Prop
  | .emitTest _ evtData => evtData.length + 14 ≤ ibBuffSize
  | _ => True

variable {lay : Layout τ}

/-- Events fit the queue. -/
def EventsFit : Action lay → Prop
  | .inside a => FitsQueue a
  | _ => True

/-- Events fit the queue, and no call draws an id that an open call holds. -/
def Regular (s : State lay) : Action lay → Prop
  | .call i sync _ _ _ heap => Session.Fresh s.session (.request i sync [] heap)
  | .inside a => FitsQueue a ∧ Session.Fresh s.session a
  | _ => True

/-! ## What is sent is a frame that fits -/

/-- The sizes of what threads and server queues hold. -/
structure Sized (s : Session.State) : Prop where
  calls : ∀ c ∈ s.calls, 0 < c.data.length ∧ c.data.length ≤ 1024
  emitting : ∀ x ∈ s.events.emitting, x.2.length + 14 ≤ ibBuffSize
  serverOutbound : ∀ m ∈ s.serverOutbound, Framed m.msg

variable {maxSub : UInt8} {s t : Session.State} {a : Session.Action}

theorem framed_of_payload {op : UInt8} {id : UInt64} {payload : List UInt8} (some' : 0 < payload.length)
    (fits : payload.length + 13 ≤ ibBuffSize) : Framed ⟨op, id, some payload⟩ :=
  ⟨rfl, some', fits⟩

theorem framed_reply (op : UInt8) (id : UInt64) (r : SVReturn) : Framed ⟨op, id, some r.bytes⟩ := by
  apply framed_of_payload <;> rw [r.length_eq]
  · decide
  · decide

/-- A request under way is framed. -/
theorem framed_of_requested {m : Session.Tagged} (sized : Sized s) (request : Session.Requested s m) :
    Framed m.msg := by
  obtain ⟨n, c, _, found, made⟩ := request
  obtain ⟨some', small⟩ := sized.calls c (List.mem_of_getElem? found)
  rw [made]
  apply framed_of_payload some'
  unfold ibBuffSize
  omega

/-- What the client's decode loop, and a thread that takes its reply, leave alone. -/
structure Untouched (s t : Session.State) : Prop where
  calls : t.calls = s.calls
  executed : t.executed = s.executed
  toServer : t.toServer = s.toServer
  toClient : t.toClient = s.toClient
  serverOutbound : t.serverOutbound = s.serverOutbound
  emitting : t.events.emitting = s.events.emitting

theorem Sized.of_untouched (sized : Sized s) (same : Untouched s t) : Sized t := by
  constructor
  · rw [same.calls]
    exact sized.calls
  · rw [same.emitting]
    exact sized.emitting
  · rw [same.serverOutbound]
    exact sized.serverOutbound

theorem untouched_of_clientSwitch {m : Session.Tagged}
    (ran : Session.clientSwitch maxSub s m = some t) : Untouched s t := by
  simp only [Session.clientSwitch] at ran
  split at ran
  · cases ran
    unfold Session.notifyPromise
    split
    · exact ⟨rfl, rfl, rfl, rfl, rfl, rfl⟩
    · split <;> exact ⟨rfl, rfl, rfl, rfl, rfl, rfl⟩
  · cases ran
    exact ⟨rfl, rfl, rfl, rfl, rfl, rfl⟩
  · obtain ⟨e, _, rfl⟩ := Option.map_eq_some_iff.mp ran
    unfold Session.dispatchEvent
    split <;> exact ⟨rfl, rfl, rfl, rfl, rfl, rfl⟩
  · cases ran
    exact ⟨rfl, rfl, rfl, rfl, rfl, rfl⟩

theorem untouched_of_waitForId (i n : Nat) (old : SVReturn) :
    Untouched s (Session.waitForId s i n old) := by
  unfold Session.waitForId
  split <;> exact ⟨rfl, rfl, rfl, rfl, rfl, rfl⟩

theorem untouched_of_dispatchUserData (e : UInt8) :
    Untouched s (Session.dispatchUserData maxSub s e) := by
  unfold Session.dispatchUserData
  split <;> exact ⟨rfl, rfl, rfl, rfl, rfl, rfl⟩

/-- The queues of the decode switch grow by a reply at most. -/
theorem sized_serverSwitch {m : Session.Tagged} {r : SVReturn} {mem : Uninit} (sized : Sized s)
    (ran : Session.serverSwitch maxSub s m r mem = some t) : Sized t := by
  obtain ⟨d, decoded, rfl⟩ := Option.map_eq_some_iff.mp ran
  rcases decodeSwitch_reply decoded with ⟨rfl, _⟩ | ⟨rfl, _⟩ | dropped
  · refine ⟨sized.calls, sized.emitting, fun m' member => ?_⟩
    rcases List.mem_append.mp member with before | new
    · exact sized.serverOutbound m' before
    · rw [List.mem_singleton.mp new]
      exact framed_reply ..
  · refine ⟨sized.calls, sized.emitting, fun m' member => ?_⟩
    rcases List.mem_append.mp member with before | new
    · exact sized.serverOutbound m' before
    · rw [List.mem_singleton.mp new]
      exact framed_reply ..
  · simp only [dropped]
    exact ⟨sized.calls, sized.emitting, sized.serverOutbound⟩

/-- A call draws an id and adds its data to the calls. -/
theorem sized_begin {i : Nat} {sync : Bool} {kind : Session.CallKind} {op : Operation}
    {data : List UInt8} {mem : Uninit} (sized : Sized s) (length : 0 < data.length ∧ data.length ≤ 1024)
    (made : Session.begin s i sync kind op data mem = some t) : Sized t := by
  obtain ⟨⟨nid, msg⟩, _, rfl⟩ := Option.map_eq_some_iff.mp made
  refine ⟨fun c member => ?_, sized.emitting, sized.serverOutbound⟩
  rcases List.mem_append.mp member with before | new
  · exact sized.calls c before
  · rwa [List.mem_singleton.mp new]

theorem sized_step (sized : Sized s) (fits : FitsQueue a)
    (ran : Session.step maxSub s a = some t) : Sized t := by
  cases Session.turn_of_step ran with
  | request _ length made => exact sized_begin sized ⟨by omega, length.2⟩ made
  | announce _ made => exact sized_begin sized (by simp) made
  | serverDecode _ switched =>
    refine sized_serverSwitch ?_ switched
    exact ⟨sized.calls, sized.emitting, sized.serverOutbound⟩
  | clientDecode _ switched =>
    refine Sized.of_untouched ?_ (untouched_of_clientSwitch switched)
    exact ⟨sized.calls, sized.emitting, sized.serverOutbound⟩
  | emitTest =>
    split
    · refine ⟨sized.calls, fun x member => ?_, sized.serverOutbound⟩
      rcases List.mem_append.mp member with before | new
      · exact sized.emitting x before
      · rw [List.mem_singleton.mp new]
        exact fits
    · exact sized
  | @emitPush k mem e evtData nid msg pending made =>
    have small : evtData.length + 14 ≤ ibBuffSize :=
      sized.emitting (e, evtData) (List.mem_of_getElem? pending)
    rw [eventMessage_eq (by unfold ibBuffSize at small; omega), Option.some.injEq,
      Prod.mk.injEq] at made
    obtain ⟨rfl, rfl⟩ := made
    refine ⟨sized.calls, fun x member => sized.emitting x (List.mem_of_mem_eraseIdx member), ?_⟩
    intro m member
    rcases List.mem_append.mp member with before | new
    · exact sized.serverOutbound m before
    · rw [List.mem_singleton.mp new]
      exact framed_of_payload (Nat.succ_pos _) (by rw [List.length_cons]; omega)
  | serverSend queued =>
    exact ⟨sized.calls, sized.emitting, fun m member =>
      sized.serverOutbound m (queued ▸ List.mem_cons_of_mem _ member)⟩
  | take => exact sized.of_untouched (untouched_of_waitForId ..)
  | clientDispatch => exact sized.of_untouched (untouched_of_dispatchUserData _)
  | _ => exact ⟨sized.calls, sized.emitting, sized.serverOutbound⟩

/-! ## The links carry what the session has under way -/

/-- The bytes of the links are those of the messages that the session has under way. -/
structure Linked (s : State lay) : Prop where
  up : Carries s.up (s.session.toServer.map Session.Tagged.msg)
  down : Carries s.down (s.session.toClient.map Session.Tagged.msg)
  sized : Sized s.session
  shape : Session.Shape s.session

/-- The message that the decode loop makes is the one at the head of the list. -/
theorem head_of_decodeNext {l l' : Framing.State} {ms : List Session.Tagged} {heap : Uninit}
    {msg : DefaultMessage} (carries : Carries l (ms.map Session.Tagged.msg))
    (decoded : l.decodeNext heap = some (msg, l')) :
    ∃ m rest, ms = m :: rest ∧ tag ms = m.call ∧ msg = m.msg ∧
      Carries l' (rest.map Session.Tagged.msg) := by
  obtain ⟨later, split, _, carries'⟩ := carries.decodeNext decoded
  cases ms with
  | nil => cases split
  | cons m rest =>
    obtain ⟨rfl, rfl⟩ := List.cons.inj split
    exact ⟨m, rest, rfl, rfl, rfl, carries'⟩

/-- The steps that do not touch the connection leave what is under way, execute nothing and make
no request. -/
structure Apart (s t : Session.State) : Prop where
  toServer : t.toServer = s.toServer
  toClient : t.toClient = s.toClient
  executed : t.executed = s.executed
  calls : t.calls = s.calls ∨ ∃ c, t.calls = s.calls ++ [c] ∧ c.kind ≠ .sync ∧ c.kind ≠ .async

theorem Untouched.apart {s t : Session.State} (same : Untouched s t) : Apart s t :=
  ⟨same.toServer, same.toClient, same.executed, .inl same.calls⟩

theorem apart_of_inside {s t : Session.State} {a : Session.Action} (inside : isInside a = true)
    (ran : Session.step maxSub s a = some t) : Apart s t := by
  cases Session.turn_of_step ran with
  | @announce _ _ sub _ _ _ made =>
    obtain ⟨_, _, rfl⟩ := Option.map_eq_some_iff.mp made
    exact ⟨rfl, rfl, rfl, .inr ⟨_, rfl, by cases sub <;> simp, by cases sub <;> simp⟩⟩
  | take => exact (untouched_of_waitForId ..).apart
  | clientDispatch => exact (untouched_of_dispatchUserData _).apart
  | emitTest => split <;> exact ⟨rfl, rfl, rfl, .inl rfl⟩
  | request | clientSend | serverSend | serverDecode | clientDecode => cases inside
  | _ => exact ⟨rfl, rfl, rfl, .inl rfl⟩

/-- A request draws an id and is added to the calls. -/
structure Called (s t : Session.State) (sync : Bool) (data : List UInt8) : Prop where
  toServer : t.toServer = s.toServer
  toClient : t.toClient = s.toClient
  executed : t.executed = s.executed
  calls : ∃ id, t.calls = s.calls ++ [⟨if sync then .sync else .async, id, data⟩]

theorem called_of_request {s t : Session.State} {i : Nat} {sync : Bool} {data : List UInt8}
    {mem : Uninit} (ran : Session.step maxSub s (.request i sync data mem) = some t) :
    Called s t sync data := by
  cases Session.turn_of_step ran with
  | request _ _ made =>
    obtain ⟨⟨nid, msg⟩, _, rfl⟩ := Option.map_eq_some_iff.mp made
    exact ⟨rfl, rfl, rfl, msg.id, rfl⟩

/-- What the server's decode switch does to the histories: it executes a request. -/
theorem served_of_serverSwitch {s t : Session.State} {m : Session.Tagged} {r : SVReturn}
    {mem : Uninit} (ran : Session.serverSwitch maxSub s m r mem = some t) :
    (t.toServer = s.toServer ∧ t.toClient = s.toClient ∧ t.calls = s.calls) ∧
      (t.executed = s.executed ∨
        (m.msg.operation = some .ASYNC_REQUEST ∨ m.msg.operation = some .SYNC_REQUEST) ∧
          t.executed = s.executed ++ m.call.toList.map fun n => ⟨n, m.msg.payload, r⟩) := by
  obtain ⟨d, decoded, rfl⟩ := Option.map_eq_some_iff.mp ran
  rcases decodeSwitch_reply decoded with ⟨rfl, request⟩ | ⟨rfl, request⟩ | dropped
  · exact ⟨⟨rfl, rfl, rfl⟩, .inr ⟨.inl request, rfl⟩⟩
  · exact ⟨⟨rfl, rfl, rfl⟩, .inr ⟨.inr request, rfl⟩⟩
  · simp [dropped]

theorem linked_start (nid serverNid : UInt64) {block block' : List UInt8}
    (size : block.length = ibBuffSize) (size' : block'.length = ibBuffSize) :
    Linked (start lay maxSub nid serverNid block block') where
  up := Framing.carries_idle size
  down := Framing.carries_idle size'
  sized := ⟨nofun, nofun, nofun⟩
  shape := Session.start_shape maxSub nid serverNid

/-! ## One inversion for the steps -/

/-- The step of the session that an action is. -/
inductive Matches : Action lay → Session.Action → Prop where
  | request {i sync function args stack heap data} :
      Matches (.call i sync function args stack heap) (.request i sync data heap)
  | clientSend : Matches .clientSend .clientSend
  | serverDecode {heap stack r} : Matches (.serverDecode heap stack) (.serverDecode r heap)
  | serverSend : Matches .serverSend .serverSend
  | clientDecode {heap} : Matches (.clientDecode heap) .clientDecode
  | inside {b} : Matches (.inside b) b

theorem fits_of_matches {a : Action lay} {b : Session.Action} (fits : EventsFit a)
    (same : Matches a b) : FitsQueue b := by
  cases same with
  | inside => exact fits
  | _ => exact trivial

theorem fresh_of_matches {s : State lay} {a : Action lay} {b : Session.Action} (regular : Regular s a)
    (same : Matches a b) : Session.Fresh s.session b := by
  cases same with
  | request => exact regular
  | inside => exact regular.2
  | _ => exact trivial

theorem eventsFit_of_regular {s : State lay} {a : Action lay} (regular : Regular s a) :
    EventsFit a := by
  cases a with
  | inside => exact regular.1
  | _ => exact trivial

section

variable [DecidableEq τ] {headers : List Header} {run : Run headers}
variable {impl : Nat → Text → List (Any lay) → Any lay}

/-- The steps that move bytes from a link to a decode loop. -/
def isReading : Action lay → Bool
  | .serverReceive _ | .serverHeader | .serverBody => true
  | .clientReceive _ | .clientHeader | .clientBody => true
  | _ => false

/-- What each action finds, and leaves. -/
inductive Moves (run : Run headers) (impl : Nat → Text → List (Any lay) → Any lay) (maxSub : UInt8)
    (s : State lay) : Action lay → State lay → Prop where
  | call {i sync function args stack heap d buffer size_written session}
      (declared : run.declarations[function]? = some d)
      (typed : args.map Any.type = d.args.map lay.type)
      (written : rpcFunc lay (DCSGen run) stack (svCall function) args = some (buffer, size_written))
      (drew : Session.step maxSub s.session
        (.request i sync (buffer.take size_written.toNat) heap) = some session) :
      Moves run impl maxSub s (.call i sync function args stack heap) { s with
        session := session
        asked := Function.update s.asked s.session.calls.length (some ⟨function, args⟩) }
  | clientSend {m rest} (queued : s.session.outbound = m :: rest)
      (running : s.session.fault = none) :
      Moves run impl maxSub s .clientSend { s with
        session := { s.session with outbound := rest, toServer := s.session.toServer ++ [m] }
        up := s.up.send m.msg }
  /-- The receive thread of the server, or its decode loop in `fetchNextMsg`. -/
  | upward {a up} (reads : isReading a = true) (keeps : ∀ ms, Carries s.up ms → Carries up ms) :
      Moves run impl maxSub s a { s with up := up }
  | serverDecode {heap stack msg up r session} (running : s.session.fault = none)
      (decoded : s.up.decodeNext heap = some (msg, up))
      (value : result lay run impl s.session.executed.length msg stack = some r)
      (switched : Session.serverSwitch maxSub { s.session with toServer := s.session.toServer.tail }
        ⟨tag s.session.toServer, msg⟩ r heap = some session) :
      Moves run impl maxSub s (.serverDecode heap stack) { s with session := session, up := up }
  | serverSend {m rest} (queued : s.session.serverOutbound = m :: rest)
      (running : s.session.fault = none) :
      Moves run impl maxSub s .serverSend { s with
        session := { s.session with serverOutbound := rest, toClient := s.session.toClient ++ [m] }
        down := s.down.send m.msg }
  /-- The receive thread of the client, or its decode loop in `fetchNextMsg`. -/
  | downward {a down} (reads : isReading a = true) (keeps : ∀ ms, Carries s.down ms → Carries down ms) :
      Moves run impl maxSub s a { s with down := down }
  | clientDecode {heap msg down session} (running : s.session.fault = none)
      (calm : s.session.events.dispatching = none)
      (decoded : s.down.decodeNext heap = some (msg, down))
      (switched : Session.clientSwitch maxSub { s.session with toClient := s.session.toClient.tail }
        ⟨tag s.session.toClient, msg⟩ = some session) :
      Moves run impl maxSub s (.clientDecode heap) { s with session := session, down := down }
  | inside {a session} (apart : isInside a = true)
      (ran : Session.step maxSub s.session a = some session) :
      Moves run impl maxSub s (.inside a) { s with session := session }

theorem moves_of_step {s t : State lay} {a : Action lay} (ran : step lay run impl maxSub s a = some t) :
    Moves run impl maxSub s a t := by
  unfold step at ran
  split at ran
  · contradiction
  · rename_i faultless
    have running : s.session.fault = none := by simpa using faultless
    cases a with
    | call i sync function args stack heap =>
      obtain ⟨d, declared, ran⟩ := Option.bind_eq_some_iff.mp ran
      split at ran
      · rename_i typed
        obtain ⟨⟨buffer, size_written⟩, written, ran⟩ := Option.bind_eq_some_iff.mp ran
        obtain ⟨session, drew, made⟩ := Option.bind_eq_some_iff.mp ran
        cases made
        exact .call declared typed written drew
      · contradiction
    | clientSend =>
      simp only at ran
      split at ran
      · rename_i queued
        obtain ⟨session, sent, rfl⟩ := Option.map_eq_some_iff.mp ran
        cases Session.turn_of_step sent with
        | clientSend found =>
          cases queued.symm.trans found
          exact .clientSend queued running
      · contradiction
    | serverReceive n =>
      obtain ⟨up, received, rfl⟩ := Option.map_eq_some_iff.mp ran
      exact .upward rfl fun _ carries => carries.receive received
    | serverHeader =>
      obtain ⟨up, read, rfl⟩ := Option.map_eq_some_iff.mp ran
      exact .upward rfl fun _ carries => carries.readHeader read
    | serverBody =>
      obtain ⟨up, took, rfl⟩ := Option.map_eq_some_iff.mp ran
      exact .upward rfl fun _ carries => carries.takeBody took
    | serverDecode heap stack =>
      obtain ⟨⟨msg, up⟩, decoded, ran⟩ := Option.bind_eq_some_iff.mp ran
      obtain ⟨r, value, ran⟩ := Option.bind_eq_some_iff.mp ran
      obtain ⟨session, switched, made⟩ := Option.bind_eq_some_iff.mp ran
      cases made
      exact .serverDecode running decoded value switched
    | serverSend =>
      simp only at ran
      split at ran
      · rename_i queued
        obtain ⟨session, sent, rfl⟩ := Option.map_eq_some_iff.mp ran
        cases Session.turn_of_step sent with
        | serverSend found =>
          cases queued.symm.trans found
          exact .serverSend queued running
      · contradiction
    | clientReceive n =>
      obtain ⟨down, received, rfl⟩ := Option.map_eq_some_iff.mp ran
      exact .downward rfl fun _ carries => carries.receive received
    | clientHeader =>
      obtain ⟨_, ran⟩ := Option.ite_none_right_eq_some.mp ran
      obtain ⟨down, read, rfl⟩ := Option.map_eq_some_iff.mp ran
      exact .downward rfl fun _ carries => carries.readHeader read
    | clientBody =>
      obtain ⟨_, ran⟩ := Option.ite_none_right_eq_some.mp ran
      obtain ⟨down, took, rfl⟩ := Option.map_eq_some_iff.mp ran
      exact .downward rfl fun _ carries => carries.takeBody took
    | clientDecode heap =>
      obtain ⟨calm, ran⟩ := Option.ite_none_right_eq_some.mp ran
      obtain ⟨⟨msg, down⟩, decoded, ran⟩ := Option.bind_eq_some_iff.mp ran
      obtain ⟨session, switched, made⟩ := Option.bind_eq_some_iff.mp ran
      cases made
      exact .clientDecode running calm decoded switched
    | inside a =>
      obtain ⟨apart, ran⟩ := Option.ite_none_right_eq_some.mp ran
      obtain ⟨session, stepped, rfl⟩ := Option.map_eq_some_iff.mp ran
      exact .inside apart stepped

/-- A decode loop of the server that gets through a message. -/
theorem step_serverDecode {s : State lay} {heap stack : Uninit} {msg : DefaultMessage}
    {up : Framing.State} {r : SVReturn} {session : Session.State} (running : s.session.fault = none)
    (decoded : s.up.decodeNext heap = some (msg, up))
    (value : result lay run impl s.session.executed.length msg stack = some r)
    (switched : Session.serverSwitch maxSub { s.session with toServer := s.session.toServer.tail }
      ⟨tag s.session.toServer, msg⟩ r heap = some session) :
    step lay run impl maxSub s (.serverDecode heap stack) =
      some { s with session := session, up := up } := by
  rw [step, if_neg (by simp [running])]
  simp only [decoded, Option.bind_eq_bind, Option.bind_some, value, switched]
  rfl

/-- A decode loop of the client that gets through a message. -/
theorem step_clientDecode {s : State lay} {heap : Uninit} {msg : DefaultMessage}
    {down : Framing.State} {session : Session.State} (running : s.session.fault = none)
    (calm : s.session.events.dispatching = none)
    (decoded : s.down.decodeNext heap = some (msg, down))
    (switched : Session.clientSwitch maxSub { s.session with toClient := s.session.toClient.tail }
      ⟨tag s.session.toClient, msg⟩ = some session) :
    step lay run impl maxSub s (.clientDecode heap) =
      some { s with session := session, down := down } := by
  rw [step, if_neg (by simp [running])]
  simp only [calm, if_true, decoded, Option.bind_eq_bind, Option.bind_some, switched]
  rfl

/-! ## The simulation -/

/-- An action is a step of the session, or leaves the session alone. -/
theorem simulated {s t : State lay} {a : Action lay} (linked : Linked s)
    (moves : Moves run impl maxSub s a t) :
    t.session = s.session ∨
      ∃ b, Matches a b ∧ Session.step maxSub s.session b = some t.session := by
  cases moves with
  | call _ _ _ drew => exact .inr ⟨_, .request, drew⟩
  | clientSend queued running =>
    exact .inr ⟨_, .clientSend, by simp [Session.step, running, queued]⟩
  | upward | downward => exact .inl rfl
  | @serverDecode heap stack msg up r session running decoded value switched =>
    obtain ⟨m, rest, under, tagged, rfl, _⟩ := head_of_decodeNext linked.up decoded
    rw [under] at tagged switched
    rw [tagged] at switched
    exact .inr ⟨_, .serverDecode (r := r), by simpa [Session.step, running, under] using switched⟩
  | serverSend queued running =>
    exact .inr ⟨_, .serverSend, by simp [Session.step, running, queued]⟩
  | clientDecode running calm decoded switched =>
    obtain ⟨m, rest, under, tagged, rfl, _⟩ := head_of_decodeNext linked.down decoded
    rw [under] at tagged switched
    rw [tagged] at switched
    exact .inr ⟨_, .clientDecode, by simpa [Session.step, running, under, calm] using switched⟩
  | inside _ ran => exact .inr ⟨_, .inside, ran⟩

theorem linked_step {s t : State lay} {a : Action lay} (linked : Linked s) (fits : EventsFit a)
    (moves : Moves run impl maxSub s a t) : Linked t := by
  have inner : Sized t.session ∧ Session.Shape t.session := by
    rcases simulated linked moves with same | ⟨b, matched, ran⟩
    · rw [same]
      exact ⟨linked.sized, linked.shape⟩
    · exact ⟨sized_step linked.sized (fits_of_matches fits matched) ran,
        Session.shape_step linked.shape (Session.effect_of_step ran)⟩
  suffices carried : Carries t.up (t.session.toServer.map Session.Tagged.msg) ∧
      Carries t.down (t.session.toClient.map Session.Tagged.msg) from
    ⟨carried.1, carried.2, inner.1, inner.2⟩
  cases moves with
  | call _ _ _ drew =>
    have called := called_of_request drew
    simp only [called.toServer, called.toClient]
    exact ⟨linked.up, linked.down⟩
  | @clientSend m rest queued =>
    have request := linked.shape.requests m (by simp [queued])
    refine ⟨?_, linked.down⟩
    simpa using linked.up.send (framed_of_requested linked.sized request)
  | upward _ keeps => exact ⟨keeps _ linked.up, linked.down⟩
  | serverDecode running decoded value switched =>
    obtain ⟨m, rest, under, _, _, carries⟩ := head_of_decodeNext linked.up decoded
    obtain ⟨⟨toServer, toClient, _⟩, _⟩ := served_of_serverSwitch switched
    simp only [toServer, toClient, under, List.tail_cons]
    exact ⟨carries, linked.down⟩
  | @serverSend m rest queued =>
    refine ⟨linked.up, ?_⟩
    simpa using linked.down.send (linked.sized.serverOutbound m (by simp [queued]))
  | downward _ keeps => exact ⟨linked.up, keeps _ linked.down⟩
  | clientDecode running calm decoded switched =>
    obtain ⟨m, rest, under, _, _, carries⟩ := head_of_decodeNext linked.down decoded
    have same := untouched_of_clientSwitch switched
    simp only [same.toServer, same.toClient, under, List.tail_cons]
    exact ⟨linked.up, carries⟩
  | inside apart ran =>
    have same := apart_of_inside apart ran
    simp only [same.toServer, same.toClient]
    exact ⟨linked.up, linked.down⟩

theorem reachable_linked {cond : State lay → Action lay → Prop} {s : State lay}
    (fits : ∀ s a, cond s a → EventsFit a)
    (reached : (system lay run impl maxSub).ReachableBy cond s) : Linked s := by
  refine reached.invariant ?_ fun _ a _ linked met ran =>
    linked_step linked (fits _ a met) (moves_of_step ran)
  rintro _ ⟨nid, serverNid, block, block', size, size', rfl⟩
  exact linked_start nid serverNid size size'

/-- A run over the bytes is a run over the messages. -/
theorem session_reached {cond : State lay → Action lay → Prop}
    {other : Session.State → Session.Action → Prop} {s : State lay}
    (fits : ∀ s a, cond s a → EventsFit a)
    (meets : ∀ s a b, cond s a → Matches a b → other s.session b)
    (reached : (system lay run impl maxSub).ReachableBy cond s) :
    (Session.system maxSub).ReachableBy other s.session := by
  refine reached.simulates Linked State.session (fun _ => reachable_linked fits) ?_ ?_
  · rintro _ ⟨nid, serverNid, block, block', _, _, rfl⟩
    exact ⟨nid, serverNid, rfl⟩
  · intro s a t linked met ran
    rcases simulated linked (moves_of_step ran) with same | ⟨b, matched, ran'⟩
    · exact .inl same
    · exact .inr ⟨b, meets s a b met matched, ran'⟩

end

end DCScan.RemoteCalls
