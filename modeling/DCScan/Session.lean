import DCScan.Lib.System
import DCScan.Registry

/-!
One session between a client process and the server: any number of client threads in
`SendSync`, `SendAsync`, `SetupEvent` and `RemoveEvent`, the client's send and decode
threads, the server's decode and send threads, and any number of server threads in
`EmitEvent`.

Each action is one step of one thread between two points where another thread can see
what it did: drawing an id, pushing a message, registering a promise and looking a
callback up are steps of their own. What is under way between a send thread and the
decode thread at the other end is a list of messages, as `Framing.framing_refines_fifo`
allows.

`calls` numbers the calls of `SendSync` and `SendAsync` in the order in which they draw
their ids. A message carries the number of the call it belongs to beside its bytes
(`Tagged`): the steps copy the number along and never look at it. `executed`,
`delivered`, `returned` and `fulfilled` record what happened to each call.
-/

namespace DCScan.Session

open Lib Message

/-- The requests a client sends. -/
inductive CallKind where
  | sync | async | sub | unsub
  deriving DecidableEq, Repr

/-- The opcode a request is sent with. -/
def CallKind.request : CallKind → InternalOperation
  | sync => .SYNC_REQUEST
  | async => .ASYNC_REQUEST
  | sub => .EVT_SUB
  | unsub => .EVT_UNSUB

/-- One call: what it sends, and the id it drew. -/
structure Call where
  kind : CallKind
  id : UInt64
  data : List UInt8
  deriving DecidableEq

/-- One `Execute` on the server: the call it was made for, the parameter bytes it was
given and the value it produced. -/
structure Execution where
  call : Nat
  data : List UInt8
  result : SVReturn
  deriving DecidableEq

/-- A message and the call it belongs to; event messages belong to none. -/
structure Tagged where
  call : Option Nat
  msg : DefaultMessage
  deriving DecidableEq

/-- Where a client thread stands. -/
inductive Phase where
  | idle
  /-- In `SetupEvent`, the callback stored and the user data not yet. -/
  | settingUp (e : UInt8) (userData : Pointer)
  /-- In `RemoveEvent`, the callback erased and the user data not yet. -/
  | removing (e : UInt8)
  /-- Behind `SetupEvent` or `RemoveEvent`; the server is to be told. -/
  | announcing (sub : Bool) (e : UInt8)
  /-- In `SendSync` or `SendAsync`, behind `SetNew`. -/
  | drawn (sync : Bool) (n : Nat) (msg : DefaultMessage)
  /-- In `SendSync`, behind `ScheduleTransmission`: in `WaitForId(id)`. -/
  | waiting (n : Nat) (id : UInt64)
  /-- In `SendAsync`, behind `ScheduleTransmission`: the promise is not registered yet. -/
  | registering (n : Nat) (id : UInt64)
  deriving DecidableEq

/-- What ends a process. -/
inductive Fault where
  /-- `async_mess_prom.at` throws. -/
  | promiseMissing
  /-- `evt_callbacks.at` throws. -/
  | callbackMissing
  /-- `evt_userData.at` throws. -/
  | userDataMissing
  /-- The null callback of an id above `MAX_SUB` is called. -/
  | nullCallback
  /-- A return value is copied over, or read past, the end of its object. -/
  | overrun
  deriving DecidableEq, Repr

/-- The event tables of both processes, and the events being emitted and dispatched. -/
structure Events where
  evtCallbacks : UInt8 → Option Pointer
  evtUserData : UInt8 → Option Pointer
  /-- The event whose callback the decode thread has found and not called yet. -/
  dispatching : Option UInt8
  subscriptions : UInt8 → Option Bool
  /-- `SetNew`'s counter in the server process. -/
  serverNid : UInt64
  /-- `EmitEvent` calls behind their test and before their push. -/
  emitting : List (UInt8 × List UInt8)

structure State where
  nid : UInt64
  threads : Nat → Phase
  /-- The client's `outbound_data_queue`. -/
  outbound : List Tagged
  /-- Sent by the client and not decoded by the server. -/
  toServer : List Tagged
  /-- The server's `outbound_data_queue`. -/
  serverOutbound : List Tagged
  /-- Sent by the server and not decoded by the client. -/
  toClient : List Tagged
  lmessage : Tagged
  /-- `async_mess_prom`: the call whose promise is stored. -/
  asyncMessProm : UInt64 → Option Nat
  events : Events
  fault : Option Fault
  calls : List Call
  executed : List Execution
  delivered : List Nat
  returned : List (Nat × SVReturn)
  fulfilled : List (Nat × SVReturn)

/-- A session starts with empty queues, no promise, no callback and no subscription;
earlier sessions of the client process have drawn ids up to `nid`. -/
def start (maxSub : UInt8) (nid serverNid : UInt64) : State where
  nid := nid
  threads := fun _ => .idle
  outbound := []
  toServer := []
  serverOutbound := []
  toClient := []
  lmessage := ⟨none, ⟨0, 0, none⟩⟩
  asyncMessProm := fun _ => none
  events :=
    { evtCallbacks := fun _ => none
      evtUserData := fun _ => none
      dispatching := none
      subscriptions := initialSubscriptions maxSub
      serverNid := serverNid
      emitting := [] }
  fault := none
  calls := []
  executed := []
  delivered := []
  returned := []
  fulfilled := []

inductive Action where
  /-- Thread `t` calls `SendSync` or `SendAsync` with a request: up to `SetNew`. -/
  | request (t : Nat) (sync : Bool) (data : List UInt8) (mem : Uninit)
  | setupCallback (t : Nat) (e : UInt8) (f userData : Pointer)
  | setupUserData (t : Nat)
  | removeCallback (t : Nat) (e : UInt8)
  | removeUserData (t : Nat)
  /-- Thread `t` calls `SendAsync` with the event it set up or removed: up to `SetNew`. -/
  | announce (t : Nat) (mem : Uninit)
  /-- `ScheduleTransmission`. -/
  | schedule (t : Nat)
  /-- `async_mess_prom.emplace`. -/
  | register (t : Nat)
  /-- `WaitForId` finds its condition true. -/
  | take (t : Nat) (old : SVReturn)
  | clientSend
  /-- The server decodes a message; `r` is the value `Execute` produces for a request. -/
  | serverDecode (r : SVReturn) (mem : Uninit)
  /-- `EmitEvent`'s test, in a server thread emitting the registered event `e`. -/
  | emitTest (e : UInt8) (evtData : List UInt8)
  /-- The push of the `k`-th `EmitEvent` under way. -/
  | emitPush (k : Nat) (mem : Uninit)
  | serverSend
  | clientDecode
  /-- The second half of an event's dispatch. -/
  | clientDispatch

/-- `SendSync` and `SendAsync` up to `SetNew`. -/
def begin (s : State) (t : Nat) (sync : Bool) (kind : CallKind) (op : Operation) (data : List UInt8)
    (mem : Uninit) : Option State :=
  (build mem s.nid op (if sync then 1 else 2) data).map fun (nid, msg) =>
    { s with
      nid := nid
      threads := Function.update s.threads t (.drawn sync s.calls.length msg)
      calls := s.calls ++ [⟨kind, msg.id, data⟩] }

/-- `WaitForId`'s condition. -/
def answers (lmessage : DefaultMessage) (id : UInt64) : Bool :=
  lmessage.ptr.isSome && lmessage.id == id

/-- The rest of `WaitForId`, for the thread `t` whose call is `n`. -/
def waitForId (s : State) (t n : Nat) (old : SVReturn) : State :=
  match old.read s.lmessage.msg.payload with
  | some ret => { s with
      lmessage := ⟨none, Delete s.lmessage.msg⟩
      threads := Function.update s.threads t .idle
      returned := s.returned ++ [(n, ret)] }
  | none => { s with fault := some .overrun }

/-- `SetMsgIdCondition`: a message already in the slot is deleted, read or not. -/
def setMsgIdCondition (s : State) (m : Tagged) : State :=
  { s with lmessage := ⟨m.call, Copy m.msg⟩, delivered := s.delivered ++ m.call.toList }

/-- `NotifyPromise`. -/
def notifyPromise (s : State) (m : Tagged) : State :=
  match s.asyncMessProm m.msg.id with
  | none => { s with fault := some .promiseMissing }
  | some n =>
    match SVReturn.cast m.msg.payload with
    | some value => { s with
        asyncMessProm := erase s.asyncMessProm m.msg.id
        fulfilled := s.fulfilled ++ [(n, value)] }
    | none => { s with fault := some .overrun }

/-- The dispatch of an event up to `GetEventCallback`. -/
def dispatchEvent (maxSub : UInt8) (s : State) (e : UInt8) : State :=
  match getEvent maxSub s.events.evtCallbacks e with
  | .found _ => { s with events.dispatching := some e }
  | .null => { s with fault := some .nullCallback }
  | .missing => { s with fault := some .callbackMissing }

/-- `GetEventUserData`, and the call. -/
def dispatchUserData (maxSub : UInt8) (s : State) (e : UInt8) : State :=
  match getEvent maxSub s.events.evtUserData e with
  | .missing => { s with fault := some .userDataMissing }
  | _ => { s with events.dispatching := none }

/-- The server's decode switch, for a message already taken from the queue. -/
def serverSwitch (maxSub : UInt8) (s : State) (m : Tagged) (r : SVReturn) (mem : Uninit) :
    Option State :=
  (decodeSwitch maxSub s.events.subscriptions m.msg r mem).map fun d =>
    match d.reply with
    | some dm => { s with
        serverOutbound := s.serverOutbound ++ [⟨m.call, dm⟩]
        executed := s.executed ++ m.call.toList.map fun n => ⟨n, m.msg.payload, r⟩ }
    | none => { s with events.subscriptions := d.subscriptions }

/-- The client's decode switch, for a message already taken from the queue. -/
def clientSwitch (maxSub : UInt8) (s : State) (m : Tagged) : Option State :=
  match m.msg.operation with
  | some .ASYNC_RESPONSE => some (notifyPromise s m)
  | some .SYNC_RESPONSE => some (setMsgIdCondition s m)
  | some .EVT_RESPONSE => m.msg.payload.head?.map (dispatchEvent maxSub s)
  | _ => some s

/-- One step of one thread; nothing runs after a fault. -/
def step (maxSub : UInt8) (s : State) (a : Action) : Option State :=
  if s.fault.isSome then none else
  match a with
  | .request t sync data mem =>
    if s.threads t = .idle ∧ 2 ≤ data.length ∧ data.length ≤ 1024 then
      begin s t sync (if sync then .sync else .async) .REQUEST data mem
    else none
  | .setupCallback t e f userData =>
    if s.threads t = .idle then
      some { s with
        events.evtCallbacks := emplace s.events.evtCallbacks e f
        threads := Function.update s.threads t (.settingUp e userData) }
    else none
  | .setupUserData t =>
    match s.threads t with
    | .settingUp e userData => some { s with
        events.evtUserData := emplace s.events.evtUserData e userData
        threads := Function.update s.threads t (.announcing true e) }
    | _ => none
  | .removeCallback t e =>
    if s.threads t = .idle then
      some { s with
        events.evtCallbacks := eraseEvent maxSub s.events.evtCallbacks e
        threads := Function.update s.threads t (.removing e) }
    else none
  | .removeUserData t =>
    match s.threads t with
    | .removing e => some { s with
        events.evtUserData := eraseEvent maxSub s.events.evtUserData e
        threads := Function.update s.threads t (.announcing false e) }
    | _ => none
  | .announce t mem =>
    match s.threads t with
    | .announcing sub e =>
      begin s t false (if sub then .sub else .unsub) (if sub then .EVT_SUB else .EVT_UNSUB) [e] mem
    | _ => none
  | .schedule t =>
    match s.threads t with
    | .drawn sync n msg => some { s with
        outbound := s.outbound ++ [⟨some n, msg⟩]
        threads := Function.update s.threads t
          (if sync then .waiting n msg.id else .registering n msg.id) }
    | _ => none
  | .register t =>
    match s.threads t with
    | .registering n id => some { s with
        asyncMessProm := emplace s.asyncMessProm id n
        threads := Function.update s.threads t .idle }
    | _ => none
  | .take t old =>
    match s.threads t with
    | .waiting n id => if answers s.lmessage.msg id then some (waitForId s t n old) else none
    | _ => none
  | .clientSend =>
    match s.outbound with
    | m :: rest => some { s with outbound := rest, toServer := s.toServer ++ [m] }
    | [] => none
  | .serverDecode r mem =>
    match s.toServer with
    | m :: rest => serverSwitch maxSub { s with toServer := rest } m r mem
    | [] => none
  | .emitTest e evtData =>
    if 1 ≤ e ∧ e ≤ maxSub ∧ evtData.length + 10 < 2 ^ 31 then
      (CheckEvent maxSub s.events.subscriptions e).map fun subscribed =>
        if subscribed then { s with events.emitting := s.events.emitting ++ [(e, evtData)] } else s
    else none
  | .emitPush k mem =>
    match s.events.emitting[k]? with
    | some (e, evtData) => (eventMessage mem s.events.serverNid e evtData).map fun (nid, msg) =>
      { s with
        events.serverNid := nid
        events.emitting := s.events.emitting.eraseIdx k
        serverOutbound := s.serverOutbound ++ [⟨none, msg⟩] }
    | none => none
  | .serverSend =>
    match s.serverOutbound with
    | m :: rest => some { s with serverOutbound := rest, toClient := s.toClient ++ [m] }
    | [] => none
  | .clientDecode =>
    match s.events.dispatching, s.toClient with
    | none, m :: rest => clientSwitch maxSub { s with toClient := rest } m
    | _, _ => none
  | .clientDispatch => s.events.dispatching.map (dispatchUserData maxSub s)

/-- A session whose registry has `maxSub` events. -/
def system (maxSub : UInt8) : System State Action where
  init s := ∃ nid serverNid, s = start maxSub nid serverNid
  step := step maxSub

end DCScan.Session
