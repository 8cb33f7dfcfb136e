import DCScan.Lib.System
import DCScan.Registry

/-!
The server process over the lives of its connections: for each accepted connection the
worker thread that runs `StartThread` and then `StopThread(client, WAIT)`, and the receive,
decode and send threads it starts; beside them any number of threads in `EmitEvent`.

A connection is named by a number, and so are its threads. Every access to what the
threads share (`server_receive_thread`, `server_send_thread`, `server_running`, the two
queues, the subscription flags) is a step of its own. `wire` and `inbound` hold whole
messages, as `Framing.framing_refines_fifo` allows.

`current` is the connection whose session runs: from the moment `StartThread` has stored
its socket and set `server_running` until its `StopThread` has returned. `sent`, `acted` and
`transmitted` record what the clients have sent, how much of it the server has acted on
and what was written to which socket; no step looks at them.
-/

namespace DCScan.Server

open Lib Message

/-- Where the worker thread of a connection stands. -/
inductive WorkerPhase where
  | absent
  /-- Before the test of `server_receive_thread`. -/
  | accepted
  /-- Behind the test, in `Authenticate`. -/
  | authenticating
  | authenticated
  /-- `server_client_sock` and `server_running` are stored. -/
  | activated
  /-- The decode thread is started. -/
  | decoding
  /-- The receive thread is started, and `server_receive_thread` not assigned yet. -/
  | launching
  /-- `server_receive_thread` is assigned. -/
  | receiving
  /-- `StartThread` has returned true. -/
  | stopping
  /-- In `StopThread`, waiting for `server_running` to be false. -/
  | waiting
  /-- The socket is closed; joining the receive thread. -/
  | joining
  /-- Before the test of `server_send_thread`. -/
  | stoppingSend
  | joiningSend
  /-- `StopThread` has returned. -/
  | closed
  /-- `StartThread` has returned false and started nothing. -/
  | refused
  /-- `StartThread` has returned false because a send thread was there already. -/
  | abandoned
  deriving DecidableEq, Repr

inductive ReceiverPhase where
  | absent
  /-- Before the test of the loop. -/
  | testing
  /-- In `ReceiveData`. -/
  | reading
  /-- Behind the loop. -/
  | left
  /-- `server_running` is false. -/
  | cleared
  /-- `notify_unblock` is called; joining the decode thread. -/
  | notified
  | finished
  deriving DecidableEq, Repr

/-- A message on its way to the decode thread, and the connection it came over. -/
structure Incoming where
  origin : Nat
  msg : DefaultMessage
  deriving DecidableEq

/-- A message of the server, and the session it was produced in and for. -/
structure Outgoing where
  session : Option Nat
  msg : DefaultMessage
  deriving DecidableEq

inductive DecoderPhase where
  | absent
  /-- Before the test of the loop. -/
  | testing
  /-- In `fetchNextMsg`. -/
  | fetching
  /-- With a message taken from the queue. -/
  | acting (m : Incoming)
  /-- Behind the loop, before `notify_restart`. -/
  | restarting
  | finished
  deriving DecidableEq

inductive SenderPhase where
  | absent
  /-- Before the test of the loop. -/
  | testing
  /-- In `pop`. -/
  | popping
  /-- With a message taken from the queue. -/
  | sending (m : Outgoing)
  | finished
  deriving DecidableEq

/-- An `EmitEvent` behind its test, and the session it was tested in. -/
structure Emission where
  session : Option Nat
  event : UInt8
  data : List UInt8
  deriving DecidableEq

structure State where
  workers : Nat → WorkerPhase
  receivers : Nat → ReceiverPhase
  decoders : Nat → DecoderPhase
  senders : Nat → SenderPhase
  /-- `server_receive_thread`: the connection whose thread it points to. -/
  receiveThread : Option Nat
  /-- `server_send_thread`. -/
  sendThread : Option Nat
  running : Bool
  /-- Sent by the client of a connection and not received. -/
  wire : Nat → List DefaultMessage
  /-- `inbound_bytes`. -/
  inbound : List Incoming
  ntfUnblock : Bool
  /-- `outbound_data_queue`. -/
  outbound : List Outgoing
  subscriptions : UInt8 → Option Bool
  /-- `SetNew`'s counter. -/
  nid : UInt64
  emitting : List Emission
  current : Option Nat
  sent : Nat → List DefaultMessage
  acted : Nat → Nat
  transmitted : List (Nat × Outgoing)

/-- The server process before its first connection. -/
def start (maxSub : UInt8) : State where
  workers := fun _ => .absent
  receivers := fun _ => .absent
  decoders := fun _ => .absent
  senders := fun _ => .absent
  receiveThread := none
  sendThread := none
  running := false
  wire := fun _ => []
  inbound := []
  ntfUnblock := false
  outbound := []
  subscriptions := initialSubscriptions maxSub
  nid := 0
  emitting := []
  current := none
  sent := fun _ => []
  acted := fun _ => 0
  transmitted := []

inductive Action where
  /-- `WaitForConnections` accepts connection `k`. -/
  | accept (k : Nat)
  /-- `StartThread` up to the test of `server_receive_thread`; `valid` is `ValidateSocket`'s answer. -/
  | test (k : Nat) (valid : Bool)
  /-- `Authenticate` returns. -/
  | authenticate (k : Nat) (ok : Bool)
  | activate (k : Nat)
  | startDecode (k : Nat)
  | startReceive (k : Nat)
  | assignReceive (k : Nat)
  /-- The test of `server_send_thread`, and the start of the send thread. -/
  | startSend (k : Nat)
  /-- `StopThread` up to its wait loop. -/
  | stop (k : Nat)
  /-- The wait loop ends; `CloseSocketConnection`. -/
  | stopWaited (k : Nat)
  | joinReceive (k : Nat)
  | stopSend (k : Nat)
  | joinSend (k : Nat)
  /-- The client of connection `k` sends a message. -/
  | clientSend (k : Nat) (m : DefaultMessage)
  | receiverTest (k : Nat)
  /-- `ReceiveData` returns a message, which `addBytes` appends. -/
  | receive (k : Nat)
  /-- `ReceiveData` returns zero or less. -/
  | disconnect (k : Nat)
  | receiverClear (k : Nat)
  | receiverNotify (k : Nat)
  | receiverJoin (k : Nat)
  | decoderTest (k : Nat)
  /-- `fetchNextMsg` returns. -/
  | fetch (k : Nat)
  /-- The switch; `r` is the value `Execute` produces for a request. -/
  | act (k : Nat) (r : SVReturn) (mem : Uninit)
  /-- `notify_restart`. -/
  | restart (k : Nat)
  /-- `EmitEvent`'s test, in a thread emitting the registered event `e`. -/
  | emitTest (e : UInt8) (evtData : List UInt8)
  /-- The push of the `i`-th `EmitEvent` under way. -/
  | emitPush (i : Nat) (mem : Uninit)
  | senderTest (k : Nat)
  /-- `pop` returns a message. -/
  | pop (k : Nat)
  /-- `pop` is woken with nothing in the queue. -/
  | wake (k : Nat)
  /-- `SendData` on socket `k`. -/
  | transmit (k : Nat)

/-- The worker thread of a connection. -/
def workerStep (s : State) : Action → Option State
  | .accept k =>
    if s.workers k = .absent then some { s with workers := Function.update s.workers k .accepted }
    else none
  | .test k valid =>
    if s.workers k = .accepted then
      some { s with workers := Function.update s.workers k
                      (if valid ∧ s.receiveThread = none then .authenticating else .refused) }
    else none
  | .authenticate k ok =>
    if s.workers k = .authenticating then
      some { s with workers := Function.update s.workers k (if ok then .authenticated else .refused) }
    else none
  | .activate k =>
    if s.workers k = .authenticated then
      some { s with workers := Function.update s.workers k .activated,
                    running := true, current := some k }
    else none
  | .startDecode k =>
    if s.workers k = .activated then
      some { s with workers := Function.update s.workers k .decoding
                    decoders := Function.update s.decoders k .testing }
    else none
  | .startReceive k =>
    if s.workers k = .decoding then
      some { s with workers := Function.update s.workers k .launching
                    receivers := Function.update s.receivers k .testing }
    else none
  | .assignReceive k =>
    if s.workers k = .launching then
      some { s with workers := Function.update s.workers k .receiving, receiveThread := some k }
    else none
  | .startSend k =>
    if s.workers k = .receiving then
      if s.sendThread = none then
        some { s with workers := Function.update s.workers k .stopping
                      senders := Function.update s.senders k .testing
                      sendThread := some k }
      else some { s with workers := Function.update s.workers k .abandoned }
    else none
  | .stop k =>
    if s.workers k = .stopping then
      some { s with workers := Function.update s.workers k
                      (if s.receiveThread.isSome then .waiting else .stoppingSend) }
    else none
  | .stopWaited k =>
    if s.workers k = .waiting ∧ s.running = false then
      some { s with workers := Function.update s.workers k .joining }
    else none
  | .joinReceive k =>
    match s.receiveThread with
    | some j =>
      if s.workers k = .joining ∧ s.receivers j = .finished then
        some { s with workers := Function.update s.workers k .stoppingSend, receiveThread := none }
      else none
    | none => none
  | .stopSend k =>
    if s.workers k = .stoppingSend then
      if s.sendThread.isSome then
        some { s with workers := Function.update s.workers k .joiningSend }
      else some { s with workers := Function.update s.workers k .closed
                         current := if s.current = some k then none else s.current }
    else none
  | .joinSend k =>
    match s.sendThread with
    | some j =>
      if s.workers k = .joiningSend ∧ s.senders j = .finished then
        some { s with workers := Function.update s.workers k .closed
                      sendThread := none
                      current := if s.current = some k then none else s.current }
      else none
    | none => none
  | _ => none

/-- The receive thread of a connection. -/
def receiverStep (s : State) : Action → Option State
  | .receiverTest k =>
    if s.receivers k = .testing then
      some { s with receivers := Function.update s.receivers k (if s.running then .reading else .left) }
    else none
  | .receive k =>
    match s.receivers k, s.wire k with
    | .reading, m :: rest =>
      some { s with receivers := Function.update s.receivers k .testing
                    wire := Function.update s.wire k rest
                    inbound := s.inbound ++ [⟨k, m⟩] }
    | _, _ => none
  | .disconnect k =>
    if s.receivers k = .reading then
      some { s with receivers := Function.update s.receivers k .left }
    else none
  | .receiverClear k =>
    if s.receivers k = .left then
      some { s with receivers := Function.update s.receivers k .cleared, running := false }
    else none
  | .receiverNotify k =>
    if s.receivers k = .cleared then
      some { s with receivers := Function.update s.receivers k .notified, ntfUnblock := true }
    else none
  | .receiverJoin k =>
    if s.receivers k = .notified ∧ s.decoders k = .finished then
      some { s with receivers := Function.update s.receivers k .finished }
    else none
  | _ => none

/-- The decode thread of a connection. -/
def decoderStep (maxSub : UInt8) (s : State) : Action → Option State
  | .decoderTest k =>
    if s.decoders k = .testing then
      some { s with decoders := Function.update s.decoders k (if s.running then .fetching else .restarting) }
    else none
  | .fetch k =>
    if s.decoders k = .fetching then
      if s.ntfUnblock then some { s with decoders := Function.update s.decoders k .testing }
      else match s.inbound with
        | m :: rest =>
          some { s with decoders := Function.update s.decoders k (.acting m), inbound := rest }
        | [] => none
    else none
  | .act k r mem =>
    match s.decoders k with
    | .acting m =>
      (decodeSwitch maxSub s.subscriptions m.msg r mem).map fun d =>
        { s with decoders := Function.update s.decoders k .testing
                 outbound := s.outbound ++ d.reply.toList.map fun dm => ⟨some m.origin, dm⟩
                 subscriptions := d.subscriptions
                 acted := Function.update s.acted m.origin (s.acted m.origin + 1) }
    | _ => none
  | .restart k =>
    if s.decoders k = .restarting then
      some { s with decoders := Function.update s.decoders k .finished,
                    inbound := [], ntfUnblock := false }
    else none
  | _ => none

/-- The send thread of a connection. -/
def senderStep (s : State) : Action → Option State
  | .senderTest k =>
    if s.senders k = .testing then
      some { s with senders := Function.update s.senders k (if s.running then .popping else .finished) }
    else none
  | .pop k =>
    match s.senders k, s.outbound with
    | .popping, m :: rest =>
      some { s with senders := Function.update s.senders k (.sending m), outbound := rest }
    | _, _ => none
  | .wake k =>
    if s.senders k = .popping ∧ s.outbound = [] then
      some { s with senders := Function.update s.senders k .testing }
    else none
  | .transmit k =>
    match s.senders k with
    | .sending m =>
      some { s with senders := Function.update s.senders k .testing,
                    transmitted := s.transmitted ++ [(k, m)] }
    | _ => none
  | _ => none

/-- `EmitEvent`, in any thread. -/
def emitStep (maxSub : UInt8) (s : State) : Action → Option State
  | .emitTest e evtData =>
    if 1 ≤ e ∧ e ≤ maxSub ∧ evtData.length + 10 < 2 ^ 31 then
      (CheckEvent maxSub s.subscriptions e).map fun subscribed =>
        if subscribed then { s with emitting := s.emitting ++ [⟨s.current, e, evtData⟩] } else s
    else none
  | .emitPush i mem =>
    match s.emitting[i]? with
    | some ⟨session, e, evtData⟩ => (eventMessage mem s.nid e evtData).map fun (nid, msg) =>
      { s with nid := nid, emitting := s.emitting.eraseIdx i,
               outbound := s.outbound ++ [⟨session, msg⟩] }
    | none => none
  | _ => none

/-- The client of a connection, which sends once its connection is declared valid. -/
def clientStep (s : State) : Action → Option State
  | .clientSend k m =>
    if s.receivers k ≠ .absent then
      some { s with wire := Function.update s.wire k (s.wire k ++ [m])
                    sent := Function.update s.sent k (s.sent k ++ [m]) }
    else none
  | _ => none

/-- One step of one thread. -/
def step (maxSub : UInt8) (s : State) (a : Action) : Option State :=
  match a with
  | .accept _ | .test .. | .authenticate .. | .activate _ | .startDecode _ | .startReceive _
  | .assignReceive _
  | .startSend _ | .stop _ | .stopWaited _ | .joinReceive _ | .stopSend _ | .joinSend _ =>
    workerStep s a
  | .receiverTest _ | .receive _ | .disconnect _ | .receiverClear _ | .receiverNotify _
  | .receiverJoin _ =>
    receiverStep s a
  | .decoderTest _ | .fetch _ | .act .. | .restart _ => decoderStep maxSub s a
  | .senderTest _ | .pop _ | .wake _ | .transmit _ => senderStep s a
  | .emitTest .. | .emitPush .. => emitStep maxSub s a
  | .clientSend .. => clientStep s a

def system (maxSub : UInt8) : System State Action where
  init s := s = start maxSub
  step := step maxSub

/-! ## What each action finds, and leaves -/

inductive WorkerTurn (s : State) : Action → State → Prop
  | accept {k} (stand : s.workers k = .absent) :
      WorkerTurn s (.accept k) { s with workers := Function.update s.workers k .accepted }
  | test {k valid} (stand : s.workers k = .accepted) :
      WorkerTurn s (.test k valid) { s with
        workers := Function.update s.workers k
          (if valid ∧ s.receiveThread = none then .authenticating else .refused) }
  | authenticate {k ok} (stand : s.workers k = .authenticating) :
      WorkerTurn s (.authenticate k ok) { s with
        workers := Function.update s.workers k (if ok then .authenticated else .refused) }
  | activate {k} (stand : s.workers k = .authenticated) :
      WorkerTurn s (.activate k) { s with
        workers := Function.update s.workers k .activated, running := true, current := some k }
  | startDecode {k} (stand : s.workers k = .activated) :
      WorkerTurn s (.startDecode k) { s with
        workers := Function.update s.workers k .decoding
        decoders := Function.update s.decoders k .testing }
  | startReceive {k} (stand : s.workers k = .decoding) :
      WorkerTurn s (.startReceive k) { s with
        workers := Function.update s.workers k .launching
        receivers := Function.update s.receivers k .testing }
  | assignReceive {k} (stand : s.workers k = .launching) :
      WorkerTurn s (.assignReceive k) { s with
        workers := Function.update s.workers k .receiving, receiveThread := some k }
  | startSend {k} (stand : s.workers k = .receiving) (free : s.sendThread = none) :
      WorkerTurn s (.startSend k) { s with
        workers := Function.update s.workers k .stopping
        senders := Function.update s.senders k .testing
        sendThread := some k }
  | abandon {k} (stand : s.workers k = .receiving) (occupied : s.sendThread ≠ none) :
      WorkerTurn s (.startSend k) { s with workers := Function.update s.workers k .abandoned }
  | stop {k} (stand : s.workers k = .stopping) :
      WorkerTurn s (.stop k) { s with
        workers := Function.update s.workers k
          (if s.receiveThread.isSome then .waiting else .stoppingSend) }
  | stopWaited {k} (stand : s.workers k = .waiting) (cleared : s.running = false) :
      WorkerTurn s (.stopWaited k) { s with workers := Function.update s.workers k .joining }
  | joinReceive {k j} (stand : s.workers k = .joining) (pointed : s.receiveThread = some j)
      (ended : s.receivers j = .finished) :
      WorkerTurn s (.joinReceive k) { s with
        workers := Function.update s.workers k .stoppingSend, receiveThread := none }
  | stopSend {k} (stand : s.workers k = .stoppingSend) (started : s.sendThread.isSome) :
      WorkerTurn s (.stopSend k) { s with workers := Function.update s.workers k .joiningSend }
  | close {k} (stand : s.workers k = .stoppingSend) (free : s.sendThread = none) :
      WorkerTurn s (.stopSend k) { s with
        workers := Function.update s.workers k .closed
        current := if s.current = some k then none else s.current }
  | joinSend {k j} (stand : s.workers k = .joiningSend) (pointed : s.sendThread = some j)
      (ended : s.senders j = .finished) :
      WorkerTurn s (.joinSend k) { s with
        workers := Function.update s.workers k .closed
        sendThread := none
        current := if s.current = some k then none else s.current }

inductive ReceiverTurn (s : State) : Action → State → Prop
  | receiverTest {k} (stand : s.receivers k = .testing) :
      ReceiverTurn s (.receiverTest k) { s with
        receivers := Function.update s.receivers k (if s.running then .reading else .left) }
  | receive {k m rest} (stand : s.receivers k = .reading) (front : s.wire k = m :: rest) :
      ReceiverTurn s (.receive k) { s with
        receivers := Function.update s.receivers k .testing
        wire := Function.update s.wire k rest
        inbound := s.inbound ++ [⟨k, m⟩] }
  | disconnect {k} (stand : s.receivers k = .reading) :
      ReceiverTurn s (.disconnect k) { s with receivers := Function.update s.receivers k .left }
  | receiverClear {k} (stand : s.receivers k = .left) :
      ReceiverTurn s (.receiverClear k) { s with
        receivers := Function.update s.receivers k .cleared, running := false }
  | receiverNotify {k} (stand : s.receivers k = .cleared) :
      ReceiverTurn s (.receiverNotify k) { s with
        receivers := Function.update s.receivers k .notified, ntfUnblock := true }
  | receiverJoin {k} (stand : s.receivers k = .notified) (ended : s.decoders k = .finished) :
      ReceiverTurn s (.receiverJoin k) { s with
        receivers := Function.update s.receivers k .finished }

inductive DecoderTurn (maxSub : UInt8) (s : State) : Action → State → Prop
  | decoderTest {k} (stand : s.decoders k = .testing) :
      DecoderTurn maxSub s (.decoderTest k) { s with
        decoders := Function.update s.decoders k (if s.running then .fetching else .restarting) }
  | unblocked {k} (stand : s.decoders k = .fetching) (asked : s.ntfUnblock = true) :
      DecoderTurn maxSub s (.fetch k) { s with decoders := Function.update s.decoders k .testing }
  | fetch {k m rest} (stand : s.decoders k = .fetching) (calm : s.ntfUnblock = false)
      (front : s.inbound = m :: rest) :
      DecoderTurn maxSub s (.fetch k) { s with
        decoders := Function.update s.decoders k (.acting m), inbound := rest }
  | act {k r mem m d} (stand : s.decoders k = .acting m)
      (decoded : decodeSwitch maxSub s.subscriptions m.msg r mem = some d) :
      DecoderTurn maxSub s (.act k r mem) { s with
        decoders := Function.update s.decoders k .testing
        outbound := s.outbound ++ d.reply.toList.map fun dm => ⟨some m.origin, dm⟩
        subscriptions := d.subscriptions
        acted := Function.update s.acted m.origin (s.acted m.origin + 1) }
  | restart {k} (stand : s.decoders k = .restarting) :
      DecoderTurn maxSub s (.restart k) { s with
        decoders := Function.update s.decoders k .finished, inbound := [], ntfUnblock := false }

inductive SenderTurn (s : State) : Action → State → Prop
  | senderTest {k} (stand : s.senders k = .testing) :
      SenderTurn s (.senderTest k) { s with
        senders := Function.update s.senders k (if s.running then .popping else .finished) }
  | pop {k m rest} (stand : s.senders k = .popping) (front : s.outbound = m :: rest) :
      SenderTurn s (.pop k) { s with
        senders := Function.update s.senders k (.sending m), outbound := rest }
  | wake {k} (stand : s.senders k = .popping) (empty : s.outbound = []) :
      SenderTurn s (.wake k) { s with senders := Function.update s.senders k .testing }
  | transmit {k m} (stand : s.senders k = .sending m) :
      SenderTurn s (.transmit k) { s with
        senders := Function.update s.senders k .testing, transmitted := s.transmitted ++ [(k, m)] }

variable {maxSub : UInt8} {s t : State} {a : Action}

theorem worker_turn (ran : workerStep s a = some t) : WorkerTurn s a t := by
  cases a <;> simp only [workerStep, Option.ite_none_right_eq_some, Option.some.injEq,
    reduceCtorEq] at ran
  case startSend k =>
    obtain ⟨stand, ran⟩ := ran
    split at ran <;> cases ran
    · rename_i free
      exact .startSend stand free
    · rename_i occupied
      exact .abandon stand occupied
  case stopWaited k =>
    obtain ⟨⟨stand, cleared⟩, rfl⟩ := ran
    exact .stopWaited stand cleared
  case stopSend k =>
    obtain ⟨stand, ran⟩ := ran
    split at ran <;> cases ran
    · rename_i started
      exact .stopSend stand started
    · rename_i unassigned
      exact .close stand (Option.not_isSome_iff_eq_none.mp unassigned)
  case joinReceive k =>
    split at ran
    · rename_i pointed
      simp only [Option.ite_none_right_eq_some, Option.some.injEq] at ran
      obtain ⟨⟨stand, ended⟩, rfl⟩ := ran
      exact .joinReceive stand pointed ended
    · cases ran
  case joinSend k =>
    split at ran
    · rename_i pointed
      simp only [Option.ite_none_right_eq_some, Option.some.injEq] at ran
      obtain ⟨⟨stand, ended⟩, rfl⟩ := ran
      exact .joinSend stand pointed ended
    · cases ran
  all_goals
    obtain ⟨stand, rfl⟩ := ran
    constructor
    exact stand

theorem receiver_turn (ran : receiverStep s a = some t) : ReceiverTurn s a t := by
  cases a <;> simp only [receiverStep, Option.ite_none_right_eq_some, Option.some.injEq,
    reduceCtorEq] at ran
  case receive k =>
    split at ran
    · rename_i stand front
      cases ran
      exact .receive stand front
    · cases ran
  case receiverJoin k =>
    obtain ⟨⟨stand, ended⟩, rfl⟩ := ran
    exact .receiverJoin stand ended
  all_goals
    obtain ⟨stand, rfl⟩ := ran
    constructor
    exact stand

theorem decoder_turn (ran : decoderStep maxSub s a = some t) : DecoderTurn maxSub s a t := by
  cases a <;> simp only [decoderStep, Option.ite_none_right_eq_some, Option.some.injEq,
    reduceCtorEq] at ran
  case decoderTest k =>
    obtain ⟨stand, rfl⟩ := ran
    exact .decoderTest stand
  case fetch k =>
    obtain ⟨stand, ran⟩ := ran
    split at ran
    · rename_i asked
      cases ran
      exact .unblocked stand asked
    · rename_i calm
      split at ran <;> cases ran
      rename_i front
      exact .fetch stand (eq_false_of_ne_true calm) front
  case act k r mem =>
    split at ran
    · rename_i stand
      obtain ⟨d, decoded, rfl⟩ := Option.map_eq_some_iff.mp ran
      exact .act stand decoded
    · cases ran
  case restart k =>
    obtain ⟨stand, rfl⟩ := ran
    exact .restart stand

theorem sender_turn (ran : senderStep s a = some t) : SenderTurn s a t := by
  cases a <;> simp only [senderStep, Option.ite_none_right_eq_some, Option.some.injEq,
    reduceCtorEq] at ran
  case senderTest k =>
    obtain ⟨stand, rfl⟩ := ran
    exact .senderTest stand
  case pop k =>
    split at ran
    · rename_i stand front
      cases ran
      exact .pop stand front
    · cases ran
  case wake k =>
    obtain ⟨⟨stand, empty⟩, rfl⟩ := ran
    exact .wake stand empty
  case transmit k =>
    split at ran
    · rename_i stand
      cases ran
      exact .transmit stand
    · cases ran

/-! ## What each thread leaves alone -/

/-- A step is one of some thread. -/
theorem thread_of_step (ran : step maxSub s a = some t) :
    workerStep s a = some t ∨ receiverStep s a = some t ∨ decoderStep maxSub s a = some t ∨
      senderStep s a = some t ∨ emitStep maxSub s a = some t ∨ clientStep s a = some t := by
  unfold step at ran
  split at ran <;> simp only [ran, true_or, or_true]

theorem workerStep_frame (ran : workerStep s a = some t) :
    t = { s with workers := t.workers, receivers := t.receivers, decoders := t.decoders, senders := t.senders,
                 receiveThread := t.receiveThread, sendThread := t.sendThread, running := t.running,
                 current := t.current } := by
  cases worker_turn ran <;> rfl

/-- A worker moves no other thread of a session but to start it. -/
theorem threads_of_workerStep (ran : workerStep s a = some t) :
    (t.receivers = s.receivers ∨
      ∃ k, s.workers k = .decoding ∧ t.receivers = Function.update s.receivers k .testing) ∧
    (t.decoders = s.decoders ∨
      ∃ k, s.workers k = .activated ∧ t.decoders = Function.update s.decoders k .testing) ∧
    (t.senders = s.senders ∨
      ∃ k, s.workers k = .receiving ∧ t.senders = Function.update s.senders k .testing) := by
  cases worker_turn ran with
  | @startDecode k stand => exact ⟨Or.inl rfl, Or.inr ⟨k, stand, rfl⟩, Or.inl rfl⟩
  | @startReceive k stand => exact ⟨Or.inr ⟨k, stand, rfl⟩, Or.inl rfl, Or.inl rfl⟩
  | @startSend k stand => exact ⟨Or.inl rfl, Or.inl rfl, Or.inr ⟨k, stand, rfl⟩⟩
  | _ => exact ⟨Or.inl rfl, Or.inl rfl, Or.inl rfl⟩

theorem receiverStep_frame (ran : receiverStep s a = some t) :
    t = { s with receivers := t.receivers, running := t.running, wire := t.wire, inbound := t.inbound,
                 ntfUnblock := t.ntfUnblock } := by
  cases receiver_turn ran <;> rfl

/-- A receive thread moves while it runs. -/
theorem receivers_of_receiverStep (ran : receiverStep s a = some t) :
    ∃ k p, (s.receivers k ≠ .absent ∧ s.receivers k ≠ .finished) ∧ p ≠ .absent ∧
      t.receivers = Function.update s.receivers k p := by
  cases receiver_turn ran with
  | receiverTest stand => exact ⟨_, _, by simp [stand], by split <;> simp, rfl⟩
  | receive stand | disconnect stand | receiverClear stand | receiverNotify stand
  | receiverJoin stand => exact ⟨_, _, by simp [stand], by simp, rfl⟩

/-- A receive thread appends the message it has received. -/
theorem inbound_of_receiverStep (ran : receiverStep s a = some t) :
    (t.inbound = s.inbound ∧ t.wire = s.wire) ∨
      ∃ k m rest, s.receivers k = .reading ∧ s.wire k = m :: rest ∧
        t.wire = Function.update s.wire k rest ∧ t.inbound = s.inbound ++ [⟨k, m⟩] := by
  cases receiver_turn ran with
  | @receive k m rest stand front => exact Or.inr ⟨k, m, rest, stand, front, rfl, rfl⟩
  | _ => exact Or.inl ⟨rfl, rfl⟩

theorem decoderStep_frame (ran : decoderStep maxSub s a = some t) :
    t = { s with decoders := t.decoders, inbound := t.inbound, ntfUnblock := t.ntfUnblock,
                 outbound := t.outbound, subscriptions := t.subscriptions, acted := t.acted } := by
  cases decoder_turn ran <;> rfl

/-- A decode thread queues nothing but the reply to the message it has taken. -/
theorem outbound_of_decoderStep {m : Outgoing} (ran : decoderStep maxSub s a = some t)
    (member : m ∈ t.outbound) :
    m ∈ s.outbound ∨ ∃ k x, s.decoders k = .acting x ∧ m.session = some x.origin := by
  cases decoder_turn ran with
  | @act k _ _ x _ stand =>
    rcases List.mem_append.mp member with before | reply
    · exact Or.inl before
    · obtain ⟨dm, _, rfl⟩ := List.mem_map.mp reply
      exact Or.inr ⟨k, x, stand, rfl⟩
  | _ => exact Or.inl member

theorem senderStep_frame (ran : senderStep s a = some t) :
    t = { s with senders := t.senders, outbound := t.outbound, transmitted := t.transmitted } := by
  cases sender_turn ran <;> rfl

/-- A decode thread changes the flags by acting on a message. -/
theorem subscriptions_of_decoderStep (ran : decoderStep maxSub s a = some t) :
    (t.subscriptions = s.subscriptions ∧ t.acted = s.acted) ∨
      ∃ k m r mem d, s.decoders k = .acting m ∧
        decodeSwitch maxSub s.subscriptions m.msg r mem = some d ∧
        t.subscriptions = d.subscriptions ∧
        t.acted = Function.update s.acted m.origin (s.acted m.origin + 1) := by
  cases decoder_turn ran with
  | @act k r mem m d stand decoded => exact Or.inr ⟨k, m, r, mem, d, stand, decoded, rfl, rfl⟩
  | _ => exact Or.inl ⟨rfl, rfl⟩

/-- A send thread queues nothing. -/
theorem outbound_of_senderStep {m : Outgoing} (ran : senderStep s a = some t)
    (member : m ∈ t.outbound) :
    m ∈ s.outbound := by
  cases sender_turn ran with
  | pop _ queue =>
    rw [queue]
    exact List.mem_cons_of_mem _ member
  | _ => exact member

theorem emitStep_frame (ran : emitStep maxSub s a = some t) :
    t = { s with nid := t.nid, emitting := t.emitting, outbound := t.outbound } := by
  unfold emitStep at ran
  split at ran
  · split at ran
    · obtain ⟨subscribed, _, rfl⟩ := Option.map_eq_some_iff.mp ran
      cases subscribed <;> rfl
    · cases ran
  · split at ran
    · obtain ⟨made, _, rfl⟩ := Option.map_eq_some_iff.mp ran
      rfl
    · cases ran
  · cases ran

/-- An `EmitEvent` comes behind its test only for a registered event whose flag is set. -/
theorem emitting_of_emitStep (ran : emitStep maxSub s a = some t) :
    (∃ e evtData, a = .emitTest e evtData ∧ CheckEvent maxSub s.subscriptions e = some true ∧
      1 ≤ e ∧
        evtData.length + 10 < 2 ^ 31 ∧ t.emitting = s.emitting ++ [⟨s.current, e, evtData⟩]) ∨
      ∀ {x}, x ∈ t.emitting → x ∈ s.emitting := by
  cases a <;> simp only [emitStep, Option.ite_none_right_eq_some, reduceCtorEq] at ran
  case emitTest e evtData =>
    obtain ⟨⟨first, _, fits⟩, ran⟩ := ran
    obtain ⟨subscribed, passed, rfl⟩ := Option.map_eq_some_iff.mp ran
    cases subscribed with
    | true => exact Or.inl ⟨e, evtData, rfl, passed, first, fits, rfl⟩
    | false => exact Or.inr id
  case emitPush i mem =>
    split at ran
    · obtain ⟨made, _, rfl⟩ := Option.map_eq_some_iff.mp ran
      exact Or.inr List.mem_of_mem_eraseIdx
    · cases ran

/-- What is behind `EmitEvent`'s test was there before, or has been tested in the session that runs. -/
theorem emission_of_emitStep {x : Emission} (ran : emitStep maxSub s a = some t)
    (member : x ∈ t.emitting) :
    x ∈ s.emitting ∨ (x.session = s.current ∧ 1 ≤ x.event ∧ x.data.length + 10 < 2 ^ 31) := by
  rcases emitting_of_emitStep ran with ⟨e, evtData, _, _, first, fits, emitting⟩ | within
  · rw [emitting, List.mem_append, List.mem_singleton] at member
    rcases member with before | rfl
    · exact Or.inl before
    · exact Or.inr ⟨rfl, first, fits⟩
  · exact Or.inl (within member)

/-- An `EmitEvent` behind its test pushes a message of the session it was tested in. -/
theorem outbound_of_emitStep {m : Outgoing} (ran : emitStep maxSub s a = some t)
    (member : m ∈ t.outbound) :
    m ∈ s.outbound ∨ ∃ x ∈ s.emitting, m.session = x.session := by
  cases a <;> simp only [emitStep, Option.ite_none_right_eq_some, reduceCtorEq] at ran
  case emitTest e evtData =>
    obtain ⟨_, ran⟩ := ran
    obtain ⟨subscribed, _, rfl⟩ := Option.map_eq_some_iff.mp ran
    cases subscribed <;> exact Or.inl member
  case emitPush i mem =>
    split at ran
    · rename_i found
      obtain ⟨⟨nid, msg⟩, _, rfl⟩ := Option.map_eq_some_iff.mp ran
      rcases List.mem_append.mp member with before | pushed
      · exact Or.inl before
      · rw [List.mem_singleton.mp pushed]
        exact Or.inr ⟨_, List.mem_of_getElem? found, rfl⟩
    · cases ran

theorem clientStep_frame (ran : clientStep s a = some t) :
    t = { s with wire := t.wire, sent := t.sent } := by
  unfold clientStep at ran
  split at ran <;> try split at ran
  all_goals first | cases ran; rfl | cases ran

end DCScan.Server
