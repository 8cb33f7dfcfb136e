import DCScan.Server
import DCScan.Lib.Table

/-!
`WaitForConnections`: the accept loop, and the socket each worker works on.

The loop's variable `client` is captured by reference, so all workers read the one place that
every `accept` writes: once for `StartThread`, and again for `StopThread` when `StartThread` has
returned true. What a call is passed stays its own. The threads are those of `Server`; a worker is
named by the number of the `accept` that spawned it, and so is the socket that `accept` returned.

`starts` and `stops` record what each worker has passed, `closes` every call of `closesocket`.
-/

namespace DCScan.Accept

open Lib
open Server (WorkerPhase)

inductive Socket where
  /-- `INVALID_SOCKET`. -/
  | invalid
  /-- What the `n`-th `accept` has returned. -/
  | accepted (n : Nat)
  deriving DecidableEq, Repr

/-- `ValidateSocket`. -/
def Socket.valid : Socket → Bool
  | invalid => false
  | accepted _ => true

inductive LoopPhase where
  /-- Before the test of `server_listening`. -/
  | testing
  /-- In `accept`. -/
  | accepting
  /-- `client` is written; before the worker thread is started. -/
  | spawning
  | ended
  deriving DecidableEq, Repr

/-- A call of `closesocket`, and the worker whose thread made it, or whose session's thread. -/
structure Close where
  worker : Nat
  socket : Socket
  deriving DecidableEq, Repr

structure State where
  server : Server.State
  listening : Bool
  loop : LoopPhase
  /-- What each call of `accept` has returned. -/
  returned : List Socket
  client : Socket
  starts : Nat → Option Socket
  stops : Nat → Option Socket
  /-- Refused by `StartThread`, before its `CloseSocketConnection`. -/
  rejected : Nat → Bool
  /-- Nothing more comes over the connection that its worker authenticates. -/
  cut : Nat → Bool
  closes : List Close

/-- `WaitForConnections` is called. -/
def start (maxSub : UInt8) : State where
  server := Server.start maxSub
  listening := true
  loop := .testing
  returned := []
  client := .invalid
  starts := fun _ => none
  stops := fun _ => none
  rejected := fun _ => false
  cut := fun _ => false
  closes := []

inductive Action where
  /-- The test of the accept loop. -/
  | loopTest
  /-- `ServerAcceptConnection` returns into `client`, with a socket or with `INVALID_SOCKET`. -/
  | accept (ok : Bool)
  /-- The worker thread is started. -/
  | spawn
  /-- `StopListening`. -/
  | stopListening
  /-- Worker `k` reads `client` for its next call. -/
  | read (k : Nat)
  /-- `CloseSocketConnection` at the end of a refusal. -/
  | close (k : Nat)
  /-- `ReceiveData` in `Authenticate` returns 0, or -1 when it `fails` and has closed the socket. -/
  | cut (k : Nat) (fails : Bool)
  /-- `ReceiveData` in the receive thread returns zero or less, and has closed the socket. -/
  | receiveFails (k : Nat)
  /-- One of the `SendData` of `StartThread` fails and closes the socket. -/
  | replyFails (k : Nat)
  /-- The `SendData` of a message fail, from one of the four on, and close the socket each. -/
  | sendFails (k : Nat) (left : Fin 4)
  /-- Any other step of the server's threads. -/
  | server (a : Server.Action)

/-- The phases of `StartThread` in which the worker sends over its socket itself. -/
def replies (s : State) (k : Nat) : Bool :=
  s.server.workers k = .authenticating || s.server.workers k = .receiving || s.rejected k

/-- The steps of the server's threads that touch a socket, and those that do not. -/
def serverStep (maxSub : UInt8) (s : State) (a : Server.Action) : Option State :=
  match a with
  | .accept _ => none
  | .test k valid =>
    match s.starts k with
    | some socket =>
      if valid = socket.valid then
        (Server.step maxSub s.server a).map fun server =>
          { s with server := server
                   rejected := Function.update s.rejected k
                     (valid && s.server.receiveThread.isSome) }
      else none
    | none => none
  | .authenticate k ok =>
    if s.cut k then none
    else (Server.step maxSub s.server a).map fun server =>
      { s with server := server, rejected := Function.update s.rejected k (!ok) }
  | .stop k =>
    if (s.stops k).isSome then
      (Server.step maxSub s.server a).map fun server => { s with server := server }
    else none
  | .stopWaited k =>
    match s.stops k with
    | some socket =>
      (Server.step maxSub s.server a).map fun server =>
        { s with server := server, closes := s.closes ++ [⟨k, socket⟩] }
    | none => none
  | _ => (Server.step maxSub s.server a).map fun server => { s with server := server }

def step (maxSub : UInt8) (s : State) : Action → Option State
  | .loopTest =>
    if s.loop = .testing then
      some { s with loop := if s.listening then .accepting else .ended }
    else none
  | .accept ok =>
    if s.loop = .accepting then
      let socket := if ok then .accepted s.returned.length else .invalid
      some { s with loop := .spawning, client := socket, returned := s.returned ++ [socket] }
    else none
  | .spawn =>
    if s.loop = .spawning then
      (Server.step maxSub s.server (.accept (s.returned.length - 1))).map fun server =>
        { s with server := server, loop := .testing }
    else none
  | .stopListening => some { s with listening := false }
  | .read k =>
    if s.server.workers k = .accepted ∧ s.starts k = none then
      some { s with starts := Function.update s.starts k (some s.client) }
    else if s.server.workers k = .stopping ∧ s.stops k = none then
      some { s with stops := Function.update s.stops k (some s.client) }
    else none
  | .close k =>
    match s.rejected k, s.starts k with
    | true, some socket =>
      some { s with rejected := Function.update s.rejected k false
                    closes := s.closes ++ [⟨k, socket⟩] }
    | _, _ => none
  | .cut k fails =>
    match s.starts k with
    | some socket =>
      if s.server.workers k = .authenticating then
        some { s with cut := Function.update s.cut k true
                      closes := if fails then s.closes ++ [⟨k, socket⟩] else s.closes }
      else none
    | none => none
  | .receiveFails k =>
    match s.starts k with
    | some socket =>
      (Server.step maxSub s.server (.disconnect k)).map fun server =>
        { s with server := server, closes := s.closes ++ [⟨k, socket⟩] }
    | none => none
  | .replyFails k =>
    match s.starts k with
    | some socket =>
      if replies s k then some { s with closes := s.closes ++ [⟨k, socket⟩] } else none
    | none => none
  | .sendFails k left =>
    match s.starts k with
    | some socket =>
      (Server.step maxSub s.server (.transmit k)).map fun server =>
        { s with server := server
                 closes := s.closes ++ List.replicate (left.val + 1) ⟨k, socket⟩ }
    | none => none
  | .server a => serverStep maxSub s a

def system (maxSub : UInt8) : System State Action where
  init s := s = start maxSub
  step := step maxSub

/-! ## What a step does -/

/-- The socket that the `accept` which spawned worker `k` has returned. -/
def own (s : State) (k : Nat) : Socket := s.returned.getD k .invalid

/-- Behind the test of `StartThread`, with the socket still to be closed by `StopThread`. -/
def holds : WorkerPhase → Bool
  | .authenticating | .authenticated | .activated | .decoding | .launching | .receiving
  | .stopping | .waiting => true
  | _ => false

/-- Behind the `CloseSocketConnection` of `StopThread`. -/
def concluded : WorkerPhase → Bool
  | .joining | .stoppingSend | .joiningSend | .closed => true
  | _ => false

/-- What a step changes; the steps of the server's threads by what they do to the workers. -/
inductive Effect (s : State) : Action → State → Prop
  | loopTest {p : LoopPhase} (at_test : s.loop = .testing) (quiet : p ≠ .spawning) :
      Effect s .loopTest { s with loop := p }
  | accept {socket : Socket} (ok : Bool) (at_accept : s.loop = .accepting)
      (made : socket = if ok then .accepted s.returned.length else .invalid) :
      Effect s (.accept ok)
        { s with loop := .spawning, client := socket, returned := s.returned ++ [socket] }
  | spawn (at_spawn : s.loop = .spawning)
      (fresh : s.server.workers (s.returned.length - 1) = .absent) :
      Effect s .spawn
        { s with loop := .testing
                 server := { s.server with
                   workers := Function.update s.server.workers (s.returned.length - 1) .accepted } }
  | stopListening : Effect s .stopListening { s with listening := false }
  | readStart {k : Nat} (stand : s.server.workers k = .accepted) (first : s.starts k = none) :
      Effect s (.read k) { s with starts := Function.update s.starts k (some s.client) }
  | readStop {k : Nat} (stand : s.server.workers k = .stopping) (first : s.stops k = none) :
      Effect s (.read k) { s with stops := Function.update s.stops k (some s.client) }
  | close {k : Nat} {c : Socket} (refused : s.rejected k = true) (passed : s.starts k = some c) :
      Effect s (.close k)
        { s with rejected := Function.update s.rejected k false, closes := s.closes ++ [⟨k, c⟩] }
  | cut {k : Nat} {c : Socket} (fails : Bool) (passed : s.starts k = some c)
      (stand : s.server.workers k = .authenticating) :
      Effect s (.cut k fails)
        { s with cut := Function.update s.cut k true
                 closes := if fails then s.closes ++ [⟨k, c⟩] else s.closes }
  | fails {a : Action} {k : Nat} {c : Socket} {server : Server.State} (times : Nat)
      (failing : a = .receiveFails k ∨ a = .replyFails k ∨ ∃ left, a = .sendFails k left)
      (passed : s.starts k = some c) (workers : server.workers = s.server.workers) :
      Effect s a { s with server := server, closes := s.closes ++ List.replicate times ⟨k, c⟩ }
  | test {k : Nat} {c : Socket} (passed : s.starts k = some c) (stand : s.server.workers k = .accepted) :
      Effect s (.server (.test k c.valid))
        { s with rejected := Function.update s.rejected k (c.valid && s.server.receiveThread.isSome)
                 server := { s.server with
                   workers := Function.update s.server.workers k
                     (if c.valid ∧ s.server.receiveThread = none then .authenticating else .refused) } }
  | authenticate {k : Nat} (ok : Bool) (whole : s.cut k = false)
      (stand : s.server.workers k = .authenticating) :
      Effect s (.server (.authenticate k ok))
        { s with rejected := Function.update s.rejected k (!ok)
                 server := { s.server with
                   workers := Function.update s.server.workers k
                     (if ok then .authenticated else .refused) } }
  | abandon {k : Nat} {server : Server.State} (stand : s.server.workers k = .receiving)
      (occupied : s.server.sendThread ≠ none)
      (workers : server.workers = Function.update s.server.workers k .abandoned) :
      Effect s (.server (.startSend k)) { s with server := server }
  | skip {k : Nat} {server : Server.State} (stand : s.server.workers k = .stopping)
      (null : s.server.receiveThread = none)
      (workers : server.workers = Function.update s.server.workers k .stoppingSend) :
      Effect s (.server (.stop k)) { s with server := server }
  | wait {k : Nat} {c : Socket} (passed : s.stops k = some c) (stand : s.server.workers k = .stopping)
      (runs : s.server.receiveThread ≠ none) :
      Effect s (.server (.stop k))
        { s with server := { s.server with
                   workers := Function.update s.server.workers k .waiting } }
  | shut {k : Nat} {c : Socket} (passed : s.stops k = some c) (stand : s.server.workers k = .waiting) :
      Effect s (.server (.stopWaited k))
        { s with closes := s.closes ++ [⟨k, c⟩]
                 server := { s.server with
                   workers := Function.update s.server.workers k .joining } }
  | moves {k : Nat} {a : Server.Action} {p : WorkerPhase} {server : Server.State}
      (workers : server.workers = Function.update s.server.workers k p)
      (within : (holds (s.server.workers k) = true ∧ s.server.workers k ≠ .authenticating ∧
          holds p = true ∧ p ≠ .waiting) ∨
        (concluded (s.server.workers k) = true ∧ concluded p = true))
      (clean : ∀ j, a = .startSend j → s.server.sendThread = none)
      (elsewhere : ∀ j, a ≠ .stop j) :
      Effect s (.server a) { s with server := server }
  | beside {a : Server.Action} {server : Server.State} (workers : server.workers = s.server.workers)
      (clean : ∀ j, a ≠ .startSend j ∧ a ≠ .stop j) :
      Effect s (.server a) { s with server := server }

variable {maxSub : UInt8} {s t : State} {a : Action} {k : Nat} {c : Socket}

/-- The steps of the server's threads beside the workers leave the workers where they are. -/
theorem workers_of_beside {server server' : Server.State} {a : Server.Action}
    (ran : Server.step maxSub server a = some server')
    (beside : Server.workerStep server a = none) : server'.workers = server.workers := by
  rcases Server.thread_of_step ran with ran | ran | ran | ran | ran | ran
  · rw [beside] at ran
    cases ran
  · exact (congrArg Server.State.workers (Server.receiverStep_frame ran) :)
  · exact (congrArg Server.State.workers (Server.decoderStep_frame ran) :)
  · exact (congrArg Server.State.workers (Server.senderStep_frame ran) :)
  · exact (congrArg Server.State.workers (Server.emitStep_frame ran) :)
  · exact (congrArg Server.State.workers (Server.clientStep_frame ran) :)

/-- A step of the server's threads that needs nothing of the sockets. -/
theorem effect_of_plain {server : Server.State} {b : Server.Action}
    (ran : Server.step maxSub s.server b = some server)
    (plain : ∀ k v, b ≠ .accept k ∧ b ≠ .test k v ∧ b ≠ .authenticate k v ∧ b ≠ .stop k ∧
      b ≠ .stopWaited k) :
    Effect s (.server b) { s with server := server } := by
  have beside (none_moves : Server.workerStep s.server b = none)
      (clean : ∀ j, b ≠ .startSend j ∧ b ≠ .stop j) : Effect s (.server b) { s with server := server } :=
    .beside (workers_of_beside ran none_moves) clean
  cases b <;> simp only [Server.step, Server.workerStep, Option.ite_none_right_eq_some,
    Option.some.injEq] at ran
  case accept k => exact absurd rfl (plain k true).1
  case test k v => exact absurd rfl (plain k v).2.1
  case authenticate k v => exact absurd rfl (plain k v).2.2.1
  case stop k => exact absurd rfl (plain k true).2.2.2.1
  case stopWaited k => exact absurd rfl (plain k true).2.2.2.2
  case activate k | startDecode k | startReceive k | assignReceive k =>
    obtain ⟨stand, rfl⟩ := ran
    exact .moves rfl (Or.inl ⟨by rw [stand]; rfl, by simp [stand], rfl, by rintro ⟨⟩⟩)
      (by rintro _ ⟨⟩) (by rintro _ ⟨⟩)
  case startSend k =>
    obtain ⟨stand, ran⟩ := ran
    split at ran <;> cases ran
    · rename_i free
      exact .moves rfl (Or.inl ⟨by rw [stand]; rfl, by simp [stand], rfl, by rintro ⟨⟩⟩)
        (fun _ _ => free) (by rintro _ ⟨⟩)
    · rename_i occupied
      exact .abandon stand occupied rfl
  case joinReceive k | joinSend k =>
    split at ran
    · simp only [Option.ite_none_right_eq_some, Option.some.injEq] at ran
      obtain ⟨⟨stand, _⟩, rfl⟩ := ran
      exact .moves rfl (Or.inr ⟨by rw [stand]; rfl, rfl⟩) (by rintro _ ⟨⟩) (by rintro _ ⟨⟩)
    · cases ran
  case stopSend k =>
    obtain ⟨stand, ran⟩ := ran
    split at ran <;> cases ran <;>
      exact .moves rfl (Or.inr ⟨by rw [stand]; rfl, rfl⟩) (by rintro _ ⟨⟩) (by rintro _ ⟨⟩)
  all_goals exact beside rfl fun _ => ⟨by rintro ⟨⟩, by rintro ⟨⟩⟩

theorem effect_of_serverStep {b : Server.Action} (ran : serverStep maxSub s b = some t) :
    Effect s (.server b) t := by
  unfold serverStep at ran
  split at ran
  case h_1 => cases ran
  case h_2 k valid =>
    split at ran
    · rename_i socket passed
      rw [Option.ite_none_right_eq_some] at ran
      obtain ⟨rfl, ran⟩ := ran
      obtain ⟨server, moved, rfl⟩ := Option.map_eq_some_iff.mp ran
      simp only [Server.step, Server.workerStep, Option.ite_none_right_eq_some,
        Option.some.injEq] at moved
      obtain ⟨stand, rfl⟩ := moved
      exact .test passed stand
    · cases ran
  case h_3 k ok =>
    rw [Option.ite_none_left_eq_some] at ran
    obtain ⟨whole, ran⟩ := ran
    obtain ⟨server, moved, rfl⟩ := Option.map_eq_some_iff.mp ran
    simp only [Server.step, Server.workerStep, Option.ite_none_right_eq_some,
      Option.some.injEq] at moved
    obtain ⟨stand, rfl⟩ := moved
    exact .authenticate ok (by simpa using whole) stand
  case h_4 k =>
    split at ran
    · rename_i read
      obtain ⟨server, moved, rfl⟩ := Option.map_eq_some_iff.mp ran
      obtain ⟨socket, passed⟩ := Option.isSome_iff_exists.mp read
      simp only [Server.step, Server.workerStep, Option.ite_none_right_eq_some,
        Option.some.injEq] at moved
      obtain ⟨stand, rfl⟩ := moved
      split
      · rename_i runs
        exact .wait passed stand (Option.isSome_iff_ne_none.mp runs)
      · rename_i null
        exact .skip stand (by simpa using null) rfl
    · cases ran
  case h_5 k =>
    split at ran
    · rename_i socket passed
      obtain ⟨server, moved, rfl⟩ := Option.map_eq_some_iff.mp ran
      simp only [Server.step, Server.workerStep, Option.ite_none_right_eq_some,
        Option.some.injEq] at moved
      obtain ⟨⟨stand, _⟩, rfl⟩ := moved
      exact .shut passed stand
    · cases ran
  case h_6 accept test authenticate stop stopWaited =>
    obtain ⟨server, moved, rfl⟩ := Option.map_eq_some_iff.mp ran
    exact effect_of_plain moved fun k v =>
      ⟨accept k, test k v, authenticate k v, stop k, stopWaited k⟩

/-- A step changes what it says. -/
theorem effect_of_step (ran : step maxSub s a = some t) : Effect s a t := by
  cases a <;> simp only [step, Option.ite_none_right_eq_some, Option.some.injEq] at ran
  case loopTest =>
    obtain ⟨at_test, rfl⟩ := ran
    exact .loopTest at_test (by split <;> simp)
  case accept ok =>
    obtain ⟨at_accept, rfl⟩ := ran
    exact .accept ok at_accept rfl
  case spawn =>
    obtain ⟨at_spawn, ran⟩ := ran
    obtain ⟨server, moved, rfl⟩ := Option.map_eq_some_iff.mp ran
    simp only [Server.step, Server.workerStep, Option.ite_none_right_eq_some,
      Option.some.injEq] at moved
    obtain ⟨fresh, rfl⟩ := moved
    exact .spawn at_spawn fresh
  case stopListening =>
    cases ran
    exact .stopListening
  case read k =>
    split at ran
    · rename_i stand
      cases ran
      exact .readStart stand.1 stand.2
    · simp only [Option.ite_none_right_eq_some, Option.some.injEq] at ran
      obtain ⟨⟨stand, first⟩, rfl⟩ := ran
      exact .readStop stand first
  case close k =>
    split at ran
    · rename_i refused passed
      cases ran
      exact .close refused passed
    · cases ran
  case cut k fails =>
    split at ran
    · rename_i passed
      simp only [Option.ite_none_right_eq_some, Option.some.injEq] at ran
      obtain ⟨stand, rfl⟩ := ran
      exact .cut fails passed stand
    · cases ran
  case receiveFails k =>
    split at ran
    · rename_i passed
      obtain ⟨server, moved, rfl⟩ := Option.map_eq_some_iff.mp ran
      exact .fails 1 (Or.inl rfl) passed (workers_of_beside moved rfl)
    · cases ran
  case replyFails k =>
    split at ran
    · rename_i passed
      simp only [Option.ite_none_right_eq_some, Option.some.injEq] at ran
      obtain ⟨_, rfl⟩ := ran
      exact .fails 1 (Or.inr (Or.inl rfl)) passed rfl
    · cases ran
  case sendFails k left =>
    split at ran
    · rename_i passed
      obtain ⟨server, moved, rfl⟩ := Option.map_eq_some_iff.mp ran
      exact .fails (left.val + 1) (Or.inr (Or.inr ⟨left, rfl⟩)) passed (workers_of_beside moved rfl)
    · cases ran
  case server b => exact effect_of_serverStep ran

/-! ## The records of one worker -/

/-- What is recorded of a worker: where it stands, what it has passed and what it has closed. -/
structure Record where
  phase : WorkerPhase
  start : Option Socket
  stop : Option Socket
  rejected : Bool
  cut : Bool
  closed : List Socket

/-- The sockets that worker `k` and the threads of its session have closed. -/
def closedBy (k : Nat) (closes : List Close) : List Socket :=
  (closes.filter fun e => e.worker = k).map Close.socket

@[simp] theorem closedBy_append (closes more : List Close) :
    closedBy k (closes ++ more) = closedBy k closes ++ closedBy k more := by
  simp [closedBy]

@[simp] theorem closedBy_replicate (times j : Nat) (c : Socket) :
    closedBy k (List.replicate times ⟨j, c⟩) = if j = k then List.replicate times c else [] := by
  by_cases same : j = k <;> simp [closedBy, same]

@[simp] theorem closedBy_singleton (j : Nat) (c : Socket) :
    closedBy k [⟨j, c⟩] = if j = k then [c] else [] :=
  closedBy_replicate 1 j c

def record (s : State) (k : Nat) : Record :=
  ⟨s.server.workers k, s.starts k, s.stops k, s.rejected k, s.cut k, closedBy k s.closes⟩

/-- What a step does to the record of worker `k`, which it is about. -/
inductive Turn (s : State) (k : Nat) (r : Record) : Action → Record → Prop
  | spawn (fresh : r.phase = .absent) : Turn s k r .spawn { r with phase := .accepted }
  | readStart (stand : r.phase = .accepted) (first : r.start = none) :
      Turn s k r (.read k) { r with start := some s.client }
  | readStop (stand : r.phase = .stopping) (first : r.stop = none) :
      Turn s k r (.read k) { r with stop := some s.client }
  | close {c : Socket} (refused : r.rejected = true) (passed : r.start = some c) :
      Turn s k r (.close k) { r with rejected := false, closed := r.closed ++ [c] }
  | cut {c : Socket} (fails : Bool) (passed : r.start = some c)
      (stand : r.phase = .authenticating) :
      Turn s k r (.cut k fails)
        { r with cut := true, closed := if fails then r.closed ++ [c] else r.closed }
  | fails {a : Action} {c : Socket} (times : Nat)
      (failing : a = .receiveFails k ∨ a = .replyFails k ∨ ∃ left, a = .sendFails k left)
      (passed : r.start = some c) :
      Turn s k r a { r with closed := r.closed ++ List.replicate times c }
  | authenticates {c : Socket} (passed : r.start = some c) (stand : r.phase = .accepted)
      (valid : c.valid = true) :
      Turn s k r (.server (.test k c.valid)) { r with phase := .authenticating, rejected := false }
  | refuses {c : Socket} (passed : r.start = some c) (stand : r.phase = .accepted) :
      Turn s k r (.server (.test k c.valid)) { r with phase := .refused, rejected := c.valid }
  | authenticated (whole : r.cut = false) (stand : r.phase = .authenticating) :
      Turn s k r (.server (.authenticate k true)) { r with phase := .authenticated, rejected := false }
  | fails_login (whole : r.cut = false) (stand : r.phase = .authenticating) :
      Turn s k r (.server (.authenticate k false)) { r with phase := .refused, rejected := true }
  | abandon (stand : r.phase = .receiving) (occupied : s.server.sendThread ≠ none) :
      Turn s k r (.server (.startSend k)) { r with phase := .abandoned }
  | skip (stand : r.phase = .stopping) (null : s.server.receiveThread = none) :
      Turn s k r (.server (.stop k)) { r with phase := .stoppingSend }
  | wait {c : Socket} (passed : r.stop = some c) (stand : r.phase = .stopping) :
      Turn s k r (.server (.stop k)) { r with phase := .waiting }
  | shut {c : Socket} (passed : r.stop = some c) (stand : r.phase = .waiting) :
      Turn s k r (.server (.stopWaited k)) { r with phase := .joining, closed := r.closed ++ [c] }
  | moves {a : Server.Action} {p : WorkerPhase}
      (within : (holds r.phase = true ∧ r.phase ≠ .authenticating ∧ holds p = true ∧ p ≠ .waiting) ∨
        (concluded r.phase = true ∧ concluded p = true))
      (clean : ∀ j, a = .startSend j → s.server.sendThread = none) (elsewhere : ∀ j, a ≠ .stop j) :
      Turn s k r (.server a) { r with phase := p }

/-- A step touches the record of one worker at most. -/
theorem turn_of_effect (eff : Effect s a t) :
    (∀ j, record t j = record s j) ∨
      ∃ k, Turn s k (record s k) a (record t k) ∧ ∀ j, j ≠ k → record t j = record s j := by
  have turn {k : Nat} {r : Record} (took : Turn s k (record s k) a r) (here : record t k = r)
      (others : ∀ j, j ≠ k → record t j = record s j) :
      (∀ j, record t j = record s j) ∨
        ∃ k, Turn s k (record s k) a (record t k) ∧ ∀ j, j ≠ k → record t j = record s j :=
    Or.inr ⟨k, here ▸ took, others⟩
  cases eff with
  | loopTest | accept | stopListening => exact Or.inl fun _ => rfl
  | beside workers => exact Or.inl fun _ => by simp only [record, workers]
  | spawn _ fresh =>
    exact turn (.spawn fresh) (by simp [record]) fun j other => by simp [record, other]
  | readStart stand first =>
    exact turn (.readStart stand first) (by simp [record]) fun j other => by simp [record, other]
  | readStop stand first =>
    exact turn (.readStop stand first) (by simp [record]) fun j other => by simp [record, other]
  | close refused passed =>
    exact turn (.close refused passed) (by simp [record]) fun j other => by
      simp [record, other, Ne.symm other]
  | cut fails passed stand =>
    refine turn (.cut fails passed stand) ?_ fun j other => ?_ <;> cases fails
    · simp [record]
    · simp [record]
    · simp [record, other]
    · simp [record, other, Ne.symm other]
  | fails times failing passed workers =>
    exact turn (.fails times failing passed) (by simp [record, workers]) fun j other => by
      simp [record, workers, Ne.symm other]
  | @test k c passed stand =>
    by_cases goes : c.valid = true ∧ s.server.receiveThread = none
    · exact turn (.authenticates passed stand goes.1) (by simp [record, goes]) fun j other => by
        simp [record, other]
    · have occupied : (c.valid && s.server.receiveThread.isSome) = c.valid := by
        cases valid : c.valid with
        | true => simpa [valid, Option.isSome_iff_ne_none] using goes
        | false => rfl
      exact turn (.refuses passed stand) (by simp only [record, if_neg goes, occupied,
        Function.update_self]) fun j other => by simp [record, other]
  | authenticate ok whole stand =>
    cases ok with
    | true =>
      exact turn (.authenticated whole stand) (by simp [record]) fun j other => by
        simp [record, other]
    | false =>
      exact turn (.fails_login whole stand) (by simp [record]) fun j other => by
        simp [record, other]
  | abandon stand occupied workers =>
    exact turn (.abandon stand occupied) (by simp [record, workers]) fun j other => by
      simp [record, workers, other]
  | skip stand null workers =>
    exact turn (.skip stand null) (by simp [record, workers]) fun j other => by
      simp [record, workers, other]
  | wait passed stand =>
    exact turn (.wait passed stand) (by simp [record]) fun j other => by simp [record, other]
  | shut passed stand =>
    exact turn (.shut passed stand) (by simp [record]) fun j other => by
      simp [record, other, Ne.symm other]
  | moves workers within clean elsewhere =>
    exact turn (.moves within clean elsewhere) (by simp [record, workers]) fun j other => by
      simp [record, workers, other]

end DCScan.Accept
