import DCScan.Authentic
import DCScan.Journal

/-!
EVENTS over the lives of the connections: who was connected, and who has deleted which variable.

`LogEventUser` writes the name in `authenticated_username`. `Authenticate` sets it in the worker of a
connection, before the threads of the session are started, and `StopThread` clears it before it joins
them. The steps here are those of the server, with what its workers write down between them, and the
calls on the tables, of the functions that a decode thread executes and of other threads.

The steps `logDisconnected` and `clearUser` come before the `CloseSocketConnection` of `stopWaited`;
nothing here looks at the socket.

`log` is EVENTS together with the thread that wrote each row. No step looks at it.
-/

namespace DCScan.RDB

/-- `SetAuthenticatedUser`, of a user or of the null pointer. -/
def Tables.SetAuthenticatedUser (db : Tables) (user : Option (List UInt8)) : Tables :=
  { db with authenticatedUsername := user.getD [] }

end DCScan.RDB

namespace DCScan.Audit

open Lib RDB Message
open Server (WorkerPhase ReceiverPhase DecoderPhase)

/-- Who has written a row of EVENTS. -/
inductive Writer where
  /-- The worker of a connection, in `Authenticate` or in `StopThread`. -/
  | worker (k : Nat)
  /-- The decode thread of a connection, in `LogEventUser`. -/
  | user (k : Nat)
  | other
  deriving DecidableEq, Repr

structure Entry where
  row : EventRow
  writer : Writer
  deriving DecidableEq

/-- What the worker of a connection has written down. -/
inductive Record where
  | absent
  /-- `SetAuthenticatedUser(&user)`. -/
  | named
  | connected
  | disconnected
  /-- `SetAuthenticatedUser(nullptr)`. -/
  | cleared
  deriving DecidableEq, Repr

structure State where
  server : Server.State
  tables : Tables
  records : Nat → Record
  /-- `user.u`, in the `Authenticate` of each connection. -/
  users : Nat → List UInt8
  /-- The variable that a decode thread has deleted, before it logs that. -/
  deleting : Nat → Option CString
  log : List Entry

/-- The server process before its first connection, with a new database. -/
def start (maxSub : UInt8) : State where
  server := Server.start maxSub
  tables := CreateTables
  records := fun _ => .absent
  users := fun _ => []
  deleting := fun _ => none
  log := []

inductive Action where
  | server (a : Server.Action)
  /-- `Authenticate` finds the user, and the response is the right one. -/
  | login (k : Nat) (username : CString)
  | setUser (k : Nat)
  | logConnected (k : Nat)
  | logDisconnected (k : Nat)
  | clearUser (k : Nat)
  /-- A call of some thread; a `DeleteVariable`, of one that executes no request. -/
  | call (c : TableCall)
  /-- A function that a decode thread executes deletes a row, in `DeleteVariable`. -/
  | deleteRow (k : Nat) (name : CString)
  | logDeletion (k : Nat)

def connectedText (user : List UInt8) : List UInt8 := ascii "User " ++ user ++ ascii " : Connected."

def disconnectedText (user : List UInt8) : List UInt8 :=
  ascii "User " ++ user ++ ascii " : Disconnected."

/-- With a request, which its function is executed for. -/
def executes : DecoderPhase → Bool
  | .acting m => m.msg.operation = some .SYNC_REQUEST || m.msg.operation = some .ASYNC_REQUEST
  | _ => false

/-- New tables, whose new rows of EVENTS a thread has written. -/
def State.wrote (s : State) (tables : Tables) (writer : Writer) : State :=
  { s with
    tables
    log := s.log ++ (tables.EVENTS.drop s.tables.EVENTS.length).map fun row => ⟨row, writer⟩ }

/-- The steps of the server's threads that what they write down does not hold up. -/
def allowed (s : State) : Server.Action → Bool
  | .authenticate _ ok => !ok
  | .activate k => s.records k = .connected
  | .joinReceive k => s.records k = .cleared
  | .act k _ _ => s.deleting k = none
  | _ => true

section

variable (maxSub : UInt8) (sql : Sqlite) (sha : Digest)

def step (s : State) : Action → Option State
  | .server a =>
    if allowed s a = true then (Server.step maxSub s.server a).map fun server => { s with server }
    else none
  | .login k username => do
    let user ← GetUser sql s.tables username
    if user.u = invalidUser then none
    else
      let server ← Server.step maxSub s.server (.authenticate k true)
      some { s with server, users := Function.update s.users k user.u }
  | .setUser k =>
    if s.server.workers k = .authenticated ∧ s.records k = .absent then
      some { s with
        tables := s.tables.SetAuthenticatedUser (some (s.users k))
        records := Function.update s.records k .named }
    else none
  | .logConnected k =>
    if s.records k = .named then
      some ({ s with records := Function.update s.records k .connected }.wrote
        (s.tables.LogEventSystem .NETWORK (connectedText (s.users k))) (.worker k))
    else none
  | .logDisconnected k =>
    if s.server.workers k = .joining ∧ s.records k = .connected then
      some ({ s with records := Function.update s.records k .disconnected }.wrote
        (s.tables.LogEventSystem .NETWORK (disconnectedText s.tables.authenticatedUsername))
        (.worker k))
    else none
  | .clearUser k =>
    if s.records k = .disconnected then
      some { s with
        tables := s.tables.SetAuthenticatedUser none
        records := Function.update s.records k .cleared }
    else none
  | .call c => (s.tables.call sql sha c).map fun tables => s.wrote tables .other
  | .deleteRow k name =>
    if executes (s.server.decoders k) = true ∧ s.deleting k = none then
      match DeleteVariableInternal sql s.tables name with
      | some (true, tables) =>
        some { s with tables, deleting := Function.update s.deleting k (some name) }
      | _ => none
    else none
  | .logDeletion k =>
    match s.deleting k with
    | some name =>
      some ({ s with deleting := Function.update s.deleting k none }.wrote
        (s.tables.LogEventUser .VAR_DELETE name.bytes) (.user k))
    | none => none

def system : System State Action where
  init s := s = start maxSub
  step := step maxSub sql sha

end

/-- Each test of `server_receive_thread` finds it null only while no other worker is behind its own. -/
def TestsAlone (s : State) : Action → Prop
  | .server a => Server.TestsAlone s.server a
  | _ => True

/-! ## Whose name is set -/

/-- `server_receive_thread` is assigned and not cleared. -/
def keeps : WorkerPhase → Bool
  | .receiving | .stopping | .waiting | .joining | .abandoned => true
  | _ => false

/-- From the test of `server_receive_thread` to its clearing. -/
def owns (p : WorkerPhase) : Bool := p.opening || keeps p

/-- The connections come one after the other, and the pointer names the one that is served. -/
structure Ordered (server : Server.State) : Prop where
  guarded : Server.Guarded server
  control : Inbound.Control server
  kept : Tracks keeps server.workers server.receiveThread

variable {maxSub : UInt8} {sql : Sqlite} {sha : Digest} {server next : Server.State}
variable {b : Server.Action} {s t : State} {a : Action} {j k : Nat}

theorem Ordered.one (ordered : Ordered server) (first : owns (server.workers j) = true)
    (second : owns (server.workers k) = true) : j = k := by
  obtain ⟨guarded, _, kept⟩ := ordered
  have apart {j k : Nat} (opening : (server.workers j).opening = true)
      (keeping : keeps (server.workers k) = true) : j = k := by
    have pointed := (kept k).mpr keeping
    rw [guarded.opening opening] at pointed
    cases pointed
  rcases Bool.or_eq_true_iff.mp first with opening | keeping <;>
    rcases Bool.or_eq_true_iff.mp second with opening' | keeping'
  · exact guarded.one opening opening'
  · exact apart opening keeping'
  · exact (apart opening' keeping).symm
  · exact kept.unique keeping keeping'

/-- While a worker is behind its test no session runs but its own. -/
theorem Ordered.idle (ordered : Ordered server) (stand : server.workers k = .authenticated) :
    ¬Inbound.Live server j := by
  obtain ⟨guarded, _, _⟩ := ordered
  have behind : (server.workers k).opening = true := by rw [stand]; rfl
  have other {p : WorkerPhase} (there : server.workers j = p) (opens : p.opening = true)
      (further : p ≠ .authenticated) : False := by
    have same := guarded.one (there ▸ opens) behind
    rw [same, stand] at there
    exact further there.symm
  rintro (activated | decoding | alive)
  · exact other activated rfl (by simp)
  · exact other decoding rfl (by simp)
  · rcases guarded.alive alive with pointed | launching
    · rw [guarded.opening behind] at pointed
      cases pointed
    · exact other launching rfl (by simp)

theorem kept_of_workerStep (ordered : Ordered server) (ran : Server.workerStep server b = some next) :
    Tracks keeps next.workers next.receiveThread := by
  obtain ⟨guarded, _, kept⟩ := ordered
  cases Server.worker_turn ran with
  | assignReceive stand =>
    have free := guarded.opening (show (server.workers _).opening = true by rw [stand]; rfl)
    exact (free ▸ kept).take rfl
  | @joinReceive k j stand pointed =>
    have own : server.receiveThread = some k := (kept k).mpr (by rw [stand]; rfl)
    exact (own ▸ kept).release rfl
  | @stop k stand =>
    have own : server.receiveThread = some k := (kept k).mpr (by rw [stand]; rfl)
    exact kept.move (by rw [stand, own]; rfl)
  | test stand | authenticate stand => exact kept.move (by rw [stand]; split <;> rfl)
  | accept stand | activate stand | startDecode stand | startReceive stand | startSend stand
  | abandon stand | stopWaited stand | stopSend stand | close stand | joinSend stand =>
    exact kept.move (by rw [stand]; rfl)

theorem ordered_step (ordered : Ordered server) (met : Server.TestsAlone server b)
    (ran : Server.step maxSub server b = some next) : Ordered next := by
  refine ⟨Server.guarded_step ordered.guarded met ran, Inbound.control_step ordered.control ?_ ran, ?_⟩
  · rintro k rfl j
    simp only [Server.step, Server.workerStep, Option.ite_none_right_eq_some] at ran
    exact ordered.idle ran.1
  · have same (workers : next.workers = server.workers)
        (pointer : next.receiveThread = server.receiveThread) :
        Tracks keeps next.workers next.receiveThread := by
      rw [workers, pointer]
      exact ordered.kept
    rcases Server.thread_of_step ran with ran | ran | ran | ran | ran | ran
    · exact kept_of_workerStep ordered ran
    · have frame := Server.receiverStep_frame ran
      exact same (congrArg Server.State.workers frame :) (congrArg Server.State.receiveThread frame :)
    · have frame := Server.decoderStep_frame ran
      exact same (congrArg Server.State.workers frame :) (congrArg Server.State.receiveThread frame :)
    · have frame := Server.senderStep_frame ran
      exact same (congrArg Server.State.workers frame :) (congrArg Server.State.receiveThread frame :)
    · have frame := Server.emitStep_frame ran
      exact same (congrArg Server.State.workers frame :) (congrArg Server.State.receiveThread frame :)
    · have frame := Server.clientStep_frame ran
      exact same (congrArg Server.State.workers frame :) (congrArg Server.State.receiveThread frame :)

end DCScan.Audit
