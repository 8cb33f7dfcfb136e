import DCScan.Authentic

/-!
How a session leaves `inbound_bytes` to the next one.

A session ends when `ReceiveData` fails in its receive thread: the peer has gone, or the socket was
closed under it. The receive thread clears `server_running`, sets `ntf_unblock` and joins the decode
thread, which meanwhile leaves its loop and calls `notify_restart`. Its own worker or the console's
`stop` then joins the receive thread, and `server_receive_thread` is free for the next session.

The threads and the bytes are those of `Inbound`; the console is added here. What follows a second
`join` of one thread is undefined, and no step.
-/

namespace DCScan.NextSession

open Lib
open Server (WorkerPhase ReceiverPhase DecoderPhase)
open Inbound (Received Live Decodes Control Clean Beside)

/-- Where the console's `stop` stands. -/
inductive Console where
  | idle
  /-- `IsRunning` was true, and the question is whether to stop anyway. -/
  | asked
  /-- In `StopThread(client, IMMEDIATE)`, joining the receive thread. -/
  | joining
  /-- Before the test of `server_send_thread`. -/
  | stoppingSend
  | joiningSend
  | stopped
  deriving DecidableEq, Repr

structure State where
  inbound : Inbound.State
  /-- `stop_forced`. -/
  forced : Bool
  console : Console

/-- The threads of the sessions. -/
abbrev State.server (s : State) : Server.State := s.inbound.server

inductive Action where
  /-- A step of the server's threads, or of a client. -/
  | own (a : Inbound.Action)
  /-- The wait loop of a worker's `StopThread` ends, and `stop_forced` is set. -/
  | giveUp (k : Nat)
  /-- `stop` finds a session running. -/
  | ask
  /-- `StopThread(client, IMMEDIATE)` up to the join. -/
  | force
  | joinReceive
  | stopSend
  | joinSend

/-- The worker's `StopThread` goes on behind its wait loop. -/
def continues : Inbound.Action → Bool
  | .server (.stopWaited _) => true
  | _ => false

/-- The threads, in the console's hands. -/
def State.withServer (s : State) (server : Server.State) (console : Console) : State :=
  { s with inbound := { s.inbound with server := server }, console := console }

section

variable (maxSub : UInt8) (size : Nat) (socket : Nat → Nat) (accounts : Accounts)
variable (challenge : Nat → Challenge)

def step (s : State) : Action → Option State
  | .own a =>
    if continues a ∧ s.forced then none
    else (Inbound.step maxSub size socket accounts challenge s.inbound a).map fun inbound =>
      { s with inbound := inbound }
  | .giveUp k =>
    if s.server.workers k = .waiting ∧ s.server.running = false ∧ s.forced then
      some (s.withServer { s.server with
        workers := Function.update s.server.workers k .closed
        current := if s.server.current = some k then none else s.server.current } s.console)
    else none
  | .ask =>
    if s.console = .idle ∧ s.server.running then some { s with console := .asked } else none
  | .force =>
    if s.console = .asked then
      if s.server.receiveThread.isSome then some { s with forced := true, console := .joining }
      else some { s with console := .stoppingSend }
    else none
  | .joinReceive =>
    match s.server.receiveThread with
    | some j =>
      if s.console = .joining ∧ s.server.receivers j = .finished then
        some (s.withServer { s.server with receiveThread := none } .stoppingSend)
      else none
    | none => none
  | .stopSend =>
    if s.console = .stoppingSend then
      if s.server.sendThread.isSome then some { s with console := .joiningSend }
      else some (s.withServer { s.server with current := none } .stopped)
    else none
  | .joinSend =>
    match s.server.sendThread with
    | some j =>
      if s.console = .joiningSend ∧ s.server.senders j = .finished then
        some (s.withServer { s.server with sendThread := none, current := none } .stopped)
      else none
    | none => none

/-- The server before its first connection. -/
def system : System State Action where
  init s := ∃ inbound, (Inbound.system maxSub size socket accounts challenge).init inbound ∧
    s = ⟨inbound, false, .idle⟩
  step := step maxSub size socket accounts challenge

/-- What each action finds, and leaves. -/
inductive Turn (s : State) : Action → State → Prop
  | own {a inbound} (free : ¬(continues a ∧ s.forced))
      (moved : Inbound.step maxSub size socket accounts challenge s.inbound a = some inbound) :
      Turn s (.own a) { s with inbound := inbound }
  | giveUp {k} (stand : s.server.workers k = .waiting) (cleared : s.server.running = false)
      (forced : s.forced) :
      Turn s (.giveUp k) (s.withServer { s.server with
        workers := Function.update s.server.workers k .closed
        current := if s.server.current = some k then none else s.server.current } s.console)
  | ask (idle : s.console = .idle) (runs : s.server.running) : Turn s .ask { s with console := .asked }
  | force (asked : s.console = .asked) (assigned : s.server.receiveThread.isSome) :
      Turn s .force { s with forced := true, console := .joining }
  | pass (asked : s.console = .asked) (unassigned : s.server.receiveThread = none) :
      Turn s .force { s with console := .stoppingSend }
  | joinReceive {j} (assigned : s.server.receiveThread = some j) (joins : s.console = .joining)
      (ended : s.server.receivers j = .finished) :
      Turn s .joinReceive (s.withServer { s.server with receiveThread := none } .stoppingSend)
  | stopSend (stops : s.console = .stoppingSend) (assigned : s.server.sendThread.isSome) :
      Turn s .stopSend { s with console := .joiningSend }
  | stopped (stops : s.console = .stoppingSend) (unassigned : s.server.sendThread = none) :
      Turn s .stopSend (s.withServer { s.server with current := none } .stopped)
  | joinSend {j} (assigned : s.server.sendThread = some j) (joins : s.console = .joiningSend)
      (ended : s.server.senders j = .finished) :
      Turn s .joinSend (s.withServer { s.server with sendThread := none, current := none } .stopped)

end

/-- One session follows another: it starts only when no other one runs. -/
def Successive (s : State) : Action → Prop
  | .own a => Inbound.Consecutive s.inbound a
  | _ => True

/-- `ntf_unblock` is set only while the decode thread that it is meant for has still to call
`notify_restart`. -/
def inTime (s : State) : Action → Bool
  | .own (.server (.receiverNotify k)) => s.server.decoders k ≠ .finished
  | _ => true

def Orderly (s : State) (a : Action) : Prop := Successive s a ∧ inTime s a = true

variable {maxSub : UInt8} {size : Nat} {socket : Nat → Nat} {accounts : Accounts}
variable {challenge : Nat → Challenge} {server next : Server.State} {b : Server.Action} {j k : Nat}

theorem turn_of_step {s t : State} {a : Action}
    (ran : step maxSub size socket accounts challenge s a = some t) :
    Turn maxSub size socket accounts challenge s a t := by
  cases a with
  | own a =>
    simp only [step, Option.ite_none_left_eq_some] at ran
    obtain ⟨free, ran⟩ := ran
    obtain ⟨inbound, moved, rfl⟩ := Option.map_eq_some_iff.mp ran
    exact .own free moved
  | giveUp k =>
    simp only [step, Option.ite_none_right_eq_some, Option.some.injEq] at ran
    obtain ⟨⟨stand, cleared, forced⟩, rfl⟩ := ran
    exact .giveUp stand cleared forced
  | ask =>
    simp only [step, Option.ite_none_right_eq_some, Option.some.injEq] at ran
    obtain ⟨⟨idle, runs⟩, rfl⟩ := ran
    exact .ask idle runs
  | force =>
    simp only [step, Option.ite_none_right_eq_some] at ran
    obtain ⟨asked, ran⟩ := ran
    split at ran <;> cases ran
    · rename_i assigned
      exact .force asked assigned
    · rename_i unassigned
      exact .pass asked (Option.not_isSome_iff_eq_none.mp unassigned)
  | joinReceive =>
    simp only [step] at ran
    split at ran
    · rename_i assigned
      rw [Option.ite_none_right_eq_some, Option.some.injEq] at ran
      obtain ⟨⟨joins, ended⟩, rfl⟩ := ran
      exact .joinReceive assigned joins ended
    · cases ran
  | stopSend =>
    simp only [step, Option.ite_none_right_eq_some] at ran
    obtain ⟨stops, ran⟩ := ran
    split at ran <;> cases ran
    · rename_i assigned
      exact .stopSend stops assigned
    · rename_i unassigned
      exact .stopped stops (Option.not_isSome_iff_eq_none.mp unassigned)
  | joinSend =>
    simp only [step] at ran
    split at ran
    · rename_i assigned
      rw [Option.ite_none_right_eq_some, Option.some.injEq] at ran
      obtain ⟨⟨joins, ended⟩, rfl⟩ := ran
      exact .joinSend assigned joins ended
    · cases ran

/-! ## The receive threads -/

/-- A receive thread has set `ntf_unblock`, and its decode thread will clear it. -/
def Notified (server : Server.State) (j : Nat) : Prop :=
  server.receivers j = .notified ∧ server.decoders j ≠ .finished

/-- A receive thread that was started stays started. -/
theorem started_of_step (ran : Server.step maxSub server b = some next)
    (started : server.receivers j ≠ .absent) : next.receivers j ≠ .absent := by
  have moved {k : Nat} {p : ReceiverPhase} (present : p ≠ .absent) :
      Function.update server.receivers k p j ≠ .absent := by
    intro gone
    rcases update_cases gone with ⟨_, none⟩ | ⟨_, none⟩
    · exact present none
    · exact started none
  rcases Server.thread_of_step ran with ran | ran | ran | ran | ran | ran
  · rcases (Server.threads_of_workerStep ran).1 with same | ⟨k, _, same⟩
    · rwa [same]
    · rw [same]
      exact moved (by simp)
  · obtain ⟨k, p, _, present, same⟩ := Server.receivers_of_receiverStep ran
    rw [same]
    exact moved present
  · rwa [Server.decoderStep_frame ran]
  · rwa [Server.senderStep_frame ran]
  · rwa [Server.emitStep_frame ran]
  · rwa [Server.clientStep_frame ran]

theorem notified_of_receiverStep (ran : Server.receiverStep server b = some next)
    (notified : Notified server j) : next.receivers j = .notified := by
  have moved {k : Nat} {p : ReceiverPhase}
      (receivers : next.receivers = Function.update server.receivers k p)
      (elsewhere : server.receivers k ≠ .notified) : next.receivers j = .notified := by
    have other : j ≠ k := by
      rintro rfl
      exact elsewhere notified.1
    rw [receivers, Function.update_of_ne other, notified.1]
  cases Server.receiver_turn ran with
  | @receiverJoin k _ ended =>
    have other : j ≠ k := by
      rintro rfl
      exact notified.2 ended
    exact (Function.update_of_ne other ..).trans notified.1
  | receiverTest stand | receive stand | disconnect stand | receiverClear stand
  | receiverNotify stand => exact moved rfl (by simp [stand])

/-- Nothing but `notify_restart` ends what `notify_unblock` has begun. -/
theorem notified_of_step (control : Control server) (ran : Server.step maxSub server b = some next)
    (other : ∀ k, b ≠ .restart k) (notified : Notified server j) : Notified next j := by
  refine ⟨?_, fun ended => notified.2 (Inbound.finished_of_step ran other ended)⟩
  rcases Server.thread_of_step ran with ran | ran | ran | ran | ran | ran
  · rcases (Server.threads_of_workerStep ran).1 with same | ⟨k, stand, same⟩
    · rw [same, notified.1]
    · have paced := control.paced k
      rw [stand] at paced
      have elsewhere : j ≠ k := by
        rintro rfl
        rw [notified.1] at paced
        cases paced.2.1
      rw [same, Function.update_of_ne elsewhere, notified.1]
  · exact notified_of_receiverStep ran notified
  · rw [Server.decoderStep_frame ran]
    exact notified.1
  · rw [Server.senderStep_frame ran]
    exact notified.1
  · rw [Server.emitStep_frame ran]
    exact notified.1
  · rw [Server.clientStep_frame ran]
    exact notified.1

/-! ## What a session finds -/

structure Usable (socket : Nat → Nat) (s : Inbound.State) : Prop where
  clean : Clean socket s
  /-- A queued byte is of a session whose receive thread was started. -/
  begun : ∀ x ∈ s.origins, s.server.receivers x.session ≠ .absent
  /-- While `ntf_unblock` is set, a decode thread will clear it. -/
  owed : s.queue.ntfUnblock = true → ∃ j, Notified s.server j

section

variable {s t : Inbound.State} {a : Inbound.Action}

theorem Notified.moves {d : DecoderPhase} (notified : Notified s.server j) (going : d ≠ .finished) :
    Notified (Inbound.decoderMoves s k d) j := by
  refine ⟨notified.1, fun ended => ?_⟩
  rcases update_cases ended with ⟨_, gone⟩ | ⟨_, before⟩
  · exact going gone
  · exact notified.2 before

/-- Beside the bytes, only `notify_unblock` touches the queue. -/
theorem flag_of_serverStep (ran : Inbound.serverStep maxSub accounts challenge s b = some t) :
    t.queue.ntfUnblock = s.queue.ntfUnblock ∨ ∃ k, b = .receiverNotify k := by
  unfold Inbound.serverStep at ran
  split at ran
  case h_1 | h_2 | h_3 | h_4 => cases ran
  case h_5 | h_6 =>
    rw [Option.ite_none_right_eq_some] at ran
    obtain ⟨server, _, rfl⟩ := Option.map_eq_some_iff.mp ran.2
    exact Or.inl rfl
  case h_7 k => exact Or.inr ⟨k, rfl⟩
  case h_8 =>
    split at ran
    · obtain ⟨server, _, rfl⟩ := Option.map_eq_some_iff.mp ran
      exact Or.inl rfl
    · cases ran
  case h_9 =>
    obtain ⟨server, _, rfl⟩ := Option.map_eq_some_iff.mp ran
    exact Or.inl rfl

theorem usable_of_server (usable : Usable socket s) (clean : Clean socket t)
    (met : ∀ k, b = .receiverNotify k → s.server.decoders k ≠ .finished)
    (ran : Inbound.serverStep maxSub accounts challenge s b = some t) : Usable socket t := by
  obtain ⟨moved, beside⟩ := Inbound.beside_of_serverStep ran
  have origins : t.origins = s.origins := (congrArg Inbound.State.origins beside.frame :)
  refine ⟨clean, fun x member => ?_, fun asked => ?_⟩
  · rw [origins] at member
    exact started_of_step moved (usable.begun x member)
  · rcases flag_of_serverStep ran with same | ⟨k, rfl⟩
    · rw [same] at asked
      obtain ⟨j, notified⟩ := usable.owed asked
      exact ⟨j, notified_of_step usable.clean.control moved (fun k => (beside.plain k).2) notified⟩
    · have going := met k rfl
      simp only [Server.step, Server.receiverStep, Option.ite_none_right_eq_some,
        Option.some.injEq] at moved
      obtain ⟨_, moved⟩ := moved
      refine ⟨k, ?_, ?_⟩
      · rw [← moved]
        exact Function.update_self ..
      · rw [← moved]
        exact going

theorem usable_of_addBytes (usable : Usable socket s) (clean : Clean socket t)
    (ran : Inbound.step maxSub size socket accounts challenge s (.addBytes k) = some t) :
    Usable socket t := by
  cases Inbound.turn_of_step ran with
  | addBytes reads _ added =>
    refine ⟨clean, fun x member gone => ?_, fun asked => ?_⟩
    · rcases update_cases gone with ⟨_, none⟩ | ⟨other, none⟩
      · cases none
      · rcases List.mem_append.mp member with before | new
        · exact usable.begun x before none
        · exact other (usable.clean.received x new).2
    · rw [(ByteQueue.addBytes_contents added).2.2] at asked
      obtain ⟨j, set, going⟩ := usable.owed asked
      have other : j ≠ k := by
        rintro rfl
        rw [reads] at set
        cases set
      exact ⟨j, (Function.update_of_ne other ..).trans set, going⟩

theorem flag_of_takeBody {q q' : ByteQueue} {to_read : Int} {data : List UInt8}
    (took : q.takeBody to_read size = some (data, q')) : q'.ntfUnblock = q.ntfUnblock := by
  simp only [ByteQueue.takeBody, Option.ite_none_right_eq_some, Option.some.injEq,
    Prod.mk.injEq] at took
  obtain ⟨_, _, rfl⟩ := took
  rfl

theorem usable_of_takeBody (usable : Usable socket s) (clean : Clean socket t)
    (ran : Inbound.step maxSub size socket accounts challenge s (.takeBody k) = some t) :
    Usable socket t := by
  cases Inbound.turn_of_step ran with
  | @takeBody _ to_read data queue _ _ _ took =>
    refine ⟨clean, fun x member => ?_, fun asked => ?_⟩
    · have same : (if to_read = 0 then Inbound.decoderMoves s k .testing else s.server).receivers =
          s.server.receivers := by split <;> rfl
      dsimp only
      rw [same]
      exact usable.begun x (List.mem_of_mem_drop member)
    · have flag : queue.ntfUnblock = true := asked
      rw [flag_of_takeBody took] at flag
      obtain ⟨j, notified⟩ := usable.owed flag
      refine ⟨j, ?_⟩
      dsimp only
      split
      · exact notified.moves (by simp)
      · exact notified

theorem usable_step (usable : Usable socket s) (met : Inbound.Consecutive s a)
    (timely : ∀ k, a = .server (.receiverNotify k) → s.server.decoders k ≠ .finished)
    (ran : Inbound.step maxSub size socket accounts challenge s a = some t) : Usable socket t := by
  have clean := Inbound.clean_step usable.clean met ran
  cases Inbound.turn_of_step ran with
  | server => exact usable_of_server usable clean (fun k same => timely k (congrArg _ same)) ran
  | addBytes => exact usable_of_addBytes usable clean ran
  | takeBody => exact usable_of_takeBody usable clean ran
  | restart => exact ⟨clean, by simp, by simp [ByteQueue.notifyRestart]⟩
  | send | authReceive | receive | readHeader => exact ⟨clean, usable.begun, usable.owed⟩
  | unblocked | decode =>
    refine ⟨clean, usable.begun, fun asked => ?_⟩
    obtain ⟨j, notified⟩ := usable.owed asked
    exact ⟨j, notified.moves (by simp)⟩

/-- What the console and a worker that gives up do to the threads. -/
theorem Usable.withServer (usable : Usable socket s) (control : Control next)
    (granted : ∀ k, Inbound.granted (next.workers k) = true →
      Inbound.granted (s.server.workers k) = true)
    (live : ∀ j, Live s.server j → Live next j)
    (threads : next.receivers = s.server.receivers ∧ next.decoders = s.server.decoders) :
    Usable socket { s with server := next } := by
  obtain ⟨receivers, decoders⟩ := threads
  refine ⟨{ usable.clean with
    control := control
    granted := fun passed => usable.clean.granted (granted _ passed)
    queued := fun member => ?_
    buffered := fun held => ?_ }, fun x member => ?_, fun asked => ?_⟩
  · obtain ⟨authentic, lives, going⟩ := usable.clean.queued member
    exact ⟨authentic, live _ lives, by rwa [decoders]⟩
  · rw [receivers]
    exact usable.clean.buffered held
  · rw [receivers]
    exact usable.begun x member
  · simp only [Notified, receivers, decoders]
    exact usable.owed asked

end

variable {s t : State} {a : Action}

/-- The console and the workers that give up start no thread and end none. -/
theorem usable_beside (usable : Usable socket s.inbound)
    (ran : step maxSub size socket accounts challenge s a = some t) (beside : ∀ b, a ≠ .own b) :
    Usable socket t.inbound := by
  have same {next : Server.State} (workers : next.workers = s.server.workers)
      (rest : next.receivers = s.server.receivers ∧ next.decoders = s.server.decoders ∧
        next.running = s.server.running) : Usable socket { s.inbound with server := next } := by
    obtain ⟨receivers, decoders, running⟩ := rest
    refine usable.withServer (usable.clean.control.beside ⟨workers, receivers, decoders, running⟩)
      (fun k passed => by rwa [workers] at passed) (fun j lives => ?_) ⟨receivers, decoders⟩
    rwa [Live, workers, receivers]
  cases turn_of_step ran with
  | own => exact absurd rfl (beside _)
  | @giveUp k stand =>
    refine usable.withServer (usable.clean.control.worker (k := k) (p := .closed) rfl ⟨rfl, rfl, rfl⟩
      (by rw [stand]; exact id) (by simp)) (fun j passed => ?_)
      (fun j lives => lives.keep rfl (by simp [stand]) rfl) ⟨rfl, rfl⟩
    by_cases here : j = k
    · rw [here, stand]
      rfl
    · simpa [here] using passed
  | ask | force | pass | stopSend => exact usable
  | joinReceive | stopped | joinSend => exact same rfl ⟨rfl, rfl, rfl⟩

theorem step_usable (usable : Usable socket s.inbound) (met : Orderly s a)
    (ran : step maxSub size socket accounts challenge s a = some t) : Usable socket t.inbound := by
  by_cases beside : ∀ b, a ≠ .own b
  · exact usable_beside usable ran beside
  · simp only [not_forall, not_not] at beside
    obtain ⟨b, rfl⟩ := beside
    cases turn_of_step ran with
    | own _ moved =>
      exact usable_step usable met.1 (fun k same => by subst same; simpa [inTime] using met.2) moved

theorem reachable_usable (reached : (system maxSub size socket accounts challenge).ReachableBy
    Orderly s) : Usable socket s.inbound := by
  refine reached.invariant ?_ fun s a t usable met ran => step_usable usable met ran
  rintro _ ⟨_, ⟨block, _, rfl⟩, rfl⟩
  exact ⟨Inbound.start_clean block, by simp [Inbound.start], by simp [Inbound.start, ByteQueue.create]⟩

/-- The queue, as a session is to find it. -/
def Fresh (queue : ByteQueue) : Prop := queue.contents = [] ∧ queue.ntfUnblock = false

/-- What a session needs of the queue: it is fresh when its decode thread is about to be created, and
until its own receive thread calls `notify_unblock` no `fetchNextMsg` is turned away. -/
def Serves (s : State) (k : Nat) : Prop :=
  (s.server.workers k = .activated → Fresh s.inbound.queue) ∧
    (Live s.server k → s.server.receivers k ≠ .notified → s.inbound.queue.ntfUnblock = false)

theorem Usable.serves (usable : Usable socket s.inbound) : Serves s k := by
  have control := usable.clean.control
  have unasked (live : Live s.server k) (early : s.server.receivers k ≠ .notified) :
      s.inbound.queue.ntfUnblock = false := by
    by_contra asked
    obtain ⟨j, set, _⟩ := usable.owed (eq_true_of_ne_false asked)
    have own : j = k := control.single (Or.inr (Or.inr (by rw [set]; rfl))) live
    exact early (own ▸ set)
  refine ⟨fun created => ?_, unasked⟩
  have paced := control.paced k
  rw [created] at paced
  have live : Live s.server k := Or.inl created
  refine ⟨?_, unasked live (by simp [paced.2.1])⟩
  rw [← usable.clean.bytes, List.map_eq_nil_iff, List.eq_nil_iff_forall_not_mem]
  intro x member
  have own : x.session = k := control.single (usable.clean.queued member).2.1 live
  exact usable.begun x member (own ▸ paced.2.1)

/-! ## When the flag is set too late -/

/-- `ntf_unblock` is set, and no thread is left to clear it. -/
structure Unserved (s : State) : Prop where
  asked : s.inbound.queue.ntfUnblock = true
  idle : ∀ j, s.server.decoders j = .absent ∨ s.server.decoders j = .finished
  quiet : ∀ j, s.server.workers j ≠ .activated

/-- A session starts. -/
def Action.starts : Action → Bool
  | .own (.server (.activate _)) => true
  | _ => false

theorem unserved_of_late (usable : Usable socket s.inbound)
    (ran : step maxSub size socket accounts challenge s (.own (.server (.receiverNotify k))) = some t)
    (late : s.server.decoders k = .finished) : Unserved t := by
  simp only [step, Option.ite_none_left_eq_some, Inbound.step, Inbound.serverStep] at ran
  obtain ⟨inbound, notified, rfl⟩ := Option.map_eq_some_iff.mp ran.2
  obtain ⟨server, moved, rfl⟩ := Option.map_eq_some_iff.mp notified
  simp only [Server.step, Server.receiverStep, Option.ite_none_right_eq_some,
    Option.some.injEq] at moved
  obtain ⟨cleared, rfl⟩ := moved
  have control := usable.clean.control
  have alive : Live s.server k := Or.inr (Or.inr (by rw [cleared]; rfl))
  refine ⟨rfl, fun j => ?_, fun j activated => ?_⟩
  · change s.server.decoders j = _ ∨ s.server.decoders j = _
    by_cases here : j = k
    · rw [here, late]
      exact Or.inr rfl
    · by_contra going
      rw [not_or] at going
      have paced := control.paced j
      have live : Live s.server j := by
        cases stand : s.server.workers j with
        | activated => exact Or.inl stand
        | decoding => exact Or.inr (Or.inl stand)
        | absent | accepted | authenticating | authenticated | refused =>
          rw [stand] at paced
          exact absurd paced.2 going.1
        | _ =>
          rw [stand] at paced
          refine Or.inr (Or.inr ?_)
          cases reads : s.server.receivers j with
          | absent =>
            rw [reads] at paced
            exact paced.elim
          | finished =>
            rw [reads] at paced
            exact absurd paced going.2
          | _ => rfl
      exact here (control.single live alive)
  · have own : j = k := control.single (Or.inl activated) alive
    have paced := control.paced j
    rw [show s.server.workers j = _ from activated, own, cleared] at paced
    cases paced.2.1

/-- A worker comes in by `accept`, and starts its session by `activate`. -/
theorem workers_of_workerStep (ran : Server.workerStep server b = some next) :
    ∃ k p, next.workers = Function.update server.workers k p ∧
      (server.workers k = .absent → b = .accept k) ∧ (p = .activated → b = .activate k) := by
  cases Server.worker_turn ran with
  | @accept k => exact ⟨k, _, rfl, fun _ => rfl, by simp⟩
  | @activate k stand => exact ⟨k, _, rfl, by simp [stand], fun _ => rfl⟩
  | @test k _ stand | @authenticate k _ stand | @stop k stand =>
    exact ⟨k, _, rfl, by simp [stand], by split <;> simp⟩
  | startDecode stand | startReceive stand | assignReceive stand | startSend stand
  | abandon stand | stopWaited stand | joinReceive stand | stopSend stand | close stand
  | joinSend stand => exact ⟨_, _, rfl, by simp [stand], by simp⟩

theorem idle_of_decoderStep (idle : ∀ j, server.decoders j = .absent ∨ server.decoders j = .finished) :
    Server.decoderStep maxSub server b ≠ some next := by
  intro ran
  cases Server.decoder_turn ran with
  | @decoderTest k stand | @unblocked k stand | @fetch k _ _ stand | @act k _ _ _ _ stand
  | @restart k stand => simpa [stand] using idle k

/-- Decode threads that do not run do nothing, and none is started. -/
theorem idle_of_step (ran : Server.step maxSub server b = some next)
    (idle : ∀ j, server.decoders j = .absent ∨ server.decoders j = .finished)
    (quiet : ∀ j, server.workers j ≠ .activated) : next.decoders = server.decoders := by
  rcases Server.thread_of_step ran with ran | ran | ran | ran | ran | ran
  · rcases (Server.threads_of_workerStep ran).2.1 with same | ⟨k, activated, _⟩
    · exact same
    · exact absurd activated (quiet k)
  · rw [Server.receiverStep_frame ran]
  · exact absurd ran (idle_of_decoderStep idle)
  · rw [Server.senderStep_frame ran]
  · rw [Server.emitStep_frame ran]
  · rw [Server.clientStep_frame ran]

theorem quiet_of_step (ran : Server.step maxSub server b = some next)
    (closed : ∀ k, b ≠ .activate k) (quiet : ∀ j, server.workers j ≠ .activated) :
    ∀ j, next.workers j ≠ .activated := by
  rcases Server.thread_of_step ran with ran | ran | ran | ran | ran | ran
  · obtain ⟨k, p, workers, _, starts⟩ := workers_of_workerStep ran
    intro j activated
    rw [workers] at activated
    rcases update_cases activated with ⟨_, same⟩ | ⟨_, before⟩
    · exact closed k (starts same)
    · exact quiet j before
  · rwa [Server.receiverStep_frame ran]
  · rwa [Server.decoderStep_frame ran]
  · rwa [Server.senderStep_frame ran]
  · rwa [Server.emitStep_frame ran]
  · rwa [Server.clientStep_frame ran]

/-- No decode thread runs. -/
theorem Unserved.stands {d : DecoderPhase} (unserved : Unserved s) (stand : s.server.decoders k = d) :
    d = .absent ∨ d = .finished := stand ▸ unserved.idle k

theorem unserved_of_inbound {inbound : Inbound.State} {a : Inbound.Action} (unserved : Unserved s)
    (closed : ∀ k, a ≠ .server (.activate k))
    (ran : Inbound.step maxSub size socket accounts challenge s.inbound a = some inbound) :
    Unserved { s with inbound := inbound } := by
  cases Inbound.turn_of_step ran with
  | @server b =>
    have moved := (Inbound.beside_of_serverStep ran).1
    have decoders : inbound.server.decoders = s.server.decoders :=
      idle_of_step moved unserved.idle unserved.quiet
    refine ⟨?_, fun j => ?_, quiet_of_step moved (fun k same => closed k (congrArg _ same))
      unserved.quiet⟩
    · rcases flag_of_serverStep ran with same | ⟨k, rfl⟩
      · exact same.trans unserved.asked
      · simp only [Inbound.step, Inbound.serverStep] at ran
        obtain ⟨server, _, rfl⟩ := Option.map_eq_some_iff.mp ran
        rfl
    · change inbound.server.decoders j = _ ∨ inbound.server.decoders j = _
      rw [decoders]
      exact unserved.idle j
  | addBytes _ _ added =>
    exact ⟨(ByteQueue.addBytes_contents added).2.2.trans unserved.asked, unserved.idle, unserved.quiet⟩
  | @restart k block server _ moved =>
    have stepped : Server.decoderStep maxSub s.server (.restart k) = some server := moved
    exact absurd stepped (idle_of_decoderStep unserved.idle)
  | send | authReceive | receive => exact ⟨unserved.asked, unserved.idle, unserved.quiet⟩
  | takeBody fetches | unblocked fetches | readHeader fetches | decode fetches =>
    simpa using unserved.stands fetches

theorem unserved_step (unserved : Unserved s) (closed : a.starts = false)
    (ran : step maxSub size socket accounts challenge s a = some t) : Unserved t := by
  cases turn_of_step ran with
  | own _ moved =>
    refine unserved_of_inbound unserved (fun k same => ?_) moved
    rw [same] at closed
    cases closed
  | giveUp =>
    refine ⟨unserved.asked, unserved.idle, fun j activated => ?_⟩
    rcases update_cases activated with ⟨_, same⟩ | ⟨_, same⟩
    · cases same
    · exact unserved.quiet j same
  | ask | force | pass | joinReceive | stopSend | stopped | joinSend =>
    exact ⟨unserved.asked, unserved.idle, unserved.quiet⟩

/-- The flag stays, until a session finds it. -/
theorem unserved_of_run {as : List Action} (unserved : Unserved s)
    (closed : ∀ a ∈ as, a.starts = false)
    (ran : (system maxSub size socket accounts challenge).run s as = some t) : Unserved t := by
  induction as generalizing s with
  | nil =>
    cases ran
    exact unserved
  | cons a as ih =>
    rw [System.run_cons, Option.bind_eq_some_iff] at ran
    obtain ⟨next, stepped, rest⟩ := ran
    exact ih (unserved_step unserved (closed a (by simp)) stepped)
      (fun b member => closed b (by simp [member])) rest

theorem not_serves_of_unserved (unserved : Unserved s)
    (ran : step maxSub size socket accounts challenge s (.own (.server (.activate k))) = some t) :
    ¬Serves t k := by
  simp only [step, Option.ite_none_left_eq_some, Inbound.step, Inbound.serverStep] at ran
  obtain ⟨inbound, activated, rfl⟩ := Option.map_eq_some_iff.mp ran.2
  obtain ⟨server, moved, rfl⟩ := Option.map_eq_some_iff.mp activated
  simp only [Server.step, Server.workerStep, Option.ite_none_right_eq_some,
    Option.some.injEq] at moved
  obtain ⟨_, rfl⟩ := moved
  intro serves
  have calm : s.inbound.queue.ntfUnblock = false := (serves.1 (Function.update_self ..)).2
  rw [unserved.asked] at calm
  cases calm

/-- **Every session finds a usable queue** in every run that meets the condition; and when
`ntf_unblock` is set too late, the next session that starts does not. -/
theorem usable_queue (reached : (system maxSub size socket accounts challenge).ReachableBy
      Orderly s) :
    (∀ k, Serves s k) ∧
      ∀ k t, step maxSub size socket accounts challenge s (.own (.server (.receiverNotify k))) = some t →
        inTime s (.own (.server (.receiverNotify k))) = false →
          ∀ as u v j, (∀ a ∈ as, a.starts = false) →
          (system maxSub size socket accounts challenge).run t as = some u →
          step maxSub size socket accounts challenge u (.own (.server (.activate j))) = some v →
          ¬Serves v j := by
  have usable := reachable_usable reached
  refine ⟨fun k => usable.serves, fun k t ran late as u v j closed rest started => ?_⟩
  have unserved := unserved_of_late usable ran (by simpa [inTime] using late)
  exact not_serves_of_unserved (unserved_of_run unserved closed rest) started

/-! ## Two sessions -/

def sampleSystem : System State Action :=
  system 0 64 id Inbound.sampleAccounts Inbound.sampleChallenge

def sampleStart : State := ⟨Inbound.start 0 (List.replicate 64 0), false, .idle⟩

/-- Connection `k` logs in. -/
def login (k : Nat) : List Inbound.Action :=
  [.server (.accept k), .server (.test k true), .send k (List.replicate 32 1 ++ List.replicate 48 7),
    .authReceive k 32, .authReceive k 48, .server (.authenticate k true)]

/-- Its session runs, until the receive thread has cleared `server_running`. -/
def served (k : Nat) : List Inbound.Action :=
  [.server (.startDecode k), .server (.startReceive k), .server (.assignReceive k),
    .server (.startSend k), .server (.stop k), .server (.receiverTest k), .server (.disconnect k),
    .server (.receiverClear k)]

/-- The decode thread ends, before or after `notify_unblock` has set the flag. -/
def ending (k : Nat) (late : Bool) : List Inbound.Action :=
  let leaves := [.server (.decoderTest k), .restart k (List.replicate 64 0)]
  (if late then leaves ++ [.server (.receiverNotify k)] else .server (.receiverNotify k) :: leaves) ++
    [.server (.receiverJoin k), .server (.senderTest k), .server (.stopWaited k),
      .server (.joinReceive k), .server (.stopSend k), .server (.joinSend k)]

/-- A replay that starts no session, and keeps `ntf_unblock` in time when `orderly` is set. -/
def replay (orderly : Bool) (s : State) (as : List Inbound.Action) : Option State :=
  sampleSystem.runBy (fun s a => a.starts = false ∧ (orderly = true → inTime s a = true)) s
    (as.map .own)

def firstLogin : Option State := replay true sampleStart (login 0)

theorem logged_in : firstLogin.isSome = true := by decide +kernel

def activated (s : State) (k : Nat) : Option State :=
  sampleSystem.step s (.own (.server (.activate k)))

theorem first_activated : (activated (firstLogin.get logged_in) 0).isSome = true := rfl

def secondLogin (late : Bool) : Option State :=
  replay (!late) ((activated (firstLogin.get logged_in) 0).get first_activated)
    (served 0 ++ ending 0 late ++ login 1)

theorem logged_in_twice (late : Bool) : (secondLogin late).isSome = true := by
  cases late <;> decide +kernel

theorem second_activated (late : Bool) :
    (activated ((secondLogin late).get (logged_in_twice late)) 1).isSome = true := by
  cases late <;> rfl

def secondSession (late : Bool) : State :=
  (activated ((secondLogin late).get (logged_in_twice late)) 1).get (second_activated late)

theorem not_live (starts : server.workers j ≠ .activated ∧ server.workers j ≠ .decoding)
    (ended : (server.receivers j).alive = false) : ¬Live server j := by
  simp [Live, starts, ended]

theorem nobody_first (j : Nat) : ¬Live (firstLogin.get logged_in).server j :=
  match j with
  | 0 => not_live (by decide +kernel) rfl
  | _ + 1 => not_live ⟨by rintro ⟨⟩, by rintro ⟨⟩⟩ rfl

theorem nobody_second (late : Bool) (j : Nat) :
    ¬Live ((secondLogin late).get (logged_in_twice late)).server j :=
  match late, j with
  | true, 0 | false, 0 | true, 1 | false, 1 => not_live (by decide +kernel) rfl
  | true, _ + 2 | false, _ + 2 => not_live ⟨by rintro ⟨⟩, by rintro ⟨⟩⟩ rfl

/-- The second session is reached by one session after the other. -/
theorem second_reached {cond : State → Action → Prop} (late : Bool)
    (weaker : ∀ s a, Successive s a → (late = false → inTime s a = true) → cond s a) :
    sampleSystem.ReachableBy cond (secondSession late) := by
  have start : sampleSystem.ReachableBy cond sampleStart :=
    .init ⟨_, ⟨_, List.length_replicate, rfl⟩, rfl⟩
  have closed : ∀ s (a : Action), a.starts = false → Successive s a := fun s a closed => by
    cases a with
    | own b =>
      cases b with
      | server c => cases c <;> trivial
      | _ => trivial
    | _ => trivial
  have first : sampleSystem.ReachableBy cond (firstLogin.get logged_in) :=
    start.replay (fun s a met => weaker s a (closed s a met.1) fun _ => met.2 rfl)
      (Option.some_get logged_in).symm
  have opened : sampleSystem.ReachableBy cond
      ((activated (firstLogin.get logged_in) 0).get first_activated) :=
    first.step (a := .own (.server (.activate 0))) (weaker _ (.own (.server (.activate 0))) nobody_first
      fun _ => rfl) (Option.some_get first_activated).symm
  have second : sampleSystem.ReachableBy cond ((secondLogin late).get (logged_in_twice late)) :=
    opened.replay (fun s a met => weaker s a (closed s a met.1) fun early => met.2 (by rw [early]; rfl))
      (Option.some_get (logged_in_twice late)).symm
  exact second.step (a := .own (.server (.activate 1)))
    (weaker _ (.own (.server (.activate 1))) (nobody_second late) fun _ => rfl)
    (Option.some_get (second_activated late)).symm

/-- The second session finds the queue that the first one left in time. -/
theorem usable_queue_of_second : (secondSession false).server.workers 1 = .activated ∧
    (secondSession false).server.receivers 0 = .finished ∧
      Fresh (secondSession false).inbound.queue := by
  have reached : sampleSystem.ReachableBy Orderly (secondSession false) :=
    second_reached false fun _ _ successive timely => ⟨successive, timely rfl⟩
  have created : (secondSession false).server.workers 1 = .activated := by decide +kernel
  exact ⟨created, by decide +kernel, ((usable_queue reached).1 1).1 created⟩

/-- **The condition is needed.** The decode thread of the first session sees `server_running` false and
calls `notify_restart` before `notify_unblock` sets the flag; the second session starts with it set. -/
theorem flag_left_set : sampleSystem.ReachableBy Successive (secondSession true) ∧
    (secondSession true).server.workers 1 = .activated ∧ ¬Fresh (secondSession true).inbound.queue := by
  refine ⟨second_reached true fun _ _ successive _ => successive, by decide +kernel, fun fresh => ?_⟩
  have asked : (secondSession true).inbound.queue.ntfUnblock = true := by decide +kernel
  rw [fresh.2] at asked
  cases asked

end DCScan.NextSession
