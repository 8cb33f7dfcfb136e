import DCScan.Connections
import DCScan.Inbound
import DCScan.Sessions

/-!
Which bytes the server acts on.

`inbound_bytes` outlives the sessions. What keeps it clean is the order in which a session's threads
end: `Control` says how far the decode thread of a session can be, given its worker and its receive
thread, and that one session runs at a time; `Clean` says where the queued bytes come from.
-/

namespace DCScan.Inbound

open Lib Message
open Server (WorkerPhase ReceiverPhase DecoderPhase)

/-- A session runs: its threads are about to be started, or its receive thread has not ended. -/
def Live (server : Server.State) (k : Nat) : Prop :=
  server.workers k = .activated ∨ server.workers k = .decoding ∨ (server.receivers k).alive = true

/-- A session starts only when no other one runs. -/
def Consecutive (s : State) : Action → Prop
  | .server (.activate _) => ∀ j, ¬Live s.server j
  | _ => True

/-! ## The threads of the sessions -/

/-- How far the threads of a connection are, given where its worker stands. -/
def Paced (running : Bool) (r : ReceiverPhase) (d : DecoderPhase) : WorkerPhase → Prop
  | .absent | .accepted | .authenticating | .authenticated | .refused => r = .absent ∧ d = .absent
  | .activated => running = true ∧ r = .absent ∧ d = .absent
  | .decoding => running = true ∧ r = .absent ∧ d.looping = true
  | _ => match r with
    | .absent => False
    | .testing | .reading | .left => running = true ∧ d.looping = true
    | .cleared | .notified => running = false ∧ d ≠ .absent
    | .finished => d = .finished

structure Control (server : Server.State) : Prop where
  paced : ∀ k, Paced server.running (server.receivers k) (server.decoders k) (server.workers k)
  single : ∀ {j k}, Live server j → Live server k → j = k

variable {server next : Server.State} {b : Server.Action} {maxSub : UInt8} {j k : Nat}

/-- `server_running` says nothing about a session that does not run. -/
theorem Paced.idle {running other : Bool} {r : ReceiverPhase} {d : DecoderPhase} {w : WorkerPhase}
    (paced : Paced running r d w) (early : w ≠ .activated ∧ w ≠ .decoding) (dead : r.alive = false) :
    Paced other r d w := by
  cases w <;> first
    | exact paced
    | exact absurd rfl early.1
    | exact absurd rfl early.2
    | cases r <;> first | exact paced | cases dead

/-- One connection's threads move. -/
theorem Control.move (control : Control server)
    (own : Paced next.running (next.receivers k) (next.decoders k) (next.workers k))
    (others : ∀ j, j ≠ k → next.workers j = server.workers j ∧ next.receivers j = server.receivers j ∧
      next.decoders j = server.decoders j)
    (running : next.running = server.running ∨ ∀ j, j ≠ k → ¬Live server j)
    (live : Live next k → Live server k ∨ ∀ j, ¬Live server j) : Control next := by
  have same {j : Nat} (other : j ≠ k) : Live next j ↔ Live server j := by
    obtain ⟨workers, receivers, _⟩ := others j other
    rw [Live, Live, workers, receivers]
  refine ⟨fun j => ?_, fun {i j} lives lives' => ?_⟩
  · by_cases here : j = k
    · rwa [here]
    · obtain ⟨workers, receivers, decoders⟩ := others j here
      rw [workers, receivers, decoders]
      rcases running with kept | alone
      · rw [kept]
        exact control.paced j
      · have dead := alone j here
        simp only [Live, not_or, Bool.not_eq_true] at dead
        exact (control.paced j).idle ⟨dead.1, dead.2.1⟩ dead.2.2
  · by_cases first : i = k <;> by_cases second : j = k
    · rw [first, second]
    · subst first
      rcases live lives with was | none_lives
      · exact control.single was ((same second).mp lives')
      · exact absurd ((same second).mp lives') (none_lives j)
    · subst second
      rcases live lives' with was | none_lives
      · exact control.single ((same first).mp lives) was
      · exact absurd ((same first).mp lives) (none_lives i)
    · exact control.single ((same first).mp lives) ((same second).mp lives')

/-- A worker moves alone. -/
theorem Control.worker {p : WorkerPhase} (control : Control server)
    (workers : next.workers = Function.update server.workers k p)
    (threads : next.receivers = server.receivers ∧ next.decoders = server.decoders ∧
      next.running = server.running)
    (own : Paced server.running (server.receivers k) (server.decoders k) (server.workers k) →
      Paced server.running (server.receivers k) (server.decoders k) p)
    (early : p ≠ .activated ∧ p ≠ .decoding) : Control next := by
  obtain ⟨receivers, decoders, running⟩ := threads
  refine control.move (k := k) ?_ (fun j other => ?_) (Or.inl running) (fun lives => Or.inl ?_)
  · rw [running, receivers, decoders, workers, Function.update_self]
    exact own (control.paced k)
  · rw [workers, receivers, decoders, Function.update_of_ne other]
    exact ⟨rfl, rfl, rfl⟩
  · rw [Live, workers, Function.update_self, receivers] at lives
    exact Or.inr (Or.inr ((lives.resolve_left early.1).resolve_left early.2))

theorem control_of_workerStep (control : Control server)
    (met : ∀ k, b = .activate k → ∀ j, ¬Live server j)
    (ran : Server.workerStep server b = some next) : Control next := by
  cases Server.worker_turn ran with
  | accept stand | assignReceive stand | startSend stand | abandon stand | stopWaited stand
  | joinReceive stand | stopSend stand | close stand | joinSend stand =>
    exact control.worker rfl ⟨rfl, rfl, rfl⟩ (by rw [stand]; exact id) (by simp)
  | test stand | authenticate stand | stop stand =>
    split <;> exact control.worker rfl ⟨rfl, rfl, rfl⟩ (by rw [stand]; exact id) (by simp)
  | @activate k stand =>
    have paced := control.paced k
    rw [stand] at paced
    exact control.move (k := k) (by simpa [Paced] using paced) (fun j other => by simp [other])
      (Or.inr fun j _ => met k rfl j) fun _ => Or.inr (met k rfl)
  | @startDecode k stand =>
    have paced := control.paced k
    rw [stand] at paced
    exact control.move (k := k) (by simp [Paced, paced.1, paced.2.1, DecoderPhase.looping])
      (fun j other => by simp [other]) (Or.inl rfl) fun _ => Or.inl (Or.inl stand)
  | @startReceive k stand =>
    have paced := control.paced k
    rw [stand] at paced
    exact control.move (k := k) (by simp [Paced, paced.1, paced.2.2])
      (fun j other => by simp [other]) (Or.inl rfl) fun _ => Or.inl (Or.inr (Or.inl stand))

/-- Behind the start of its receive thread a worker tells no more of the threads than they do. -/
theorem Paced.threads {running : Bool} {r : ReceiverPhase} {d : DecoderPhase} {w : WorkerPhase}
    (paced : Paced running r d w) (started : r ≠ .absent) : Paced running r d .receiving := by
  cases w <;> first
    | exact paced
    | exact absurd paced.1 started
    | exact absurd paced.2.1 started

theorem Paced.of_threads {running : Bool} {r r' : ReceiverPhase} {d : DecoderPhase} {w : WorkerPhase}
    (before : Paced running r' d w) (started : r' ≠ .absent)
    {running' : Bool} {d' : DecoderPhase} (paced : Paced running' r d' .receiving) :
    Paced running' r d' w := by
  cases w <;> first
    | exact paced
    | exact absurd before.1 started
    | exact absurd before.2.1 started

/-- A receive thread moves, and no other session runs. -/
theorem Control.receiver {r : ReceiverPhase} (control : Control server)
    (alive : (server.receivers k).alive = true)
    (receivers : next.receivers = Function.update server.receivers k r)
    (others : next.workers = server.workers ∧ next.decoders = server.decoders)
    (own : Paced server.running (server.receivers k) (server.decoders k) .receiving →
      Paced next.running r (server.decoders k) .receiving) : Control next := by
  obtain ⟨workers, decoders⟩ := others
  have started : server.receivers k ≠ .absent := fun gone => by rw [gone] at alive; cases alive
  have live : Live server k := Or.inr (Or.inr alive)
  refine control.move (k := k) ?_ (fun j other => ?_)
    (Or.inr fun j other lives => other (control.single lives live)) fun _ => Or.inl live
  · have paced := control.paced k
    rw [receivers, decoders, workers, Function.update_self]
    exact paced.of_threads started (own (paced.threads started))
  · rw [workers, decoders, receivers, Function.update_of_ne other]
    exact ⟨rfl, rfl, rfl⟩

theorem control_of_receiverStep (control : Control server)
    (ran : Server.receiverStep server b = some next) : Control next := by
  cases Server.receiver_turn ran with
  | @receiverTest k stand =>
    refine control.receiver (k := k) (by rw [stand]; rfl) rfl ⟨rfl, rfl⟩ fun paced => ?_
    rw [stand] at paced
    dsimp only
    split <;> exact paced
  | @receive k _ _ stand | @disconnect k stand | @receiverNotify k stand =>
    exact control.receiver (k := k) (by rw [stand]; rfl) rfl ⟨rfl, rfl⟩ (by rw [stand]; exact id)
  | @receiverClear k stand =>
    refine control.receiver (k := k) (by rw [stand]; rfl) rfl ⟨rfl, rfl⟩ fun paced => ⟨rfl, ?_⟩
    rw [stand] at paced
    intro gone
    rw [gone] at paced
    cases paced.2
  | @receiverJoin k stand ended =>
    exact control.receiver (k := k) (by rw [stand]; rfl) rfl ⟨rfl, rfl⟩ fun _ => ended

/-- Inside its loop a decode thread may stand anywhere. -/
theorem Paced.loops {running : Bool} {r : ReceiverPhase} {d d' : DecoderPhase} {w : WorkerPhase}
    (paced : Paced running r d w) (was : d.looping = true) (loops : d'.looping = true) :
    Paced running r d' w := by
  have started : d' ≠ .absent := fun gone => by rw [gone] at loops; cases loops
  have going : d ≠ .finished := fun gone => by rw [gone] at was; cases was
  have there : d ≠ .absent := fun gone => by rw [gone] at was; cases was
  cases w with
  | absent | accepted | authenticating | authenticated | refused => exact absurd paced.2 there
  | activated => exact absurd paced.2.2 there
  | decoding => exact ⟨paced.1, paced.2.1, loops⟩
  | _ =>
    cases r with
    | absent => exact paced
    | testing | reading | left => exact ⟨paced.1, loops⟩
    | cleared | notified => exact ⟨paced.1, started⟩
    | finished => exact absurd paced going

/-- Behind its loop a decode thread is waited for. -/
theorem Paced.ends {running : Bool} {r : ReceiverPhase} {d d' : DecoderPhase} {w : WorkerPhase}
    (paced : Paced running r d w) (there : d ≠ .absent ∧ d ≠ .finished)
    (out : running = false ∨ d.looping = false) (started : d' ≠ .absent) : Paced running r d' w := by
  have outside : ¬(running = true ∧ d.looping = true) := by
    rintro ⟨runs, loops⟩
    rcases out with halted | left
    · rw [runs] at halted
      cases halted
    · rw [loops] at left
      cases left
  cases w with
  | absent | accepted | authenticating | authenticated | refused => exact absurd paced.2 there.1
  | activated => exact absurd paced.2.2 there.1
  | decoding => exact absurd ⟨paced.1, paced.2.2⟩ outside
  | _ =>
    cases r with
    | absent => exact paced
    | testing | reading | left => exact absurd paced outside
    | cleared | notified => exact ⟨paced.1, started⟩
    | finished => exact absurd paced there.2

/-- A decode thread moves. -/
theorem Control.decoder {d : DecoderPhase} (control : Control server)
    (decoders : next.decoders = Function.update server.decoders k d)
    (others : next.workers = server.workers ∧ next.receivers = server.receivers ∧
      next.running = server.running)
    (own : Paced server.running (server.receivers k) (server.decoders k) (server.workers k) →
      Paced server.running (server.receivers k) d (server.workers k)) : Control next := by
  obtain ⟨workers, receivers, running⟩ := others
  refine control.move (k := k) ?_ (fun j other => ?_) (Or.inl running) fun lives => Or.inl ?_
  · rw [running, receivers, workers, decoders, Function.update_self]
    exact own (control.paced k)
  · rw [workers, receivers, decoders, Function.update_of_ne other]
    exact ⟨rfl, rfl, rfl⟩
  · rwa [Live, workers, receivers] at lives

theorem control_of_decoderStep (control : Control server)
    (ran : Server.decoderStep maxSub server b = some next) : Control next := by
  cases Server.decoder_turn ran with
  | @decoderTest k stand =>
    refine control.decoder (k := k) rfl ⟨rfl, rfl, rfl⟩ fun paced => ?_
    rw [stand] at paced
    split
    · exact paced.loops rfl rfl
    · rename_i halted
      exact paced.ends (by simp) (Or.inl (by simpa using halted)) (by simp)
  | @unblocked k stand | @fetch k _ _ stand | @act k _ _ _ _ stand =>
    exact control.decoder (k := k) rfl ⟨rfl, rfl, rfl⟩ fun paced =>
      paced.loops (by rw [stand]; rfl) rfl
  | @restart k stand =>
    exact control.decoder (k := k) rfl ⟨rfl, rfl, rfl⟩ fun paced =>
      paced.ends (by simp [stand]) (Or.inr (by rw [stand]; rfl)) (by simp)

/-- A step beside the threads of the sessions. -/
theorem Control.beside (control : Control server)
    (same : next.workers = server.workers ∧ next.receivers = server.receivers ∧
      next.decoders = server.decoders ∧ next.running = server.running) : Control next := by
  obtain ⟨workers, receivers, decoders, running⟩ := same
  refine ⟨fun k => ?_, fun lives lives' => ?_⟩
  · rw [workers, receivers, decoders, running]
    exact control.paced k
  · rw [Live, workers, receivers] at lives lives'
    exact control.single lives lives'

/-- **One session at a time**, when each one starts only while none runs. -/
theorem control_step (control : Control server) (met : ∀ k, b = .activate k → ∀ j, ¬Live server j)
    (ran : Server.step maxSub server b = some next) : Control next := by
  rcases Server.thread_of_step ran with ran | ran | ran | ran | ran | ran
  · exact control_of_workerStep control met ran
  · exact control_of_receiverStep control ran
  · exact control_of_decoderStep control ran
  · rw [Server.senderStep_frame ran]
    exact control.beside ⟨rfl, rfl, rfl, rfl⟩
  · rw [Server.emitStep_frame ran]
    exact control.beside ⟨rfl, rfl, rfl, rfl⟩
  · rw [Server.clientStep_frame ran]
    exact control.beside ⟨rfl, rfl, rfl, rfl⟩

/-! ## What a running session keeps -/

/-- The session runs, and its decode thread has not ended. -/
def Decodes (server : Server.State) (k : Nat) : Prop :=
  Live server k ∧ server.decoders k ≠ .finished

/-- A worker that starts no thread ends no session. -/
theorem Live.keep {p : WorkerPhase} (live : Live server j)
    (workers : next.workers = Function.update server.workers k p)
    (elsewhere : server.workers k ≠ .activated ∧ server.workers k ≠ .decoding)
    (receivers : next.receivers = server.receivers) : Live next j := by
  rw [Live, workers, receivers]
  by_cases here : j = k
  · subst here
    exact Or.inr (Or.inr ((live.resolve_left elsewhere.1).resolve_left elsewhere.2))
  · rwa [Function.update_of_ne here]

theorem live_of_workerStep (live : Live server j) (ran : Server.workerStep server b = some next) :
    Live next j := by
  cases Server.worker_turn ran with
  | @startDecode k =>
    by_cases here : j = k
    · exact Or.inr (Or.inl (by simp [here]))
    · simpa [Live, here] using live
  | @startReceive k =>
    by_cases here : j = k
    · exact Or.inr (Or.inr (by simp [here, ReceiverPhase.alive]))
    · simpa [Live, here] using live
  | @activate k =>
    by_cases here : j = k
    · exact Or.inl (by simp [here])
    · simpa [Live, here] using live
  | accept stand | test stand | authenticate stand | assignReceive stand | startSend stand
  | abandon stand | stop stand | stopWaited stand | joinReceive stand | stopSend stand
  | close stand | joinSend stand => exact live.keep rfl (by simp [stand]) rfl

/-- A receive thread that moves lives on until it has joined the decode thread. -/
theorem live_of_receiverStep (decodes : Decodes server j)
    (ran : Server.receiverStep server b = some next) : Live next j := by
  have moved {k : Nat} {r : ReceiverPhase}
      (receivers : next.receivers = Function.update server.receivers k r)
      (workers : next.workers = server.workers) (alive : j = k → r.alive = true) : Live next j := by
    rw [Live, workers, receivers]
    by_cases here : j = k
    · exact Or.inr (Or.inr (by rw [here, Function.update_self, alive here]))
    · rw [Function.update_of_ne here]
      exact decodes.1
  cases Server.receiver_turn ran with
  | receiverTest => exact moved rfl rfl fun _ => by split <;> rfl
  | receiverJoin _ ended => exact moved rfl rfl fun here => absurd (here ▸ ended) decodes.2
  | _ => exact moved rfl rfl fun _ => rfl

/-- Only `notify_restart` ends a decode thread. -/
theorem finished_of_decoderStep (ran : Server.decoderStep maxSub server b = some next)
    (other : ∀ k, b ≠ .restart k) (ended : next.decoders j = .finished) :
    server.decoders j = .finished := by
  have moved {k : Nat} {d : DecoderPhase} (going : d ≠ .finished)
      (decoders : next.decoders = Function.update server.decoders k d) :
      server.decoders j = .finished := by
    rw [decoders] at ended
    rcases update_cases ended with ⟨_, gone⟩ | ⟨_, before⟩
    · exact absurd gone going
    · exact before
  cases Server.decoder_turn ran with
  | decoderTest => exact moved (by split <;> simp) rfl
  | unblocked | fetch | act => exact moved (by simp) rfl
  | @restart k => exact absurd rfl (other k)

theorem finished_of_step (ran : Server.step maxSub server b = some next)
    (other : ∀ k, b ≠ .restart k) (ended : next.decoders j = .finished) :
    server.decoders j = .finished := by
  rcases Server.thread_of_step ran with ran | ran | ran | ran | ran | ran
  · rcases (Server.threads_of_workerStep ran).2.1 with same | ⟨k, _, started⟩
    · rwa [← same]
    · rw [started] at ended
      rcases update_cases ended with ⟨_, gone⟩ | ⟨_, before⟩
      · cases gone
      · exact before
  · rwa [Server.receiverStep_frame ran] at ended
  · exact finished_of_decoderStep ran other ended
  · rwa [Server.senderStep_frame ran] at ended
  · rwa [Server.emitStep_frame ran] at ended
  · rwa [Server.clientStep_frame ran] at ended

theorem decodes_of_step (decodes : Decodes server j) (ran : Server.step maxSub server b = some next)
    (other : ∀ k, b ≠ .restart k) : Decodes next j := by
  refine ⟨?_, fun ended => decodes.2 (finished_of_step ran other ended)⟩
  have same (workers : next.workers = server.workers) (receivers : next.receivers = server.receivers) :
      Live next j := by
    rw [Live, workers, receivers]
    exact decodes.1
  rcases Server.thread_of_step ran with ran | ran | ran | ran | ran | ran
  · exact live_of_workerStep decodes.1 ran
  · exact live_of_receiverStep decodes ran
  · have frame := Server.decoderStep_frame ran
    exact same (congrArg Server.State.workers frame :) (congrArg Server.State.receivers frame :)
  · have frame := Server.senderStep_frame ran
    exact same (congrArg Server.State.workers frame :) (congrArg Server.State.receivers frame :)
  · have frame := Server.emitStep_frame ran
    exact same (congrArg Server.State.workers frame :) (congrArg Server.State.receivers frame :)
  · have frame := Server.clientStep_frame ran
    exact same (congrArg Server.State.workers frame :) (congrArg Server.State.receivers frame :)

/-- A receive thread leaves `ReceiveData` and `addBytes` by its own steps alone. -/
theorem reading_of_receiverStep (ran : Server.receiverStep server b = some next)
    (reads : server.receivers k = .reading) (other : b ≠ .receive k ∧ b ≠ .disconnect k) :
    next.receivers k = .reading := by
  have moved {j : Nat} {r : ReceiverPhase}
      (receivers : next.receivers = Function.update server.receivers j r) (elsewhere : k ≠ j) :
      next.receivers k = .reading := by
    rw [receivers, Function.update_of_ne elsewhere, reads]
  have apart {j : Nat} {r : ReceiverPhase} (stand : server.receivers j = r) (differs : r ≠ .reading) :
      k ≠ j := by
    rintro rfl
    exact differs (stand.symm.trans reads)
  cases Server.receiver_turn ran with
  | receive => exact moved rfl fun same => other.1 (same ▸ rfl)
  | disconnect => exact moved rfl fun same => other.2 (same ▸ rfl)
  | receiverTest stand | receiverClear stand | receiverNotify stand | receiverJoin stand =>
    exact moved rfl (apart stand (by simp))

theorem reading_of_step (control : Control server) (ran : Server.step maxSub server b = some next)
    (reads : server.receivers k = .reading) (other : b ≠ .receive k ∧ b ≠ .disconnect k) :
    next.receivers k = .reading := by
  rcases Server.thread_of_step ran with ran | ran | ran | ran | ran | ran
  · rcases (Server.threads_of_workerStep ran).1 with same | ⟨j, stand, started⟩
    · rw [same, reads]
    · have paced := control.paced j
      rw [stand] at paced
      rw [started, Function.update_of_ne, reads]
      rintro rfl
      rw [reads] at paced
      cases paced.2.1
  · exact reading_of_receiverStep ran reads other
  · rw [Server.decoderStep_frame ran]
    exact reads
  · rw [Server.senderStep_frame ran]
    exact reads
  · rw [Server.emitStep_frame ran]
    exact reads
  · rw [Server.clientStep_frame ran]
    exact reads

/-- `Authenticate` has returned true. -/
def granted : WorkerPhase → Bool
  | .absent | .accepted | .authenticating | .refused => false
  | _ => true

/-- Only `Authenticate` lets a worker on. -/
theorem granted_of_workerStep (ran : Server.workerStep server b = some next)
    (passed : granted (next.workers k) = true) :
    granted (server.workers k) = true ∨ b = .authenticate k true := by
  have moved {j : Nat} {p : WorkerPhase}
      (workers : next.workers = Function.update server.workers j p)
      (was : granted p = true → granted (server.workers j) = true ∨ b = .authenticate j true) :
      granted (server.workers k) = true ∨ b = .authenticate k true := by
    rw [workers] at passed
    by_cases here : k = j
    · subst here
      exact was (by simpa using passed)
    · rw [Function.update_of_ne here] at passed
      exact Or.inl passed
  cases Server.worker_turn ran with
  | accept => exact moved rfl (by rintro ⟨⟩)
  | test => exact moved rfl (by split <;> rintro ⟨⟩)
  | @authenticate _ ok =>
    cases ok with
    | true => exact moved rfl fun _ => Or.inr rfl
    | false => exact moved rfl (by rintro ⟨⟩)
  | activate stand | startDecode stand | startReceive stand | assignReceive stand
  | startSend stand | abandon stand | stop stand | stopWaited stand | joinReceive stand
  | stopSend stand | close stand | joinSend stand =>
    exact moved rfl fun _ => Or.inl (by rw [stand]; rfl)

theorem granted_of_step (ran : Server.step maxSub server b = some next)
    (passed : granted (next.workers k) = true) :
    granted (server.workers k) = true ∨ b = .authenticate k true := by
  have same (workers : next.workers = server.workers) :
      granted (server.workers k) = true ∨ b = .authenticate k true := by
    rw [workers] at passed
    exact Or.inl passed
  rcases Server.thread_of_step ran with ran | ran | ran | ran | ran | ran
  · exact granted_of_workerStep ran passed
  · exact same (congrArg Server.State.workers (Server.receiverStep_frame ran) :)
  · exact same (congrArg Server.State.workers (Server.decoderStep_frame ran) :)
  · exact same (congrArg Server.State.workers (Server.senderStep_frame ran) :)
  · exact same (congrArg Server.State.workers (Server.emitStep_frame ran) :)
  · exact same (congrArg Server.State.workers (Server.clientStep_frame ran) :)

/-! ## Where the queued bytes come from -/

section

variable {size : Nat} {socket : Nat → Nat} {accounts : Accounts} {challenge : Nat → Challenge}
variable {s t : State} {a : Action}

/-- The byte came over the socket of its session, after `Authenticate` had returned true for it. -/
def Authentic (socket : Nat → Nat) (x : Received) : Prop :=
  x.socket = socket x.session ∧ x.authenticated = true

/-- The bytes were received for the session that takes them. -/
def Taken.Own (socket : Nat → Nat) (f : Taken) : Prop :=
  ∀ x ∈ f.bytes, Authentic socket x ∧ x.session = f.session

structure Clean (socket : Nat → Nat) (s : State) : Prop where
  control : Control s.server
  granted : ∀ {k}, granted (s.server.workers k) = true → s.authenticated k = true
  /-- A queued byte is of a session whose decode thread has still to empty the queue. -/
  queued : ∀ {x}, x ∈ s.origins → Authentic socket x ∧ Decodes s.server x.session
  buffered : ∀ {k}, s.buffer k ≠ [] → s.server.receivers k = .reading
  received : ∀ {k}, Taken.Own socket ⟨k, s.buffer k⟩
  handed : ∀ {k}, Taken.Own socket ⟨k, s.hand k⟩
  fetched : ∀ f ∈ s.fetched, f.Own socket
  executed : ∀ f ∈ s.executed, f.Own socket
  bytes : s.origins.map Received.byte = s.queue.contents

theorem Control.live_of_decoder (control : Control server)
    (loops : (server.decoders k).looping = true) : Live server k := by
  have paced := control.paced k
  have there : server.decoders k ≠ .absent := fun gone => by rw [gone] at loops; cases loops
  cases stand : server.workers k with
  | activated => exact Or.inl stand
  | decoding => exact Or.inr (Or.inl stand)
  | absent | accepted | authenticating | authenticated | refused =>
    rw [stand] at paced
    exact absurd paced.2 there
  | _ =>
    rw [stand] at paced
    refine Or.inr (Or.inr ?_)
    cases reads : server.receivers k with
    | absent =>
      rw [reads] at paced
      exact paced.elim
    | finished =>
      rw [reads] at paced
      rw [show server.decoders k = _ from paced] at loops
      cases loops
    | _ => rfl

theorem granted_of_live (control : Control server) (live : Live server k) :
    granted (server.workers k) = true := by
  have paced := control.paced k
  cases stand : server.workers k with
  | absent | accepted | authenticating | refused =>
    rw [stand] at paced
    rw [Live, stand, paced.1] at live
    rcases live with gone | gone | gone <;> cases gone
  | _ => rfl

/-- What the decode thread of a session finds in the queue was received for it. -/
theorem Clean.own (clean : Clean socket s) (loops : (s.server.decoders k).looping = true) :
    Taken.Own socket ⟨k, s.origins⟩ := by
  intro x member
  obtain ⟨authentic, live, _⟩ := clean.queued member
  exact ⟨authentic, clean.control.single live (clean.control.live_of_decoder loops)⟩

/-- What a step of the server's threads changes of the bytes. -/
structure Beside (s : State) (b : Server.Action) (t : State) : Prop where
  frame : t = { s with server := t.server, authenticated := t.authenticated, queue := t.queue,
                       executed := t.executed }
  contents : t.queue.contents = s.queue.contents
  plain : ∀ k, b ≠ .receive k ∧ b ≠ .restart k
  unread : ∀ {k}, b = .disconnect k → s.buffer k = []
  verdict : ∀ {k ok}, b = .authenticate k ok → t.authenticated k = ok
  authenticated : ∀ {k}, (∀ ok, b ≠ .authenticate k ok) → t.authenticated k = s.authenticated k
  executed : t.executed = s.executed ∨ ∃ k, t.executed = s.executed ++ [⟨k, s.hand k⟩]

theorem beside_of_serverStep {b : Server.Action} (ran : serverStep maxSub accounts challenge s b = some t) :
    Server.step maxSub s.server b = some t.server ∧ Beside s b t := by
  unfold serverStep at ran
  split at ran
  case h_1 | h_2 | h_3 | h_4 => cases ran
  case h_5 k ok =>
    rw [Option.ite_none_right_eq_some] at ran
    obtain ⟨server, moved, rfl⟩ := Option.map_eq_some_iff.mp ran.2
    refine ⟨moved, rfl, rfl, fun _ => by simp, nofun, fun same => ?_, fun {j} other => ?_, Or.inl rfl⟩
    · cases same
      exact Function.update_self ..
    · have elsewhere : j ≠ k := by
        rintro rfl
        exact other ok rfl
      exact Function.update_of_ne elsewhere ..
  case h_6 k =>
    rw [Option.ite_none_right_eq_some] at ran
    obtain ⟨server, moved, rfl⟩ := Option.map_eq_some_iff.mp ran.2
    refine ⟨moved, rfl, rfl, fun _ => by simp, fun {j} same => ?_, nofun, fun _ => rfl, Or.inl rfl⟩
    cases same
    exact ran.1
  case h_7 =>
    obtain ⟨server, moved, rfl⟩ := Option.map_eq_some_iff.mp ran
    exact ⟨moved, rfl, rfl, fun _ => by simp, nofun, nofun, fun _ => rfl, Or.inl rfl⟩
  case h_8 k _ _ =>
    split at ran
    · obtain ⟨server, moved, rfl⟩ := Option.map_eq_some_iff.mp ran
      refine ⟨moved, rfl, rfl, fun _ => by simp, nofun, nofun, fun _ => rfl, ?_⟩
      dsimp only
      split
      · exact Or.inr ⟨k, rfl⟩
      · exact Or.inl rfl
    · cases ran
  case h_9 receive fetch restart clientSend authenticate disconnect notify act =>
    obtain ⟨server, moved, rfl⟩ := Option.map_eq_some_iff.mp ran
    exact ⟨moved, rfl, rfl, fun k => ⟨receive k, restart k⟩, fun {k} same => absurd same (disconnect k),
      fun {k ok} same => absurd same (authenticate k ok), fun _ => rfl, Or.inl rfl⟩

theorem clean_of_server {b : Server.Action} (clean : Clean socket s)
    (met : ∀ k, b = .activate k → ∀ j, ¬Live s.server j)
    (ran : Server.step maxSub s.server b = some t.server) (beside : Beside s b t) : Clean socket t := by
  have origins : t.origins = s.origins := (congrArg State.origins beside.frame :)
  have buffer : t.buffer = s.buffer := (congrArg State.buffer beside.frame :)
  have hand : t.hand = s.hand := (congrArg State.hand beside.frame :)
  have fetched : t.fetched = s.fetched := (congrArg State.fetched beside.frame :)
  refine ⟨control_step clean.control met ran, fun {k} passed => ?_, fun {x} member => ?_,
    fun {k} held => ?_, ?_, ?_, ?_, ?_, ?_⟩
  · by_cases other : ∀ ok, b ≠ .authenticate k ok
    · rw [beside.authenticated other]
      exact clean.granted ((granted_of_step ran passed).resolve_right (other true))
    · simp only [not_forall, not_not] at other
      obtain ⟨ok, rfl⟩ := other
      rw [beside.verdict rfl]
      simp only [Server.step, Server.workerStep, Option.ite_none_right_eq_some,
        Option.some.injEq] at ran
      rw [← ran.2] at passed
      cases ok with
      | true => rfl
      | false => simp [granted] at passed
  · rw [origins] at member
    obtain ⟨authentic, decodes⟩ := clean.queued member
    exact ⟨authentic, decodes_of_step decodes ran fun k => (beside.plain k).2⟩
  · rw [buffer] at held
    exact reading_of_step clean.control ran (clean.buffered held)
      ⟨(beside.plain k).1, fun same => held (beside.unread same)⟩
  · rw [buffer]
    exact clean.received
  · rw [hand]
    exact clean.handed
  · rw [fetched]
    exact clean.fetched
  · rcases beside.executed with same | ⟨k, added⟩
    · rw [same]
      exact clean.executed
    · rw [added]
      intro f member
      rcases List.mem_append.mp member with before | last
      · exact clean.executed f before
      · rw [List.mem_singleton.mp last]
        exact clean.handed
  · rw [origins, beside.contents]
    exact clean.bytes

/-- The decode thread moves inside its loop. -/
theorem Control.moves (control : Control s.server) (was : (s.server.decoders k).looping = true)
    {d : DecoderPhase} (loops : d.looping = true) : Control (decoderMoves s k d) :=
  control.decoder (k := k) rfl ⟨rfl, rfl, rfl⟩ fun paced => paced.loops was loops

theorem Decodes.moves (decodes : Decodes s.server j) {d : DecoderPhase} (loops : d.looping = true) :
    Decodes (decoderMoves s k d) j := by
  refine ⟨decodes.1, fun ended => ?_⟩
  rcases update_cases ended with ⟨_, gone⟩ | ⟨_, before⟩
  · rw [gone] at loops
    cases loops
  · exact decodes.2 before

/-- What is true of all queued bytes is true of those that stay. -/
theorem Clean.moves (clean : Clean socket s) (was : (s.server.decoders k).looping = true)
    {d : DecoderPhase} (loops : d.looping = true) : Clean socket { s with server := decoderMoves s k d } :=
  { clean with
    control := clean.control.moves was loops
    queued := fun member => ⟨(clean.queued member).1, (clean.queued member).2.moves loops⟩ }

theorem clean_of_addBytes (clean : Clean socket s)
    (ran : step maxSub size socket accounts challenge s (.addBytes k) = some t) : Clean socket t := by
  cases turn_of_step ran with
  | addBytes reads held added =>
    have alive : (s.server.receivers k).alive = true := by rw [reads]; rfl
    have live {j : Nat} (before : Live s.server j) : Live { s.server with
        receivers := Function.update s.server.receivers k .testing } j := by
      by_cases here : j = k
      · exact Or.inr (Or.inr (by simp [here, ReceiverPhase.alive]))
      · simpa [Live, here] using before
    have going : s.server.decoders k ≠ .finished := by
      have paced := (clean.control.paced k).threads (by simp [reads])
      rw [reads] at paced
      intro ended
      rw [ended] at paced
      cases paced.2
    refine { clean with
      control := clean.control.receiver (k := k) alive rfl ⟨rfl, rfl⟩ (by rw [reads]; exact id)
      queued := fun {x} member => ?_
      buffered := fun {j} held => ?_
      received := fun {j} => ?_
      bytes := ?_ }
    · rcases List.mem_append.mp member with before | new
      · obtain ⟨authentic, lives, unended⟩ := clean.queued before
        exact ⟨authentic, live lives, unended⟩
      · obtain ⟨authentic, own⟩ := clean.received x new
        rw [own]
        exact ⟨authentic, live (Or.inr (Or.inr alive)), going⟩
    · by_cases here : j = k
      · simp [here] at held
      · simp only [Function.update_of_ne here] at held ⊢
        exact clean.buffered held
    · by_cases here : j = k
      · simp [Taken.Own, here]
      · simp only [Function.update_of_ne here]
        exact clean.received
    · rw [List.map_append, clean.bytes, (ByteQueue.addBytes_contents added).1]

theorem clean_of_takeBody (clean : Clean socket s)
    (ran : step maxSub size socket accounts challenge s (.takeBody k) = some t) : Clean socket t := by
  cases turn_of_step ran with
  | @takeBody _ to_read data queue fetches at_body there took =>
    have loops : (s.server.decoders k).looping = true := by rw [fetches]; rfl
    have own : Taken.Own socket ⟨k, s.origins.take (unsigned 64 (ByteQueue.packetSize to_read))⟩ :=
      fun x member => clean.own loops x (List.mem_of_mem_take member)
    have taken : Clean socket { s with
        queue := queue
        origins := s.origins.drop (unsigned 64 (ByteQueue.packetSize to_read))
        hand := Function.update s.hand k (s.origins.take (unsigned 64 (ByteQueue.packetSize to_read)))
        fetched := s.fetched ++ [⟨k, s.origins.take (unsigned 64 (ByteQueue.packetSize to_read))⟩]
        consumer := Function.update s.consumer k
          (if to_read = 0 then .waitHeader else .decoding data) } := by
      refine { clean with
        queued := fun member => clean.queued (List.mem_of_mem_drop member)
        handed := fun {j} => ?_
        fetched := fun f member => ?_
        bytes := ?_ }
      · by_cases here : j = k
        · subst here
          simpa using own
        · simp only [Function.update_of_ne here]
          exact clean.handed
      · rcases List.mem_append.mp member with before | last
        · exact clean.fetched f before
        · rw [List.mem_singleton.mp last]
          exact own
      · rw [List.map_drop, clean.bytes, ByteQueue.contents_of_takeBody there took]
    by_cases empty : to_read = 0
    · simp only [if_pos empty] at taken ⊢
      exact taken.moves loops rfl
    · simp only [if_neg empty] at taken ⊢
      exact taken

theorem clean_of_restart {block : List UInt8} (clean : Clean socket s)
    (ran : step maxSub size socket accounts challenge s (.restart k block) = some t) :
    Clean socket t := by
  cases turn_of_step ran with
  | restart fresh moved =>
    refine { clean with
      control := control_step (b := .restart k) clean.control nofun moved
      granted := fun passed =>
        clean.granted ((granted_of_step moved passed).resolve_right nofun)
      queued := nofun
      buffered := fun held => reading_of_step clean.control moved (clean.buffered held) ⟨nofun, nofun⟩
      bytes := ?_ }
    simp [ByteQueue.contents, ByteQueue.notifyRestart]

theorem clean_step (clean : Clean socket s) (met : Consecutive s a)
    (ran : step maxSub size socket accounts challenge s a = some t) : Clean socket t := by
  cases turn_of_step ran with
  | addBytes => exact clean_of_addBytes clean ran
  | takeBody => exact clean_of_takeBody clean ran
  | restart => exact clean_of_restart clean ran
  | server =>
    obtain ⟨moved, beside⟩ := beside_of_serverStep ran
    exact clean_of_server clean (fun k same => by rw [same] at met; exact met) moved beside
  | send | authReceive | readHeader => exact { clean with }
  | unblocked fetches => exact clean.moves (by rw [fetches]; rfl) rfl
  | @receive k n reads =>
    have live : Live s.server k := Or.inr (Or.inr (by rw [reads]; rfl))
    have passed := clean.granted (granted_of_live clean.control live)
    refine { clean with buffered := fun {j} held => ?_, received := fun {j} => ?_ }
    · by_cases here : j = k
      · rw [here]
        exact reads
      · simp only [Function.update_of_ne here] at held
        exact clean.buffered held
    · by_cases here : j = k
      · subst here
        intro x member
        simp only [Function.update_self, List.mem_map] at member
        obtain ⟨byte, _, rfl⟩ := member
        exact ⟨⟨rfl, passed⟩, rfl⟩
      · simp only [Function.update_of_ne here]
        exact clean.received
  | @decode k _ _ msg fetches =>
    have inside := clean.moves (k := k) (d := .acting ⟨k, msg⟩) (by rw [fetches]; rfl) rfl
    exact { inside with }

theorem start_clean (block : List UInt8) : Clean socket (start maxSub block) := by
  refine ⟨⟨fun _ => ⟨rfl, rfl⟩, ?_⟩, nofun, nofun, fun held => absurd rfl held, nofun, nofun, nofun,
    nofun, ?_⟩
  · rintro j k (gone | gone | gone) <;> cases gone
  · simp [start, ByteQueue.create, ByteQueue.contents]

/-- **Only authenticated bytes of the running session are acted on.** Over consecutive sessions,
whatever ends them, every byte that `fetchNextMsg` takes or `Registry::Execute` is called on was
received over the socket of the session whose decode thread takes it, after `Authenticate` had
returned true for that session; so is every byte that this thread finds in the queue. -/
theorem only_authenticated (reached : (system maxSub size socket accounts challenge).ReachableBy
      Consecutive s) :
    (∀ f ∈ s.fetched, f.Own socket) ∧ (∀ f ∈ s.executed, f.Own socket) ∧
      s.origins.map Received.byte = s.queue.contents ∧
      ∀ k, (s.server.decoders k).looping = true → Taken.Own socket ⟨k, s.origins⟩ := by
  have clean : Clean socket s :=
    reached.invariant (by rintro _ ⟨block, _, rfl⟩; exact start_clean block)
      fun s a t clean met ran => clean_step clean met ran
  exact ⟨clean.fetched, clean.executed, clean.bytes, fun k => clean.own⟩

end

/-! ## A run -/

/-- One user, whose name is 32 ones, and a cipher with one output. -/
def sampleAccounts : Accounts where
  GetUser name := if name = List.replicate 32 1 then some [] else none
  SHA256Str _ := []
  EncryptAES256 _ _ _ := List.replicate 32 7
  tag _ _ _ := List.replicate 16 0

def sampleChallenge (_ : Nat) : Challenge :=
  ⟨List.replicate 32 0, List.replicate 16 0, List.length_replicate, List.length_replicate⟩

def sampleSystem : System State Action := system 0 64 id sampleAccounts sampleChallenge

/-- A step that starts no session. -/
def opens : Action → Bool
  | .server (.activate _) => true
  | _ => false

/-- Connection 0 fails to log in, connection 1 logs in. -/
def loggingIn : List Action :=
  [.server (.accept 0), .server (.test 0 true), .send 0 (List.replicate 40 0), .authReceive 0 32,
    .server (.authenticate 0 false), .server (.accept 1), .server (.test 1 true),
    .send 1 (List.replicate 32 1 ++ List.replicate 48 7), .authReceive 1 32, .authReceive 1 48,
    .server (.authenticate 1 true)]

/-- The session of connection 1 executes a request. -/
def requesting : List Action :=
  [.server (.startDecode 1), .server (.startReceive 1), .send 1 (frame ⟨3, 0, some [0]⟩),
    .server (.receiverTest 1), .receive 1 14, .addBytes 1, .server (.decoderTest 1), .readHeader 1,
    .takeBody 1, .decode 1 .zeros, .server (.act 1 (.ofType 0) .zeros)]

theorem logs_in : (sampleSystem.runBy (fun _ a => opens a = false) (start 0 (List.replicate 64 0))
    loggingIn).isSome = true := by decide +kernel

def loggedIn : State := Option.get _ logs_in

theorem activates : (sampleSystem.step loggedIn (.server (.activate 1))).isSome = true := rfl

/-- The request that is executed was sent after the login. -/
theorem only_authenticated_request : ∃ s : State, (s.fetched.length = 1 ∧ s.executed.length = 1) ∧
    ∀ f ∈ s.executed, f.Own id := by
  have first : sampleSystem.ReachableBy Consecutive (start 0 (List.replicate 64 0)) :=
    .init ⟨_, List.length_replicate, rfl⟩
  have closed : ∀ s a, opens a = false → Consecutive s a := fun s a closed => by
    cases a with
    | server b => cases b <;> trivial
    | _ => trivial
  have reached : sampleSystem.ReachableBy Consecutive loggedIn :=
    first.replay closed (Option.some_get logs_in).symm
  have workers : loggedIn.server.workers = Function.update (Function.update (Function.update
      (Function.update (Function.update (Function.update (fun _ => WorkerPhase.absent)
        0 .accepted) 0 .authenticating) 0 .refused) 1 .accepted) 1 .authenticating) 1 .authenticated :=
    rfl
  have receivers : loggedIn.server.receivers = fun _ => .absent := rfl
  have idle : ∀ j, ¬Live loggedIn.server j := by
    intro j
    rw [Live, workers, receivers]
    by_cases one : j = 1
    · simp [one, ReceiverPhase.alive]
    · by_cases zero : j = 0 <;> simp [one, zero, ReceiverPhase.alive]
  have opened : sampleSystem.ReachableBy Consecutive (Option.get _ activates) :=
    .step (a := .server (.activate 1)) reached idle (Option.some_get activates).symm
  have acted : ∃ s, sampleSystem.ReachableBy Consecutive s ∧
      (s.fetched.length = 1 ∧ s.executed.length = 1) :=
    opened.exists_replay closed requesting (by decide +kernel)
  obtain ⟨s, reached, seen⟩ := acted
  exact ⟨s, seen, (only_authenticated reached).2.1⟩

end DCScan.Inbound
