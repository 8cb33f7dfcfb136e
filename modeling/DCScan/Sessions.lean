import DCScan.Lib.Holder
import DCScan.Server

/-!
The server over consecutive client sessions.

A session lasts from the store of `server_running` in `StartThread` to the return of
`StopThread`. When each one starts only after the one before it has ended, the thread
pointers name the session that runs, and its four threads stand in phases that fit.
-/

namespace DCScan.Server

open Lib Message

variable {maxSub : UInt8} {s t : State} {a : Action} {j k : Nat}

/-- A session starts only when no other one runs. -/
def Consecutive (s : State) : Action → Prop
  | .activate _ => s.current = none
  | _ => True

instance (s : State) (a : Action) : Decidable (Consecutive s a) :=
  match a with
  | .activate _ => inferInstanceAs (Decidable (s.current = none))
  | .accept _ | .test .. | .authenticate .. | .startDecode _ | .startReceive _ | .assignReceive _
  | .startSend _
  | .stop _ | .stopWaited _ | .joinReceive _ | .stopSend _ | .joinSend _ | .clientSend ..
  | .receiverTest _
  | .receive _ | .disconnect _ | .receiverClear _ | .receiverNotify _ | .receiverJoin _
  | .decoderTest _ | .fetch _
  | .act .. | .restart _ | .emitTest .. | .emitPush .. | .senderTest _ | .pop _ | .wake _
  | .transmit _ =>
    inferInstanceAs (Decidable True)

namespace WorkerPhase

/-- The session of the connection runs. -/
def serves : WorkerPhase → Bool
  | activated | decoding | launching | receiving | stopping | waiting | joining
  | stoppingSend | joiningSend => true
  | _ => false

/-- `server_receive_thread` points to the thread of the connection. -/
def holdsReceive : WorkerPhase → Bool
  | receiving | stopping | waiting | joining => true
  | _ => false

/-- `server_send_thread` points to the thread of the connection. -/
def holdsSend : WorkerPhase → Bool
  | stopping | waiting | joining | stoppingSend | joiningSend => true
  | _ => false

theorem serves_of_holdsReceive {p : WorkerPhase} (holds : p.holdsReceive = true) :
    p.serves = true := by
  cases p <;> first | rfl | cases holds

theorem serves_of_holdsSend {p : WorkerPhase} (holds : p.holdsSend = true) : p.serves = true := by
  cases p <;> first | rfl | cases holds

end WorkerPhase

/-- Inside the decode loop. -/
def DecoderPhase.looping : DecoderPhase → Bool
  | testing | fetching | acting _ => true
  | _ => false

/-- How far the decode thread is, given how far the receive thread is that will join it. -/
def Receiving (running : Bool) (d : DecoderPhase) : ReceiverPhase → Prop
  | .absent => False
  | .testing | .reading | .left => running = true ∧ d.looping = true
  | .cleared | .notified => running = false ∧ d ≠ .absent
  | .finished => running = false ∧ d = .finished

/-- Where the threads of a connection stand, given where its worker stands. -/
def Threads (running : Bool) (r : ReceiverPhase) (d : DecoderPhase) (e : SenderPhase) :
    WorkerPhase → Prop
  | .absent | .accepted | .authenticating | .authenticated | .refused =>
    r = .absent ∧ d = .absent ∧ e = .absent
  | .activated => running = true ∧ r = .absent ∧ d = .absent ∧ e = .absent
  | .decoding => running = true ∧ r = .absent ∧ d.looping = true ∧ e = .absent
  | .launching | .receiving => Receiving running d r ∧ e = .absent
  | .stopping | .waiting | .joining => Receiving running d r ∧ e ≠ .absent
  | .stoppingSend | .joiningSend => running = false ∧ r = .finished ∧ d = .finished ∧ e ≠ .absent
  | .closed => r = .finished ∧ d = .finished ∧ e = .finished
  | .abandoned => False

/-- The threads of each connection fit together, and the pointers name the running session's. -/
structure Sessions (s : State) : Prop where
  threads : ∀ k, Threads s.running (s.receivers k) (s.decoders k) (s.senders k) (s.workers k)
  receiveThread : Tracks WorkerPhase.holdsReceive s.workers s.receiveThread
  sendThread : Tracks WorkerPhase.holdsSend s.workers s.sendThread
  current : Tracks WorkerPhase.serves s.workers s.current

theorem start_sessions (maxSub : UInt8) : Sessions (start maxSub) where
  threads _ := ⟨rfl, rfl, rfl⟩
  receiveThread _ := by simp [start, WorkerPhase.holdsReceive]
  sendThread _ := by simp [start, WorkerPhase.holdsSend]
  current _ := by simp [start, WorkerPhase.serves]

/-- Outside a session `server_running` says nothing about the threads. -/
theorem Threads.idle {running running' : Bool} {r : ReceiverPhase} {d : DecoderPhase}
    {e : SenderPhase}
    {w : WorkerPhase} (fit : Threads running r d e w) (idle : w.serves = false) :
    Threads running' r d e w := by
  cases w <;> first | exact fit | cases idle

namespace Sessions

/-- One connection's threads move, and fit again. -/
theorem threads_step {p : WorkerPhase} (inv : Sessions s) (worker : t.workers k = p)
    (own : Threads t.running (t.receivers k) (t.decoders k) (t.senders k) p)
    (others : ∀ j, j ≠ k → t.workers j = s.workers j ∧ t.receivers j = s.receivers j ∧
      t.decoders j = s.decoders j ∧ t.senders j = s.senders j)
    (running : t.running = s.running ∨ ∀ j, j ≠ k → (s.workers j).serves = false) (j : Nat) :
    Threads t.running (t.receivers j) (t.decoders j) (t.senders j) (t.workers j) := by
  by_cases same : j = k
  · rwa [same, worker]
  · obtain ⟨workers, receivers, decoders, senders⟩ := others j same
    rw [workers, receivers, decoders, senders]
    rcases running with kept | idle
    · rw [kept]
      exact inv.threads j
    · exact (inv.threads j).idle (idle j same)

/-- A step under a worker that stays. -/
theorem under_worker (inv : Sessions s) (workers : t.workers = s.workers)
    (receiveThread : t.receiveThread = s.receiveThread) (sendThread : t.sendThread = s.sendThread)
    (current : t.current = s.current)
    (threads : ∀ j, Threads t.running (t.receivers j) (t.decoders j) (t.senders j) (t.workers j)) :
    Sessions t where
  threads := threads
  receiveThread := by rw [workers, receiveThread]; exact inv.receiveThread
  sendThread := by rw [workers, sendThread]; exact inv.sendThread
  current := by rw [workers, current]; exact inv.current

/-- A worker moves to a phase in which it holds what it held, and its threads move with it. -/
theorem with_worker {p : WorkerPhase} (inv : Sessions s)
    (workers : t.workers = Function.update s.workers k p)
    (steady : p.serves = (s.workers k).serves ∧ p.holdsReceive = (s.workers k).holdsReceive ∧
      p.holdsSend = (s.workers k).holdsSend)
    (pointers : t.receiveThread = s.receiveThread ∧ t.sendThread = s.sendThread ∧
      t.current = s.current)
    (threads : ∀ j, Threads t.running (t.receivers j) (t.decoders j) (t.senders j) (t.workers j)) :
    Sessions t := by
  obtain ⟨serves, receives, sends⟩ := steady
  obtain ⟨receiveThread, sendThread, current⟩ := pointers
  exact ⟨threads, workers ▸ receiveThread ▸ inv.receiveThread.move receives,
    workers ▸ sendThread ▸ inv.sendThread.move sends, workers ▸ current ▸ inv.current.move serves⟩

/-- The connection whose worker serves is the current one. -/
theorem current_of (inv : Sessions s) (serves : (s.workers k).serves = true) : s.current = some k :=
  (inv.current k).mpr serves

/-- Before its assignment the receive pointer of the running session is free. -/
theorem receiveThread_none (inv : Sessions s) (serves : (s.workers k).serves = true)
    (before : (s.workers k).holdsReceive = false) : s.receiveThread = none := by
  apply inv.receiveThread.eq_none_of_active inv.current fun _ => WorkerPhase.serves_of_holdsReceive
  intro j runs
  rwa [inv.current.unique ((inv.current j).mp runs) serves]

/-- Before its assignment the send pointer of the running session is free. -/
theorem sendThread_none (inv : Sessions s) (serves : (s.workers k).serves = true)
    (before : (s.workers k).holdsSend = false) : s.sendThread = none := by
  apply inv.sendThread.eq_none_of_active inv.current fun _ => WorkerPhase.serves_of_holdsSend
  intro j runs
  rwa [inv.current.unique ((inv.current j).mp runs) serves]

/-- Between sessions the send pointer is free. -/
theorem sendThread_free (inv : Sessions s) (none_runs : s.current = none) :
    s.sendThread = none := by
  apply inv.sendThread.eq_none_of_active inv.current fun _ => WorkerPhase.serves_of_holdsSend
  rw [none_runs]
  nofun

end Sessions

theorem sessions_of_workerStep (inv : Sessions s) (met : Consecutive s a)
    (ran : workerStep s a = some t) :
    Sessions t := by
  cases worker_turn ran with
  | @accept k stand | @test k _ stand | @authenticate k _ stand =>
    have fit := inv.threads k
    rw [stand] at fit
    refine inv.with_worker (k := k) rfl ?_ ⟨rfl, rfl, rfl⟩
      (inv.threads_step (Function.update_self ..) ?_ (by simp +contextual) (Or.inl rfl))
    · rw [stand]
      first | exact ⟨rfl, rfl, rfl⟩ | (split <;> exact ⟨rfl, rfl, rfl⟩)
    · first | exact fit | (split <;> exact fit)
  | @activate k stand =>
    have fit := inv.threads k
    rw [stand] at fit
    have free : Tracks WorkerPhase.serves s.workers none := met ▸ inv.current
    exact {
      threads := inv.threads_step (Function.update_self ..) ⟨rfl, fit⟩ (by simp +contextual)
        (Or.inr fun j _ => free.none_holds)
      receiveThread := inv.receiveThread.move (by rw [stand]; rfl)
      sendThread := inv.sendThread.move (by rw [stand]; rfl)
      current := free.take rfl }
  | @startDecode k stand =>
    obtain ⟨running, absent, _, unsent⟩ := stand ▸ inv.threads k
    exact inv.with_worker (k := k) rfl (by rw [stand]; exact ⟨rfl, rfl, rfl⟩) ⟨rfl, rfl, rfl⟩
      (inv.threads_step (Function.update_self ..)
        ⟨running, absent, by simp [DecoderPhase.looping], unsent⟩
        (by simp +contextual) (Or.inl rfl))
  | @startReceive k stand =>
    obtain ⟨running, _, looping, unsent⟩ := stand ▸ inv.threads k
    exact inv.with_worker (k := k) rfl (by rw [stand]; exact ⟨rfl, rfl, rfl⟩) ⟨rfl, rfl, rfl⟩
      (inv.threads_step (Function.update_self ..)
        ⟨by simpa [Receiving] using ⟨running, looping⟩, unsent⟩
        (by simp +contextual) (Or.inl rfl))
  | @assignReceive k stand =>
    have fit := inv.threads k
    rw [stand] at fit
    have free := inv.receiveThread_none (k := k) (by rw [stand]; rfl) (by rw [stand]; rfl)
    exact {
      threads := inv.threads_step (Function.update_self ..) fit (by simp +contextual) (Or.inl rfl)
      receiveThread := (free ▸ inv.receiveThread).take rfl
      sendThread := inv.sendThread.move (by rw [stand]; rfl)
      current := inv.current.move (by rw [stand]; rfl) }
  | @startSend k stand free =>
    obtain ⟨receiving, _⟩ := stand ▸ inv.threads k
    exact {
      threads := inv.threads_step (Function.update_self ..) ⟨receiving, by simp⟩
        (by simp +contextual) (Or.inl rfl)
      receiveThread := inv.receiveThread.move (by rw [stand]; rfl)
      sendThread := (free ▸ inv.sendThread).take rfl
      current := inv.current.move (by rw [stand]; rfl) }
  | @abandon k stand occupied =>
    exact absurd (inv.sendThread_none (k := k) (by rw [stand]; rfl) (by rw [stand]; rfl)) occupied
  | @stop k stand =>
    have fit := inv.threads k
    rw [stand] at fit
    have started : s.receiveThread.isSome = true := by
      rw [(inv.receiveThread k).mpr (by rw [stand]; rfl)]
      rfl
    simp only [started, ↓reduceIte]
    exact inv.with_worker (k := k) rfl (by rw [stand]; exact ⟨rfl, rfl, rfl⟩) ⟨rfl, rfl, rfl⟩
      (inv.threads_step (Function.update_self ..) fit (by simp +contextual) (Or.inl rfl))
  | @stopWaited k stand | @stopSend k stand =>
    have fit := inv.threads k
    rw [stand] at fit
    exact inv.with_worker (k := k) rfl (by rw [stand]; exact ⟨rfl, rfl, rfl⟩) ⟨rfl, rfl, rfl⟩
      (inv.threads_step (Function.update_self ..) fit (by simp +contextual) (Or.inl rfl))
  | @close k stand free =>
    have own : s.sendThread = some k := (inv.sendThread k).mpr (by rw [stand]; rfl)
    rw [own] at free
    cases free
  | @joinReceive k j stand pointed ended =>
    have own : s.receiveThread = some k := (inv.receiveThread k).mpr (by rw [stand]; rfl)
    obtain rfl : j = k := Option.some.inj (pointed.symm.trans own)
    obtain ⟨receiving, sending⟩ := stand ▸ inv.threads j
    rw [ended] at receiving
    exact {
      threads := inv.threads_step (Function.update_self ..)
        ⟨receiving.1, ended, receiving.2, sending⟩
        (by simp +contextual) (Or.inl rfl)
      receiveThread := (own ▸ inv.receiveThread).release rfl
      sendThread := inv.sendThread.move (by rw [stand]; rfl)
      current := inv.current.move (by rw [stand]; rfl) }
  | @joinSend k j stand pointed ended =>
    have own : s.sendThread = some k := (inv.sendThread k).mpr (by rw [stand]; rfl)
    obtain rfl : j = k := Option.some.inj (pointed.symm.trans own)
    have runs : s.current = some j := inv.current_of (by rw [stand]; rfl)
    obtain ⟨_, received, decoded, _⟩ := stand ▸ inv.threads j
    exact {
      threads := inv.threads_step (Function.update_self ..) ⟨received, decoded, ended⟩
        (by simp +contextual) (Or.inl rfl)
      receiveThread := inv.receiveThread.move (by rw [stand]; rfl)
      sendThread := (own ▸ inv.sendThread).release rfl
      current := by
        rw [if_pos runs]
        exact (runs ▸ inv.current).release rfl }

/-- A worker starts a session, or ends one, or leaves it as it is. -/
theorem Sessions.current_of_workerStep (inv : Sessions s) (ran : workerStep s a = some t) :
    t.current = s.current ∨
      (∃ k, a = .activate k ∧ s.workers k = .authenticated ∧ t.current = some k) ∨
      ∃ k, a = .joinSend k ∧ s.current = some k ∧ t.current = none := by
  cases worker_turn ran with
  | @activate k stand => exact Or.inr (Or.inl ⟨k, rfl, stand, rfl⟩)
  | @close k stand free =>
    have own : s.sendThread = some k := (inv.sendThread k).mpr (by rw [stand]; rfl)
    rw [own] at free
    cases free
  | @joinSend k _ stand =>
    have runs : s.current = some k := inv.current_of (by rw [stand]; rfl)
    exact Or.inr (Or.inr ⟨k, rfl, runs, if_pos runs⟩)
  | _ => exact Or.inl rfl

theorem Sessions.current_of_step (inv : Sessions s) (ran : step maxSub s a = some t) :
    t.current = s.current ∨
      (∃ k, a = .activate k ∧ s.workers k = .authenticated ∧ t.current = some k) ∨
      ∃ k, a = .joinSend k ∧ s.current = some k ∧ t.current = none := by
  rcases thread_of_step ran with ran | ran | ran | ran | ran | ran
  · exact inv.current_of_workerStep ran
  · exact Or.inl (congrArg State.current (receiverStep_frame ran) :)
  · exact Or.inl (congrArg State.current (decoderStep_frame ran) :)
  · exact Or.inl (congrArg State.current (senderStep_frame ran) :)
  · exact Or.inl (congrArg State.current (emitStep_frame ran) :)
  · exact Or.inl (congrArg State.current (clientStep_frame ran) :)

/-! ## The threads of a session -/

section

variable {running running' : Bool} {r r' : ReceiverPhase} {d d' : DecoderPhase} {e e' : SenderPhase}
  {w : WorkerPhase}

theorem Threads.receiver_moves (fit : Threads running r d e w) (alive : r ≠ .absent ∧ r ≠ .finished)
    (moves : Receiving running d r → Receiving running' d r') : Threads running' r' d e w := by
  obtain ⟨started, unfinished⟩ := alive
  cases w
  case launching | receiving | stopping | waiting | joining => exact ⟨moves fit.1, fit.2⟩
  all_goals simp_all [Threads]

theorem Threads.decoder_moves (fit : Threads running r d e w) (alive : d ≠ .absent ∧ d ≠ .finished)
    (moves : d.looping = true → running = true → d'.looping = true) (started : d' ≠ .absent) :
    Threads running r d' e w := by
  obtain ⟨_, unfinished⟩ := alive
  cases w
  case launching | receiving | stopping | waiting | joining =>
    refine ⟨?_, fit.2⟩
    have receiving := fit.1
    cases r <;> simp_all [Receiving]
  all_goals simp_all [Threads]

theorem Threads.sender_moves (fit : Threads running r d e w) (alive : e ≠ .absent ∧ e ≠ .finished)
    (started : e' ≠ .absent) : Threads running r d e' w := by
  obtain ⟨_, unfinished⟩ := alive
  cases w <;> simp_all [Threads]

/-- The worker of a thread that has not ended is in a session. -/
theorem Threads.serves (fit : Threads running r d e w)
    (alive : (r ≠ .absent ∧ r ≠ .finished) ∨ (d ≠ .absent ∧ d ≠ .finished) ∨
      (e ≠ .absent ∧ e ≠ .finished)) :
    w.serves = true := by
  cases w <;> first | rfl | simp_all [Threads]

end

/-- A thread that has not ended belongs to the running session. -/
theorem Sessions.alive_serves (inv : Sessions s)
    (alive : (s.receivers k ≠ .absent ∧ s.receivers k ≠ .finished) ∨
      (s.decoders k ≠ .absent ∧ s.decoders k ≠ .finished) ∨
      (s.senders k ≠ .absent ∧ s.senders k ≠ .finished)) :
    s.current = some k :=
  inv.current_of ((inv.threads k).serves alive)

/-- The decode thread outlives the loop of the receive thread. -/
theorem Sessions.decoder_of_receiver (inv : Sessions s)
    (loops : s.receivers k = .testing ∨ s.receivers k = .reading ∨ s.receivers k = .left) :
    s.decoders k ≠ .absent ∧ s.decoders k ≠ .finished := by
  have fit := inv.threads k
  rcases loops with stand | stand | stand <;> cases at_k : s.workers k <;>
    simp only [stand, at_k, Threads, Receiving, reduceCtorEq, false_and, and_false] at fit
  all_goals
    have looping := fit.1.2
    constructor <;> intro stops <;> rw [stops] at looping <;> cases looping

theorem Sessions.decoder_current (inv : Sessions s) (looping : (s.decoders k).looping = true) :
    s.current = some k :=
  inv.alive_serves (Or.inr (Or.inl (by constructor <;> intro stops <;> rw [stops] at looping <;>
    cases looping)))

theorem sessions_of_receiverStep (inv : Sessions s) (ran : receiverStep s a = some t) :
    Sessions t := by
  have frame := receiverStep_frame ran
  refine inv.under_worker (congrArg State.workers frame :) (congrArg State.receiveThread frame :)
    (congrArg State.sendThread frame :) (congrArg State.current frame :) ?_
  have moves : ∀ {k r running}, s.receivers k ≠ .absent ∧ s.receivers k ≠ .finished →
      (Receiving s.running (s.decoders k) (s.receivers k) → Receiving running (s.decoders k) r) →
      ∀ j, Threads running (Function.update s.receivers k r j) (s.decoders j) (s.senders j)
        (s.workers j) := by
    intro k r running alive moves
    refine inv.threads_step (k := k)
      (t := { s with receivers := Function.update s.receivers k r, running := running }) rfl
      (by simpa using (inv.threads k).receiver_moves alive moves) (by simp +contextual)
      (Or.inr fun j other => ?_)
    by_contra serves
    rw [Bool.not_eq_false] at serves
    exact other (inv.current.unique serves ((inv.threads k).serves (Or.inl alive)))
  cases receiver_turn ran with
  | receiverTest stand =>
    refine moves (by simp [stand]) ?_
    rw [stand]
    split <;> exact id
  | receive stand | disconnect stand | receiverNotify stand =>
    exact moves (by simp [stand]) (by rw [stand]; exact id)
  | receiverClear stand =>
    refine moves (by simp [stand]) ?_
    rw [stand]
    rintro ⟨_, looping⟩
    exact ⟨rfl, fun absent => by rw [absent] at looping; cases looping⟩
  | receiverJoin stand ended =>
    refine moves (by simp [stand]) ?_
    rw [stand]
    exact fun notified => ⟨notified.1, ended⟩

theorem sessions_of_decoderStep (inv : Sessions s) (ran : decoderStep maxSub s a = some t) :
    Sessions t := by
  have frame := decoderStep_frame ran
  refine inv.under_worker (congrArg State.workers frame :) (congrArg State.receiveThread frame :)
    (congrArg State.sendThread frame :) (congrArg State.current frame :) ?_
  have moves : ∀ {k d}, s.decoders k ≠ .absent ∧ s.decoders k ≠ .finished →
      ((s.decoders k).looping = true → s.running = true → d.looping = true) → d ≠ .absent →
      ∀ j, Threads s.running (s.receivers j) (Function.update s.decoders k d j) (s.senders j)
        (s.workers j) := by
    intro k d alive moves started
    exact inv.threads_step (k := k) (t := { s with decoders := Function.update s.decoders k d }) rfl
      (by simpa using (inv.threads k).decoder_moves alive moves started) (by simp +contextual)
      (Or.inl rfl)
  cases decoder_turn ran with
  | decoderTest stand =>
    refine moves (by simp [stand]) (fun _ running => ?_) ?_
    · simp [running, DecoderPhase.looping]
    · split <;> simp
  | unblocked stand | fetch stand | act stand =>
    exact moves (by simp [stand]) (fun _ _ => rfl) (by simp)
  | restart stand =>
    refine moves (by simp [stand]) (fun looping => ?_) (by simp)
    rw [stand] at looping
    cases looping

theorem sessions_of_senderStep (inv : Sessions s) (ran : senderStep s a = some t) : Sessions t := by
  have frame := senderStep_frame ran
  refine inv.under_worker (congrArg State.workers frame :) (congrArg State.receiveThread frame :)
    (congrArg State.sendThread frame :) (congrArg State.current frame :) ?_
  have moves : ∀ {k e}, s.senders k ≠ .absent ∧ s.senders k ≠ .finished → e ≠ .absent →
      ∀ j, Threads s.running (s.receivers j) (s.decoders j) (Function.update s.senders k e j)
        (s.workers j) := by
    intro k e alive started
    exact inv.threads_step (k := k) (t := { s with senders := Function.update s.senders k e }) rfl
      (by simpa using (inv.threads k).sender_moves alive started) (by simp +contextual) (Or.inl rfl)
  cases sender_turn ran with
  | senderTest stand => exact moves (by simp [stand]) (by split <;> simp)
  | pop stand | wake stand | transmit stand => exact moves (by simp [stand]) (by simp)

/-- **Consecutive sessions stay consecutive.** -/
theorem sessions_step (inv : Sessions s) (met : Consecutive s a) (ran : step maxSub s a = some t) :
    Sessions t := by
  rcases thread_of_step ran with ran | ran | ran | ran | ran | ran
  · exact sessions_of_workerStep inv met ran
  · exact sessions_of_receiverStep inv ran
  · exact sessions_of_decoderStep inv ran
  · exact sessions_of_senderStep inv ran
  · rw [emitStep_frame ran]
    exact inv.under_worker rfl rfl rfl rfl inv.threads
  · rw [clientStep_frame ran]
    exact inv.under_worker rfl rfl rfl rfl inv.threads

/-- Every state of consecutive sessions is one of them. -/
theorem reachable_sessions {cond : State → Action → Prop}
    (reached : (system maxSub).ReachableBy cond s)
    (consecutive : ∀ s a, cond s a → Consecutive s a) : Sessions s :=
  reached.invariant (by rintro _ rfl; exact start_sessions maxSub)
    fun s a _ inv met ran => sessions_step inv (consecutive s a met) ran

/-! ## Schedules of a session -/

/-- A connection arrives and its session starts. -/
def connecting (k : Nat) : List Action :=
  [.accept k, .test k true, .authenticate k true, .activate k]

/-- The threads of the session are started. -/
def starting (k : Nat) : List Action :=
  [.startDecode k, .startReceive k, .assignReceive k, .startSend k]

/-- The client sends a message, and the server decodes it. -/
def handling (k : Nat) (m : DefaultMessage) (r : SVReturn) (mem : Uninit) : List Action :=
  [.clientSend k m, .receiverTest k, .receive k, .decoderTest k, .fetch k, .act k r mem]

/-- The client disconnects, and `StopThread` ends the session. -/
def ending (k : Nat) : List Action :=
  [.receiverTest k, .disconnect k, .receiverClear k, .decoderTest k, .receiverNotify k, .restart k,
    .receiverJoin k,
    .stop k, .stopWaited k, .joinReceive k, .stopSend k, .senderTest k, .joinSend k]

/-! ## The inbound queue -/

/-- What the decode thread of a session takes came over that session's connection. -/
structure Inbox (s : State) : Prop where
  queued : ∀ {m}, m ∈ s.inbound → s.decoders m.origin ≠ .absent ∧ s.decoders m.origin ≠ .finished
  taken : ∀ {k m}, s.decoders k = .acting m → m.origin = k

/-- All that is queued came over the connection of the running session. -/
theorem Inbox.origin_eq (inbox : Inbox s) (inv : Sessions s) {m : Incoming} (queued : m ∈ s.inbound)
    (runs : s.current = some k) : m.origin = k := by
  have owner := inv.alive_serves (Or.inr (Or.inl (inbox.queued queued)))
  rw [owner, Option.some.injEq] at runs
  exact runs

/-- A decode thread moves on in its loop, and nothing is queued. -/
theorem Inbox.move {d : DecoderPhase} (inbox : Inbox s)
    (decoders : t.decoders = Function.update s.decoders k d)
    (unfinished : d ≠ .absent ∧ d ≠ .finished) (own : ∀ {m}, d = .acting m → m.origin = k)
    (inbound : ∀ {m}, m ∈ t.inbound → m ∈ s.inbound) : Inbox t where
  queued := by
    intro m member
    rw [decoders]
    by_cases same : m.origin = k
    · rw [same, Function.update_self]
      exact unfinished
    · rw [Function.update_of_ne same]
      exact inbox.queued (inbound member)
  taken := by
    intro j m taking
    rw [decoders] at taking
    rcases update_cases taking with ⟨rfl, acting⟩ | ⟨_, acting⟩
    · exact own acting
    · exact inbox.taken acting

theorem inbox_of_decoderStep (inbox : Inbox s) (inv : Sessions s)
    (ran : decoderStep maxSub s a = some t) :
    Inbox t := by
  cases decoder_turn ran with
  | decoderTest => split <;> exact inbox.move rfl (by simp) (by simp) id
  | unblocked | act => exact inbox.move rfl (by simp) (by simp) id
  | @fetch k m rest stand _ front =>
    have runs : s.current = some k := inv.alive_serves (Or.inr (Or.inl (by simp [stand])))
    refine inbox.move rfl (by simp) (fun taking => ?_) (fun member => by simp [front, member])
    obtain rfl := DecoderPhase.acting.inj taking
    exact inbox.origin_eq inv (by simp [front]) runs
  | restart =>
    refine ⟨fun member => absurd member List.not_mem_nil, fun taking => ?_⟩
    rcases update_cases taking with ⟨_, acting⟩ | ⟨_, acting⟩
    · cases acting
    · exact inbox.taken acting

theorem inbox_step (inbox : Inbox s) (inv : Sessions s) (ran : step maxSub s a = some t) :
    Inbox t := by
  rcases thread_of_step ran with ran | ran | ran | ran | ran | ran
  · have frame := workerStep_frame ran
    have inbound : t.inbound = s.inbound := (congrArg State.inbound frame :)
    rcases (threads_of_workerStep ran).2.1 with decoders | ⟨k, _, decoders⟩
    · exact ⟨by rw [inbound, decoders]; exact inbox.queued, by rw [decoders]; exact inbox.taken⟩
    · exact inbox.move decoders (by simp) (by simp) (by rw [inbound]; exact id)
  · have decoders : t.decoders = s.decoders := (congrArg State.decoders (receiverStep_frame ran) :)
    refine ⟨fun member => ?_, by rw [decoders]; exact inbox.taken⟩
    rw [decoders]
    rcases inbound_of_receiverStep ran with ⟨inbound, _⟩ | ⟨k, m, rest, stand, _, _, inbound⟩
    · exact inbox.queued (inbound ▸ member)
    · rw [inbound, List.mem_append, List.mem_singleton] at member
      rcases member with queued | rfl
      · exact inbox.queued queued
      · exact inv.decoder_of_receiver (by simp [stand])
  · exact inbox_of_decoderStep inbox inv ran
  · rw [senderStep_frame ran]
    exact ⟨inbox.queued, inbox.taken⟩
  · rw [emitStep_frame ran]
    exact ⟨inbox.queued, inbox.taken⟩
  · rw [clientStep_frame ran]
    exact ⟨inbox.queued, inbox.taken⟩

theorem reachable_inbox {cond : State → Action → Prop}
    (reached : (system maxSub).ReachableBy cond s)
    (consecutive : ∀ s a, cond s a → Consecutive s a) : Inbox s :=
  reached.invariant_from (fun _ before => reachable_sessions before consecutive)
    (by rintro _ rfl; exact ⟨fun member => absurd member List.not_mem_nil, by simp [start]⟩)
    fun _ _ _ inv inbox _ ran => inbox_step inbox inv ran

/-- `EmitEvent` runs for registered events, and with data its message can hold. -/
def Emittable (s : State) : Prop := ∀ x ∈ s.emitting, 1 ≤ x.event ∧ x.data.length + 10 < 2 ^ 31

theorem emittable_step (known : Emittable s) (ran : step maxSub s a = some t) : Emittable t := by
  intro x member
  rcases thread_of_step ran with ran | ran | ran | ran | ran | ran
  · exact known x ((congrArg State.emitting (workerStep_frame ran) :) ▸ member)
  · exact known x ((congrArg State.emitting (receiverStep_frame ran) :) ▸ member)
  · exact known x ((congrArg State.emitting (decoderStep_frame ran) :) ▸ member)
  · exact known x ((congrArg State.emitting (senderStep_frame ran) :) ▸ member)
  · rcases emission_of_emitStep ran member with before | ⟨_, registered⟩
    · exact known x before
    · exact registered
  · exact known x ((congrArg State.emitting (clientStep_frame ran) :) ▸ member)

theorem reachable_emittable {cond : State → Action → Prop}
    (reached : (system maxSub).ReachableBy cond s) :
    Emittable s :=
  reached.invariant (by rintro _ rfl; simp [Emittable, start]) fun _ _ _ known _ ran =>
    emittable_step known ran

end DCScan.Server
