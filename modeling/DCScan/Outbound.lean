import DCScan.Sessions

/-!
Whose messages the send thread of a session transmits.

`outbound_data_queue` outlives the sessions: `StopThread` stops the send thread and leaves
the queue as it is, whereas the decode thread empties `inbound_bytes` when it ends. What one
session has left there, or an `EmitEvent` has still to push, goes to the next client.
`CleanStart` is the exact condition under which it does not.
-/

namespace DCScan.Server

open Lib Message

variable {maxSub : UInt8} {s t : State} {a : Action} {j k : Nat}

/-- Every message written to a socket was produced in the session of that socket. -/
def Isolated (s : State) : Prop := ∀ x ∈ s.transmitted, x.2.session = some x.1

/-- A session starts with nothing in `outbound_data_queue` and no `EmitEvent` between its test and
its push. -/
def CleanStart (s : State) : Action → Prop
  | .activate _ => s.outbound = [] ∧ s.emitting = []
  | _ => True

/-- All that is queued, or about to be, is of the session that runs. -/
structure Owned (s : State) : Prop where
  queued : ∀ {k m}, s.current = some k → m ∈ s.outbound → m.session = some k
  emitting : ∀ {k x}, s.current = some k → x ∈ s.emitting → x.session = some k
  taken : ∀ {k m}, s.senders k = .sending m → m.session = some k
  isolated : Isolated s

/-- What a step queues, or lets behind `EmitEvent`'s test, is of the session that runs. -/
theorem produced_step {p : Option Nat → Prop} (inv : Sessions s) (inbox : Inbox s)
    (ran : step maxSub s a = some t) (now : p s.current) (queued : ∀ m ∈ s.outbound, p m.session)
    (emitting : ∀ x ∈ s.emitting, p x.session) :
    (∀ m ∈ t.outbound, p m.session) ∧ ∀ x ∈ t.emitting, p x.session := by
  rcases thread_of_step ran with ran | ran | ran | ran | ran | ran
  · rw [workerStep_frame ran]
    exact ⟨queued, emitting⟩
  · rw [receiverStep_frame ran]
    exact ⟨queued, emitting⟩
  · have kept : t.emitting = s.emitting := (congrArg State.emitting (decoderStep_frame ran) :)
    refine ⟨fun m member => ?_, by rw [kept]; exact emitting⟩
    rcases outbound_of_decoderStep ran member with before | ⟨k, x, acting, produced⟩
    · exact queued m before
    · have runs : s.current = some k := inv.alive_serves (Or.inr (Or.inl (by simp [acting])))
      rwa [produced, inbox.taken acting, ← runs]
  · have kept : t.emitting = s.emitting := (congrArg State.emitting (senderStep_frame ran) :)
    exact ⟨fun m member => queued m
      (outbound_of_senderStep ran member), by rw [kept]; exact emitting⟩
  · refine ⟨fun m member => ?_, fun x member => ?_⟩
    · rcases outbound_of_emitStep ran member with before | ⟨x, tested, same⟩
      · exact queued m before
      · rw [same]
        exact emitting x tested
    · rcases emission_of_emitStep ran member with before | ⟨tested, _⟩
      · exact emitting x before
      · rwa [tested]
  · rw [clientStep_frame ran]
    exact ⟨queued, emitting⟩

/-- The send thread of a session takes messages of the session, and writes them to its socket. -/
theorem taken_of_senderStep (owned : Owned s) (inv : Sessions s) (ran : senderStep s a = some t) :
    (∀ {k m}, t.senders k = .sending m → m.session = some k) ∧ Isolated t := by
  have moves : ∀ {k e}, (∀ {m}, e = .sending m → m.session = some k) →
      ∀ {j m}, Function.update s.senders k e j = .sending m → m.session = some j := by
    intro k e own j m taking
    rcases update_cases taking with ⟨rfl, sending⟩ | ⟨_, sending⟩
    · exact own sending
    · exact owned.taken sending
  cases sender_turn ran with
  | senderTest =>
    refine ⟨moves fun sending => ?_, owned.isolated⟩
    split at sending <;> cases sending
  | wake => exact ⟨moves (fun sending => by cases sending), owned.isolated⟩
  | @pop k front rest stand queue =>
    have runs : s.current = some k := inv.alive_serves (Or.inr (Or.inr (by simp [stand])))
    refine ⟨moves fun sending => ?_, owned.isolated⟩
    obtain rfl := SenderPhase.sending.inj sending
    exact owned.queued runs (by simp [queue])
  | transmit stand =>
    refine ⟨moves (fun sending => by cases sending), fun x member => ?_⟩
    rw [List.mem_append, List.mem_singleton] at member
    rcases member with before | rfl
    · exact owned.isolated x before
    · exact owned.taken stand

theorem taken_step (owned : Owned s) (inv : Sessions s) (ran : step maxSub s a = some t) :
    (∀ {k m}, t.senders k = .sending m → m.session = some k) ∧ Isolated t := by
  rcases thread_of_step ran with ran | ran | ran | ran | ran | ran
  · have transmitted : t.transmitted = s.transmitted :=
      (congrArg State.transmitted (workerStep_frame ran) :)
    refine ⟨fun {k m} taking => ?_, by rw [Isolated, transmitted]; exact owned.isolated⟩
    rcases (threads_of_workerStep ran).2.2 with senders | ⟨j, _, senders⟩ <;> rw [senders] at taking
    · exact owned.taken taking
    · rcases update_cases taking with ⟨_, sending⟩ | ⟨_, sending⟩
      · cases sending
      · exact owned.taken sending
  · rw [receiverStep_frame ran]
    exact ⟨owned.taken, owned.isolated⟩
  · rw [decoderStep_frame ran]
    exact ⟨owned.taken, owned.isolated⟩
  · exact taken_of_senderStep owned inv ran
  · rw [emitStep_frame ran]
    exact ⟨owned.taken, owned.isolated⟩
  · rw [clientStep_frame ran]
    exact ⟨owned.taken, owned.isolated⟩

/-- **What is transmitted stays with its session** when each session starts with nothing left over. -/
theorem owned_step (owned : Owned s) (inv : Sessions s) (inbox : Inbox s) (clean : CleanStart s a)
    (ran : step maxSub s a = some t) : Owned t := by
  obtain ⟨queued, emitting⟩ :=
    produced_step (p := fun o => ∀ k, s.current = some k → o = some k) inv inbox ran
    (fun _ => id) (fun _ member _ runs => owned.queued runs member) fun _ member _ runs =>
      owned.emitting runs member
  obtain ⟨taken, isolated⟩ := taken_step owned inv ran
  rcases inv.current_of_step ran with current | ⟨k, rfl, _, _⟩ | ⟨k, _, _, current⟩
  · exact ⟨fun runs member => queued _ member _ (current ▸ runs),
      fun runs member => emitting _ member _ (current ▸ runs), taken, isolated⟩
  · have frame := workerStep_frame (a := .activate k) ran
    have outbound : t.outbound = [] := (congrArg State.outbound frame :).trans clean.1
    have tested : t.emitting = [] := (congrArg State.emitting frame :).trans clean.2
    refine ⟨fun _ member => ?_, fun _ member => ?_, taken, isolated⟩
    · rw [outbound] at member
      cases member
    · rw [tested] at member
      cases member
  · refine ⟨fun runs => ?_, fun runs => ?_, taken, isolated⟩ <;> rw [current] at runs <;> cases runs

theorem start_owned (maxSub : UInt8) : Owned (start maxSub) := by
  constructor <;> simp [start, Isolated]

/-! ## A start that is not clean -/

/-- A session of the connection has started. -/
def WorkerPhase.begun : WorkerPhase → Bool
  | absent | accepted | authenticating | authenticated | refused => false
  | _ => true

theorem begun_of_serves (inv : Sessions s) (runs : s.current = some k) :
    (s.workers k).begun = true := by
  have serves := (inv.current k).mp runs
  cases at_k : s.workers k <;> first | rfl | (rw [at_k] at serves; cases serves)

/-- A worker that has started a session never waits for one again. -/
theorem begun_of_workerStep (ran : workerStep s a = some t) (begun : (s.workers j).begun = true) :
    (t.workers j).begun = true := by
  have moves : ∀ {k p}, ((s.workers k).begun = true → p.begun = true) →
      (Function.update s.workers k p j).begun = true := by
    intro k p after
    by_cases same : j = k
    · rw [same, Function.update_self]
      exact after (same ▸ begun)
    · rwa [Function.update_of_ne same]
  cases worker_turn ran with
  | accept stand | test stand | authenticate stand | activate stand =>
    exact moves fun already => by rw [stand] at already; cases already
  | stop => exact moves fun _ => by split <;> rfl
  | _ => exact moves fun _ => rfl

/-- What is queued, or about to be, is of no session that is still to come. -/
structure Past (s : State) : Prop where
  queued : ∀ {j m}, m ∈ s.outbound → m.session = some j → (s.workers j).begun = true
  emitting : ∀ {j x}, x ∈ s.emitting → x.session = some j → (s.workers j).begun = true

theorem past_step (past : Past s) (inv : Sessions s) (inbox : Inbox s)
    (ran : step maxSub s a = some t) :
    Past t := by
  have begun : ∀ {j}, (s.workers j).begun = true → (t.workers j).begun = true := by
    intro j begun
    rcases thread_of_step ran with ran | ran | ran | ran | ran | ran
    · exact begun_of_workerStep ran begun
    · rwa [receiverStep_frame ran]
    · rwa [decoderStep_frame ran]
    · rwa [senderStep_frame ran]
    · rwa [emitStep_frame ran]
    · rwa [clientStep_frame ran]
  obtain ⟨queued, emitting⟩ :=
    produced_step (p := fun o => ∀ j, o = some j → (s.workers j).begun = true) inv inbox
    ran (fun _ => begun_of_serves inv) (fun _ member _ => past.queued member) fun _ member _ =>
      past.emitting member
  exact ⟨fun member tagged => begun (queued _ member _ tagged),
    fun member tagged => begun (emitting _ member _ tagged)⟩

theorem reachable_past (reached : (system maxSub).ReachableBy Consecutive s) : Past s :=
  reached.invariant_from
    (fun _ before => And.intro (reachable_sessions before fun _ _ => id)
      (reachable_inbox before fun _ _ => id))
    (by rintro _ rfl; constructor <;> simp [start])
    fun _ _ _ known past _ ran => past_step past known.1 known.2 ran

/-- The send thread of a session that has started transmits its first message. -/
def firstTransmission (k : Nat) : List Action := starting k ++ [.senderTest k, .pop k, .transmit k]

theorem front_transmitted (maxSub : UInt8) {m : Outgoing} {rest : List Outgoing}
    (stand : s.workers k = .activated)
    (running : s.running = true) (free : s.sendThread = none) (queue : s.outbound = m :: rest) :
    ∃ t, (system maxSub).runBy Consecutive s (firstTransmission k) = some t ∧
      (k, m) ∈ t.transmitted := by
  simp [firstTransmission, starting, System.runBy, system, step, workerStep, senderStep,
    Consecutive, stand, running, free, queue]

theorem emitted_transmitted (maxSub : UInt8) (mem : Uninit) {x : Emission} {rest : List Emission}
    (stand : s.workers k = .activated)
    (running : s.running = true) (free : s.sendThread = none) (queue : s.outbound = [])
    (next : s.emitting = x :: rest) (fits : x.data.length + 10 < 2 ^ 31) :
    ∃ t msg, (system maxSub).runBy Consecutive s (.emitPush 0 mem :: firstTransmission k) = some t ∧
      (k, ⟨x.session, msg⟩) ∈ t.transmitted := by
  obtain ⟨session, e, evtData⟩ := x
  simp [firstTransmission, starting, System.runBy, system, step, workerStep, senderStep, emitStep,
    Consecutive, stand, running, free, queue, next, eventMessage_eq fits]

/-- What a start that is not clean finds can be the first thing the session transmits. -/
theorem leftover_transmitted (inv : Sessions s) (past : Past s)
    (fits : Emittable s) (ran : step maxSub s (.activate k) = some t)
    (consecutive : Consecutive s (.activate k)) (unclean : ¬CleanStart s (.activate k)) :
    ∃ as u, (system maxSub).runBy Consecutive t as = some u ∧ ¬Isolated u := by
  simp only [step, workerStep, Option.ite_none_right_eq_some, Option.some.injEq] at ran
  obtain ⟨stand, activated⟩ := ran
  have foreign : ¬(s.workers k).begun = true := by simp [stand, WorkerPhase.begun]
  have worker : t.workers k = .activated := by rw [← activated]; exact Function.update_self ..
  have running : t.running = true := by rw [← activated]
  have free : t.sendThread = none := by rw [← activated]; exact inv.sendThread_free consecutive
  have outbound : t.outbound = s.outbound := by rw [← activated]
  have emitting : t.emitting = s.emitting := by rw [← activated]
  cases queue : s.outbound with
  | cons m rest =>
    obtain ⟨u, replayed, sent⟩ :=
      front_transmitted maxSub worker running free (outbound.trans queue)
    exact ⟨_, u, replayed, fun isolated =>
      foreign (past.queued (by simp [queue]) (isolated _ sent))⟩
  | nil =>
    cases next : s.emitting with
    | cons x rest =>
      obtain ⟨u, msg, replayed, sent⟩ :=
        emitted_transmitted maxSub .zeros worker running free
        (outbound.trans queue) (emitting.trans next) (fits x (by simp [next])).2
      exact ⟨_, u, replayed, fun isolated =>
        foreign (past.emitting (by simp [next]) (isolated _ sent))⟩
    | nil => exact absurd ⟨queue, next⟩ unclean

/-- **Session isolation.** In the consecutive sessions whose every start is clean, each message
written to a socket was produced in the session of that socket; a start that is not clean lets
the session transmit what it finds. -/
theorem session_isolation
    (reached : (system maxSub).ReachableBy (fun s a => Consecutive s a ∧ CleanStart s a) s) :
    Isolated s ∧
      ∀ k t, Consecutive s (.activate k) → (system maxSub).step s (.activate k) = some t →
        ¬CleanStart s (.activate k) → ∃ as u, (system maxSub).runBy Consecutive t as = some u ∧
          ¬Isolated u := by
  have consecutive : ∀ s a, Consecutive s a ∧ CleanStart s a → Consecutive s a := fun _ _ =>
    And.left
  have owned : Owned s := reached.invariant_from
    (fun _ before => And.intro (reachable_sessions before consecutive)
      (reachable_inbox before consecutive))
    (by rintro _ rfl; exact start_owned maxSub)
    fun _ _ _ known owned met ran => owned_step owned known.1 known.2 met.2 ran
  refine ⟨owned.isolated, fun k t next ran unclean => ?_⟩
  exact leftover_transmitted (reachable_sessions reached consecutive)
    (reachable_past (reached.mono fun s a _ => consecutive s a))
    (reachable_emittable reached) ran next unclean

/-- Two sessions, each with a request answered in it. -/
theorem session_isolation_of_two_sessions : ∃ s,
    s.transmitted.map (fun x => (x.1, x.2.session)) = [(0, some 0), (1, some 1)] ∧ Isolated s := by
  let request : DefaultMessage := ⟨InternalOperation.SYNC_REQUEST.code, 0, some [0, 0]⟩
  let traffic (k : Nat) : List Action :=
    connecting k ++ starting k ++ handling k request (.ofType 0) .zeros ++
      [.senderTest k, .pop k, .transmit k] ++ ending k
  have replayed : ∃ s, (system 0).ReachableBy (fun s a =>
      (match a with
        | .activate _ => s.current.isNone && s.outbound.isEmpty && s.emitting.isEmpty
        | _ => true) = true) s ∧ s.transmitted.map (fun x => (x.1, x.2.session)) =
          [(0, some 0), (1, some 1)] :=
    System.exists_reachableBy_of_replay (s := start 0) rfl (traffic 0 ++ traffic 1)
      (by decide +kernel)
  obtain ⟨s, reached, seen⟩ := replayed
  refine ⟨s, seen, (session_isolation (reached.mono fun s a _ met => ?_)).1⟩
  cases a with
  | activate k =>
    simp only [Bool.and_eq_true, Option.isNone_iff_eq_none, List.isEmpty_iff] at met
    exact ⟨met.1.1, met.1.2, met.2⟩
  | _ => exact ⟨trivial, trivial⟩

/-- **The condition is needed.** The client of session 0 disconnects while its request is executed;
the send thread of session 0 has ended when the reply is queued, and session 1 transmits it. -/
theorem reply_transmitted_to_next_session :
    ∃ s, (system 0).ReachableBy Consecutive s ∧ ¬Isolated s := by
  let request : DefaultMessage := ⟨InternalOperation.SYNC_REQUEST.code, 0, some [0, 0]⟩
  have replayed : ∃ s, (system 0).ReachableBy Consecutive s ∧
      s.transmitted.map (fun x => (x.1, x.2.session)) = [(1, some 0)] :=
    System.exists_reachableBy_of_replay (s := start 0) rfl
      (connecting 0 ++ starting 0 ++
        [.clientSend 0 request, .receiverTest 0, .receive 0, .decoderTest 0, .fetch 0,
          .receiverTest 0, .disconnect 0,
          .receiverClear 0, .senderTest 0, .act 0 (.ofType 0) .zeros, .decoderTest 0,
          .receiverNotify 0, .restart 0,
          .receiverJoin 0, .stop 0, .stopWaited 0, .joinReceive 0, .stopSend 0, .joinSend 0] ++
        connecting 1 ++ firstTransmission 1) (by decide +kernel)
  obtain ⟨s, reached, seen⟩ := replayed
  refine ⟨s, reached, fun isolated => ?_⟩
  obtain ⟨x, member, pair⟩ := List.mem_map.mp (seen ▸ List.mem_singleton_self _)
  obtain ⟨socket, origin⟩ := Prod.mk.inj pair
  have own := isolated x member
  rw [socket, origin] at own
  cases own

end DCScan.Server
