import DCScan.Server

/-!
How many connections the server serves at a time.

`StartThread` tests `server_receive_thread` and assigns it only after `Authenticate`, so two
workers can both find it null. `TestsAlone` is the exact condition on a test under which
they do not, and under it a connection that is accepted has the server to itself.
-/

namespace DCScan.Server

open Lib

variable {maxSub : UInt8} {s t : State} {a : Action} {j k : Nat}

/-- Behind the test of `server_receive_thread` and before its assignment. -/
def WorkerPhase.opening : WorkerPhase → Bool
  | authenticating | authenticated | activated | decoding | launching => true
  | _ => false

/-- Started and not ended. -/
def ReceiverPhase.alive : ReceiverPhase → Bool
  | absent | finished => false
  | _ => true

/-- Connection `k` is being accepted, or has been and its receive thread runs. -/
def Active (s : State) (k : Nat) : Prop := (s.workers k).opening ∨ (s.receivers k).alive

/-- At most one connection is being or has been accepted. -/
def Exclusive (s : State) : Prop := ∀ j k, Active s j → Active s k → j = k

/-- A test finds `server_receive_thread` null only while no worker is between its own test and
the assignment. -/
def TestsAlone (s : State) : Action → Prop
  | .test _ valid => valid → s.receiveThread = none → ∀ j, ¬(s.workers j).opening
  | _ => True

/-- `server_receive_thread` points to the one receive thread that runs, and is null while a worker
is about to start one. -/
structure Guarded (s : State) : Prop where
  opening : ∀ {k}, (s.workers k).opening → s.receiveThread = none
  one : ∀ {j k}, (s.workers j).opening → (s.workers k).opening → j = k
  alive : ∀ {k}, (s.receivers k).alive → s.receiveThread = some k ∨ s.workers k = .launching

/-- A guarded server serves one connection at most. -/
theorem Guarded.exclusive (inv : Guarded s) : Exclusive s := by
  have launched : ∀ {k}, s.workers k = .launching → (s.workers k).opening := fun at_launch => by
    rw [at_launch]; rfl
  have opens : ∀ {j k}, (s.receivers j).alive → (s.workers k).opening → j = k := by
    intro j k alive opening
    rcases inv.alive alive with pointed | launching
    · rw [inv.opening opening] at pointed
      cases pointed
    · exact inv.one (launched launching) opening
  rintro j k (opening | alive) (opening' | alive')
  · exact inv.one opening opening'
  · exact (opens alive' opening).symm
  · exact opens alive opening'
  · rcases inv.alive alive with pointed | launching
    · rcases inv.alive alive' with pointed' | launching'
      · rw [pointed, Option.some.injEq] at pointed'
        exact pointed'
      · exact opens alive (launched launching')
    · exact (opens alive' (launched launching)).symm

/-! ## The steps keep it -/

/-- A step that moves one worker, opens nothing and starts no receive thread. -/
theorem Guarded.move {p : WorkerPhase} (inv : Guarded s)
    (workers : t.workers = Function.update s.workers k p)
    (opens : p.opening → (s.workers k).opening) (behind : s.workers k ≠ .launching)
    (receivers : t.receivers = s.receivers) (pointer : t.receiveThread = s.receiveThread) :
    Guarded t := by
  have before : ∀ {j}, (t.workers j).opening → (s.workers j).opening := by
    intro j opening
    rw [workers] at opening
    by_cases same : j = k
    · subst same
      exact opens (by simpa using opening)
    · simpa [same] using opening
  refine ⟨fun opening => ?_, fun opening opening' => inv.one (before opening)
    (before opening'), fun alive => ?_⟩
  · rw [pointer]
    exact inv.opening (before opening)
  · rw [receivers] at alive
    rw [pointer, workers]
    refine (inv.alive alive).imp_right fun launching => ?_
    rw [Function.update_of_ne (fun same => behind (by rw [← same, launching])), launching]

/-- A step beside the workers that brings no receive thread to life. -/
theorem Guarded.keep (inv : Guarded s) (workers : t.workers = s.workers)
    (pointer : t.receiveThread = s.receiveThread)
    (receivers : ∀ {j}, (t.receivers j).alive → (s.receivers j).alive) : Guarded t where
  opening := by rw [workers, pointer]; exact inv.opening
  one := by rw [workers]; exact inv.one
  alive alive := by rw [workers, pointer]; exact inv.alive (receivers alive)

/-- A receive thread that moves was alive before. -/
theorem alive_of_receiverStep (ran : receiverStep s a = some t) (alive : (t.receivers j).alive) :
    (s.receivers j).alive := by
  obtain ⟨k, p, ⟨started, unfinished⟩, _, moved⟩ := receivers_of_receiverStep ran
  by_cases same : j = k
  · rw [same]
    cases stand : s.receivers k <;>
      first | rfl | exact absurd stand started | exact absurd stand unfinished
  · rwa [moved, Function.update_of_ne same] at alive

/-- A worker that passes its test is the only one behind its test. -/
private theorem Guarded.pass (inv : Guarded s) (null : s.receiveThread = none)
    (alone : ∀ j, ¬(s.workers j).opening) :
    Guarded { s with workers := Function.update s.workers k .authenticating } := by
  have only : ∀ {j}, (Function.update s.workers k .authenticating j).opening → j = k := by
    intro j opening
    by_contra other
    rw [Function.update_of_ne other] at opening
    exact alone j opening
  refine ⟨fun _ => null, fun opening opening' =>
    (only opening).trans (only opening').symm, fun {j} alive => ?_⟩
  rcases inv.alive alive with pointed | launching
  · exact Or.inl pointed
  · exact absurd (by rw [launching]; rfl) (alone j)

/-- The thread starts while its worker is behind the test. -/
private theorem Guarded.launch (inv : Guarded s) (stand : s.workers k = .decoding) :
    Guarded { s with workers := Function.update s.workers k .launching
                     receivers := Function.update s.receivers k .testing } := by
  have behind : (s.workers k).opening := by rw [stand]; rfl
  have before : ∀ {j}, (Function.update s.workers k .launching j).opening →
      (s.workers j).opening := by
    intro j opening
    by_cases same : j = k
    · rwa [same]
    · simpa [same] using opening
  refine ⟨fun opening => inv.opening (before opening), fun opening opening' =>
    inv.one (before opening) (before opening'), fun {j} alive => ?_⟩
  by_cases same : j = k
  · subst same
    exact Or.inr (Function.update_self ..)
  · rcases inv.alive (by simpa [same] using alive) with pointed | launching
    · exact Or.inl pointed
    · exact Or.inr (by simpa [same] using launching)

/-- The assignment ends the opening of the only worker behind its test. -/
private theorem Guarded.assign (inv : Guarded s) (stand : s.workers k = .launching) :
    Guarded { s with workers := Function.update s.workers k .receiving, receiveThread := some k } := by
  have behind : (s.workers k).opening := by rw [stand]; rfl
  have closed : ∀ {j}, ¬(Function.update s.workers k .receiving j).opening := by
    intro j opening
    by_cases same : j = k
    · simp [same, WorkerPhase.opening] at opening
    · exact same (inv.one (by simpa [same] using opening) behind)
  refine ⟨fun opening => absurd opening closed, fun opening =>
    absurd opening closed, fun {j} alive => Or.inl ?_⟩
  rcases inv.alive alive with pointed | launching
  · rw [inv.opening behind] at pointed
    cases pointed
  · have opening : (s.workers j).opening := by rw [launching]; rfl
    rw [inv.one opening behind]

/-- The pointer is cleared when its thread has ended. -/
private theorem Guarded.join (inv : Guarded s) (pointed : s.receiveThread = some j)
    (ended : s.receivers j = .finished) :
    Guarded { s with workers := Function.update s.workers k .stoppingSend, receiveThread := none } := by
  have dead : ∀ {i}, ¬(s.receivers i).alive := by
    intro i alive
    rcases inv.alive alive with same | launching
    · rw [pointed, Option.some.injEq] at same
      rw [← same, ended] at alive
      cases alive
    · rw [inv.opening (by rw [launching]; rfl)] at pointed
      cases pointed
  have before : ∀ {i}, (Function.update s.workers k .stoppingSend i).opening →
      (s.workers i).opening := by
    intro i opening
    by_cases same : i = k
    · simp [same, WorkerPhase.opening] at opening
    · simpa [same] using opening
  exact ⟨fun _ => rfl, fun opening opening' => inv.one (before opening) (before opening'),
    fun alive => absurd alive dead⟩

private theorem guarded_of_workerStep (inv : Guarded s) (met : TestsAlone s a)
    (ran : workerStep s a = some t) :
    Guarded t := by
  cases worker_turn ran with
  | test stand =>
    split
    · rename_i passed
      exact inv.pass passed.2 (met passed.1 passed.2)
    · exact inv.move rfl (by simp [WorkerPhase.opening]) (by simp [stand]) rfl rfl
  | authenticate stand | activate stand | startDecode stand =>
    exact inv.move rfl (fun _ => by rw [stand]; rfl) (by simp [stand]) rfl rfl
  | startReceive stand => exact inv.launch stand
  | assignReceive stand => exact inv.assign stand
  | stop stand =>
    refine inv.move rfl ?_ (by simp [stand]) rfl rfl
    split <;> simp [WorkerPhase.opening]
  | joinReceive _ pointed ended => exact inv.join pointed ended
  | accept stand | startSend stand | abandon stand | stopWaited stand | stopSend stand
  | close stand | joinSend stand =>
    exact inv.move rfl (by simp [WorkerPhase.opening]) (by simp [stand]) rfl rfl

/-- **A guarded server stays guarded** by every step that meets the condition. -/
theorem guarded_step (inv : Guarded s) (met : TestsAlone s a) (ran : step maxSub s a = some t) :
    Guarded t := by
  have same : ∀ {t : State}, t.workers = s.workers → t.receiveThread = s.receiveThread →
      t.receivers = s.receivers → Guarded t := fun workers pointer receivers =>
    inv.keep workers pointer fun alive => receivers ▸ alive
  rcases thread_of_step ran with ran | ran | ran | ran | ran | ran
  · exact guarded_of_workerStep inv met ran
  · have frame := receiverStep_frame ran
    exact inv.keep (congrArg State.workers frame :) (congrArg State.receiveThread frame :)
      (alive_of_receiverStep ran)
  · have frame := decoderStep_frame ran
    exact same (congrArg State.workers frame :) (congrArg State.receiveThread frame :)
      (congrArg State.receivers frame :)
  · have frame := senderStep_frame ran
    exact same (congrArg State.workers frame :) (congrArg State.receiveThread frame :)
      (congrArg State.receivers frame :)
  · have frame := emitStep_frame ran
    exact same (congrArg State.workers frame :) (congrArg State.receiveThread frame :)
      (congrArg State.receivers frame :)
  · have frame := clientStep_frame ran
    exact same (congrArg State.workers frame :) (congrArg State.receiveThread frame :)
      (congrArg State.receivers frame :)

theorem start_guarded (maxSub : UInt8) : Guarded (start maxSub) := by
  constructor <;> simp [start, WorkerPhase.opening, ReceiverPhase.alive]

/-- A test that breaks the condition lets a second connection in. -/
theorem second_of_test (ran : step maxSub s a = some t) (together : ¬TestsAlone s a) :
    ¬Exclusive t := by
  intro exclusive
  cases a with
  | test k valid =>
    simp only [TestsAlone, not_forall, not_not] at together
    obtain ⟨passes, null, j, opening⟩ := together
    simp only [step, workerStep, Option.ite_none_right_eq_some, Option.some.injEq] at ran
    obtain ⟨stand, rfl⟩ := ran
    have other : j ≠ k := by
      rintro rfl
      rw [stand] at opening
      cases opening
    refine other (exclusive j k (Or.inl ?_) (Or.inl ?_))
    · simpa [other] using opening
    · simp [passes, null, WorkerPhase.opening]
  | _ => exact together trivial

/-- **One connection at a time.** In the runs whose every test meets the condition, at most one
connection is being or has been accepted, and one that is tested meanwhile is refused; the
first test that does not meet it lets a second one in. -/
theorem one_connection (reached : (system maxSub).ReachableBy TestsAlone s) :
    Exclusive s ∧
      (∀ k valid t, TestsAlone s (.test k valid) → (system maxSub).step s (.test k valid) = some t →
        (∃ j, Active s j) → t.workers k = .refused) ∧
      ∀ a t, (system maxSub).step s a = some t → (Exclusive t ↔ TestsAlone s a) := by
  have guarded : Guarded s := reached.invariant (by rintro _ rfl; exact start_guarded maxSub)
    fun _ _ _ inv met ran => guarded_step inv met ran
  refine ⟨guarded.exclusive, ?_, fun a t ran =>
    ⟨fun exclusive => ?_, fun met => (guarded_step guarded met ran).exclusive⟩⟩
  · rintro k valid t met ran ⟨j, active⟩
    simp only [system, step, workerStep, Option.ite_none_right_eq_some, Option.some.injEq] at ran
    obtain ⟨_, rfl⟩ := ran
    have fails : ¬(valid ∧ s.receiveThread = none) := by
      rintro ⟨valid, null⟩
      rcases active with opening | alive
      · exact met valid null j opening
      · rcases guarded.alive alive with pointed | launching
        · rw [null] at pointed
          cases pointed
        · exact met valid null j (by rw [launching]; rfl)
    simp [fails]
  · by_contra together
    exact second_of_test ran together exclusive

/-- A connection is accepted, and a second one that arrives is refused. -/
theorem one_connection_refuses_second :
    ∃ s, ((s.receivers 0).alive = true ∧ s.workers 1 = .refused) ∧ Exclusive s := by
  let accepted : State :=
    { start 0 with
      workers := Function.update (Function.update (start 0).workers 0 .accepted) 1 .accepted }
  have arrived : (system 0).ReachableBy TestsAlone accepted :=
    ((System.ReachableBy.init rfl).step (a := Action.accept 0) trivial rfl).step
    (a := Action.accept 1) trivial rfl
  have tested : (system 0).ReachableBy TestsAlone
      { accepted with workers := Function.update accepted.workers 0 .authenticating } := by
    refine arrived.step (a := Action.test 0 true) (fun _ _ j => ?_) rfl
    by_cases first : j = 1
    · simp [accepted, first, WorkerPhase.opening]
    · by_cases zero : j = 0 <;> simp [accepted, start, first, zero, WorkerPhase.opening]
  obtain ⟨s, reached, seen⟩ :=
    tested.exists_replay (p := fun s => (s.receivers 0).alive = true ∧ s.workers 1 = .refused)
    (fun s a (met : (match a with | .test .. => s.receiveThread.isSome | _ => true) = true) => by
      cases a with
      | test => exact fun _ null => by simp [null] at met
      | _ => trivial)
    [.authenticate 0 true, .activate 0, .startDecode 0, .startReceive 0, .assignReceive 0,
      .test 1 true]
    (by decide +kernel)
  exact ⟨s, seen, (one_connection reached).1⟩

/-- **The condition is needed.** Two workers are both in `Authenticate`, and both start a
receive thread. -/
theorem two_connections_authenticated_together : ∃ s, (system 0).Reachable s ∧
    s.receivers 0 = .reading ∧ s.receivers 1 = .reading :=
  System.exists_reachable_of_replay (s := start 0) rfl
    [.accept 0, .accept 1, .test 0 true, .test 1 true, .authenticate 0 true, .authenticate 1 true,
      .activate 0,
      .startDecode 0, .startReceive 0, .assignReceive 0, .activate 1, .startDecode 1,
      .startReceive 1, .receiverTest 0, .receiverTest 1] (by decide +kernel)

end DCScan.Server
