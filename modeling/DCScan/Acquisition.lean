import DCScan.ConsumerLoop

/-!
Acquisitions, one after another, over the one queue `dcs_task_data`.

Each acquisition starts a thread of its own for `DCSCountEvent`, which is the consumer of
`ConsumerLoop`; the NI callbacks push to the queue. The queue outlives the acquisitions: what the
loop leaves in it is there when the next one starts.
-/

namespace DCScan.Acquisition

open Lib

section

variable {δ : Type}

/-- `DCSCountEvent` over `GetLastDCS_IVD`. `rest` stands for the other fields of an `EventData`; those
of `ivd_nu` are not written. -/
def dcsLoop (rest : δ) : Loop (EventData × δ) :=
  ⟨(ConsumerLoop.countEventLoop.nothing, rest), fun ivd => ConsumerLoop.countEventLoop.guard ivd.1⟩

structure State (δ : Type) where
  /-- `evt_loop_sig`, `dcs_task_data` and the two threads; `handled` is what is emitted. -/
  loop : ConsumerLoop.State (EventData × δ)
  /-- What the callbacks have pushed in the last acquisition, before it was stopped. -/
  acquired : List (EventData × δ)

inductive Action (δ : Type) where
  | StartEventLoop
  /-- A step of the loop, of a callback or of `StopEventLoop`. -/
  | loop (a : ConsumerLoop.Action (EventData × δ))

/-- A push counts for the acquisition until it is stopped. -/
def State.acquire (s : State δ) : ConsumerLoop.Action (EventData × δ) → List (EventData × δ)
  | .push x => if s.loop.stopper = .working then s.acquired ++ [x] else s.acquired
  | _ => s.acquired

def step (rest : δ) (s : State δ) : Action δ → Option (State δ)
  | .StartEventLoop =>
    if s.loop.stopper = .done then
      some ⟨⟨true, s.loop.queue, s.loop.pending, .testing, .working, s.loop.queue, []⟩, []⟩
    else none
  | .loop a => (ConsumerLoop.step (dcsLoop rest) s.loop a).map fun loop => ⟨loop, s.acquire a⟩

/-- Before the first acquisition. -/
def idle : State δ := ⟨⟨false, [], 0, .finished, .done, [], []⟩, []⟩

def system (rest : δ) : System (State δ) (Action δ) where
  init s := s = idle
  step := step rest

/-- What an acquisition emits is what it has acquired, in the order of the pushes, and all of it when
it has stopped. -/
def Delivered (s : State δ) : Prop :=
  s.loop.handled <+: s.acquired ∧ (s.loop.stopper = .done → s.loop.handled = s.acquired)

/-- The loop ends on an empty queue; nothing is pushed but during an acquisition, and no event counts
the number that stands for none. -/
def InTime (rest : δ) (s : State δ) : Action δ → Prop
  | .loop .test => s.loop.running = false → s.loop.queue = []
  | .loop (.push x) => s.loop.stopper = .working ∧ (dcsLoop rest).guard x = false
  | _ => True

/-! ## The invariant -/

variable {rest : δ} {s t : State δ} {a : Action δ}

structure Inv (rest : δ) (s : State δ) : Prop where
  kept : ConsumerLoop.Kept (dcsLoop rest) s.loop
  pushed : s.loop.pushed = s.acquired
  counted : ∀ x ∈ s.acquired, (dcsLoop rest).guard x = false
  /-- Until it is stopped, an acquisition runs. -/
  runs : s.loop.stopper = .working → s.loop.running = true
  emptied : s.loop.consumer = .finished → s.loop.queue = [] ∧ s.loop.stopper ≠ .working
  joined : s.loop.stopper = .done → s.loop.consumer = .finished

theorem guards_none (rest : δ) : (dcsLoop rest).guard (dcsLoop rest).nothing = true :=
  ConsumerLoop.guards_nothing.2.2

theorem Inv.delivered (inv : Inv rest s) : Delivered s := by
  have all : s.loop.pushed.filter (!(dcsLoop rest).guard ·) = s.acquired := by
    rw [inv.pushed]
    exact List.filter_eq_self.mpr fun x member => by simp [inv.counted x member]
  have kept := inv.kept
  rw [ConsumerLoop.Kept, all] at kept
  refine ⟨⟨_, kept.symm⟩, fun done => ?_⟩
  have finished := inv.joined done
  rw [finished, (inv.emptied finished).1] at kept
  simpa [ConsumerLoop.Consumer.inHand] using kept.symm

theorem inv_idle : Inv rest (idle : State δ) where
  kept := rfl
  pushed := rfl
  counted _ member := by cases member
  runs stands := by cases stands
  emptied _ := ⟨rfl, by rintro ⟨⟩⟩
  joined _ := rfl

/-- An acquisition starts on what the one before has left, which is nothing. -/
theorem Inv.start (inv : Inv rest s) (done : s.loop.stopper = .done) :
    Inv rest ⟨⟨true, s.loop.queue, s.loop.pending, .testing, .working, s.loop.queue, []⟩, []⟩ := by
  have empty := (inv.emptied (inv.joined done)).1
  rw [empty]
  constructor
  · rfl
  · rfl
  · exact fun _ member => by cases member
  · exact fun _ => rfl
  · rintro ⟨⟩
  · rintro ⟨⟩

theorem finished_of_wake {c : ConsumerLoop.Consumer (EventData × δ)} (ended : c.wake = .finished) :
    c = .finished := by
  cases c <;> first | rfl | cases ended

/-- A step of the loop that does not end it. -/
theorem Inv.goes_on (inv : Inv rest s) {loop : ConsumerLoop.State (EventData × δ)}
    (kept : ConsumerLoop.Kept (dcsLoop rest) loop) (stand : s.loop.consumer ≠ .finished)
    (running : loop.running = s.loop.running) (stopper : loop.stopper = s.loop.stopper)
    (pushed : loop.pushed = s.loop.pushed) (still : loop.consumer ≠ .finished) :
    Inv rest ⟨loop, s.acquired⟩ where
  kept := kept
  pushed := pushed.trans inv.pushed
  counted := inv.counted
  runs works := running.trans (inv.runs (stopper.symm.trans works))
  emptied ended := absurd ended still
  joined done := absurd (inv.joined (stopper.symm.trans done)) stand

/-- A step of `StopEventLoop`. -/
theorem Inv.stops (inv : Inv rest s) {loop : ConsumerLoop.State (EventData × δ)}
    (kept : ConsumerLoop.Kept (dcsLoop rest) loop) (queue : loop.queue = s.loop.queue)
    (pushed : loop.pushed = s.loop.pushed) (stopped : loop.stopper ≠ .working)
    (ends : loop.consumer = .finished → s.loop.consumer = .finished)
    (joined : loop.stopper = .done → loop.consumer = .finished) : Inv rest ⟨loop, s.acquired⟩ where
  kept := kept
  pushed := pushed.trans inv.pushed
  counted := inv.counted
  runs works := absurd works stopped
  emptied ended := ⟨queue.trans (inv.emptied (ends ended)).1, stopped⟩
  joined := joined

/-- A step of the loop, a callback or the stopper, in time. -/
theorem Inv.loop (inv : Inv rest s) {b : ConsumerLoop.Action (EventData × δ)}
    {loop : ConsumerLoop.State (EventData × δ)} (met : InTime rest s (.loop b))
    (ran : ConsumerLoop.step (dcsLoop rest) s.loop b = some loop) :
    Inv rest ⟨loop, s.acquire b⟩ := by
  have kept := ConsumerLoop.kept_step (guards_none rest) inv.kept ran
  cases ConsumerLoop.turn_of_step ran with
  | test stand =>
    refine ⟨kept, inv.pushed, inv.counted, inv.runs, fun ended => ?_, fun done => ?_⟩
    · cases flag : s.loop.running with
      | true => simp [flag] at ended
      | false => exact ⟨met flag, fun works => by simp [inv.runs works] at flag⟩
    · rw [inv.joined done] at stand
      cases stand
  | enter_empty stand | block stand | spurious stand | handle stand =>
    exact inv.goes_on kept (by simp [stand]) rfl rfl rfl (by simp)
  | enter stand | resume stand =>
    obtain ⟨x, hands⟩ := ConsumerLoop.pop_consumer (dcsLoop rest) s.loop
    exact inv.goes_on kept (by simp [stand]) (by simp) (by simp) (by simp) (by simp [hands])
  | push =>
    obtain ⟨works, counts⟩ := met
    refine ⟨kept, ?_, ?_, inv.runs, fun ended => absurd works (inv.emptied ended).2,
      fun done => ?_⟩
    · simp [State.acquire, works, inv.pushed]
    · simp only [State.acquire, works, if_true, List.mem_append, List.mem_singleton]
      rintro y (old | rfl)
      · exact inv.counted y old
      · exact counts
    · rw [show s.loop.stopper = .done from done] at works
      cases works
  | notify =>
    exact ⟨kept, inv.pushed, inv.counted, inv.runs, fun ended => inv.emptied (finished_of_wake ended),
      fun done => by simp [inv.joined done, ConsumerLoop.Consumer.wake]⟩
  | clear => exact inv.stops kept rfl rfl (by simp) id (by simp)
  | unblock => exact inv.stops kept rfl rfl (by simp) finished_of_wake (by simp)
  | join _ ended => exact inv.stops kept rfl rfl (by simp) id fun _ => ended

theorem inv_of_reachable (h : (system rest).ReachableBy (InTime rest) s) : Inv rest s := by
  apply h.invariant
  · rintro _ rfl
    exact inv_idle
  · intro s a t inv met ran
    cases a with
    | StartEventLoop =>
      simp only [system, step, Option.ite_none_right_eq_some] at ran
      obtain ⟨done, same⟩ := ran
      cases same
      exact inv.start done
    | loop b =>
      obtain ⟨loop, stepped, same⟩ := Option.map_eq_some_iff.mp ran
      cases same
      exact inv.loop met stepped

/-- **Every acquisition emits its own events**, each once and in the order of the pushes, in every run
of acquisitions whose steps are in time. -/
theorem acquisition_delivers (h : (system rest).ReachableBy (InTime rest) s) : Delivered s :=
  (inv_of_reachable h).delivered

/-- What is left in the queue is the first that the next acquisition emits. -/
theorem leftover_emitted (rest : δ) {x : EventData × δ} {queue : List (EventData × δ)}
    (done : s.loop.stopper = .done) (left : s.loop.queue = x :: queue)
    (counts : (dcsLoop rest).guard x = false) :
    ∃ t, (system rest).run s [.StartEventLoop, .loop .test, .loop .enter, .loop .handle] = some t ∧
      t.acquired = [] ∧ t.loop.handled = [x] := by
  refine ⟨⟨⟨true, queue, s.loop.pending, .testing, .working, x :: queue, [x]⟩, []⟩, ?_, rfl, rfl⟩
  simp [System.run, system, step, ConsumerLoop.step, ConsumerLoop.State.pop, State.acquire, done,
    left, counts]

end

/-- Two events. -/
def first : EventData × Unit := (⟨7⟩, ())

def second : EventData × Unit := (⟨9⟩, ())

/-- The steps of the loop that take an event it finds queued. -/
def taken : List (Action Unit) := [.loop .test, .loop .enter, .loop .handle]

/-- An event and its stop, on a loop that sleeps. -/
def stopped : List (Action Unit) :=
  [.loop .test, .loop .enter, .loop .block, .loop .clear, .loop .unblock, .loop .resume,
    .loop .handle, .loop .test, .loop .join]

instance (s : State Unit) (a : Action Unit) : Decidable (InTime () s a) := by
  unfold InTime
  split <;> infer_instance

theorem acquisition_delivers_second : ∃ s : State Unit, (s.loop.handled = [second] ∧
    s.loop.stopper = .done) ∧ Delivered s := by
  have replayed : ∃ s, (system ()).ReachableBy (InTime ()) s ∧
      s.loop.handled = [second] ∧ s.loop.stopper = .done :=
    System.exists_reachableBy_of_replay rfl ([.StartEventLoop, .loop (.push first)] ++ taken ++
      stopped ++ [.StartEventLoop, .loop (.push second)] ++ taken ++ stopped) (by decide)
  obtain ⟨s, reached, seen⟩ := replayed
  exact ⟨s, seen, acquisition_delivers reached⟩

/-- The loop sees the stop before the event, which the next acquisition emits. -/
theorem event_of_before : ∃ s : State Unit, (system ()).Reachable s ∧ ¬ Delivered s := by
  have replayed : ∃ s, (system ()).Reachable s ∧ s.loop.stopper = .done ∧ s.loop.queue = [first] :=
    System.exists_reachable_of_replay rfl [.StartEventLoop, .loop (.push first), .loop .clear,
      .loop .unblock, .loop .test, .loop .join] (by decide)
  obtain ⟨s, reached, done, left⟩ := replayed
  obtain ⟨t, ran, none_acquired, emitted⟩ := leftover_emitted () done left rfl
  refine ⟨t, reached.replay ran, fun delivered => ?_⟩
  have front := delivered.1
  rw [emitted, none_acquired] at front
  exact absurd (List.prefix_nil.mp front) (by simp)

end DCScan.Acquisition
