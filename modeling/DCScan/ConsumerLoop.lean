import DCScan.Lib.Monitor
import DCScan.Lib.System
import DCScan.Message

/-!
A consumer that loops `while running: pop`, the threads that push to its queue, and the
thread that stops it.

Four loops of the source have this shape: the send threads of the client and of the server over
`SMessageQueue::pop`, the control service over `CmdBuffer::process`, and `DCSCountEvent` and
`MCACountEvent` over `GetLastDCS_IVD` and `GetLastMCA_IVD`. They differ in what the pop returns
for a queue that it finds empty after its wait, and in what the loop passes over (`Loop`). Each
condition variable has one waiting thread, so that `notify_one` and `notify_all` are the same to it.
-/

namespace DCScan

open Lib

/-- An `EventData`, with the count that the event loops read. -/
structure EventData where
  num_detected : UInt64
  deriving DecidableEq, Repr

/-- A `Command`: `target` is the number of a `UnitTarget`, or any other that a request brings. -/
structure Command where
  target : UInt32
  full_cmd : List UInt8
  wait_response : Bool
  deriving DecidableEq, Repr

/-- What a loop does with what its pop returns. -/
structure Loop (α : Type) where
  /-- What the pop returns when it finds nothing. -/
  nothing : α
  /-- What the loop passes over. -/
  guard : α → Bool

namespace ConsumerLoop

/-- `while (server_running.load())` and `while (client_running.load())` over
`outbound_data_queue.pop()`. -/
def sendLoop : Loop DefaultMessage := ⟨⟨0, 0, none⟩, fun to_send => to_send.ptr.isNone⟩

/-- `while (control_service_running.load())` over `cmd_buffer.process()`. -/
def controlLoop : Loop Command := ⟨⟨0, [], false⟩, fun cmd => cmd.full_cmd.length = 0⟩

/-- `while(evt_loop_sig.load())` over `GetLastDCS_IVD()` or `GetLastMCA_IVD()`. -/
def countEventLoop : Loop EventData :=
  ⟨⟨18446744073709551615⟩, fun ivd => ivd.num_detected = 18446744073709551615⟩

inductive Consumer (α : Type) where
  /-- About to load the running flag. -/
  | testing
  /-- About to lock the mutex and to test the queue. -/
  | entering
  | waiting (w : Waiter)
  /-- The pop has returned. -/
  | handling (x : α)
  | finished
  deriving DecidableEq, Repr

inductive Stopper where
  | working
  | cleared
  | joining
  | done
  deriving DecidableEq, Repr

structure State (α : Type) where
  running : Bool
  queue : List α
  /-- Calls of `notify_one` that follow a push and are still to come. -/
  pending : Nat
  consumer : Consumer α
  stopper : Stopper
  pushed : List α
  handled : List α
  deriving DecidableEq, Repr

inductive Action (α : Type) where
  | test
  | enter
  | block
  | spurious
  | resume
  | handle
  | push (x : α)
  | notify
  | clear
  | unblock
  | join
  deriving DecidableEq, Repr

variable {α : Type} {loop : Loop α} {s t : State α} {a : Action α}

/-- A notification on the consumer's condition variable. -/
def Consumer.wake : Consumer α → Consumer α
  | .waiting w => .waiting w.wake
  | c => c

/-- The pop of a queue whose mutex is held, after the wait if there was one. -/
def State.pop (loop : Loop α) (s : State α) : State α :=
  match s.queue with
  | [] => { s with consumer := .handling loop.nothing }
  | x :: rest => { s with queue := rest, consumer := .handling x }

def step (loop : Loop α) (s : State α) : Action α → Option (State α)
  | .test => match s.consumer with
    | .testing => some { s with consumer := if s.running then .entering else .finished }
    | _ => none
  | .enter => match s.consumer with
    | .entering => some (if s.queue = [] then { s with consumer := .waiting .blocking }
        else s.pop loop)
    | _ => none
  | .block => match s.consumer with
    | .waiting .blocking => some { s with consumer := .waiting .sleeping }
    | _ => none
  | .spurious => match s.consumer with
    | .waiting .sleeping => some { s with consumer := .waiting .woken }
    | _ => none
  | .resume => match s.consumer with
    | .waiting .woken => some (s.pop loop)
    | _ => none
  | .handle => match s.consumer with
    | .handling x => some { s with
        consumer := .testing,
        handled := s.handled ++ if loop.guard x then [] else [x] }
    | _ => none
  | .push x => match s.consumer with
    -- the consumer holds the mutex
    | .waiting .blocking => none
    | _ => some { s with
        queue := s.queue ++ [x], pending := s.pending + 1, pushed := s.pushed ++ [x] }
  | .notify => match s.pending with
    | 0 => none
    | n + 1 => some { s with pending := n, consumer := s.consumer.wake }
  | .clear => match s.stopper with
    | .working => some { s with running := false, stopper := .cleared }
    | _ => none
  | .unblock => match s.stopper with
    | .cleared => some { s with stopper := .joining, consumer := s.consumer.wake }
    | _ => none
  | .join => match s.stopper, s.consumer with
    | .joining, .finished => some { s with stopper := .done }
    | _, _ => none

/-- The consumer starts on a queue that may hold something from before. -/
def system (loop : Loop α) : System (State α) (Action α) where
  init s := ∃ queue pending, s = ⟨true, queue, pending, .testing, .working, queue, []⟩
  step := step loop

@[simp] theorem pop_running : (s.pop loop).running = s.running := by unfold State.pop; split <;> rfl
@[simp] theorem pop_pending : (s.pop loop).pending = s.pending := by unfold State.pop; split <;> rfl
@[simp] theorem pop_stopper : (s.pop loop).stopper = s.stopper := by unfold State.pop; split <;> rfl
@[simp] theorem pop_pushed : (s.pop loop).pushed = s.pushed := by unfold State.pop; split <;> rfl
@[simp] theorem pop_handled : (s.pop loop).handled = s.handled := by unfold State.pop; split <;> rfl

/-- Every loop passes over what its pop returns for nothing. -/
theorem guards_nothing : sendLoop.guard sendLoop.nothing ∧ controlLoop.guard controlLoop.nothing ∧
    countEventLoop.guard countEventLoop.nothing := by decide

/-- What each action finds, and leaves. -/
inductive Turn (loop : Loop α) (s : State α) : Action α → State α → Prop
  | test (stand : s.consumer = .testing) :
      Turn loop s .test { s with consumer := if s.running then .entering else .finished }
  | enter_empty (stand : s.consumer = .entering) (empty : s.queue = []) :
      Turn loop s .enter { s with consumer := .waiting .blocking }
  | enter (stand : s.consumer = .entering) (there : s.queue ≠ []) : Turn loop s .enter (s.pop loop)
  | block (stand : s.consumer = .waiting .blocking) :
      Turn loop s .block { s with consumer := .waiting .sleeping }
  | spurious (stand : s.consumer = .waiting .sleeping) :
      Turn loop s .spurious { s with consumer := .waiting .woken }
  | resume (stand : s.consumer = .waiting .woken) : Turn loop s .resume (s.pop loop)
  | handle {x} (stand : s.consumer = .handling x) :
      Turn loop s .handle { s with
        consumer := .testing, handled := s.handled ++ if loop.guard x then [] else [x] }
  | push {x} (free : s.consumer ≠ .waiting .blocking) :
      Turn loop s (.push x) { s with
        queue := s.queue ++ [x], pending := s.pending + 1, pushed := s.pushed ++ [x] }
  | notify {n} (due : s.pending = n + 1) :
      Turn loop s .notify { s with pending := n, consumer := s.consumer.wake }
  | clear (works : s.stopper = .working) :
      Turn loop s .clear { s with running := false, stopper := .cleared }
  | unblock (cleared : s.stopper = .cleared) :
      Turn loop s .unblock { s with stopper := .joining, consumer := s.consumer.wake }
  | join (joins : s.stopper = .joining) (ended : s.consumer = .finished) :
      Turn loop s .join { s with stopper := .done }

theorem turn_of_step (ran : step loop s a = some t) : Turn loop s a t := by
  cases a with
  | test | block | spurious | resume | handle | notify | clear | unblock =>
    simp only [step] at ran
    split at ran <;> cases ran
    constructor
    assumption
  | enter =>
    simp only [step] at ran
    split at ran <;> cases ran
    rename_i stand
    split
    · rename_i empty
      exact .enter_empty stand empty
    · rename_i there
      exact .enter stand there
  | push x =>
    simp only [step] at ran
    split at ran <;> cases ran
    rename_i free
    exact .push free
  | join =>
    simp only [step] at ran
    split at ran <;> cases ran
    rename_i joins ended
    exact .join joins ended

/-! ## What the loop handles -/

/-- What the pop has returned and the loop has not dealt with. -/
def Consumer.inHand : Consumer α → List α
  | .handling x => [x]
  | _ => []

@[simp] theorem inHand_wake (c : Consumer α) : c.wake.inHand = c.inHand := by cases c <;> rfl

/-- What is pushed and not passed over is handled, in hand or still queued, in the order of the
pushes. -/
def Kept (loop : Loop α) (s : State α) : Prop :=
  s.pushed.filter (!loop.guard ·) =
    s.handled ++ (s.consumer.inHand ++ s.queue).filter (!loop.guard ·)

theorem kept_pop (guarded : loop.guard loop.nothing) (free : s.consumer.inHand = [])
    (kept : Kept loop s) : Kept loop (s.pop loop) := by
  rw [Kept, free] at kept
  unfold State.pop
  cases queued : s.queue with
  | nil => simpa [Kept, Consumer.inHand, guarded, queued] using kept
  | cons x rest => simpa [Kept, Consumer.inHand, queued] using kept

theorem kept_step (guarded : loop.guard loop.nothing) (kept : Kept loop s)
    (ran : step loop s a = some t) : Kept loop t := by
  cases turn_of_step ran with
  | test stand => cases flag : s.running <;> simpa [Kept, stand, Consumer.inHand] using kept
  | enter_empty stand | block stand | spurious stand =>
    simpa [Kept, stand, Consumer.inHand] using kept
  | enter stand | resume stand => exact kept_pop guarded (by rw [stand]; rfl) kept
  | handle stand =>
    simp only [Kept, stand, Consumer.inHand] at kept ⊢
    split <;> rename_i passed <;> simpa [passed] using kept
  | push =>
    simp only [Kept, List.filter_append, ← List.append_assoc] at kept ⊢
    rw [kept]
  | notify | unblock => simpa [Kept] using kept
  | clear | join => exact kept

/-- **A consumer loop is first in, first out**, whatever is notified and whenever. -/
theorem handled_in_order (guarded : loop.guard loop.nothing) (reached : (system loop).Reachable s) :
    s.pushed.filter (!loop.guard ·) =
      s.handled ++ (s.consumer.inHand ++ s.queue).filter (!loop.guard ·) :=
  show Kept loop s from reached.invariant
    (by rintro _ ⟨queue, pending, rfl⟩; simp [Kept, Consumer.inHand])
    fun _ _ _ kept ran => kept_step guarded kept ran

/-! ## Stopping the loop -/

/-- The stopper is in `join`, the consumer sleeps, and no notification is under way. -/
def Hung (s : State α) : Prop :=
  s.stopper = .joining ∧ s.consumer = .waiting .sleeping ∧ s.pending = 0

/-- The consumer has passed its tests, or is to pass them, and is about to sleep. -/
def Late (s : State α) : Prop :=
  (s.consumer = .entering ∧ s.queue = []) ∨ s.consumer = .waiting .blocking

/-- The stopper notifies while the consumer is not about to sleep. -/
def InTime (s : State α) : Action α → Prop
  | .unblock => ¬Late s
  | _ => True

/-- Nothing but a further push or a spurious wake-up moves a hung stopper on. -/
theorem hung_waits (hung : Hung s) (ran : step loop s a = some t) :
    a = .spurious ∨ ∃ x, a = .push x := by
  obtain ⟨joins, sleeps, none_left⟩ := hung
  cases a with
  | spurious => exact Or.inl rfl
  | push x => exact Or.inr ⟨x, rfl⟩
  | _ => simp [step, joins, sleeps, none_left] at ran

/-- The steps of the stopper. -/
def Action.stops : Action α → Bool
  | .clear | .unblock | .join => true
  | _ => false

theorem pop_consumer (loop : Loop α) (s : State α) : ∃ x, (s.pop loop).consumer = .handling x := by
  unfold State.pop
  split
  · exact ⟨_, rfl⟩
  · exact ⟨_, rfl⟩

/-- The consumer and the pushing threads leave the flag and the stopper alone. -/
theorem frame_of_step (ran : step loop s a = some t) (other : a.stops = false) :
    t.running = s.running ∧ t.stopper = s.stopper := by
  cases turn_of_step ran with
  | enter | resume => exact ⟨pop_running, pop_stopper⟩
  | clear | unblock | join => cases other
  | _ => exact ⟨rfl, rfl⟩

/-- The flag is cleared before the stopper notifies. -/
def FlagCleared (s : State α) : Prop := s.stopper ≠ .working → s.running = false

theorem flagCleared_step (known : FlagCleared s) (ran : step loop s a = some t) :
    FlagCleared t := by
  cases stops : a.stops with
  | false =>
    obtain ⟨flag, same⟩ := frame_of_step ran stops
    rwa [FlagCleared, flag, same]
  | true =>
    intro moved
    cases turn_of_step ran with
    | clear => rfl
    | unblock before | join before => exact known (by simp [before])
    | _ => cases stops

theorem reachable_flagCleared (reached : (system loop).Reachable s) : FlagCleared s :=
  reached.invariant (by rintro _ ⟨queue, pending, rfl⟩; exact fun moved => absurd rfl moved)
    fun _ _ _ known ran => flagCleared_step known ran

/-- The consumer is on its way out, and does not wait again. -/
structure Leaving (s : State α) : Prop where
  cleared : s.running = false
  blocking : s.consumer ≠ .waiting .blocking
  sleeping : s.consumer ≠ .waiting .sleeping
  there : s.consumer = .entering → s.queue ≠ []

theorem leaving_pop (cleared : s.running = false) : Leaving (s.pop loop) := by
  obtain ⟨x, hands⟩ := pop_consumer loop s
  exact ⟨by rw [pop_running, cleared], by simp [hands], by simp [hands], by simp [hands]⟩

/-- The stopper's notification wakes a consumer that is not about to sleep. -/
theorem leaving_wake {n : Nat} {p : Stopper} (cleared : s.running = false) (inTime : ¬Late s) :
    Leaving { s with pending := n, stopper := p, consumer := s.consumer.wake } := by
  simp only [Late, not_or, not_and] at inTime
  refine ⟨cleared, ?_, ?_, ?_⟩ <;> cases stand : s.consumer <;>
    simp_all [Consumer.wake]

theorem leaving_step (leaving : Leaving s) (ran : step loop s a = some t) : Leaving t := by
  have inTime : ¬Late s := by
    rintro (⟨entering, empty⟩ | blocking)
    · exact leaving.there entering empty
    · exact leaving.blocking blocking
  cases turn_of_step ran with
  | test => exact ⟨leaving.cleared, by simp [leaving.cleared], by simp [leaving.cleared],
      by simp [leaving.cleared]⟩
  | enter_empty stand empty => exact absurd empty (leaving.there stand)
  | enter | resume => exact leaving_pop leaving.cleared
  | block stand => exact absurd stand leaving.blocking
  | spurious stand => exact absurd stand leaving.sleeping
  | handle => exact ⟨leaving.cleared, by simp, by simp, by simp⟩
  | push => exact ⟨leaving.cleared, leaving.blocking, leaving.sleeping, by simp⟩
  | notify | unblock => exact leaving_wake leaving.cleared inTime
  | clear => exact ⟨rfl, leaving.blocking, leaving.sleeping, leaving.there⟩
  | join => exact ⟨leaving.cleared, leaving.blocking, leaving.sleeping, leaving.there⟩

/-- The stopper has notified. -/
def Notified (s : State α) : Prop := s.stopper = .joining ∨ s.stopper = .done

theorem leaving_of_unblock (known : FlagCleared s) (inTime : ¬Late s)
    (ran : step loop s .unblock = some t) : Leaving t := by
  cases turn_of_step ran with
  | unblock before => exact leaving_wake (known (by simp [before])) inTime

theorem notified_step (known : FlagCleared s) (leaving : Notified s → Leaving s) (met : InTime s a)
    (ran : step loop s a = some t) (notified : Notified t) : Leaving t := by
  cases stops : a.stops with
  | false =>
    obtain ⟨_, same⟩ := frame_of_step ran stops
    rw [Notified, same] at notified
    exact leaving_step (leaving notified) ran
  | true =>
    cases turn_of_step ran with
    | clear => simp [Notified] at notified
    | unblock => exact leaving_of_unblock known met ran
    | join joins => exact leaving_step (leaving (Or.inl joins)) ran
    | _ => cases stops

theorem reachable_leaving (reached : (system loop).ReachableBy InTime s) :
    Notified s → Leaving s :=
  reached.invariant_from (fun _ before => reachable_flagCleared before.reachable)
    (by rintro _ ⟨queue, pending, rfl⟩; simp [Notified])
    fun _ _ _ known leaving met ran => notified_step known leaving met ran

/-- How many steps the consumer has still to take. -/
def Consumer.steps : Consumer α → Nat
  | .testing => 2
  | .entering => 4
  | .waiting _ => 4
  | .handling _ => 3
  | .finished => 1

/-- A consumer on its way out has its next step enabled, until it can be joined. -/
theorem leaving_advances (loop : Loop α) (leaving : Leaving s) (joins : s.stopper = .joining) :
    ∃ a t, step loop s a = some t ∧ Notified t ∧
      (if t.stopper = .done then 0 else t.consumer.steps) < s.consumer.steps := by
  cases stand : s.consumer with
  | testing =>
    refine ⟨.test, { s with consumer := .finished }, ?_, Or.inl joins, ?_⟩
    · simp [step, stand, leaving.cleared]
    · simp [joins, Consumer.steps]
  | entering =>
    obtain ⟨x, hands⟩ := pop_consumer loop s
    refine ⟨.enter, s.pop loop, ?_, Or.inl (by simp [joins]), ?_⟩
    · simp [step, stand, leaving.there stand]
    · simp [hands, joins, Consumer.steps]
  | waiting w =>
    obtain ⟨x, hands⟩ := pop_consumer loop s
    cases w with
    | blocking => exact absurd stand leaving.blocking
    | sleeping => exact absurd stand leaving.sleeping
    | woken =>
      refine ⟨.resume, s.pop loop, ?_, Or.inl (by simp [joins]), ?_⟩
      · simp only [step, stand]
      · simp [hands, joins, Consumer.steps]
  | handling x =>
    refine ⟨.handle, { s with
      consumer := .testing, handled := s.handled ++ if loop.guard x then [] else [x] },
      ?_, Or.inl joins, ?_⟩
    · simp only [step, stand]
    · simp [joins, Consumer.steps]
  | finished =>
    refine ⟨.join, { s with stopper := .done }, ?_, Or.inr rfl, ?_⟩
    · simp only [step, stand, joins]
    · simp [Consumer.steps]

/-- A stopper whose consumer is on its way out gets through its join. -/
theorem join_completes (reached : (system loop).Reachable s) (leaving : Leaving s)
    (joins : s.stopper = .joining) :
    ∃ as t, (system loop).run s as = some t ∧ t.stopper = .done := by
  have ended : ∃ as t, (system loop).run s as = some t ∧ (Leaving t ∧ Notified t) ∧
      t.stopper = .done :=
    reached.attains (fun s => if s.stopper = .done then 0 else s.consumer.steps)
      ⟨leaving, Or.inl joins⟩ fun s _ held short => by
        have joins : s.stopper = .joining := held.2.resolve_right short
        obtain ⟨a, t, ran, notified, less⟩ := leaving_advances loop held.1 joins
        exact ⟨a, t, ran, ⟨leaving_step held.1 ran, notified⟩, by simpa [joins] using less⟩
  obtain ⟨as, t, ran, _, done⟩ := ended
  exact ⟨as, t, ran, done⟩

/-- The notifications still under way do not reach a consumer that does not sleep. -/
theorem run_notify {c : Consumer α} {p : Stopper} (unmoved : c.wake = c) (n : Nat) :
    (system loop).run ⟨s.running, s.queue, n, c, p, s.pushed, s.handled⟩ (List.replicate n .notify) =
      some ⟨s.running, s.queue, 0, c, p, s.pushed, s.handled⟩ := by
  induction n with
  | zero => rfl
  | succ n ih =>
    rw [List.replicate_succ, System.run_cons, ← ih]
    simp only [system, step, unmoved, Option.bind_some]

/-- A notification that comes while the consumer is about to sleep leaves the stopper hung. -/
theorem hung_of_late (late : Late s) (ran : step loop s .unblock = some t) :
    ∃ as u, (system loop).run t as = some u ∧ Hung u := by
  cases turn_of_step ran
  rcases late with ⟨entering, empty⟩ | blocking
  · refine ⟨List.replicate s.pending .notify ++ [.enter, .block],
      ⟨s.running, s.queue, 0, .waiting .sleeping, .joining, s.pushed, s.handled⟩, ?_, rfl, rfl, rfl⟩
    have unmoved : s.consumer.wake = .entering := by rw [entering]; rfl
    rw [unmoved, System.run_append, run_notify rfl]
    simp [system, System.run, step, empty]
  · refine ⟨List.replicate s.pending .notify ++ [.block],
      ⟨s.running, s.queue, 0, .waiting .sleeping, .joining, s.pushed, s.handled⟩, ?_, rfl, rfl, rfl⟩
    have unmoved : s.consumer.wake = .waiting .blocking := by rw [blocking]; rfl
    rw [unmoved, System.run_append, run_notify rfl]
    simp [system, System.run, step]

/-- **Stopping a consumer loop does not hang** in the runs whose stopper notifies while the consumer
is not about to sleep, and every notification that comes later can be followed by a hang. -/
theorem consumer_stops (reached : (system loop).ReachableBy InTime s) :
    ¬Hung s ∧
      (s.stopper = .joining → ∃ as t, (system loop).run s as = some t ∧ t.stopper = .done) ∧
      ∀ t, (system loop).step s .unblock = some t →
        ((∀ as u, (system loop).run t as = some u → ¬Hung u) ↔ ¬Late s) := by
  have known := reachable_flagCleared reached.reachable
  have leaving := reachable_leaving reached
  refine ⟨fun hung => (leaving (Or.inl hung.1)).sleeping hung.2.1, fun joins =>
    join_completes reached.reachable (leaving (Or.inl joins)) joins, fun t ran => ⟨?_, ?_⟩⟩
  · intro safe late
    obtain ⟨as, u, continued, hung⟩ := hung_of_late late ran
    exact safe as u continued hung
  · intro inTime as u continued hung
    have leaves : Leaving u := System.run_keeps Leaving (fun _ _ _ held stepped => leaving_step held stepped)
      (leaving_of_unblock known inTime (show step loop s .unblock = some t from ran)) continued
    exact leaves.sleeping hung.2.1

/-- `StopServices` notifies a control service that sleeps, and joins it. -/
theorem consumer_stops_asleep : ∃ s : State Command, s.stopper = .joining ∧ ¬Hung s ∧
    ∃ as t, (system controlLoop).run s as = some t ∧ t.stopper = .done := by
  have replayed : ∃ s, (system controlLoop).ReachableBy
      (fun s a => (decide (a = .unblock → s.consumer = .waiting .sleeping)) = true) s ∧
        s.stopper = .joining :=
    System.exists_reachableBy_of_replay (s := ⟨true, [], 0, .testing, .working, [], []⟩)
      ⟨[], 0, rfl⟩ [.test, .enter, .block, .clear, .unblock] (by decide)
  obtain ⟨s, reached, joins⟩ := replayed
  have inTime : (system controlLoop).ReachableBy InTime s := reached.mono fun s a _ met => by
    cases a with
    | unblock =>
      rintro (⟨entering, _⟩ | blocking)
      · simp [entering] at met
      · simp [blocking] at met
    | _ => trivial
  have stopped := consumer_stops inTime
  exact ⟨s, joins, stopped.1, stopped.2.1 joins⟩

/-- The consumer has loaded the flag when the stopper clears it and notifies, and waits after. -/
theorem hung_reachable (loop : Loop α) : ∃ s, (system loop).Reachable s ∧ Hung s := by
  have first : (system loop).init ⟨true, [], 0, .testing, .working, [], []⟩ := ⟨[], 0, rfl⟩
  have ran : (system loop).run ⟨true, [], 0, .testing, .working, [], []⟩
      [.test, .clear, .unblock, .enter, .block] =
        some ⟨false, [], 0, .waiting .sleeping, .joining, [], []⟩ := by
    simp [System.run, system, step, Consumer.wake]
  exact ⟨_, (System.Reachable.start first).replay ran, rfl, rfl, rfl⟩

/-- **The notification can come too early.** Every one of the loops can be left asleep by its
stopper, which then waits in `join`. -/
theorem loops_hang : (∃ s, (system sendLoop).Reachable s ∧ Hung s) ∧
    (∃ s, (system controlLoop).Reachable s ∧ Hung s) ∧
    ∃ s, (system countEventLoop).Reachable s ∧ Hung s :=
  ⟨hung_reachable sendLoop, hung_reachable controlLoop, hung_reachable countEventLoop⟩

end ConsumerLoop

end DCScan
