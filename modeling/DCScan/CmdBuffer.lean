import DCScan.ConsumerLoop
import DCScan.Lib.Table

/-!
`CmdBuffer`: the commands that threads schedule for the controllers, and the replies they
wait for.

`schedule` puts a command into the queue of the control service and, when a response is wanted,
waits on a second mutex and condition variable for `reply`. There is one `response_buffer` for all
that wait. The mutex `mr` is held across steps only by a caller that has decided to wait;
the other sections under it are single steps. The accesses to `response_buffer` that
`schedule` makes without it, for a command with no response, are steps of their own.
-/

namespace DCScan

open Lib

/-- The controllers. -/
inductive UnitTarget where
  | ESP301
  | PMC8742
  | XPSRLD4
  deriving DecidableEq, Repr

/-- The controller of a target; the service's switch has no case for any other. -/
def UnitTarget.ofCode (target : UInt32) : Option UnitTarget :=
  if target = 0 then some ESP301
  else if target = 1 then some PMC8742
  else if target = 2 then some XPSRLD4
  else none

namespace CmdBuffer

/-- A command in the queue, with the call of `schedule` that put it there. -/
structure Scheduled where
  call : Nat
  cmd : Command
  deriving DecidableEq, Repr

/-- The control service over the commands of the calls. -/
def serviceLoop : Loop Scheduled :=
  ⟨⟨0, ConsumerLoop.controlLoop.nothing⟩, fun x => ConsumerLoop.controlLoop.guard x.cmd⟩

/-- The service reads a response for the command, and passes it to `reply`. -/
def Scheduled.due (x : Scheduled) : Bool :=
  !serviceLoop.guard x && (UnitTarget.ofCode x.cmd.target).isSome && x.cmd.wait_response

/-- Where a call of `schedule` stands. -/
inductive Call where
  /-- The command is in the queue, `c.notify_one` is to come. -/
  | pushed (cmd : Command)
  | notified (cmd : Command)
  | waiting (cmd : Command) (w : Waiter)
  /-- No response is wanted, and `response_buffer` is emptied. -/
  | cleared (cmd : Command)
  | returned (cmd : Command) (text : List UInt8)
  deriving DecidableEq, Repr

namespace Call

def cmd : Call → Command
  | pushed cmd | notified cmd | waiting cmd _ | cleared cmd | returned cmd _ => cmd

def isPushed : Call → Bool
  | pushed _ => true
  | _ => false

def sleeps : Call → Bool
  | waiting _ .sleeping => true
  | _ => false

end Call

structure State where
  /-- `q`, `m` and `c`, and the thread of the control service. -/
  service : ConsumerLoop.State Scheduled
  /-- The calls of `schedule`, in the order of their pushes. -/
  calls : List Call
  mr : Option Nat
  response_buffer : List UInt8
  /-- `reply` has stored the response, `cr.notify_one` is to come. -/
  notifying : Bool
  replied : List (Nat × List UInt8)
  deriving DecidableEq, Repr

inductive Action where
  | schedule (cmd : Command)
  | notify (k : Nat)
  | wait (k : Nat)
  | sleep (k : Nat)
  | spurious (k : Nat)
  | resume (k : Nat)
  | clear (k : Nat)
  | read (k : Nat)
  | service (a : ConsumerLoop.Action Scheduled)
  | reply (response : List UInt8)
  | notifyReply (pick : Option Nat)
  | pass
  deriving DecidableEq, Repr

/-- The steps of `process` and of the service's stopper. -/
def ofService : ConsumerLoop.Action Scheduled → Bool
  | .push _ | .notify | .handle => false
  | _ => true

/-- `cr.notify_one` wakes any one of the callers that sleep, and none when none does. -/
def wakeOne (calls : List Call) : Option Nat → Option (List Call)
  | some k => match calls[k]? with
    | some (.waiting cmd .sleeping) => some (calls.set k (.waiting cmd .woken))
    | _ => none
  | none => if calls.any Call.sleeps then none else some calls

def step (s : State) : Action → Option State
  | .schedule cmd =>
    (ConsumerLoop.step serviceLoop s.service (.push ⟨s.calls.length, cmd⟩)).map fun service =>
      { s with service := service, calls := s.calls ++ [.pushed cmd] }
  | .notify k => match s.calls[k]? with
    | some (.pushed cmd) =>
      (ConsumerLoop.step serviceLoop s.service .notify).map fun service =>
        { s with service := service, calls := s.calls.set k (.notified cmd) }
    | _ => none
  | .wait k => match s.calls[k]? with
    | some (.notified cmd) =>
      if cmd.wait_response ∧ s.mr = none then
        some { s with mr := some k, calls := s.calls.set k (.waiting cmd .blocking) }
      else none
    | _ => none
  | .sleep k => match s.calls[k]? with
    | some (.waiting cmd .blocking) =>
      some { s with mr := none, calls := s.calls.set k (.waiting cmd .sleeping) }
    | _ => none
  | .spurious k => match s.calls[k]? with
    | some (.waiting cmd .sleeping) =>
      some { s with calls := s.calls.set k (.waiting cmd .woken) }
    | _ => none
  | .resume k => match s.calls[k]? with
    | some (.waiting cmd .woken) =>
      if s.mr = none then
        some { s with calls := s.calls.set k (.returned cmd s.response_buffer) }
      else none
    | _ => none
  | .clear k => match s.calls[k]? with
    | some (.notified cmd) =>
      if cmd.wait_response then none
      else some { s with response_buffer := [], calls := s.calls.set k (.cleared cmd) }
    | _ => none
  | .read k => match s.calls[k]? with
    | some (.cleared cmd) =>
      some { s with calls := s.calls.set k (.returned cmd s.response_buffer) }
    | _ => none
  | .service a =>
    if ofService a then
      (ConsumerLoop.step serviceLoop s.service a).map fun service => { s with service := service }
    else none
  | .reply response => match s.service.consumer with
    | .handling x =>
      if x.due ∧ s.notifying = false ∧ s.mr = none then
        some { s with
          response_buffer := response, notifying := true,
          replied := s.replied ++ [(x.call, response)] }
      else none
    | _ => none
  | .notifyReply pick =>
    if s.notifying then
      (wakeOne s.calls pick).bind fun calls =>
        (ConsumerLoop.step serviceLoop s.service .handle).map fun service =>
          { s with service := service, calls := calls, notifying := false }
    else none
  | .pass => match s.service.consumer with
    | .handling x =>
      if x.due then none
      else (ConsumerLoop.step serviceLoop s.service .handle).map fun service =>
        { s with service := service }
    | _ => none

def system : System State Action where
  init s := s = ⟨⟨true, [], 0, .testing, .working, [], []⟩, [], none, [], false, []⟩
  step := step

/-! ## What a step does -/

/-- What each action finds, and leaves. -/
inductive Effect (s : State) : Action → State → Prop
  | schedule {cmd c} (ran : ConsumerLoop.step serviceLoop s.service
      (.push ⟨s.calls.length, cmd⟩) = some c) :
      Effect s (.schedule cmd) { s with service := c, calls := s.calls ++ [.pushed cmd] }
  | notify {k cmd c} (was : s.calls[k]? = some (.pushed cmd))
      (ran : ConsumerLoop.step serviceLoop s.service .notify = some c) :
      Effect s (.notify k) { s with service := c, calls := s.calls.set k (.notified cmd) }
  | wait {k cmd} (was : s.calls[k]? = some (.notified cmd)) (asks : cmd.wait_response = true)
      (free : s.mr = none) :
      Effect s (.wait k) { s with mr := some k, calls := s.calls.set k (.waiting cmd .blocking) }
  | sleep {k cmd} (was : s.calls[k]? = some (.waiting cmd .blocking)) :
      Effect s (.sleep k) { s with mr := none, calls := s.calls.set k (.waiting cmd .sleeping) }
  | spurious {k cmd} (was : s.calls[k]? = some (.waiting cmd .sleeping)) :
      Effect s (.spurious k) { s with calls := s.calls.set k (.waiting cmd .woken) }
  | resume {k cmd} (was : s.calls[k]? = some (.waiting cmd .woken)) (free : s.mr = none) :
      Effect s (.resume k) { s with calls := s.calls.set k (.returned cmd s.response_buffer) }
  | clear {k cmd} (was : s.calls[k]? = some (.notified cmd)) (silent : cmd.wait_response = false) :
      Effect s (.clear k) { s with response_buffer := [], calls := s.calls.set k (.cleared cmd) }
  | read {k cmd} (was : s.calls[k]? = some (.cleared cmd)) :
      Effect s (.read k) { s with calls := s.calls.set k (.returned cmd s.response_buffer) }
  | service {a c} (own : ofService a = true)
      (ran : ConsumerLoop.step serviceLoop s.service a = some c) :
      Effect s (.service a) { s with service := c }
  | reply {x response} (hands : s.service.consumer = .handling x) (due : x.due = true)
      (idle : s.notifying = false) (free : s.mr = none) :
      Effect s (.reply response) { s with
        response_buffer := response, notifying := true,
        replied := s.replied ++ [(x.call, response)] }
  | wake {k cmd c} (stored : s.notifying = true) (was : s.calls[k]? = some (.waiting cmd .sleeping))
      (ran : ConsumerLoop.step serviceLoop s.service .handle = some c) :
      Effect s (.notifyReply (some k))
        { s with service := c, calls := s.calls.set k (.waiting cmd .woken), notifying := false }
  | miss {c} (stored : s.notifying = true) (awake : s.calls.any Call.sleeps = false)
      (ran : ConsumerLoop.step serviceLoop s.service .handle = some c) :
      Effect s (.notifyReply none) { s with service := c, notifying := false }
  | pass {x c} (hands : s.service.consumer = .handling x) (due : x.due = false)
      (ran : ConsumerLoop.step serviceLoop s.service .handle = some c) :
      Effect s .pass { s with service := c }

variable {s t : State} {a : Action} {x : Scheduled} {k : Nat} {cmd : Command}
variable {c c' : ConsumerLoop.State Scheduled}

theorem effect_of_step (ran : step s a = some t) : Effect s a t := by
  cases a with
  | schedule cmd =>
    obtain ⟨c, moved, rfl⟩ := Option.map_eq_some_iff.mp ran
    exact .schedule moved
  | notify k =>
    simp only [step] at ran
    split at ran
    · rename_i was
      obtain ⟨c, moved, rfl⟩ := Option.map_eq_some_iff.mp ran
      exact .notify was moved
    · contradiction
  | wait k =>
    simp only [step] at ran
    split at ran
    · rename_i was
      split at ran <;> cases ran
      rename_i met
      exact .wait was met.1 met.2
    · contradiction
  | sleep k =>
    simp only [step] at ran
    split at ran <;> cases ran
    exact .sleep ‹_›
  | spurious k =>
    simp only [step] at ran
    split at ran <;> cases ran
    exact .spurious ‹_›
  | resume k =>
    simp only [step] at ran
    split at ran
    · rename_i was
      split at ran <;> cases ran
      exact .resume was ‹_›
    · contradiction
  | clear k =>
    simp only [step] at ran
    split at ran
    · rename_i was
      split at ran <;> cases ran
      rename_i silent
      exact .clear was (eq_false_of_ne_true silent)
    · contradiction
  | read k =>
    simp only [step] at ran
    split at ran <;> cases ran
    exact .read ‹_›
  | service a =>
    simp only [step] at ran
    split at ran
    · obtain ⟨c, moved, rfl⟩ := Option.map_eq_some_iff.mp ran
      exact .service ‹_› moved
    · contradiction
  | reply response =>
    simp only [step] at ran
    split at ran
    · rename_i hands
      split at ran <;> cases ran
      rename_i met
      exact .reply hands met.1 met.2.1 met.2.2
    · contradiction
  | notifyReply pick =>
    simp only [step] at ran
    split at ran
    · rename_i stored
      obtain ⟨calls, woke, ran⟩ := Option.bind_eq_some_iff.mp ran
      obtain ⟨c, moved, rfl⟩ := Option.map_eq_some_iff.mp ran
      cases pick with
      | none =>
        simp only [wakeOne] at woke
        split at woke
        · contradiction
        · rename_i awake
          cases woke
          exact .miss stored (eq_false_of_ne_true awake) moved
      | some k =>
        simp only [wakeOne] at woke
        split at woke <;> cases woke
        exact .wake stored ‹_› moved
    · contradiction
  | pass =>
    simp only [step] at ran
    split at ran
    · rename_i hands
      split at ran
      · contradiction
      · rename_i due
        obtain ⟨c, moved, rfl⟩ := Option.map_eq_some_iff.mp ran
        exact .pass hands (eq_false_of_ne_true due) moved
    · contradiction

/-- `process` and the stopper push nothing and handle nothing. -/
theorem frame_of_service {b : ConsumerLoop.Action Scheduled} (own : ofService b = true)
    (ran : ConsumerLoop.step serviceLoop c b = some c') :
    c'.pushed = c.pushed ∧ c'.pending = c.pending ∧ c'.handled = c.handled := by
  cases ConsumerLoop.turn_of_step ran with
  | push | notify | handle => cases own
  | enter | resume => simp
  | _ => exact ⟨rfl, rfl, rfl⟩

/-- A service that handles a command does so until it is done with it. -/
theorem handling_of_service {b : ConsumerLoop.Action Scheduled} (own : ofService b = true)
    (hands : c.consumer = .handling x) (ran : ConsumerLoop.step serviceLoop c b = some c') :
    c'.consumer = .handling x := by
  cases ConsumerLoop.turn_of_step ran with
  | push | notify | handle => cases own
  | clear | join => exact hands
  | unblock =>
    dsimp only
    rw [hands]
    rfl
  | test stand | enter_empty stand | enter stand | block stand | spurious stand | resume stand =>
    rw [hands] at stand
    cases stand

theorem handle_ran (ran : ConsumerLoop.step serviceLoop c .handle = some c') :
    ∃ x, c.consumer = .handling x ∧ c' = { c with
      consumer := .testing, handled := c.handled ++ if serviceLoop.guard x then [] else [x] } := by
  cases ConsumerLoop.turn_of_step ran with
  | handle stand => exact ⟨_, stand, rfl⟩

theorem push_ran (ran : ConsumerLoop.step serviceLoop c (.push x) = some c') :
    c' = { c with queue := c.queue ++ [x], pending := c.pending + 1, pushed := c.pushed ++ [x] } := by
  cases ConsumerLoop.turn_of_step ran
  rfl

theorem notify_ran (ran : ConsumerLoop.step serviceLoop c .notify = some c') :
    ∃ n, c.pending = n + 1 ∧ c' = { c with pending := n, consumer := c.consumer.wake } := by
  cases ConsumerLoop.turn_of_step ran with
  | notify due => exact ⟨_, due, rfl⟩

/-! ## The calls -/

/-- Only a call that wants a response waits, and only one that does not empties the buffer. -/
def Call.Fits : Call → Prop
  | .waiting cmd _ => cmd.wait_response = true
  | .cleared cmd => cmd.wait_response = false
  | _ => True

/-- Whoever holds `mr` has decided to wait. -/
structure CallsInv (calls : List Call) (mr : Option Nat) : Prop where
  fits : ∀ c ∈ calls, c.Fits
  holds : ∀ {k}, mr = some k → ∃ cmd, calls[k]? = some (.waiting cmd .blocking)

variable {calls : List Call} {mr : Option Nat} {old new : Call}

theorem CallsInv.fits_set (inv : CallsInv calls mr) (fits : new.Fits) :
    ∀ c ∈ calls.set k new, c.Fits := by
  intro c member
  rcases List.mem_or_eq_of_mem_set member with before | rfl
  · exact inv.fits c before
  · exact fits

/-- A call that does not hold `mr` moves on. -/
theorem CallsInv.move (inv : CallsInv calls mr) (was : calls[k]? = some old)
    (free : ∀ cmd, old ≠ .waiting cmd .blocking) (fits : new.Fits) :
    CallsInv (calls.set k new) mr where
  fits := inv.fits_set fits
  holds {j} held := by
    obtain ⟨cmd, holder⟩ := inv.holds held
    have apart : k ≠ j := by
      rintro rfl
      rw [was, Option.some.injEq] at holder
      exact free cmd holder
    exact ⟨cmd, by rw [List.getElem?_set_ne apart, holder]⟩

theorem CallsInv.take (inv : CallsInv calls mr) (was : calls[k]? = some old)
    (asks : cmd.wait_response = true) : CallsInv (calls.set k (.waiting cmd .blocking)) (some k) where
  fits := inv.fits_set asks
  holds held := by
    obtain rfl := Option.some.inj held
    exact ⟨cmd, List.getElem?_set_self (List.getElem?_eq_some_iff.mp was).1⟩

theorem CallsInv.release (inv : CallsInv calls mr) (fits : new.Fits) :
    CallsInv (calls.set k new) none where
  fits := inv.fits_set fits
  holds held := by cases held

theorem CallsInv.add (inv : CallsInv calls mr) : CallsInv (calls ++ [.pushed cmd]) mr where
  fits c member := by
    rcases List.mem_append.mp member with before | added
    · exact inv.fits c before
    · rw [List.mem_singleton.mp added]
      trivial
  holds held := by
    obtain ⟨cmd', holder⟩ := inv.holds held
    refine ⟨cmd', ?_⟩
    rw [List.getElem?_append_left (List.getElem?_eq_some_iff.mp holder).1, holder]

/-- A call found waiting wants a response. -/
theorem CallsInv.asks (inv : CallsInv calls mr) {w : Waiter}
    (found : calls[k]? = some (.waiting cmd w)) : cmd.wait_response = true :=
  inv.fits _ (List.mem_of_getElem? found)

theorem CallsInv.silent (inv : CallsInv calls mr) (found : calls[k]? = some (.cleared cmd)) :
    cmd.wait_response = false :=
  inv.fits _ (List.mem_of_getElem? found)

theorem callsInv_step (inv : CallsInv s.calls s.mr) (eff : Effect s a t) :
    CallsInv t.calls t.mr := by
  cases eff with
  | schedule => exact inv.add
  | notify was => exact inv.move was (by simp) trivial
  | wait was asks => exact inv.take was asks
  | sleep was => exact inv.release (inv.asks was)
  | spurious was => exact inv.move was (by simp) (inv.asks was)
  | resume was => exact inv.move was (by simp) trivial
  | clear was silent => exact inv.move was (by simp) silent
  | read was => exact inv.move was (by simp) trivial
  | wake _ was => exact inv.move was (by simp) (inv.asks was)
  | service | reply | miss | pass => exact inv

/-! ## The queue -/

/-- The commands pushed are those of the calls, in their order. -/
def PushedBy (calls : List Call) (pushed : List Scheduled) : Prop :=
  ∀ k, pushed[k]? = calls[k]?.map fun call => Scheduled.mk k call.cmd

/-- Nothing pushed is lost, and every call that has pushed is still to notify. -/
structure QueueInv (c : ConsumerLoop.State Scheduled) (calls : List Call) : Prop where
  kept : ConsumerLoop.Kept serviceLoop c
  pushed : PushedBy calls c.pushed
  pending : c.pending = calls.countP Call.isPushed

variable {pushed : List Scheduled}

theorem PushedBy.length (known : PushedBy calls pushed) : pushed.length = calls.length := by
  have ends : ∀ k, pushed.length ≤ k ↔ calls.length ≤ k := fun k => by
    rw [← List.getElem?_eq_none_iff, ← List.getElem?_eq_none_iff, known, Option.map_eq_none_iff]
  exact Nat.le_antisymm ((ends _).mpr le_rfl) ((ends _).mp le_rfl)

theorem PushedBy.set (known : PushedBy calls pushed) (was : calls[k]? = some old)
    (same : new.cmd = old.cmd) : PushedBy (calls.set k new) pushed := by
  intro j
  by_cases own : k = j
  · subst own
    rw [known, was, List.getElem?_set_self (List.getElem?_eq_some_iff.mp was).1]
    simp [same]
  · rw [known, List.getElem?_set_ne own]

theorem PushedBy.add (known : PushedBy calls pushed) :
    PushedBy (calls ++ [.pushed cmd]) (pushed ++ [⟨calls.length, cmd⟩]) := by
  intro j
  rcases Nat.lt_trichotomy j calls.length with inside | last | outside
  · rw [List.getElem?_append_left inside, List.getElem?_append_left (by rw [known.length]; exact inside),
      known]
  · subst last
    rw [← known.length, List.getElem?_concat_length, known.length, List.getElem?_concat_length]
    rfl
  · rw [List.getElem?_eq_none (by rw [List.length_append, known.length]; exact outside),
      List.getElem?_eq_none (by rw [List.length_append]; exact outside)]
    rfl

theorem countP_set (was : calls[k]? = some old) (new : Call) :
    (calls.set k new).countP Call.isPushed + (if old.isPushed then 1 else 0) =
      calls.countP Call.isPushed + (if new.isPushed then 1 else 0) := by
  obtain ⟨inside, here⟩ := List.getElem?_eq_some_iff.mp was
  have counted : (if old.isPushed then 1 else 0) ≤ calls.countP Call.isPushed := by
    split
    · rename_i pushes
      exact List.countP_pos_iff.mpr ⟨old, here ▸ List.getElem_mem inside, pushes⟩
    · exact Nat.zero_le _
  rw [List.countP_set inside, here]
  omega

/-- A call whose `c.notify_one` is past moves on. -/
theorem QueueInv.move (inv : QueueInv c calls) (was : calls[k]? = some old)
    (same : new.cmd = old.cmd) (past : old.isPushed = false) (stays : new.isPushed = false) :
    QueueInv c (calls.set k new) where
  kept := inv.kept
  pushed := inv.pushed.set was same
  pending := by
    have counted := countP_set was new
    simp only [past, stays, Bool.false_eq_true, ↓reduceIte, Nat.add_zero] at counted
    rw [inv.pending, counted]

/-- The service takes a step that pushes nothing and notifies nobody. -/
theorem QueueInv.serve {b : ConsumerLoop.Action Scheduled} (inv : QueueInv c calls)
    (ran : ConsumerLoop.step serviceLoop c b = some c') (pushed : c'.pushed = c.pushed)
    (pending : c'.pending = c.pending) : QueueInv c' calls where
  kept := ConsumerLoop.kept_step rfl inv.kept ran
  pushed := by rw [pushed]; exact inv.pushed
  pending := by rw [pending]; exact inv.pending

theorem QueueInv.handle (inv : QueueInv c calls)
    (ran : ConsumerLoop.step serviceLoop c .handle = some c') : QueueInv c' calls := by
  refine inv.serve ran ?_ ?_ <;>
  · obtain ⟨x, _, rfl⟩ := handle_ran ran
    rfl

theorem queueInv_step (inv : QueueInv s.service s.calls) (eff : Effect s a t) :
    QueueInv t.service t.calls := by
  cases eff with
  | schedule ran =>
    have kept := ConsumerLoop.kept_step rfl inv.kept ran
    rw [push_ran ran] at kept ⊢
    refine ⟨kept, inv.pushed.add, ?_⟩
    simp [inv.pending, Call.isPushed]
  | @notify k cmd c was ran =>
    have kept := ConsumerLoop.kept_step rfl inv.kept ran
    obtain ⟨n, pending, rfl⟩ := notify_ran ran
    refine ⟨kept, inv.pushed.set was rfl, ?_⟩
    have counted := countP_set was (.notified cmd)
    simp only [Call.isPushed, ↓reduceIte, Bool.false_eq_true, Nat.add_zero] at counted
    have before := inv.pending
    change n = (s.calls.set k (.notified cmd)).countP Call.isPushed
    omega
  | wait was => exact inv.move was rfl rfl rfl
  | sleep was => exact inv.move was rfl rfl rfl
  | spurious was => exact inv.move was rfl rfl rfl
  | resume was => exact inv.move was rfl rfl rfl
  | clear was => exact inv.move was rfl rfl rfl
  | read was => exact inv.move was rfl rfl rfl
  | service own ran =>
    obtain ⟨pushed, pending, _⟩ := frame_of_service own ran
    exact inv.serve ran pushed pending
  | reply => exact inv
  | wake _ was ran => exact (inv.handle ran).move was rfl rfl rfl
  | miss _ _ ran => exact inv.handle ran
  | pass _ _ ran => exact inv.handle ran

/-! ## The replies -/

/-- The calls whose reply is over: the service is done with their command. -/
def State.answered (s : State) : List Nat :=
  (s.service.handled.filter Scheduled.due).map Scheduled.call

/-- The call whose reply is stored and not yet notified. -/
def State.answering (s : State) : List Nat :=
  if s.notifying then s.service.consumer.inHand.map Scheduled.call else []

/-- `reply` is called once for each command that wants a response, in the order of the queue. -/
structure RepliedInv (s : State) : Prop where
  replied : s.replied.map Prod.fst = s.answered ++ s.answering
  stored : s.notifying = true → ∃ x, s.service.consumer = .handling x ∧ x.due = true

theorem not_guard_of_due (due : x.due = true) : serviceLoop.guard x = false := by
  simp only [Scheduled.due, Bool.and_eq_true, Bool.not_eq_eq_eq_not, Bool.not_true] at due
  exact due.1.1

theorem repliedInv_step (inv : RepliedInv s) (eff : Effect s a t) : RepliedInv t := by
  obtain ⟨replied, stored⟩ := inv
  cases eff with
  | schedule ran =>
    rw [push_ran ran]
    exact ⟨replied, stored⟩
  | notify _ ran =>
    obtain ⟨n, _, rfl⟩ := notify_ran ran
    refine ⟨?_, fun noted => ?_⟩
    · simpa [State.answered, State.answering] using replied
    · obtain ⟨x, hands, due⟩ := stored noted
      exact ⟨x, by simp [hands, ConsumerLoop.Consumer.wake], due⟩
  | service own ran =>
    obtain ⟨_, _, handled⟩ := frame_of_service own ran
    cases noted : s.notifying with
    | false => exact ⟨by simpa [State.answered, State.answering, noted, handled] using replied,
        by simp⟩
    | true =>
      obtain ⟨x, hands, due⟩ := stored noted
      have still := handling_of_service own hands ran
      refine ⟨?_, fun _ => ⟨x, still, due⟩⟩
      simpa [State.answered, State.answering, noted, handled, hands, still] using replied
  | reply hands due idle =>
    refine ⟨?_, fun _ => ⟨_, hands, due⟩⟩
    simpa [State.answered, State.answering, idle, hands, ConsumerLoop.Consumer.inHand] using replied
  | wake noted _ ran | miss noted _ ran =>
    obtain ⟨x, hands, rfl⟩ := handle_ran ran
    obtain ⟨y, same, due⟩ := stored noted
    obtain rfl : x = y := by simpa [hands] using same
    refine ⟨?_, by simp⟩
    simpa [State.answered, State.answering, noted, hands, ConsumerLoop.Consumer.inHand,
      not_guard_of_due due, due] using replied
  | pass hands due ran =>
    obtain ⟨y, same, rfl⟩ := handle_ran ran
    obtain rfl : _ = y := by simpa [hands] using same
    have idle : s.notifying = false := by
      cases noted : s.notifying with
      | false => rfl
      | true =>
        obtain ⟨z, other, wants⟩ := stored noted
        obtain rfl : _ = z := by simpa [hands] using other
        rw [due] at wants
        cases wants
    refine ⟨?_, by simp [idle]⟩
    simp only [State.answered, State.answering, idle] at replied ⊢
    split
    · simpa using replied
    · simpa [due] using replied
  | _ => exact ⟨replied, stored⟩

/-- What holds of the buffer, its calls and its service whatever the schedule. -/
structure Sound (s : State) : Prop where
  calls : CallsInv s.calls s.mr
  queue : QueueInv s.service s.calls
  replies : RepliedInv s

theorem sound_step (sound : Sound s) (ran : step s a = some t) : Sound t := by
  have eff := effect_of_step ran
  exact ⟨callsInv_step sound.calls eff, queueInv_step sound.queue eff,
    repliedInv_step sound.replies eff⟩

theorem reachable_sound (reached : system.Reachable s) : Sound s := by
  refine reached.invariant ?_ fun s a t sound ran => sound_step sound ran
  rintro _ rfl
  exact ⟨⟨by simp, by simp⟩, ⟨rfl, fun k => rfl, rfl⟩, ⟨rfl, by simp⟩⟩

theorem PushedBy.nodup (known : PushedBy calls pushed) : (pushed.map Scheduled.call).Nodup := by
  have numbered : pushed.map Scheduled.call = List.range calls.length := by
    refine List.ext_getElem? fun k => ?_
    rw [List.getElem?_map, known]
    by_cases inside : k < calls.length
    · simp [inside]
    · simp [inside]
  rw [numbered]
  exact List.nodup_range

/-- What the service has handled, with what it has in hand, was pushed in that order. -/
theorem Sound.taken (sound : Sound s) (hands : s.service.consumer = .handling x)
    (due : x.due = true) : (s.service.handled ++ [x]).Sublist s.service.pushed := by
  have kept := sound.queue.kept
  simp only [ConsumerLoop.Kept, hands, ConsumerLoop.Consumer.inHand, List.filter_append,
    ← List.append_assoc] at kept
  refine .trans ?_ (kept ▸ List.filter_sublist)
  simp [not_guard_of_due due]

/-- A command in hand is that of its call. -/
theorem Sound.own (sound : Sound s) (hands : s.service.consumer = .handling x)
    (due : x.due = true) : ∃ call, s.calls[x.call]? = some call ∧ call.cmd = x.cmd := by
  have member := (sound.taken hands due).subset (List.mem_append_right _ List.mem_cons_self)
  obtain ⟨k, here⟩ := List.mem_iff_getElem?.mp member
  rw [sound.queue.pushed, Option.map_eq_some_iff] at here
  obtain ⟨call, found, rfl⟩ := here
  exact ⟨call, found, rfl⟩

theorem Sound.answered_hand (sound : Sound s) (hands : s.service.consumer = .handling x)
    (due : x.due = true) : (s.answered ++ [x.call]).Nodup := by
  refine List.Nodup.sublist ?_ (sound.queue.pushed.nodup)
  refine .trans ?_ ((sound.taken hands due).map Scheduled.call)
  rw [List.map_append]
  exact (List.filter_sublist.map _).append (.refl _)

/-- No reply has been made for a command in hand before `reply` is called. -/
theorem Sound.unreplied (sound : Sound s) (hands : s.service.consumer = .handling x)
    (due : x.due = true) (idle : s.notifying = false) : x.call ∉ s.replied.map Prod.fst := by
  rw [sound.replies.replied, State.answering, idle]
  intro member
  exact (List.nodup_append.mp (sound.answered_hand hands due)).2.2 x.call (by simpa using member)
    x.call List.mem_cons_self rfl

/-- `reply` is called at most once for a call. -/
theorem Sound.replied_once (sound : Sound s) : (s.replied.map Prod.fst).Nodup := by
  rw [sound.replies.replied, State.answering]
  split
  · rename_i noted
    obtain ⟨x, hands, due⟩ := sound.replies.stored noted
    rw [hands]
    exact sound.answered_hand hands due
  · rw [List.append_nil]
    have kept : s.service.handled.Sublist (s.service.pushed.filter (!serviceLoop.guard ·)) := by
      rw [show s.service.pushed.filter _ = _ from sound.queue.kept]
      exact List.sublist_append_left _ _
    exact .sublist ((List.filter_sublist.trans (kept.trans List.filter_sublist)).map _)
      sound.queue.pushed.nodup

end CmdBuffer

end DCScan
