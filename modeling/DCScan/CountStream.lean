import DCScan.EventBytes
import DCScan.EventStream

/-!
Count events, from the callbacks of the device to those of the client.

The loop of `DCSCountEvent` is the consumer of `ConsumerLoop` over `dcs_task_data`. What it gets it emits
into a session of `EventStream`, among the events of all other threads: `EmitEvent` tests the
subscription first and pushes later. No other thread emits under this loop's name, and acquisitions
come one after another, as in `Acquisition`.
-/

namespace DCScan.CountStream

open Lib Message Generator Marshalling RemoteCalls
open EventBytes (Object Passed)
open Framing (ibBuffSize)

variable {τ : Type}

/-- `DCSCountEvent` over `GetLastDCS_IVD`. -/
def dcsLoop (ivd_nu : Object) : Loop Object := ⟨ivd_nu, fun ivd => decide (Passed ivd)⟩

structure State (lay : Layout τ) where
  /-- The queue, the loop and `StopEventLoop`. -/
  loop : ConsumerLoop.State Object
  session : Streaming lay
  /-- What `EmitEvent` was called with, and whether its test found a subscription. -/
  tested : List (Object × Bool)

inductive Action (lay : Layout τ) where
  | StartEventLoop
  /-- A step of the loop outside `EmitEvent`, of a callback or of `StopEventLoop`. -/
  | loop (a : ConsumerLoop.Action Object)
  /-- The test of the loop's `EmitEvent`. -/
  | test
  /-- A step of the session, among them the push of the loop's `EmitEvent`. -/
  | session (a : RemoteCalls.Action lay)

/-- The data of the events with this id. -/
def dataOf (evt : UInt8) (xs : List Emission) : List (List UInt8) :=
  (xs.filter (·.1 = evt)).map Prod.snd

variable {lay : Layout τ}

/-- What the loop has tested and not pushed. -/
def State.pushing (s : State lay) (evt : UInt8) : List (List UInt8) :=
  dataOf evt s.session.remote.session.events.emitting

/-- Another thread's test under the loop's name. -/
def foreign (evt : UInt8) : RemoteCalls.Action lay → Bool
  | .inside (.emitTest e _) => e = evt
  | _ => false

/-- The push is that of the loop. -/
def returns (s : State lay) (evt : UInt8) (a : RemoteCalls.Action lay) : Bool :=
  (pushed s.session.remote a).any (·.1 = evt)

/-- The loop is not done with an event that it has not emitted. -/
def unemitted (loop : ConsumerLoop.State Object) : ConsumerLoop.Action Object → Bool
  | .handle => loop.consumer.inHand.any fun ivd => decide ¬Passed ivd
  | _ => false

/-- The loop, behind `EmitEvent` when that has returned. -/
def behind (ivd_nu : Object) (loop : ConsumerLoop.State Object) (returned : Bool) :
    Option (ConsumerLoop.State Object) :=
  if returned then ConsumerLoop.step (dcsLoop ivd_nu) loop .handle else some loop

section

variable [DecidableEq τ] (lay) {headers : List Header} (run : Run headers)
variable (impl : Nat → Text → List (Any lay) → Any lay) (maxSub evt : UInt8) (ivd_nu : Object)

def step (s : State lay) : Action lay → Option (State lay)
  | .StartEventLoop =>
    if s.loop.stopper = .done then
      some { s with loop := { s.loop with running := true, consumer := .testing, stopper := .working } }
    else none
  | .loop a =>
    if unemitted s.loop a then none
    else (ConsumerLoop.step (dcsLoop ivd_nu) s.loop a).map fun loop => { s with loop := loop }
  | .test =>
    match s.loop.consumer with
    | .handling ivd =>
      if Passed ivd ∨ s.pushing evt ≠ [] then none else do
        let subscribed ← CheckEvent maxSub s.session.remote.session.events.subscriptions evt
        let session ← Streaming.step lay run impl maxSub s.session (.inside (.emitTest evt ivd.bytes))
        let loop ← behind ivd_nu s.loop !subscribed
        return ⟨loop, session, s.tested ++ [(ivd, subscribed)]⟩
    | _ => none
  | .session a =>
    if foreign evt a then none else do
      let session ← Streaming.step lay run impl maxSub s.session a
      let loop ← behind ivd_nu s.loop (returns s evt a)
      return { s with loop := loop, session := session }

def system : System (State lay) (Action lay) where
  init s := ∃ session, (streaming lay run impl maxSub).init session ∧
    s = ⟨⟨false, [], 0, .finished, .done, [], []⟩, session, []⟩
  step := step lay run impl maxSub evt ivd_nu

end

/-- The events of other threads fit the queue. -/
def OthersFit : Action lay → Prop
  | .session a => EventsFit a
  | _ => True

/-- The objects whose test has found a subscription. -/
def State.sent (s : State lay) : List Object := (s.tested.filter Prod.snd).map Prod.fst

/-- Nothing is queued or under way. -/
structure AtRest (s : State lay) : Prop where
  queue : s.loop.queue = []
  hand : s.loop.consumer.inHand = []
  outbound : s.session.remote.session.serverOutbound = []
  quiet : Quiet s.session.remote.down
  current : s.session.current = none

variable {s t : State lay} {evt maxSub : UInt8} {xs ys : List Emission} {x : Emission} {ivd_nu : Object}

/-! ## The data of some events -/

@[simp] theorem dataOf_append : dataOf evt (xs ++ ys) = dataOf evt xs ++ dataOf evt ys := by
  simp [dataOf]

theorem dataOf_same (evtData : List UInt8) : dataOf evt [(evt, evtData)] = [evtData] := by
  simp [dataOf]

theorem dataOf_other {evtData : List UInt8} {e : UInt8} (other : e ≠ evt) :
    dataOf evt [(e, evtData)] = [] := by simp [dataOf, other]

/-- What is taken out of a list, and what is left. -/
theorem exists_split_of_getElem? {k : Nat} (there : xs[k]? = some x) : ∃ before after,
    xs = before ++ ([x] ++ after) ∧ xs.eraseIdx k = before ++ after := by
  obtain ⟨inside, rfl⟩ := List.getElem?_eq_some_iff.mp there
  refine ⟨xs.take k, xs.drop (k + 1), ?_, List.eraseIdx_eq_take_drop_succ ..⟩
  rw [List.singleton_append, List.getElem_cons_drop, List.take_append_drop]

theorem dataOf_eraseIdx_other {k : Nat} (there : xs[k]? = some x) (other : x.1 ≠ evt) :
    dataOf evt (xs.eraseIdx k) = dataOf evt xs := by
  obtain ⟨before, after, rfl, left⟩ := exists_split_of_getElem? there
  rw [left, dataOf_append, dataOf_append, dataOf_append, dataOf_other other, List.nil_append]

theorem dataOf_ne_nil {k : Nat} (there : xs[k]? = some x) (same : x.1 = evt) : dataOf evt xs ≠ [] := by
  have member : x ∈ xs.filter (·.1 = evt) :=
    List.mem_filter.mpr ⟨List.mem_of_getElem? there, decide_eq_true same⟩
  exact List.ne_nil_of_mem (List.mem_map_of_mem member)

/-- The only one with its id. -/
theorem dataOf_eraseIdx_same {k : Nat} {evtData : List UInt8} (there : xs[k]? = some x)
    (same : x.1 = evt) (only : dataOf evt xs = [evtData]) :
    dataOf evt (xs.eraseIdx k) = [] ∧ x.2 = evtData := by
  obtain ⟨before, after, rfl, left⟩ := exists_split_of_getElem? there
  subst same
  rw [left]
  rw [dataOf_append, dataOf_append, dataOf_same] at only
  have count := congrArg List.length only
  simp only [List.length_append, List.length_singleton] at count
  have none_before : dataOf x.1 before = [] := List.eq_nil_of_length_eq_zero (by omega)
  have none_after : dataOf x.1 after = [] := List.eq_nil_of_length_eq_zero (by omega)
  rw [none_before, none_after] at only
  rw [dataOf_append, none_before, none_after]
  exact ⟨rfl, by simpa using only⟩

/-! ## What the steps of the session do to the events under way -/

/-- What a step does to the `EmitEvent` calls behind their test. -/
inductive Emits (maxSub : UInt8) (s : Session.State) (a : RemoteCalls.Action lay)
    (t : Session.State) : Prop where
  | aside (other : isEmission a = false) (same : t.events.emitting = s.events.emitting)
  | test {e evtData subscribed} (tests : a = .inside (.emitTest e evtData))
      (checked : CheckEvent maxSub s.events.subscriptions e = some subscribed)
      (added : t.events.emitting =
        if subscribed then s.events.emitting ++ [(e, evtData)] else s.events.emitting)
  | push {k mem x} (pushes : a = .inside (.emitPush k mem)) (pending : s.events.emitting[k]? = some x)
      (left : t.events.emitting = s.events.emitting.eraseIdx k)

theorem emits_of_inside {s t : Session.State} {a : Session.Action} (inside : isInside a = true)
    (ran : Session.step maxSub s a = some t) :
    Emits maxSub s (.inside a : RemoteCalls.Action lay) t := by
  cases Session.turn_of_step ran with
  | announce _ made =>
    obtain ⟨_, _, rfl⟩ := Option.map_eq_some_iff.mp made
    exact .aside rfl rfl
  | take => exact .aside rfl (untouched_of_waitForId ..).emitting
  | clientDispatch => exact .aside rfl (untouched_of_dispatchUserData _).emitting
  | emitTest _ tested =>
    refine .test rfl tested ?_
    split <;> rfl
  | emitPush pending => exact .push rfl pending rfl
  | request | clientSend | serverSend | serverDecode | clientDecode => cases inside
  | _ => exact .aside rfl rfl

theorem emitting_of_serverSwitch {s t : Session.State} {m : Session.Tagged} {r : SVReturn}
    {mem : Uninit} (ran : Session.serverSwitch maxSub s m r mem = some t) :
    t.events.emitting = s.events.emitting := by
  obtain ⟨d, _, rfl⟩ := Option.map_eq_some_iff.mp ran
  split <;> rfl

/-! ## The invariant -/

/-- Where the loop stands with what it has tested. -/
inductive Stand (evt : UInt8) (s : State lay) : Prop where
  | apart (pushing : s.pushing evt = []) (handled : s.tested.map Prod.fst = s.loop.handled)
  | pushing {ivd} (stand : s.loop.consumer = .handling ivd) (counts : ¬Passed ivd)
      (pushing : s.pushing evt = [ivd.bytes])
      (handled : s.tested.map Prod.fst = s.loop.handled ++ [ivd])

structure Inv (ivd_nu : Object) (evt : UInt8) (s : State lay) : Prop where
  streamed : Streamed s.session
  kept : ConsumerLoop.Kept (dcsLoop ivd_nu) s.loop
  stand : Stand evt s
  emitted : dataOf evt s.session.emitted ++ s.pushing evt = s.sent.map Object.bytes
  joined : s.loop.stopper = .done → s.loop.consumer = .finished

theorem joined_step {s t : ConsumerLoop.State Object} {a : ConsumerLoop.Action Object}
    (joined : s.stopper = .done → s.consumer = .finished)
    (ran : ConsumerLoop.step (dcsLoop ivd_nu) s a = some t) : t.stopper = .done → t.consumer = .finished := by
  intro done
  cases ConsumerLoop.turn_of_step ran with
  | test stand | enter_empty stand | block stand | spurious stand | handle stand =>
    rw [joined done] at stand
    cases stand
  | enter stand | resume stand =>
    rw [joined (ConsumerLoop.pop_stopper.symm.trans done)] at stand
    cases stand
  | push => exact joined done
  | notify => simp [joined done, ConsumerLoop.Consumer.wake]
  | clear | unblock => cases done
  | join _ ended => exact ended

/-- A loop that does not end a turn with an event. -/
theorem handled_of_loop {s t : ConsumerLoop.State Object} {a : ConsumerLoop.Action Object}
    (emits : unemitted s a = false) (ran : ConsumerLoop.step (dcsLoop ivd_nu) s a = some t) :
    t.handled = s.handled ∧
      ∀ ivd, s.consumer = .handling ivd → ¬Passed ivd → t.consumer = .handling ivd := by
  cases ConsumerLoop.turn_of_step ran with
  | @handle ivd stand =>
    have passed : Passed ivd := by simpa [unemitted, stand, ConsumerLoop.Consumer.inHand] using emits
    refine ⟨by simp [dcsLoop, passed], fun other stand' counts => ?_⟩
    cases stand.symm.trans stand'
    exact absurd passed counts
  | test stand | enter_empty stand | block stand | spurious stand =>
    exact ⟨rfl, fun ivd stand' => by cases stand.symm.trans stand'⟩
  | enter stand | resume stand =>
    exact ⟨ConsumerLoop.pop_handled, fun ivd stand' => by cases stand.symm.trans stand'⟩
  | push | clear | join => exact ⟨rfl, fun ivd stand _ => stand⟩
  | notify | unblock => exact ⟨rfl, fun ivd stand _ => by rw [stand]; rfl⟩

/-- The loop's turn ends with an event. -/
theorem handle_of_counts {s t : ConsumerLoop.State Object} {ivd : Object}
    (stand : s.consumer = .handling ivd) (counts : ¬Passed ivd)
    (ran : ConsumerLoop.step (dcsLoop ivd_nu) s .handle = some t) : t.handled = s.handled ++ [ivd] := by
  cases ConsumerLoop.turn_of_step ran with
  | handle stand' =>
    cases stand.symm.trans stand'
    simp [dcsLoop, counts]

theorem Inv.start (inv : Inv ivd_nu evt s) (done : s.loop.stopper = .done) : Inv ivd_nu evt
    { s with loop := { s.loop with running := true, consumer := .testing, stopper := .working } } where
  streamed := inv.streamed
  kept := by
    have kept := inv.kept
    rw [ConsumerLoop.Kept, inv.joined done] at kept
    exact kept
  stand := by
    cases inv.stand with
    | apart pushing handled => exact .apart pushing handled
    | pushing stand => cases (inv.joined done).symm.trans stand
  emitted := inv.emitted
  joined := nofun

theorem Inv.loop (nothing : Passed ivd_nu) (inv : Inv ivd_nu evt s) {a : ConsumerLoop.Action Object}
    {loop : ConsumerLoop.State Object} (emits : unemitted s.loop a = false)
    (ran : ConsumerLoop.step (dcsLoop ivd_nu) s.loop a = some loop) :
    Inv ivd_nu evt { s with loop := loop } := by
  obtain ⟨same, still⟩ := handled_of_loop emits ran
  refine ⟨inv.streamed, ConsumerLoop.kept_step (decide_eq_true nothing) inv.kept ran, ?_, inv.emitted,
    joined_step inv.joined ran⟩
  cases inv.stand with
  | apart pushing handled => exact .apart pushing (handled.trans same.symm)
  | pushing stand counts pushing handled =>
    exact .pushing (still _ stand counts) counts pushing (by rw [handled, same])

/-- What counts of the pushed objects: what is tested comes first. -/
theorem Inv.tested_first (inv : Inv ivd_nu evt s) :
    s.tested.map Prod.fst <+: s.loop.pushed.filter fun ivd => decide ¬Passed ivd := by
  have kept : s.loop.pushed.filter (fun ivd => !decide (Passed ivd)) = s.loop.handled ++
      (s.loop.consumer.inHand ++ s.loop.queue).filter (fun ivd => !decide (Passed ivd)) := inv.kept
  simp only [decide_not, kept]
  cases inv.stand with
  | apart _ handled => exact ⟨_, by rw [handled]⟩
  | pushing stand counts _ handled =>
    refine ⟨s.loop.queue.filter fun ivd => !decide (Passed ivd), ?_⟩
    rw [handled, stand]
    simp [ConsumerLoop.Consumer.inHand, counts]

/-- At rest all of them have been tested. -/
theorem Inv.all_tested (inv : Inv ivd_nu evt s) (rests : AtRest s) : s.pushing evt = [] ∧
    s.tested.map Prod.fst = s.loop.pushed.filter fun ivd => decide ¬Passed ivd := by
  have kept : s.loop.pushed.filter (fun ivd => !decide (Passed ivd)) = s.loop.handled ++
      (s.loop.consumer.inHand ++ s.loop.queue).filter (fun ivd => !decide (Passed ivd)) := inv.kept
  rw [rests.hand, rests.queue] at kept
  cases inv.stand with
  | apart pushing handled =>
    simp only [decide_not, kept]
    exact ⟨pushing, by simpa using handled⟩
  | pushing stand =>
    have hand := rests.hand
    rw [stand] at hand
    cases hand

/-- What the client's callback has been called with. -/
def State.calls (s : State lay) (evt : UInt8) : List (List UInt8) := dataOf evt s.session.called

section

variable [DecidableEq τ] {headers : List Header} {run : Run headers}
variable {impl : Nat → Text → List (Any lay) → Any lay}

theorem emits_of_moves {s t : RemoteCalls.State lay} {a : RemoteCalls.Action lay}
    (moves : Moves run impl maxSub s a t) : Emits maxSub s.session a t.session := by
  cases moves with
  | call _ _ _ drew =>
    cases Session.turn_of_step drew with
    | request _ _ made =>
      obtain ⟨_, _, rfl⟩ := Option.map_eq_some_iff.mp made
      exact .aside rfl rfl
  | clientSend | serverSend => exact .aside rfl rfl
  | upward reads | downward reads =>
    refine .aside ?_ rfl
    cases a with
    | inside => cases reads
    | _ => rfl
  | serverDecode _ _ _ switched =>
    have same := emitting_of_serverSwitch switched
    exact .aside rfl same
  | clientDecode _ _ _ switched =>
    have same := (untouched_of_clientSwitch switched).emitting
    exact .aside rfl same
  | inside apart ran => exact emits_of_inside apart ran

/-- What a step of the session does to the records of its events. -/
theorem emits_of_step {x y : Streaming lay} {a : RemoteCalls.Action lay}
    (ran : Streaming.step lay run impl maxSub x a = some y) :
    y.emitted = x.emitted ++ (pushed x.remote a).toList ∧
      Emits maxSub x.remote.session a y.remote.session := by
  obtain ⟨remote, stepped, rfl⟩ := Option.map_eq_some_iff.mp ran
  exact ⟨rfl, emits_of_moves (moves_of_step stepped)⟩

/-- The test of the loop's `EmitEvent`. -/
theorem Inv.test (inv : Inv ivd_nu evt s) {ivd : Object} {subscribed : Bool} {session : Streaming lay}
    {loop : ConsumerLoop.State Object} (nothing : Passed ivd_nu)
    (stand : s.loop.consumer = .handling ivd) (counts : ¬Passed ivd) (free : s.pushing evt = [])
    (checked : CheckEvent maxSub s.session.remote.session.events.subscriptions evt = some subscribed)
    (ran : Streaming.step lay run impl maxSub s.session (.inside (.emitTest evt ivd.bytes)) = some session)
    (ends : behind ivd_nu s.loop (!subscribed) = some loop) : Inv ivd_nu evt ⟨loop, session, s.tested ++ [(ivd, subscribed)]⟩ := by
  have fits : EventsFit (.inside (.emitTest evt ivd.bytes) : RemoteCalls.Action lay) := by
    simp [EventsFit, FitsQueue, EventBytes.bytes_length, ibBuffSize]
  have streamed := streamed_step inv.streamed fits ran
  obtain ⟨emitted, emits⟩ := emits_of_step ran
  have same : session.emitted = s.session.emitted := by simpa [pushed] using emitted
  have handled : s.tested.map Prod.fst = s.loop.handled := by
    cases inv.stand with
    | apart _ handled => exact handled
    | pushing _ _ pushing => cases free.symm.trans pushing
  have all := inv.emitted
  rw [free, List.append_nil] at all
  cases emits with
  | aside other => cases other
  | push pushes => cases pushes
  | test tests checked' added =>
    cases tests
    cases checked.symm.trans checked'
    cases subscribed with
    | true =>
      cases ends
      have pushing : State.pushing ⟨s.loop, session, s.tested ++ [(ivd, true)]⟩ evt = [ivd.bytes] := by
        have before : dataOf evt s.session.remote.session.events.emitting = [] := free
        rw [State.pushing, added, if_pos rfl, dataOf_append, before, dataOf_same]
        rfl
      refine ⟨streamed, inv.kept, .pushing stand counts pushing ?_, ?_, inv.joined⟩
      · rw [List.map_append, handled]
        rfl
      · rw [pushing, same, all]
        simp [State.sent]
    | false =>
      have pushing : State.pushing ⟨loop, session, s.tested ++ [(ivd, false)]⟩ evt = [] := by
        rw [State.pushing, added]
        exact free
      have ends : ConsumerLoop.step (dcsLoop ivd_nu) s.loop .handle = some loop := ends
      have kept := ConsumerLoop.kept_step (decide_eq_true nothing) inv.kept ends
      refine ⟨streamed, kept, .apart pushing ?_, ?_, joined_step inv.joined ends⟩
      · rw [handle_of_counts stand counts ends, List.map_append, handled]
        rfl
      · rw [pushing, List.append_nil, same, all]
        simp [State.sent]

/-- A step of the session: of other threads, or the push of the loop's `EmitEvent`. -/
theorem Inv.session (inv : Inv ivd_nu evt s) {a : RemoteCalls.Action lay} {session : Streaming lay}
    {loop : ConsumerLoop.State Object} (nothing : Passed ivd_nu) (fits : EventsFit a)
    (other : foreign evt a = false)
    (ran : Streaming.step lay run impl maxSub s.session a = some session)
    (ends : behind ivd_nu s.loop (returns s evt a) = some loop) :
    Inv ivd_nu evt { s with loop := loop, session := session } := by
  have streamed := streamed_step inv.streamed fits ran
  obtain ⟨emitted, emits⟩ := emits_of_step ran
  -- a step that leaves the loop's events as they are
  have aside (none_pushed : dataOf evt (pushed s.session.remote a).toList = [])
      (stays : returns s evt a = false)
      (same : dataOf evt session.remote.session.events.emitting = s.pushing evt) :
      Inv ivd_nu evt { s with loop := loop, session := session } := by
    rw [stays] at ends
    cases ends
    refine ⟨streamed, inv.kept, ?_, ?_, inv.joined⟩
    · cases inv.stand with
      | apart pushing handled => exact .apart (same.trans pushing) handled
      | pushing stand counts pushing handled =>
        exact .pushing stand counts (same.trans pushing) handled
    · rw [emitted, dataOf_append, none_pushed, List.append_nil]
      exact (congrArg _ same).trans inv.emitted
  cases emits with
  | aside quiet same =>
    have none_pushed : pushed s.session.remote a = none := by
      cases a with
      | inside b => cases b <;> first | rfl | cases quiet
      | _ => rfl
    exact aside (by rw [none_pushed]; rfl) (by rw [returns, none_pushed]; rfl)
      (congrArg (dataOf evt) same)
  | @test e evtData subscribed tests _ added =>
    subst tests
    have differs : e ≠ evt := by simpa [foreign] using other
    refine aside rfl rfl ?_
    rw [added]
    cases subscribed with
    | true => rw [if_pos rfl, dataOf_append, dataOf_other differs, List.append_nil]; rfl
    | false => rfl
  | @push k mem x pushes pending left =>
    subst pushes
    have pushed_eq : pushed s.session.remote (.inside (.emitPush k mem)) = some x := pending
    by_cases mine : x.1 = evt
    · have ours : returns s evt (.inside (.emitPush k mem)) = true := by
        rw [returns, pushed_eq, Option.any_some, decide_eq_true mine]
      rw [behind, if_pos ours] at ends
      have kept := ConsumerLoop.kept_step (decide_eq_true nothing) inv.kept ends
      cases inv.stand with
      | apart pushing => exact absurd pushing (dataOf_ne_nil pending mine)
      | @pushing ivd stand counts pushing handled =>
        obtain ⟨none_left, evtData⟩ := dataOf_eraseIdx_same pending mine pushing
        have emptied : dataOf evt session.remote.session.events.emitting = [] := by
          rw [left]
          exact none_left
        refine ⟨streamed, kept, .apart emptied ?_, ?_, joined_step inv.joined ends⟩
        · rw [handle_of_counts stand counts ends]
          exact handled
        · have all := inv.emitted
          rw [pushing] at all
          have one : dataOf evt [x] = [ivd.bytes] := by
            rw [← evtData, ← mine]
            exact dataOf_same x.2
          rw [State.pushing, emptied, List.append_nil, emitted, pushed_eq, dataOf_append,
            Option.toList_some, one]
          exact all
    · refine aside ?_ ?_ ?_
      · rw [pushed_eq]
        exact dataOf_other mine
      · rw [returns, pushed_eq, Option.any_some, decide_eq_false mine]
      · rw [left]
        exact dataOf_eraseIdx_other pending mine

theorem inv_step {a : Action lay} (nothing : Passed ivd_nu) (inv : Inv ivd_nu evt s) (fits : OthersFit a)
    (ran : step lay run impl maxSub evt ivd_nu s a = some t) : Inv ivd_nu evt t := by
  cases a with
  | StartEventLoop =>
    simp only [step, Option.ite_none_right_eq_some] at ran
    obtain ⟨done, same⟩ := ran
    cases same
    exact inv.start done
  | loop a =>
    simp only [step, Option.ite_none_left_eq_some] at ran
    obtain ⟨emitted, ran⟩ := ran
    obtain ⟨loop, stepped, rfl⟩ := Option.map_eq_some_iff.mp ran
    exact inv.loop nothing (Bool.eq_false_of_not_eq_true emitted) stepped
  | test =>
    simp only [step] at ran
    split at ran
    · rename_i ivd stand
      rw [Option.ite_none_left_eq_some] at ran
      obtain ⟨counts, ran⟩ := ran
      obtain ⟨subscribed, checked, ran⟩ := Option.bind_eq_some_iff.mp ran
      obtain ⟨session, stepped, rest⟩ := Option.bind_eq_some_iff.mp ran
      obtain ⟨loop, ends, same⟩ := Option.bind_eq_some_iff.mp rest
      cases same
      rw [not_or, not_not] at counts
      exact inv.test nothing stand counts.1 counts.2 checked stepped ends
    · cases ran
  | session a =>
    simp only [step, Option.ite_none_left_eq_some] at ran
    obtain ⟨other, ran⟩ := ran
    obtain ⟨session, stepped, rest⟩ := Option.bind_eq_some_iff.mp ran
    obtain ⟨loop, ends, same⟩ := Option.bind_eq_some_iff.mp rest
    cases same
    exact inv.session nothing fits (Bool.eq_false_of_not_eq_true other) stepped ends

theorem reachable_inv (nothing : Passed ivd_nu)
    (reached : (system lay run impl maxSub evt ivd_nu).ReachableBy (fun _ a => OthersFit a) s) :
    Inv ivd_nu evt s := by
  refine reached.invariant ?_ fun _ _ _ inv fits ran => inv_step nothing inv fits ran
  rintro _ ⟨_, ⟨nid, serverNid, block, block', size, size', rfl⟩, rfl⟩
  exact ⟨streamed_start size size', rfl, .apart rfl rfl, rfl, fun _ => rfl⟩

/-- **Counts come in order.** The client's callback is called with the bytes of objects that were pushed
to the loop's queue, in the order of the pushes and each at most once; and with those of all of them
that count when all were tested while there was a subscription and nothing is under way any more. -/
theorem counts_in_order (nothing : Passed ivd_nu)
    (reached : (system lay run impl maxSub evt ivd_nu).ReachableBy (fun _ a => OthersFit a) s) :
    s.calls evt <+: s.sent.map Object.bytes ∧ s.sent.Sublist s.loop.pushed ∧
      (AtRest s → (∀ x ∈ s.tested, x.2 = true) →
        s.calls evt = (s.loop.pushed.filter fun ivd => decide ¬Passed ivd).map Object.bytes) := by
  have inv := reachable_inv nothing reached
  obtain ⟨called, all_called⟩ := inv.streamed.called
  refine ⟨?_, ?_, fun rests heard => ?_⟩
  · have first : s.calls evt <+: dataOf evt s.session.emitted := (called.filter _).map _
    exact first.trans ⟨_, inv.emitted⟩
  · have tested : s.sent.Sublist (s.tested.map Prod.fst) := List.filter_sublist.map _
    exact tested.trans (inv.tested_first.sublist.trans List.filter_sublist)
  · obtain ⟨free, tested⟩ := inv.all_tested rests
    have emitted := inv.emitted
    rw [free, List.append_nil, State.sent, List.filter_eq_self.mpr heard, tested] at emitted
    rw [State.calls, all_called rests.outbound rests.quiet rests.current]
    exact emitted

/-! ## An event that counts -/

/-- What the session does without emitting, it does beside the loop. -/
theorem steps_of_silent {x y : Streaming lay} {loop : ConsumerLoop.State Object}
    {tested : List (Object × Bool)} (steps : SilentSteps run impl maxSub x y) :
    (system lay run impl maxSub evt ivd_nu).Steps (fun _ a => OthersFit a) ⟨loop, x, tested⟩
      ⟨loop, y, tested⟩ := by
  induction steps with
  | refl => exact .refl _
  | @step x y _ a met ran _ ih =>
    have stepped : Streaming.step lay run impl maxSub x a = some y := ran
    have quiet : foreign evt a = false ∧ returns ⟨loop, x, tested⟩ evt a = false := by
      cases a with
      | inside b => cases b <;> first | exact ⟨rfl, rfl⟩ | cases met.2
      | _ => exact ⟨rfl, rfl⟩
    refine .step (a := .session a) met.1 ?_ ih
    simp [system, step, quiet, stepped, behind]

end

/-- An object that stands for none. -/
def nobody : Object :=
  ⟨⟨⟨18446744073709551615, [], []⟩, 0, EventBytes.midnight, 0, 0, 0, 0, 0, 0, 0, 0, 0, 0, 0, 0⟩, 1, 1,
    0, by decide, by decide⟩

/-- One count. -/
def counted : Object :=
  ⟨⟨⟨1, [], []⟩, 0, EventBytes.midnight, 0, 0, 0, 0, 0, 0, 0, 0, 0, 0, 0, 0⟩, 1, 1, 0, by decide,
    by decide⟩

/-- It is called once. -/
theorem counts_in_order_once : ∃ s : State readLayout, s.calls 1 = [counted.bytes] ∧
    s.calls 1 <+: s.sent.map Object.bytes ∧ s.sent.Sublist s.loop.pushed ∧
      (AtRest s → (∀ x ∈ s.tested, x.2 = true) →
        s.calls 1 = (s.loop.pushed.filter fun ivd => decide ¬Passed ivd).map Object.bytes) := by
  let idle : ConsumerLoop.State Object := ⟨false, [], 0, .finished, .done, [], []⟩
  have first : (system readLayout readRun readImpl 1 1 nobody).ReachableBy (fun _ a => OthersFit a)
      ⟨idle, ⟨start readLayout 1 0 0 zeros zeros, [], none, []⟩, []⟩ :=
    .init ⟨_, ⟨0, 0, zeros, zeros, zeros_length, zeros_length, rfl⟩, rfl⟩
  obtain ⟨up, before⟩ := subscribes
  obtain ⟨session, tests, carries, pushes⟩ := event_emitted counted.bytes
    (by rw [EventBytes.bytes_length]; decide) up
  have counts : ¬Passed counted := by decide
  let taken : ConsumerLoop.State Object := ⟨true, [], 1, .handling counted, .working, [counted], []⟩
  have takes : (system readLayout readRun readImpl 1 1 nobody).Steps (fun _ a => OthersFit a)
      ⟨idle, ⟨onLinks subscribed up (.idle zeros), [], none, []⟩, []⟩
      ⟨taken, ⟨onLinks subscribed up (.idle zeros), [], none, []⟩, []⟩ :=
    .of_run [.StartEventLoop, .loop (.push counted), .loop .test, .loop .enter]
      (by simp [OthersFit]) rfl
  have tested : step readLayout readRun readImpl 1 1 nobody
      ⟨taken, ⟨onLinks subscribed up (.idle zeros), [], none, []⟩, []⟩ .test =
        some ⟨taken, ⟨onLinks session up (.idle zeros), [], none, []⟩, [(counted, true)]⟩ := by
    have checked : CheckEvent 1 (onLinks subscribed up (.idle zeros)).session.events.subscriptions 1 =
        some true := rfl
    have stand : taken.consumer = .handling counted := rfl
    have free : State.pushing ⟨taken, ⟨onLinks subscribed up (.idle zeros), [], none, []⟩, []⟩ 1 = [] :=
      rfl
    simp [step, stand, counts, free, checked, tests, behind]
  have emits : step readLayout readRun readImpl 1 1 nobody
      ⟨taken, ⟨onLinks session up (.idle zeros), [], none, []⟩, [(counted, true)]⟩
        (.session (.inside (.emitPush 0 .zeros))) =
        some ⟨{ taken with consumer := .testing, handled := [counted] },
          ⟨onLinks (eventQueued counted.bytes) up (.idle zeros), [(1, counted.bytes)], none, []⟩,
          [(counted, true)]⟩ := by
    have ours : returns ⟨taken, ⟨onLinks session up (.idle zeros), [], none, []⟩, [(counted, true)]⟩ 1
        (.inside (.emitPush 0 .zeros)) = true := by
      rw [returns, carries]
      rfl
    simp [step, foreign, pushes, ours, behind, ConsumerLoop.step, taken, dcsLoop, counts]
  obtain ⟨down, behind⟩ := event_called counted.bytes
    (by simp [EventBytes.bytes_length, ibBuffSize]) up
  have reaches := (first.steps (steps_of_silent before)).steps takes
  have tested' := reaches.step (show OthersFit .test from trivial) tested
  have emitted := tested'.step
    (show OthersFit (.session (.inside (.emitPush 0 .zeros))) from trivial) emits
  exact ⟨_, rfl, counts_in_order (by decide) (emitted.steps (steps_of_silent behind))⟩

end DCScan.CountStream
