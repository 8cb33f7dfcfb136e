import DCScan.CmdBuffer

/-!
Which reply a call of `CmdBuffer::schedule` returns, and whether it gets one.

All callers wait on one condition variable and read one `response_buffer`. `cr.notify_one` wakes any
of them, and nobody when none sleeps yet. `BufferHeld` is the condition under which a caller
reads the reply to its own command, `CallerThere` the one under which no reply goes unnoticed by
the caller it is for.
-/

namespace DCScan.CmdBuffer

open Lib

variable {s t : State} {a : Action} {x : Scheduled} {k : Nat} {cmd : Command} {call : Call}

/-- While a caller sleeps or works elsewhere, `mr` can be had. -/
theorem mr_freed (inv : CallsInv s.calls s.mr) (found : s.calls[k]? = some call)
    (other : ∀ cmd, call ≠ .waiting cmd .blocking) :
    ∃ as calls, system.run s as = some { s with mr := none, calls := calls } ∧
      calls[k]? = some call := by
  cases held : s.mr with
  | none => exact ⟨[], s.calls, by rw [← held]; rfl, found⟩
  | some j =>
    obtain ⟨cmd, holder⟩ := inv.holds held
    have apart : j ≠ k := by
      rintro rfl
      exact other cmd (Option.some.inj (found.symm.trans holder))
    refine ⟨[.sleep j], s.calls.set j (.waiting cmd .sleeping), ?_, ?_⟩
    · simp [System.run, system, step, holder]
    · rw [List.getElem?_set_ne apart, found]

/-! ## The reply that is read -/

/-- Every call that wanted a response has returned the one passed to `reply` for its command. -/
def Own (s : State) : Prop :=
  ∀ k cmd text, s.calls[k]? = some (.returned cmd text) → cmd.wait_response = true →
    (k, text) ∈ s.replied

/-- A caller that is awake would read its own reply. -/
def Ready (s : State) : Prop :=
  ∀ k cmd, s.calls[k]? = some (.waiting cmd .woken) → (k, s.response_buffer) ∈ s.replied

/-- A caller wakes only while `response_buffer` holds the reply to its own command, and nothing
else is written there before it has read. -/
def BufferHeld (s : State) : Action → Prop
  | .spurious k | .notifyReply (some k) => (k, s.response_buffer) ∈ s.replied
  | .reply response =>
    ∀ k cmd, s.calls[k]? = some (.waiting cmd .woken) → (k, response) ∈ s.replied
  | .clear _ => ∀ k cmd, s.calls[k]? = some (.waiting cmd .woken) → (k, []) ∈ s.replied
  | _ => True

/-- A call that has returned stays so, and one that moves on to it is woken or wants nothing. -/
theorem own_step (inv : CallsInv s.calls s.mr) (own : Own s) (ready : Ready s)
    (eff : Effect s a t) : Own t := by
  intro k cmd text found asks
  cases eff with
  | schedule =>
    rcases concat_cases found with ⟨_, other⟩ | before
    · cases other
    · exact own k cmd text before asks
  | resume was =>
    rcases set_cases found with ⟨rfl, new⟩ | ⟨_, before⟩
    · cases new
      exact ready k cmd was
    · exact own k cmd text before asks
  | read was =>
    rcases set_cases found with ⟨rfl, new⟩ | ⟨_, before⟩
    · cases new
      rw [inv.silent was] at asks
      cases asks
    · exact own k cmd text before asks
  | notify | wait | sleep | spurious | clear | wake =>
    rcases set_cases found with ⟨_, other⟩ | ⟨_, before⟩
    · cases other
    · exact own k cmd text before asks
  | reply => exact List.mem_append_left _ (own k cmd text found asks)
  | service | miss | pass => exact own k cmd text found asks

theorem ready_step (ready : Ready s) (met : BufferHeld s a) (eff : Effect s a t) : Ready t := by
  intro k cmd found
  cases eff with
  | schedule =>
    rcases concat_cases found with ⟨_, other⟩ | before
    · cases other
    · exact ready k cmd before
  | spurious | wake =>
    rcases set_cases found with ⟨rfl, _⟩ | ⟨_, before⟩
    · exact met
    · exact ready k cmd before
  | clear =>
    rcases set_cases found with ⟨_, other⟩ | ⟨_, before⟩
    · cases other
    · exact met k cmd before
  | notify | wait | sleep | resume | read =>
    rcases set_cases found with ⟨_, other⟩ | ⟨_, before⟩
    · cases other
    · exact ready k cmd before
  | reply => exact List.mem_append_left _ (met k cmd found)
  | service | miss | pass => exact ready k cmd found

/-- A caller that is awake can read what is in the buffer. -/
theorem wrong_return (inv : CallsInv s.calls s.mr)
    (found : s.calls[k]? = some (.waiting cmd .woken)) (wrong : (k, s.response_buffer) ∉ s.replied) :
    ∃ as u, system.run s as = some u ∧ ¬Own u := by
  obtain ⟨as, calls, ran, still⟩ := mr_freed inv found (by simp)
  refine ⟨as ++ [.resume k], { s with
    mr := none, calls := calls.set k (.returned cmd s.response_buffer) }, ?_, fun own => ?_⟩
  · rw [System.run_append, ran]
    simp [System.run, system, step, still]
  · exact wrong (own k cmd s.response_buffer
      (List.getElem?_set_self (List.getElem?_eq_some_iff.mp still).1) (inv.asks found))

/-- A step that breaks the condition leaves an awake caller before a reply that is not its own. -/
theorem not_ready_of_step (sound : Sound s) (ready : Ready s) (eff : Effect s a t)
    (broken : ¬BufferHeld s a) : ¬Ready t := by
  intro still
  apply broken
  cases eff with
  | spurious was | wake _ was =>
    exact still _ _ (List.getElem?_set_self (List.getElem?_eq_some_iff.mp was).1)
  | clear was =>
    intro j other woken
    refine still j other ?_
    rw [List.getElem?_set_ne, woken]
    rintro rfl
    rw [was] at woken
    cases woken
  | reply hands due idle =>
    intro j other woken
    rcases List.mem_append.mp (still j other woken) with before | now
    · exact before
    · obtain ⟨rfl, -⟩ := Prod.mk.inj (List.mem_singleton.mp now)
      exact absurd (List.mem_map_of_mem (ready _ other woken)) (sound.unreplied hands due idle)
  | _ => trivial

/-- **Every reply is returned to its own command** in the runs that meet the condition, and every
step that breaks it can be continued to a wrong reply. -/
theorem replies_own (reached : system.ReachableBy BufferHeld s) :
    Own s ∧ (s.replied.map Prod.fst).Nodup ∧
      ∀ a t, system.step s a = some t → ¬BufferHeld s a →
        ∃ as u, system.run t as = some u ∧ ¬Own u := by
  have sound := reachable_sound reached.reachable
  have held : Own s ∧ Ready s := by
    refine reached.invariant_from (fun _ before => reachable_sound before.reachable)
      (?_ : ∀ s, system.init s → Own s ∧ Ready s) fun s a t sound held met ran => ?_
    · rintro _ rfl
      exact ⟨by simp [Own], by simp [Ready]⟩
    · have eff := effect_of_step ran
      exact ⟨own_step sound.calls held.1 held.2 eff, ready_step held.2 met eff⟩
  refine ⟨held.1, sound.replied_once, fun a t ran broken => ?_⟩
  have eff := effect_of_step ran
  have wrong := not_ready_of_step sound held.2 eff broken
  simp only [Ready, not_forall] at wrong
  obtain ⟨k, cmd, found, wrong⟩ := wrong
  exact wrong_return (callsInv_step sound.calls eff) found wrong

/-- A command that wants a response. -/
def question : Command := ⟨0, [49, 84, 80, 63], true⟩

/-- One thread asks, and sleeps until the reply comes. -/
def oneCall : List Action :=
  [.schedule question, .notify 0, .wait 0, .sleep 0, .service .test, .service .enter, .reply [49],
    .notifyReply (some 0), .resume 0]

/-- A single caller gets its reply. -/
theorem replies_own_to_one : ∃ s, s.calls = [.returned question [49]] ∧ Own s := by
  have replayed : ∃ s, system.ReachableBy (fun s a => (match a with
      | .spurious k | .notifyReply (some k) => (k, s.response_buffer) ∈ s.replied
      | .reply _ | .clear _ => s.calls = [.waiting question .sleeping]
      | _ => true) = true) s ∧ s.calls = [.returned question [49]] :=
    System.exists_reachableBy_of_replay rfl oneCall (by decide)
  obtain ⟨s, reached, calls⟩ := replayed
  refine ⟨s, calls, (replies_own (reached.mono fun s a _ met => ?_)).1⟩
  cases a with
  | spurious k =>
    simp only [decide_eq_true_eq] at met
    exact met
  | notifyReply pick =>
    cases pick with
    | none => trivial
    | some k =>
      simp only [decide_eq_true_eq] at met
      exact met
  | reply _ | clear _ =>
    intro k cmd woken
    have asleep : s.calls = [.waiting question .sleeping] := of_decide_eq_true met
    rw [asleep, List.getElem?_singleton] at woken
    split at woken <;> cases woken
  | _ => trivial

/-- **Replies can be swapped.** Two callers sleep, and the reply to the first one wakes the second. -/
theorem reply_returned_to_other : ∃ s, system.Reachable s ∧ ¬Own s := by
  have replayed : ∃ s, system.Reachable s ∧
      (s.calls[1]? = some (.returned question [49]) ∧ s.replied = [(0, [49])]) :=
    System.exists_reachable_of_replay rfl [.schedule question, .schedule question, .notify 0,
      .notify 1, .wait 0, .sleep 0, .wait 1, .sleep 1, .service .test, .service .enter, .reply [49],
      .notifyReply (some 1), .resume 1] (by decide)
  obtain ⟨s, reached, returned, replied⟩ := replayed
  refine ⟨s, reached, fun own => ?_⟩
  have wrong := own 1 question [49] returned rfl
  rw [replied] at wrong
  exact absurd wrong (by decide)

/-! ## The reply that is missed -/

/-- The caller is awake again, or has returned. -/
def Call.served : Call → Bool
  | .waiting _ .woken | .returned _ _ => true
  | _ => false

def Served (s : State) (k : Nat) : Prop := ∃ call, s.calls[k]? = some call ∧ call.served = true

/-- The reply for the call is over, and the caller sleeps. -/
def Missed (s : State) (k : Nat) : Prop :=
  k ∈ s.answered ∧ ∃ cmd, s.calls[k]? = some (.waiting cmd .sleeping)

/-- `cr.notify_one` picks the caller the reply is for, unless that one is awake already. -/
def CallerThere (s : State) : Action → Prop
  | .notifyReply pick =>
    ∀ x, s.service.consumer = .handling x → pick = some x.call ∨ Served s x.call
  | _ => True

/-- A caller that is awake does not sleep again. -/
theorem served_step (served : Served s k) (eff : Effect s a t) : Served t k := by
  cases eff with
  | schedule =>
    obtain ⟨call, found, awake⟩ := served
    refine ⟨call, ?_, awake⟩
    change (s.calls ++ _)[k]? = some call
    rw [List.getElem?_append_left (List.getElem?_eq_some_iff.mp found).1, found]
  | notify was | wait was | sleep was | spurious was | resume was | clear was | read was
  | wake _ was => exact set_keeps served was (by simp [Call.served])
  | service | reply | miss | pass => exact served

theorem not_missed_of_served (served : Served s k) : ¬Missed s k := by
  rintro ⟨_, cmd, sleeps⟩
  obtain ⟨call, found, awake⟩ := served
  rw [sleeps, Option.some.injEq] at found
  rw [← found] at awake
  cases awake

/-- The end of a reply adds its call to those answered. -/
theorem answered_of_notifyReply {pick : Option Nat} (replies : RepliedInv s)
    (hands : s.service.consumer = .handling x) (eff : Effect s (.notifyReply pick) t) :
    x.due = true ∧ t.answered = s.answered ++ [x.call] := by
  cases eff with
  | wake noted _ ran | miss noted _ ran =>
    obtain ⟨y, same, rfl⟩ := handle_ran ran
    obtain ⟨z, same', due⟩ := replies.stored noted
    obtain rfl : x = y := by simpa [hands] using same
    obtain rfl : x = z := by simpa [hands] using same'
    exact ⟨due, by simp [State.answered, not_guard_of_due due, due]⟩

/-- Nothing else does. -/
theorem answered_step (replies : RepliedInv s) (eff : Effect s a t) :
    t.answered = s.answered ∨ ∃ pick x, a = .notifyReply pick ∧
      s.service.consumer = .handling x ∧ t.answered = s.answered ++ [x.call] := by
  cases eff with
  | schedule ran =>
    rw [push_ran ran]
    exact Or.inl rfl
  | notify _ ran =>
    obtain ⟨n, _, rfl⟩ := notify_ran ran
    exact Or.inl rfl
  | service own ran =>
    obtain ⟨_, _, handled⟩ := frame_of_service own ran
    exact Or.inl (by rw [State.answered, State.answered, handled])
  | wake noted was ran =>
    obtain ⟨x, hands, _⟩ := handle_ran ran
    exact Or.inr ⟨_, x, rfl, hands, (answered_of_notifyReply replies hands (.wake noted was ran)).2⟩
  | miss noted awake ran =>
    obtain ⟨x, hands, _⟩ := handle_ran ran
    exact Or.inr ⟨_, x, rfl, hands, (answered_of_notifyReply replies hands (.miss noted awake ran)).2⟩
  | pass hands due ran =>
    obtain ⟨y, same, rfl⟩ := handle_ran ran
    obtain rfl : _ = y := by simpa [hands] using same
    refine Or.inl ?_
    simp only [State.answered]
    split
    · simp
    · simp [due]
  | _ => exact Or.inl rfl

/-- The notification that ends a reply leaves its caller served when that is there. -/
theorem served_of_notifyReply {pick : Option Nat} (there : CallerThere s (.notifyReply pick))
    (hands : s.service.consumer = .handling x) (eff : Effect s (.notifyReply pick) t) :
    Served t x.call := by
  rcases there x hands with rfl | served
  · cases eff with
    | wake _ was =>
      exact ⟨_, List.getElem?_set_self (List.getElem?_eq_some_iff.mp was).1, rfl⟩
  · exact served_step served eff

/-- A caller that has notified the service goes on to sleep. -/
theorem falls_asleep_of_notified (inv : CallsInv s.calls s.mr)
    (found : s.calls[k]? = some (.notified cmd)) (asks : cmd.wait_response = true) :
    ∃ as u, system.run s as = some u ∧ u.answered = s.answered ∧
      ∃ cmd, u.calls[k]? = some (.waiting cmd .sleeping) := by
  obtain ⟨as, calls, ran, still⟩ := mr_freed inv found (by simp)
  have inside := (List.getElem?_eq_some_iff.mp still).1
  have waits : system.step { s with mr := none, calls := calls } (.wait k) =
      some { s with mr := some k, calls := calls.set k (.waiting cmd .blocking) } := by
    simp only [system, step, still, asks, and_self, ↓reduceIte]
  have sleeps : system.step { s with mr := some k, calls := calls.set k (.waiting cmd .blocking) }
      (.sleep k) = some { s with mr := none, calls := calls.set k (.waiting cmd .sleeping) } := by
    simp only [system, step, List.getElem?_set_self inside, List.set_set]
  refine ⟨as ++ [.wait k, .sleep k], { s with
    mr := none, calls := calls.set k (.waiting cmd .sleeping) }, ?_, rfl, cmd,
    List.getElem?_set_self inside⟩
  rw [System.run_append, ran, Option.bind_some, System.run_cons, waits, Option.bind_some,
    System.run_cons, sleeps]
  rfl

/-- A caller that is not awake goes on to sleep. -/
theorem falls_asleep (sound : Sound s) (found : s.calls[k]? = some call)
    (asks : call.cmd.wait_response = true) (away : call.served = false) :
    ∃ as u, system.run s as = some u ∧ u.answered = s.answered ∧
      ∃ cmd, u.calls[k]? = some (.waiting cmd .sleeping) := by
  have inside := (List.getElem?_eq_some_iff.mp found).1
  cases call with
  | pushed cmd =>
    have some_pending : 0 < s.service.pending := by
      rw [sound.queue.pending]
      exact List.countP_pos_iff.mpr ⟨_, List.mem_of_getElem? found, rfl⟩
    obtain ⟨n, pending⟩ := Nat.exists_eq_add_of_lt some_pending
    rw [Nat.zero_add] at pending
    let t : State := { s with
      service := { s.service with pending := n, consumer := s.service.consumer.wake },
      calls := s.calls.set k (.notified cmd) }
    have ran : step s (.notify k) = some t := by
      simp only [step, found, ConsumerLoop.step, pending, Option.map_some, t]
    obtain ⟨as, u, continued, same, sleeps⟩ := falls_asleep_of_notified (s := t)
      (sound_step sound ran).calls (List.getElem?_set_self inside) asks
    exact ⟨.notify k :: as, u, by rw [System.run_cons]; simp [system, ran]; exact continued, same,
      sleeps⟩
  | notified cmd => exact falls_asleep_of_notified sound.calls found asks
  | waiting cmd w =>
    cases w with
    | blocking =>
      refine ⟨[.sleep k], { s with mr := none, calls := s.calls.set k (.waiting cmd .sleeping) },
        ?_, rfl, cmd, List.getElem?_set_self inside⟩
      simp [System.run, system, step, found]
    | sleeping => exact ⟨[], s, rfl, rfl, cmd, found⟩
    | woken => cases away
  | cleared cmd =>
    rw [Call.cmd, sound.calls.silent found] at asks
    cases asks
  | returned cmd text => cases away

theorem due_asks (due : x.due = true) : x.cmd.wait_response = true := by
  simp only [Scheduled.due, Bool.and_eq_true] at due
  exact due.2

/-- A reply whose caller is not there ends with the caller on its way to sleep. -/
theorem missed_of_away {pick : Option Nat} (sound : Sound s)
    (hands : s.service.consumer = .handling x) (ran : step s (.notifyReply pick) = some t)
    (away : ¬CallerThere s (.notifyReply pick)) :
    ∃ as u, system.run t as = some u ∧ Missed u x.call := by
  have eff := effect_of_step ran
  simp only [CallerThere, not_forall, not_or] at away
  obtain ⟨y, same, other, asleep⟩ := away
  obtain rfl : x = y := by simpa [hands] using same
  obtain ⟨due, answered⟩ := answered_of_notifyReply sound.replies hands eff
  obtain ⟨call, found, same_cmd⟩ := sound.own hands due
  have there : t.calls[x.call]? = some call := by
    cases eff with
    | @wake k cmd c _ was _ =>
      have apart : k ≠ x.call := fun same => other (congrArg some same)
      change (s.calls.set k _)[x.call]? = some call
      rw [List.getElem?_set_ne apart, found]
    | miss => exact found
  have sleepy : call.served = false := by
    rw [← Bool.not_eq_true]
    exact fun served => asleep ⟨call, found, served⟩
  obtain ⟨as, u, continued, same, sleeps⟩ := falls_asleep (sound_step sound ran) there
    (by rw [same_cmd]; exact due_asks due) sleepy
  exact ⟨as, u, continued, by rw [same, answered]; simp, sleeps⟩

/-- **No reply is missed** in the runs in which every reply finds its caller there, and each
that does not can leave it asleep for good. -/
theorem replies_not_missed (reached : system.ReachableBy CallerThere s) :
    (∀ k, ¬Missed s k) ∧
      ∀ pick t x, s.service.consumer = .handling x → system.step s (.notifyReply pick) = some t →
        ((∀ as u, system.run t as = some u → ¬Missed u x.call) ↔
          CallerThere s (.notifyReply pick)) := by
  have sound := reachable_sound reached.reachable
  have all_served : ∀ k ∈ s.answered, Served s k := by
    refine reached.invariant_from (fun _ before => reachable_sound before.reachable)
      (?_ : ∀ s, system.init s → ∀ k ∈ s.answered, Served s k)
      fun s a t sound held met ran k answered => ?_
    · rintro _ rfl k answered
      cases answered
    · have eff := effect_of_step ran
      rcases answered_step sound.replies eff with same | ⟨pick, x, rfl, hands, more⟩
      · rw [same] at answered
        exact served_step (held k answered) eff
      · rw [more, List.mem_append, List.mem_singleton] at answered
        rcases answered with before | rfl
        · exact served_step (held k before) eff
        · exact served_of_notifyReply met hands eff
  refine ⟨fun k missed => not_missed_of_served (all_served k missed.1) missed,
    fun pick t x hands ran => ⟨?_, ?_⟩⟩
  · intro safe
    by_contra away
    obtain ⟨as, u, continued, missed⟩ := missed_of_away sound hands ran away
    exact safe as u continued missed
  · intro there as u continued
    have first : Served t x.call := served_of_notifyReply there hands (effect_of_step ran)
    exact not_missed_of_served (System.run_keeps (fun s => Served s x.call)
      (fun _ _ _ held stepped => served_step held (effect_of_step stepped)) first continued)

/-- A caller that sleeps when the reply to its command comes. -/
theorem replies_not_missed_asleep : ∃ s, s.answered = [0] ∧ ∀ k, ¬Missed s k := by
  have replayed : ∃ s, system.ReachableBy (fun s a => (match a with
      | .notifyReply pick => pick = some 0 ∧ s.service.consumer.inHand = [⟨0, question⟩]
      | _ => true) = true) s ∧ s.answered = [0] :=
    System.exists_reachableBy_of_replay rfl oneCall (by decide)
  obtain ⟨s, reached, answered⟩ := replayed
  refine ⟨s, answered, (replies_not_missed (reached.mono fun s a _ met => ?_)).1⟩
  cases a with
  | notifyReply pick =>
    intro x hands
    simp only [hands, ConsumerLoop.Consumer.inHand, decide_eq_true_eq, List.cons.injEq, and_true]
      at met
    exact Or.inl (by rw [met.1, met.2])
  | _ => trivial

/-- **A device can be too fast.** The reply comes before the caller waits, and wakes nobody. -/
theorem reply_missed_before_wait : ∃ s, system.Reachable s ∧ Missed s 0 := by
  have replayed : ∃ s, system.Reachable s ∧
      (s.answered = [0] ∧ s.calls = [.waiting question .sleeping]) :=
    System.exists_reachable_of_replay rfl [.schedule question, .notify 0, .service .test,
      .service .enter, .reply [49], .notifyReply none, .wait 0, .sleep 0] (by decide)
  obtain ⟨s, reached, answered, calls⟩ := replayed
  exact ⟨s, reached, by simp [answered], question, by simp [calls]⟩

end DCScan.CmdBuffer
