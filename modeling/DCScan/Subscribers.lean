import DCScan.Lib.Since
import DCScan.Sessions

/-!
Whom events go to.

The flags that `EmitEvent` tests belong to the process. `StartThread` and `StopThread` never
touch them, so a client that disconnects with an event subscribed leaves it subscribed for
the next one; and the test, the push and the decoding of an `EVT_UNSUB` are steps apart.
`Settled` is the exact condition under which an event still goes only to a client that has
subscribed to it.
-/

namespace DCScan.Server

open Lib Message

variable {maxSub e : UInt8} {s t : State} {a : Action} {j k : Nat} {m : DefaultMessage}

/-- The message is an `EVT_SUB` for `e`. -/
def Subscribes (e : UInt8) (m : DefaultMessage) : Prop :=
  m.operation = some .EVT_SUB ∧ m.payload.head? = some e

/-- The message is an `EVT_UNSUB` for `e`. -/
def Unsubscribes (e : UInt8) (m : DefaultMessage) : Prop :=
  m.operation = some .EVT_UNSUB ∧ m.payload.head? = some e

/-- The log has an `EVT_SUB` for `e` and no `EVT_UNSUB` for `e` since. -/
def Subscribed (e : UInt8) (log : List DefaultMessage) : Prop :=
  Since (Subscribes e) (Unsubscribes e) log

/-- The last of the log's messages about `e` is an `EVT_UNSUB`. -/
def Unsubscribed (e : UInt8) (log : List DefaultMessage) : Prop :=
  Since (Unsubscribes e) (Subscribes e) log

/-- Registered event `e` is marked as subscribed. -/
def Flagged (maxSub : UInt8) (s : State) (e : UInt8) : Prop :=
  1 ≤ e ∧ CheckEvent maxSub s.subscriptions e = some true

/-- Whatever `EmitEvent` enqueues is an `EVT_RESPONSE` for an event that the client of the current
session has subscribed to in this session. -/
def ToSubscribers (maxSub : UInt8) (s : State) : Prop :=
  ∀ i mem t, step maxSub s (.emitPush i mem) = some t → ∃ session msg e k,
    t.outbound = s.outbound ++ [⟨session, msg⟩] ∧ msg.operation = some .EVT_RESPONSE ∧
      msg.payload.head? = some e ∧
      s.current = some k ∧ Subscribed e (s.sent k)

/-- A session ends only when no event is marked and no `EmitEvent` is between its test and its push;
the test passes only while no undecoded `EVT_UNSUB` has the last word on the event; and the
client sends an `EVT_UNSUB` only while no `EmitEvent` of the event is between test and push. -/
def Settled (maxSub : UInt8) (s : State) : Action → Prop
  | .joinSend _ => (∀ e, ¬Flagged maxSub s e) ∧ s.emitting = []
  | .emitTest e _ => Flagged maxSub s e →
    ∀ k, s.current = some k → ¬Unsubscribed e ((s.sent k).drop (s.acted k))
  | .clientSend k m => s.current = some k → ∀ x ∈ s.emitting, ¬Unsubscribes x.event m
  | _ => True

/-- What a flag says after a message is decoded. -/
theorem flag_of_decodeSwitch {subscriptions : UInt8 → Option Bool} {r : SVReturn} {mem : Uninit}
    {d : Decoded} (ran : decodeSwitch maxSub subscriptions m r mem = some d)
    (flag : CheckEvent maxSub d.subscriptions e = some true) :
    Subscribes e m ∨ (CheckEvent maxSub subscriptions e = some true ∧ ¬Unsubscribes e m) := by
  have other : ∀ {op}, m.operation = op → op ≠ some .EVT_UNSUB → ¬Unsubscribes e m :=
    fun code differs unsub => differs (code.symm.trans unsub.1)
  unfold decodeSwitch at ran
  split at ran
  · rename_i code
    obtain ⟨dm, _, rfl⟩ := Option.map_eq_some_iff.mp ran
    exact Or.inr ⟨flag, other code (by simp)⟩
  · rename_i code
    obtain ⟨dm, _, rfl⟩ := Option.map_eq_some_iff.mp ran
    exact Or.inr ⟨flag, other code (by simp)⟩
  · rename_i code
    obtain ⟨id, head, rfl⟩ := Option.map_eq_some_iff.mp ran
    rcases flag_of_check_SetEvent flag with rfl | before
    · exact Or.inl ⟨code, head⟩
    · exact Or.inr ⟨before, other code (by simp)⟩
  · rename_i code
    obtain ⟨id, head, rfl⟩ := Option.map_eq_some_iff.mp ran
    obtain ⟨before, differs⟩ := flag_of_check_UnsetEvent flag
    exact Or.inr ⟨before, fun unsub => differs (Option.some.inj (unsub.2.symm.trans head))⟩
  · rename_i code
    cases ran
    exact Or.inr ⟨flag, fun unsub => code unsub.1⟩

/-! ## What the server has acted on -/

/-- The message the decode thread has taken. -/
def DecoderPhase.taken : DecoderPhase → List DefaultMessage
  | acting m => [m.msg]
  | _ => []

/-- The messages of a client that the server has not acted on are on their way, in order. -/
structure Log (s : State) : Prop where
  unsent : ∀ {k}, s.receivers k = .absent → s.sent k = [] ∧ s.wire k = [] ∧ s.acted k = 0
  bound : ∀ k, s.acted k ≤ (s.sent k).length
  pending : ∀ {k}, (s.decoders k).looping = true →
    (s.sent k).drop (s.acted k) = (s.decoders k).taken ++ s.inbound.map Incoming.msg ++ s.wire k

theorem start_log (maxSub : UInt8) : Log (start maxSub) where
  unsent _ := ⟨rfl, rfl, rfl⟩
  bound _ := Nat.zero_le _
  pending looping := by cases looping

/-- Nothing is queued before the decode thread of the running session has started. -/
theorem inbound_nil (inv : Sessions s) (inbox : Inbox s) (stand : s.workers k = .activated) :
    s.inbound = [] := by
  have runs : s.current = some k := inv.current_of (by rw [stand]; rfl)
  obtain ⟨_, _, absent, _⟩ := stand ▸ inv.threads k
  rw [List.eq_nil_iff_forall_not_mem]
  intro m queued
  have started := (inbox.queued queued).1
  rw [inbox.origin_eq inv queued runs] at started
  exact started absent

theorem log_of_workerStep (log : Log s) (inv : Sessions s) (inbox : Inbox s)
    (ran : workerStep s a = some t) :
    Log t := by
  have frame := workerStep_frame ran
  obtain ⟨receivers, decoders, _⟩ := threads_of_workerStep ran
  have unsent : ∀ {k}, t.receivers k = .absent → s.sent k = [] ∧ s.wire k = [] ∧ s.acted k = 0 := by
    intro k absent
    rcases receivers with receivers | ⟨j, _, receivers⟩ <;> rw [receivers] at absent
    · exact log.unsent absent
    · rcases update_cases absent with ⟨_, started⟩ | ⟨_, before⟩
      · cases started
      · exact log.unsent before
  have pending : ∀ {k}, (t.decoders k).looping = true →
      (s.sent k).drop (s.acted k) = (t.decoders k).taken ++ s.inbound.map Incoming.msg ++
        s.wire k := by
    intro k looping
    rcases decoders with decoders | ⟨j, stand, decoders⟩ <;> rw [decoders] at looping ⊢
    · exact log.pending looping
    · by_cases same : k = j
      · obtain ⟨_, absent, _⟩ := stand ▸ inv.threads j
        obtain ⟨sent, wire, _⟩ := log.unsent absent
        simp [same, sent, wire, DecoderPhase.taken, inbound_nil inv inbox stand]
      · rw [Function.update_of_ne same] at looping ⊢
        exact log.pending looping
  rw [frame] at unsent pending ⊢
  exact ⟨unsent, log.bound, pending⟩

theorem log_of_receiverStep (log : Log s) (inv : Sessions s) (ran : receiverStep s a = some t) :
    Log t := by
  have frame := receiverStep_frame ran
  have absent_before : ∀ {j}, t.receivers j = .absent → s.receivers j = .absent := by
    intro j absent
    obtain ⟨k, p, _, started, moved⟩ := receivers_of_receiverStep ran
    rw [moved] at absent
    rcases update_cases absent with ⟨_, after⟩ | ⟨_, before⟩
    · exact absurd after started
    · exact before
  have sent : t.sent = s.sent := (congrArg State.sent frame :)
  have acted : t.acted = s.acted := (congrArg State.acted frame :)
  have decoders : t.decoders = s.decoders := (congrArg State.decoders frame :)
  rcases inbound_of_receiverStep ran
    with ⟨inbound, wire⟩ | ⟨k, m, rest, stand, front, wire, inbound⟩
  · refine ⟨fun absent => ?_, ?_, ?_⟩
    · rw [sent, wire, acted]
      exact log.unsent (absent_before absent)
    · rw [sent, acted]
      exact log.bound
    · rw [sent, acted, decoders, inbound, wire]
      exact log.pending
  · refine ⟨fun {j} absent => ?_, ?_, fun {j} looping => ?_⟩
    · have other : j ≠ k := fun same => by
        rw [same] at absent
        rw [absent_before absent] at stand
        cases stand
      rw [sent, acted, wire, Function.update_of_ne other]
      exact log.unsent (absent_before absent)
    · rw [sent, acted]
      exact log.bound
    · rw [decoders] at looping
      have runs : s.current = some k := inv.alive_serves (Or.inl (by simp [stand]))
      obtain rfl : j = k := Option.some.inj ((inv.decoder_current looping).symm.trans runs)
      have pending := log.pending looping
      rw [front] at pending
      rw [sent, acted, decoders, wire, inbound, Function.update_self, pending]
      simp

/-- The decode thread of the running session moves on; nothing else does. -/
theorem Log.advance {d : DecoderPhase} {n : Nat} (log : Log s) (inv : Sessions s)
    (runs : s.current = some k)
    (decoders : t.decoders = Function.update s.decoders k d)
    (acted : t.acted = Function.update s.acted k n)
    (same : t.receivers = s.receivers ∧ t.sent = s.sent ∧ t.wire = s.wire)
    (unsent : s.receivers k = .absent → n = 0) (bound : n ≤ (s.sent k).length)
    (pending : d.looping = true → (s.sent k).drop n = d.taken ++ t.inbound.map Incoming.msg ++
      s.wire k) :
    Log t := by
  obtain ⟨receivers, sent, wire⟩ := same
  refine ⟨fun {j} absent => ?_, fun j => ?_, fun {j} looping => ?_⟩
  · rw [receivers] at absent
    obtain ⟨nothing, idle, none_acted⟩ := log.unsent absent
    rw [sent, wire, acted]
    by_cases own : j = k
    · rw [own, Function.update_self]
      exact ⟨own ▸ nothing, own ▸ idle, unsent (own ▸ absent)⟩
    · rw [Function.update_of_ne own]
      exact ⟨nothing, idle, none_acted⟩
  · rw [sent, acted]
    by_cases own : j = k
    · rw [own, Function.update_self]
      exact bound
    · rw [Function.update_of_ne own]
      exact log.bound j
  · rw [decoders] at looping ⊢
    by_cases own : j = k
    · rw [own, Function.update_self] at looping
      rw [own, Function.update_self, sent, acted, wire, Function.update_self]
      exact pending looping
    · rw [Function.update_of_ne own] at looping
      exact absurd (Option.some.inj ((inv.decoder_current looping).symm.trans runs)) own

theorem log_of_decoderStep (log : Log s) (inv : Sessions s) (inbox : Inbox s)
    (ran : decoderStep maxSub s a = some t) : Log t := by
  have steady : ∀ k, s.acted = Function.update s.acted k (s.acted k) := fun k =>
    (Function.update_eq_self k _).symm
  have idle : ∀ {k}, s.receivers k = .absent → s.acted k = 0 := fun absent =>
    (log.unsent absent).2.2
  cases decoder_turn ran with
  | @decoderTest k stand =>
    have looping : (s.decoders k).looping = true := by rw [stand]; rfl
    have pending := log.pending looping
    rw [stand] at pending
    refine log.advance inv (inv.decoder_current looping) rfl (steady k) ⟨rfl, rfl, rfl⟩ idle
      (log.bound k) fun inside => ?_
    split
    · exact pending
    · rename_i stopped
      rw [if_neg stopped] at inside
      cases inside
  | @unblocked k stand =>
    have looping : (s.decoders k).looping = true := by rw [stand]; rfl
    have pending := log.pending looping
    rw [stand] at pending
    exact log.advance inv (inv.decoder_current looping) rfl (steady k) ⟨rfl, rfl, rfl⟩ idle
      (log.bound k)
      fun _ => pending
  | @fetch k _ _ stand _ front =>
    have looping : (s.decoders k).looping = true := by rw [stand]; rfl
    have pending := log.pending looping
    rw [stand, front] at pending
    exact log.advance inv (inv.decoder_current looping) rfl (steady k) ⟨rfl, rfl, rfl⟩ idle
      (log.bound k)
      fun _ => pending
  | @act k _ _ m d stand =>
    have looping : (s.decoders k).looping = true := by rw [stand]; rfl
    have pending := log.pending looping
    rw [stand] at pending
    have more : s.acted k < (s.sent k).length := by
      by_contra all
      rw [List.drop_eq_nil_of_le (by omega)] at pending
      cases pending
    have rest := congrArg List.tail pending
    rw [List.tail_drop] at rest
    refine log.advance (n := s.acted k + 1) inv (inv.decoder_current looping) rfl ?_
      ⟨rfl, rfl, rfl⟩
      (fun absent => ?_) more fun _ => rest
    · rw [inbox.taken stand]
    · rw [(log.unsent absent).1] at more
      cases more
  | @restart k stand =>
    exact log.advance inv (inv.alive_serves (Or.inr (Or.inl (by simp [stand])))) rfl (steady k)
      ⟨rfl, rfl, rfl⟩ idle
      (log.bound k) fun looping => by cases looping

theorem log_of_clientStep (log : Log s) (ran : clientStep s a = some t) : Log t := by
  cases a <;> simp only [clientStep, ne_eq, Option.ite_none_right_eq_some, Option.some.injEq,
    reduceCtorEq] at ran
  case clientSend k m =>
    obtain ⟨started, rfl⟩ := ran
    refine ⟨fun {j} absent => ?_, fun j => ?_, fun {j} looping => ?_⟩ <;> by_cases own : j = k
    · exact absurd (own ▸ absent) started
    · simpa [own] using log.unsent absent
    · have bound := log.bound k
      simp only [own, Function.update_self, List.length_append, List.length_singleton]
      omega
    · simpa [own] using log.bound j
    · subst own
      simp [List.drop_append_of_le_length (log.bound j), log.pending looping]
    · simpa [own] using log.pending looping

theorem log_step (log : Log s) (inv : Sessions s) (inbox : Inbox s)
    (ran : step maxSub s a = some t) : Log t := by
  rcases thread_of_step ran with ran | ran | ran | ran | ran | ran
  · exact log_of_workerStep log inv inbox ran
  · exact log_of_receiverStep log inv ran
  · exact log_of_decoderStep log inv inbox ran
  · rw [senderStep_frame ran]
    exact ⟨log.unsent, log.bound, log.pending⟩
  · rw [emitStep_frame ran]
    exact ⟨log.unsent, log.bound, log.pending⟩
  · exact log_of_clientStep log ran

theorem reachable_log (reached : (system maxSub).ReachableBy Consecutive s) : Log s :=
  reached.invariant_from
    (fun _ before => And.intro (reachable_sessions before fun _ _ => id)
      (reachable_inbox before fun _ _ => id))
    (by rintro _ rfl; exact start_log maxSub)
    fun _ _ _ known log _ ran => log_step log known.1 known.2 ran

/-! ## The flags -/

/-- The flags follow the subscriptions the server has acted on, and what `EmitEvent` has under way
follows those the client has sent. Between sessions there is neither. -/
structure Recorded (maxSub : UInt8) (s : State) : Prop where
  unmarked : s.current = none → ∀ e, ¬Flagged maxSub s e
  quiet : s.current = none → s.emitting = []
  flags : ∀ {k e}, s.current = some k → Flagged maxSub s e →
    Subscribed e ((s.sent k).take (s.acted k))
  emitting : ∀ {k x}, s.current = some k → x ∈ s.emitting → Subscribed x.event (s.sent k)

theorem start_recorded (maxSub : UInt8) : Recorded maxSub (start maxSub) where
  unmarked _ e flag := by
    have set := (CheckEvent_eq_true.mp flag.2).2
    simp only [start, initialSubscriptions] at set
    split at set <;> cases set
  quiet _ := rfl
  flags runs := by cases runs
  emitting runs := by cases runs

theorem recorded_of_workerStep (recorded : Recorded maxSub s) (inv : Sessions s)
    (consecutive : Consecutive s a)
    (settled : Settled maxSub s a) (ran : workerStep s a = some t) : Recorded maxSub t := by
  have frame := workerStep_frame ran
  have current := inv.current_of_workerStep ran
  generalize t.current = now at frame current
  rw [frame]
  rcases current with rfl | ⟨k, rfl, _, rfl⟩ | ⟨k, rfl, _, rfl⟩
  · exact ⟨recorded.unmarked, recorded.quiet, recorded.flags, recorded.emitting⟩
  · refine ⟨nofun, nofun, fun _ flag =>
      absurd flag (recorded.unmarked consecutive _), fun _ member => ?_⟩
    rw [recorded.quiet consecutive] at member
    exact absurd member List.not_mem_nil
  · exact ⟨fun _ => settled.1, fun _ => settled.2, nofun, nofun⟩

/-- The decode thread marks an event when it acts on its `EVT_SUB`. -/
theorem recorded_of_decoderStep (recorded : Recorded maxSub s) (inv : Sessions s) (inbox : Inbox s)
    (log : Log s) (ran : decoderStep maxSub s a = some t) : Recorded maxSub t := by
  have frame := decoderStep_frame ran
  have changes := subscriptions_of_decoderStep ran
  generalize t.subscriptions = flags at frame changes
  generalize t.acted = acted at frame changes
  rw [frame]
  rcases changes with ⟨rfl, rfl⟩ | ⟨k, m, r, mem, d, stand, decoded, rfl, rfl⟩
  · exact ⟨recorded.unmarked, recorded.quiet, recorded.flags, recorded.emitting⟩
  · have looping : (s.decoders k).looping = true := by rw [stand]; rfl
    have runs := inv.decoder_current looping
    refine ⟨fun idle => ?_, recorded.quiet, fun {j e} current flag => ?_, recorded.emitting⟩
    · rw [runs] at idle
      cases idle
    obtain rfl : j = k := Option.some.inj (current.symm.trans runs)
    obtain rfl := inbox.taken stand
    have pending := log.pending looping
    rw [stand] at pending
    have taken : (s.sent m.origin).take (s.acted m.origin + 1) =
        (s.sent m.origin).take (s.acted m.origin) ++ [m.msg] := by
      rw [List.take_add, pending]
      rfl
    simp only [Function.update_self, taken, Subscribed, since_concat]
    refine (flag_of_decodeSwitch decoded flag.2).imp_right fun ⟨before, kept⟩ => ?_
    exact ⟨recorded.flags runs ⟨flag.1, before⟩, kept⟩

theorem exclusive_subscribes (m : DefaultMessage) (sub : Subscribes e m) : ¬Unsubscribes e m := by
  intro unsub
  have same := sub.1.symm.trans unsub.1
  cases same

/-- `EmitEvent` passes its test for an event the client has subscribed to. -/
theorem recorded_of_emitStep (recorded : Recorded maxSub s) (settled : Settled maxSub s a)
    (ran : emitStep maxSub s a = some t) : Recorded maxSub t := by
  have frame := emitStep_frame ran
  have grows := emitting_of_emitStep ran
  generalize t.emitting = emitting at frame grows
  rw [frame]
  rcases grows with ⟨e, evtData, rfl, passed, first, _, rfl⟩ | within
  · have flag : Flagged maxSub s e := ⟨first, passed⟩
    have runs : s.current ≠ none := fun idle => recorded.unmarked idle e flag
    refine ⟨recorded.unmarked, fun idle => absurd idle runs,
      recorded.flags, fun {k x} current member => ?_⟩
    rw [List.mem_append, List.mem_singleton] at member
    rcases member with before | rfl
    · exact recorded.emitting current before
    · have since := (recorded.flags current flag).append (settled flag k current)
      rwa [List.take_append_drop] at since
  · refine ⟨recorded.unmarked, fun idle => ?_, recorded.flags, fun current member =>
      recorded.emitting current (within member)⟩
    rw [List.eq_nil_iff_forall_not_mem]
    intro x member
    have before := within member
    rw [recorded.quiet idle] at before
    exact List.not_mem_nil before

/-- The client keeps its subscriptions while an `EmitEvent` is under way. -/
theorem recorded_of_clientStep (recorded : Recorded maxSub s) (log : Log s)
    (settled : Settled maxSub s a) (ran : clientStep s a = some t) : Recorded maxSub t := by
  cases a <;> simp only [clientStep, ne_eq, Option.ite_none_right_eq_some, Option.some.injEq,
    reduceCtorEq] at ran
  case clientSend k m =>
    obtain ⟨_, rfl⟩ := ran
    refine ⟨recorded.unmarked,
      recorded.quiet, fun {j e} current flag => ?_, fun {j x} current member => ?_⟩ <;>
      by_cases own : j = k
    · subst own
      simpa [List.take_append_of_le_length (log.bound j)] using recorded.flags current flag
    · simpa [own] using recorded.flags current flag
    · subst own
      simp only [Function.update_self, Subscribed, since_concat]
      exact Or.inr ⟨recorded.emitting current member, settled current x member⟩
    · simpa [own] using recorded.emitting current member

theorem recorded_step (recorded : Recorded maxSub s) (inv : Sessions s) (inbox : Inbox s)
    (log : Log s)
    (consecutive : Consecutive s a) (settled : Settled maxSub s a)
    (ran : step maxSub s a = some t) :
    Recorded maxSub t := by
  rcases thread_of_step ran with ran | ran | ran | ran | ran | ran
  · exact recorded_of_workerStep recorded inv consecutive settled ran
  · rw [receiverStep_frame ran]
    exact ⟨recorded.unmarked, recorded.quiet, recorded.flags, recorded.emitting⟩
  · exact recorded_of_decoderStep recorded inv inbox log ran
  · rw [senderStep_frame ran]
    exact ⟨recorded.unmarked, recorded.quiet, recorded.flags, recorded.emitting⟩
  · exact recorded_of_emitStep recorded settled ran
  · exact recorded_of_clientStep recorded log settled ran

/-- A step that pushes enqueues the event under way. -/
theorem push_of_emitPush {i : Nat} {mem : Uninit} (ran : step maxSub s (.emitPush i mem) = some t) :
    ∃ x msg, x ∈ s.emitting ∧ t.outbound = s.outbound ++ [⟨x.session, msg⟩] ∧
      msg.operation = some .EVT_RESPONSE ∧ msg.payload.head? = some x.event := by
  simp only [step, emitStep] at ran
  split at ran
  · rename_i found
    obtain ⟨⟨nid, msg⟩, made, rfl⟩ := Option.map_eq_some_iff.mp ran
    obtain ⟨code, head⟩ := eventMessage_head made
    exact ⟨_, msg, List.mem_of_getElem? found, rfl, code, head⟩
  · cases ran

theorem Recorded.toSubscribers (recorded : Recorded maxSub s) : ToSubscribers maxSub s := by
  intro i mem t ran
  obtain ⟨x, msg, member, pushed, code, head⟩ := push_of_emitPush ran
  cases current : s.current with
  | none =>
    rw [recorded.quiet current] at member
    exact absurd member List.not_mem_nil
  | some k => exact ⟨x.session, msg, x.event, k, pushed, code, head, rfl,
    recorded.emitting current member⟩

/-! ## A step that is not settled -/

/-- An event under way that the client has not subscribed to can be enqueued. -/
theorem not_toSubscribers {i : Nat} {x : Emission} (found : s.emitting[i]? = some x)
    (fits : x.data.length + 10 < 2 ^ 31)
    (foreign : ∀ k, s.current = some k → ¬Subscribed x.event (s.sent k)) :
    ¬ToSubscribers maxSub s := by
  intro holds
  obtain ⟨session, e, evtData⟩ := x
  have ran := holds i .zeros
  simp only [step, emitStep, found, eventMessage_eq fits, Option.map_some, Option.some.injEq,
    forall_eq', List.append_cancel_left_eq, List.cons.injEq, Outgoing.mk.injEq, and_true] at ran
  obtain ⟨_, _, _, k, ⟨rfl, rfl⟩, _, head, current, subscribed⟩ := ran
  obtain rfl := Option.some.inj head
  exact foreign k current subscribed

/-- Between sessions nobody has subscribed to what is still marked or under way. -/
theorem enqueued_between_sessions (idle : s.current = none) (fits : Emittable s)
    (leftover : (∃ e, Flagged maxSub s e) ∨ s.emitting ≠ []) :
    ∃ as t, (system maxSub).runBy Consecutive s as = some t ∧ ¬ToSubscribers maxSub t := by
  rcases leftover with ⟨e, first, passed⟩ | under
  · have within := (CheckEvent_eq_true.mp passed).1
    refine ⟨[.emitTest e []], { s with emitting := s.emitting ++ [⟨none, e, []⟩] }, ?_,
      not_toSubscribers (i := s.emitting.length) (x := ⟨none, e, []⟩) (by simp) (by simp)
        (by simp [idle])⟩
    simp [System.runBy, Consecutive, system, step, emitStep, first, within, passed, idle]
  · obtain ⟨x, rest, queue⟩ := List.exists_cons_of_ne_nil under
    exact ⟨[], s, rfl, not_toSubscribers (i := 0) (x := x) (by simp [queue])
      (fits x (by simp [queue])).2 (by simp [idle])⟩

/-- A step that is not settled lets an event be enqueued that the client has not subscribed to. -/
theorem unsettled_enqueues (inv : Sessions s) (fits : Emittable s) (ran : step maxSub s a = some t)
    (unsettled : ¬Settled maxSub s a) :
    ∃ as u, (system maxSub).runBy Consecutive t as = some u ∧ ¬ToSubscribers maxSub u := by
  cases a with
  | joinSend k =>
    have after := emittable_step fits ran
    simp only [step, workerStep] at ran
    split at ran
    · simp only [Option.ite_none_right_eq_some, Option.some.injEq] at ran
      obtain ⟨⟨stand, _⟩, rfl⟩ := ran
      refine enqueued_between_sessions (if_pos (inv.current_of (by rw [stand]; rfl))) after ?_
      rw [Settled, not_and_or, not_forall] at unsettled
      exact unsettled.imp_left fun flagged => flagged.imp fun _ => not_not.mp
    · cases ran
  | emitTest e evtData =>
    simp only [Settled, not_forall, not_not] at unsettled
    obtain ⟨⟨first, passed⟩, k, runs, unsubscribed⟩ := unsettled
    simp only [step, emitStep, Option.ite_none_right_eq_some, passed, Option.map_some, ↓reduceIte,
      Option.some.injEq] at ran
    obtain ⟨⟨_, _, fits⟩, rfl⟩ := ran
    refine ⟨[], _, rfl, not_toSubscribers (i := s.emitting.length) (x := ⟨s.current, e, evtData⟩)
      (by simp) fits ?_⟩
    intro j current subscribed
    obtain rfl : j = k := Option.some.inj (current.symm.trans runs)
    have undone : Unsubscribed e ((s.sent j).take (s.acted j) ++ (s.sent j).drop (s.acted j)) :=
      unsubscribed.prepend
    rw [List.take_append_drop] at undone
    exact subscribed.not_undone exclusive_subscribes undone
  | clientSend k m =>
    simp only [Settled, not_forall, not_not] at unsettled
    obtain ⟨runs, x, member, unsub⟩ := unsettled
    simp only [step, clientStep, ne_eq, Option.ite_none_right_eq_some, Option.some.injEq] at ran
    obtain ⟨_, rfl⟩ := ran
    obtain ⟨i, found⟩ := List.mem_iff_getElem?.mp member
    refine ⟨[], _, rfl, not_toSubscribers found (fits x member).2 ?_⟩
    intro j current subscribed
    obtain rfl : j = k := Option.some.inj (current.symm.trans runs)
    have undone : Unsubscribed x.event (s.sent j ++ [m]) := since_concat.mpr (Or.inl unsub)
    simp only [Function.update_self] at subscribed
    exact subscribed.not_undone exclusive_subscribes undone
  | _ => exact absurd trivial unsettled

/-- **Events go to subscribers.** In the consecutive sessions whose every step is settled, what
`EmitEvent` enqueues is for an event the client of the current session has subscribed to, and
every session starts with no event marked; a step that is not settled lets another event be
enqueued. -/
theorem events_to_subscribers
    (reached : (system maxSub).ReachableBy (fun s a => Consecutive s a ∧ Settled maxSub s a) s) :
    ToSubscribers maxSub s ∧
      (∀ k t, Consecutive s (.activate k) → (system maxSub).step s (.activate k) = some t →
        ∀ e, ¬Flagged maxSub t e) ∧
      ∀ a t, (system maxSub).step s a = some t → ¬Settled maxSub s a →
        ∃ as u, (system maxSub).runBy Consecutive t as = some u ∧ ¬ToSubscribers maxSub u := by
  have consecutive : ∀ s, (system maxSub).ReachableBy
    (fun s a => Consecutive s a ∧ Settled maxSub s a) s →
      (system maxSub).ReachableBy Consecutive s := fun _ reached => reached.mono fun _ _ _ =>
        And.left
  have sessions : ∀ s, (system maxSub).ReachableBy Consecutive s → Sessions s :=
    fun _ reached => reachable_sessions reached fun _ _ => id
  have recorded : Recorded maxSub s := reached.invariant_from
    (fun s before => And.intro (sessions s (consecutive s before))
      (And.intro (reachable_inbox (consecutive s before) fun _ _ => id)
        (reachable_log (consecutive s before))))
    (by rintro _ rfl; exact start_recorded maxSub)
    fun _ _ _ ⟨inv, inbox, log⟩ recorded met ran =>
      recorded_step recorded inv inbox log met.1 met.2 ran
  refine ⟨recorded.toSubscribers, fun k t next ran e flag => ?_, fun a t ran unsettled => ?_⟩
  · simp only [system, step, workerStep, Option.ite_none_right_eq_some, Option.some.injEq] at ran
    obtain ⟨_, rfl⟩ := ran
    exact recorded.unmarked next e flag
  · exact unsettled_enqueues (sessions s (consecutive s reached))
      (reachable_emittable reached) ran unsettled

/-- Two sessions: the first unsubscribes before it ends, the second subscribes anew. -/
theorem events_to_subscribers_of_two_sessions : ∃ s,
    (s.current = some 1 ∧ s.emitting = [⟨some 1, 1, [42]⟩]) ∧ ToSubscribers 1 s := by
  let sub : DefaultMessage := ⟨InternalOperation.EVT_SUB.code, 0, some [1]⟩
  let unsub : DefaultMessage := ⟨InternalOperation.EVT_UNSUB.code, 1, some [1]⟩
  have replayed : ∃ s, (system 1).ReachableBy (fun s a =>
      (match a with
        | .activate _ => s.current.isNone
        | .joinSend _ => CheckEvent 1 s.subscriptions 1 == some false && s.emitting.isEmpty
        | .emitTest .. => s.current.all fun k => ((s.sent k).drop (s.acted k)).isEmpty
        | .clientSend .. => s.emitting.isEmpty
        | _ => true) = true) s ∧ s.current = some 1 ∧ s.emitting = [⟨some 1, 1, [42]⟩] :=
    System.exists_reachableBy_of_replay (s := start 1) rfl
      (connecting 0 ++ starting 0 ++ handling 0 sub (.ofType 0) .zeros ++
        [.emitTest 1 [42], .emitPush 0 .zeros] ++
        handling 0 unsub (.ofType 0) .zeros ++ ending 0 ++ connecting 1 ++ starting 1 ++
        handling 1 sub (.ofType 0) .zeros ++ [.emitTest 1 [42]]) (by decide +kernel)
  obtain ⟨s, reached, seen⟩ := replayed
  refine ⟨s, seen, (events_to_subscribers (reached.mono fun s a _ met => ?_)).1⟩
  cases a with
  | activate k => exact ⟨Option.isNone_iff_eq_none.mp met, trivial⟩
  | joinSend k =>
    simp only [Bool.and_eq_true, beq_iff_eq, List.isEmpty_iff] at met
    refine ⟨trivial, fun e ⟨first, passed⟩ => ?_, met.2⟩
    obtain rfl : e = 1 := UInt8.le_antisymm (CheckEvent_eq_true.mp passed).1 first
    rw [met.1] at passed
    cases passed
  | emitTest e evtData =>
    refine ⟨trivial, fun _ k current => ?_⟩
    simp only [current, Option.all_some, List.isEmpty_iff] at met
    rw [met]
    exact since_nil
  | clientSend k m =>
    refine ⟨trivial, fun _ x member => ?_⟩
    rw [List.isEmpty_iff.mp met] at member
    exact absurd member List.not_mem_nil
  | _ => exact ⟨trivial, trivial⟩

/-- **The condition is needed.** The client of session 0 subscribes and disconnects; session 1, whose
client has sent nothing, is sent the event. -/
theorem event_enqueued_for_next_session :
    ∃ s, (system 1).ReachableBy Consecutive s ∧ ¬ToSubscribers 1 s := by
  let sub : DefaultMessage := ⟨InternalOperation.EVT_SUB.code, 0, some [1]⟩
  have replayed : ∃ s, (system 1).ReachableBy Consecutive s ∧
      s.emitting = [⟨some 1, 1, [42]⟩] ∧ s.current = some 1 ∧ s.sent 1 = [] :=
    System.exists_reachableBy_of_replay (s := start 1) rfl
      (connecting 0 ++ starting 0 ++ handling 0 sub (.ofType 0) .zeros ++ ending 0 ++ connecting 1 ++
        starting 1 ++
        [.emitTest 1 [42]]) (by decide +kernel)
  obtain ⟨s, reached, under, current, sent⟩ := replayed
  refine ⟨s, reached, not_toSubscribers (i := 0) (x := ⟨some 1, 1, [42]⟩) (by rw [under]; rfl)
    (by simp) ?_⟩
  intro k runs
  obtain rfl := Option.some.inj (current.symm.trans runs)
  rw [sent]
  exact since_nil

end DCScan.Server
