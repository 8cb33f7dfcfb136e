import DCScan.SessionUnique

/-!
Request/response agreement inside one session: as long as no call draws an id that an
open call holds, every value a call ends with was produced for that call's parameters, and
nothing is executed twice.

The id is a 64-bit counter and nothing checks that the id drawn is free, so the condition
cannot be dropped: a call that stays open while 2^64 ids are drawn meets its own id again.
-/

namespace DCScan.Session

open Lib Message

variable {maxSub : UInt8} {s t : State} {a : Action}

/-- Every call that has ended did so with a value produced for its own parameters. -/
def OwnReplies (s : State) : Prop :=
  ∀ n r, (n, r) ∈ s.returned ∨ (n, r) ∈ s.fulfilled →
    ∃ c, s.calls[n]? = some c ∧ ⟨n, c.data, r⟩ ∈ s.executed

/-- Both copies out of a reply read the whole value. -/
private theorem value_of_reply {n : Nat} {msg : DefaultMessage} (answer : Answered s n msg) :
    ∃ c r, s.calls[n]? = some c ∧ ⟨n, c.data, r⟩ ∈ s.executed ∧
      (∀ old, SVReturn.read old msg.payload = some r) ∧ SVReturn.cast msg.payload = some r := by
  obtain ⟨c, op, r, found, kind, rfl, ran⟩ := answer
  exact ⟨c, r, found, ran, fun old => SVReturn.read_bytes old r, SVReturn.cast_bytes r⟩

theorem own_replies_step (sound : Sound s) (own : OwnReplies s) (eff : Effect s a t) :
    OwnReplies t := by
  have keeps : ∀ {n r}, (∃ c, s.calls[n]? = some c ∧ ⟨n, c.data, r⟩ ∈ s.executed) →
      ∃ c, t.calls[n]? = some c ∧ ⟨n, c.data, r⟩ ∈ t.executed := by
    rintro n r ⟨c, found, ran⟩
    exact ⟨c, call_found (effect_grows eff).1 found, (effect_grows eff).2.subset ran⟩
  cases eff with
  | @take i n id old ret stand held same value =>
    obtain ⟨c, r, found, ran, read, _⟩ :=
      value_of_reply (take_own sound.shape sound.uniq stand held same).2
    rintro k v (ended | ended)
    · rcases List.mem_append.mp ended with before | new
      · exact own k v (Or.inl before)
      · cases List.mem_singleton.mp new
        rw [read old, Option.some.injEq] at value
        exact ⟨c, found, value ▸ ran⟩
    · exact own k v (Or.inr ended)
  | @fulfil m rest n value arrived answer stored read =>
    obtain ⟨c, r, found, ran, _, cast⟩ :=
      value_of_reply (fulfil_own sound.shape sound.uniq arrived answer stored).2
    rintro k v (ended | ended)
    · exact own k v (Or.inl ended)
    · rcases List.mem_append.mp ended with before | new
      · exact own k v (Or.inr before)
      · cases List.mem_singleton.mp new
        rw [cast, Option.some.injEq] at read
        exact ⟨c, found, read ▸ ran⟩
  | _ => exact fun n r ended => keeps (own n r ended)

/-- **Agreement.** In the runs in which no call draws an id held by an open call, every value
that `SendSync` returns and every value a promise of `SendAsync` is fulfilled with was
produced by `Execute` for that call's parameters, and no request is executed twice. -/
theorem agreement (reached : (system maxSub).ReachableBy Fresh s) :
    OwnReplies s ∧ (s.executed.map Execution.call).Nodup := by
  have own : OwnReplies s := reached.invariant_from (fun _ => reachable_sound fun _ _ => id)
    (by rintro _ ⟨nid, serverNid, rfl⟩; simp [OwnReplies, start])
    fun _ _ _ sound own _ ran => own_replies_step sound own (effect_of_step ran)
  exact ⟨own, (reachable_sound (fun _ _ => id) reached).uniq.executions.once⟩

/-- One call of each kind, answered. -/
theorem agreement_of_two_calls :
    ∃ s, s.returned = [(0, .ofType 1)] ∧ s.fulfilled = [(1, .ofType 2)] ∧
    OwnReplies s ∧ (s.executed.map Execution.call).Nodup := by
  have replayed : ∃ s, (system 0).ReachableBy (fun s _ => s.calls.length < 2 ^ 64) s ∧
      (s.returned = [(0, .ofType 1)] ∧ s.fulfilled = [(1, .ofType 2)]) :=
    System.exists_reachableBy_of_replay (s := start 0 0 0) ⟨0, 0, rfl⟩
      [.request 0 true [1, 0] .zeros, .request 1 false [2, 0] .zeros, .schedule 1, .schedule 0,
        .register 1,
        .clientSend, .clientSend, .serverDecode (.ofType 2) .zeros, .serverDecode (.ofType 1) .zeros,
        .serverSend,
        .serverSend, .clientDecode, .clientDecode, .take 0 (.ofType 0)] (by decide +kernel)
  obtain ⟨s, reached, returned, fulfilled⟩ := replayed
  exact ⟨s, returned, fulfilled,
    agreement (reached.mono fun _ _ before few => fresh_of_few before.reachable few)⟩

/-! ## An id that comes round again -/

/-- No message is on its way behind the client's queue, and nothing stops a thread. -/
structure Quiet (s : State) : Prop where
  toServer : s.toServer = []
  serverOutbound : s.serverOutbound = []
  toClient : s.toClient = []
  fault : s.fault = none
  dispatching : s.events.dispatching = none

/-- `s` after thread `i` has drawn an id for a synchronous request. -/
def afterRequest (s : State) (i : Nat) (data : List UInt8) : State :=
  { s with
    nid := s.nid + 1
    threads := Function.update s.threads i
      (.drawn true s.calls.length (Call.message ⟨.sync, s.nid, data⟩))
    calls := s.calls ++ [⟨.sync, s.nid, data⟩] }

theorem reachable_request {i : Nat} {data : List UInt8} (mem : Uninit)
    (reached : (system maxSub).Reachable s)
    (fault : s.fault = none) (idle : s.threads i = .idle)
    (sized : 2 ≤ data.length ∧ data.length ≤ 1024) :
    (system maxSub).Reachable (afterRequest s i data) := by
  refine reached.next (a := .request i true data mem) ?_
  simp only [system, step, fault, Option.isSome_none, Bool.false_eq_true, if_false, idle, sized,
    and_self, if_true]
  exact begin_eq (show true = decide (CallKind.sync = .sync) from rfl) rfl (by omega) (by omega)

/-- `s` after thread `i` has scheduled the message of its synchronous call `n`. -/
def afterSchedule (s : State) (i n : Nat) (msg : DefaultMessage) : State :=
  { s with
    outbound := s.outbound ++ [⟨some n, msg⟩]
    threads := Function.update s.threads i (.waiting n msg.id) }

theorem reachable_schedule {i n : Nat} {msg : DefaultMessage}
    (reached : (system maxSub).Reachable s)
    (fault : s.fault = none) (stand : s.threads i = .drawn true n msg) :
    (system maxSub).Reachable (afterSchedule s i n msg) := by
  refine reached.next (a := .schedule i) ?_
  simp [system, step, fault, stand, afterSchedule]

/-- `s` after the first request has gone up and its reply has come down to thread `j`, whose
call is `k`. -/
def afterExchange (s : State) (j n k : Nat) (c : Call) (rest : List Tagged) (r : SVReturn) :
    State :=
  { s with
    outbound := rest
    lmessage := ⟨none, Delete ⟨InternalOperation.SYNC_RESPONSE.code, c.id, some r.bytes⟩⟩
    threads := Function.update s.threads j .idle
    executed := s.executed ++ [⟨n, c.data, r⟩]
    delivered := s.delivered ++ [n]
    returned := s.returned ++ [(k, r)] }

theorem reachable_exchange {j n k : Nat} {c : Call} {rest : List Tagged} {r : SVReturn}
    (mem : Uninit)
    (reached : (system maxSub).Reachable s) (quiet : Quiet s)
    (queued : s.outbound = ⟨some n, c.message⟩ :: rest)
    (sync : c.kind = .sync) (stand : s.threads j = .waiting k c.id) :
    (system maxSub).Reachable (afterExchange s j n k c rest r) := by
  obtain ⟨toServer, serverOutbound, toClient, fault, dispatching⟩ := quiet
  have request : c.message.operation =
    some .SYNC_REQUEST := by rw [Call.operation_message, sync]; rfl
  let answer : DefaultMessage := ⟨InternalOperation.SYNC_RESPONSE.code, c.id, some r.bytes⟩
  have isAnswer : answer.operation = some .SYNC_RESPONSE := DefaultMessage.operation_mk
  have kept : Copy answer = answer := by
    have full : 0 < r.bytes.length := by rw [r.length_eq]; decide
    simp [answer, Copy, DefaultMessage.size, full]
  have held : answers answer c.id = true := by simp [answers, answer]
  have decoded : decodeSwitch maxSub s.events.subscriptions c.message r mem =
      some ⟨some answer, s.events.subscriptions⟩ := by
    simp only [decodeSwitch, request, reply_eq, Option.map_some]
    rfl
  let sent : State := { s with outbound := rest, toServer := [⟨some n, c.message⟩] }
  let served : State :=
    { s with outbound := rest, serverOutbound := [⟨some n, answer⟩],
             executed := s.executed ++ [⟨n, c.data, r⟩] }
  let back : State := { served with serverOutbound := [], toClient := [⟨some n, answer⟩] }
  let slotted : State :=
    { s with outbound := rest, executed := s.executed ++ [⟨n, c.data, r⟩], lmessage := ⟨some n, answer⟩,
             delivered := s.delivered ++ [n] }
  have sends : (system maxSub).step s .clientSend = some sent := by
    simp [system, step, sent, fault, queued, toServer]
  have serves : (system maxSub).step sent (.serverDecode r mem) = some served := by
    simp only [system, step, sent, fault, serverSwitch, decoded, serverOutbound, Option.isSome_none,
      Bool.false_eq_true, if_false, Option.map_some]
    simp [served, toServer, fault, Call.message, DefaultMessage.payload]
  have sendsBack : (system maxSub).step served .serverSend = some back := by
    simp [system, step, served, back, fault, toClient]
  have arrives : (system maxSub).step back .clientDecode = some slotted := by
    simp [system, step, served, back, slotted, fault, dispatching, clientSwitch, isAnswer,
      setMsgIdCondition, kept, serverOutbound, toClient]
  have takes : (system maxSub).step slotted (.take j r) =
      some (afterExchange s j n k c rest r) := by
    simp [system, step, slotted, fault, stand, held, waitForId, afterExchange, answer]
  exact ((((reached.next sends).next serves).next sendsBack).next arrives).next takes

/-- Thread 0 holds the request of the first call and does not schedule it; nothing else is under way. -/
structure Suspended (s : State) : Prop extends Quiet s where
  held : ∃ c : Call, c.kind = .sync ∧ c.id = 0 ∧ s.threads 0 = .drawn true 0 c.message
  idle : ∀ i, i ≠ 0 → s.threads i = .idle
  outbound : s.outbound = []
  executed : ∀ e ∈ s.executed, e.call < s.calls.length
  called : 0 < s.calls.length

/-- Thread 1 draws an id, sends its request and takes the reply. -/
theorem suspended_round (mem : Uninit) (r : SVReturn) (before : Suspended s)
    (reached : (system maxSub).Reachable s) :
    ∃ t, (system maxSub).Reachable t ∧ Suspended t ∧ t.nid = s.nid + 1 := by
  let c : Call := ⟨.sync, s.nid, [0, 0]⟩
  let drawn := afterRequest s 1 c.data
  let scheduled := afterSchedule drawn 1 s.calls.length c.message
  have drew : (system maxSub).Reachable drawn :=
    reachable_request mem reached before.fault (before.idle 1 (by decide)) (by simp [c])
  have sent : (system maxSub).Reachable scheduled :=
    reachable_schedule drew before.fault (by simp [drawn, afterRequest, c])
  have queued : scheduled.outbound = ⟨some s.calls.length, c.message⟩ :: [] := by
    simp [scheduled, drawn, afterSchedule, afterRequest, before.outbound]
  have waits : scheduled.threads 1 = .waiting s.calls.length c.id := by
    simp [scheduled, afterSchedule, Call.message]
  have ended := reachable_exchange (r := r) mem sent { before.toQuiet with } queued rfl waits
  obtain ⟨d, sync, zero, stand⟩ := before.held
  refine ⟨_, ended, ⟨{ before.toQuiet with }, ⟨d, sync, zero, stand⟩, fun i other => ?_,
    rfl, fun e ran => ?_, ?_⟩, rfl⟩
  · by_cases one : i = 1
    · subst one
      simp [afterExchange]
    · simpa [afterExchange, scheduled, afterSchedule, drawn, afterRequest, one] using before.idle i
        other
  · simp only [afterExchange, scheduled, afterSchedule, drawn, afterRequest, List.length_append,
      List.length_singleton] at ran ⊢
    rcases List.mem_append.mp ran with old | new
    · exact Nat.lt_succ_of_lt (before.executed e old)
    · rw [List.mem_singleton.mp new]
      exact Nat.lt_succ_self _
  · simp [afterExchange, scheduled, afterSchedule, drawn, afterRequest]

/-- The counter takes every value while thread 0 is suspended. -/
theorem suspended_rounds (mem : Uninit) (r : SVReturn) (before : Suspended s)
    (reached : (system maxSub).Reachable s) (k : Nat) :
    ∃ t, (system maxSub).Reachable t ∧ Suspended t ∧ t.nid = s.nid + UInt64.ofNat k := by
  induction k with
  | zero => exact ⟨s, reached, before, by simp⟩
  | succ k ih =>
    obtain ⟨t, later, held, counter⟩ := ih
    obtain ⟨u, last, still, next⟩ := suspended_round mem r held later
    refine ⟨u, last, still, ?_⟩
    rw [next, counter, UInt64.ofNat_add, UInt64.add_assoc]
    rfl

/-- Once the counter has gone round, thread 2 draws the id thread 0 holds, and takes the
reply to thread 0's request. -/
theorem suspended_taken (mem : Uninit) (r : SVReturn) (before : Suspended s) (again : s.nid = 0)
    (reached : (system maxSub).Reachable s) : ∃ t, (system maxSub).Reachable t ∧ ¬OwnReplies t := by
  obtain ⟨c, sync, zero, stand⟩ := before.held
  let drawn := afterRequest s 2 [0, 0]
  let first := afterSchedule drawn 0 0 c.message
  let second := afterSchedule first 2 s.calls.length (Call.message ⟨.sync, s.nid, [0, 0]⟩)
  have drew : (system maxSub).Reachable drawn :=
    reachable_request mem reached before.fault (before.idle 2 (by decide)) (by decide)
  have sent : (system maxSub).Reachable first :=
    reachable_schedule drew before.fault (by simpa [drawn, afterRequest] using stand)
  have both : (system maxSub).Reachable second :=
    reachable_schedule sent before.fault (by simp [first, afterSchedule, drawn, afterRequest])
  have queued : second.outbound = ⟨some 0, c.message⟩ ::
      [⟨some s.calls.length, Call.message ⟨.sync, s.nid, [0, 0]⟩⟩] := by
    simp [second, first, drawn, afterSchedule, afterRequest, before.outbound]
  have waits : second.threads 2 = .waiting s.calls.length c.id := by
    simp [second, afterSchedule, Call.message, again, zero]
  have ended := reachable_exchange (r := r) mem both { before.toQuiet with } queued sync waits
  refine ⟨_, ended, fun own => ?_⟩
  obtain ⟨d, _, ran⟩ := own s.calls.length r
    (Or.inl (List.mem_append_right _ (List.mem_singleton.mpr rfl)))
  rcases List.mem_append.mp ran with old | new
  · exact Nat.lt_irrefl _ (before.executed _ old)
  · have same := List.mem_singleton.mp new
    simp only [Execution.mk.injEq] at same
    exact Nat.ne_of_gt before.called same.1

/-- **The condition is needed.** A thread of `SendSync` is suspended behind `SetNew` while
another makes 2^64 - 1 calls; a third one then gets the value produced for the first one's request. -/
theorem agreement_fails_when_ids_come_round : ∃ s, (system 0).Reachable s ∧ ¬OwnReplies s := by
  have begun : (system 0).Reachable (start 0 0 0) := .start ⟨0, 0, rfl⟩
  have drawn := reachable_request (i := 0) .zeros begun rfl rfl
    (show 2 ≤ [0, 1].length ∧ [(0 : UInt8), 1].length ≤ 1024 by decide)
  have first : Suspended (afterRequest (start 0 0 0) 0 [0, 1]) :=
    { toServer := rfl, serverOutbound := rfl, toClient := rfl, fault := rfl, dispatching := rfl
      held := ⟨⟨.sync, 0, [0, 1]⟩, rfl, rfl, by simp [afterRequest, start]⟩
      idle := fun i other => by simp [afterRequest, start, other]
      outbound := rfl
      executed := fun e ran => nomatch ran
      called := Nat.one_pos }
  obtain ⟨s, reached, suspended, counter⟩ :=
    suspended_rounds .zeros (.ofType 0) first drawn (2 ^ 64 - 1)
  exact suspended_taken .zeros (.ofType 0) suspended (by rw [counter]; rfl) reached

end DCScan.Session
