import DCScan.Session

/-!
What the steps of a session do to its calls, said once (`Effect`), and what therefore
holds of the calls in every reachable state.

`Shape` says that a message is what its call made it: a request carries the opcode, id
and data of its call, a reply the id of its call and the value of an execution with the
call's data.
-/

namespace DCScan.Session

open Lib Message

/-- The opcode a request is answered with. -/
def CallKind.response : CallKind → Option InternalOperation
  | sync => some .SYNC_RESPONSE
  | async => some .ASYNC_RESPONSE
  | sub => none
  | unsub => none

/-- The message `SendSync` or `SendAsync` makes for a call. -/
def Call.message (c : Call) : DefaultMessage := ⟨c.kind.request.code, c.id, some c.data⟩

/-- The call a thread is in, once it has drawn its id. -/
def Phase.call : Phase → Option Nat
  | drawn _ n _ => some n
  | waiting n _ => some n
  | registering n _ => some n
  | _ => none

/-- The calls that have come to their end. -/
def State.done (s : State) : List Nat := s.returned.map Prod.fst ++ s.fulfilled.map Prod.fst

/-- A call that has drawn its id and has not come to its end. -/
def Open (s : State) (n : Nat) : Prop := n < s.calls.length ∧ n ∉ s.done

/-- Every message under way, the farthest first. -/
def State.pipeline (s : State) : List Tagged :=
  s.toClient ++ s.serverOutbound ++ (s.toServer ++ s.outbound)

/-- The calls of some messages. -/
def tags (ms : List Tagged) : List Nat := ms.filterMap Tagged.call

/-- A call draws an id that no open call holds. The counter has 64 bits, so this fails only
when an id comes round again while its earlier call is still open. -/
def Fresh (s : State) : Action → Prop
  | .request .. | .announce .. => ∀ n c, Open s n → s.calls[n]? = some c → c.id ≠ s.nid
  | _ => True

/-! ## One inversion for the steps -/

/-- What each action finds, and leaves. -/
inductive Turn (maxSub : UInt8) (s : State) : Action → State → Prop where
  | request {i sync data mem t} (stand : s.threads i = .idle)
      (sized : 2 ≤ data.length ∧ data.length ≤ 1024)
      (made : begin s i sync (if sync then .sync else .async) .REQUEST data mem = some t) :
      Turn maxSub s (.request i sync data mem) t
  | setupCallback {i e f userData} (stand : s.threads i = .idle) :
      Turn maxSub s (.setupCallback i e f userData) { s with
        events.evtCallbacks := emplace s.events.evtCallbacks e f
        threads := Function.update s.threads i (.settingUp e userData) }
  | setupUserData {i e userData} (stand : s.threads i = .settingUp e userData) :
      Turn maxSub s (.setupUserData i) { s with
        events.evtUserData := emplace s.events.evtUserData e userData
        threads := Function.update s.threads i (.announcing true e) }
  | removeCallback {i e} (stand : s.threads i = .idle) :
      Turn maxSub s (.removeCallback i e) { s with
        events.evtCallbacks := eraseEvent maxSub s.events.evtCallbacks e
        threads := Function.update s.threads i (.removing e) }
  | removeUserData {i e} (stand : s.threads i = .removing e) :
      Turn maxSub s (.removeUserData i) { s with
        events.evtUserData := eraseEvent maxSub s.events.evtUserData e
        threads := Function.update s.threads i (.announcing false e) }
  | announce {i mem sub e t} (stand : s.threads i = .announcing sub e)
      (made : begin s i false (if sub then .sub else .unsub)
        (if sub then .EVT_SUB else .EVT_UNSUB) [e] mem = some t) :
      Turn maxSub s (.announce i mem) t
  | schedule {i sync n msg} (stand : s.threads i = .drawn sync n msg) :
      Turn maxSub s (.schedule i) { s with
        outbound := s.outbound ++ [⟨some n, msg⟩]
        threads := Function.update s.threads i
          (if sync then .waiting n msg.id else .registering n msg.id) }
  | register {i n id} (stand : s.threads i = .registering n id) :
      Turn maxSub s (.register i) { s with
        asyncMessProm := emplace s.asyncMessProm id n
        threads := Function.update s.threads i .idle }
  | take {i n id old} (stand : s.threads i = .waiting n id)
      (answered : answers s.lmessage.msg id = true) :
      Turn maxSub s (.take i old) (waitForId s i n old)
  | clientSend {m rest} (queued : s.outbound = m :: rest) :
      Turn maxSub s .clientSend { s with outbound := rest, toServer := s.toServer ++ [m] }
  | serverDecode {r mem m rest t} (arrived : s.toServer = m :: rest)
      (switched : serverSwitch maxSub { s with toServer := rest } m r mem = some t) :
      Turn maxSub s (.serverDecode r mem) t
  | emitTest {e evtData subscribed} (within : e ≤ maxSub)
      (tested : CheckEvent maxSub s.events.subscriptions e = some subscribed) :
      Turn maxSub s (.emitTest e evtData)
        (if subscribed then { s with events.emitting := s.events.emitting ++ [(e, evtData)] } else s)
  | emitPush {k mem e evtData nid msg} (pending : s.events.emitting[k]? = some (e, evtData))
      (made : eventMessage mem s.events.serverNid e evtData = some (nid, msg)) :
      Turn maxSub s (.emitPush k mem) { s with
        events.serverNid := nid
        events.emitting := s.events.emitting.eraseIdx k
        serverOutbound := s.serverOutbound ++ [⟨none, msg⟩] }
  | serverSend {m rest} (queued : s.serverOutbound = m :: rest) :
      Turn maxSub s .serverSend { s with serverOutbound := rest, toClient := s.toClient ++ [m] }
  | clientDecode {m rest t} (arrived : s.toClient = m :: rest)
      (switched : clientSwitch maxSub { s with toClient := rest } m = some t) :
      Turn maxSub s .clientDecode t
  | clientDispatch {e} (found : s.events.dispatching = some e) :
      Turn maxSub s .clientDispatch (dispatchUserData maxSub s e)

/-- What a step does to the calls. -/
inductive Effect (s : State) : Action → State → Prop where
  /-- Event tables, threads outside calls, and event messages. -/
  | quiet {a : Action} {threads : Nat → Phase} {v : Events} {p : List Tagged} {f : Option Fault}
      (calls : ∀ i, (s.threads i).call ≠ none ∨ (threads i).call ≠ none → threads i = s.threads i)
      (untagged : ∀ m ∈ p, m.call = none ∧ m.msg.operation = some .EVT_RESPONSE)
      (noPromise : f ≠ some .promiseMissing) :
      Effect s a { s with threads := threads, events := v,
                          serverOutbound := s.serverOutbound ++ p, fault := f }
  | draw {a : Action} {i : Nat} {c : Call} (idle : (s.threads i).call = none)
      (counter : c.id = s.nid)
      (fresh : Fresh s a → ∀ n d, Open s n → s.calls[n]? = some d → d.id ≠ c.id) :
      Effect s a { s with
        nid := s.nid + 1
        threads := Function.update s.threads i (.drawn (c.kind = .sync) s.calls.length c.message)
        calls := s.calls ++ [c] }
  | schedule {i n : Nat} {sync : Bool} {msg : DefaultMessage}
      (stand : s.threads i = .drawn sync n msg) :
      Effect s (.schedule i) { s with
        outbound := s.outbound ++ [⟨some n, msg⟩]
        threads := Function.update s.threads i
          (if sync then .waiting n msg.id else .registering n msg.id) }
  | register {i n : Nat} {id : UInt64} (stand : s.threads i = .registering n id) :
      Effect s (.register i) { s with
        asyncMessProm := emplace s.asyncMessProm id n
        threads := Function.update s.threads i .idle }
  | take {i n : Nat} {id : UInt64} {old ret : SVReturn} (stand : s.threads i = .waiting n id)
      (held : s.lmessage.msg.ptr.isSome) (same : s.lmessage.msg.id = id)
      (value : old.read s.lmessage.msg.payload = some ret) :
      Effect s (.take i old) { s with
        lmessage := ⟨none, Delete s.lmessage.msg⟩
        threads := Function.update s.threads i .idle
        returned := s.returned ++ [(n, ret)] }
  | clientSend {m : Tagged} {rest : List Tagged} (queued : s.outbound = m :: rest) :
      Effect s .clientSend { s with outbound := rest, toServer := s.toServer ++ [m] }
  | serverReply {m : Tagged} {rest : List Tagged} {k : CallKind} {op : InternalOperation}
      {r : SVReturn}
      {mem : Uninit} (arrived : s.toServer = m :: rest) (request : m.msg.operation = some k.request)
      (answered : k.response = some op) :
      Effect s (.serverDecode r mem) { s with
        toServer := rest
        serverOutbound := s.serverOutbound ++ [⟨m.call, ⟨op.code, m.msg.id, some r.bytes⟩⟩]
        executed := s.executed ++ m.call.toList.map fun n => ⟨n, m.msg.payload, r⟩ }
  | serverDrop {m : Tagged} {rest : List Tagged} {r : SVReturn} {mem : Uninit} {v : Events}
      (arrived : s.toServer = m :: rest) :
      Effect s (.serverDecode r mem) { s with toServer := rest, events := v }
  | serverSend {m : Tagged} {rest : List Tagged} (queued : s.serverOutbound = m :: rest) :
      Effect s .serverSend { s with serverOutbound := rest, toClient := s.toClient ++ [m] }
  | fulfil {m : Tagged} {rest : List Tagged} {n : Nat} {value : SVReturn}
      (arrived : s.toClient = m :: rest)
      (answer : m.msg.operation = some .ASYNC_RESPONSE) (stored : s.asyncMessProm m.msg.id = some n)
      (read : SVReturn.cast m.msg.payload = some value) :
      Effect s .clientDecode { s with
        toClient := rest
        asyncMessProm := erase s.asyncMessProm m.msg.id
        fulfilled := s.fulfilled ++ [(n, value)] }
  | slot {m : Tagged} {rest : List Tagged} (arrived : s.toClient = m :: rest)
      (answer : m.msg.operation = some .SYNC_RESPONSE) :
      Effect s .clientDecode { s with
        toClient := rest
        lmessage := ⟨m.call, Copy m.msg⟩
        delivered := s.delivered ++ m.call.toList }
  /-- An event is dispatched, or a message of another kind dropped, or a fault ends it. -/
  | clientDrop {m : Tagged} {rest : List Tagged} {v : Events} {f : Option Fault}
      (arrived : s.toClient = m :: rest)
      (promise : f = some .promiseMissing →
        m.msg.operation = some .ASYNC_RESPONSE ∧ s.asyncMessProm m.msg.id = none) :
      Effect s .clientDecode { s with toClient := rest, events := v, fault := f }

variable {maxSub : UInt8} {s t : State} {a : Action} {n k : Nat} {c d : Call}

/-- A request is built with its call's opcode, id and data. -/
theorem begin_eq {i : Nat} {sync : Bool} {kind : CallKind} {op : Operation} {data : List UInt8}
    {mem : Uninit} (mode : sync = decide (kind = .sync))
    (code : op.code + (if op = .REQUEST then (if sync then 1 else 2) else 0) = kind.request.code)
    (nonempty : 0 < data.length) (fits : data.length + 9 < 2 ^ 16) :
    begin s i sync kind op data mem = some { s with
      nid := s.nid + 1
      threads := Function.update s.threads i
        (.drawn (kind = .sync) s.calls.length (Call.message ⟨kind, s.nid, data⟩))
      calls := s.calls ++ [⟨kind, s.nid, data⟩] } := by
  rw [begin, build_eq nonempty fits, code, mode]
  rfl

private theorem quiet_update {i : Nat} {p q : Phase} (stand : s.threads i = p)
    (before : p.call = none)
    (after : q.call = none) : ∀ j, (s.threads j).call ≠ none ∨
    (Function.update s.threads i q j).call ≠ none →
      Function.update s.threads i q j = s.threads j := by
  intro j calling
  by_cases same : j = i
  · subst same
    simp [stand, before, after] at calling
  · simp [same]

/-- The server's switch answers a request and drops every other message. -/
theorem effect_of_serverSwitch {m : Tagged} {rest : List Tagged} {r : SVReturn} {mem : Uninit}
    (arrived : s.toServer = m :: rest)
    (ran : serverSwitch maxSub { s with toServer := rest } m r mem = some t) :
    Effect s (.serverDecode r mem) t := by
  obtain ⟨d, decoded, rfl⟩ := Option.map_eq_some_iff.mp ran
  rcases decodeSwitch_reply decoded with ⟨rfl, request⟩ | ⟨rfl, request⟩ | dropped
  · exact .serverReply (k := .async) arrived request rfl
  · exact .serverReply (k := .sync) arrived request rfl
  · simp only [dropped]
    exact .serverDrop arrived

/-- The client's switch fulfils a promise, fills the slot, or drops the message. -/
theorem effect_of_clientSwitch {m : Tagged} {rest : List Tagged} (running : s.fault = none)
    (arrived : s.toClient = m :: rest)
    (ran : clientSwitch maxSub { s with toClient := rest } m = some t) :
    Effect s .clientDecode t := by
  simp only [clientSwitch] at ran
  split at ran
  · rename_i answer
    cases ran
    unfold notifyPromise
    split
    · rename_i missing
      exact .clientDrop (v := s.events) arrived fun _ => ⟨answer, missing⟩
    · rename_i stored
      split
      · rename_i read
        exact .fulfil arrived answer stored read
      · exact .clientDrop (v := s.events) arrived (by simp)
  · rename_i answer
    cases ran
    exact .slot arrived answer
  · obtain ⟨e, _, rfl⟩ := Option.map_eq_some_iff.mp ran
    unfold dispatchEvent
    split
    · exact .clientDrop (f := s.fault) arrived (by simp [running])
    · exact .clientDrop (v := s.events) arrived (by simp)
    · exact .clientDrop (v := s.events) arrived (by simp)
  · cases ran
    exact .clientDrop (v := s.events) (f := s.fault) arrived (by simp [running])

/-- A step that leaves every thread's call and every queue alone. -/
private theorem quiet_of {threads : Nat → Phase} {v : Events} {f : Option Fault}
    (calls : ∀ i, (s.threads i).call ≠ none ∨ (threads i).call ≠ none → threads i = s.threads i)
    (noPromise : f ≠ some .promiseMissing) :
    Effect s a { s with threads := threads, events := v, fault := f } := by
  simpa using Effect.quiet (a := a) (v := v) (p := []) calls (by simp) noPromise

/-- Nothing runs after a fault. -/
theorem running_of_step (ran : step maxSub s a = some t) : s.fault = none := by
  unfold step at ran
  split at ran
  · contradiction
  · rename_i faultless
    simpa using faultless

theorem turn_of_step (ran : step maxSub s a = some t) : Turn maxSub s a t := by
  rw [step.eq_def, if_neg (by simp [running_of_step ran])] at ran
  cases a with
  | request i sync data mem =>
    rw [Option.ite_none_right_eq_some] at ran
    obtain ⟨⟨stand, sized⟩, made⟩ := ran
    exact .request stand sized made
  | setupCallback i e f userData =>
    rw [Option.ite_none_right_eq_some] at ran
    obtain ⟨stand, made⟩ := ran
    cases made
    exact .setupCallback stand
  | removeCallback i e =>
    rw [Option.ite_none_right_eq_some] at ran
    obtain ⟨stand, made⟩ := ran
    cases made
    exact .removeCallback stand
  | setupUserData | removeUserData | schedule | register | clientSend | serverSend =>
    simp only at ran
    split at ran <;> cases ran
    constructor
    assumption
  | announce i mem =>
    simp only at ran
    split at ran
    · rename_i stand
      exact .announce stand ran
    · contradiction
  | take i old =>
    simp only at ran
    split at ran
    · rename_i stand
      rw [Option.ite_none_right_eq_some] at ran
      obtain ⟨answered, taken⟩ := ran
      cases taken
      exact .take stand answered
    · contradiction
  | serverDecode r mem =>
    simp only at ran
    split at ran
    · rename_i arrived
      exact .serverDecode arrived ran
    · contradiction
  | emitTest e evtData =>
    rw [Option.ite_none_right_eq_some] at ran
    obtain ⟨⟨-, within, -⟩, emitted⟩ := ran
    obtain ⟨subscribed, tested, rfl⟩ := Option.map_eq_some_iff.mp emitted
    exact .emitTest within tested
  | emitPush k mem =>
    simp only at ran
    split at ran
    · rename_i pending
      obtain ⟨⟨nid, msg⟩, made, rfl⟩ := Option.map_eq_some_iff.mp ran
      exact .emitPush pending made
    · contradiction
  | clientDecode =>
    simp only at ran
    split at ran
    · rename_i arrived
      exact .clientDecode arrived ran
    · contradiction
  | clientDispatch =>
    obtain ⟨e, found, rfl⟩ := Option.map_eq_some_iff.mp ran
    exact .clientDispatch found

/-- **Every step has one of the effects.** -/
theorem effect_of_step (ran : step maxSub s a = some t) : Effect s a t := by
  have running := running_of_step ran
  have noPromise : s.fault ≠ some .promiseMissing := by simp [running]
  cases turn_of_step ran with
  | @request i sync data mem _ stand sized made =>
    rw [begin_eq (by cases sync <;> rfl) (by cases sync <;> decide) (by omega) (by omega)] at made
    cases made
    exact .draw (c := ⟨if sync then .sync else .async, s.nid, data⟩) (by rw [stand]; rfl) rfl
      fun fresh => fresh
  | setupCallback stand | setupUserData stand | removeCallback stand | removeUserData stand =>
    exact quiet_of (quiet_update stand rfl rfl) noPromise
  | @announce i mem sub e _ stand made =>
    rw [begin_eq (by cases sub <;> rfl) (by cases sub <;> decide) (by simp) (by simp)] at made
    cases made
    exact .draw (c := ⟨if sub then .sub else .unsub, s.nid, [e]⟩) (by rw [stand]; rfl) rfl
      fun fresh => fresh
  | schedule stand => exact .schedule stand
  | register stand => exact .register stand
  | take stand answered =>
    simp only [answers, Bool.and_eq_true, beq_iff_eq] at answered
    unfold waitForId
    split
    · rename_i value
      exact .take stand answered.1 answered.2 value
    · exact quiet_of (v := s.events) (fun _ _ => rfl) (by simp)
  | clientSend queued => exact .clientSend queued
  | serverDecode arrived switched => exact effect_of_serverSwitch arrived switched
  | emitTest within tested =>
    split
    · exact quiet_of (fun _ _ => rfl) noPromise
    · exact quiet_of (v := s.events) (fun _ _ => rfl) noPromise
  | emitPush pending made =>
    have event := (eventMessage_head made).1
    exact .quiet (fun _ _ => rfl) (by simp [event]) noPromise
  | serverSend queued => exact .serverSend queued
  | clientDecode arrived switched => exact effect_of_clientSwitch running arrived switched
  | clientDispatch =>
    unfold dispatchUserData
    split
    · exact quiet_of (v := s.events) (fun _ _ => rfl) (by simp)
    · exact quiet_of (fun _ _ => rfl) noPromise

/-- A decode step of the client runs the switch on the message that arrived. -/
theorem decode_arrived {m : Tagged} {rest : List Tagged} (arrived : s.toClient = m :: rest)
    (ran : step maxSub s .clientDecode = some t) :
    clientSwitch maxSub { s with toClient := rest } m = some t := by
  cases turn_of_step ran with
  | clientDecode arrived' switched =>
    cases arrived.symm.trans arrived'
    exact switched

/-! ## Messages are what their calls made them -/

/-- A request on its way. -/
def Requested (s : State) (m : Tagged) : Prop :=
  ∃ n c, m.call = some n ∧ s.calls[n]? = some c ∧ m.msg = c.message

/-- A reply to call `n`, carrying the value of an execution with the call's own data. -/
def Answered (s : State) (n : Nat) (msg : DefaultMessage) : Prop :=
  ∃ c op r, s.calls[n]? = some c ∧ c.kind.response = some op ∧ msg = ⟨op.code, c.id, some r.bytes⟩ ∧
    ⟨n, c.data, r⟩ ∈ s.executed

/-- The threads hold what they drew. -/
structure ThreadShape (s : State) : Prop where
  drawn : ∀ {i sync n msg}, s.threads i = .drawn sync n msg →
    ∃ c, s.calls[n]? = some c ∧ msg = c.message ∧ sync = decide (c.kind = .sync)
  waiting : ∀ {i n id}, s.threads i = .waiting n id →
    ∃ c, s.calls[n]? = some c ∧ c.kind = .sync ∧ c.id = id
  registering : ∀ {i n id}, s.threads i = .registering n id →
    ∃ c, s.calls[n]? = some c ∧ c.kind ≠ .sync ∧ c.id = id

/-- The queues hold requests on the way up, replies and events on the way down. -/
structure QueueShape (s : State) : Prop where
  requests : ∀ m ∈ s.toServer ++ s.outbound, Requested s m
  replies : ∀ m ∈ s.toClient ++ s.serverOutbound,
    (m.call = none ∧ m.msg.operation = some .EVT_RESPONSE) ∨ ∃ n, m.call = some n ∧
      Answered s n m.msg

/-- The slot holds replies to synchronous calls, `async_mess_prom` promises of the others. -/
structure ReplyShape (s : State) : Prop where
  slot : s.lmessage.msg.ptr.isSome → ∃ n, s.lmessage.call = some n ∧ Answered s n s.lmessage.msg
  slot_sync : ∀ {n}, s.lmessage.call = some n → ∃ c, s.calls[n]? = some c ∧ c.kind = .sync
  promises : ∀ {id n}, s.asyncMessProm id = some n →
    ∃ c, s.calls[n]? = some c ∧ c.kind ≠ .sync ∧ c.id = id

structure Shape (s : State) : Prop extends ThreadShape s, QueueShape s, ReplyShape s where
  executed : ∀ e ∈ s.executed, ∃ c, s.calls[e.call]? = some c ∧ c.data = e.data

/-- The histories only grow. -/
theorem effect_grows (eff : Effect s a t) : s.calls <+: t.calls ∧ s.executed <+: t.executed := by
  cases eff <;> simp

theorem call_found (grows : s.calls <+: t.calls) (found : s.calls[n]? = some c) :
    t.calls[n]? = some c := by
  obtain ⟨rest, eq⟩ := grows
  rw [← eq, List.getElem?_append_left (List.getElem?_eq_some_iff.mp found).1]
  exact found

theorem Requested.mono {m : Tagged} (grows : s.calls <+: t.calls) (request : Requested s m) :
    Requested t m := by
  obtain ⟨n, c, tag, found, made⟩ := request
  exact ⟨n, c, tag, call_found grows found, made⟩

theorem Answered.mono {msg : DefaultMessage} (eff : Effect s a t) (answer : Answered s n msg) :
    Answered t n msg := by
  obtain ⟨c, op, r, found, kind, made, ran⟩ := answer
  exact ⟨c, op, r, call_found (effect_grows eff).1 found, kind, made,
    (effect_grows eff).2.subset ran⟩

theorem Call.operation_message (c : Call) : c.message.operation = some c.kind.request :=
  DefaultMessage.operation_mk

private theorem request_injective {kind other : CallKind} (same : kind.request = other.request) :
    kind = other := by
  cases kind <;> cases other <;> first | rfl | cases same

private theorem sync_of_response {op : InternalOperation} {kind : CallKind}
    (answered : kind.response = some op) :
    (op = .SYNC_RESPONSE ↔ kind = .sync) ∧ (op = .ASYNC_RESPONSE ↔ kind = .async) ∧
    op ≠ .EVT_RESPONSE := by
  cases kind <;> simp_all [CallKind.response] <;> subst answered <;> simp

/-- A thread in a call is where it was, or where the step put it. -/
private theorem threads_step (inv : Shape s) (eff : Effect s a t) : ThreadShape t := by
  have grows := (effect_grows eff).1
  cases eff with
  | @quiet a threads events pushed fault calls untagged noPromise =>
    have stands : ∀ {i n} {p : Phase}, threads i = p → p.call = some n → s.threads i = p := by
      intro i n p stand calling
      rw [← calls i (Or.inr (by simp [stand, calling])), stand]
    exact ⟨fun stand => inv.drawn (stands stand rfl), fun stand => inv.waiting (stands stand rfl),
      fun stand => inv.registering (stands stand rfl)⟩
  | @draw a i c idle counter fresh =>
    constructor
    · intro j sync n msg stand
      rcases update_cases stand with ⟨_, new⟩ | ⟨_, old⟩
      · cases new
        exact ⟨c, by simp, rfl, rfl⟩
      · obtain ⟨d, found, made⟩ := inv.drawn old
        exact ⟨d, call_found grows found, made⟩
    · intro j n id stand
      rcases update_cases stand with ⟨_, new⟩ | ⟨_, old⟩
      · cases new
      · obtain ⟨d, found, made⟩ := inv.waiting old
        exact ⟨d, call_found grows found, made⟩
    · intro j n id stand
      rcases update_cases stand with ⟨_, new⟩ | ⟨_, old⟩
      · cases new
      · obtain ⟨d, found, made⟩ := inv.registering old
        exact ⟨d, call_found grows found, made⟩
  | @schedule i n sync msg stand =>
    obtain ⟨c, found, made, mode⟩ := inv.drawn stand
    have id : c.id = msg.id := by rw [made]; rfl
    constructor
    · intro j sync' n' msg' later
      rcases update_cases later with ⟨_, new⟩ | ⟨_, old⟩
      · split at new <;> cases new
      · exact inv.drawn old
    · intro j n' id' later
      rcases update_cases later with ⟨_, new⟩ | ⟨_, old⟩
      · split at new
        · rename_i isSync
          cases new
          exact ⟨c, found, by simpa [isSync] using mode, id⟩
        · cases new
      · exact inv.waiting old
    · intro j n' id' later
      rcases update_cases later with ⟨_, new⟩ | ⟨_, old⟩
      · split at new
        · cases new
        · rename_i isAsync
          cases new
          exact ⟨c, found, by simpa [isAsync] using mode, id⟩
      · exact inv.registering old
  | register | take =>
    refine ⟨fun later => ?_, fun later => ?_, fun later => ?_⟩ <;>
      rcases update_cases later with ⟨_, new⟩ | ⟨_, old⟩
    · cases new
    · exact inv.drawn old
    · cases new
    · exact inv.waiting old
    · cases new
    · exact inv.registering old
  | _ => exact { inv.toThreadShape with }

/-- A message moves on unchanged, or a reply takes the place of its request. -/
private theorem queues_step (inv : Shape s) (eff : Effect s a t) : QueueShape t := by
  have grows := (effect_grows eff).1
  have keepsAnswer : ∀ {n msg}, Answered s n msg → Answered t n msg := fun answer => answer.mono eff
  have upward := inv.requests
  have downward := inv.replies
  cases eff with
  | @quiet a threads events pushed fault calls untagged noPromise =>
    refine ⟨upward, fun m member => ?_⟩
    simp only [← List.append_assoc] at member
    rcases List.mem_append.mp member with old | new
    · exact downward m old
    · exact Or.inl (untagged m new)
  | @draw a i c idle counter fresh =>
    refine ⟨fun m member => (upward m member).mono grows, fun m member => ?_⟩
    rcases downward m member with event | ⟨n, tag, answer⟩
    · exact Or.inl event
    · exact Or.inr ⟨n, tag, keepsAnswer answer⟩
  | @schedule i n sync msg stand =>
    obtain ⟨c, found, made, _⟩ := inv.drawn stand
    refine ⟨fun m member => ?_, downward⟩
    simp only [← List.append_assoc] at member
    rcases List.mem_append.mp member with old | new
    · exact upward m old
    · rw [List.mem_singleton.mp new]
      exact ⟨n, c, rfl, found, made⟩
  | @clientSend m rest queued =>
    exact ⟨fun m' member => upward m' (by simpa [queued] using member), downward⟩
  | @serverReply m rest kind op r mem arrived request answered =>
    obtain ⟨n, c, tag, found, made⟩ := upward m (by simp [arrived])
    refine ⟨fun m' member => upward m' (by simp [arrived] at member ⊢; tauto), fun m' member => ?_⟩
    simp only [← List.append_assoc] at member
    rcases List.mem_append.mp member with old | new
    · rcases downward m' old with event | ⟨k, tag', answer⟩
      · exact Or.inl event
      · exact Or.inr ⟨k, tag', keepsAnswer answer⟩
    · rw [List.mem_singleton.mp new]
      have sameKind : c.kind = kind := by
        rw [made, Call.operation_message, Option.some.injEq] at request
        exact request_injective request
      refine Or.inr ⟨n, tag, c, op, r, found, by rw [sameKind, answered], by rw [made]; rfl, ?_⟩
      simp [tag, made, Call.message]
  | @serverDrop m rest r mem events arrived =>
    exact ⟨fun m' member => upward m' (by simp [arrived] at member ⊢; tauto), downward⟩
  | @serverSend m rest queued =>
    exact ⟨upward, fun m' member => downward m' (by simpa [queued] using member)⟩
  | @fulfil m rest n value arrived answer stored read =>
    exact ⟨upward, fun m' member => downward m' (by simp [arrived] at member ⊢; tauto)⟩
  | @slot m rest arrived answer =>
    exact ⟨upward, fun m' member => downward m' (by simp [arrived] at member ⊢; tauto)⟩
  | @clientDrop m rest events fault arrived promise =>
    exact ⟨upward, fun m' member => downward m' (by simp [arrived] at member ⊢; tauto)⟩
  | register | take => exact ⟨upward, downward⟩

/-- The slot is filled by synchronous replies only, the promises by asynchronous calls. -/
private theorem replies_step (inv : Shape s) (eff : Effect s a t) : ReplyShape t := by
  have grows := (effect_grows eff).1
  have keepsAnswer : ∀ {n msg}, Answered s n msg → Answered t n msg := fun answer => answer.mono eff
  have old := inv.toReplyShape
  cases eff with
  | draw =>
    refine ⟨fun held => ?_, fun tag => ?_, fun stored => ?_⟩
    · obtain ⟨n, tag, answer⟩ := old.slot held
      exact ⟨n, tag, keepsAnswer answer⟩
    · obtain ⟨c, found, kind⟩ := old.slot_sync tag
      exact ⟨c, call_found grows found, kind⟩
    · obtain ⟨c, found, kind⟩ := old.promises stored
      exact ⟨c, call_found grows found, kind⟩
  | serverReply =>
    refine ⟨fun held => ?_, old.slot_sync, old.promises⟩
    obtain ⟨n, tag, answer⟩ := old.slot held
    exact ⟨n, tag, keepsAnswer answer⟩
  | @register i n id stand =>
    refine ⟨old.slot, old.slot_sync, fun stored => ?_⟩
    rcases emplace_eq_some stored with before | ⟨rfl, rfl, _⟩
    · exact old.promises before
    · exact inv.registering stand
  | take => exact ⟨by simp [Delete], by simp, old.promises⟩
  | fulfil => exact ⟨old.slot, old.slot_sync, fun stored => old.promises (erase_eq_some stored).2⟩
  | @slot m rest arrived answer =>
    rcases inv.replies m (by simp [arrived]) with ⟨_, event⟩ | ⟨n, tag, reply⟩
    · rw [answer] at event
      cases event
    · obtain ⟨c, op, r, found, kind, made, ran⟩ := reply
      have isSync : c.kind = .sync := by
        rw [made, DefaultMessage.operation_mk, Option.some.injEq] at answer
        exact (sync_of_response kind).1.mp answer
      refine ⟨fun _ => ⟨n, tag, c, op, r, found, kind, ?_, ran⟩, fun tag' => ?_, old.promises⟩
      · have filled : 0 < r.bytes.length := by rw [r.length_eq]; decide
        simp [Copy, made, DefaultMessage.size, filled]
      · rw [tag] at tag'
        cases tag'
        exact ⟨c, found, isSync⟩
  | _ => exact { old with }

/-- An execution is recorded with the data of its call. -/
private theorem executed_step (inv : Shape s) (eff : Effect s a t) :
    ∀ e ∈ t.executed, ∃ c, t.calls[e.call]? = some c ∧ c.data = e.data := by
  have grows := (effect_grows eff).1
  cases eff with
  | draw =>
    intro e member
    obtain ⟨c, found, data⟩ := inv.executed e member
    exact ⟨c, call_found grows found, data⟩
  | @serverReply m rest kind op r mem arrived request answered =>
    intro e member
    rcases List.mem_append.mp member with old | new
    · exact inv.executed e old
    · obtain ⟨n, c, tag, found, made⟩ := inv.requests m (by simp [arrived])
      simp only [tag, Option.toList_some, List.map_cons, List.map_nil, List.mem_singleton] at new
      subst new
      exact ⟨c, found, by rw [made]; rfl⟩
  | _ => exact inv.executed

/-- **Every step keeps the shape of the messages.** -/
theorem shape_step (inv : Shape s) (eff : Effect s a t) : Shape t where
  toThreadShape := threads_step inv eff
  toQueueShape := queues_step inv eff
  toReplyShape := replies_step inv eff
  executed := executed_step inv eff

theorem start_shape (maxSub : UInt8) (nid serverNid : UInt64) :
    Shape (start maxSub nid serverNid) := by
  refine ⟨⟨?_, ?_, ?_⟩, ⟨?_, ?_⟩, ⟨?_, ?_, ?_⟩, ?_⟩ <;> simp [start]

end DCScan.Session
