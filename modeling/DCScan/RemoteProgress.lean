import DCScan.Agreement
import DCScan.RemoteRequests

/-!
A thread that makes one call after the other gets each of them answered: from every state in which
nothing is under way there is a schedule of a call that ends it with its value and leaves nothing
under way again.
-/

namespace DCScan.RemoteCalls

open Lib Message Generator Marshalling

variable {τ : Type} {lay : Layout τ} {headers : List Header} {run : Run headers}
variable {impl : Nat → Text → List (Any lay) → Any lay} {maxSub : UInt8}

/-- Nothing is under way, thread `i` is in no call and every call has been executed and has ended. -/
structure Rests (i : Nat) (s : State lay) : Prop where
  linked : Linked s
  running : s.session.fault = none
  outbound : s.session.outbound = []
  toServer : s.session.toServer = []
  serverOutbound : s.session.serverOutbound = []
  toClient : s.session.toClient = []
  dispatching : s.session.events.dispatching = none
  idle : s.session.threads i = .idle
  executed : s.session.executed.length = s.session.calls.length
  ended : s.session.returned.map Prod.fst = List.range s.session.calls.length

variable {s t : State lay} {i : Nat}

/-- Every call has ended, so that no id is held. -/
theorem Rests.fresh (rests : Rests i s) {sync : Bool} {function : Nat} {args : List (Any lay)}
    (stack heap : Uninit) : Regular s (.call i sync function args stack heap) := by
  intro n c pending
  refine absurd ?_ pending.2
  rw [Session.State.done, rests.ended]
  exact List.mem_append_left _ (List.mem_range.mpr pending.1)

/-! ## The session along a call -/

/-- The call that thread `i` makes next. -/
def nextCall (run : Run headers) (s : State lay) (q : Asked lay) (d : Declaration) : Session.Call :=
  ⟨.sync, s.session.nid, q.data run d⟩

/-- `s.session` with the request of thread `i` under way. -/
def asking (s : Session.State) (i : Nat) (c : Session.Call) : Session.State :=
  { s with
    nid := s.nid + 1
    threads := Function.update s.threads i (.waiting s.calls.length c.id)
    toServer := [⟨some s.calls.length, c.message⟩]
    calls := s.calls ++ [c] }

/-- The reply to a synchronous call. -/
def answer (c : Session.Call) (r : SVReturn) : DefaultMessage :=
  ⟨InternalOperation.SYNC_RESPONSE.code, c.id, some r.bytes⟩

/-- `s.session` with the reply to the request of thread `i` under way. -/
def answering (s : Session.State) (i : Nat) (c : Session.Call) (r : SVReturn) : Session.State :=
  { asking s i c with
    toServer := []
    toClient := [⟨some s.calls.length, answer c r⟩]
    executed := s.executed ++ [⟨s.calls.length, c.data, r⟩] }

/-- `s.session` when the reply has been taken. -/
def answered (s : Session.State) (i : Nat) (c : Session.Call) (r : SVReturn) : Session.State :=
  { answering s i c r with
    threads := Function.update s.threads i .idle
    toClient := []
    lmessage := ⟨none, Delete (answer c r)⟩
    delivered := s.delivered ++ [s.calls.length]
    returned := s.returned ++ [(s.calls.length, r)] }

/-- Behind the call nothing is under way again. -/
theorem Rests.after {c : Session.Call} {r : SVReturn} (rests : Rests i s) (linked : Linked t)
    (session : t.session = answered s.session i c r) : Rests i t := by
  have numbers : (s.session.returned ++ [(s.session.calls.length, r)]).map Prod.fst =
      List.range (s.session.calls ++ [c]).length := by
    rw [List.map_append, rests.ended, List.length_append, List.length_singleton, List.range_succ]
    rfl
  let e : Session.Execution := ⟨s.session.calls.length, c.data, r⟩
  have counts : (s.session.executed ++ [e]).length =
      (s.session.calls ++ [c]).length := by
    rw [List.length_append, List.length_append, rests.executed]
    rfl
  refine ⟨linked, ?_, ?_, ?_, ?_, ?_, ?_, ?_, ?_, ?_⟩ <;> rw [session]
  · exact rests.running
  · exact rests.outbound
  · rfl
  · exact rests.serverOutbound
  · rfl
  · exact rests.dispatching
  · exact Function.update_self ..
  · exact counts
  · exact numbers

/-- Nothing is under way when a session starts. -/
theorem rests_start (nid serverNid : UInt64) {block block' : List UInt8}
    (size : block.length = Framing.ibBuffSize) (size' : block'.length = Framing.ibBuffSize) :
    Rests i (start lay maxSub nid serverNid block block') where
  linked := linked_start nid serverNid size size'
  running := rfl
  outbound := rfl
  toServer := rfl
  serverOutbound := rfl
  toClient := rfl
  dispatching := rfl
  idle := rfl
  executed := rfl
  ended := rfl

/-- The replies to requests that are made one after the other, from the `k`-th call on. -/
inductive Replies (run : Run headers) (impl : Nat → Text → List (Any lay) → Any lay) :
    Nat → List (Asked lay) → List (Nat × SVReturn) → Prop where
  | nil {k : Nat} : Replies run impl k [] []
  | cons {k : Nat} {q : Asked lay} {d : Declaration} {r : SVReturn} {qs rs}
      (declared : run.declarations[q.function]? = some d)
      (value : d.returnType ≠ [] → rpcReturn lay d r = (impl k d.func q.args).bytes)
      (others : Replies run impl (k + 1) qs rs) : Replies run impl k (q :: qs) ((k, r) :: rs)

theorem Replies.length {k : Nat} {qs : List (Asked lay)} {rs : List (Nat × SVReturn)}
    (replies : Replies run impl k qs rs) : rs.length = qs.length := by
  induction replies with
  | nil => rfl
  | cons _ _ _ ih => rw [List.length_cons, List.length_cons, ih]

/-- The request can be made, and its value returned. -/
def Callable (run : Run headers) (q : Asked lay) : Prop :=
  ∃ d, Asks run q d ∧ (d.returnType = [] ∨ lay.sizeof (lay.type d.returnType) ≤ 1024)

/-! ## Schedules -/

theorem regular_of_reading {a : Action lay} (reads : isReading a = true) : Regular s a := by
  cases a with
  | call | inside => cases reads
  | _ => exact trivial

variable [DecidableEq τ]

/-- The steps that meet what runs are asked to. -/
abbrev RegularSteps (run : Run headers) (impl : Nat → Text → List (Any lay) → Any lay)
    (maxSub : UInt8) : State lay → State lay → Prop :=
  (system lay run impl maxSub).Steps Regular

theorem linked_steps (linked : Linked s) (steps : RegularSteps run impl maxSub s t) : Linked t := by
  induction steps with
  | refl => exact linked
  | step regular ran _ ih =>
    exact ih (linked_step linked (eventsFit_of_regular regular) (moves_of_step ran))

/-- The steps that move bytes from the links to the decode loops. -/
abbrev ReadingSteps (run : Run headers) (impl : Nat → Text → List (Any lay) → Any lay)
    (maxSub : UInt8) : State lay → State lay → Prop :=
  (system lay run impl maxSub).Steps fun _ a => isReading a = true

theorem regular_of_readingSteps (steps : ReadingSteps run impl maxSub s t) :
    RegularSteps run impl maxSub s t := steps.mono fun _ _ => regular_of_reading

/-- What a link towards the server can do, the system can do. -/
theorem fetches_up {up : Framing.State} (running : s.session.fault = none)
    (fetches : Relation.ReflTransGen Framing.Fetched s.up up) :
    ReadingSteps run impl maxSub s { s with up := up } := by
  induction fetches with
  | refl => exact .refl s
  | @tail mid last _ fetched ih =>
    have stopped : (s.session.fault).isSome = false := by simp [running]
    refine ih.trans ?_
    rcases fetched with ⟨n, received⟩ | read | took
    · exact .one (a := .serverReceive n) rfl (by simp [system, step, stopped, received])
    · exact .one (a := .serverHeader) rfl (by simp [system, step, stopped, read])
    · exact .one (a := .serverBody) rfl (by simp [system, step, stopped, took])

theorem fetches_down {down : Framing.State} (running : s.session.fault = none)
    (calm : s.session.events.dispatching = none)
    (fetches : Relation.ReflTransGen Framing.Fetched s.down down) :
    ReadingSteps run impl maxSub s { s with down := down } := by
  induction fetches with
  | refl => exact .refl s
  | @tail mid last _ fetched ih =>
    have stopped : (s.session.fault).isSome = false := by simp [running]
    refine ih.trans ?_
    rcases fetched with ⟨n, received⟩ | read | took
    · exact .one (a := .clientReceive n) rfl (by simp [system, step, stopped, received])
    · exact .one (a := .clientHeader) rfl (by simp [system, step, stopped, calm, read])
    · exact .one (a := .clientBody) rfl (by simp [system, step, stopped, calm, took])

/-! ## The way up -/

theorem call_drawn (works : Works lay run) (rests : Rests i s) {q : Asked lay} {d : Declaration}
    (asks : Asks run q d) :
    step lay run impl maxSub s (.call i true q.function q.args .zeros .zeros) = some { s with
      session := Session.afterRequest s.session i (q.data run d)
      asked := Function.update s.asked s.session.calls.length (some q) } := by
  have code := svCall_toNat works asks.declared
  have encoded : ∀ a ∈ d.args, ∃ n, resolve (DCSGen run).argDefAll (encodeMacro a) = some n :=
    fun a member =>
      (typeCode_case works.macros works.few works.plain (List.mem_of_getElem? asks.declared) member).1
  have fits : ArgsFit lay d.args 1022 := (argsFit_iff_callSize works.objects).mpr asks.fits
  obtain ⟨⟨buffer, size_written⟩, written⟩ := Option.isSome_iff_exists.mp
    ((rpcFunc_isSome ⟨works.macros, encoded⟩ asks.declared code .zeros asks.typed).mpr fits)
  obtain ⟨_, data⟩ := data_of_rpcFunc works asks.declared asks.typed written
  have length := asks.data_length
  have small := asks.fits
  have header : 2 ≤ callSize lay d := Nat.le_add_right ..
  have drew : Session.step maxSub s.session (.request i true (q.data run d) .zeros) =
      some (Session.afterRequest s.session i (q.data run d)) := by
    have sized : 2 ≤ (q.data run d).length ∧ (q.data run d).length ≤ 1024 := by omega
    simp only [Session.step, rests.running, Option.isSome_none, Bool.false_eq_true, if_false,
      rests.idle, sized, and_self, if_true]
    exact Session.begin_eq (show true = decide (Session.CallKind.sync = .sync) from rfl) rfl
      (by omega) (by omega)
  rw [step, if_neg (by simp [rests.running])]
  simp only [asks.declared, Option.bind_eq_bind, Option.bind_some, asks.typed, if_true, written, data,
    drew]
  rfl

/-- The request goes to the send thread and onto the wire. -/
theorem request_sent (works : Works lay run) (rests : Rests i s) {q : Asked lay} {d : Declaration}
    (asks : Asks run q d) : RegularSteps run impl maxSub s { s with
      session := asking s.session i (nextCall run s q d)
      up := s.up.send (nextCall run s q d).message
      asked := Function.update s.asked s.session.calls.length (some q) } := by
  let m := (nextCall run s q d).message
  let asked := Function.update s.asked s.session.calls.length (some q)
  let drawn : State lay :=
    { s with session := Session.afterRequest s.session i (q.data run d), asked := asked }
  let scheduled : State lay := { drawn with
    session := Session.afterSchedule drawn.session i s.session.calls.length m }
  have schedules : step lay run impl maxSub drawn (.inside (.schedule i)) = some scheduled := by
    simp [step, isInside, Session.step, drawn, scheduled, Session.afterRequest, Session.afterSchedule,
      rests.running, m, nextCall]
  have sends : step lay run impl maxSub scheduled .clientSend = some { s with
      session := asking s.session i (nextCall run s q d), up := s.up.send m, asked := asked } := by
    simp [step, Session.step, scheduled, drawn, Session.afterSchedule, Session.afterRequest,
      rests.running, rests.outbound, rests.toServer, asking, m, nextCall, Session.Call.message]
  have draws : step lay run impl maxSub s (.call i true q.function q.args .zeros .zeros) = some drawn :=
    call_drawn works rests asks
  have first : RegularSteps run impl maxSub s drawn := .one (rests.fresh .zeros .zeros) draws
  have second : RegularSteps run impl maxSub drawn scheduled :=
    .one (a := .inside (.schedule i)) ⟨trivial, trivial⟩ schedules
  exact (first.trans second).trans (.one (a := .clientSend) trivial sends)

variable (impl maxSub) in
/-- The request of a thread reaches the buffer of the server's decode loop. -/
theorem request_arrives (works : Works lay run) (rests : Rests i s) {q : Asked lay} {d : Declaration}
    (asks : Asks run q d) : ∃ t, RegularSteps run impl maxSub s t ∧
      t.session = asking s.session i (nextCall run s q d) ∧ t.down = s.down ∧
      t.up.consumer = .decoding (body (nextCall run s q d).message) := by
  have small := asks.fits
  have header : 2 ≤ callSize lay d := Nat.le_add_right ..
  have framed : Framing.Framed (nextCall run s q d).message := by
    apply framed_of_payload
    · rw [nextCall, asks.data_length]
      omega
    · rw [nextCall, asks.data_length, Framing.ibBuffSize]
      omega
  have free : Framing.Carries s.up [] := by simpa [rests.toServer] using rests.linked.up
  obtain ⟨up, fetches, in_hand⟩ := free.delivers framed
  exact ⟨_, (request_sent works rests asks).trans
    (regular_of_readingSteps (fetches_up rests.running fetches)), rfl, rfl, in_hand⟩

/-! ## The way down -/

/-- The server executes the request in its buffer and puts the reply onto the wire. -/
theorem reply_sent (works : Works lay run) (rests : Rests i s) {q : Asked lay} {d : Declaration}
    (asks : Asks run q d) (mem : Uninit) {r : SVReturn}
    (ran : returned lay (DCSGen run) mem d.executeCase
      (impl s.session.executed.length d.func q.args) = some r)
    (linked : Linked t) (session : t.session = asking s.session i (nextCall run s q d))
    (in_hand : t.up.consumer = .decoding (body (nextCall run s q d).message)) :
    ∃ u, RegularSteps run impl maxSub t u ∧
      u.session = answering s.session i (nextCall run s q d) r ∧
      u.down = t.down.send (answer (nextCall run s q d) r) := by
  let c := nextCall run s q d
  let m : Session.Tagged := ⟨some s.session.calls.length, c.message⟩
  have under : t.session.toServer = [m] := by rw [session]; rfl
  obtain ⟨msg, rest, up, split, _, decoded⟩ := linked.up.decodes in_hand
  obtain ⟨rfl, rfl⟩ : msg = c.message ∧ rest = [] := by
    rw [under] at split
    simpa [m] using split.symm
  have request : c.message.operation = some .SYNC_REQUEST := Session.Call.operation_message c
  have value : result lay run impl t.session.executed.length c.message mem = some r := by
    rw [session, ← ran]
    exact result_of_data works asks _ mem rfl (.inr request)
  let served : State lay := { t with
    session := { asking s.session i c with
      toServer := []
      serverOutbound := [⟨some s.session.calls.length, answer c r⟩]
      executed := s.session.executed ++ [⟨s.session.calls.length, c.data, r⟩] }
    up := up }
  have serves : step lay run impl maxSub t (.serverDecode mem mem) = some served := by
    have switched : Session.serverSwitch maxSub { t.session with toServer := t.session.toServer.tail }
        ⟨tag t.session.toServer, c.message⟩ r mem = some served.session := by
      have kept : decodeSwitch maxSub s.session.events.subscriptions c.message r mem =
          some ⟨some (answer c r), s.session.events.subscriptions⟩ := by
        simp only [decodeSwitch, request, reply_eq, Option.map_some]
        rfl
      rw [session]
      simp only [Session.serverSwitch, asking, kept, Option.map_some, rests.serverOutbound]
      rfl
    have running : t.session.fault = none := by rw [session]; exact rests.running
    exact step_serverDecode running (decoded mem) value switched
  have sends : step lay run impl maxSub served .serverSend = some { t with
      session := answering s.session i c r, up := up, down := t.down.send (answer c r) } := by
    simp [step, Session.step, served, asking, rests.running, rests.toClient, answering,
      rests.serverOutbound]
  have first : RegularSteps run impl maxSub t served :=
    .one (a := .serverDecode mem mem) trivial serves
  exact ⟨_, first.trans (.one (a := .serverSend) trivial sends), rfl, rfl⟩

/-- `s.session` with the reply in the slot. -/
def slotted (s : Session.State) (i : Nat) (c : Session.Call) (r : SVReturn) : Session.State :=
  { answering s i c r with
    toClient := []
    lmessage := ⟨some s.calls.length, answer c r⟩
    delivered := s.delivered ++ [s.calls.length] }

theorem copy_answer (c : Session.Call) (r : SVReturn) : Copy (answer c r) = answer c r := by
  have full : 0 < r.bytes.length := by rw [r.length_eq]; decide
  simp [answer, Copy, DefaultMessage.size, full]

/-- The reply in the buffer of the client's decode loop goes to the slot. -/
theorem reply_slotted (rests : Rests i s) {c : Session.Call} {r : SVReturn} (linked : Linked t)
    (session : t.session = answering s.session i c r)
    (in_hand : t.down.consumer = .decoding (body (answer c r))) (mem : Uninit) :
    ∃ down, step lay run impl maxSub t (.clientDecode mem) =
      some { t with session := slotted s.session i c r, down := down } := by
  have under : t.session.toClient = [⟨some s.session.calls.length, answer c r⟩] := by
    rw [session]
    rfl
  obtain ⟨msg, rest, down, split, _, decoded⟩ := linked.down.decodes in_hand
  obtain ⟨rfl, rfl⟩ : msg = answer c r ∧ rest = [] := by
    rw [under] at split
    simpa using split.symm
  have running : t.session.fault = none := by rw [session]; exact rests.running
  have calm : t.session.events.dispatching = none := by rw [session]; exact rests.dispatching
  have isAnswer : (answer c r).operation = some .SYNC_RESPONSE := DefaultMessage.operation_mk
  have switched : Session.clientSwitch maxSub { t.session with toClient := t.session.toClient.tail }
      ⟨tag t.session.toClient, answer c r⟩ = some (slotted s.session i c r) := by
    rw [session]
    simp only [Session.clientSwitch, isAnswer, Session.setMsgIdCondition, copy_answer]
    rfl
  exact ⟨down, step_clientDecode running calm (decoded mem) switched⟩

/-- The thread finds the reply in the slot. -/
theorem reply_taken (rests : Rests i s) {c : Session.Call} {r : SVReturn}
    (session : t.session = slotted s.session i c r) :
    step lay run impl maxSub t (.inside (.take i r)) =
      some { t with session := answered s.session i c r } := by
  have waits : t.session.threads i = .waiting s.session.calls.length c.id := by
    rw [session]
    exact Function.update_self ..
  have running : t.session.fault = none := by rw [session]; exact rests.running
  have held : Session.answers t.session.lmessage.msg c.id = true := by
    rw [session]
    simp [Session.answers, slotted, answer]
  have taken : Session.waitForId t.session i s.session.calls.length r = answered s.session i c r := by
    have value : SVReturn.read r (answer c r).payload = some r := SVReturn.read_bytes r r
    rw [session]
    simp only [Session.waitForId, slotted, value, answered, answering, asking, Function.update_idem]
  have stepped : Session.step maxSub t.session (.take i r) = some (answered s.session i c r) := by
    rw [Session.step, if_neg (by simp [running])]
    simp only [waits, held, if_true, taken]
  rw [step, if_neg (by simp [running])]
  simp only [isInside, if_true, stepped, Option.map_some]

variable (run impl maxSub) in
/-- The reply in the buffer of the client's decode loop ends the call. -/
theorem reply_ends (rests : Rests i s) {c : Session.Call} {r : SVReturn} (linked : Linked t)
    (session : t.session = answering s.session i c r)
    (in_hand : t.down.consumer = .decoding (body (answer c r))) :
    ∃ u, RegularSteps run impl maxSub t u ∧ u.session = answered s.session i c r := by
  obtain ⟨down, slots⟩ : ∃ down, step lay run impl maxSub t (.clientDecode .zeros) =
      some { t with session := slotted s.session i c r, down := down } :=
    reply_slotted rests linked session in_hand .zeros
  let full : State lay := { t with session := slotted s.session i c r, down := down }
  have takes : step lay run impl maxSub full (.inside (.take i r)) =
      some { full with session := answered s.session i c r } := reply_taken rests rfl
  have first : RegularSteps run impl maxSub t full := .one (a := .clientDecode .zeros) trivial slots
  exact ⟨_, first.trans (.one (a := .inside (.take i r)) ⟨trivial, trivial⟩ takes), rfl⟩

/-! ## Calls in turn -/

variable (maxSub) in
/-- A thread that makes a call while nothing is under way gets its value, and nothing is under way
afterwards. -/
theorem call_completes (works : Works lay run) (typed : Typed run impl) (rests : Rests i s)
    {q : Asked lay} {d : Declaration} (asks : Asks run q d)
    (fits : d.returnType = [] ∨ lay.sizeof (lay.type d.returnType) ≤ 1024) :
    ∃ t r, RegularSteps run impl maxSub s t ∧ Rests i t ∧
      t.session.returned = s.session.returned ++ [(s.session.calls.length, r)] ∧
      (d.returnType ≠ [] → rpcReturn lay d r = (impl s.session.calls.length d.func q.args).bytes) := by
  have member := List.mem_of_getElem? asks.declared
  have type := typed s.session.executed.length d member q.args
  obtain ⟨r, ran⟩ := returned_of_fits member .zeros type fits
  let c := nextCall run s q d
  obtain ⟨t, upward, session, same, in_hand⟩ := request_arrives impl maxSub works rests asks
  obtain ⟨u, replies, session', sent⟩ :=
    reply_sent works rests asks .zeros ran (linked_steps rests.linked upward) session in_hand
  have free : Framing.Carries s.down [] := by simpa [rests.toClient] using rests.linked.down
  obtain ⟨down, fetches, arrived⟩ := free.delivers (framed_reply _ c.id r)
  have running : u.session.fault = none := by rw [session']; exact rests.running
  have calm : u.session.events.dispatching = none := by rw [session']; exact rests.dispatching
  have downward : Relation.ReflTransGen Framing.Fetched u.down down := by
    rw [sent, same]
    exact fetches
  have there : RegularSteps run impl maxSub s { u with down := down } :=
    (upward.trans replies).trans
      (regular_of_readingSteps (fetches_down running calm downward))
  obtain ⟨w, ends, session''⟩ :=
    reply_ends run impl maxSub rests (linked_steps rests.linked there) session' arrived
  have steps := there.trans ends
  refine ⟨w, r, steps, rests.after (linked_steps rests.linked steps) session'', ?_, fun valued => ?_⟩
  · rw [session'']
    rfl
  · rw [← rests.executed]
    exact rpcReturn_of_returned ran type valued

/-- From a state in which nothing is under way, a thread can make any calls in turn. -/
theorem calls_complete (works : Works lay run) (typed : Typed run impl) (qs : List (Asked lay))
    (callable : ∀ q ∈ qs, Callable run q) (rests : Rests i s) :
    ∃ t rs, RegularSteps run impl maxSub s t ∧ Rests i t ∧
      t.session.returned = s.session.returned ++ rs ∧
      Replies run impl s.session.calls.length qs rs := by
  induction qs generalizing s with
  | nil => exact ⟨s, [], .refl s, rests, (List.append_nil _).symm, .nil⟩
  | cons q qs ih =>
    obtain ⟨d, asks, fits⟩ := callable q List.mem_cons_self
    obtain ⟨t, r, first, rests', returned, value⟩ := call_completes maxSub works typed rests asks fits
    obtain ⟨u, rs, others, rests'', returned', replies⟩ :=
      ih (fun q member => callable q (List.mem_cons_of_mem _ member)) rests'
    have next : t.session.calls.length = s.session.calls.length + 1 := by
      have numbers := congrArg List.length rests'.ended
      have before := congrArg List.length rests.ended
      simp only [List.length_map, List.length_range, returned, List.length_append,
        List.length_singleton] at numbers before
      omega
    refine ⟨u, (s.session.calls.length, r) :: rs, first.trans others, rests'', ?_, ?_⟩
    · rw [returned', returned, List.append_assoc, List.singleton_append]
    · rw [next] at replies
      exact .cons asks.declared value replies

end DCScan.RemoteCalls
