import DCScan.Lib.Linearizability
import DCScan.RemoteResults

/-!
The registered functions of a module share a state: a function reads and changes it when `Execute` calls
it, on the one thread that decodes. Client threads call at any time, and their calls overlap.

`Serving` puts such a module behind the connection of `RemoteCalls`, and records when calls are made and
when they end.
-/

namespace DCScan.RemoteCalls

open Lib Message Generator Marshalling

variable {τ : Type}

/-- A module whose functions share a state. -/
structure Module (lay : Layout τ) where
  State : Type
  init : State
  call : State → Text → List (Any lay) → State × Any lay

variable {lay : Layout τ} {headers : List Header}

/-- What the generated function returns: nothing for `void`. -/
def rpcResult (lay : Layout τ) (d : Declaration) (r : SVReturn) : List UInt8 :=
  if d.returnType = [] then [] else rpcReturn lay d r

/-- The module, called directly. -/
def Module.object (m : Module lay) (run : Run headers) : SequentialObject (Asked lay) (List UInt8) where
  State := m.State
  init := m.init
  apply object q :=
    match run.declarations[q.function]? with
    | some d =>
      let (object, value) := m.call object d.func q.args
      (object, if d.returnType = [] then [] else value.bytes)
    | none => (object, [])

/-- A module that is called over a connection. -/
structure Serving (m : Module lay) where
  remote : State lay
  object : m.State
  history : List (CallEvent (Asked lay) (List UInt8))

/-- What the registered functions do to the state that the module is in. -/
def Module.values (m : Module lay) (object : m.State) (_ : Nat) (func : Text) (args : List (Any lay)) :
    Any lay :=
  (m.call object func args).2

/-- The call that an action makes. -/
def invocations (s : State lay) : Action lay → List (CallEvent (Asked lay) (List UInt8))
  | .call _ _ function args _ _ => [.invoke s.session.calls.length ⟨function, args⟩]
  | _ => []

/-- The calls that have ended between two states, with what their RPC functions return. -/
def ended (run : Run headers) (s t : State lay) : List (Nat × List UInt8) :=
  (t.session.returned.drop s.session.returned.length ++
    t.session.fulfilled.drop s.session.fulfilled.length).filterMap fun (n, r) => do
      let q ← t.asked n
      let d ← run.declarations[q.function]?
      return (n, rpcResult lay d r)

section

variable [DecidableEq τ] (m : Module lay) (run : Run headers) (maxSub : UInt8)

/-- The function that `Execute` calls for a message, and its arguments. -/
def executes (msg : DefaultMessage) (stack : Uninit) : Option (Text × List (Any lay)) :=
  if msg.operation = some .ASYNC_REQUEST ∨ msg.operation = some .SYNC_REQUEST then do
    let params ← GetParamsFromData lay (DCSGen run) msg.payload (signed 32 msg.size)
    let c ← switchOn (DCSGen run).defines (DCSGen run).switch params.fcode.toNat
    let args ← getArgs lay stack params c.args 0
    return (c.func, args)
  else none

/-- The module behind an action: `Execute` has called a function of it. -/
def objectAfter (s : Serving m) : Action lay → m.State
  | .serverDecode heap stack =>
    match s.remote.up.decodeNext heap with
    | some (msg, _) =>
      match executes run msg stack with
      | some (func, args) => (m.call s.object func args).1
      | none => s.object
    | none => s.object
  | _ => s.object

def Serving.step (s : Serving m) (a : Action lay) : Option (Serving m) :=
  (RemoteCalls.step lay run (m.values s.object) maxSub s.remote a).map fun remote =>
    { remote := remote
      object := objectAfter m run s a
      history := s.history ++ invocations s.remote a ++
        (ended run s.remote remote).map fun x => .respond x.1 x.2 }

def serving : System (Serving m) (Action lay) where
  init s := ∃ nid serverNid block block', block.length = Framing.ibBuffSize ∧
    block'.length = Framing.ibBuffSize ∧
    s = ⟨start lay maxSub nid serverNid block block', m.init, []⟩
  step := Serving.step m run maxSub

end

/-! ## The order of the executions -/

/-- The calls of some executions, with what they asked for. -/
def orderOf (asked : Nat → Option (Asked lay)) (executed : List Session.Execution) :
    List (Nat × Asked lay) :=
  executed.filterMap fun e => (asked e.call).map fun q => (e.call, q)

/-- The calls in the order in which the server executes them. -/
def order (s : State lay) : List (Nat × Asked lay) := orderOf s.asked s.session.executed

variable (m : Module lay) (run : Run headers)

/-- What the functions do in the `k`-th `Execute`, behind those before it. -/
def replay (s : State lay) (k : Nat) : Text → List (Any lay) → Any lay :=
  m.values ((m.object run).after ((orderOf s.asked (s.session.executed.take k)).map Prod.snd)) k

variable {m run} {maxSub : UInt8} {impl impl' : Nat → Text → List (Any lay) → Any lay}
variable {s t : State lay} {a : Action lay}

theorem orderOf_congr {asked asked' : Nat → Option (Asked lay)} {executed : List Session.Execution}
    (same : ∀ e ∈ executed, asked' e.call = asked e.call) :
    orderOf asked' executed = orderOf asked executed := by
  refine List.filterMap_congr fun e member => ?_
  rw [same e member]

theorem mem_order_executed {n : Nat} (member : n ∈ (order s).map Prod.fst) :
    n ∈ s.session.executed.map Session.Execution.call := by
  obtain ⟨⟨n, q⟩, ordered, rfl⟩ := List.mem_map.mp member
  obtain ⟨e, executed, made⟩ := List.mem_filterMap.mp ordered
  obtain ⟨q', _, same⟩ := Option.map_eq_some_iff.mp made
  cases same
  exact List.mem_map_of_mem executed

/-- What was executed stays, and what was asked for there. -/
structure Extends (s t : State lay) : Prop where
  executed : s.session.executed <+: t.session.executed
  asked : ∀ e ∈ s.session.executed, t.asked e.call = s.asked e.call

theorem Extends.replay_eq (extended : Extends s t) {k : Nat} (within : k ≤ s.session.executed.length) :
    replay m run t k = replay m run s k := by
  obtain ⟨more, split⟩ := extended.executed
  have same := orderOf_congr fun e (member : e ∈ s.session.executed.take k) =>
    extended.asked e (List.mem_of_mem_take member)
  rw [replay, ← split, List.take_append_of_le_length within, same, replay]

theorem order_of_same (extended : Extends s t) (same : t.session.executed = s.session.executed) :
    order t = order s := by
  rw [order, same, order]
  exact orderOf_congr extended.asked

theorem Served.congr (served : Served run impl s)
    (same : ∀ k < s.session.executed.length, impl' k = impl k) : Served run impl' s := by
  intro k e found
  rw [same k (List.getElem?_eq_some_iff.mp found).1]
  exact served k e found

/-- A call that was executed is answered with what the object answers at its place. -/
theorem answeredIn_of_executed (served : Served run (replay m run s) s)
    (typed : ∀ object, Typed run (m.values object)) {e : Session.Execution}
    (executed : e ∈ s.session.executed) : ∃ q d, s.asked e.call = some q ∧
      run.declarations[q.function]? = some d ∧
      AnsweredIn (m.object run) (order s) e.call (rpcResult lay d e.result) := by
  obtain ⟨k, position⟩ := List.mem_iff_getElem?.mp executed
  obtain ⟨q, d, stack, asked, asks, ran⟩ := served k e position
  refine ⟨q, d, asked, asks.declared, orderOf s.asked (s.session.executed.take k), q,
    orderOf s.asked (s.session.executed.drop (k + 1)), ?_, ?_⟩
  · obtain ⟨within, here⟩ := List.getElem?_eq_some_iff.mp position
    have split : s.session.executed =
        s.session.executed.take k ++ e :: s.session.executed.drop (k + 1) := by
      rw [← here, ← List.drop_eq_getElem_cons within, List.take_append_drop]
    conv_lhs => rw [order, split, orderOf, List.filterMap_append]
    rw [List.filterMap_cons_some (by rw [asked]; rfl)]
    rfl
  · simp only [rpcResult, SequentialObject.answer, Module.object, asks.declared]
    split
    · rfl
    · rename_i valued
      exact rpcReturn_of_returned ran (typed _ k d (List.mem_of_getElem? asks.declared) q.args) valued

/-- A call that has ended has its place in the order. -/
theorem answeredIn_of_ended (served : Served run (replay m run t) t)
    (typed : ∀ object, Typed run (m.values object)) (own : Session.OwnReplies t.session)
    {x : Nat × List UInt8} (member : x ∈ ended run s t) :
    AnsweredIn (m.object run) (order t) x.1 x.2 := by
  obtain ⟨⟨n, r⟩, new, made⟩ := List.mem_filterMap.mp member
  obtain ⟨q, asked, made⟩ := Option.bind_eq_some_iff.mp made
  obtain ⟨d, declared, made⟩ := Option.bind_eq_some_iff.mp made
  cases made
  have answered : (n, r) ∈ t.session.returned ∨ (n, r) ∈ t.session.fulfilled := by
    rcases List.mem_append.mp new with returned | fulfilled
    · exact .inl (List.mem_of_mem_drop returned)
    · exact .inr (List.mem_of_mem_drop fulfilled)
  obtain ⟨c, _, executed⟩ := own n r answered
  obtain ⟨q', d', asked', declared', placed⟩ := answeredIn_of_executed served typed executed
  cases asked.symm.trans asked'
  cases declared.symm.trans declared'
  exact placed

/-! ## What one step does to the order -/

/-- A request that the decode switch gets is executed. -/
theorem executed_of_request {s t : Session.State} {m : Session.Tagged} {r : SVReturn} {mem : Uninit}
    (request : m.msg.operation = some .ASYNC_REQUEST ∨ m.msg.operation = some .SYNC_REQUEST)
    (ran : Session.serverSwitch maxSub s m r mem = some t) :
    t.executed = s.executed ++ m.call.toList.map fun n => ⟨n, m.msg.payload, r⟩ := by
  obtain ⟨d, decoded, rfl⟩ := Option.map_eq_some_iff.mp ran
  rcases request with request | request <;>
    simp only [decodeSwitch, request, reply_eq, Option.map_some, Option.some.injEq] at decoded <;>
    rw [← decoded]

/-- Other messages are not. -/
theorem executed_of_other {s t : Session.State} {m : Session.Tagged} {r : SVReturn} {mem : Uninit}
    (other : ¬(m.msg.operation = some .ASYNC_REQUEST ∨ m.msg.operation = some .SYNC_REQUEST))
    (ran : Session.serverSwitch maxSub s m r mem = some t) : t.executed = s.executed := by
  rcases (served_of_serverSwitch ran).2 with same | ⟨request, _⟩
  · exact same
  · exact absurd request other

variable [DecidableEq τ]

/-- `Execute` calls the function that the request asks for. -/
theorem executes_of_data (works : Works lay run) {q : Asked lay} {d : Declaration} (asks : Asks run q d)
    {msg : DefaultMessage} (stack : Uninit) (payload : msg.payload = q.data run d)
    (request : msg.operation = some .ASYNC_REQUEST ∨ msg.operation = some .SYNC_REQUEST) :
    executes run msg stack = some (d.func, q.args) := by
  have case : switchOn (DCSGen run).defines (DCSGen run).switch (svCall q.function).toNat =
      some d.executeCase := by
    rw [svCall_toNat works asks.declared]
    exact Run.switch_of_declaration works.macros asks.declared
  have read : getArgs lay stack ⟨svCall q.function, q.args⟩ d.executeCase.args 0 = some q.args :=
    getArgs_typed asks.typed stack _
  rw [executes, if_pos request, params_of_data works asks payload]
  simp only [Option.bind_eq_bind, Option.bind_some, case, read]
  rfl

/-- A step looks at what the functions do in the next `Execute` only. -/
theorem Moves.congr (moves : Moves run impl maxSub s a t)
    (same : impl' s.session.executed.length = impl s.session.executed.length) :
    Moves run impl' maxSub s a t := by
  cases moves with
  | call declared typed written drew => exact .call declared typed written drew
  | clientSend queued running => exact .clientSend queued running
  | upward reads keeps => exact .upward reads keeps
  | serverDecode running decoded value switched =>
    refine .serverDecode running decoded ?_ switched
    rw [← value]
    unfold result
    rw [same]
  | serverSend queued running => exact .serverSend queued running
  | downward reads keeps => exact .downward reads keeps
  | clientDecode running calm decoded switched => exact .clientDecode running calm decoded switched
  | inside apart ran => exact .inside apart ran

theorem extends_of_moves (linked : Linked s) (moves : Moves run impl maxSub s a t) : Extends s t := by
  constructor
  · rcases simulated linked moves with same | ⟨b, _, ran⟩
    · rw [same]
    · exact (Session.effect_grows (Session.effect_of_step ran)).2
  · intro e executed
    obtain ⟨c, called, _⟩ := linked.shape.executed e executed
    have within := (List.getElem?_eq_some_iff.mp called).1
    cases moves with
    | call => exact Function.update_of_ne (Nat.ne_of_lt within) ..
    | _ => rfl

/-- What one step does to the order and to the module. -/
inductive Places (m : Module lay) (run : Run headers) (s : Serving m) (a : Action lay) (t : State lay) :
    Prop where
  | kept (ordered : order t = order s.remote) (object : objectAfter m run s a = s.object)
  | effect {n : Nat} {q : Asked lay} (asked : s.remote.asked n = some q)
      (ordered : order t = order s.remote ++ [(n, q)])
      (object : objectAfter m run s a = ((m.object run).apply s.object q).1)
      (executed : t.session.executed.map Session.Execution.call =
        s.remote.session.executed.map Session.Execution.call ++ [n])

theorem places_of_moves {m : Module lay} {s : Serving m} (works : Works lay run)
    (linked : Linked s.remote) (wanted : Wanted run s.remote)
    (moves : Moves run impl maxSub s.remote a t) : Places m run s a t := by
  have extended := extends_of_moves linked moves
  cases moves with
  | call _ _ _ drew =>
    exact .kept (order_of_same extended (called_of_request drew).executed) rfl
  | clientSend | serverSend => exact .kept (order_of_same extended rfl) rfl
  | upward reads | downward reads =>
    refine .kept (order_of_same extended rfl) ?_
    cases a with
    | serverDecode => cases reads
    | _ => rfl
  | @serverDecode heap stack msg up r session running decoded value switched =>
    obtain ⟨w, rest, under, tagged, rfl, _⟩ := head_of_decodeNext linked.up decoded
    by_cases request : w.msg.operation = some .ASYNC_REQUEST ∨ w.msg.operation = some .SYNC_REQUEST
    · obtain ⟨n, q, d, numbered, asked, asks, payload⟩ :=
        asks_of_underWay linked wanted (show w ∈ _ by simp [under]) request
      rw [tagged, numbered] at switched
      have same := executed_of_request (m := ⟨some n, w.msg⟩) request switched
      refine .effect asked ?_ ?_ ?_
      · simp [order, orderOf, same, asked]
      · simp only [objectAfter, decoded, executes_of_data works asks stack payload request,
          Module.object, asks.declared]
      · simp [same]
    · rw [tagged] at switched
      have same := executed_of_other (m := ⟨w.call, w.msg⟩) request switched
      refine .kept (order_of_same extended same) ?_
      simp only [objectAfter, decoded, executes, if_neg request]
  | clientDecode running calm decoded switched =>
    exact .kept (order_of_same extended (untouched_of_clientSwitch switched).executed) rfl
  | inside apart ran =>
    exact .kept (order_of_same extended (apart_of_inside apart ran).executed) rfl

theorem asked_of_moves (moves : Moves run impl maxSub s a t) {n : Nat} {q : Asked lay}
    (asked : t.asked n = some q) : s.asked n = some q ∨ .invoke n q ∈ invocations s a := by
  cases moves with
  | call =>
    simp only at asked
    by_cases here : n = s.session.calls.length
    · rw [here, Function.update_self, Option.some.injEq] at asked
      rw [here, ← asked]
      exact .inr List.mem_cons_self
    · rw [Function.update_of_ne here] at asked
      exact .inl asked
  | _ => exact .inl asked

/-! ## Every run -/

/-- What holds of a served module in every state. -/
structure Faithful (run : Run headers) {m : Module lay} (s : Serving m) : Prop where
  linked : Linked s.remote
  wanted : Wanted run s.remote
  served : Served run (replay m run s.remote) s.remote
  current : s.object = (m.object run).after ((order s.remote).map Prod.snd)
  made : ∀ n q, s.remote.asked n = some q → .invoke n q ∈ s.history
  linearized : Linearizes (m.object run) s.history (order s.remote)

variable {m : Module lay} {s t : Serving m}

omit [DecidableEq τ] in
/-- A new call has no place in the order yet. -/
theorem linearizes_invocations (faithful : Faithful run s) (a : Action lay) :
    Linearizes (m.object run) (s.history ++ invocations s.remote a) (order s.remote) := by
  cases a with
  | call =>
    refine linearizes_invoke faithful.linearized fun member => ?_
    obtain ⟨e, executed, same⟩ := List.mem_map.mp (mem_order_executed member)
    obtain ⟨c, called, _⟩ := faithful.linked.shape.executed e executed
    have within := (List.getElem?_eq_some_iff.mp called).1
    omega
  | _ => simpa [invocations] using faithful.linearized

theorem faithful_step (works : Works lay run) (typed : ∀ object, Typed run (m.values object))
    (faithful : Faithful run s) (fits : EventsFit a)
    (own : Session.OwnReplies t.remote.session ∧
      (t.remote.session.executed.map Session.Execution.call).Nodup)
    (ran : Serving.step m run maxSub s a = some t) : Faithful run t := by
  obtain ⟨remote, moved, rfl⟩ := Option.map_eq_some_iff.mp ran
  obtain ⟨own, once⟩ := own
  simp only at own once
  have moves := moves_of_step moved
  have extended := extends_of_moves faithful.linked moves
  -- in the next `Execute` the functions find the module as the executions before left it
  have here : replay m run remote s.remote.session.executed.length =
      m.values s.object s.remote.session.executed.length := by
    rw [extended.replay_eq le_rfl, replay, List.take_length, faithful.current, order]
  have served : Served run (replay m run remote) s.remote :=
    faithful.served.congr fun k within => extended.replay_eq (Nat.le_of_lt within)
  have served' : Served run (replay m run remote) remote :=
    served_step works faithful.linked faithful.wanted served (moves.congr here)
  have made : ∀ n q, remote.asked n = some q → .invoke n q ∈ s.history ++ invocations s.remote a := by
    intro n q asked
    rcases asked_of_moves moves asked with before | new
    · exact List.mem_append_left _ (faithful.made n q before)
    · exact List.mem_append_right _ new
  have called := linearizes_invocations faithful a
  have taken : Linearizes (m.object run) (s.history ++ invocations s.remote a) (order remote) ∧
      objectAfter m run s a = (m.object run).after ((order remote).map Prod.snd) := by
    cases places_of_moves works faithful.linked faithful.wanted moves with
    | kept ordered object =>
      rw [ordered, object]
      exact ⟨called, faithful.current⟩
    | @effect n q asked ordered object executed =>
      rw [ordered, object, List.map_append, List.map_singleton, SequentialObject.after_concat,
        ← faithful.current]
      refine ⟨linearizes_effect called (fun member => ?_) ?_, rfl⟩
      · rw [executed] at once
        exact (List.nodup_append.mp once).2.2 n (mem_order_executed member) n (by simp) rfl
      · exact List.mem_append_left _ (faithful.made n q asked)
  refine ⟨linked_step faithful.linked fits moves, wanted_step works faithful.wanted moves, served',
    taken.2, fun n q asked => List.mem_append_left _ (made n q asked), ?_⟩
  exact linearizes_responds _ taken.1 fun x => answeredIn_of_ended served' typed own

theorem faithful_start (m : Module lay) {first : Serving m}
    (init : (serving m run maxSub).init first) : Faithful run first := by
  obtain ⟨nid, serverNid, block, block', size, size', rfl⟩ := init
  exact ⟨linked_start nid serverNid size size', nofun, nofun, rfl, nofun, linearizes_nil _⟩

/-- The session of a served module is one of `Session`. -/
theorem serving_session_reached
    (reached : (serving m run maxSub).ReachableBy (fun s a => Regular s.remote a) s) :
    (Session.system maxSub).ReachableBy Session.Fresh s.remote.session := by
  refine reached.simulates (fun s => Linked s.remote) (fun s => s.remote.session) ?_ ?_ ?_
  · intro s reached
    induction reached with
    | init first => exact (faithful_start m first).linked
    | step before met ran linked =>
      obtain ⟨remote, moved, rfl⟩ := Option.map_eq_some_iff.mp ran
      exact linked_step linked (eventsFit_of_regular met) (moves_of_step moved)
  · rintro _ ⟨nid, serverNid, block, block', _, _, rfl⟩
    exact ⟨nid, serverNid, rfl⟩
  · intro s a t linked met ran
    obtain ⟨remote, moved, rfl⟩ := Option.map_eq_some_iff.mp ran
    rcases simulated linked (moves_of_step moved) with same | ⟨b, matched, ran'⟩
    · exact .inl same
    · exact .inr ⟨b, fresh_of_matches met matched, ran'⟩

theorem reachable_faithful (works : Works lay run) (typed : ∀ object, Typed run (m.values object))
    (reached : (serving m run maxSub).ReachableBy (fun s a => Regular s.remote a) s) :
    Faithful run s := by
  induction reached with
  | init first => exact faithful_start m first
  | step before met ran ih =>
    have own := ownReplies_of_reached (serving_session_reached (before.step met ran))
    exact faithful_step works typed ih (eventsFit_of_regular met) own ran

/-- A module whose functions return the same in all its states does what they do. -/
theorem served_of_reached {cond : State lay → Action lay → Prop} {r : State lay}
    (same : ∀ object, m.values object = impl) (reached : (system lay run impl maxSub).ReachableBy cond r) :
    ∃ s : Serving m, (serving m run maxSub).ReachableBy (fun s a => cond s.remote a) s ∧
      s.remote = r := by
  induction reached with
  | init first =>
    obtain ⟨nid, serverNid, block, block', size, size', rfl⟩ := first
    exact ⟨_, .init ⟨nid, serverNid, block, block', size, size', rfl⟩, rfl⟩
  | step before met ran ih =>
    obtain ⟨s, reached, rfl⟩ := ih
    refine ⟨_, reached.step met (Option.map_eq_some_iff.mpr ⟨_, ?_, rfl⟩), rfl⟩
    rw [same]
    exact ran

/-- **A module behind the connection is linearizable.** However the calls of the client's threads
overlap and the two streams are cut, the calls can be put into an order, that of the executions,
in which the module gives each call that has ended what its RPC function returned, and in which a call
is behind all those that had ended when it was made; provided that no call draws an id that an open call
holds. -/
theorem remote_module_linearizable (works : Works lay run)
    (typed : ∀ object, Typed run (m.values object))
    (reached : (serving m run maxSub).ReachableBy (fun s a => Regular s.remote a) s) :
    Linearizable (m.object run) s.history :=
  ⟨order s.remote, (reachable_faithful works typed reached).linearized⟩

/-- A database that counts its reads. -/
def readModule : Module readLayout where
  State := Nat
  init := 0
  call reads func args := (reads + 1, readImpl reads func args)

/-- Two reads. -/
theorem remote_module_linearizable_read : ∃ s : Serving readModule,
    s.remote.session.returned.length = 2 ∧ Linearizable (readModule.object readRun) s.history := by
  obtain ⟨r, reached, replies⟩ := read_twice
  obtain ⟨s, served, rfl⟩ := served_of_reached (m := readModule) (fun _ => rfl) reached
  exact ⟨s, replies.length, remote_module_linearizable readRun_works (fun _ => readImpl_typed) served⟩

end DCScan.RemoteCalls
