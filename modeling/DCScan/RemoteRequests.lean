import DCScan.RemoteCalls

/-!
What the requests of the generated functions carry, and what the server makes of them.

Two relations carry this through a run. `Wanted` says of each call that its data encode what was asked
for, `Served` of each execution that it ran what its call asked for.
-/

namespace DCScan.RemoteCalls

open Lib Message Generator Marshalling
open Framing (ibBuffSize)

variable {τ : Type} {lay : Layout τ} {headers : List Header} {run : Run headers}
variable {impl : Nat → Text → List (Any lay) → Any lay} {maxSub : UInt8}

/-- The generated code compiles, its codes fit their types and the size of an object is an `i32`. -/
structure Works (lay : Layout τ) (run : Run headers) : Prop where
  macros : DistinctMacros run
  few : run.argDefines.length ≤ 255
  plain : ∀ d ∈ run.declarations, ∀ a ∈ d.args, Plain a
  numbered : run.declarations.length < 2 ^ 16
  objects : ∀ t, lay.sizeof t < 2 ^ 31

/-- The registered functions return what they are declared to. -/
def Typed (run : Run headers) (impl : Nat → Text → List (Any lay) → Any lay) : Prop :=
  ∀ k, ∀ d ∈ run.declarations, ∀ args, (impl k d.func args).type = lay.type d.returnType

/-- What a function of `make_rpc_func` returns: `*reinterpret_cast<ret_type*>(r.ptr)`. -/
def rpcReturn (lay : Layout τ) (d : Declaration) (r : SVReturn) : List UInt8 :=
  (r.bytes.drop 1).take (lay.sizeof (lay.type d.returnType))

/-- The request asks for a declared function, with arguments of its types. -/
structure Asks (run : Run headers) (q : Asked lay) (d : Declaration) : Prop where
  declared : run.declarations[q.function]? = some d
  typed : q.args.map Any.type = d.args.map lay.type
  fits : callSize lay d ≤ 1024

/-- The bytes of such a request. -/
def Asked.data (run : Run headers) (q : Asked lay) (d : Declaration) : List UInt8 :=
  leBytes 2 (svCall q.function).toNat ++ encoding lay (DCSGen run) (d.args.zip q.args)

/-! ## One request -/

theorem svCall_toNat (works : Works lay run) {function : Nat} {d : Declaration}
    (declared : run.declarations[function]? = some d) : (svCall function).toNat = function + 1 := by
  have within := (List.getElem?_eq_some_iff.mp declared).1
  have numbered := works.numbered
  rw [svCall, UInt16.toNat_ofNat', Nat.mod_eq_of_lt (by omega)]

theorem Asks.data_length {q : Asked lay} {d : Declaration} (asks : Asks run q d) :
    (q.data run d).length = callSize lay d := by
  have size : callSize lay d = 2 + (encoding lay (DCSGen run) (d.args.zip q.args)).length :=
    callSize_eq asks.typed
  rw [Asked.data, List.length_append, leBytes_length, size]

/-- The bytes of the returned object are the first of `ptr`. -/
theorem rpcReturn_of_returned {d : Declaration} {stack : Uninit} {value : Any lay} {r : SVReturn}
    (ran : returned lay (DCSGen run) stack d.executeCase value = some r)
    (typed : value.type = lay.type d.returnType) (valued : d.returnType ≠ []) :
    rpcReturn lay d r = value.bytes := by
  unfold returned at ran
  rw [if_neg (show d.executeCase.returnType ≠ [] from valued)] at ran
  obtain ⟨ptr, stored, ran⟩ := Option.bind_eq_some_iff.mp ran
  obtain ⟨code, _, made⟩ := Option.bind_eq_some_iff.mp ran
  unfold SVReturn.ofFields at made
  split at made
  · cases made
    obtain ⟨_, copied⟩ := Option.ite_none_right_eq_some.mp stored
    have front : ptr.take value.bytes.length = value.bytes := by
      rw [← Option.some.inj copied]
      exact blit_zero_take
    rw [rpcReturn, List.drop_succ_cons, List.drop_zero, ← typed, ← value.length_eq, front]
  · contradiction

/-- A value that is no larger than `SVReturn::ptr` is returned. -/
theorem returned_of_fits {d : Declaration} (member : d ∈ run.declarations) (stack : Uninit)
    {value : Any lay} (typed : value.type = lay.type d.returnType)
    (fits : d.returnType = [] ∨ lay.sizeof (lay.type d.returnType) ≤ 1024) :
    ∃ r, returned lay (DCSGen run) stack d.executeCase value = some r := by
  have defined := resolve_returnType member
  refine Option.isSome_iff_exists.mp ((returned_isSome (c := d.executeCase) defined stack value).mpr ?_)
  rw [typed]
  exact fits

/-- The server reads the function and the arguments that the request asks for. -/
theorem params_of_data (works : Works lay run) {q : Asked lay} {d : Declaration} (asks : Asks run q d)
    {msg : DefaultMessage} (payload : msg.payload = q.data run d) :
    GetParamsFromData lay (DCSGen run) msg.payload (signed 32 msg.size) =
      some ⟨svCall q.function, q.args⟩ := by
  have length := asks.data_length
  have fits := asks.fits
  obtain ⟨⟨_, snd⟩, types⟩ := typed_zip asks.typed
  have decodable : ∀ x ∈ d.args.zip q.args, x.2.type = lay.type x.1 ∧
      switchOn (DCSGen run).argDefAll (DCSGen run).switchType (typeCode (DCSGen run) x.1).toNat =
        some x.1 := fun x member => ⟨types x member,
    (typeCode_case works.macros works.few works.plain (List.mem_of_getElem? asks.declared)
      (List.of_mem_zip member).1).2⟩
  have size : 2 + (encoding lay (DCSGen run) (d.args.zip q.args)).length = callSize lay d :=
    (callSize_eq asks.typed).symm
  have measured : signed 32 msg.size =
      ((2 + (encoding lay (DCSGen run) (d.args.zip q.args)).length : Nat) : Int) := by
    rw [DefaultMessage.size, payload, length, signed_of_range, size] <;> omega
  have read := GetParamsFromData_eq decodable (svCall q.function) [] (by omega)
  rwa [List.append_nil, snd, ← measured, ← Asked.data, ← payload] at read

/-! ## What is said of the calls and of the executions -/

/-- The data of each request are those of what its call asked for. -/
def Wanted (run : Run headers) (s : State lay) : Prop :=
  ∀ n c, s.session.calls[n]? = some c → c.kind = .sync ∨ c.kind = .async →
    ∃ q d, s.asked n = some q ∧ Asks run q d ∧ c.data = q.data run d

/-- Each execution ran the function that its call asked for, with its arguments. -/
def Served (run : Run headers) (impl : Nat → Text → List (Any lay) → Any lay) (s : State lay) : Prop :=
  ∀ k e, s.session.executed[k]? = some e → ∃ q d stack, s.asked e.call = some q ∧ Asks run q d ∧
    returned lay (DCSGen run) stack d.executeCase (impl k d.func q.args) = some e.result

variable {s t : State lay} {a : Action lay}

/-- Entries of a list with one more at its end. -/
private theorem getElem?_concat {α : Type} {xs : List α} {x y : α} {n : Nat}
    (found : (xs ++ [x])[n]? = some y) : xs[n]? = some y ∨ n = xs.length ∧ y = x := by
  rcases Nat.lt_trichotomy n xs.length with before | here | behind
  · exact .inl (by rwa [List.getElem?_append_left before] at found)
  · subst here
    rw [List.getElem?_concat_length, Option.some.injEq] at found
    exact .inr ⟨rfl, found.symm⟩
  · rw [List.getElem?_eq_none (by rw [List.length_append, List.length_singleton]; omega)] at found
    cases found

theorem Wanted.same (wanted : Wanted run s) (asked : t.asked = s.asked)
    (calls : t.session.calls = s.session.calls) : Wanted run t := by
  unfold Wanted at *
  rwa [asked, calls]

/-- A request under way is that of a call that asked for something. -/
theorem asks_of_underWay {m : Session.Tagged} (linked : Linked s) (wanted : Wanted run s)
    (under : m ∈ s.session.toServer)
    (request : m.msg.operation = some .ASYNC_REQUEST ∨ m.msg.operation = some .SYNC_REQUEST) :
    ∃ n q d, m.call = some n ∧ s.asked n = some q ∧ Asks run q d ∧ m.msg.payload = q.data run d := by
  obtain ⟨n, c, tagged, found, made⟩ := linked.shape.requests m (List.mem_append_left _ under)
  have kind : c.kind = .sync ∨ c.kind = .async := by
    rw [made, Session.Call.operation_message] at request
    revert request
    cases c.kind <;> decide
  obtain ⟨q, d, asked, asks, data⟩ := wanted n c found kind
  refine ⟨n, q, d, tagged, asked, asks, ?_⟩
  rw [made, ← data]
  rfl

theorem Served.same (served : Served run impl s) (asked : t.asked = s.asked)
    (executed : t.session.executed = s.session.executed) : Served run impl t := by
  unfold Served at *
  rwa [asked, executed]

/-! ## One request served -/

variable [DecidableEq τ]

/-- What an RPC function leaves in its buffer is the request. -/
theorem data_of_rpcFunc (works : Works lay run) {q : Asked lay} {d : Declaration} {stack : Uninit}
    {buffer : List UInt8} {size_written : Int} (declared : run.declarations[q.function]? = some d)
    (typed : q.args.map Any.type = d.args.map lay.type)
    (written : rpcFunc lay (DCSGen run) stack (svCall q.function) q.args = some (buffer, size_written)) :
    Asks run q d ∧ buffer.take size_written.toNat = q.data run d := by
  have code := svCall_toNat works declared
  have encoded : ∀ a ∈ d.args, ∃ n, resolve (DCSGen run).argDefAll (encodeMacro a) = some n :=
    fun a member =>
      (typeCode_case works.macros works.few works.plain (List.mem_of_getElem? declared) member).1
  have inside : ArgsFit lay d.args 1022 :=
    (rpcFunc_isSome ⟨works.macros, encoded⟩ declared code stack typed).mp (by rw [written]; rfl)
  have fits : callSize lay d ≤ 1024 := (argsFit_iff_callSize works.objects).mp inside
  have room : callSize lay d ≤ ((List.range 1024).map stack.heap).length := by simpa using fits
  obtain ⟨buffer', written', front⟩ := GetDataFromParams_eq works.macros works.few works.plain declared
    code typed room (by omega)
  cases written.symm.trans written'
  exact ⟨⟨declared, typed, fits⟩, by rw [Int.toNat_natCast, front, Asked.data]⟩

/-- `Execute` calls the function that the request asks for. -/
theorem result_of_data (works : Works lay run) {q : Asked lay} {d : Declaration} (asks : Asks run q d)
    {msg : DefaultMessage} (k : Nat) (stack : Uninit) (payload : msg.payload = q.data run d)
    (request : msg.operation = some .ASYNC_REQUEST ∨ msg.operation = some .SYNC_REQUEST) :
    result lay run impl k msg stack =
      returned lay (DCSGen run) stack d.executeCase (impl k d.func q.args) := by
  rw [result, if_pos request, params_of_data works asks payload, Option.bind_eq_bind,
    Option.bind_some]
  exact Execute_eq works.macros asks.declared (svCall_toNat works asks.declared) asks.typed _ stack

/-! ## Every run -/

theorem wanted_step (works : Works lay run) (wanted : Wanted run s)
    (moves : Moves run impl maxSub s a t) : Wanted run t := by
  cases moves with
  | @call i sync function args stack heap d buffer size_written session declared typed written drew =>
    obtain ⟨asks, data⟩ := data_of_rpcFunc (q := ⟨function, args⟩) works declared typed written
    obtain ⟨id, same⟩ := (called_of_request drew).calls
    intro n c found request
    simp only [same] at found
    rcases getElem?_concat found with before | ⟨rfl, rfl⟩
    · have within := (List.getElem?_eq_some_iff.mp before).1
      obtain ⟨q, d, asked, asks', encoded⟩ := wanted n c before request
      exact ⟨q, d, (Function.update_of_ne (Nat.ne_of_lt within) ..).trans asked, asks', encoded⟩
    · exact ⟨⟨function, args⟩, d, Function.update_self .., asks, data⟩
  | clientSend | upward | serverSend | downward => exact wanted
  | serverDecode running decoded value switched =>
    exact wanted.same rfl (served_of_serverSwitch switched).1.2.2
  | clientDecode running calm decoded switched =>
    exact wanted.same rfl (untouched_of_clientSwitch switched).calls
  | inside apart ran =>
    rcases (apart_of_inside apart ran).calls with same | ⟨added, same, other⟩
    · exact wanted.same rfl same
    · intro n c found request
      simp only [same] at found
      rcases getElem?_concat found with before | ⟨rfl, rfl⟩
      · exact wanted n c before request
      · exact absurd request (not_or.mpr other)

theorem served_step (works : Works lay run) (linked : Linked s) (wanted : Wanted run s)
    (served : Served run impl s) (moves : Moves run impl maxSub s a t) : Served run impl t := by
  cases moves with
  | call _ _ _ drew =>
    intro k e found
    rw [(called_of_request drew).executed] at found
    obtain ⟨c, called, _⟩ := linked.shape.executed e (List.mem_of_getElem? found)
    have within := (List.getElem?_eq_some_iff.mp called).1
    obtain ⟨q, d, stack, asked, ran⟩ := served k e found
    exact ⟨q, d, stack, (Function.update_of_ne (Nat.ne_of_lt within) ..).trans asked, ran⟩
  | clientSend | upward | serverSend | downward => exact served
  | @serverDecode heap stack msg up r session running decoded value switched =>
    obtain ⟨m, rest, under, tagged, rfl, _⟩ := head_of_decodeNext linked.up decoded
    rcases (served_of_serverSwitch switched).2 with same | ⟨request, same⟩
    · exact served.same rfl same
    · obtain ⟨n, q, d, numbered, asked, asks, payload⟩ :=
        asks_of_underWay linked wanted (show m ∈ _ by simp [under]) request
      rw [result_of_data works asks _ _ payload request] at value
      intro k e found
      rw [tagged, numbered] at same
      simp only [same] at found
      rcases getElem?_concat found with before | ⟨rfl, rfl⟩
      · exact served k e before
      · exact ⟨q, d, stack, asked, asks, value⟩
  | clientDecode running calm decoded switched =>
    exact served.same rfl (untouched_of_clientSwitch switched).executed
  | inside apart ran => exact served.same rfl (apart_of_inside apart ran).executed

/-- What holds in every state that regular runs reach. -/
structure Kept (run : Run headers) (impl : Nat → Text → List (Any lay) → Any lay) (s : State lay) :
    Prop where
  linked : Linked s
  wanted : Wanted run s
  served : Served run impl s

theorem reachable_kept {cond : State lay → Action lay → Prop} (works : Works lay run)
    (fits : ∀ s a, cond s a → EventsFit a)
    (reached : (system lay run impl maxSub).ReachableBy cond s) : Kept run impl s := by
  refine reached.invariant_from (fun _ => reachable_linked fits) ?_ ?_
  · rintro _ ⟨nid, serverNid, block, block', size, size', rfl⟩
    exact ⟨linked_start nid serverNid size size', nofun, nofun⟩
  · intro s a t linked kept met ran
    have moves := moves_of_step ran
    exact ⟨linked_step linked (fits _ a met) moves, wanted_step works kept.wanted moves,
      served_step works linked kept.wanted kept.served moves⟩

/-- The decode switch gets through any message that has a payload. -/
theorem serverSwitch_some (s : Session.State) {m : Session.Tagged} (r : SVReturn) (mem : Uninit)
    (filled : m.msg.payload ≠ []) : ∃ t, Session.serverSwitch maxSub s m r mem = some t := by
  obtain ⟨e, first⟩ := Option.isSome_iff_exists.mp (List.isSome_head?.mpr filled)
  rw [← Option.isSome_iff_exists, Session.serverSwitch, Option.isSome_map, decodeSwitch]
  split <;> simp [reply_eq, first]

/-- What `Execute` makes of a generated request is a return value. -/
theorem result_of_underWay (works : Works lay run) (typed : Typed run impl)
    (returns : ∀ d ∈ run.declarations, d.returnType = [] ∨ lay.sizeof (lay.type d.returnType) ≤ 1024)
    {m : Session.Tagged} (linked : Linked s) (wanted : Wanted run s) (under : m ∈ s.session.toServer)
    (k : Nat) (stack : Uninit) : ∃ r, result lay run impl k m.msg stack = some r := by
  by_cases request : m.msg.operation = some .ASYNC_REQUEST ∨ m.msg.operation = some .SYNC_REQUEST
  · obtain ⟨n, q, d, _, _, asks, payload⟩ := asks_of_underWay linked wanted under request
    have member := List.mem_of_getElem? asks.declared
    rw [result_of_data works asks k stack payload request]
    exact returned_of_fits member stack (typed k d member q.args) (returns d member)
  · exact ⟨_, if_neg request⟩

end DCScan.RemoteCalls
