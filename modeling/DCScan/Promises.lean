import DCScan.SessionUnique

/-!
The promises of `SendAsync`: when the decode thread finds the promise of the reply it holds.

`SendAsync` hands its message to the send thread before it stores the promise, so the reply
can be decoded while the thread is still between the two. `Settled` is the exact condition
on a decode step under which it is not.
-/

namespace DCScan.Session

open Lib Message

variable {maxSub : UInt8} {s t : State} {a : Action}

/-- No `NotifyPromise` has looked up an id that `async_mess_prom` did not hold. -/
def PromisesFound (s : State) : Prop := s.fault ≠ some .promiseMissing

/-- The decode thread takes up an asynchronous reply only when no `SendAsync` stands between
`ScheduleTransmission` and `async_mess_prom.emplace` with its id. -/
def Settled (s : State) : Action → Prop
  | .clientDecode => ∀ m rest, s.toClient = m :: rest → m.msg.operation = some .ASYNC_RESPONSE →
      ∀ i n, s.threads i ≠ .registering n m.msg.id
  | _ => True

/-- While the message of an asynchronous call is under way, its promise is stored, or its
thread is about to store it. -/
def Pledged (s : State) : Prop :=
  ∀ n c, n ∈ tags s.pipeline → s.calls[n]? = some c → c.kind ≠ .sync →
    s.asyncMessProm c.id = some n ∨ ∃ i, s.threads i = .registering n c.id

/-- A stored promise stays while its call's message is under way. -/
private theorem promise_kept (sound : Sound s) (eff : Effect s a t) {id : UInt64} {n : Nat}
    (stored : s.asyncMessProm id = some n) (underWay : n ∈ tags t.pipeline) :
    t.asyncMessProm id = some n := by
  cases eff with
  | register => exact emplace_keeps stored
  | @fulfil m rest k value arrived answer found read =>
    have different : id ≠ m.msg.id := by
      rintro rfl
      rw [found, Option.some.injEq] at stored
      subst stored
      have own := (fulfil_own sound.shape sound.uniq arrived answer found).1
      exact (tags_of_arrived sound.uniq arrived own).2 underWay
    exact (erase_other different).trans stored
  | _ => exact stored

/-- The thread that is to store a promise stays there until it has. -/
private theorem registering_kept (sound : Sound s) (eff : Effect s a t) {i n : Nat} {id : UInt64}
    (stand : s.threads i = .registering n id) :
    t.asyncMessProm id = some n ∨ t.threads i = .registering n id := by
  have moved : ∀ {j p}, s.threads j ≠ .registering n id →
      Function.update s.threads j p i = .registering n id := by
    intro j p elsewhere
    have apart : i ≠ j := fun same => elsewhere (same ▸ stand)
    rw [Function.update_of_ne apart, stand]
  cases eff with
  | @quiet a threads events pushed fault calls untagged noPromise =>
    exact Or.inr ((calls i (Or.inl (by simp [stand, Phase.call]))).trans stand)
  | draw idle => exact Or.inr (moved fun same => by rw [same] at idle; cases idle)
  | schedule drawn => exact Or.inr (moved fun same => by rw [same] at drawn; cases drawn)
  | take waits => exact Or.inr (moved fun same => by rw [same] at waits; cases waits)
  | @register j k id' other =>
    by_cases same : i = j
    · subst same
      rw [stand] at other
      cases other
      left
      cases before : s.asyncMessProm id with
      | none => simp [before]
      | some k =>
        obtain ⟨c, found, _, drew⟩ := sound.shape.promises before
        obtain ⟨d, mine, _, drew'⟩ := sound.shape.registering stand
        have inCall : (s.threads i).call = some n := by rw [stand]; rfl
        obtain rfl : k = n := sound.uniq.ids (sound.uniq.opened (.promise before))
          (sound.uniq.opened (.thread inCall)) found mine (drew.trans drew'.symm)
        exact absurd inCall (sound.uniq.promise before i)
    · exact Or.inr (by simpa [same] using stand)
  | _ => exact Or.inr stand

theorem pledged_step (sound : Sound s) (pledged : Pledged s) (eff : Effect s a t) : Pledged t := by
  intro n c underWay found isAsync
  have old : n ∈ tags s.pipeline → t.asyncMessProm c.id = some n ∨
      ∃ i, t.threads i = .registering n c.id := by
    intro before
    have known := (sound.uniq.opened (.message before)).1
    obtain ⟨rest, grows⟩ := (effect_grows eff).1
    rw [← grows, List.getElem?_append_left known] at found
    rcases pledged n c before found isAsync with stored | ⟨i, stand⟩
    · exact Or.inl (promise_kept sound eff stored underWay)
    · exact (registering_kept sound eff stand).imp_right fun still => ⟨i, still⟩
  rcases effect_tags eff with fewer | ⟨i, k, sync, msg, drawn, grown, after, _⟩
  · exact old (fewer.subset underWay)
  · rw [grown] at underWay
    rcases List.mem_append.mp underWay with before | new
    · exact old before
    · rw [List.mem_singleton] at new
      subst new
      obtain ⟨d, mine, made, mode⟩ := sound.shape.drawn drawn
      rw [call_found (effect_grows eff).1 mine, Option.some.injEq] at found
      subst found
      rw [made, mode] at after
      exact Or.inr ⟨i, by simpa [isAsync, Call.message] using after⟩

theorem reachable_pledged (reached : (system maxSub).ReachableBy Fresh s) : Pledged s :=
  reached.invariant_from (fun _ => reachable_sound fun _ _ => id)
    (by rintro _ ⟨nid, serverNid, rfl⟩; simp [Pledged, start, State.pipeline])
    fun _ _ _ sound pledged _ ran => pledged_step sound pledged (effect_of_step ran)

/-- The promise of the reply at hand is stored exactly when no thread has yet to store it. -/
theorem promise_stored_iff (sound : Sound s) (pledged : Pledged s) {m : Tagged} {rest : List Tagged}
    (arrived : s.toClient = m :: rest) (answer : m.msg.operation = some .ASYNC_RESPONSE) :
    (s.asyncMessProm m.msg.id).isSome ↔ ∀ i n, s.threads i ≠ .registering n m.msg.id := by
  rcases sound.shape.replies m (by simp [arrived])
    with ⟨_, event⟩ | ⟨n, tag, c, op, r, found, kind, made, _⟩
  · rw [answer] at event
    cases event
  have isAsync : c.kind ≠ .sync := by
    rw [made, DefaultMessage.operation_mk, Option.some.injEq] at answer
    rw [answer] at kind
    intro isSync
    rw [isSync] at kind
    cases kind
  have id : m.msg.id = c.id := by rw [made]
  have underWay : n ∈ tags s.pipeline := by simp [State.pipeline, arrived, tag]
  have opened := sound.uniq.opened (.message underWay)
  rw [id]
  constructor
  · intro stored i k stand
    obtain ⟨j, promised⟩ := Option.isSome_iff_exists.mp stored
    have inCall : (s.threads i).call = some k := by rw [stand]; rfl
    obtain ⟨d, mine, _, drew⟩ := sound.shape.registering stand
    obtain ⟨e, theirs, _, drew'⟩ := sound.shape.promises promised
    obtain rfl : k = j := sound.uniq.ids (sound.uniq.opened (.thread inCall))
      (sound.uniq.opened (.promise promised)) mine theirs (drew.trans drew'.symm)
    exact sound.uniq.promise promised i inCall
  · intro settled
    rcases pledged n c underWay found isAsync with stored | ⟨i, stand⟩
    · simp [stored]
    · exact absurd stand (settled i n)

/-- **A decode step finds the promise it needs** exactly when it meets the condition. -/
theorem found_iff_settled (sound : Sound s) (pledged : Pledged s) (found : PromisesFound s)
    (ran : step maxSub s a = some t) : PromisesFound t ↔ Settled s a := by
  constructor
  · intro still
    cases a with
    | clientDecode =>
      intro m rest arrived answer
      rw [← promise_stored_iff sound pledged arrived answer]
      have notified := decode_arrived arrived ran
      simp only [clientSwitch, answer, Option.some.injEq] at notified
      by_contra missing
      rw [Option.not_isSome_iff_eq_none] at missing
      rw [← notified, PromisesFound, notifyPromise, missing] at still
      exact still rfl
    | _ => trivial
  · intro settled
    cases effect_of_step ran with
    | quiet _ _ noPromise => exact noPromise
    | clientDrop arrived promise =>
      intro missing
      obtain ⟨answer, gone⟩ := promise missing
      have stored := (promise_stored_iff sound pledged arrived answer).mpr
        (settled _ _ arrived answer)
      simp [gone] at stored
    | _ => exact found

/-- **Every asynchronous reply finds its promise** in the runs whose every decode step meets the
condition, and the first one that does not throws. -/
theorem promises_found (reached : (system maxSub).ReachableBy
      (fun s a => Fresh s a ∧ Settled s a) s) :
    PromisesFound s ∧ ∀ a t, (system maxSub).step s a = some t →
      (PromisesFound t ↔ Settled s a) := by
  have fresh : ∀ {s}, (system maxSub).ReachableBy (fun s a => Fresh s a ∧ Settled s a) s →
      Sound s ∧ Pledged s := fun reached =>
    have drawn := reached.mono fun _ _ _ met => met.1
    ⟨reachable_sound (fun _ _ => id) drawn, reachable_pledged drawn⟩
  have found : PromisesFound s := reached.invariant_from (fun _ => fresh)
    (by rintro _ ⟨nid, serverNid, rfl⟩; simp [PromisesFound, start])
    fun _ _ _ known found met ran => (found_iff_settled known.1 known.2 found ran).mpr met.2
  exact ⟨found, fun a t ran => found_iff_settled (fresh reached).1 (fresh reached).2 found ran⟩

/-- A thread makes a call and has not stored its promise when the reply comes back to the client. -/
def oneCall : List Action :=
  [.request 0 false [1, 0] .zeros, .schedule 0, .clientSend, .serverDecode (.ofType 1) .zeros, .serverSend]

/-- A call whose promise is stored before its reply is decoded. -/
theorem promises_found_when_registered : ∃ s, s.fulfilled = [(0, .ofType 1)] ∧ PromisesFound s := by
  have replayed : ∃ s, (system 0).ReachableBy (fun s a => s.calls.length < 2 ^ 64 ∧
      (match a with
        | .clientDecode => s.toClient.all fun m => (s.asyncMessProm m.msg.id).isSome
        | _ => true) = true) s ∧ s.fulfilled = [(0, .ofType 1)] :=
    System.exists_reachableBy_of_replay (s := start 0 0 0) ⟨0, 0, rfl⟩
      (oneCall ++ [.register 0, .clientDecode]) (by decide +kernel)
  obtain ⟨s, reached, fulfilled⟩ := replayed
  refine ⟨s, fulfilled, (promises_found
    (reached.mono fun s a before met => ⟨fresh_of_few before.reachable met.1, ?_⟩)).1⟩
  cases a with
  | clientDecode =>
    have fresh : (system 0).ReachableBy Fresh s :=
      before.mono fun _ _ earlier met => fresh_of_few earlier.reachable met.1
    intro m rest arrived answer
    rw [← promise_stored_iff (reachable_sound (fun _ _ => id) fresh)
      (reachable_pledged fresh) arrived answer]
    exact List.all_eq_true.mp met.2 m (by simp [arrived])
  | _ => trivial

/-- **The condition is needed.** The reply is decoded before the thread that sent the request has
stored its promise. -/
theorem promise_missing_when_late : ∃ s, (system 0).Reachable s ∧ ¬PromisesFound s := by
  have replayed : ∃ s, (system 0).Reachable s ∧ s.fault = some .promiseMissing :=
    System.exists_reachable_of_replay (s := start 0 0 0) ⟨0, 0, rfl⟩
      (oneCall ++ [.clientDecode]) (by decide +kernel)
  obtain ⟨s, reached, missing⟩ := replayed
  exact ⟨s, reached, fun found => found missing⟩

end DCScan.Session
