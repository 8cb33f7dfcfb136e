import DCScan.SessionUnique

/-!
The reply slot of `SendSync`: when a delivered reply survives until the thread that waits
for it takes it.

All threads in `WaitForId` share the one message `lmessage`. `SetMsgIdCondition` deletes what
the slot holds, read or not, so the reply of a thread that has not run since is lost with
the next one. `SlotFree` is the exact condition on a decode step under which it is not.
-/

namespace DCScan.Session

open Lib Message

variable {maxSub : UInt8} {s t : State} {a : Action}

/-- A thread whose reply was delivered finds it in the slot. -/
def Kept (s : State) : Prop :=
  ∀ i n id, s.threads i = .waiting n id → n ∈ s.delivered →
    s.lmessage.call = some n ∧ s.lmessage.msg.ptr.isSome

/-- The decode thread hands a reply to `SetMsgIdCondition` only while the slot is empty or
holds an id no thread waits for. -/
def SlotFree (s : State) : Action → Prop
  | .clientDecode => ∀ m rest, s.toClient = m :: rest → m.msg.operation = some .SYNC_RESPONSE →
      s.lmessage.msg.ptr.isSome → ∀ i n id, s.threads i = .waiting n id → s.lmessage.msg.id ≠ id
  | _ => True

/-- What is in the slot was delivered. -/
def SlotDelivered (s : State) : Prop := ∀ n, s.lmessage.call = some n → n ∈ s.delivered

theorem slot_delivered_step (inv : SlotDelivered s) (eff : Effect s a t) : SlotDelivered t := by
  cases eff with
  | take => simp [SlotDelivered]
  | slot => exact fun n tag => List.mem_append_right _ (by simpa using tag)
  | _ => exact inv

/-- A reply in the slot carries the id of its call. -/
private theorem slot_id (sound : Sound s) {i n : Nat} {id : UInt64}
    (stand : s.threads i = .waiting n id)
    (tag : s.lmessage.call = some n) (held : s.lmessage.msg.ptr.isSome) :
    s.lmessage.msg.id = id := by
  obtain ⟨k, own, c, op, r, found, _, made, _⟩ := sound.shape.slot held
  rw [tag, Option.some.injEq] at own
  subst own
  obtain ⟨d, mine, _, drew⟩ := sound.shape.waiting stand
  rw [found, Option.some.injEq] at mine
  rw [made, ← drew, ← mine]

/-- What arrives as a reply is a whole one. -/
private theorem reply_filled (sound : Sound s) {m : Tagged} {rest : List Tagged}
    (arrived : s.toClient = m :: rest)
    (answer : m.msg.operation = some .SYNC_RESPONSE) : (Copy m.msg).ptr.isSome := by
  rcases sound.shape.replies m (by simp [arrived]) with ⟨_, event⟩ | ⟨n, _, c, op, r, _, _, made, _⟩
  · rw [answer] at event
    cases event
  · have filled : 0 < r.bytes.length := by rw [r.length_eq]; decide
    simp [Copy, made, DefaultMessage.size, filled]

/-- A thread waits on in its call, or has just scheduled its message. -/
private theorem waiting_before (eff : Effect s a t) {i n : Nat} {id : UInt64}
    (stand : t.threads i = .waiting n id) :
    s.threads i = .waiting n id ∨
      (∃ sync msg, s.threads i = .drawn sync n msg ∧ t.delivered = s.delivered) := by
  obtain ⟨_, before⟩ := phase_before eff
  rcases before (n := n) (by rw [stand]; rfl)
    with same | ⟨_, _, _, _, _, drawn⟩ | ⟨sync, msg, drawn, kept, _⟩
  · exact Or.inl (same.symm.trans stand)
  · rw [stand] at drawn
    cases drawn
  · exact Or.inr ⟨sync, msg, drawn, kept⟩

/-- **No step loses a reply** unless it puts another into a slot that is waited for. -/
theorem kept_step (sound : Sound s) (kept : Kept s) (free : SlotFree s a) (eff : Effect s a t) :
    Kept t := by
  intro i n id stand delivered
  rcases waiting_before eff stand with waits | ⟨sync, msg, drawn, same⟩
  · cases eff with
    | @take j k id' old ret other held same value =>
      have still : s.threads i = .waiting n id ∧ i ≠ j := by
        rcases update_cases stand with ⟨_, new⟩ | ⟨apart, _⟩
        · cases new
        · exact ⟨waits, apart⟩
      have own := (take_own sound.shape sound.uniq other held same).1
      obtain rfl : k = n := Option.some.inj (own.symm.trans (kept i n id waits delivered).1)
      exact absurd (sound.uniq.one (by rw [waits]; rfl) (by rw [other]; rfl)) still.2
    | @slot m rest arrived answer =>
      rcases List.mem_append.mp delivered with before | now
      · obtain ⟨tag, held⟩ := kept i n id waits before
        exact absurd (slot_id sound waits tag held) (free m rest arrived answer held i n id waits)
      · exact ⟨by simpa using now, reply_filled sound arrived answer⟩
    | _ => exact kept i n id waits delivered
  · rw [same] at delivered
    exact absurd (Or.inr (Or.inr (Or.inr delivered))) (sound.uniq.drawn drawn)

/-- A step that puts a reply into a slot that is waited for loses the reply that was there. -/
theorem lost_of_overwrite (sound : Sound s) (delivered : SlotDelivered s)
    (ran : step maxSub s a = some t) (taken : ¬SlotFree s a) : ¬Kept t := by
  intro kept
  cases a with
  | clientDecode =>
    simp only [SlotFree, not_forall, ne_eq, not_not] at taken
    obtain ⟨m, rest, arrived, answer, held, i, n, id, stand, same⟩ := taken
    have own := (take_own sound.shape sound.uniq stand held same).1
    have slotted := decode_arrived arrived ran
    simp only [clientSwitch, answer, Option.some.injEq] at slotted
    subst slotted
    have tag := (kept i n id stand (List.mem_append_left _ (delivered n own))).1
    exact sound.uniq.toLocated.slot own (tags_of_arrived sound.uniq arrived tag).1
  | _ => exact taken trivial

theorem reachable_slot_delivered (reached : (system maxSub).Reachable s) : SlotDelivered s :=
  reached.invariant (by rintro _ ⟨nid, serverNid, rfl⟩; simp [SlotDelivered, start])
    fun _ _ _ inv ran => slot_delivered_step inv (effect_of_step ran)

/-- **No synchronous reply is lost** in the runs whose every delivery finds the slot free, and
the first delivery that does not loses one. -/
theorem replies_kept (reached : (system maxSub).ReachableBy
      (fun s a => Fresh s a ∧ SlotFree s a) s) :
    Kept s ∧ ∀ a t, (system maxSub).step s a = some t → (Kept t ↔ SlotFree s a) := by
  have sound : Sound s := reachable_sound (fun _ _ met => met.1) reached
  have kept : Kept s := reached.invariant_from (fun _ => reachable_sound fun _ _ met => met.1)
    (by rintro _ ⟨nid, serverNid, rfl⟩; simp [Kept, start])
    fun _ _ _ sound kept met ran => kept_step sound kept met.2 (effect_of_step ran)
  refine ⟨kept, fun a t ran =>
    ⟨fun still => ?_, fun free => kept_step sound kept free (effect_of_step ran)⟩⟩
  by_contra taken
  exact lost_of_overwrite sound (reachable_slot_delivered reached.reachable) ran taken still

/-- Two threads make a call each, and both replies come back to the client. -/
def twoCalls : List Action :=
  [.request 0 true [1, 0] .zeros, .request 1 true [2, 0] .zeros, .schedule 0, .schedule 1, .clientSend, .clientSend,
    .serverDecode (.ofType 1) .zeros, .serverDecode (.ofType 2) .zeros, .serverSend, .serverSend]

/-- Two calls whose replies are taken before the next one is delivered. -/
theorem replies_kept_in_turns : ∃ s, s.delivered = [0, 1] ∧ Kept s := by
  have replayed : ∃ s, (system 0).ReachableBy (fun s a => s.calls.length < 2 ^ 64 ∧
      (match a with | .clientDecode => s.lmessage.msg.ptr.isNone | _ => true) = true) s ∧
        s.delivered = [0, 1] :=
    System.exists_reachableBy_of_replay (s := start 0 0 0) ⟨0, 0, rfl⟩
      (twoCalls ++ [.clientDecode, .take 0 (.ofType 0), .clientDecode]) (by decide +kernel)
  obtain ⟨s, reached, delivered⟩ := replayed
  refine ⟨s, delivered, (replies_kept
    (reached.mono fun s a before met => ⟨fresh_of_few before.reachable met.1, ?_⟩)).1⟩
  cases a with
  | clientDecode =>
    intro m rest _ _ held
    simp [Option.isNone_iff_eq_none.mp met.2] at held
  | _ => trivial

/-- **The condition is needed.** Two threads wait, both replies are delivered before either
thread runs, and the first one is gone. -/
theorem replies_lost_when_overwritten : ∃ s, (system 0).Reachable s ∧ ¬Kept s := by
  have replayed : ∃ s, (system 0).Reachable s ∧
      (s.threads 0 = .waiting 0 0 ∧ 0 ∈ s.delivered ∧ s.lmessage.call = some 1) :=
    System.exists_reachable_of_replay (s := start 0 0 0) ⟨0, 0, rfl⟩
      (twoCalls ++ [.clientDecode, .clientDecode]) (by decide +kernel)
  obtain ⟨s, reached, waits, delivered, slot⟩ := replayed
  refine ⟨s, reached, fun kept => ?_⟩
  have tag := (kept 0 0 0 waits delivered).1
  rw [slot] at tag
  cases tag

end DCScan.Session
