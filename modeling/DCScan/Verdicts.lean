import DCScan.Position

/-!
The verdict: what the server has decided reaches `StartThread` through `conn_valid`.

The flag is what the decoded messages say, until the receive thread resets it. As long as the
connection outlives `StartThread`'s two loads of it, both loads see the verdict.
-/

namespace DCScan.Handshake

open Lib Message
open Framing (Framed DecodeInv)
open Disconnect (Sound Alert Out Settled Leaving)

variable {accounts : Accounts} {challenge : Challenge} {username password : List UInt8}
variable {s t : State} {a : Action} {msgs : List DefaultMessage}

/-! ## What the decoded messages say -/

/-- The flag after these messages. -/
def heard (msgs : List DefaultMessage) : ConnValid := msgs.foldl hear .C_WAIT

theorem hear_ne_wait {v : ConnValid} {m : DefaultMessage} (told : v ≠ .C_WAIT) : hear v m ≠ .C_WAIT := by
  unfold hear
  split
  · split <;> simp
  · exact told

/-- A verdict is not taken back. -/
theorem heard_mono {front : List DefaultMessage} (before : front <+: msgs) (told : heard front ≠ .C_WAIT) :
    heard msgs ≠ .C_WAIT := by
  obtain ⟨rest, rfl⟩ := before
  have stays : ∀ v, v ≠ ConnValid.C_WAIT → rest.foldl hear v ≠ .C_WAIT := by
    induction rest with
    | nil => exact fun _ told => told
    | cons m rest ih => exact fun _ told => ih _ (hear_ne_wait told)
  rw [heard, List.foldl_append]
  exact stays _ told

/-- A message is a verdict or leaves the flag. -/
theorem hear_cases (m : DefaultMessage) : (∀ v, hear v m = v) ∨ ∀ v w, hear v m = hear w m := by
  by_cases valid : m.operation = some .CON_VALID
  · exact Or.inr fun v w => by rw [hear, hear, if_pos valid, if_pos valid]
  · exact Or.inl fun v => by rw [hear, if_neg valid]

theorem hear_of_responds {v : ConnValid} {m : DefaultMessage} (responds : responds m = true) :
    hear v m = v := by
  rw [hear, if_neg]
  rintro valid
  simp [Handshake.responds, valid] at responds

/-- To a client it has accepted the server sends one verdict, before all else. -/
theorem heard_of_accepted (said : Said true msgs) {front : List DefaultMessage} (before : front <+: msgs)
    (some : front ≠ []) : heard front = .C_VALID := by
  obtain ⟨later, rfl, responses⟩ := said
  obtain ⟨m, rest, rfl⟩ := List.exists_cons_of_ne_nil some
  obtain ⟨rfl, rest_front⟩ := List.cons_prefix_cons.mp before
  have told : heard (validityMessage 1 :: rest) = rest.foldl hear .C_VALID := rfl
  rw [told]
  have answers : ∀ m ∈ rest, responds m = true := fun m member =>
    (responses m (rest_front.subset member)).1
  clear told before some responses rest_front
  induction rest with
  | nil => rfl
  | cons m rest ih =>
    rw [List.foldl_cons, hear_of_responds (answers m List.mem_cons_self)]
    exact ih fun n member => answers n (List.mem_cons_of_mem _ member)

/-- To a client it has refused the server sends the verdict last. -/
theorem heard_of_refused {front : List DefaultMessage} (before : front <+: refusal) :
    heard front = if front = refusal then .C_INVALID else .C_WAIT := by
  simp only [refusal, List.prefix_cons_iff, List.prefix_nil] at before
  obtain rfl | ⟨_, rfl, rfl | ⟨_, rfl, rfl⟩⟩ := before <;> decide

/-! ## The invariant -/

/-- The client has seen that it is refused. -/
def Main.refused : Main → Bool
  | .closing | .joining | .returned false => true
  | _ => false

/-- What the flag says, and who has seen it. -/
structure Flag (s : State) : Prop where
  ready : ∀ rest, s.main = .answering rest → s.connValid = .C_WAIT
  flag : s.main.launched = true → s.connValid = heard s.client.frames.decoded ∨
    s.reset = true ∧ s.connValid = .C_WAIT
  resets : s.reset = true → 2 ≤ s.client.receiver.stage
  early : 1 ≤ s.client.receiver.stage →
    s.main ≠ .polling ∧ (s.main = .comparing → s.server = .decided true)
  told : s.main = .comparing → heard s.client.frames.decoded ≠ .C_WAIT
  refused : s.main.refused = true → s.server = .decided false ∧ s.client.frames.decoded = s.sent
  accepted : s.main = .returned true → s.server = .decided true
  running : s.client.receiver.stage < 2 → s.main ≠ .joining → (∀ b, s.main ≠ .returned b) →
    s.client.running = true
  alert : Alert s.view
  out : s.main.refused = true → Out s.view

theorem alert_of_fresh {c : Disconnect.State} (fresh : Fresh c) : Alert c := by
  obtain ⟨block, chunks, _, rfl⟩ := fresh
  exact ⟨rfl, by simp, fun _ => rfl, by simp, by simp⟩

/-- Once everything is decoded, nothing is queued or waited for. -/
theorem emptied_of_decoded {c : Disconnect.State} (sound : Sound msgs c)
    (going : c.decoder ≠ .finished) (all : c.frames.decoded = msgs) :
    c.frames.consumer = .waitHeader ∧ c.frames.queue.internalBuffSize = 0 := by
  obtain ⟨rest, split, holding⟩ := (sound.frames going).position
  have decoded : (Disconnect.calm c.frames).decoded = msgs := all
  rw [decoded] at split
  have none : rest = [] := by simpa using split
  rw [none] at holding
  cases stand : c.frames.consumer with
  | waitHeader =>
    simp only [Framing.Holding, Disconnect.calm, stand, List.flatMap_nil,
      List.append_eq_nil_iff] at holding
    refine ⟨rfl, ?_⟩
    rw [← ByteQueue.contents_length]
    exact List.length_eq_zero_iff.mpr holding.1
  | waitBody to_read =>
    simp only [Framing.Holding, Disconnect.calm, stand] at holding
    obtain ⟨_, m, later, same, _⟩ := holding
    cases same
  | decoding data =>
    simp only [Framing.Holding, Disconnect.calm, stand] at holding
    obtain ⟨m, later, same, _⟩ := holding
    cases same

/-- A refused client's threads get out, unless the notification comes between the decode thread's
check and its sleep. -/
theorem out_of_moved {b : Disconnect.Action} {chunks : List (List UInt8)} {c : Disconnect.State}
    (sound : Sound s.sent s.view) (out : Out s.view) (all : s.client.frames.decoded = s.sent)
    (met : b = .notifyAll → s.client.decoder ≠ .waiting .blocking)
    (cut : chunks.flatten = s.view.frames.toReceive.flatten)
    (moved : Disconnect.step (s.view.withStream chunks) b = some c) : Out c := by
  have before : Out (s.view.withStream chunks) :=
    ⟨fun late => { out.settled late with }, fun late => { out.leaving late with }⟩
  refine Disconnect.out_step (Disconnect.sound_withStream sound cut) before ?_
    (Disconnect.effect_of_step moved)
  cases b with
  | store =>
    intro going
    obtain ⟨stand, size⟩ := emptied_of_decoded sound going all
    have header : (s.view.withStream chunks).frames.consumer = .waitHeader := stand
    refine ⟨fun to_read waits => ?_, fun _ => ?_⟩
    · rw [header] at waits
      cases waits
    · simp only [Disconnect.leftover, header]
      exact size
  | notifyAll => exact met rfl
  | _ => trivial

/-- A step of the client's threads, from a state in which they have been started. -/
theorem flag_of_moved {b : Disconnect.Action} {chunks : List (List UInt8)} (wire : Wire challenge s)
    (flag : Flag s) (launched : s.main.launched = true)
    (cut : chunks.flatten = s.view.frames.toReceive.flatten)
    (moved : Disconnect.step (s.view.withStream chunks) b = some t.view)
    (server : t.server = s.server) (sent : t.sent = s.sent) (reset : t.reset = s.reset)
    (main : t.main = s.main ∨ s.main = .closing ∧ t.main = .joining)
    (told : t.connValid = heard t.client.frames.decoded ∨ t.reset = true ∧ t.connValid = .C_WAIT)
    (leaves : b = .leave → s.main ≠ .polling ∧ (s.main = .comparing → s.server = .decided true))
    (notifies : b = .notifyAll → s.server = .decided false → s.client.decoder ≠ .waiting .blocking)
    (stops : b = .stop → t.main = .joining ∨ t.main = .returned true)
    (front : t.client.frames.decoded <+: t.sent) : Flag t := by
  have sound := (wire.sound launched).2
  have eff := Disconnect.effect_of_step moved
  have grows : s.client.frames.decoded <+: t.client.frames.decoded :=
    (Disconnect.decoded_of_effect eff).1
  have stages := Disconnect.stage_of_effect eff
  have forward : s.client.receiver.stage ≤ t.client.receiver.stage := stages.1
  have left : 1 ≤ t.client.receiver.stage → 1 ≤ s.client.receiver.stage ∨ b = .leave := stages.2
  have before : Alert (s.view.withStream chunks) := { flag.alert with }
  have refuses (seen : t.main.refused = true) : s.main.refused = true := by
    obtain same | ⟨closing, _⟩ := main
    · rwa [same] at seen
    · rw [closing]
      rfl
  refine ⟨fun rest answering => ?_, fun _ => told, fun restored => ?_, fun away => ?_,
    fun comparing => ?_, fun seen => ?_, fun returned => ?_, fun early joins returns => ?_,
    Disconnect.alert_step (Disconnect.sound_withStream sound cut) before eff, fun seen => ?_⟩
  · obtain same | ⟨_, joining⟩ := main
    · rw [← same, answering] at launched
      cases launched
    · rw [joining] at answering
      cases answering
  · rw [reset] at restored
    exact (flag.resets restored).trans forward
  · have known := (left away).elim flag.early leaves
    obtain same | ⟨_, joining⟩ := main
    · rwa [same, server]
    · simp [joining]
  · obtain same | ⟨_, joining⟩ := main
    · rw [same] at comparing
      exact heard_mono grows (flag.told comparing)
    · rw [joining] at comparing
      cases comparing
  · obtain ⟨decided, all⟩ := flag.refused (refuses seen)
    refine ⟨server.trans decided, ?_⟩
    rw [sent, ← all] at front ⊢
    exact (grows.eq_of_length_le front.length_le).symm
  · obtain same | ⟨_, joining⟩ := main
    · rw [same] at returned
      exact server.trans (flag.accepted returned)
    · rw [joining] at returned
      cases returned
  · have same : t.main = s.main := main.resolve_right fun both => joins both.2
    have still := Disconnect.running_of_effect eff early fun stop => (stops stop).elim joins (returns true)
    refine Eq.trans still ?_
    rw [same] at joins returns
    exact flag.running (forward.trans_lt early) joins returns
  · obtain ⟨decided, all⟩ := flag.refused (refuses seen)
    exact out_of_moved sound (flag.out (refuses seen)) all (fun notify => notifies notify decided) cut
      moved

/-- The flag follows the decoded messages. -/
theorem told_of_client {b : Disconnect.Action} {c : Disconnect.State}
    (told : s.connValid = heard s.client.frames.decoded ∨ s.reset = true ∧ s.connValid = .C_WAIT)
    (moved : Disconnect.step s.client b = some c) :
    stored s.connValid c b = heard c.frames.decoded ∨ s.reset = true ∧ stored s.connValid c b = .C_WAIT := by
  have other (same : ∀ mem, b ≠ .decode mem) (kept : stored s.connValid c b = s.connValid) :
      stored s.connValid c b = heard c.frames.decoded ∨
        s.reset = true ∧ stored s.connValid c b = .C_WAIT := by
    rw [kept, Disconnect.decoded_of_other (Disconnect.effect_of_step moved) same]
    exact told
  cases b with
  | decode mem =>
    obtain ⟨msg, grown⟩ := Disconnect.decoded_of_decode moved
    have set : stored s.connValid c (.decode mem) = hear s.connValid msg := by simp [stored, grown]
    have next : heard c.frames.decoded = hear (heard s.client.frames.decoded) msg := by
      rw [grown, heard, List.foldl_append]
      rfl
    rw [set, next]
    obtain same | ⟨restored, waits⟩ := told
    · exact Or.inl (by rw [same])
    · obtain leaves | tells := hear_cases msg
      · exact Or.inr ⟨restored, (leaves _).trans waits⟩
      · exact Or.inl (tells _ _)
  | _ => exact other nofun rfl

/-- What a client that has heard the verdict does with it. -/
theorem flag_of_compare (wire : Wire challenge s) (flag : Flag s) (stand : s.main = .comparing) :
    Flag { s with main := if s.connValid = .C_INVALID then .closing else .returned true } := by
  have launched : s.main.launched = true := by rw [stand]; rfl
  have told := flag.told stand
  have front := wire.front
  have decided : ∃ b, s.server = .decided b := by
    by_contra undecided
    rw [wire.silent (not_exists.mp undecided), List.prefix_nil] at front
    rw [front] at told
    exact told rfl
  obtain ⟨b, decided⟩ := decided
  have said := wire.said b decided
  have some : s.client.frames.decoded ≠ [] := fun none => told (by rw [none]; rfl)
  cases b with
  | true =>
    have valid : s.connValid ≠ .C_INVALID := by
      rw [heard_of_accepted said front some] at told
      obtain same | ⟨_, same⟩ := flag.flag launched
      · rw [same, heard_of_accepted said front some]
        simp
      · rw [same]
        simp
    rw [if_neg valid]
    exact { flag with
      ready := nofun, early := fun _ => ⟨nofun, nofun⟩, told := nofun, refused := nofun
      accepted := fun _ => decided, flag := fun _ => flag.flag launched
      running := fun _ _ other => absurd rfl (other true), alert := { flag.alert with }, out := nofun }
  | false =>
    have refusal : s.sent = refusal := said
    rw [refusal] at front
    have early : s.client.receiver.stage = 0 := by
      by_contra away
      have valid := (flag.early (Nat.pos_of_ne_zero away)).2 stand
      rw [decided] at valid
      cases valid
    have restored : s.reset = false := by
      by_contra restored
      have := flag.resets (eq_true_of_ne_false restored)
      omega
    have all : s.client.frames.decoded = Handshake.refusal := by
      by_contra short
      rw [heard_of_refused front, if_neg short] at told
      exact told rfl
    have invalid : s.connValid = .C_INVALID := by
      obtain same | ⟨gone, _⟩ := flag.flag launched
      · rw [same, all]
        rfl
      · rw [restored] at gone
        cases gone
    rw [if_pos invalid]
    refine { flag with
      ready := nofun, early := fun away => ?_, told := nofun
      refused := fun _ => ⟨decided, all.trans refusal.symm⟩, accepted := nofun
      flag := fun _ => flag.flag launched
      running := fun young _ _ => flag.running young (by simp [stand]) (by simp [stand])
      alert := { flag.alert with }, out := fun _ => ⟨fun late => ?_, fun late => ?_⟩ }
    · exact absurd away (by rw [early]; simp)
    · change 3 ≤ s.client.receiver.stage at late
      omega
    · change 4 ≤ s.client.receiver.stage at late
      omega

/-- Before the server has decided, nobody has seen a verdict. -/
theorem Flag.unseen (flag : Flag s) (undecided : ∀ b, s.server ≠ .decided b) :
    s.main.refused ≠ true ∧ s.main ≠ .returned true ∧
      (1 ≤ s.client.receiver.stage → s.main ≠ .comparing) :=
  ⟨fun seen => undecided _ (flag.refused seen).1, fun returned => undecided _ (flag.accepted returned),
    fun away comparing => undecided _ ((flag.early away).2 comparing)⟩

theorem flag_step (wire : Wire challenge s) (later : Wire challenge t) (flag : Flag s)
    (met : Steady s a) (eff : Effect challenge s a t) : Flag t := by
  have out_of {c : Disconnect.State} (same : c = s.view.withStream c.frames.toReceive)
      (seen : s.main.refused = true) : Out c := by
    rw [same]
    exact ⟨fun late => { (flag.out seen).settled late with },
      fun late => { (flag.out seen).leaving late with }⟩
  have fresh (launched : s.main.launched = false) :
      s.client.frames.decoded = [] ∧ s.client.receiver.stage = 0 := by
    obtain ⟨block, chunks, _, same⟩ := (wire.fresh launched).1
    exact ⟨congrArg (fun c => c.frames.decoded) same, congrArg (fun c => c.receiver.stage) same⟩
  cases eff with
  | idle stand | refuse stand | accept stand =>
    obtain ⟨unseen, unreturned, uncompared⟩ := flag.unseen (by simp [stand])
    exact { flag with
      early := fun away => ⟨(flag.early away).1, fun comparing => absurd comparing (uncompared away)⟩
      refused := fun seen => absurd seen unseen
      accepted := fun returned => absurd returned unreturned
      alert := { flag.alert with }, out := out_of rfl }
  | busy => exact absurd met (by simp [Steady])
  | send | greet => exact { flag with alert := { flag.alert with }, out := out_of rfl }
  | receiveCredentials => exact { flag with }
  | serve stand =>
    exact { flag with
      refused := fun seen => by
        have decided := (flag.refused seen).1
        rw [stand] at decided
        cases decided
      alert := { flag.alert with }, out := out_of rfl }
  | answer stand =>
    have young := (fresh (by rw [stand]; rfl)).2
    exact { flag with
      ready := fun _ _ => met, flag := by rintro ⟨⟩, early := fun away => absurd away (by rw [young]; simp)
      told := by rintro ⟨⟩, refused := by rintro ⟨⟩, accepted := by rintro ⟨⟩, out := by rintro ⟨⟩
      running := fun early _ _ => flag.running early (by simp [stand]) (by simp [stand]) }
  | reply stand =>
    have young := (fresh (by rw [stand]; rfl)).2
    exact { flag with
      ready := fun _ _ => flag.ready _ stand, flag := by rintro ⟨⟩
      early := fun away => absurd away (by rw [young]; simp)
      told := by rintro ⟨⟩, refused := by rintro ⟨⟩, accepted := by rintro ⟨⟩, out := by rintro ⟨⟩
      running := fun early _ _ => flag.running early (by simp [stand]) (by simp [stand]) }
  | startThread stand =>
    obtain ⟨none, young⟩ := fresh (by rw [stand]; rfl)
    exact { flag with
      ready := by rintro _ ⟨⟩, flag := fun _ => Or.inl ((flag.ready _ stand).trans (by rw [none]; rfl))
      early := fun away => absurd away (by rw [young]; simp)
      told := by rintro ⟨⟩, refused := by rintro ⟨⟩, accepted := by rintro ⟨⟩, out := by rintro ⟨⟩
      running := fun early _ _ => flag.running early (by simp [stand]) (by simp [stand]) }
  | poll stand told =>
    have launched : s.main.launched = true := by rw [stand]; rfl
    exact { flag with
      ready := by rintro _ ⟨⟩, flag := fun _ => flag.flag launched
      early := fun away => absurd stand (flag.early away).1
      told := fun _ => by
        obtain same | ⟨_, same⟩ := flag.flag launched
        · exact same ▸ told
        · exact absurd same told
      refused := by rintro ⟨⟩, accepted := by rintro ⟨⟩, out := by rintro ⟨⟩
      running := fun early _ _ => flag.running early (by simp [stand]) (by simp [stand]) }
  | compare stand => exact flag_of_compare wire flag stand
  | joined stand =>
    have seen : s.main.refused = true := by rw [stand]; rfl
    exact { flag with
      ready := by rintro _ ⟨⟩, flag := fun _ => flag.flag (by rw [stand]; rfl)
      early := fun _ => ⟨by rintro ⟨⟩, by rintro ⟨⟩⟩
      told := by rintro ⟨⟩, refused := fun _ => flag.refused seen, accepted := by rintro ⟨⟩
      running := fun _ _ other => absurd rfl (other false), out := fun _ => flag.out seen }
  | reset launched stand =>
    exact { flag with
      ready := fun _ _ => rfl, flag := fun _ => Or.inr ⟨rfl, rfl⟩
      resets := fun _ => by simp [stand, Disconnect.Receiver.stage] }
  | stop stand moved =>
    have launched : s.main.launched = true := by rw [stand]; rfl
    have same := Disconnect.decoded_of_other (Disconnect.effect_of_step moved) (by rintro _ ⟨⟩)
    exact flag_of_moved wire flag launched rfl (Disconnect.widen_of_step moved) rfl rfl rfl
      (Or.inr ⟨stand, rfl⟩) (by rw [same]; exact flag.flag launched) (by rintro ⟨⟩) (by rintro ⟨⟩)
      (fun _ => Or.inl rfl) later.front
  | receive launched _ moved =>
    have same := Disconnect.decoded_of_other (Disconnect.effect_of_step moved) (by rintro _ ⟨⟩)
    exact flag_of_moved wire flag launched (cut_flatten _ s) (Disconnect.widen_of_step moved) rfl rfl rfl
      (Or.inl rfl) (by rw [same]; exact flag.flag launched) (by rintro ⟨⟩) (by rintro ⟨⟩)
      (by rintro ⟨⟩) later.front
  | @client b client launched permitted moved =>
    refine flag_of_moved wire flag launched rfl (Disconnect.widen_of_step moved) rfl rfl rfl (Or.inl rfl)
      (told_of_client (flag.flag launched) moved) ?_ ?_ ?_ later.front
    · rintro rfl
      exact met
    · rintro rfl
      exact met
    · rintro rfl
      exact Or.inr (by simpa [permits] using permitted)

end DCScan.Handshake
