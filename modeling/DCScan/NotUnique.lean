import DCScan.Position

/-!
A client that comes while another one is served.

It takes 48 bytes of the first frame for the challenge. What is left of that frame is text, and its
first four bytes are a length that no queue holds: the decode thread waits for a body that never
comes, no verdict is decoded, and `StartThread` stays in its loop.
-/

namespace DCScan.Disconnect

open Lib Message

variable {s t : State} {a : Action} {tail : List UInt8}

/-- The length that a client makes of the first four bytes. -/
def strayLength (tail : List UInt8) : Int := signed 32 (leNat (tail.take 4))

/-- The decode thread has not got past what it takes for the first length. -/
structure Astray (tail : List UInt8) (s : State) : Prop where
  consumer : s.decoder ≠ .finished →
    s.frames.consumer = .waitHeader ∨ s.frames.consumer = .waitBody (strayLength tail)
  queued : s.decoder ≠ .finished → s.frames.queue.contents ++ s.frames.toReceive.flatten = tail
  capacity : s.decoder ≠ .finished → s.frames.queue.internalBuffMaxSize = Framing.ibBuffSize
  ended : 5 ≤ s.receiver.stage → s.decoder = .finished
  decoded : s.frames.decoded = []

/-- The length is read from the stream. -/
theorem toRead_of_stream {q : ByteQueue} {later : List UInt8} (four : 4 ≤ q.internalBuffSize)
    (queued : q.contents ++ later = tail) : q.toRead = strayLength tail := by
  have enough : 4 ≤ q.contents.length := by rwa [ByteQueue.contents_length]
  have lead : tail.take 4 = q.contents.take 4 := by
    rw [← queued, List.take_append_of_le_length enough]
  have size : (q.contents.take 4).length = 4 := by rw [List.length_take, min_eq_left enough]
  rw [ByteQueue.toRead_of_contents size (List.take_append_drop 4 _).symm, strayLength, lead]

theorem astray_withStream {chunks : List (List UInt8)} (astray : Astray tail s)
    (same : chunks.flatten = s.frames.toReceive.flatten) : Astray tail (s.withStream chunks) :=
  { astray with queued := fun going => by rw [← astray.queued going, ← same]; rfl }

theorem astray_of_fetched
    (stray : Framing.ibBuffSize < unsigned 64 (ByteQueue.packetSize (strayLength tail)))
    (astray : Astray tail s) (going : s.decoder ≠ .finished) (fetched : Fetched s t) :
    Astray tail t := by
  have consumer := astray.consumer going
  have queued := astray.queued going
  have early : 5 ≤ s.receiver.stage → s.decoder = .finished := astray.ended
  cases fetched with
  | blocks | leaves =>
    exact ⟨fun _ => consumer, fun _ => queued, fun _ => astray.capacity going,
      fun late => absurd (early late) going, astray.decoded⟩
  | header at_header calm ran =>
    have four : 4 ≤ s.frames.queue.internalBuffSize := by
      by_contra few
      simp [Framing.step, at_header, ByteQueue.headerReady, calm, few] at ran
    exact ⟨fun _ => Or.inr (by rw [toRead_of_stream four queued]), fun _ => queued,
      fun _ => astray.capacity going, fun late => absurd (early late) going, astray.decoded⟩
  | body at_body there =>
    obtain waits | waits := consumer
    · rw [at_body] at waits
      cases waits
    · rw [at_body, Framing.Consumer.waitBody.injEq] at waits
      have room := s.frames.queue.size_le
      rw [astray.capacity going] at room
      rw [waits, ByteQueue.bodyReady, decide_eq_true_eq] at there
      exact absurd (there.trans room) (Nat.not_le.mpr stray)

theorem astray_step
    (stray : Framing.ibBuffSize < unsigned 64 (ByteQueue.packetSize (strayLength tail)))
    (astray : Astray tail s) (eff : Effect s a t) : Astray tail t := by
  obtain ⟨consumer, queued, capacity, ended, decoded⟩ := astray
  have decoding {d : Decoder} (stand : s.decoder = d) (other : d ≠ .finished) :
      s.decoder ≠ .finished := by rwa [stand]
  cases eff with
  | receive stand _ ran =>
    cases Framing.effect_of_step ran with
    | addBytes pending added =>
      obtain ⟨contents, same, _⟩ := ByteQueue.addBytes_contents added
      refine ⟨consumer, fun going => ?_, fun going => same.trans (capacity going),
        by simp [Receiver.stage], decoded⟩
      rw [← queued going, contents, pending, List.flatten_cons, List.append_assoc]
  | notifyOne | notifyAll =>
    exact ⟨fun going => consumer (wake_finished.not.mp going),
      fun going => queued (wake_finished.not.mp going),
      fun going => capacity (wake_finished.not.mp going), by simp [Receiver.stage], decoded⟩
  | leave | clear | store =>
    exact ⟨consumer, queued, capacity, by simp [Receiver.stage], decoded⟩
  | join _ finished =>
    exact ⟨consumer, queued, capacity, fun _ => finished, decoded⟩
  | restartQueue stand =>
    have finished := ended (by simp [stand, Receiver.stage])
    exact ⟨fun going => absurd finished going, fun going => absurd finished going,
      fun going => absurd finished going, fun _ => finished, decoded⟩
  | stop => exact ⟨consumer, queued, capacity, ended, decoded⟩
  | test stand | count stand | block stand | spurious stand =>
    have going := decoding stand (by simp)
    exact ⟨fun _ => consumer going, fun _ => queued going, fun _ => capacity going,
      fun late => absurd (ended late) going, decoded⟩
  | fetch _ stand fetched =>
    have going : s.decoder ≠ .finished := by rcases stand with same | same | same <;> simp [same]
    exact astray_of_fetched stray ⟨consumer, queued, capacity, ended, decoded⟩ going fetched
  | decode stand in_hand =>
    obtain waits | waits := consumer (decoding stand (by simp)) <;>
      · rw [in_hand] at waits
        cases waits
  | restart => exact ⟨fun going => absurd rfl going, fun going => absurd rfl going,
      fun going => absurd rfl going, fun _ => rfl, decoded⟩

end DCScan.Disconnect

namespace DCScan.Handshake

open Lib Message
open Disconnect (Astray)

variable {accounts : Accounts} {challenge : Challenge} {username password : List UInt8}
variable {s t : State} {a : Action}

/-- The server serves another client, and the flag is at `C_WAIT` when this one logs in. -/
def Occupied (s : State) : Action → Prop
  | .test served => served ≠ none
  | .answer _ => s.connValid = .C_WAIT
  | _ => True

/-- The client gets no further than its loop. -/
structure Lost (s : State) : Prop where
  server : s.server = .testing ∧ s.main = .challenged ∧ s.sent = [] ∨
    s.server = .decided false ∧ ∃ ip, s.sent = notUnique ip
  main : s.main.launched = true → s.main = .polling
  fresh : s.main.launched = false → Fresh s.view ∧
    s.greeting ++ s.view.frames.toReceive.flatten = s.sent.flatMap frame
  within : s.greeting.length ≤ 48
  whole : s.main ≠ .challenged → s.greeting.length = 48
  astray : s.main.launched = true → Astray ((s.sent.flatMap frame).drop 48) s.view
  waits : s.main ≠ .challenged → s.connValid = .C_WAIT

/-- Behind 48 bytes the first message ends with `onnection.`, and no queue is that long. -/
theorem stray_of_notUnique (ip : List UInt8) : Framing.ibBuffSize <
    unsigned 64 (ByteQueue.packetSize
      (Disconnect.strayLength (((notUnique ip).flatMap frame).drop 48))) := by
  have first : (((notUnique ip).flatMap frame).drop 48).take 4 = [111, 110, 110, 101] := by
    rw [notUnique, List.flatMap_cons, List.drop_append_of_le_length (by decide),
      List.take_append_of_le_length (by decide)]
    decide
  rw [Disconnect.strayLength, first]
  decide

/-- The client has read of what the server has sent. -/
theorem Lost.refused (lost : Lost s) (later : s.main ≠ .challenged) :
    s.server = .decided false ∧ ∃ ip, s.sent = notUnique ip :=
  lost.server.resolve_left fun first => later first.2.1

theorem Lost.stray (lost : Lost s) (launched : s.main.launched = true) : Framing.ibBuffSize <
    unsigned 64 (ByteQueue.packetSize (Disconnect.strayLength ((s.sent.flatMap frame).drop 48))) := by
  obtain ⟨_, ip, sent⟩ := lost.refused (by rw [lost.main launched]; simp)
  rw [sent]
  exact stray_of_notUnique ip

/-- A step of the client's threads. -/
theorem lost_of_moved {b : Disconnect.Action} {chunks : List (List UInt8)} {c : Disconnect.State}
    (lost : Lost s) (launched : s.main.launched = true)
    (cut : chunks.flatten = s.view.frames.toReceive.flatten)
    (moved : Disconnect.step (s.view.withStream chunks) b = some (c.widen s.sending)) :
    Lost { s with client := c, connValid := stored s.connValid c b } := by
  have astray := Disconnect.astray_step (lost.stray launched)
    (Disconnect.astray_withStream (lost.astray launched) cut) (Disconnect.effect_of_step moved)
  have later : s.main ≠ .challenged := by rw [lost.main launched]; simp
  have waits : stored s.connValid c b = .C_WAIT := by
    cases b with
    | decode mem =>
      obtain ⟨msg, grown⟩ := Disconnect.decoded_of_decode moved
      rw [astray.decoded] at grown
      exact absurd grown.symm (by simp)
    | _ => exact lost.waits later
  exact { lost with
    fresh := fun before => by
      rw [show s.main.launched = false from before] at launched
      cases launched
    astray := fun _ => astray
    waits := fun _ => waits }

/-- The threads start at the 49th byte. -/
theorem astray_of_fresh {c : Disconnect.State} {bytes : List UInt8} (fresh : Fresh c)
    (stream : s.greeting ++ c.frames.toReceive.flatten = bytes) (whole : s.greeting.length = 48) :
    Astray (bytes.drop 48) c := by
  obtain ⟨block, chunks, size, rfl⟩ := fresh
  refine ⟨fun _ => Or.inl rfl, fun _ => ?_, fun _ => size, by simp [Disconnect.Receiver.stage], rfl⟩
  rw [← stream, ← whole, List.drop_left]
  simp [ByteQueue.contents, ByteQueue.create]

theorem lost_step (lost : Lost s) (met : Occupied s a) (eff : Effect challenge s a t) : Lost t := by
  cases eff with
  | idle => exact absurd rfl met
  | @busy ip stand =>
    obtain ⟨_, challenged, nothing⟩ | ⟨decided, _⟩ := lost.server
    · have unlaunched : s.main.launched = false := by rw [challenged]; rfl
      obtain ⟨fresh, stream⟩ := lost.fresh unlaunched
      rw [nothing] at stream
      obtain ⟨empty, none⟩ := List.append_eq_nil_iff.mp stream
      have before : s.client.frames.toReceive.flatten = [] :=
        (List.append_eq_nil_iff.mp (List.flatten_append.symm.trans none)).1
      have kept : Fresh (s.view.withStream
        (s.client.frames.toReceive ++ (notUnique ip).flatMap sends)) := fresh_withStream _ fresh
      refine { lost with
        server := Or.inr ⟨rfl, ip, congrArg (· ++ notUnique ip) nothing⟩, fresh := fun _ => ⟨kept, ?_⟩
        astray := fun launched => ?_ }
      · change s.greeting ++ (s.client.frames.toReceive ++ (notUnique ip).flatMap sends).flatten =
          (s.sent ++ notUnique ip).flatMap frame
        rw [empty, nothing, List.flatten_append, before, flatten_flatMap_sends]
        rfl
      · rw [show s.main.launched = true from launched] at unlaunched
        cases unlaunched
    · rw [stand] at decided
      cases decided
  | send stand =>
    have same := view_of_send stand
    exact { lost with
      fresh := by
        change s.main.launched = false → Fresh (Disconnect.State.widen _ _) ∧ _
        rw [State.view, same]
        exact lost.fresh
      astray := by
        change s.main.launched = true → Astray _ (Disconnect.State.widen _ _)
        rw [same]
        exact lost.astray }
  | receiveCredentials stand | refuse stand | accept stand | serve stand =>
    obtain ⟨testing, _⟩ | ⟨decided, _⟩ := lost.server
    · rw [stand] at testing
      cases testing
    · rw [stand] at decided
      cases decided
  | @greet n stand asked there =>
    have unlaunched : s.main.launched = false := by rw [stand]; rfl
    obtain ⟨fresh, stream⟩ := lost.fresh unlaunched
    have kept : Fresh (s.view.withStream ([s.down.drop n] ++ s.sending)) := fresh_withStream _ fresh
    refine { lost with
      fresh := fun _ => ⟨kept, (stream_of_greet n s).trans stream⟩
      within := within_of_greet lost.within asked there, whole := fun later => absurd stand later
      astray := fun launched => ?_ }
    rw [show s.main.launched = true from launched] at unlaunched
    cases unlaunched
  | answer stand whole =>
    obtain ⟨_, _, nothing⟩ | refused := lost.server
    · have stream := (lost.fresh (by rw [stand]; rfl)).2
      rw [nothing] at stream
      rw [(List.append_eq_nil_iff.mp stream).1] at whole
      cases whole
    · exact { lost with
        server := Or.inr refused, main := by rintro ⟨⟩, fresh := fun _ => lost.fresh (by rw [stand]; rfl)
        whole := fun _ => whole, astray := by rintro ⟨⟩, waits := fun _ => met }
  | reply stand =>
    have later : s.main ≠ .challenged := by simp [stand]
    exact { lost with
      server := Or.inr (lost.refused later), main := by rintro ⟨⟩
      fresh := fun _ => lost.fresh (by rw [stand]; rfl)
      whole := fun _ => lost.whole later, astray := by rintro ⟨⟩, waits := fun _ => lost.waits later }
  | startThread stand =>
    have later : s.main ≠ .challenged := by simp [stand]
    obtain ⟨fresh, stream⟩ := lost.fresh (by rw [stand]; rfl)
    exact { lost with
      server := Or.inr (lost.refused later), main := fun _ => rfl, fresh := by rintro ⟨⟩
      whole := fun _ => lost.whole later, waits := fun _ => lost.waits later
      astray := fun _ => astray_of_fresh fresh stream (lost.whole later) }
  | poll stand told => exact absurd (lost.waits (by simp [stand])) told
  | compare stand | stop stand | joined stand =>
    have polls := lost.main (by rw [stand]; rfl)
    rw [stand] at polls
    cases polls
  | reset launched => exact { lost with waits := fun _ => rfl }
  | receive launched there moved =>
    exact lost_of_moved lost launched (cut_flatten _ s) (Disconnect.widen_of_step moved)
  | client launched permitted moved =>
    exact lost_of_moved lost launched rfl (Disconnect.widen_of_step moved)

/-- **A client that is not unique is never told so**: its `StartThread` does not return, however the
server's frames arrive and whatever its threads do. -/
theorem not_unique_never_returns
    (reached : (system accounts challenge username password).ReachableBy Occupied s) (b : Bool) :
    s.main ≠ .returned b := by
  have lost : Lost s := by
    refine reached.invariant (?_ : ∀ s, (system accounts challenge username password).init s → Lost s)
      fun s a t lost met ran => lost_step lost met (effect_of_step ran)
    rintro _ ⟨frames, v, ⟨block, size, rfl⟩, rfl⟩
    exact ⟨Or.inl ⟨rfl, rfl, rfl⟩, nofun, fun _ => ⟨⟨block, [], size, rfl⟩, rfl⟩, by simp,
      fun later => absurd rfl later, nofun, fun later => absurd rfl later⟩
  intro returned
  have polls := lost.main (by rw [returned]; rfl)
  rw [returned] at polls
  cases polls

end DCScan.Handshake
