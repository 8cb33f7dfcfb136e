import DCScan.Framing

/-!
One direction of a connection while it lasts.

`Framing` fixes the stream and its cuts beforehand. Here the stream grows with every message that a
send thread writes, and each `ReceiveData` cuts off as much of what is under way as it happens to
return. The queue and the decode loop are those of `Framing`, and so is what their steps keep.

`Carries` ties the bytes of a link to the messages that are under way in it.
-/

namespace DCScan.Framing

open Lib Message

/-- The bytes that are sent and not received. -/
def State.wire (s : State) : List UInt8 := s.toReceive.flatten

/-- The length of a receive thread's `buffer`. -/
def recvBuffSize : Nat := 512

/-- A link over which nothing has been sent, its queue over the given block. -/
def State.idle (block : List UInt8) : State where
  queue := .create block
  toReceive := []
  received := []
  consumer := .waitHeader
  decoded := []

/-- A turn of a send thread, which writes nothing for a null pointer. -/
def State.send (s : State) (m : DefaultMessage) : State :=
  if m.ptr.isSome then { s with toReceive := [s.wire ++ frame m] } else s

/-- `ReceiveData` returns `n` bytes, and `addBytes` queues them. -/
def State.receive (s : State) (n : Nat) : Option State :=
  if 0 < n ∧ n ≤ recvBuffSize ∧ n ≤ s.wire.length then
    step { s with toReceive := [s.wire.take n, s.wire.drop n] } .addBytes
  else none

/-- The message that the decode loop makes of the bytes in its buffer. -/
def State.decodeNext (s : State) (mem : Uninit) : Option (DefaultMessage × State) :=
  (step s (.decode mem)).bind fun t => t.decoded.getLast?.map fun msg => (msg, t)

/-- The messages under way in a link, the next one first. -/
structure Carries (s : State) (ms : List DefaultMessage) : Prop where
  framed : ∀ m ∈ s.decoded ++ ms, Framed m
  inv : DecodeInv (s.decoded ++ ms) s

variable {s t : State} {ms : List DefaultMessage} {m : DefaultMessage} {mem : Uninit}

/-! ## What the steps of a link keep -/

theorem carries_idle {block : List UInt8} (size : block.length = ibBuffSize) :
    Carries (.idle block) [] where
  framed _ member := nomatch member
  inv := ⟨rfl, size, rfl, [], rfl, rfl⟩

/-- The messages under way are what the decode loop still has to make. -/
theorem Carries.holding (carries : Carries s ms) : Holding s ms := by
  obtain ⟨rest, split, holding⟩ := carries.inv.position
  rwa [List.append_cancel_left split]

theorem Carries.of_holding (framed : ∀ m ∈ s.decoded ++ ms, Framed m)
    (running : s.queue.ntfUnblock = false) (capacity : s.queue.internalBuffMaxSize = ibBuffSize)
    (accounted : s.received = s.decoded.flatMap frame ++ s.inHand ++ s.queue.contents)
    (holding : Holding s ms) : Carries s ms :=
  ⟨framed, running, capacity, accounted, ms, rfl, holding⟩

/-- A message that is sent comes behind those under way. -/
theorem Carries.send (carries : Carries s ms) (framed : Framed m) : Carries (s.send m) (ms ++ [m]) := by
  have sent : s.send m = { s with toReceive := [s.wire ++ frame m] } := if_pos framed.filled
  have inv := carries.inv
  rw [sent]
  refine .of_holding ?_ inv.running inv.capacity inv.accounted ?_
  · intro m' member
    rw [← List.append_assoc] at member
    rcases List.mem_append.mp member with before | new
    · exact carries.framed m' before
    · rwa [List.mem_singleton.mp new]
  · have behind (stream : List UInt8) (rest : List DefaultMessage)
        (there : s.queue.contents ++ s.toReceive.flatten = rest.flatMap frame) :
        s.queue.contents ++ [s.wire ++ frame m].flatten = (rest ++ [m]).flatMap frame := by
      rw [List.flatMap_append, ← there]
      simp [State.wire]
    have holding := carries.holding
    unfold Holding at holding ⊢
    cases stand : s.consumer with
    | waitHeader =>
      simp only [stand] at holding ⊢
      exact behind s.wire ms holding
    | waitBody to_read =>
      simp only [stand] at holding ⊢
      obtain ⟨stream, next, later, rfl, size⟩ := holding
      exact ⟨behind s.wire _ stream, next, later ++ [m], rfl, size⟩
    | decoding data =>
      simp only [stand] at holding ⊢
      obtain ⟨next, later, rfl, same, stream⟩ := holding
      exact ⟨next, later ++ [m], rfl, same, behind s.wire later stream⟩

/-- Only the bytes that are still to come count, not where they will be cut. -/
theorem Carries.recut {chunks : List (List UInt8)} (carries : Carries s ms)
    (same : chunks.flatten = s.wire) : Carries { s with toReceive := chunks } ms := by
  have inv := carries.inv
  refine .of_holding carries.framed inv.running inv.capacity inv.accounted ?_
  have holding := carries.holding
  unfold Holding State.wire at *
  rwa [same]

theorem Carries.of_inv (carries : Carries s ms) (same : t.decoded = s.decoded)
    (inv : DecodeInv (s.decoded ++ ms) t) : Carries t ms := by
  rw [← same] at inv
  exact ⟨by rw [same]; exact carries.framed, inv⟩

theorem Carries.receive {n : Nat} (carries : Carries s ms) (ran : s.receive n = some t) :
    Carries t ms := by
  unfold State.receive at ran
  split at ran
  · have cut : Carries { s with toReceive := [s.wire.take n, s.wire.drop n] } ms :=
      carries.recut (by simp)
    have kept := addBytes_inv cut.inv ran
    refine cut.of_inv ?_ kept
    cases effect_of_step ran with
    | addBytes => rfl
  · contradiction

theorem Carries.readHeader (carries : Carries s ms) (ran : step s .readHeader = some t) :
    Carries t ms := by
  refine carries.of_inv ?_ (readHeader_inv carries.framed carries.inv ran)
  cases effect_of_step ran <;> rfl

theorem Carries.takeBody (carries : Carries s ms) (ran : step s .takeBody = some t) :
    Carries t ms := by
  refine carries.of_inv ?_ (takeBody_inv carries.framed carries.inv ran)
  cases effect_of_step ran
  rfl

/-- What the decode loop makes is the next of the messages under way. -/
theorem Carries.decodeNext (carries : Carries s ms) (ran : s.decodeNext mem = some (m, t)) :
    ∃ rest, ms = m :: rest ∧ Framed m ∧ Carries t rest := by
  obtain ⟨after, stepped, made⟩ := Option.bind_eq_some_iff.mp ran
  obtain ⟨msg, last, both⟩ := Option.map_eq_some_iff.mp made
  cases both
  have inv := step_inv carries.framed carries.inv stepped
  cases effect_of_step stepped with
  | @decode _ data msg in_hand decoded =>
    obtain ⟨next, later, rfl, same, stream⟩ : ∃ next later, ms = next :: later ∧ data = body next ∧
        s.queue.contents ++ s.toReceive.flatten = later.flatMap frame := by
      simpa only [Holding, in_hand] using carries.holding
    have valid : Framed next := carries.framed next (by simp)
    rw [same, decode_body valid.filled valid.nonempty (by have := valid.length_lt; omega)] at decoded
    cases decoded
    rw [List.getLast?_concat, Option.some.injEq] at last
    subst last
    exact ⟨later, rfl, valid, by simpa using carries.framed, by simpa using inv⟩

/-- A frame in the loop's buffer is that of the next message, and the loop makes it, whatever the
memory held. -/
theorem Carries.decodes {data : List UInt8} (carries : Carries s ms)
    (in_hand : s.consumer = .decoding data) :
    ∃ m rest t, ms = m :: rest ∧ data = body m ∧ ∀ mem, s.decodeNext mem = some (m, t) := by
  have holding := carries.holding
  simp only [Holding, in_hand] at holding
  obtain ⟨m, later, rfl, rfl, _⟩ := holding
  have valid : Framed m := carries.framed m (by simp)
  have small := valid.length_lt
  refine ⟨m, later, { s with consumer := .waitHeader, decoded := s.decoded ++ [m] }, rfl, rfl, ?_⟩
  intro mem
  simp only [State.decodeNext, step, in_hand, decode_body valid.filled valid.nonempty (by omega),
    Option.map_some, Option.bind_some, List.getLast?_concat]

/-- The bytes of a link are the frames of what is under way. -/
theorem Carries.bytes (carries : Carries s ms) :
    s.inHand ++ s.queue.contents ++ s.wire = ms.flatMap frame := by
  have holding := carries.holding
  cases stand : s.consumer with
  | waitHeader =>
    simp only [Holding, stand] at holding
    simpa [State.inHand, stand, State.wire] using holding
  | waitBody to_read =>
    simp only [Holding, stand] at holding
    simpa [State.inHand, stand, State.wire] using holding.1
  | decoding data =>
    simp only [Holding, stand] at holding
    obtain ⟨m, later, rfl, rfl, stream⟩ := holding
    have valid : Framed m := carries.framed m (by simp)
    simp only [State.inHand, stand, State.wire, List.append_assoc, stream, List.flatMap_cons,
      frame_eq valid]

/-- Nothing is under way: the loop waits for a header, and there are no bytes. -/
theorem Carries.empty (carries : Carries s []) :
    s.consumer = .waitHeader ∧ s.queue.contents = [] ∧ s.wire = [] := by
  have bytes := carries.bytes
  rw [List.flatMap_nil, List.append_eq_nil_iff, List.append_eq_nil_iff] at bytes
  refine ⟨?_, bytes.1.2, bytes.2⟩
  have holding := carries.holding
  cases stand : s.consumer with
  | waitHeader => rfl
  | waitBody to_read =>
    simp only [Holding, stand] at holding
    obtain ⟨_, m, later, none, _⟩ := holding
    cases none
  | decoding data =>
    simp only [Holding, stand] at holding
    obtain ⟨m, later, none, _⟩ := holding
    cases none

/-! ## A message gets through -/

/-- A turn of the receive thread, or of the decode loop in `fetchNextMsg`. -/
def Fetched (s t : State) : Prop :=
  (∃ n, s.receive n = some t) ∨ step s .readHeader = some t ∨ step s .takeBody = some t

/-- Turns that only receive move what is on the wire behind the queue. -/
theorem receives_all (room : s.queue.internalBuffSize + s.wire.length ≤ s.queue.internalBuffMaxSize) :
    ∃ t, Relation.ReflTransGen Fetched s t ∧ t.wire = [] ∧
      t.queue.contents = s.queue.contents ++ s.wire ∧ t.consumer = s.consumer := by
  induction length : s.wire.length using Nat.strongRecOn generalizing s with
  | ind left ih =>
    by_cases none : s.wire = []
    · exact ⟨s, .refl, none, by rw [none, List.append_nil], rfl⟩
    · have some' : 0 < s.wire.length := List.length_pos_iff.mpr none
      let n := min recvBuffSize s.wire.length
      have positive : 0 < n := lt_min (by decide) some'
      have within : n ≤ s.wire.length := Nat.min_le_right ..
      have chunk : (s.wire.take n).length = n := by rw [List.length_take]; omega
      have fits : s.queue.roomFor (s.wire.take n).length := by unfold ByteQueue.roomFor; omega
      obtain ⟨queue, added⟩ := ByteQueue.addBytes_of_room fits
      obtain ⟨contents, capacity, _⟩ := ByteQueue.addBytes_contents added
      have sizes : queue.internalBuffSize = s.queue.internalBuffSize + n := by
        rw [← ByteQueue.contents_length, contents, List.length_append, chunk, ByteQueue.contents_length]
      let after : State := { s with
        queue := queue, toReceive := [s.wire.drop n], received := s.received ++ s.wire.take n }
      have received : s.receive n = some after := by
        simp only [State.receive, positive, within, Nat.min_le_left recvBuffSize s.wire.length, n,
          and_self, if_true, step]
        rw [added]
        rfl
      have rest : after.wire = s.wire.drop n := by simp [after, State.wire]
      obtain ⟨t, fetches, dry, queued, stand⟩ := ih (s.wire.length - n) (by omega)
        (s := after) (by simp only [after, capacity, sizes, rest, List.length_drop] at *; omega)
        (by rw [rest, List.length_drop])
      refine ⟨t, .head (.inl ⟨n, received⟩) fetches, dry, ?_, stand⟩
      rw [queued, rest, contents, List.append_assoc, List.take_append_drop]

theorem Carries.fetched (carries : Carries s ms) (fetched : Fetched s t) : Carries t ms := by
  rcases fetched with ⟨n, received⟩ | read | took
  · exact carries.receive received
  · exact carries.readHeader read
  · exact carries.takeBody took

theorem Carries.fetches (carries : Carries s ms) (fetches : Relation.ReflTransGen Fetched s t) :
    Carries t ms := by
  induction fetches with
  | refl => exact carries
  | tail _ last ih => exact ih.fetched last

/-- A frame that is whole in the queue is taken out of it. -/
theorem Carries.takes (carries : Carries s [m]) (stand : s.consumer = .waitHeader)
    (dry : s.wire = []) :
    ∃ t, Relation.ReflTransGen Fetched s t ∧ t.consumer = .decoding (body m) := by
  have framed : Framed m := carries.framed m (by simp)
  have small := framed.length_lt
  have length : (body m).length = m.size + 9 := body_length m
  have queued : s.queue.contents = frame m := by
    have bytes := carries.bytes
    simpa [State.inHand, stand, dry] using bytes
  have size : s.queue.internalBuffSize = m.size + 13 := by
    rw [← ByteQueue.contents_length, queued, frame_length]
  have calm := carries.inv.running
  have ready : s.queue.headerReady = true := by
    simp only [ByteQueue.headerReady, size, calm, Bool.or_false, decide_eq_true_eq]
    omega
  let header : State := { s with consumer := .waitBody s.queue.toRead }
  have read : step s .readHeader = some header := by simp [step, stand, ready, calm, header]
  have holding := (carries.readHeader read).holding
  obtain ⟨_, next, later, split, toRead⟩ : s.queue.contents ++ s.toReceive.flatten = [m].flatMap frame ∧
      ∃ next later, [m] = next :: later ∧ s.queue.toRead = (body next).length := holding
  cases split
  have there : s.queue.bodyReady (body m).length = true := by
    rw [ByteQueue.bodyReady, (ByteQueue.sizes_of_length (by omega)).2, size, decide_eq_true_eq]
    omega
  have whole : s.queue.contents = leBytes 4 (body m).length ++ body m ++ [] := by
    rw [queued, frame_eq framed, List.append_nil]
  obtain ⟨queue, took, _⟩ := takeBody_there framed whole
  have taken : step header .takeBody = some { header with
      queue := queue, consumer := .decoding (body m) } := by
    have positive : ((body m).length : Int) ≠ 0 := by omega
    simp only [step, header, toRead, there, took, positive, if_true, if_false, Option.map_some]
  exact ⟨_, .tail (.tail .refl (.inr (.inl read))) (.inr (.inr taken)), rfl⟩

/-- **A message that is sent into an empty link gets through.** -/
theorem Carries.delivers (carries : Carries s []) (framed : Framed m) :
    ∃ t, Relation.ReflTransGen Fetched (s.send m) t ∧ t.consumer = .decoding (body m) := by
  obtain ⟨stand, emptied, dry⟩ := carries.empty
  have sent : s.send m = { s with toReceive := [s.wire ++ frame m] } := if_pos framed.filled
  have wire : (s.send m).wire = frame m := by
    rw [sent, dry]
    exact List.append_nil _
  have held : (s.send m).queue.internalBuffSize = 0 := by
    rw [← ByteQueue.contents_length, sent]
    exact congrArg List.length emptied
  have capacity : (s.send m).queue.internalBuffMaxSize = ibBuffSize := by
    rw [sent]
    exact carries.inv.capacity
  have still : (s.send m).consumer = .waitHeader := by
    rw [sent]
    exact stand
  obtain ⟨t, fetches, dry, _, same⟩ := receives_all (s := s.send m)
    (by rw [held, wire, frame_length, capacity, Nat.zero_add]; exact framed.fits)
  obtain ⟨u, more, in_hand⟩ := ((carries.send framed).fetches fetches).takes (same.trans still) dry
  exact ⟨u, fetches.trans more, in_hand⟩

end DCScan.Framing
