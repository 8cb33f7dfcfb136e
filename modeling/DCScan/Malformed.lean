import DCScan.Framing

/-!
Frames nobody checks: what a pass of the decode loop does with whatever length prefix a peer
has sent.

The length is an `i32` that `fetchNextMsg` adds to in 64 bits and stores in an `i32`,
compares as a `u64`, and hands to `memcpy` and `Alloc`. `harmless_iff` settles every value
of it, in any state that any stream of bytes can lead to.
-/

namespace DCScan.Framing

open Lib Message

variable {chunks : List (List UInt8)} {s t : State} {a : Action} {to_read : Int} {q q' : ByteQueue}
variable {data : List UInt8} {dstSize : Nat}

/-- How many queued bytes the second wait asks for. -/
def asked (to_read : Int) : Nat := unsigned 64 (ByteQueue.packetSize to_read)

/-- A pass takes the frame out of the queue, with every copy inside both blocks, and drops it
or makes the message it encodes, whatever the memory held before. -/
def Harmless (q : ByteQueue) (to_read : Int) : Prop :=
  q.bodyReady to_read = true ∧
    ∃ data rest, q.takeBody to_read ibBuffSize = some (data, rest) ∧ (data.length : Int) = to_read ∧
      (to_read = 0 ∨ ∀ mem, ∃ msg, decode mem data = some msg ∧ body msg = data)

/-- What the second wait asks for is there, or can never be. -/
def Settled (s : State) (to_read : Int) : Prop :=
  s.queue.bodyReady to_read = true ∨ ibBuffSize < asked to_read

/-! ## The length, from wait to copy -/

/-- The `i32`s. -/
def Word (x : Int) : Prop := -2 ^ 31 ≤ x ∧ x < 2 ^ 31

theorem word_toRead (q : ByteQueue) : Word q.toRead := by
  have bounds := signed_bounds (w := 32) (by decide) (leNat (q.buffer.take 4))
  unfold Word ByteQueue.toRead
  omega

/-- From -4 on the second wait asks for the length and its prefix. -/
theorem asked_of_range (low : -4 ≤ to_read) (high : to_read + 4 < 2 ^ 31) :
    (asked to_read : Int) = to_read + 4 := by
  have packet : ByteQueue.packetSize to_read = to_read + 4 := by
    rw [ByteQueue.packetSize, signed_of_range] <;> omega
  rw [asked, packet, unsigned_of_range] <;> omega

/-- Any other length asks for more than a queue holds. -/
theorem asked_wild (word : Word to_read) (wild : to_read < -4 ∨ 2 ^ 31 ≤ to_read + 4) :
    ibBuffSize < asked to_read := by
  have negative : ByteQueue.packetSize to_read < 0 ∧ -2 ^ 32 ≤ ByteQueue.packetSize to_read := by
    unfold Word at word
    rw [ByteQueue.packetSize]
    rcases wild with below | above
    · rw [signed_of_range] <;> omega
    · rw [signed_of_high] <;> omega
  have huge : (asked to_read : Int) = ByteQueue.packetSize to_read + 2 ^ 64 := by
    rw [asked, unsigned]
    omega
  simp only [ibBuffSize]
  omega

/-- `memcpy` takes a negative length for a huge one. -/
theorem takeBody_eq_some (took : q.takeBody to_read dstSize = some (data, q')) :
    data.length = unsigned 64 to_read ∧ data.length ≤ dstSize ∧
      q'.internalBuffMaxSize = q.internalBuffMaxSize := by
  simp only [ByteQueue.takeBody, Option.ite_none_right_eq_some, Option.some.injEq, Prod.mk.injEq]
    at took
  obtain ⟨⟨inside, fits⟩, rfl, rfl⟩ := took
  have length : ((q.buffer.drop 4).take (unsigned 64 to_read)).length = unsigned 64 to_read := by
    rw [List.length_take, List.length_drop, q.buffer_length]
    omega
  exact ⟨length, length.trans_le fits, rfl⟩

/-! ## Any stream -/

/-- The queue keeps its capacity, and the length in hand is an `i32`. -/
def Measured (s : State) : Prop :=
  s.queue.internalBuffMaxSize = ibBuffSize ∧ ∀ {to_read}, s.consumer = .waitBody to_read → Word to_read

theorem step_measured (known : Measured s) (ran : step s a = some t) : Measured t := by
  obtain ⟨capacity, word⟩ := known
  cases effect_of_step ran with
  | addBytes _ added => exact ⟨(ByteQueue.addBytes_contents added).2.1.trans capacity, word⟩
  | unblocked => exact ⟨capacity, word⟩
  | readHeader =>
    refine ⟨capacity, fun waits => ?_⟩
    rw [← Consumer.waitBody.inj waits]
    exact word_toRead _
  | takeBody _ _ took =>
    refine ⟨(takeBody_eq_some took).2.2.trans capacity, fun waits => ?_⟩
    split at waits <;> cases waits
  | decode => exact ⟨capacity, by rintro _ ⟨⟩⟩

theorem reachable_measured (reached : (system chunks).Reachable s) : Measured s :=
  reached.invariant (by rintro _ ⟨block, size, rfl⟩; exact ⟨size, nofun⟩)
    fun _ _ _ known ran => step_measured known ran

/-- A frame that fits and has a payload, or nothing but its prefix, does no harm. -/
theorem harmless_of_length (capacity : q.internalBuffMaxSize = ibBuffSize)
    (ready : q.bodyReady to_read = true)
    (length : to_read = 0 ∨ 10 ≤ to_read ∧ to_read + 4 ≤ ibBuffSize) : Harmless q to_read := by
  have plain : (unsigned 64 to_read : Int) = to_read := by
    simp only [ibBuffSize] at length
    rw [unsigned_of_range] <;> omega
  have inside : 4 + unsigned 64 to_read ≤ q.internalBuffMaxSize ∧
      unsigned 64 to_read ≤ ibBuffSize := by
    rw [capacity]
    simp only [ibBuffSize] at length ⊢
    omega
  have took : ∃ data rest, q.takeBody to_read ibBuffSize = some (data, rest) := by
    simp only [ByteQueue.takeBody]
    rw [if_pos inside]
    exact ⟨_, _, rfl⟩
  obtain ⟨data, rest, took⟩ := took
  have copied := (takeBody_eq_some took).1
  refine ⟨ready, data, rest, took, by omega, length.imp_right fun payload mem => ?_⟩
  simp only [ibBuffSize] at payload
  exact ⟨_, decode_eq (by omega) (by omega), body_decoded (by omega)⟩

/-- No other length does none. -/
theorem length_of_harmless (capacity : q.internalBuffMaxSize = ibBuffSize) (word : Word to_read)
    (harmless : Harmless q to_read) :
    to_read = 0 ∨ 10 ≤ to_read ∧ to_read + 4 ≤ ibBuffSize := by
  obtain ⟨ready, data, rest, took, copied, outcome⟩ := harmless
  have held : asked to_read ≤ ibBuffSize := by
    rw [ByteQueue.bodyReady, decide_eq_true_eq] at ready
    exact ready.trans (capacity ▸ q.size_le)
  have tame : ¬(to_read < -4 ∨ 2 ^ 31 ≤ to_read + 4) := fun wild =>
    absurd held (asked_wild word wild).not_ge
  have packet : (asked to_read : Int) = to_read + 4 := asked_of_range (by omega) (by omega)
  rcases outcome with zero | decodes
  · exact Or.inl zero
  · have long : ¬data.length < 9 := fun short => by
      obtain ⟨msg, made, _⟩ := decodes .zeros
      rw [decode_short short] at made
      cases made
    have payload : data.length ≠ 9 := fun header => by
      obtain ⟨msg, made, same⟩ := decodes ⟨data.headD 0 + 1, 0, fun _ => 0⟩
      rw [decode_empty header, Option.some.injEq] at made
      subst made
      have opcode := congrArg (fun bytes : List UInt8 => (bytes.headD 0).toNat) same
      simp only [body, List.cons_append, List.headD_cons, UInt8.toNat_add, UInt8.toNat_one] at opcode
      have := (data.headD 0).toNat_lt
      omega
    exact Or.inr ⟨by omega, by omega⟩

/-- A stream of one chunk, with the length prefix read and nothing taken yet. -/
theorem header_read (chunk : List UInt8) (four : 4 ≤ chunk.length)
    (fits : chunk.length ≤ ibBuffSize) :
    ∃ s, (system [chunk]).Reachable s ∧
      s.consumer = .waitBody (signed 32 (leNat (chunk.take 4))) ∧
      s.queue.internalBuffSize = chunk.length := by
  have size : (List.replicate ibBuffSize (0 : UInt8)).length = ibBuffSize := List.length_replicate
  have room : (ByteQueue.create (List.replicate ibBuffSize 0)).roomFor chunk.length := by
    simp only [ByteQueue.roomFor, ByteQueue.create, size]
    omega
  obtain ⟨queue, added⟩ := ByteQueue.addBytes_of_room room
  obtain ⟨contents, _, running⟩ := ByteQueue.addBytes_contents added
  have held : queue.contents = chunk := by rw [contents]; simp [ByteQueue.contents, ByteQueue.create]
  have length : queue.internalBuffSize = chunk.length := by rw [← ByteQueue.contents_length, held]
  have received : (system [chunk]).Reachable
      { queue := queue, toReceive := [], received := chunk, consumer := .waitHeader, decoded := [] } := by
    have start : (system [chunk]).init
        { queue := .create (List.replicate ibBuffSize 0), toReceive := [chunk], received := [],
          consumer := .waitHeader, decoded := [] } := ⟨_, size, rfl⟩
    refine (System.Reachable.start start).next (a := .addBytes) ?_
    simp only [system, step, added, Option.map_some, List.nil_append]
  have prefixed : queue.toRead = signed 32 (leNat (chunk.take 4)) :=
    ByteQueue.toRead_of_contents (by rw [List.length_take]; omega)
      (show queue.contents = chunk.take 4 ++ chunk.drop 4 by rw [held, List.take_append_drop])
  have idle : queue.ntfUnblock = false := running
  have ready : queue.headerReady = true := by simp [ByteQueue.headerReady, length, four]
  have ran : (system [chunk]).step
      { queue := queue, toReceive := [], received := chunk, consumer := .waitHeader, decoded := [] }
      .readHeader =
      some { queue := queue, toReceive := [], received := chunk,
             consumer := .waitBody queue.toRead, decoded := [] } := by
    simp only [system, step, ready, idle, ↓reduceIte, Bool.false_eq_true]
  exact ⟨_, received.next ran, congrArg Consumer.waitBody prefixed, length⟩

/-- **Which frames do no harm.** In every state any stream can lead to, once the bytes a frame
asks for are there or can never be, the pass is harmless exactly when the length prefix is 0,
or stands for at least one byte of payload and for no more than the queue holds. -/
theorem harmless_iff (reached : (system chunks).Reachable s)
    (stands : s.consumer = .waitBody to_read) (settled : Settled s to_read) :
    Harmless s.queue to_read ↔ to_read = 0 ∨ 10 ≤ to_read ∧ to_read + 4 ≤ ibBuffSize := by
  obtain ⟨capacity, word⟩ := reachable_measured reached
  refine ⟨length_of_harmless capacity (word stands), fun length => ?_⟩
  have packet : (asked to_read : Int) = to_read + 4 := by
    simp only [ibBuffSize] at length
    exact asked_of_range (by omega) (by omega)
  have fits : ¬ibBuffSize < asked to_read := by
    simp only [ibBuffSize] at length ⊢
    omega
  exact harmless_of_length capacity (settled.resolve_right fits) length

/-- The frame of a small message is decoded. -/
theorem harmless_sample : ∃ s, (system [frame sample]).Reachable s ∧ s.consumer = .waitBody 10 ∧
    Harmless s.queue 10 := by
  obtain ⟨s, reached, stands, held⟩ := header_read (frame sample) (by decide) (by decide)
  have ten : signed 32 (leNat ((frame sample).take 4)) = 10 := by decide
  rw [ten] at stands
  have settled : Settled s 10 := Or.inl (by
    rw [ByteQueue.bodyReady, held]
    decide)
  exact ⟨s, reached, stands, (harmless_iff reached stands settled).mpr (by decide)⟩

/-- A chunk with a length that does harm. -/
def Harms (chunk : List UInt8) : Prop :=
  ∃ s to_read, (system [chunk]).Reachable s ∧ s.consumer = .waitBody to_read ∧
    s.queue.bodyReady to_read = true ∧ ¬Harmless s.queue to_read

/-- **Unchecked lengths do harm.** A length of -1 is copied as a huge one, three bytes of body are
allocated as a negative number of them, and a body without payload is dispatched on whatever
the stack held. -/
theorem malformed_frames_harm :
    Harms [255, 255, 255, 255] ∧ Harms [3, 0, 0, 0, 7, 7, 7] ∧
      Harms [9, 0, 0, 0, 7, 0, 0, 0, 0, 0, 0, 0, 0] := by
  have harm : ∀ (chunk : List UInt8) (to_read : Int), 4 ≤ chunk.length → chunk.length ≤ ibBuffSize →
      signed 32 (leNat (chunk.take 4)) = to_read → asked to_read ≤ chunk.length →
      to_read ≠ 0 → to_read < 10 → Harms chunk := by
    intro chunk to_read four fits length there nonzero small
    obtain ⟨s, reached, stands, held⟩ := header_read chunk four fits
    rw [length] at stands
    obtain ⟨capacity, word⟩ := reachable_measured reached
    refine ⟨s, to_read, reached, stands, ?_, fun harmless => ?_⟩
    · rw [ByteQueue.bodyReady, decide_eq_true_eq, held]
      exact there
    · rcases length_of_harmless capacity (word stands) harmless with zero | ⟨payload, _⟩
      · exact nonzero zero
      · omega
  refine ⟨harm _ (-1) ?_ ?_ ?_ ?_ ?_ ?_, harm _ 3 ?_ ?_ ?_ ?_ ?_ ?_, harm _ 9 ?_ ?_ ?_ ?_ ?_ ?_⟩ <;>
    decide

end DCScan.Framing
