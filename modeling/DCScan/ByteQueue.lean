import DCScan.Lib.Bytes

/-!
`Utils::ByteQueue`: a block of memory whose first `internal_buff_size` bytes are the
queued ones. `addBytes` copies behind them; `fetchNextMsg` waits for a length prefix,
waits for the rest of that frame, copies the body out and moves what is left to the
front.

Each blocking wait is a guard of its own (`roomFor`, `headerReady`, `bodyReady`), since
other threads run while the mutex is released there. What the operations do to the
queued bytes is said of `contents` alone; the block behind them never shows.
-/

namespace DCScan

open Lib

structure ByteQueue where
  buffer : List UInt8
  internalBuffSize : Nat
  internalBuffMaxSize : Nat
  ntfUnblock : Bool
  /-- `buffer` is `new u8[internal_buff_max_size]`. -/
  buffer_length : buffer.length = internalBuffMaxSize
  size_le : internalBuffSize ≤ internalBuffMaxSize

namespace ByteQueue

/-- The queued bytes. -/
def contents (q : ByteQueue) : List UInt8 := q.buffer.take q.internalBuffSize

/-- The constructor: an empty queue over a block nothing was written to. -/
def create (block : List UInt8) : ByteQueue where
  buffer := block
  internalBuffSize := 0
  internalBuffMaxSize := block.length
  ntfUnblock := false
  buffer_length := rfl
  size_le := Nat.zero_le _

/-- `addBytes`'s wait. -/
def roomFor (q : ByteQueue) (size : Nat) : Prop := q.internalBuffSize + size ≤ q.internalBuffMaxSize

instance (q : ByteQueue) (size : Nat) : Decidable (q.roomFor size) :=
  inferInstanceAs (Decidable (_ ≤ _))

/-- `addBytes`; `none` while it waits for room. -/
def addBytes (q : ByteQueue) (data : List UInt8) : Option ByteQueue :=
  if room : q.roomFor data.length then
    some { q with
      buffer := blit q.buffer q.internalBuffSize data
      internalBuffSize := q.internalBuffSize + data.length
      buffer_length := (blit_length (by rw [q.buffer_length]; exact room)).trans q.buffer_length
      size_le := room }
  else none

/-- The first wait of `fetchNextMsg`. -/
def headerReady (q : ByteQueue) : Bool := 4 ≤ q.internalBuffSize || q.ntfUnblock

/-- `to_read`: the `i32` in the first four bytes. -/
def toRead (q : ByteQueue) : Int := signed 32 (leNat (q.buffer.take 4))

/-- `packet_size`: `to_read + sizeof(i32)`, computed in 64 bits and stored in an `i32`. -/
def packetSize (to_read : Int) : Int := signed 32 (to_read + 4)

/-- The second wait: the comparison is unsigned, so a negative size is never there. -/
def bodyReady (q : ByteQueue) (to_read : Int) : Bool :=
  unsigned 64 (packetSize to_read) ≤ q.internalBuffSize

/-- What follows the second wait: the body goes to `buffer_dst`, a block of `dstSize`
bytes, and the remaining bytes move to the front. `none` when a copy leaves a block. -/
def takeBody (q : ByteQueue) (to_read : Int) (dstSize : Nat) : Option (List UInt8 × ByteQueue) :=
  let len := unsigned 64 to_read
  let packet := unsigned 64 (packetSize to_read)
  let left := q.internalBuffSize - packet
  if 4 + len ≤ q.internalBuffMaxSize ∧ len ≤ dstSize then
    some ((q.buffer.drop 4).take len,
      { q with
        buffer := blit q.buffer 0 ((q.buffer.drop packet).take left)
        internalBuffSize := left
        buffer_length := by
          have room := q.size_le
          rw [blit_length, q.buffer_length]
          rw [List.length_take, q.buffer_length]
          omega
        size_le := (Nat.sub_le _ _).trans q.size_le })
  else none

/-- `notify_unblock`. -/
def notifyUnblock (q : ByteQueue) : ByteQueue := { q with ntfUnblock := true }

/-- `notify_restart`: a fresh block, nothing queued, nobody asked to leave. -/
def notifyRestart (q : ByteQueue) (block : List UInt8)
    (fresh : block.length = q.internalBuffMaxSize) :
    ByteQueue where
  buffer := block
  internalBuffSize := 0
  internalBuffMaxSize := q.internalBuffMaxSize
  ntfUnblock := false
  buffer_length := fresh
  size_le := Nat.zero_le _

/-! ## The operations on the queued bytes -/

variable {q q' : ByteQueue} {data body rest : List UInt8} {to_read : Int} {dstSize : Nat}

/-- `notify_restart` leaves what the constructor made, whatever was queued. -/
theorem notifyRestart_eq (q : ByteQueue) (block : List UInt8)
    (fresh : block.length = q.internalBuffMaxSize) :
    q.notifyRestart block fresh = create block := by
  simp only [notifyRestart, create, fresh]

@[simp] theorem contents_length (q : ByteQueue) : q.contents.length = q.internalBuffSize := by
  have room := q.size_le
  rw [contents, List.length_take, q.buffer_length]
  omega

/-- `addBytes` appends. -/
theorem addBytes_contents (added : q.addBytes data = some q') :
    q'.contents = q.contents ++ data ∧ q'.internalBuffMaxSize = q.internalBuffMaxSize ∧
      q'.ntfUnblock = q.ntfUnblock := by
  unfold addBytes at added
  split at added
  · rename_i room
    cases added
    exact ⟨blit_take (by rw [q.buffer_length]; exact room), rfl, rfl⟩
  · contradiction

theorem addBytes_of_room (room : q.roomFor data.length) : ∃ q', q.addBytes data = some q' :=
  ⟨_, dif_pos room⟩

/-- The first bytes of the block are the first queued bytes. -/
theorem take_buffer (q : ByteQueue) {n : Nat} (queued : n ≤ q.internalBuffSize) :
    q.buffer.take n = q.contents.take n := by
  rw [contents, List.take_take, min_eq_left queued]

/-- The length prefix is read from the queued bytes once four of them are there. -/
theorem toRead_of_contents {lengthBytes : List UInt8} (four : lengthBytes.length = 4)
    (queued : q.contents = lengthBytes ++ rest) : q.toRead = signed 32 (leNat lengthBytes) := by
  have enough : 4 ≤ q.internalBuffSize := by
    rw [← contents_length, queued, List.length_append]
    omega
  rw [toRead, take_buffer q enough, queued, List.take_left' four]

/-- A positive length is the number of bytes that are copied and, with the prefix, the
number of bytes that leave the queue. -/
theorem sizes_of_length {n : Nat} (small : n + 4 < 2 ^ 31) :
    unsigned 64 (n : Int) = n ∧ unsigned 64 (packetSize n) = n + 4 := by
  have packet : packetSize n = ((n + 4 : Nat) : Int) := by
    rw [packetSize, signed_of_range] <;> push_cast <;> omega
  have plain : (unsigned 64 (n : Int) : Int) = n := unsigned_of_range (by omega) (by omega)
  have whole : (unsigned 64 ((n + 4 : Nat) : Int) : Int) = ((n + 4 : Nat) : Int) :=
    unsigned_of_range (by omega) (by omega)
  rw [packet]
  omega

/-- **Taking a body** removes exactly the frame's bytes from the front of the queue. -/
theorem takeBody_contents {lengthBytes : List UInt8} (four : lengthBytes.length = 4)
    (small : body.length + 4 < 2 ^ 31) (fits : body.length ≤ dstSize)
    (queued : q.contents = lengthBytes ++ body ++ rest) :
    ∃ q', q.takeBody body.length dstSize = some (body, q') ∧ q'.contents = rest ∧
      q'.internalBuffMaxSize = q.internalBuffMaxSize ∧ q'.ntfUnblock = q.ntfUnblock := by
  obtain ⟨len, packet⟩ := sizes_of_length small
  have held := q.size_le
  have size : q.internalBuffSize = 4 + body.length + rest.length := by
    rw [← contents_length, queued]
    simp only [List.length_append, four]
  have whole : q.buffer = lengthBytes ++ body ++ rest ++ q.buffer.drop q.internalBuffSize := by
    rw [← queued, contents, List.take_append_drop]
  have copied : (q.buffer.drop 4).take body.length = body := by
    rw [whole, List.append_assoc, List.append_assoc, List.drop_left' four, List.take_left' rfl]
  have front : (lengthBytes ++ body).length = body.length + 4 := by
    rw [List.length_append, four, Nat.add_comm]
  have left : q.internalBuffSize - (body.length + 4) = rest.length := by omega
  have moved : (q.buffer.drop (body.length + 4)).take (q.internalBuffSize - (body.length + 4)) =
      rest := by
    rw [left, whole, List.append_assoc (lengthBytes ++ body), List.drop_left' front,
      List.take_left' rfl]
  simp only [takeBody, len, packet, copied, moved]
  rw [if_pos (by omega)]
  refine ⟨_, rfl, ?_, rfl, rfl⟩
  simp only [contents, left]
  exact blit_zero_take

/-- Whatever its length, a body leaves the queue with its prefix from the front. -/
theorem contents_of_takeBody (there : q.bodyReady to_read = true)
    (took : q.takeBody to_read dstSize = some (body, q')) :
    q'.contents = q.contents.drop (unsigned 64 (packetSize to_read)) := by
  simp only [bodyReady, decide_eq_true_eq] at there
  simp only [takeBody, Option.ite_none_right_eq_some, Option.some.injEq, Prod.mk.injEq] at took
  obtain ⟨_, _, rfl⟩ := took
  have room := q.size_le
  have length : ((q.buffer.drop (unsigned 64 (packetSize to_read))).take
      (q.internalBuffSize - unsigned 64 (packetSize to_read))).length =
        q.internalBuffSize - unsigned 64 (packetSize to_read) := by
    rw [List.length_take, List.length_drop, q.buffer_length]
    omega
  rw [contents, contents, List.drop_take]
  exact (congrArg (fun n => (blit q.buffer 0 _).take n) length.symm).trans blit_zero_take

end ByteQueue

end DCScan
