import DCScan.Message

/-!
The sizes of `SendSync` and `SendAsync`: a caller's data pointer and `i32` size, which becomes a `u16`.

`build` takes the data for the whole block; here the pointer may be null, and the size is whatever
the caller says. The size wraps at 65536, so most sizes are sent as a part of the payload, some not at
all, and 0 as a message that nobody has written.
-/

namespace DCScan.Message

open Lib

/-- The two calls. -/
inductive SendCall where
  | SendSync
  | SendAsync
  deriving DecidableEq, Repr

/-- `xtra_op` of a request. -/
def SendCall.xtra : SendCall → UInt8
  | SendSync => 1
  | SendAsync => 2

/-- `op_code`. -/
def SendCall.op_code (call : SendCall) (op : Operation) : UInt8 :=
  op.code + if op = .REQUEST then call.xtra else 0

/-- Either call up to `ScheduleTransmission`: the next id and the message that it queues, or `none` when
`Alloc` throws. -/
def SendCall.queue (call : SendCall) (mem : Uninit) (nid : UInt64) (op : Operation)
    (data : Option (List UInt8)) (size : Int) : Option (UInt64 × DefaultMessage) :=
  let total_size := unsigned 16 (size + MESSAGE_XTRA_SPACE)
  (Alloc mem total_size).map fun msg => SetNew nid msg (call.op_code op) data

/-- A block that is sent whole is what `build` makes of it. -/
theorem build_eq_queue (mem : Uninit) (nid : UInt64) (op : Operation) (call : SendCall)
    (bytes : List UInt8) :
    build mem nid op call.xtra bytes = call.queue mem nid op (some bytes) bytes.length := rfl

variable {call : SendCall} {mem : Uninit} {nid : UInt64} {op : Operation}
  {data : Option (List UInt8)} {size : Nat}

/-! ## What is queued -/

/-- The payload length that the `u16` leaves of a size. -/
def kept (size : Nat) : Nat := (size + 9) % 2 ^ 16 - 9

/-- A total that does not cover the header is refused. -/
theorem queue_refused (short : (size + 9) % 2 ^ 16 < 9) : call.queue mem nid op data size = none := by
  have total : unsigned 16 ((size : Int) + MESSAGE_XTRA_SPACE) = (size + 9) % 2 ^ 16 := by
    simp only [unsigned, MESSAGE_XTRA_SPACE]
    omega
  have negative : signed 64 (((size + 9) % 2 ^ 16 : Nat) - 1 - 8) < 0 := by
    rw [signed_of_range] <;> omega
  simp only [SendCall.queue, total, Alloc]
  rw [if_neg (by omega), Option.map_none]

/-- Any other is allocated, less the header. -/
theorem queue_eq (long : 9 ≤ (size + 9) % 2 ^ 16) :
    call.queue mem nid op data size = some (SetNew nid
      ⟨mem.op, mem.id, some ((List.range (kept size)).map mem.heap)⟩ (call.op_code op) data) := by
  have total : unsigned 16 ((size : Int) + MESSAGE_XTRA_SPACE) = kept size + 9 := by
    simp only [unsigned, MESSAGE_XTRA_SPACE, kept]
    omega
  have alloc : Alloc mem ((kept size + 9 : Nat) : Int) = _ := Alloc_eq (by unfold kept; omega)
  simp only [SendCall.queue, total]
  rw [alloc, Option.map_some]

/-- A payload of no bytes leaves the message as the stack had it. -/
theorem queue_empty (long : 9 ≤ (size + 9) % 2 ^ 16) (none : kept size = 0) :
    call.queue mem nid op data size = some (nid, ⟨mem.op, mem.id, some []⟩) := by
  rw [queue_eq long, none]
  rfl

/-- Any other payload has the opcode and the drawn id, and the bytes that the length leaves of the
data. -/
theorem queue_payload (long : 9 ≤ (size + 9) % 2 ^ 16) (some' : 0 < kept size) :
    call.queue mem nid op data size = some (nid + 1, ⟨call.op_code op, nid,
      some ((data.map fun bytes => bytes.take (kept size)).getD
        ((List.range (kept size)).map mem.heap))⟩) := by
  have length : ((List.range (kept size)).map mem.heap).length = kept size := by simp
  simp only [queue_eq long, SetNew, DefaultMessage.size, DefaultMessage.payload_mk, length, if_pos some']
  cases data <;> rfl

/-! ## The whole payload, or none -/

/-- Whatever memory held before, the call is refused, or the message it queues has the opcode, the drawn
id, and for its payload the `size` bytes at `data`. -/
def SendsWhole (call : SendCall) (nid : UInt64) (op : Operation) (data : Option (List UInt8))
    (size : Nat) : Prop :=
  ∀ mem nid' m, call.queue mem nid op data size = some (nid', m) →
    m.op = call.op_code op ∧ m.id = nid ∧ ∃ bytes, data = some bytes ∧ m.payload = bytes.take size

theorem sendsWhole_of_refused (short : (size + 9) % 2 ^ 16 < 9) :
    SendsWhole call nid op data size := by
  intro mem nid' m queued
  rw [queue_refused short] at queued
  cases queued

theorem sendsWhole_of_fits {bytes : List UInt8} (nonempty : 1 ≤ size) (fits : size ≤ 65526) :
    SendsWhole call nid op (some bytes) size := by
  intro mem nid' m queued
  have whole : kept size = size := by unfold kept; omega
  rw [queue_payload (by omega) (by omega), whole] at queued
  obtain ⟨rfl, rfl⟩ := Prod.mk.inj (Option.some.inj queued)
  exact ⟨rfl, rfl, bytes, rfl, rfl⟩

/-- A payload goes out whole when its size is one of 1 to 65526 and there is a pointer, and a call is
refused when the size wraps to less than a header; every other call queues something else. -/
theorem sendsWhole_iff (holds : ∀ bytes, data = some bytes → size ≤ bytes.length) :
    SendsWhole call nid op data size ↔
      (1 ≤ size ∧ size ≤ 65526 ∧ data ≠ none) ∨ (size + 9) % 2 ^ 16 < 9 := by
  constructor
  · intro whole
    by_contra other
    push Not at other
    obtain ⟨unfit, long⟩ := other
    by_cases empty : kept size = 0
    · -- The opcode is the stack's, so it need not be the call's.
      let mem : Uninit := ⟨call.op_code op + 1, 0, fun _ => 0⟩
      obtain ⟨op_eq, -, -⟩ := whole mem _ _ (queue_empty long empty)
      exact absurd op_eq (by simp [mem])
    · obtain ⟨-, -, bytes, rfl, payload⟩ :=
        whole .zeros _ _ (queue_payload long (Nat.pos_of_ne_zero empty))
      have enough := holds bytes rfl
      have length := congrArg List.length payload
      simp only [DefaultMessage.payload_mk, Option.map_some, Option.getD_some, List.length_take] at length
      have inside : 1 ≤ size ∧ size ≤ 65526 := by
        unfold kept at *
        omega
      exact absurd (unfit inside.1 inside.2) (Option.some_ne_none _)
  · rintro (⟨nonempty, fits, pointer⟩ | short)
    · obtain ⟨bytes, rfl⟩ := Option.ne_none_iff_exists'.mp pointer
      exact sendsWhole_of_fits nonempty fits
    · exact sendsWhole_of_refused short

/-- The payload of a message never has more bytes than were asked for. -/
theorem payload_le {nid' : UInt64} {m : DefaultMessage} {bytes : List UInt8}
    (queued : call.queue mem nid op (some bytes) size = some (nid', m)) : m.size ≤ size := by
  rcases Nat.lt_or_ge ((size + 9) % 2 ^ 16) 9 with short | long
  · rw [queue_refused short] at queued
    cases queued
  · have less : kept size ≤ size := by unfold kept; omega
    rcases Nat.eq_zero_or_pos (kept size) with empty | some'
    · rw [queue_empty long empty] at queued
      obtain ⟨rfl, rfl⟩ := Prod.mk.inj (Option.some.inj queued)
      exact Nat.zero_le _
    · rw [queue_payload long some'] at queued
      obtain ⟨rfl, rfl⟩ := Prod.mk.inj (Option.some.inj queued)
      simp only [DefaultMessage.size, DefaultMessage.payload_mk, Option.map_some, Option.getD_some,
        List.length_take]
      omega

/-- A payload that is sent whole arrives whole. -/
theorem sendsWhole_decoded {mem' : Uninit} {nid' : UInt64} {m : DefaultMessage} {bytes : List UInt8}
    (nonempty : 1 ≤ size) (fits : size ≤ 65526) (holds : bytes.length = size)
    (queued : call.queue mem nid op (some bytes) size = some (nid', m)) :
    decode mem' (body m) = some m ∧ m.payload = bytes := by
  have whole : kept size = size := by unfold kept; omega
  rw [queue_payload (by omega) (by omega), whole] at queued
  obtain ⟨rfl, rfl⟩ := Prod.mk.inj (Option.some.inj queued)
  have all : bytes.take size = bytes := List.take_of_length_le holds.le
  simp only [Option.map_some, Option.getD_some, all, DefaultMessage.payload_mk, and_true]
  refine decode_body rfl ?_ ?_ <;>
    · rw [DefaultMessage.size, DefaultMessage.payload_mk]
      omega

/-- Of 65537 bytes one is sent. -/
theorem size_wraps : ¬ SendsWhole .SendSync 0 .DATA (some (.replicate 65537 7)) 65537 := by
  intro whole
  obtain ⟨-, -, bytes, block, payload⟩ := whole .zeros _ _ (queue_payload (by decide) (by decide))
  obtain rfl := (Option.some.inj block).symm
  have one := congrArg List.length payload
  have sent : kept 65537 = 1 := by decide
  simp only [DefaultMessage.payload_mk, Option.map_some, Option.getD_some, List.length_take,
    List.length_replicate, sent] at one
  exact absurd one (by decide)

theorem sendsWhole_iff_wrapped :
    SendsWhole .SendSync 0 .DATA (some (.replicate 65537 7)) 65537 ↔
      (1 ≤ 65537 ∧ 65537 ≤ 65526 ∧ some (List.replicate 65537 (7 : UInt8)) ≠ none) ∨
        (65537 + 9) % 2 ^ 16 < 9 :=
  sendsWhole_iff fun bytes block => by
    rw [← Option.some.inj block, List.length_replicate]

end DCScan.Message
