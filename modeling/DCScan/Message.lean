import DCScan.Lib.Bytes

/-!
The messages of `message.cpp`: allocating, filling, copying and deleting a
`DefaultMessage`, and the bytes a send thread writes for one.

Memory the program has not written is an argument (`Uninit`), never a default, so what
is proved for every such argument does not depend on what the allocator returned. A
message's `size` is always the length of the block `ptr` points to, so only the block
is kept; a null pointer has size 0.
-/

namespace DCScan

open Lib

/-- `Message::InternalOperation`. -/
inductive InternalOperation where
  | NO_OP | SYNC_REQUEST | ASYNC_REQUEST | SYNC_RESPONSE | ASYNC_RESPONSE
  | EVT_SUB | EVT_RESPONSE | EVT_UNSUB | OP_ERROR | CON_VALID | DATA
  deriving DecidableEq, Repr

namespace InternalOperation

/-- The enumerators' values. -/
def code : InternalOperation → UInt8
  | NO_OP => 0
  | SYNC_REQUEST => 2
  | ASYNC_REQUEST => 3
  | SYNC_RESPONSE => 5
  | ASYNC_RESPONSE => 6
  | EVT_SUB => 7
  | EVT_RESPONSE => 8
  | EVT_UNSUB => 9
  | OP_ERROR => 10
  | CON_VALID => 11
  | DATA => 12

/-- The `static_cast` of a received opcode; `none` falls to a switch's `default`. -/
def ofCode (op : UInt8) : Option InternalOperation :=
  if op = 0 then some NO_OP
  else if op = 2 then some SYNC_REQUEST
  else if op = 3 then some ASYNC_REQUEST
  else if op = 5 then some SYNC_RESPONSE
  else if op = 6 then some ASYNC_RESPONSE
  else if op = 7 then some EVT_SUB
  else if op = 8 then some EVT_RESPONSE
  else if op = 9 then some EVT_UNSUB
  else if op = 10 then some OP_ERROR
  else if op = 11 then some CON_VALID
  else if op = 12 then some DATA
  else none

@[simp] theorem ofCode_code (op : InternalOperation) : ofCode op.code = some op := by
  cases op <;> rfl

end InternalOperation

/-- `Message::Operation`, the operations a caller may ask for. -/
inductive Operation where
  | NO_OP | REQUEST | RESPONSE | EVT_SUB | EVT_UNSUB | OP_ERROR | CON_VALID | DATA
  deriving DecidableEq, Repr

/-- The enumerators' values. -/
def Operation.code : Operation → UInt8
  | NO_OP => 0
  | REQUEST => 1
  | RESPONSE => 4
  | EVT_SUB => 7
  | EVT_UNSUB => 9
  | OP_ERROR => 10
  | CON_VALID => 11
  | DATA => 12

/-- A `DefaultMessage`: `ptr` is `nullptr` or the block it points to. -/
structure DefaultMessage where
  op : UInt8
  id : UInt64
  ptr : Option (List UInt8)
  deriving DecidableEq, Repr

namespace DefaultMessage

/-- The block's bytes; a null pointer has none. -/
def payload (m : DefaultMessage) : List UInt8 := m.ptr.getD []

def size (m : DefaultMessage) : Nat := m.payload.length

/-- The opcode as the receiving switch sees it. -/
def operation (m : DefaultMessage) : Option InternalOperation := InternalOperation.ofCode m.op

@[simp] theorem payload_mk {op : UInt8} {id : UInt64} {bytes : List UInt8} :
    payload ⟨op, id, some bytes⟩ = bytes := rfl

@[simp] theorem operation_mk {op : InternalOperation} {id : UInt64} {ptr : Option (List UInt8)} :
    operation ⟨op.code, id, ptr⟩ = some op := InternalOperation.ofCode_code op

end DefaultMessage

namespace Message

/-- `MESSAGE_XTRA_SPACE`: the opcode and the id. -/
def MESSAGE_XTRA_SPACE : Nat := 9

/-- What a stack slot and a heap block hold before they are written. -/
structure Uninit where
  op : UInt8
  id : UInt64
  heap : Nat → UInt8

/-- Memory that happens to hold zeros. -/
def Uninit.zeros : Uninit := ⟨0, 0, fun _ => 0⟩

/-- `Alloc`: the length is computed in 64 bits; `new[]` of a negative one throws. -/
def Alloc (mem : Uninit) (size : Int) : Option DefaultMessage :=
  let len := signed 64 (size - 1 - 8)
  if 0 ≤ len then some ⟨mem.op, mem.id, some ((List.range len.toNat).map mem.heap)⟩ else none

/-- `SetCopyIdAndCode`: `data` starts with the opcode and the id. -/
def SetCopyIdAndCode (msg : DefaultMessage) (data : List UInt8) : DefaultMessage :=
  if 0 < msg.size then
    { op := data.headD 0
      id := UInt64.ofNat (leNat ((data.drop 1).take 8))
      ptr := some ((data.drop 9).take msg.size) }
  else msg

/-- `SetCopyId`. -/
def SetCopyId (msg : DefaultMessage) (opcode : UInt8) (id : UInt64) (data : List UInt8) :
    DefaultMessage :=
  if 0 < msg.size then { op := opcode, id := id, ptr := some (data.take msg.size) } else msg

/-- `SetNew`: draws the next value of the process-wide counter `nid`. -/
def SetNew (nid : UInt64) (msg : DefaultMessage) (opcode : UInt8) (data : Option (List UInt8)) :
    UInt64 × DefaultMessage :=
  if 0 < msg.size then
    (nid + 1, { op := opcode
                id := nid
                ptr := match data with
                  | some bytes => some (bytes.take msg.size)
                  | none => msg.ptr })
  else (nid, msg)

/-- `Copy`: an empty message is copied without a block. -/
def Copy (msg : DefaultMessage) : DefaultMessage :=
  { msg with ptr := if 0 < msg.size then some msg.payload else none }

/-- `Delete`: the id stays. -/
def Delete (msg : DefaultMessage) : DefaultMessage := { msg with op := 0, ptr := none }

/-- How `SendSync` and `SendAsync` build the message they schedule: the total size goes
through a `u16`, and a request is marked as synchronous (1) or asynchronous (2). -/
def build (mem : Uninit) (nid : UInt64) (op : Operation) (xtra : UInt8) (data : List UInt8) :
    Option (UInt64 × DefaultMessage) :=
  let xtra_op := if op = .REQUEST then xtra else 0
  let total_size := unsigned 16 (data.length + MESSAGE_XTRA_SPACE)
  (Alloc mem total_size).map fun msg => SetNew nid msg (op.code + xtra_op) (some data)

/-- `[u8 op][u64 id][payload]`, what follows the length of a frame. -/
def body (m : DefaultMessage) : List UInt8 := m.op :: leBytes 8 m.id.toNat ++ m.payload

/-- What the send threads write for a message: `i32 full_size`, then the body. -/
def frame (m : DefaultMessage) : List UInt8 :=
  leBytes 4 (unsigned 32 (m.size + MESSAGE_XTRA_SPACE)) ++ body m

/-- The message a decode loop makes of a frame's body. -/
def decode (mem : Uninit) (data : List UInt8) : Option DefaultMessage :=
  (Alloc mem (signed 32 data.length)).map fun msg => SetCopyIdAndCode msg data

/-! ## What each operation makes -/

variable {mem : Uninit} {nid : UInt64} {m : DefaultMessage} {data : List UInt8} {size : Nat}

@[simp] theorem body_length (m : DefaultMessage) : (body m).length = m.size + 9 := by
  simp only [body, DefaultMessage.size, List.length_append, List.length_cons, leBytes_length]
  omega

@[simp] theorem frame_length (m : DefaultMessage) : (frame m).length = m.size + 13 := by
  simp only [frame, List.length_append, leBytes_length, body_length]
  omega

/-- A non-negative length is allocated as it is. -/
theorem Alloc_eq (fits : size < 2 ^ 63) :
    Alloc mem ((size + 9 : Nat) : Int) =
      some ⟨mem.op, mem.id, some ((List.range size).map mem.heap)⟩ := by
  have len : signed 64 (((size + 9 : Nat) : Int) - 1 - 8) = size := by
    rw [signed_of_range] <;> push_cast <;> omega
  simp only [Alloc, len, Int.natCast_nonneg, ↓reduceIte, Int.toNat_natCast]

/-- What a decode loop makes of the bytes it was handed, when there are enough for a header. -/
theorem decode_of_length (long : 9 ≤ data.length) (fits : data.length < 2 ^ 31) :
    decode mem data = some (SetCopyIdAndCode
      ⟨mem.op, mem.id, some ((List.range (data.length - 9)).map mem.heap)⟩ data) := by
  have whole : signed 32 (data.length : Int) = ((data.length - 9 + 9 : Nat) : Int) := by
    rw [signed_of_range] <;> push_cast <;> omega
  rw [decode, whole, Alloc_eq (by omega), Option.map_some]

/-- `new[]` throws on fewer bytes than a header has. -/
theorem decode_short (short : data.length < 9) : decode mem data = none := by
  have size : signed 32 (data.length : Int) = data.length := by
    rw [signed_of_range] <;> omega
  have negative : signed 64 ((data.length : Int) - 1 - 8) = (data.length : Int) - 1 - 8 := by
    rw [signed_of_range] <;> omega
  rw [decode, size, Alloc]
  simp only [negative]
  rw [if_neg (by omega), Option.map_none]

/-- A payload of no bytes leaves the message as the stack had it. -/
theorem decode_empty (header : data.length = 9) :
    decode mem data = some ⟨mem.op, mem.id, some []⟩ := by
  rw [decode_of_length header.ge (by omega), header]
  rfl

/-- With a payload the opcode, the id and the payload are those handed over. -/
theorem decode_eq (long : 10 ≤ data.length) (fits : data.length < 2 ^ 31) :
    decode mem data =
      some ⟨data.headD 0, UInt64.ofNat (leNat ((data.drop 1).take 8)), some (data.drop 9)⟩ := by
  have size : ((List.range (data.length - 9)).map mem.heap).length = data.length - 9 := by simp
  have whole : (data.drop 9).take (data.length - 9) = data.drop 9 :=
    List.take_of_length_le (by rw [List.length_drop])
  rw [decode_of_length (by omega) fits, SetCopyIdAndCode]
  simp only [DefaultMessage.size, DefaultMessage.payload_mk, size, whole]
  rw [if_pos (by omega)]

/-- The message is then the one whose body was handed over. -/
theorem body_decoded (long : 9 ≤ data.length) :
    body ⟨data.headD 0, UInt64.ofNat (leNat ((data.drop 1).take 8)), some (data.drop 9)⟩ = data := by
  have eight : ((data.drop 1).take 8).length = 8 := by
    rw [List.length_take, List.length_drop]
    omega
  have small := leNat_lt ((data.drop 1).take 8)
  rw [eight] at small
  have id : (UInt64.ofNat (leNat ((data.drop 1).take 8))).toNat = leNat ((data.drop 1).take 8) := by
    rw [UInt64.toNat_ofNat', Nat.mod_eq_of_lt (by simpa using small)]
  rw [body, DefaultMessage.payload_mk, id, leBytes_leNat eight]
  cases data with
  | nil => simp at long
  | cons b rest =>
    rw [List.headD_cons, List.drop_succ_cons, List.drop_zero, List.drop_succ_cons, List.cons_append,
      List.take_append_drop]

/-- **Decoding is the inverse of framing**: the body of a message with a payload gives
back its opcode, id and payload, whatever the memory held before. -/
theorem decode_body (filled : m.ptr.isSome) (nonempty : 0 < m.size) (fits : m.size + 9 < 2 ^ 31) :
    decode mem (body m) = some m := by
  obtain ⟨op, id, ptr⟩ := m
  obtain ⟨bytes, rfl⟩ := Option.isSome_iff_exists.mp filled
  simp only [DefaultMessage.size, DefaultMessage.payload_mk] at nonempty fits
  have length : (body ⟨op, id, some bytes⟩).length = bytes.length + 9 := body_length _
  have idBytes : leNat (leBytes 8 id.toNat) = id.toNat := leNat_leBytes_of_lt id.toNat_lt
  have front : (leBytes 8 id.toNat ++ bytes).take 8 = leBytes 8 id.toNat :=
    List.take_left' (leBytes_length 8 _)
  have back : (leBytes 8 id.toNat ++ bytes).drop 8 = bytes :=
    List.drop_left' (leBytes_length 8 _)
  rw [decode_eq (by omega) (by omega)]
  simp [body, idBytes, front, back]

/-- A request of up to 65526 bytes is built with its opcode, the drawn id and its data. -/
theorem build_eq {op : Operation} {xtra : UInt8} (nonempty : 0 < data.length)
    (fits : data.length + 9 < 2 ^ 16) :
    build mem nid op xtra data =
      some (nid + 1, ⟨op.code + (if op = .REQUEST then xtra else 0), nid, some data⟩) := by
  have total : (unsigned 16 (data.length + MESSAGE_XTRA_SPACE : Nat) : Int) =
      ((data.length + 9 : Nat) : Int) := by
    rw [unsigned_of_range] <;> simp only [MESSAGE_XTRA_SPACE] <;> push_cast <;> omega
  have alloc : Alloc mem ((data.length + 9 : Nat) : Int) = _ := Alloc_eq (by omega)
  simp only [build, ← total, Int.natCast_add] at alloc ⊢
  rw [alloc]
  simp [SetNew, DefaultMessage.size, nonempty]

end Message

end DCScan
