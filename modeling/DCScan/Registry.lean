import DCScan.Lib.Table
import DCScan.Message

/-!
What the message threads use of the generated registry: the return values of calls and
the event tables. `maxSub` is the generated `MAX_SUB`, the number of registered events;
their ids are 1 to `maxSub`.
-/

namespace DCScan

open Lib Message

/-- `sizeof(SVReturn)`: the type and 1024 bytes, packed. -/
def sizeofSVReturn : Nat := 1025

/-- `SVReturn`, as its object bytes. -/
structure SVReturn where
  bytes : List UInt8
  length_eq : bytes.length = sizeofSVReturn
  deriving DecidableEq

namespace SVReturn

/-- A value of the type `type`, its other bytes zero. -/
def ofType (type : UInt8) : SVReturn := ⟨type :: List.replicate 1024 0, by
  rw [List.length_cons, List.length_replicate, sizeofSVReturn]⟩

/-- `memcpy(&ret, ptr, size)`: bytes that are not copied stay as they were; more than fit
overrun the object. -/
def read (old : SVReturn) (payload : List UInt8) : Option SVReturn :=
  if fits : payload.length ≤ sizeofSVReturn then
    some ⟨payload ++ old.bytes.drop payload.length, by
      rw [List.length_append, List.length_drop, old.length_eq]
      omega⟩
  else none

/-- `*(SVReturn*)ptr`: reads `sizeof(SVReturn)` bytes, whatever the block holds. -/
def cast (payload : List UInt8) : Option SVReturn :=
  if enough : sizeofSVReturn ≤ payload.length then
    some ⟨payload.take sizeofSVReturn, by
      rw [List.length_take]
      omega⟩
  else none

@[simp] theorem read_bytes (old r : SVReturn) : read old r.bytes = some r := by
  have none_left : old.bytes.drop sizeofSVReturn = [] := by
    rw [← old.length_eq, List.drop_length]
  simp [read, r.length_eq, none_left]

@[simp] theorem cast_bytes (r : SVReturn) : cast r.bytes = some r := by
  have whole : r.bytes.take sizeofSVReturn = r.bytes := by
    rw [← r.length_eq, List.take_length]
  simp [cast, r.length_eq, whole]

end SVReturn

/-- A reply of the server's decode loop: `Alloc(sizeof(r) + MESSAGE_XTRA_SPACE)`, then `SetCopyId`. -/
def reply (mem : Uninit) (op : InternalOperation) (id : UInt64) (r : SVReturn) :
    Option DefaultMessage :=
  (Alloc mem ((sizeofSVReturn + 9 : Nat) : Int)).map fun dm => SetCopyId dm op.code id r.bytes

theorem reply_eq (mem : Uninit) (op : InternalOperation) (id : UInt64) (r : SVReturn) :
    reply mem op id r = some ⟨op.code, id, some r.bytes⟩ := by
  have whole : r.bytes.take sizeofSVReturn = r.bytes := by
    rw [← r.length_eq, List.take_length]
  have positive : 0 < sizeofSVReturn := by decide
  rw [reply, Alloc_eq (by decide)]
  simp [SetCopyId, DefaultMessage.size, positive, whole]

/-! ## Events -/

/-- Function and data pointers, as far as they are told apart. -/
abbrev Pointer := Nat

/-- The server's `subscriptions`, initially false for every registered event. -/
def initialSubscriptions (maxSub : UInt8) (e : UInt8) : Option Bool :=
  if 1 ≤ e ∧ e ≤ maxSub then some false else none

/-- `CheckEvent`; `none` when `at()` throws. -/
def CheckEvent (maxSub : UInt8) (subscriptions : UInt8 → Option Bool) (id : UInt8) : Option Bool :=
  if id ≤ maxSub then subscriptions id else some false

/-- `SetEvent`. -/
def SetEvent (maxSub : UInt8) (subscriptions : UInt8 → Option Bool) (id : UInt8) :
    UInt8 → Option Bool :=
  if id ≤ maxSub then Function.update subscriptions id (some true) else subscriptions

/-- `UnsetEvent`. -/
def UnsetEvent (maxSub : UInt8) (subscriptions : UInt8 → Option Bool) (id : UInt8) :
    UInt8 → Option Bool :=
  if id ≤ maxSub then Function.update subscriptions id (some false) else subscriptions

/-- The erasure `RemoveEvent` makes in each of its two tables. -/
def eraseEvent (maxSub : UInt8) (table : UInt8 → Option Pointer) (id : UInt8) :
    UInt8 → Option Pointer :=
  if id ≤ maxSub then erase table id else table

/-- What `GetEventCallback` and `GetEventUserData` find. -/
inductive Lookup where
  | found (p : Pointer)
  /-- The id is above `MAX_SUB`: a null pointer is returned. -/
  | null
  /-- `at()` throws. -/
  | missing
  deriving DecidableEq

/-- The lookup `GetEventCallback` and `GetEventUserData` share. -/
def getEvent (maxSub : UInt8) (table : UInt8 → Option Pointer) (id : UInt8) : Lookup :=
  if id ≤ maxSub then
    match table id with
    | some p => .found p
    | none => .missing
  else .null

/-- `EmitEvent` behind its test: `Alloc`, the id and the data, then `SetNew` without data. -/
def eventMessage (mem : Uninit) (nid : UInt64) (EVT_ID : UInt8) (evtData : List UInt8) :
    Option (UInt64 × DefaultMessage) :=
  (Alloc mem (signed 32 ((evtData.length + 1 + 9 : Nat) : Int))).map fun msg =>
    SetNew nid { msg with ptr := some (blit (blit msg.payload 0 [EVT_ID]) 1 evtData) }
      InternalOperation.EVT_RESPONSE.code none

/-- The block behind both writes: the id, the data, and what was there beyond them. -/
private theorem event_block (block : List UInt8) (EVT_ID : UInt8) (evtData : List UInt8) :
    blit (blit block 0 [EVT_ID]) 1 evtData =
      EVT_ID :: (evtData ++ block.drop (evtData.length + 1)) := by
  simp only [blit, List.take_zero, List.nil_append, List.length_singleton, Nat.zero_add,
    List.take_succ_cons, List.cons_append, Nat.add_comm 1, List.drop_succ_cons, List.drop_drop]

theorem eventMessage_eq {mem : Uninit} {nid : UInt64} {EVT_ID : UInt8} {evtData : List UInt8}
    (fits : evtData.length + 10 < 2 ^ 31) :
    eventMessage mem nid EVT_ID evtData =
      some (nid + 1, ⟨InternalOperation.EVT_RESPONSE.code, nid, some (EVT_ID :: evtData)⟩) := by
  have len : signed 32 ((evtData.length + 1 + 9 : Nat) : Int) =
      ((evtData.length + 1 + 9 : Nat) : Int) := by
    rw [signed_of_range] <;> push_cast <;> omega
  have written : blit (blit ((List.range (evtData.length + 1)).map mem.heap) 0 [EVT_ID]) 1 evtData =
      EVT_ID :: evtData := by
    rw [event_block, List.drop_eq_nil_of_le (by simp), List.append_nil]
  rw [eventMessage, len, Alloc_eq (by omega)]
  simp [SetNew, DefaultMessage.size, DefaultMessage.payload, written]

/-- Whatever the data, the message is an event's and starts with its id. -/
theorem eventMessage_head {mem : Uninit} {nid nid' : UInt64} {EVT_ID : UInt8} {evtData : List UInt8}
    {msg : DefaultMessage} (made : eventMessage mem nid EVT_ID evtData = some (nid', msg)) :
    msg.operation = some .EVT_RESPONSE ∧ msg.payload.head? = some EVT_ID := by
  obtain ⟨block, _, filled⟩ := Option.map_eq_some_iff.mp made
  rw [event_block] at filled
  simp only [SetNew, DefaultMessage.size, DefaultMessage.payload, Option.getD_some,
    List.length_cons, Nat.zero_lt_succ, ↓reduceIte, Prod.mk.injEq] at filled
  obtain ⟨_, rfl⟩ := filled
  exact ⟨DefaultMessage.operation_mk, rfl⟩

/-! ## The flags after each operation -/

variable {maxSub e id : UInt8} {subscriptions : UInt8 → Option Bool}

/-- A flag that is set after `SetEvent` is the one that was set, or was set before. -/
theorem flag_of_SetEvent (flag : SetEvent maxSub subscriptions id e = some true) :
    e = id ∨ subscriptions e = some true := by
  unfold SetEvent at flag
  split at flag
  · by_cases same : e = id
    · exact Or.inl same
    · rw [Function.update_of_ne same] at flag
      exact Or.inr flag
  · exact Or.inr flag

/-- A flag that is set after `UnsetEvent` was set before; within `MAX_SUB` it is another one. -/
theorem flag_of_UnsetEvent (flag : UnsetEvent maxSub subscriptions id e = some true) :
    subscriptions e = some true ∧ (id ≤ maxSub → e ≠ id) := by
  unfold UnsetEvent at flag
  split at flag
  · by_cases same : e = id
    · subst same
      simp at flag
    · rw [Function.update_of_ne same] at flag
      exact ⟨flag, fun _ => same⟩
  · rename_i above
    exact ⟨flag, fun within => absurd within above⟩

/-- `EmitEvent`'s test passes for the events within `MAX_SUB` whose flags are set. -/
theorem CheckEvent_eq_true :
    CheckEvent maxSub subscriptions e = some true ↔ e ≤ maxSub ∧ subscriptions e = some true := by
  unfold CheckEvent
  split <;> simp_all

/-- `EmitEvent`'s test after `SetEvent` passes for the event set, and where it did before. -/
theorem flag_of_check_SetEvent
    (passed : CheckEvent maxSub (SetEvent maxSub subscriptions id) e = some true) :
    e = id ∨ CheckEvent maxSub subscriptions e = some true := by
  rw [CheckEvent_eq_true] at passed ⊢
  exact (flag_of_SetEvent passed.2).imp_right fun flag => ⟨passed.1, flag⟩

/-- `EmitEvent`'s test after `UnsetEvent` fails for the event unset. -/
theorem flag_of_check_UnsetEvent
    (passed : CheckEvent maxSub (UnsetEvent maxSub subscriptions id) e = some true) :
    CheckEvent maxSub subscriptions e = some true ∧ e ≠ id := by
  rw [CheckEvent_eq_true] at passed ⊢
  obtain ⟨flag, other⟩ := flag_of_UnsetEvent passed.2
  exact ⟨⟨passed.1, flag⟩, fun same => other (same ▸ passed.1) same⟩

/-! ## The server's decode switch -/

/-- What the server does with a message it has decoded: the reply it queues, and the
subscriptions it leaves. -/
structure Decoded where
  reply : Option DefaultMessage
  subscriptions : UInt8 → Option Bool

/-- The switch on the opcode; `r` is the value `Execute` produces for a request. -/
def decodeSwitch (maxSub : UInt8) (subscriptions : UInt8 → Option Bool) (msg : DefaultMessage)
    (r : SVReturn) (mem : Uninit) : Option Decoded :=
  match msg.operation with
  | some .ASYNC_REQUEST => (reply mem .ASYNC_RESPONSE msg.id r).map fun dm =>
    ⟨some dm, subscriptions⟩
  | some .SYNC_REQUEST => (reply mem .SYNC_RESPONSE msg.id r).map fun dm => ⟨some dm, subscriptions⟩
  | some .EVT_SUB => msg.payload.head?.map fun e => ⟨none, SetEvent maxSub subscriptions e⟩
  | some .EVT_UNSUB => msg.payload.head?.map fun e => ⟨none, UnsetEvent maxSub subscriptions e⟩
  | _ => some ⟨none, subscriptions⟩

/-- A request is answered under its id and changes no subscription; other messages are not answered. -/
theorem decodeSwitch_reply {msg : DefaultMessage} {r : SVReturn} {mem : Uninit} {d : Decoded}
    (ran : decodeSwitch maxSub subscriptions msg r mem = some d) :
    d = ⟨some ⟨InternalOperation.ASYNC_RESPONSE.code, msg.id, some r.bytes⟩, subscriptions⟩ ∧
        msg.operation = some .ASYNC_REQUEST ∨
      d = ⟨some ⟨InternalOperation.SYNC_RESPONSE.code, msg.id, some r.bytes⟩, subscriptions⟩ ∧
        msg.operation = some .SYNC_REQUEST ∨
      d.reply = none := by
  simp only [decodeSwitch, reply_eq, Option.map_some] at ran
  split at ran
  · rename_i request
    cases ran
    exact Or.inl ⟨rfl, request⟩
  · rename_i request
    cases ran
    exact Or.inr (Or.inl ⟨rfl, request⟩)
  · obtain ⟨e, _, rfl⟩ := Option.map_eq_some_iff.mp ran
    exact Or.inr (Or.inr rfl)
  · obtain ⟨e, _, rfl⟩ := Option.map_eq_some_iff.mp ran
    exact Or.inr (Or.inr rfl)
  · cases ran
    exact Or.inr (Or.inr rfl)

end DCScan
