import DCScan.Lib.Writes
import DCScan.Registry

/-!
The send loops of the server and of the client, over a socket whose `send` may accept less than it is
offered.

A message is sent by four calls of `SendData`, and none of their results is looked at: what one of
them leaves out is sent by no later call.
-/

namespace DCScan.Transmission

open Lib Message

/-- A message of `outbound_data_queue`: `Alloc` takes its size as an `i32`. -/
structure Queued extends DefaultMessage where
  small : toDefaultMessage.size + MESSAGE_XTRA_SPACE < 2 ^ 31

theorem Alloc_small {mem : Uninit} {size : Int} {m : DefaultMessage} (fits : size < 2 ^ 31)
    (positive : 0 ≤ size) (allocated : Alloc mem size = some m) :
    m.size + MESSAGE_XTRA_SPACE < 2 ^ 31 := by
  have len : signed 64 (size - 1 - 8) = size - 1 - 8 := by
    rw [signed_of_range] <;> omega
  simp only [Alloc, len] at allocated
  split at allocated
  · cases allocated
    simp only [DefaultMessage.size, DefaultMessage.payload_mk, List.length_map, List.length_range,
      MESSAGE_XTRA_SPACE]
    omega
  · cases allocated

/-- The messages of `SendSync` and `SendAsync` are such. -/
theorem build_small {mem : Uninit} {nid nid' : UInt64} {op : Operation} {xtra : UInt8}
    {data : List UInt8} {m : DefaultMessage}
    (built : build mem nid op xtra data = some (nid', m)) :
    m.size + MESSAGE_XTRA_SPACE < 2 ^ 31 := by
  obtain ⟨msg, allocated, new⟩ := Option.map_eq_some_iff.mp built
  have short : unsigned 16 ((data.length + MESSAGE_XTRA_SPACE : Nat) : Int) < 2 ^ 16 := by
    unfold unsigned
    omega
  have small := Alloc_small (by push_cast at short ⊢; omega) (Int.natCast_nonneg _) allocated
  unfold SetNew at new
  split at new
  · cases new
    simp only [DefaultMessage.size, DefaultMessage.payload_mk, List.length_take] at small ⊢
    omega
  · cases new
    exact small

/-- So are the replies. -/
theorem reply_small {mem : Uninit} {op : InternalOperation} {id : UInt64} {r : SVReturn}
    {m : DefaultMessage} (built : reply mem op id r = some m) :
    m.size + MESSAGE_XTRA_SPACE < 2 ^ 31 := by
  rw [reply_eq] at built
  cases built
  rw [DefaultMessage.size, DefaultMessage.payload_mk, r.length_eq]
  decide

/-- A socket: whether it has been closed here, what the peer has received, and how many bytes each of
the next calls of `send` will accept. -/
structure Socket where
  closed : Bool
  received : List UInt8
  results : List Nat
  deriving DecidableEq

def SOCKET_ERROR : Int := -1

/-- `send`: the first `n` bytes that are offered; no more on a closed socket. -/
def send (client : Socket) (buffer : List UInt8) (buff_len : Int) : Socket × Int :=
  match client.results with
  | [] => (client, SOCKET_ERROR)
  | n :: results =>
    if client.closed ∨ buff_len < n then ({ client with results }, SOCKET_ERROR)
    else ({ client with results, received := client.received ++ buffer.take n }, n)

def SendGenericData (client : Socket) (buffer : List UInt8) (buff_len : Int) : Socket × Int :=
  let (client, iSResult) := send client buffer buff_len
  if 0 < iSResult then (client, iSResult) else ({ client with closed := true }, -1)

def SendData (client : Socket) (buffer : List UInt8) (buff_len : Int) : Socket × Int :=
  SendGenericData client buffer buff_len

/-- What the loops do with the message that `pop` has returned. -/
def sendMessage (client : Socket) (to_send : DefaultMessage) : Socket :=
  match to_send.ptr with
  | none => client
  | some ptr =>
    let full_size := unsigned 32 (to_send.size + MESSAGE_XTRA_SPACE)
    let client := (SendData client (leBytes 4 full_size) 4).1
    let client := (SendData client [to_send.op] 1).1
    let client := (SendData client (leBytes 8 to_send.id.toNat) 8).1
    (SendData client ptr (signed 32 to_send.size)).1

/-- The loop of `server_send_thread`, over the messages it pops. -/
def server_send_thread (target_client : Socket) (queue : List Queued) : Socket :=
  queue.foldl (fun client to_send => sendMessage client to_send.toDefaultMessage) target_client

/-- The loop of `client_send_thread`, which is the same. -/
def client_send_thread (target_server : Socket) (queue : List Queued) : Socket :=
  queue.foldl (fun client to_send => sendMessage client to_send.toDefaultMessage) target_server

/-- A new connection. -/
def connected (results : List Nat) : Socket := ⟨false, [], results⟩

/-! ## The calls of `SendData` -/

/-- The messages that are not passed over. -/
def sent (queue : List Queued) : List Queued := queue.filter (·.ptr.isSome)

/-- What the calls for a message are offered. -/
def pieces (m : Queued) : List (List UInt8) :=
  [leBytes 4 (unsigned 32 (m.size + MESSAGE_XTRA_SPACE)), [m.op], leBytes 8 m.id.toNat, m.payload]

def offers (queue : List Queued) : List (List UInt8) := (sent queue).flatMap pieces

theorem pieces_flatten (m : Queued) : (pieces m).flatten = frame m.toDefaultMessage := by
  simp [pieces, frame, body]

theorem offers_flatten (queue : List Queued) :
    (offers queue).flatten = (sent queue).flatMap fun m => frame m.toDefaultMessage := by
  unfold offers
  induction sent queue with
  | nil => rfl
  | cons m rest ih =>
    rw [List.flatMap_cons, List.flatten_append, pieces_flatten, ih, List.flatMap_cons]

/-- Calls in a row, with all of each piece offered. -/
def sendPieces (client : Socket) (pieces : List (List UInt8)) : Socket :=
  pieces.foldl (fun client piece => (SendData client piece piece.length).1) client

theorem sendMessage_eq (client : Socket) {m : Queued} (block : m.ptr.isSome) :
    sendMessage client m.toDefaultMessage = sendPieces client (pieces m) := by
  obtain ⟨ptr, held⟩ := Option.isSome_iff_exists.mp block
  have payload : m.payload = ptr := by rw [DefaultMessage.payload, held]; rfl
  have size : signed 32 (m.size : Int) = (ptr.length : Int) := by
    have small := m.small
    rw [signed_of_range (by omega) (by unfold MESSAGE_XTRA_SPACE at small; omega),
      DefaultMessage.size, payload]
  unfold sendMessage
  simp only [held]
  rw [size]
  simp only [sendPieces, pieces, List.foldl_cons, List.foldl_nil, leBytes_length, payload]
  rfl

theorem server_send_thread_eq (client : Socket) (queue : List Queued) :
    server_send_thread client queue = sendPieces client (offers queue) := by
  induction queue generalizing client with
  | nil => rfl
  | cons m rest ih =>
    change server_send_thread (sendMessage client m.toDefaultMessage) rest = _
    rw [ih]
    unfold offers sent
    rw [List.filter_cons]
    split
    · rename_i block
      rw [List.flatMap_cons, sendPieces, sendPieces, List.foldl_append, sendMessage_eq client block]
      rfl
    · rename_i missing
      have skipped : sendMessage client m.toDefaultMessage = client := by
        unfold sendMessage
        rw [Option.not_isSome_iff_eq_none.mp missing]
      rw [skipped]

theorem client_send_thread_eq (client : Socket) (queue : List Queued) :
    client_send_thread client queue = sendPieces client (offers queue) :=
  server_send_thread_eq client queue

/-! ## What the peer receives -/

/-- A call whose piece is accepted in part, or as a whole. -/
theorem SendData_accepted {client : Socket} {piece : List UInt8} {n : Nat} {results : List Nat}
    (working : client.closed = false) (next : client.results = n :: results)
    (accepts : Accepts piece n) (some_accepted : n ≠ 0) :
    (SendData client piece piece.length).1 =
      { client with results, received := client.received ++ piece.take n } := by
  have fits : ¬ (client.closed ∨ (piece.length : Int) < n) := by
    rw [working]
    have := accepts.1
    simp only [Bool.false_eq_true, false_or]
    omega
  unfold SendData SendGenericData send
  rw [next]
  simp only [if_neg fits]
  rw [if_pos (by omega)]

/-- A closed socket stays so, and nothing more is received. -/
theorem SendData_closed {client : Socket} (closed : client.closed = true) (buffer : List UInt8)
    (buff_len : Int) :
    (SendData client buffer buff_len).1.closed = true ∧
      (SendData client buffer buff_len).1.received = client.received := by
  unfold SendData SendGenericData send
  cases client.results with
  | nil => exact ⟨rfl, rfl⟩
  | cons n results =>
    simp only [closed, true_or, if_true]
    exact ⟨rfl, rfl⟩

/-- A call of which nothing is accepted closes the socket. -/
theorem SendData_nothing {client : Socket} {results : List Nat} (next : client.results = 0 :: results)
    (buffer : List UInt8) (buff_len : Int) :
    (SendData client buffer buff_len).1.closed = true ∧
      (SendData client buffer buff_len).1.received = client.received := by
  unfold SendData SendGenericData send
  rw [next]
  by_cases refused : client.closed = true ∨ buff_len < ((0 : Nat) : Int)
  · simp only [if_pos refused]
    exact ⟨rfl, rfl⟩
  · simp only [if_neg refused]
    exact ⟨rfl, List.append_nil _⟩

theorem sendPieces_closed {client : Socket} (closed : client.closed = true)
    (pieces : List (List UInt8)) : (sendPieces client pieces).received = client.received := by
  induction pieces generalizing client with
  | nil => rfl
  | cons piece rest ih =>
    obtain ⟨still, kept⟩ := SendData_closed closed piece piece.length
    exact (ih still).trans kept

/-- The peer receives what a stream accepts of the pieces. -/
theorem sendPieces_received {client : Socket} {pieces : List (List UInt8)}
    (working : client.closed = false) (accepts : List.Forall₂ Accepts pieces client.results) :
    (sendPieces client pieces).received =
      client.received ++ accepted pieces client.results := by
  induction pieces generalizing client with
  | nil =>
    rw [List.forall₂_nil_left_iff.mp accepts]
    exact (List.append_nil _).symm
  | cons piece rest ih =>
    cases next : client.results with
    | nil =>
      rw [next] at accepts
      cases accepts
    | cons n results =>
      rw [next] at accepts
      obtain ⟨first, others⟩ := List.forall₂_cons.mp accepts
      change (sendPieces (SendData client piece piece.length).1 rest).received = _
      rw [accepted]
      by_cases nothing : n = 0
      · subst nothing
        obtain ⟨closed, kept⟩ := SendData_nothing next piece piece.length
        rw [sendPieces_closed closed, kept, if_pos rfl, List.append_nil]
      · rw [SendData_accepted working next first nothing, if_neg nothing,
          ih (by exact working) others, List.append_assoc]

/-- No message but the last is empty. -/
def EmptyLast (queue : List Queued) : Prop := ∀ m ∈ (sent queue).dropLast, m.payload ≠ []

/-- Only the last piece of a message can be empty. -/
theorem pieces_eq_nil {m : Queued} {piece : List UInt8} (offered : piece ∈ pieces m)
    (empty : piece = []) : piece = m.payload := by
  subst empty
  simp only [pieces, List.mem_cons, List.not_mem_nil, or_false] at offered
  rcases offered with size | op | id | payload
  · cases size
  · cases op
  · cases id
  · exact payload

theorem pieces_ordered (m : Queued) : (pieces m).Pairwise fun p q => p = [] → q = [] := by
  refine .cons (fun _ _ empty => ?_) (.cons (fun _ _ empty => ?_) (.cons (fun _ _ empty => ?_)
    (.cons (fun _ none_left => ?_) .nil)))
  · cases empty
  · cases empty
  · cases empty
  · cases none_left

/-- Behind an empty message comes the size of the next one. -/
theorem offers_ordered_iff (queue : List Queued) :
    (offers queue).Pairwise (fun p q => p = [] → q = []) ↔ EmptyLast queue := by
  unfold offers EmptyLast
  induction sent queue with
  | nil => simp
  | cons m rest ih =>
    rw [List.flatMap_cons, List.pairwise_append, ih, and_iff_right (pieces_ordered m)]
    cases rest with
    | nil => simp
    | cons next rest =>
      rw [List.dropLast_cons_of_ne_nil (List.cons_ne_nil next rest), List.forall_mem_cons, and_comm]
      refine and_congr_left' ?_
      constructor
      · intro ordered empty
        have size := ordered m.payload (by simp [pieces])
          (leBytes 4 (unsigned 32 (next.size + MESSAGE_XTRA_SPACE))) (by simp [pieces]) empty
        cases size
      · intro some_payload piece offered _ _ empty
        exact absurd (pieces_eq_nil offered empty ▸ empty) some_payload

/-- The frames arrive as they are exactly when every call of `send` accepts all it is offered, and no
message but the last is empty: of an empty one nothing can be accepted, and the socket is closed. -/
theorem transmission_iff {thread : Socket → List Queued → Socket}
    (loop : thread = server_send_thread ∨ thread = client_send_thread) (queue : List Queued)
    (results : List Nat) (accepts : List.Forall₂ Accepts (offers queue) results) :
    (thread (connected results) queue).received =
        ((sent queue).flatMap fun m => frame m.toDefaultMessage) ↔
      results = (offers queue).map List.length ∧ EmptyLast queue := by
  have run : thread (connected results) queue = sendPieces (connected results) (offers queue) := by
    rcases loop with rfl | rfl
    · exact server_send_thread_eq _ _
    · exact client_send_thread_eq _ _
  have received : (sendPieces (connected results) (offers queue)).received =
      accepted (offers queue) results := sendPieces_received rfl accepts
  rw [run, received, ← offers_flatten, accepted_eq_flatten_iff accepts, offers_ordered_iff]

/-- Two messages of one byte each. -/
def twoMessages : List Queued :=
  [⟨⟨1, 0, some [7]⟩, by decide⟩, ⟨⟨2, 1, some [8]⟩, by decide⟩]

theorem whole_sends : (server_send_thread (connected [4, 1, 8, 1, 4, 1, 8, 1]) twoMessages).received =
    (sent twoMessages).flatMap fun m => frame m.toDefaultMessage :=
  (transmission_iff (.inl rfl) twoMessages [4, 1, 8, 1, 4, 1, 8, 1] (by decide)).mpr
    ⟨by decide, by unfold EmptyLast; decide⟩

/-- The first `send` accepts three of the four bytes of the size. -/
theorem short_send : ¬ ∀ (queue : List Queued) (results : List Nat),
    List.Forall₂ Accepts (offers queue) results →
      (server_send_thread (connected results) queue).received =
        (sent queue).flatMap fun m => frame m.toDefaultMessage := by
  intro all
  have arrived := all twoMessages [3, 1, 8, 1, 4, 1, 8, 1] (by decide)
  revert arrived
  decide

end DCScan.Transmission
