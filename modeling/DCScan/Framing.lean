import DCScan.Lib.System
import DCScan.ByteQueue
import DCScan.Message

/-!
Framing: a send thread's bytes, cut anywhere by the socket, pass through a `ByteQueue`
and come out of the decode loop as the messages that were sent.

The receive thread and the decode loop are two threads over one queue. They interleave
at the queue's waits: between the two waits of `fetchNextMsg` any number of chunks may
arrive, and while a frame is being decoded from the loop's own buffer the queue is
already free for more. `Framed` is what the senders guarantee of one message,
`DecodeInv` ties the queue to the position in the stream, `framing_lossless` is the
result, and `framing_refines_fifo` says that the byte stream behaves as a first-in
first-out channel of messages, which is how the sessions above it use it.
-/

namespace DCScan.Framing

open Lib Message

/-- `ib_buff_size`, the capacity of both `inbound_bytes` queues and of `buffer`. -/
def ibBuffSize : Nat := 4096 * 1024

/-- A message whose frame fits the queue: it has a block, and something in it. -/
structure Framed (m : DefaultMessage) : Prop where
  filled : m.ptr.isSome
  nonempty : 0 < m.size
  fits : m.size + 13 ≤ ibBuffSize

/-- Where the decode loop stands. -/
inductive Consumer where
  /-- In `fetchNextMsg`, at its first wait. -/
  | waitHeader
  /-- In `fetchNextMsg`, at its second wait, having read `to_read`. -/
  | waitBody (to_read : Int)
  /-- `fetchNextMsg` has returned and left these bytes in the loop's buffer. -/
  | decoding (data : List UInt8)

structure State where
  queue : ByteQueue
  /-- The chunks `ReceiveData` will return. -/
  toReceive : List (List UInt8)
  /-- The bytes passed to `addBytes` so far. -/
  received : List UInt8
  consumer : Consumer
  /-- The messages made so far. -/
  decoded : List DefaultMessage

inductive Action where
  | addBytes
  | readHeader
  | takeBody
  | decode (mem : Uninit)

/-- One step of the receive thread or of the decode loop. -/
def step (s : State) : Action → Option State
  | .addBytes =>
    match s.toReceive with
    | [] => none
    | chunk :: rest => (s.queue.addBytes chunk).map fun queue =>
      { s with queue := queue, toReceive := rest, received := s.received ++ chunk }
  | .readHeader =>
    match s.consumer with
    | .waitHeader =>
      if s.queue.headerReady then
        -- Woken by `notify_unblock`, the fetch returns 0 and the loop starts over.
        if s.queue.ntfUnblock then some s else some { s with consumer := .waitBody s.queue.toRead }
      else none
    | _ => none
  | .takeBody =>
    match s.consumer with
    | .waitBody to_read =>
      if s.queue.bodyReady to_read then
        (s.queue.takeBody to_read ibBuffSize).map fun (data, queue) =>
          { s with queue := queue, consumer := if to_read = 0 then .waitHeader else .decoding data }
      else none
    | _ => none
  | .decode mem =>
    match s.consumer with
    | .decoding data => (decode mem data).map fun msg =>
      { s with consumer := .waitHeader, decoded := s.decoded ++ [msg] }
    | _ => none

/-- A session's inbound path: an empty queue over any block, and a stream cut into `chunks`. -/
def system (chunks : List (List UInt8)) : System State Action where
  init s := ∃ block : List UInt8, block.length = ibBuffSize ∧
    s = { queue := .create block, toReceive := chunks, received := [],
          consumer := .waitHeader, decoded := [] }
  step := step

/-- The frame `fetchNextMsg` has taken from the queue and the loop has not finished with. -/
def State.inHand (s : State) : List UInt8 :=
  match s.consumer with
  | .decoding data => leBytes 4 data.length ++ data
  | _ => []

variable {msgs rest : List DefaultMessage} {chunks : List (List UInt8)} {m : DefaultMessage}
variable {s t : State} {a : Action} {mem : Uninit}

/-- What each action finds, and leaves. -/
inductive Effect (s : State) : Action → State → Prop
  | addBytes {chunk later queue} (pending : s.toReceive = chunk :: later)
      (added : s.queue.addBytes chunk = some queue) :
      Effect s .addBytes { s with
        queue := queue, toReceive := later, received := s.received ++ chunk }
  | unblocked (at_header : s.consumer = .waitHeader) (asked : s.queue.ntfUnblock = true) :
      Effect s .readHeader s
  | readHeader (at_header : s.consumer = .waitHeader) (ready : s.queue.headerReady = true)
      (calm : s.queue.ntfUnblock = false) :
      Effect s .readHeader { s with consumer := .waitBody s.queue.toRead }
  | takeBody {to_read data queue} (at_body : s.consumer = .waitBody to_read)
      (there : s.queue.bodyReady to_read = true)
      (took : s.queue.takeBody to_read ibBuffSize = some (data, queue)) :
      Effect s .takeBody { s with
        queue := queue, consumer := if to_read = 0 then .waitHeader else .decoding data }
  | decode {mem data msg} (in_hand : s.consumer = .decoding data)
      (made : Message.decode mem data = some msg) :
      Effect s (.decode mem) { s with consumer := .waitHeader, decoded := s.decoded ++ [msg] }

theorem effect_of_step (ran : step s a = some t) : Effect s a t := by
  cases a with
  | addBytes =>
    simp only [step] at ran
    split at ran
    · contradiction
    · rename_i pending
      obtain ⟨queue, added, rfl⟩ := Option.map_eq_some_iff.mp ran
      exact .addBytes pending added
  | readHeader =>
    simp only [step] at ran
    split at ran
    · rename_i at_header
      split at ran
      · rename_i ready
        split at ran <;> cases ran
        · rename_i asked
          exact .unblocked at_header asked
        · rename_i calm
          exact .readHeader at_header ready (eq_false_of_ne_true calm)
      · contradiction
    · contradiction
  | takeBody =>
    simp only [step] at ran
    split at ran
    · rename_i at_body
      split at ran
      · rename_i there
        obtain ⟨⟨data, queue⟩, took, rfl⟩ := Option.map_eq_some_iff.mp ran
        exact .takeBody at_body there took
      · contradiction
    · contradiction
  | decode mem =>
    simp only [step] at ran
    split at ran
    · rename_i in_hand
      obtain ⟨msg, made, rfl⟩ := Option.map_eq_some_iff.mp ran
      exact .decode in_hand made
    · contradiction

/-! ## What one frame looks like in the queue -/

theorem Framed.length_lt (framed : Framed m) : m.size + 13 < 2 ^ 31 := by
  have fits := framed.fits
  simp only [ibBuffSize] at fits
  omega

theorem unsigned_full_size (framed : Framed m) :
    unsigned 32 (m.size + MESSAGE_XTRA_SPACE) = m.size + 9 := by
  have small := framed.length_lt
  have cast : (unsigned 32 ((m.size + 9 : Nat) : Int) : Int) = ((m.size + 9 : Nat) : Int) :=
    unsigned_of_range (by omega) (by omega)
  simp only [MESSAGE_XTRA_SPACE, Nat.cast_ofNat]
  push_cast at cast ⊢
  omega

/-- A frame is the body's length and the body. -/
theorem frame_eq (framed : Framed m) : frame m = leBytes 4 (body m).length ++ body m := by
  rw [frame, unsigned_full_size framed, body_length]

/-- The prefix of a frame reads back as its body's length. -/
theorem signed_prefix (framed : Framed m) :
    signed 32 (leNat (leBytes 4 (body m).length)) = (body m).length := by
  have small := framed.length_lt
  rw [leNat_leBytes_of_lt, signed_of_range] <;> rw [body_length] <;> omega

/-- The first bytes of a stream of frames are the first frame, once enough are there. -/
theorem frame_of_prefix {held later : List UInt8} (stream : held ++ later = msgs.flatMap frame)
    (cons : msgs = m :: rest) (enough : (frame m).length ≤ held.length) :
    ∃ tail, held = frame m ++ tail ∧ tail ++ later = rest.flatMap frame := by
  subst cons
  rw [List.flatMap_cons] at stream
  obtain ⟨tail, split, remaining⟩ | ⟨more, split, remaining⟩ := List.append_eq_append_iff.mp stream
  · have short : tail = [] := by
      have := congrArg List.length split
      rw [List.length_append] at this
      exact List.eq_nil_of_length_eq_zero (by omega)
    subst short
    exact ⟨[], by simpa using split.symm, by simpa using remaining⟩
  · exact ⟨more, split, remaining.symm⟩

/-! ## The invariant -/

/-- What the decode loop holds of the messages still to be decoded. -/
def Holding (s : State) (rest : List DefaultMessage) : Prop :=
  match s.consumer with
  | .waitHeader => s.queue.contents ++ s.toReceive.flatten = rest.flatMap frame
  | .waitBody to_read => s.queue.contents ++ s.toReceive.flatten = rest.flatMap frame ∧
      ∃ m later, rest = m :: later ∧ to_read = (body m).length
  | .decoding data => ∃ m later, rest = m :: later ∧ data = body m ∧
      s.queue.contents ++ s.toReceive.flatten = later.flatMap frame

/-- The decoded messages are the front of those sent; what was received is their frames,
the frame in hand and the queue, in this order. -/
structure DecodeInv (msgs : List DefaultMessage) (s : State) : Prop where
  running : s.queue.ntfUnblock = false
  capacity : s.queue.internalBuffMaxSize = ibBuffSize
  accounted : s.received = s.decoded.flatMap frame ++ s.inHand ++ s.queue.contents
  position : ∃ rest, msgs = s.decoded ++ rest ∧ Holding s rest

theorem init_inv (cut : chunks.flatten = msgs.flatMap frame) (start : (system chunks).init s) :
    DecodeInv msgs s := by
  obtain ⟨block, size, rfl⟩ := start
  exact ⟨rfl, size, rfl, msgs, rfl, cut⟩

/-- Appending a chunk moves bytes from the stream to the end of the queue. -/
theorem addBytes_inv (inv : DecodeInv msgs s) (ran : step s .addBytes = some t) :
    DecodeInv msgs t := by
  cases effect_of_step ran with
  | addBytes pending added =>
    rename_i chunk later queue
    obtain ⟨contents, capacity, running⟩ := ByteQueue.addBytes_contents added
    obtain ⟨left, split, holding⟩ := inv.position
    have moved : queue.contents ++ later.flatten = s.queue.contents ++ s.toReceive.flatten := by
      rw [contents, pending, List.flatten_cons, List.append_assoc]
    refine ⟨running.trans inv.running, capacity.trans inv.capacity, ?_, left, split, ?_⟩
    · simp only [inv.accounted, contents, State.inHand, List.append_assoc]
    · simpa only [Holding, moved] using holding

/-- The length prefix is that of the next message. -/
theorem readHeader_inv (framed : ∀ m ∈ msgs, Framed m) (inv : DecodeInv msgs s)
    (ran : step s .readHeader = some t) : DecodeInv msgs t := by
  cases effect_of_step ran with
  | unblocked => exact inv
  | readHeader waiting ready =>
    obtain ⟨rest, split, holding⟩ := inv.position
    simp only [Holding, waiting] at holding
    have four : 4 ≤ s.queue.contents.length := by
      simpa [ByteQueue.headerReady, inv.running] using ready
    cases rest with
    | nil =>
      have empty := congrArg List.length holding
      simp only [List.length_append, List.flatMap_nil, List.length_nil] at empty
      omega
    | cons m later =>
      have valid : Framed m := framed m (by simp [split])
      refine ⟨inv.running, inv.capacity, ?_, m :: later, split, holding, m, later, rfl, ?_⟩
      · simpa [State.inHand, waiting] using inv.accounted
      · rw [List.flatMap_cons, frame_eq valid] at holding
        have lead : s.queue.contents.take 4 = leBytes 4 (body m).length := by
          have := congrArg (List.take 4) holding
          rwa [List.take_append_of_le_length four, List.append_assoc,
            List.take_left' (leBytes_length 4 _)] at this
        have queued : s.queue.contents = leBytes 4 (body m).length ++
            s.queue.contents.drop 4 := by
          rw [← lead, List.take_append_drop]
        rw [ByteQueue.toRead_of_contents (leBytes_length 4 _) queued, signed_prefix valid]

/-- When the second wait ends, the frame of the next message is at the front of the queue. -/
theorem frame_there {to_read : Int} (framed : ∀ m ∈ msgs, Framed m) (inv : DecodeInv msgs s)
    (waiting : s.consumer = .waitBody to_read) (ready : s.queue.bodyReady to_read = true) :
    ∃ m later tail, msgs = s.decoded ++ m :: later ∧ to_read = (body m).length ∧
      s.queue.contents = leBytes 4 (body m).length ++ body m ++ tail ∧
      tail ++ s.toReceive.flatten = later.flatMap frame := by
  obtain ⟨rest, split, holding⟩ := inv.position
  simp only [Holding, waiting] at holding
  obtain ⟨stream, m, later, rfl, rfl⟩ := holding
  have valid : Framed m := framed m (by simp [split])
  have small := valid.length_lt
  have size := body_length m
  have enough : (frame m).length ≤ s.queue.contents.length := by
    have sizes := (ByteQueue.sizes_of_length (n := (body m).length) (by omega)).2
    simp only [ByteQueue.bodyReady, decide_eq_true_eq, sizes] at ready
    rw [frame_length, ByteQueue.contents_length]
    omega
  obtain ⟨tail, queued, remaining⟩ := frame_of_prefix stream rfl enough
  rw [frame_eq valid] at queued
  exact ⟨m, later, tail, split, rfl, queued, remaining⟩

/-- The copies behind the second wait then stay inside their blocks. -/
theorem takeBody_there {tail : List UInt8} (framed : Framed m)
    (queued : s.queue.contents = leBytes 4 (body m).length ++ body m ++ tail) :
    ∃ queue, s.queue.takeBody (body m).length ibBuffSize = some (body m, queue) ∧
      queue.contents = tail ∧ queue.internalBuffMaxSize = s.queue.internalBuffMaxSize ∧
      queue.ntfUnblock = s.queue.ntfUnblock := by
  have small := framed.length_lt
  have fits := framed.fits
  have size := body_length m
  exact ByteQueue.takeBody_contents (leBytes_length 4 _) (by omega) (by omega) queued

/-- The body that leaves the queue is the next message's, and nothing else leaves. -/
theorem takeBody_inv (framed : ∀ m ∈ msgs, Framed m) (inv : DecodeInv msgs s)
    (ran : step s .takeBody = some t) : DecodeInv msgs t := by
  cases effect_of_step ran with
  | takeBody waiting ready taken =>
    obtain ⟨m, later, tail, split, rfl, queued, remaining⟩ := frame_there framed inv waiting ready
    obtain ⟨queue, took, contents, capacity, running⟩ :=
      takeBody_there (framed m (by simp [split])) queued
    cases taken.symm.trans took
    have positive : ((body m).length : Int) ≠ 0 := by rw [body_length]; omega
    refine ⟨running.trans inv.running, capacity.trans inv.capacity, ?_, m :: later, split, ?_⟩
    · simp only [State.inHand, positive, ↓reduceIte, contents, inv.accounted, waiting, queued,
        List.append_nil, List.append_assoc]
    · simp only [Holding, positive, ↓reduceIte, contents]
      exact ⟨m, later, rfl, rfl, remaining⟩

/-- Decoding makes the next message of what is in hand. -/
theorem decode_inv (framed : ∀ m ∈ msgs, Framed m) (inv : DecodeInv msgs s)
    (ran : step s (.decode mem) = some t) : DecodeInv msgs t := by
  cases effect_of_step ran with
  | decode waiting made =>
    obtain ⟨rest, split, holding⟩ := inv.position
    simp only [Holding, waiting] at holding
    obtain ⟨m, later, rfl, rfl, stream⟩ := holding
    have valid : Framed m := framed m (by simp [split])
    have small := valid.length_lt
    rw [decode_body valid.filled valid.nonempty (by omega)] at made
    cases made
    refine ⟨inv.running, inv.capacity, ?_, later, by simpa using split, stream⟩
    have accounted := inv.accounted
    simp only [State.inHand, waiting, ← frame_eq valid] at accounted
    simpa [State.inHand] using accounted

theorem step_inv (framed : ∀ m ∈ msgs, Framed m) (inv : DecodeInv msgs s)
    (ran : step s a = some t) : DecodeInv msgs t := by
  cases a with
  | addBytes => exact addBytes_inv inv ran
  | readHeader => exact readHeader_inv framed inv ran
  | takeBody => exact takeBody_inv framed inv ran
  | decode mem => exact decode_inv framed inv ran

theorem reachable_inv (framed : ∀ m ∈ msgs, Framed m) (cut : chunks.flatten = msgs.flatMap frame)
    (reached : (system chunks).Reachable s) : DecodeInv msgs s :=
  reached.invariant (fun _ start => init_inv cut start) fun _ _ _ inv ran => step_inv framed inv ran

/-! ## The results -/

/-- What is in hand is nothing, or exactly the frame of the next message. -/
theorem inHand_next (framed : ∀ m ∈ msgs, Framed m) (inv : DecodeInv msgs s) :
    s.inHand = [] ∨ ∃ m, s.inHand = frame m ∧ s.decoded ++ [m] <+: msgs := by
  obtain ⟨rest, split, holding⟩ := inv.position
  cases stand : s.consumer with
  | waitHeader => exact Or.inl (by simp [State.inHand, stand])
  | waitBody to_read => exact Or.inl (by simp [State.inHand, stand])
  | decoding data =>
    simp only [Holding, stand] at holding
    obtain ⟨m, later, rfl, rfl, _⟩ := holding
    have valid : Framed m := framed m (by simp [split])
    refine Or.inr ⟨m, ?_, later, by simpa using split.symm⟩
    simp only [State.inHand, stand, frame_eq valid]

/-- **Framing is lossless.** However the stream is cut and the two threads interleave, the
messages decoded so far are the first of those sent, in order and unchanged, and the
queue holds exactly what was received behind them: the one frame `fetchNextMsg` has handed
to the loop (`inHand`), if it is not decoded yet, is the frame of the very next message. -/
theorem framing_lossless (framed : ∀ m ∈ msgs, Framed m) (cut : chunks.flatten = msgs.flatMap frame)
    (reached : (system chunks).Reachable s) :
    s.decoded <+: msgs ∧
      s.received = s.decoded.flatMap frame ++ s.inHand ++ s.queue.contents ∧
      (s.inHand = [] ∨ ∃ m, s.inHand = frame m ∧ s.decoded ++ [m] <+: msgs) := by
  have inv := reachable_inv framed cut reached
  obtain ⟨rest, split, _⟩ := inv.position
  exact ⟨⟨rest, split.symm⟩, inv.accounted, inHand_next framed inv⟩

/-- A message whose frame arrives in two pieces, the first ending inside the length prefix. -/
def sample : DefaultMessage := ⟨InternalOperation.EVT_SUB.code, 5, some [3]⟩

/-- A state in which only the first piece has been received. -/
theorem framing_lossless_sample :
    ∃ s, (system [(frame sample).take 3, (frame sample).drop 3]).Reachable s ∧
      s.received = (frame sample).take 3 ∧ s.decoded <+: [sample] ∧
      s.received = s.decoded.flatMap frame ++ s.inHand ++ s.queue.contents ∧
      (s.inHand = [] ∨ ∃ m, s.inHand = frame m ∧ s.decoded ++ [m] <+: [sample]) := by
  have size : (List.replicate ibBuffSize (0 : UInt8)).length = ibBuffSize := List.length_replicate
  have room : (ByteQueue.create (List.replicate ibBuffSize 0)).roomFor
      ((frame sample).take 3).length := by
    simp only [ByteQueue.roomFor, ByteQueue.create, size]
    decide
  obtain ⟨queue, added⟩ := ByteQueue.addBytes_of_room room
  let first : State :=
    { queue := .create (List.replicate ibBuffSize 0)
      toReceive := [(frame sample).take 3, (frame sample).drop 3]
      received := []
      consumer := .waitHeader
      decoded := [] }
  have start : (system [(frame sample).take 3, (frame sample).drop 3]).init first := ⟨_, size, rfl⟩
  have reached : (system [(frame sample).take 3, (frame sample).drop 3]).Reachable
      { first with
        queue := queue, toReceive := [(frame sample).drop 3], received :=
          (frame sample).take 3 } := by
    refine (System.Reachable.start start).next (a := .addBytes) ?_
    simp only [system, step, first, added, Option.map_some, List.nil_append]
  have framed : ∀ m ∈ [sample], Framed m := by
    simp only [List.mem_singleton, forall_eq]
    exact ⟨rfl, by decide, by decide⟩
  have cut : [(frame sample).take 3, (frame sample).drop 3].flatten = [sample].flatMap frame := by
    simp
  exact ⟨_, reached, rfl, framing_lossless framed cut reached⟩

/-! ## The channel above -/

/-- A first-in first-out channel: the messages under way and those delivered. -/
def fifo (msgs : List DefaultMessage) :
    System (List DefaultMessage × List DefaultMessage) Unit where
  init channel := channel = (msgs, [])
  step
    | (m :: rest, delivered), () => some (rest, delivered ++ [m])
    | ([], _), () => none

/-- Only decoding moves the channel on, by the message at its head. -/
theorem step_refines (inv : DecodeInv msgs s) (framed : ∀ m ∈ msgs, Framed m)
    (ran : step s a = some t) :
    ∃ bs, (fifo msgs).run (msgs.drop s.decoded.length, s.decoded) bs =
      some (msgs.drop t.decoded.length, t.decoded) := by
  obtain ⟨later, after, _⟩ := (step_inv framed inv ran).position
  cases effect_of_step ran with
  | decode =>
    refine ⟨[()], ?_⟩
    simp only [after, List.append_assoc, List.singleton_append, List.drop_left,
      List.length_append, List.length_singleton]
    rw [← List.drop_drop, List.drop_left]
    rfl
  | addBytes | unblocked | readHeader | takeBody => exact ⟨[], rfl⟩

/-- **The byte path refines a first-in first-out channel of messages.** -/
theorem framing_refines_fifo (framed : ∀ m ∈ msgs, Framed m)
    (cut : chunks.flatten = msgs.flatMap frame) (reached : (system chunks).Reachable s) :
    (fifo msgs).Reachable (msgs.drop s.decoded.length, s.decoded) :=
  reached.refines (fun s => (msgs.drop s.decoded.length, s.decoded))
    (fun _ reached => reachable_inv framed cut reached)
    (fun s start => by
      obtain ⟨block, _, rfl⟩ := start
      rfl)
    (fun _ _ _ inv ran => step_refines inv framed ran)

end DCScan.Framing
