import DCScan.Framing
import DCScan.Login
import DCScan.Server

/-!
The server's inbound bytes over the lives of its connections.

The workers and the threads of a session are those of `Server`; the bytes they move are here. A
worker's `Authenticate` reads from its socket into blocks of its own, the receive thread of its
session into `inbound_bytes`, which is one queue for all sessions. Which socket a worker was passed
is a parameter, so that nothing rests on how `WaitForConnections` hands the sockets out.

`origins` says of every queued byte over which socket and by which session's receive thread it came,
and whether `Authenticate` had returned true for that session by then. `fetched` and `executed` record
what `fetchNextMsg` has taken, and what `Registry::Execute` was called on. No step looks at them.
-/

namespace DCScan.Inbound

open Lib Message
open Server (WorkerPhase ReceiverPhase DecoderPhase)

/-- A received byte, and where it comes from. -/
structure Received where
  byte : UInt8
  socket : Nat
  session : Nat
  authenticated : Bool
  deriving DecidableEq

/-- Bytes that the decode thread of a session has taken from the queue. -/
structure Taken where
  session : Nat
  bytes : List Received

structure State where
  /-- The threads; its `wire`, `inbound` and `ntfUnblock` are not used. -/
  server : Server.State
  /-- Sent over a socket and not received. -/
  stream : Nat → List UInt8
  /-- `username_buff` and `aes_buff` of each worker, as far as they are filled. -/
  credentials : Nat → List UInt8
  /-- `Authenticate` has returned true for the connection. -/
  authenticated : Nat → Bool
  /-- `buffer` of each receive thread, between its `ReceiveData` and its `addBytes`. -/
  buffer : Nat → List Received
  /-- `inbound_bytes`. -/
  queue : ByteQueue
  origins : List Received
  /-- Where each decode thread is in `fetchNextMsg`. -/
  consumer : Nat → Framing.Consumer
  /-- Where the bytes in the buffer of each decode thread come from. -/
  hand : Nat → List Received
  fetched : List Taken
  executed : List Taken

inductive Action where
  /-- The peer of socket `c` sends. -/
  | send (c : Nat) (data : List UInt8)
  /-- `ReceiveData` in `Authenticate` returns `n` bytes. -/
  | authReceive (k : Nat) (n : Nat)
  /-- `ReceiveData` in the receive thread returns `n` bytes. -/
  | receive (k : Nat) (n : Nat)
  | addBytes (k : Nat)
  /-- `fetchNextMsg` up to its second wait. -/
  | readHeader (k : Nat)
  | takeBody (k : Nat)
  /-- `Alloc` and `SetCopyIdAndCode`. -/
  | decode (k : Nat) (mem : Uninit)
  /-- `notify_restart`, with the block that `new` returns. -/
  | restart (k : Nat) (block : List UInt8)
  /-- Any other step of the server's threads. -/
  | server (a : Server.Action)

/-- The switch calls `Registry::Execute`. -/
def executes (msg : DefaultMessage) : Bool :=
  msg.operation = some .ASYNC_REQUEST || msg.operation = some .SYNC_REQUEST

/-- What of the bytes a step of the server's threads touches, and what it waits for. -/
def serverStep (maxSub : UInt8) (accounts : Accounts) (challenge : Nat → Challenge) (s : State)
    (a : Server.Action) : Option State :=
  match a with
  | .receive _ | .fetch _ | .restart _ | .clientSend .. => none
  | .authenticate k ok =>
    if accounts.Authenticate (challenge k) (s.credentials k) = (if ok then .accepted else .refused) then
      (Server.step maxSub s.server a).map fun server =>
        { s with server := server, authenticated := Function.update s.authenticated k ok }
    else none
  | .disconnect k =>
    if s.buffer k = [] then
      (Server.step maxSub s.server a).map fun server => { s with server := server }
    else none
  | .receiverNotify _ =>
    (Server.step maxSub s.server a).map fun server =>
      { s with server := server, queue := s.queue.notifyUnblock }
  | .act k _ _ =>
    match s.server.decoders k with
    | .acting m =>
      (Server.step maxSub s.server a).map fun server =>
        { s with server := server
                 executed := if executes m.msg then s.executed ++ [⟨k, s.hand k⟩] else s.executed }
    | _ => none
  | _ => (Server.step maxSub s.server a).map fun server => { s with server := server }

/-- The decode thread of connection `k` moves on. -/
def decoderMoves (s : State) (k : Nat) (d : DecoderPhase) : Server.State :=
  { s.server with decoders := Function.update s.server.decoders k d }

section

variable (maxSub : UInt8) (size : Nat) (socket : Nat → Nat) (accounts : Accounts)
variable (challenge : Nat → Challenge)

def step (s : State) : Action → Option State
  | .send c data => some { s with stream := Function.update s.stream c (s.stream c ++ data) }
  | .authReceive k n =>
    match s.server.workers k, accounts.Authenticate (challenge k) (s.credentials k) with
    | .authenticating, .wants limit =>
      if 0 < n ∧ n ≤ limit ∧ n ≤ (s.stream (socket k)).length then
        some { s with
          stream := Function.update s.stream (socket k) ((s.stream (socket k)).drop n)
          credentials := Function.update s.credentials k
            (s.credentials k ++ (s.stream (socket k)).take n) }
      else none
    | _, _ => none
  | .receive k n =>
    if s.server.receivers k = .reading ∧ s.buffer k = [] ∧ 0 < n ∧ n ≤ 512 ∧
        n ≤ (s.stream (socket k)).length then
      some { s with
        stream := Function.update s.stream (socket k) ((s.stream (socket k)).drop n)
        buffer := Function.update s.buffer k (((s.stream (socket k)).take n).map fun byte =>
          ⟨byte, socket k, k, s.authenticated k⟩) }
    else none
  | .addBytes k =>
    if s.server.receivers k = .reading ∧ s.buffer k ≠ [] then
      (s.queue.addBytes ((s.buffer k).map Received.byte)).map fun queue =>
        { s with
          queue := queue
          origins := s.origins ++ s.buffer k
          buffer := Function.update s.buffer k []
          server := { s.server with receivers := Function.update s.server.receivers k .testing } }
    else none
  | .readHeader k =>
    match s.server.decoders k, s.consumer k with
    | .fetching, .waitHeader =>
      if s.queue.headerReady then
        if s.queue.ntfUnblock then some { s with server := decoderMoves s k .testing }
        else some { s with consumer := Function.update s.consumer k (.waitBody s.queue.toRead) }
      else none
    | _, _ => none
  | .takeBody k =>
    match s.server.decoders k, s.consumer k with
    | .fetching, .waitBody to_read =>
      if s.queue.bodyReady to_read then
        (s.queue.takeBody to_read size).map fun (data, queue) =>
          let packet := unsigned 64 (ByteQueue.packetSize to_read)
          { s with
            queue := queue
            origins := s.origins.drop packet
            hand := Function.update s.hand k (s.origins.take packet)
            fetched := s.fetched ++ [⟨k, s.origins.take packet⟩]
            consumer := Function.update s.consumer k
              (if to_read = 0 then .waitHeader else .decoding data)
            server := if to_read = 0 then decoderMoves s k .testing else s.server }
      else none
    | _, _ => none
  | .decode k mem =>
    match s.server.decoders k, s.consumer k with
    | .fetching, .decoding data => (decode mem data).map fun msg =>
      { s with consumer := Function.update s.consumer k .waitHeader
               server := decoderMoves s k (.acting ⟨k, msg⟩) }
    | _, _ => none
  | .restart k block =>
    if fresh : block.length = s.queue.internalBuffMaxSize then
      (Server.step maxSub s.server (.restart k)).map fun server =>
        { s with server := server, queue := s.queue.notifyRestart block fresh, origins := [] }
    else none
  | .server a => serverStep maxSub accounts challenge s a

/-- Before the first connection. -/
def start (block : List UInt8) : State where
  server := Server.start maxSub
  stream := fun _ => []
  credentials := fun _ => []
  authenticated := fun _ => false
  buffer := fun _ => []
  queue := .create block
  origins := []
  consumer := fun _ => .waitHeader
  hand := fun _ => []
  fetched := []
  executed := []

/-- The server over a queue of `size` bytes. -/
def system : System State Action where
  init s := ∃ block : List UInt8, block.length = size ∧ s = start maxSub block
  step := step maxSub size socket accounts challenge

/-- What each action finds, and leaves. -/
inductive Turn (s : State) : Action → State → Prop
  | send {c data} :
      Turn s (.send c data) { s with stream := Function.update s.stream c (s.stream c ++ data) }
  | authReceive {k n limit} (stand : s.server.workers k = .authenticating)
      (wants : accounts.Authenticate (challenge k) (s.credentials k) = .wants limit)
      (received : 0 < n ∧ n ≤ limit ∧ n ≤ (s.stream (socket k)).length) :
      Turn s (.authReceive k n) { s with
        stream := Function.update s.stream (socket k) ((s.stream (socket k)).drop n)
        credentials := Function.update s.credentials k
          (s.credentials k ++ (s.stream (socket k)).take n) }
  | receive {k n} (reads : s.server.receivers k = .reading) (free : s.buffer k = [])
      (received : 0 < n ∧ n ≤ 512 ∧ n ≤ (s.stream (socket k)).length) :
      Turn s (.receive k n) { s with
        stream := Function.update s.stream (socket k) ((s.stream (socket k)).drop n)
        buffer := Function.update s.buffer k (((s.stream (socket k)).take n).map fun byte =>
          ⟨byte, socket k, k, s.authenticated k⟩) }
  | addBytes {k queue} (reads : s.server.receivers k = .reading) (held : s.buffer k ≠ [])
      (added : s.queue.addBytes ((s.buffer k).map Received.byte) = some queue) :
      Turn s (.addBytes k) { s with
        queue := queue
        origins := s.origins ++ s.buffer k
        buffer := Function.update s.buffer k []
        server := { s.server with receivers := Function.update s.server.receivers k .testing } }
  | unblocked {k} (fetches : s.server.decoders k = .fetching) (asked : s.queue.ntfUnblock = true) :
      Turn s (.readHeader k) { s with server := decoderMoves s k .testing }
  | readHeader {k} (fetches : s.server.decoders k = .fetching) (ready : s.queue.headerReady = true)
      (calm : s.queue.ntfUnblock = false) :
      Turn s (.readHeader k) { s with
        consumer := Function.update s.consumer k (.waitBody s.queue.toRead) }
  | takeBody {k to_read data queue} (fetches : s.server.decoders k = .fetching)
      (at_body : s.consumer k = .waitBody to_read) (there : s.queue.bodyReady to_read = true)
      (took : s.queue.takeBody to_read size = some (data, queue)) :
      Turn s (.takeBody k) { s with
        queue := queue
        origins := s.origins.drop (unsigned 64 (ByteQueue.packetSize to_read))
        hand := Function.update s.hand k
          (s.origins.take (unsigned 64 (ByteQueue.packetSize to_read)))
        fetched := s.fetched ++ [⟨k, s.origins.take (unsigned 64 (ByteQueue.packetSize to_read))⟩]
        consumer := Function.update s.consumer k
          (if to_read = 0 then .waitHeader else .decoding data)
        server := if to_read = 0 then decoderMoves s k .testing else s.server }
  | decode {k mem data msg} (fetches : s.server.decoders k = .fetching)
      (in_hand : s.consumer k = .decoding data) (made : Message.decode mem data = some msg) :
      Turn s (.decode k mem) { s with
        consumer := Function.update s.consumer k .waitHeader
        server := decoderMoves s k (.acting ⟨k, msg⟩) }
  | restart {k block server} (fresh : block.length = s.queue.internalBuffMaxSize)
      (moved : Server.step maxSub s.server (.restart k) = some server) :
      Turn s (.restart k block) { s with
        server := server, queue := s.queue.notifyRestart block fresh, origins := [] }
  | server {b t} (moved : serverStep maxSub accounts challenge s b = some t) : Turn s (.server b) t

end

theorem turn_of_step {maxSub : UInt8} {size : Nat} {socket : Nat → Nat} {accounts : Accounts}
    {challenge : Nat → Challenge} {s t : State} {a : Action}
    (ran : step maxSub size socket accounts challenge s a = some t) :
    Turn maxSub size socket accounts challenge s a t := by
  cases a with
  | send c data =>
    cases ran
    exact .send
  | authReceive k n =>
    simp only [step] at ran
    split at ran
    · rename_i stand wants
      rw [Option.ite_none_right_eq_some] at ran
      obtain ⟨received, made⟩ := ran
      cases made
      exact .authReceive stand wants received
    · cases ran
  | receive k n =>
    simp only [step, Option.ite_none_right_eq_some, Option.some.injEq] at ran
    obtain ⟨⟨reads, free, received⟩, rfl⟩ := ran
    exact .receive reads free received
  | addBytes k =>
    simp only [step, Option.ite_none_right_eq_some] at ran
    obtain ⟨⟨reads, held⟩, ran⟩ := ran
    obtain ⟨queue, added, rfl⟩ := Option.map_eq_some_iff.mp ran
    exact .addBytes reads held added
  | readHeader k =>
    simp only [step] at ran
    split at ran
    · rename_i fetches _
      rw [Option.ite_none_right_eq_some] at ran
      obtain ⟨ready, ran⟩ := ran
      split at ran <;> cases ran
      · rename_i asked
        exact .unblocked fetches asked
      · rename_i calm
        exact .readHeader fetches ready (eq_false_of_ne_true calm)
    · cases ran
  | takeBody k =>
    simp only [step] at ran
    split at ran
    · rename_i fetches at_body
      rw [Option.ite_none_right_eq_some] at ran
      obtain ⟨there, ran⟩ := ran
      obtain ⟨⟨data, queue⟩, took, rfl⟩ := Option.map_eq_some_iff.mp ran
      exact .takeBody fetches at_body there took
    · cases ran
  | decode k mem =>
    simp only [step] at ran
    split at ran
    · rename_i fetches in_hand
      obtain ⟨msg, made, rfl⟩ := Option.map_eq_some_iff.mp ran
      exact .decode fetches in_hand made
    · cases ran
  | restart k block =>
    simp only [step, Option.dite_none_right_eq_some] at ran
    obtain ⟨fresh, ran⟩ := ran
    obtain ⟨server, moved, rfl⟩ := Option.map_eq_some_iff.mp ran
    exact .restart fresh moved
  | server b => exact .server ran

end DCScan.Inbound
