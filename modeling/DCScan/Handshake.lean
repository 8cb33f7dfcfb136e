import DCScan.Login
import DCScan.Disconnect

/-!
The handshake: a client that runs `Connect`, `Authenticate` and `StartThread` against a server that
is idle or serves another client.

The challenge and the frames go over one stream. The client takes 48 bytes of it for the challenge,
whatever the server sends, and its receive thread takes the rest. The verdict reaches `StartThread`
through `conn_valid`, which the decode thread sets and the receive thread resets when it leaves.

The client's threads and their queue are those of `Disconnect`; the bytes under way to the client are
the chunks there, cut anew by every `ReceiveData`. `sent` are the messages in the order in which the
server sends them. No step looks at them.
-/

namespace DCScan.Handshake

open Lib Message
open Framing (Framed DecodeInv)

/-- The values of `conn_valid`. -/
inductive ConnValid where
  | C_WAIT | C_VALID | C_INVALID
  deriving DecidableEq, Repr

/-- What the decode thread stores for a message. -/
def hear (v : ConnValid) (msg : DefaultMessage) : ConnValid :=
  if msg.operation = some .CON_VALID then
    if msg.payload.headD 0 = 1 then .C_VALID else .C_INVALID
  else v

/-! ## What the server sends -/

/-- A string literal's bytes. -/
def text (s : String) : List UInt8 := s.toList.map fun c => UInt8.ofNat c.toNat

/-- The message of `SendErrorToClient`. -/
def errorMessage (error_msg : List UInt8) : DefaultMessage :=
  ⟨InternalOperation.OP_ERROR.code, 0, some (error_msg ++ [0])⟩

/-- The message of `IssueValidity`. -/
def validityMessage (validity : UInt8) : DefaultMessage :=
  ⟨InternalOperation.CON_VALID.code, 0, some [validity]⟩

/-- The calls of `SendData` for a message. -/
def sends (m : DefaultMessage) : List (List UInt8) :=
  [leBytes 4 (unsigned 32 (m.size + MESSAGE_XTRA_SPACE)), [m.op], leBytes 8 m.id.toNat, m.payload]

/-- To a client whose login failed. -/
def refusal : List DefaultMessage :=
  [errorMessage (text "Incorrect username or password."), validityMessage 2]

/-- To a client that came while the one at `ip` was served. -/
def notUnique (ip : List UInt8) : List DefaultMessage :=
  [errorMessage (text "Connection is not unique. Closing connection."),
    errorMessage (text "Wait for user at " ++ ip ++ text " to disconnect and try again."),
    validityMessage 2]

/-- What the send thread has to send: the responses of the decode thread, and the events. -/
def responds (m : DefaultMessage) : Bool :=
  m.operation = some .SYNC_RESPONSE || m.operation = some .ASYNC_RESPONSE ||
    m.operation = some .EVT_RESPONSE

/-! ## The two parties -/

/-- Where `Server::StartThread` stands. -/
inductive Server where
  /-- About to look at `server_receive_thread`. -/
  | testing
  | authenticating
  /-- The session's threads run, or the client is refused; what says so is being sent, or was. -/
  | decided (session : Bool)
  deriving DecidableEq, Repr

/-- Where the client's thread stands. -/
inductive Main where
  /-- In `Authenticate`, before it has sent anything. -/
  | challenged
  /-- In `Authenticate`, with these calls of `SendData` to come, or before `StartThread`. -/
  | answering (rest : List (List UInt8))
  /-- In the loop on `conn_valid`. -/
  | polling
  /-- Behind the loop, and about to load `conn_valid` again. -/
  | comparing
  | closing
  | joining
  | returned (b : Bool)
  deriving DecidableEq, Repr

/-- The client's receive and decode threads have been started. -/
def Main.launched : Main → Bool
  | .challenged | .answering _ => false
  | _ => true

structure State where
  server : Server
  /-- What `username_buff` and `aes_buff` have been filled with. -/
  credentials : List UInt8
  /-- `r` and `iv` of the server, once it has drawn them. -/
  challenge : List UInt8
  /-- The calls of `SendData` that the server has still to make. -/
  sending : List (List UInt8)
  sent : List DefaultMessage
  /-- The bytes under way to the server. -/
  up : List UInt8
  main : Main
  /-- `r` and `iv` of the client, as far as they are filled. -/
  greeting : List UInt8
  connValid : ConnValid
  /-- The receive thread has stored `C_WAIT`. -/
  reset : Bool
  /-- The client's threads, from `StartThread` on. -/
  client : Disconnect.State

/-- The bytes under way to the client. -/
def State.down (s : State) : List UInt8 := s.client.frames.toReceive.flatten

/-- The server has these messages to send. -/
def State.announce (s : State) (msgs : List DefaultMessage) : State :=
  { s with sending := msgs.flatMap sends, sent := s.sent ++ msgs }

inductive Action where
  /-- The server looks whether a client is served, and at which address. -/
  | test (served : Option (List UInt8))
  /-- A `SendData` of the server. -/
  | send
  /-- `ReceiveData` in the server's `Authenticate` returns `n` bytes. -/
  | receiveCredentials (n : Nat)
  | decide
  /-- The session's send thread takes up a message. -/
  | serve (m : DefaultMessage)
  /-- `ReceiveData` in the client's `Authenticate` returns `n` bytes. -/
  | greet (n : Nat)
  | answer (stack : Stack)
  /-- A `SendData` of the client. -/
  | reply
  | startThread
  | poll
  | compare
  /-- The client closes the socket and clears `client_running`. -/
  | stop
  | joined
  /-- `ReceiveData` in the receive thread returns `n` bytes, and `addBytes` has room for them. -/
  | receive (n : Nat)
  /-- The receive thread stores `C_WAIT`. -/
  | reset
  /-- Any other step of the receive and decode threads; `stop` is the caller's `StopThread`. -/
  | client (a : Disconnect.Action)

/-- How many bytes the client's `Authenticate` asks for, having read `size`. -/
def wanted (size : Nat) : Nat := if size < 32 then 32 - size else 48 - size

/-- What stands before a step of the client's threads, besides what `Disconnect` says. -/
def permits (s : State) : Disconnect.Action → Bool
  | .receive => false
  | .store => s.reset
  | .stop => s.main = .returned true
  | _ => true

/-- `conn_valid` after a step that has led the client's threads to `c`. -/
def stored (v : ConnValid) (c : Disconnect.State) : Disconnect.Action → ConnValid
  | .decode _ => (c.frames.decoded.getLast?.map (hear v)).getD v
  | _ => v

section

variable (accounts : Accounts) (challenge : Challenge) (username password : List UInt8)

def step (s : State) : Action → Option State
  | .test served => match s.server, served with
    | .testing, none => some { s with
        server := .authenticating, challenge := challenge.bytes, sending := [challenge.r, challenge.iv] }
    | .testing, some ip => some ({ s with server := .decided false }.announce (notUnique ip))
    | _, _ => none
  | .send => match s.sending with
    | data :: rest => some { s with
        sending := rest, client := s.client.withStream (s.client.frames.toReceive ++ [data]) }
    | [] => none
  | .receiveCredentials n =>
    match s.server, s.sending, accounts.Authenticate challenge s.credentials with
    | .authenticating, [], .wants limit =>
      if 0 < n ∧ n ≤ limit ∧ n ≤ s.up.length then
        some { s with credentials := s.credentials ++ s.up.take n, up := s.up.drop n }
      else none
    | _, _, _ => none
  | .decide => match s.server, s.sending, accounts.Authenticate challenge s.credentials with
    | .authenticating, [], .refused => some ({ s with server := .decided false }.announce refusal)
    | .authenticating, [], .accepted =>
      some ({ s with server := .decided true }.announce [validityMessage 1])
    | _, _, _ => none
  | .serve m =>
    if s.server = .decided true ∧ s.sending = [] ∧ responds m ∧ m.ptr.isSome then
      some (s.announce [m])
    else none
  | .greet n =>
    if s.main = .challenged ∧ 0 < n ∧ n ≤ wanted s.greeting.length ∧ n ≤ s.down.length then
      some { s with
        greeting := s.greeting ++ s.down.take n, client := s.client.withStream [s.down.drop n] }
    else none
  | .answer stack =>
    if s.main = .challenged ∧ s.greeting.length = 48 then
      some { s with main := .answering (accounts.answer (s.greeting.take 32) (s.greeting.drop 32)
        username password stack) }
    else none
  | .reply => match s.main with
    | .answering (data :: rest) => some { s with main := .answering rest, up := s.up ++ data }
    | _ => none
  | .startThread => match s.main with
    | .answering [] => some { s with main := .polling }
    | _ => none
  | .poll =>
    if s.main = .polling ∧ s.connValid ≠ .C_WAIT then some { s with main := .comparing } else none
  | .compare => match s.main with
    | .comparing => some { s with
        main := if s.connValid = .C_INVALID then .closing else .returned true }
    | _ => none
  | .stop => match s.main with
    | .closing => (Disconnect.step s.client .stop).map fun client =>
      { s with main := .joining, client := client }
    | _ => none
  | .joined =>
    if s.main = .joining ∧ s.client.receiver = .done then some { s with main := .returned false }
    else none
  | .receive n =>
    if s.main.launched ∧ 0 < n ∧ n ≤ 512 ∧ n ≤ s.down.length then
      (Disconnect.step (s.client.withStream [s.down.take n, s.down.drop n]) .receive).map
        fun client => { s with client := client }
    else none
  | .reset =>
    if s.main.launched ∧ s.client.receiver = .cleared ∧ s.reset = false then
      some { s with connValid := .C_WAIT, reset := true }
    else none
  | .client a =>
    if s.main.launched ∧ permits s a then
      (Disconnect.step s.client a).map fun client =>
        { s with client := client, connValid := stored s.connValid client a }
    else none

/-- A connection has just been made. The client's queue is empty; `conn_valid` may be as an earlier
session left it. -/
def system : System State Action where
  init s := ∃ frames v, (Framing.system []).init frames ∧
    s = ⟨.testing, [], [], [], [], [], .challenged, [], v, false,
      ⟨.client, frames, true, .testing, .receiving⟩⟩
  step := step accounts challenge username password

end

end DCScan.Handshake
