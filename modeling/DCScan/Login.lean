import DCScan.Lib.Bytes

/-!
The login exchange: what each side's `Authenticate` makes of the bytes it has received.

The user table, the digest and the cipher are outside; the exchange depends on them through
`Accounts` alone.
-/

namespace DCScan

/-- The user table, the cipher and the digest that both ends use. -/
structure Accounts where
  /-- `RDB::GetUser` of the 32 bytes of `username_buff`: the password hash of a user there is. -/
  GetUser : List UInt8 → Option (List UInt8)
  /-- `Auth::SHA256Str` of a string that is not empty. -/
  SHA256Str : List UInt8 → List UInt8
  /-- The `result` of `Auth::EncryptAES256` over a text, a key and an iv. -/
  EncryptAES256 : List UInt8 → List UInt8 → List UInt8 → List UInt8
  /-- The `tag` of that call. -/
  tag : List UInt8 → List UInt8 → List UInt8 → List UInt8

/-- What the server has sent: `r` and `iv`. -/
structure Challenge where
  r : List UInt8
  iv : List UInt8
  r_length : r.length = 32
  iv_length : iv.length = 16

/-- The challenge as it is sent. -/
def Challenge.bytes (c : Challenge) : List UInt8 := c.r ++ c.iv

/-- Where `Authenticate` stands. -/
inductive Verdict where
  /-- In a `ReceiveData` of at most `n` bytes. -/
  | wants (n : Nat)
  | refused
  | accepted
  deriving DecidableEq

/-- `Authenticate` once it has received these bytes: 32 of `username_buff`, then, for a user there
is, 48 of `aes_buff`, of which it compares the first 32. -/
def Accounts.Authenticate (accounts : Accounts) (c : Challenge) (received : List UInt8) : Verdict :=
  if received.length < 32 then .wants (32 - received.length)
  else match accounts.GetUser (received.take 32) with
    | none => .refused
    | some p =>
      if received.length < 80 then .wants (80 - received.length)
      else if accounts.EncryptAES256 c.r p c.iv = (received.drop 32).take 32 then .accepted
      else .refused

/-- What the arrays of the client's `Authenticate` hold before they are written. -/
structure Stack where
  garbage : List UInt8
  user : List UInt8
  hash : List UInt8
  garbage_length : garbage.length = 64
  user_length : user.length = 32

/-- `c_str`: a string ends at its first zero. -/
def cStr (text : List UInt8) : List UInt8 := text.takeWhile (· ≠ 0)

/-- `user`, after the `strcpy`. -/
def Stack.strcpy (stack : Stack) (username : List UInt8) : List UInt8 :=
  cStr username ++ 0 :: stack.user.drop ((cStr username).length + 1)

/-- What the client's `Authenticate` sends once it has the challenge. Of an empty password no digest
is taken. -/
def Accounts.answer (accounts : Accounts) (r iv username password : List UInt8) (stack : Stack) :
    List (List UInt8) :=
  if 32 ≤ username.length then [stack.garbage]
  else
    let hash := if cStr password = [] then stack.hash else accounts.SHA256Str (cStr password)
    [stack.strcpy username, accounts.EncryptAES256 r hash iv ++ accounts.tag r hash iv]

end DCScan
