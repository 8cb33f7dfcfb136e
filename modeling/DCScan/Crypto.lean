import DCScan.Login

/-!
The server's `Authenticate` over an OpenSSL whose calls can fail: what the answer of a client is
compared with when `EncryptAES256` returns early.

The cipher, the digest and the user table are those of `Accounts`. `OpenSSL` adds the outcome of every
call, and what the bytes hold that a failed call was to write. Nothing that fails is reported to
`Authenticate`.
-/

namespace DCScan.Auth

open Lib

/-! ## OpenSSL -/

/-- The calls of `EncryptAES256`, in their order. -/
inductive Call where
  | EVP_CIPHER_CTX_new
  /-- `EVP_EncryptInit_ex` with `EVP_aes_256_gcm()`. -/
  | setType
  /-- `EVP_CTRL_GCM_SET_IVLEN`. -/
  | setIvLength
  /-- `EVP_EncryptInit_ex` with the key and the iv. -/
  | setKey
  /-- `EVP_EncryptUpdate` without an output, where there is `aad`. -/
  | authenticate
  | EVP_EncryptUpdate
  | EVP_EncryptFinal_ex
  /-- `EVP_CTRL_GCM_GET_TAG`. -/
  | getTag
  deriving DecidableEq, Repr

/-- What `EncryptAES256` logs where the call fails. -/
def Call.error : Call → String
  | EVP_CIPHER_CTX_new => "Failed to initialize a new openssl cipher context."
  | setType => "Failed to setup AES256 (GCM mode) as the openssl cipher type."
  | setIvLength => "Failed to setup the cipher iv length to 128-bit."
  | setKey => "Failed to assign the cipher's iv and key."
  | authenticate => "Failed to assign the cipher's message AAD."
  | EVP_EncryptUpdate => "Failed to encrypt the message with AES256 in GCM mode."
  | EVP_EncryptFinal_ex => "Failed to finalize the message encryption with AES256 in GCM mode."
  | getTag => "Failed to get the GCM mode tag."

/-- A call of `RAND_bytes` for 16 bytes. -/
structure Draw where
  succeeds : Bool
  /-- What they hold afterwards. Where the call fails they are anything. -/
  bytes : List UInt8
  bytes_length : bytes.length = 16

/-- What becomes of the calls that one `Authenticate` makes. -/
structure OpenSSL where
  /-- The two halves of `r`, and `iv`. -/
  first : Draw
  second : Draw
  third : Draw
  succeeds : Call → Bool
  /-- What a failing `EVP_EncryptUpdate` makes of its output. -/
  spoil : List UInt8 → List UInt8
  spoil_length : ∀ out, (spoil out).length = out.length

/-! ## The code -/

/-- `cRandInit`, after `InitCryptoRand`. The result of `RAND_poll` is not looked at. -/
def InitCryptoRand (_cRandInit : Bool) : Bool := true

/-- `GenerateRandSafeIV128`: the 16 bytes at `iv` afterwards. -/
def GenerateRandSafeIV128 (cRandInit : Bool) (draw : Draw) (iv : List UInt8) : List UInt8 :=
  if cRandInit then draw.bytes else iv

/-- What `EncryptAES256` leaves behind. -/
structure Encrypted where
  encrypted_out : List UInt8
  tag : List UInt8
  /-- What it has logged. -/
  error : Option String
  deriving DecidableEq, Repr

/-- `EncryptAES256`, where `encrypted_out` and `tag` hold these bytes before it. A null `aad` is the
empty one. -/
def EncryptAES256 (accounts : Accounts) (ssl : OpenSSL) (to_encrypt aad key iv encrypted_out
    tag : List UInt8) : Encrypted :=
  let exit (failed : Call) (out : List UInt8) : Encrypted := ⟨out, tag, some failed.error⟩
  if !ssl.succeeds .EVP_CIPHER_CTX_new then exit .EVP_CIPHER_CTX_new encrypted_out
  else if !ssl.succeeds .setType then exit .setType encrypted_out
  else if !ssl.succeeds .setIvLength then exit .setIvLength encrypted_out
  else if !ssl.succeeds .setKey then exit .setKey encrypted_out
  else if aad ≠ [] ∧ !ssl.succeeds .authenticate then exit .authenticate encrypted_out
  else if !ssl.succeeds .EVP_EncryptUpdate then exit .EVP_EncryptUpdate (ssl.spoil encrypted_out)
  else
    let written := blit encrypted_out 0 (accounts.EncryptAES256 to_encrypt key iv)
    -- In GCM mode the last call writes no more text.
    if !ssl.succeeds .EVP_EncryptFinal_ex then exit .EVP_EncryptFinal_ex written
    else if !ssl.succeeds .getTag then exit .getTag written
    else ⟨written, accounts.tag to_encrypt key iv, none⟩

/-- The loop over `result` and `aes_buff`. -/
def compare (result aes_buff : List UInt8) : Bool :=
  (List.range 32).all fun i => result[i]? == aes_buff[i]?

/-- What the arrays of the server's `Authenticate` hold before they are written. -/
structure ServerStack where
  r : List UInt8
  iv : List UInt8

/-- `r`, once the two halves are drawn. -/
def OpenSSL.r (ssl : OpenSSL) (cRandInit : Bool) (stack : ServerStack) : List UInt8 :=
  GenerateRandSafeIV128 cRandInit ssl.first (stack.r.take 16) ++
    GenerateRandSafeIV128 cRandInit ssl.second (stack.r.drop 16)

/-- `iv`, once it is drawn. -/
def OpenSSL.iv (ssl : OpenSSL) (cRandInit : Bool) (stack : ServerStack) : List UInt8 :=
  GenerateRandSafeIV128 cRandInit ssl.third stack.iv

/-- The server's `Authenticate`, over the 32 bytes and the 48 bytes that it receives. -/
def Authenticate (accounts : Accounts) (ssl : OpenSSL) (cRandInit : Bool) (stack : ServerStack)
    (username_buff aes_buff : List UInt8) : Bool :=
  let cRandInit := InitCryptoRand cRandInit
  let r := ssl.r cRandInit stack
  let iv := ssl.iv cRandInit stack
  match accounts.GetUser username_buff with
  | none => false
  | some p =>
    let result := (EncryptAES256 accounts ssl r [] p iv (.replicate 32 0) (.replicate 16 0)).encrypted_out
    compare result aes_buff

/-! ## What an exit leaves -/

variable {accounts : Accounts} {ssl : OpenSSL} {cRandInit : Bool} {stack : ServerStack}
  {username_buff aes_buff : List UInt8}

/-- The calls before the first that writes succeed. -/
def OpenSSL.SetsUp (ssl : OpenSSL) : Prop :=
  ssl.succeeds .EVP_CIPHER_CTX_new ∧ ssl.succeeds .setType ∧ ssl.succeeds .setIvLength ∧
    ssl.succeeds .setKey

/-- All calls of an encryption without `aad` succeed. -/
structure OpenSSL.Encrypts (ssl : OpenSSL) : Prop where
  setsUp : ssl.SetsUp
  update : ssl.succeeds .EVP_EncryptUpdate
  final : ssl.succeeds .EVP_EncryptFinal_ex
  tag : ssl.succeeds .getTag

/-- The challenge is drawn. -/
structure OpenSSL.Draws (ssl : OpenSSL) : Prop where
  first : ssl.first.succeeds
  second : ssl.second.succeeds
  third : ssl.third.succeeds

instance : Decidable ssl.SetsUp := by unfold OpenSSL.SetsUp; infer_instance

/-- Without a log line nothing failed, and the other way round. -/
theorem EncryptAES256_error_none (to_encrypt key iv out tag : List UInt8) :
    (EncryptAES256 accounts ssl to_encrypt [] key iv out tag).error = none ↔ ssl.Encrypts := by
  constructor
  · intro silent
    refine ⟨⟨?_, ?_, ?_, ?_⟩, ?_, ?_, ?_⟩ <;>
      · by_contra failed
        simp only [Bool.not_eq_true] at failed
        simp only [EncryptAES256, failed] at silent
        grind
  · rintro ⟨⟨ctx, type, length, key⟩, update, final, tag⟩
    simp [EncryptAES256, ctx, type, length, key, update, final, tag]

/-- The output by the call that fails first. -/
theorem EncryptAES256_out (to_encrypt key iv out tag : List UInt8) :
    (EncryptAES256 accounts ssl to_encrypt [] key iv out tag).encrypted_out =
      if ssl.SetsUp then
        if ssl.succeeds .EVP_EncryptUpdate then
          blit out 0 (accounts.EncryptAES256 to_encrypt key iv)
        else ssl.spoil out
      else out := by
  unfold EncryptAES256 OpenSSL.SetsUp
  grind

/-! ## Which answers are accepted -/

/-- The challenge as it is sent: whatever the three blocks hold. -/
def OpenSSL.challenge (ssl : OpenSSL) : Challenge where
  r := ssl.first.bytes ++ ssl.second.bytes
  iv := ssl.third.bytes
  r_length := by simp [ssl.first.bytes_length, ssl.second.bytes_length]
  iv_length := ssl.third.bytes_length

/-- What the server holds against an answer to a user with this hash. -/
def OpenSSL.expected (accounts : Accounts) (ssl : OpenSSL) (p : List UInt8) : List UInt8 :=
  if ssl.SetsUp then
    if ssl.succeeds .EVP_EncryptUpdate then
      accounts.EncryptAES256 ssl.challenge.r p ssl.challenge.iv
    else ssl.spoil (.replicate 32 0)
  else .replicate 32 0

/-- `EVP_EncryptUpdate` in GCM mode writes as many bytes as it reads. -/
def KeepsLength (accounts : Accounts) : Prop :=
  ∀ text key iv, (accounts.EncryptAES256 text key iv).length = text.length

theorem expected_length (gcm : KeepsLength accounts) (p : List UInt8) :
    (ssl.expected accounts p).length = 32 := by
  unfold OpenSSL.expected
  split
  · split
    · rw [gcm, ssl.challenge.r_length]
    · rw [ssl.spoil_length, List.length_replicate]
  · exact List.length_replicate

theorem encrypted_eq_expected (gcm : KeepsLength accounts) (p : List UInt8) :
    (EncryptAES256 accounts ssl ssl.challenge.r [] p ssl.challenge.iv (.replicate 32 0)
      (.replicate 16 0)).encrypted_out = ssl.expected accounts p := by
  have whole : (accounts.EncryptAES256 ssl.challenge.r p ssl.challenge.iv).length = 32 := by
    rw [gcm, ssl.challenge.r_length]
  rw [EncryptAES256_out, OpenSSL.expected]
  simp [blit, whole]

/-- The loop compares the first 32 bytes. -/
theorem compare_iff {result : List UInt8} (block : result.length = 32) :
    compare result aes_buff ↔ aes_buff.take 32 = result := by
  simp only [compare, List.all_eq_true, List.mem_range, beq_iff_eq]
  constructor
  · intro same
    apply List.ext_getElem?
    intro i
    rcases lt_or_ge i 32 with inside | outside
    · rw [List.getElem?_take_of_lt inside, same i inside]
    · rw [List.getElem?_eq_none (by simp; omega), List.getElem?_eq_none (by omega)]
  · rintro rfl i inside
    rw [List.getElem?_take_of_lt inside]

/-- An answer is accepted when the user is there and the answer is what the server holds against
it. -/
theorem Authenticate_iff (gcm : KeepsLength accounts) :
    Authenticate accounts ssl cRandInit stack username_buff aes_buff ↔
      ∃ p, accounts.GetUser username_buff = some p ∧ aes_buff.take 32 = ssl.expected accounts p := by
  have r : ssl.r (InitCryptoRand cRandInit) stack = ssl.challenge.r := rfl
  have iv : ssl.iv (InitCryptoRand cRandInit) stack = ssl.challenge.iv := rfl
  simp only [Authenticate, r, iv]
  cases user : accounts.GetUser username_buff with
  | none => simp
  | some p =>
    simp only [encrypted_eq_expected gcm, compare_iff (expected_length gcm p),
      Option.some.injEq, exists_eq_left']

/-- Where every call succeeds this is the exchange of `Accounts`. -/
theorem Authenticate_eq_accepted (gcm : KeepsLength accounts) (username : username_buff.length = 32)
    (answer : aes_buff.length = 48) (encrypts : ssl.Encrypts) :
    Authenticate accounts ssl cRandInit stack username_buff aes_buff ↔
      accounts.Authenticate ssl.challenge (username_buff ++ aes_buff) = .accepted := by
  rw [Authenticate_iff gcm]
  have cipher (p : List UInt8) : ssl.expected accounts p =
      accounts.EncryptAES256 ssl.challenge.r p ssl.challenge.iv := by
    rw [OpenSSL.expected, if_pos encrypts.setsUp, if_pos encrypts.update]
  unfold Accounts.Authenticate
  rw [if_neg (by simp; omega), List.take_left' username, List.drop_left' username]
  cases user : accounts.GetUser username_buff with
  | none => simp
  | some p =>
    simp only [Option.some.injEq, exists_eq_left', cipher]
    rw [if_neg (by simp; omega)]
    split <;> simp_all [eq_comm]

/-! ## Failing closed -/

/-- The login is granted to the users there are, and to those that have encrypted the fresh challenge
under their hash. -/
def FailsClosed (accounts : Accounts) (ssl : OpenSSL) (cRandInit : Bool) (stack : ServerStack)
    (username_buff aes_buff : List UInt8) : Prop :=
  Authenticate accounts ssl cRandInit stack username_buff aes_buff →
    ∃ p, accounts.GetUser username_buff = some p ∧ ssl.Draws ∧ ssl.Encrypts ∧
      aes_buff.take 32 = accounts.EncryptAES256 ssl.challenge.r p ssl.challenge.iv

/-- The answer is not the block that the exit has left: the zeros where nothing is written yet, what
a failing call has made of them, and the whole text where a later call fails or the challenge is not
drawn. -/
structure Misses (accounts : Accounts) (ssl : OpenSSL) (p aes_buff : List UInt8) : Prop where
  zeros : ¬ ssl.SetsUp → aes_buff.take 32 ≠ .replicate 32 0
  spoiled : ssl.SetsUp → ssl.succeeds .EVP_EncryptUpdate = false →
    aes_buff.take 32 ≠ ssl.spoil (.replicate 32 0)
  written : ssl.SetsUp → ssl.succeeds .EVP_EncryptUpdate = true →
    aes_buff.take 32 ≠ accounts.EncryptAES256 ssl.challenge.r p ssl.challenge.iv

theorem misses_iff (p : List UInt8) :
    Misses accounts ssl p aes_buff ↔ aes_buff.take 32 ≠ ssl.expected accounts p := by
  unfold OpenSSL.expected
  constructor
  · rintro ⟨zeros, spoiled, written⟩
    split_ifs with setsUp update
    · exact written setsUp update
    · exact spoiled setsUp (by simpa using update)
    · exact zeros setsUp
  · intro other
    constructor
    · intro failed
      rwa [if_neg failed] at other
    · intro setsUp failed
      rwa [if_pos setsUp, if_neg (by simp [failed])] at other
    · intro setsUp update
      rwa [if_pos setsUp, if_pos update] at other

/-- One user, whose hash no one knows, and a cipher that never yields zeros. -/
def sampleAccounts : Accounts where
  GetUser name := if name = ascii "operator" ++ .replicate 24 0 then some (.replicate 32 7) else none
  SHA256Str _ := .replicate 32 7
  EncryptAES256 text key iv := text.mapIdx fun i b => 1 ||| (b ^^^ key.getD i 0 ^^^ iv.getD (i % 16) 0)
  tag _ _ _ := .replicate 16 9

def drawn (byte : UInt8) : Draw := ⟨true, .replicate 16 byte, List.length_replicate⟩

theorem length_id (out : List UInt8) : (id out).length = out.length := rfl

/-- OpenSSL has no memory for a context. -/
def outOfMemory : OpenSSL where
  first := drawn 1
  second := drawn 2
  third := drawn 3
  succeeds
    | .EVP_CIPHER_CTX_new => false
    | _ => true
  spoil := id
  spoil_length := length_id

theorem sampleAccounts_keepsLength : KeepsLength sampleAccounts := by
  intro text key iv
  exact List.length_mapIdx

end DCScan.Auth
