import DCScan.Users

/-!
The login against the user table: what lets a peer in after any calls that have added and removed
users.

`Authenticate` is that of the login exchange, and the user it asks for is looked up in the tables of
the database. A user `INVALID_USER` can be registered, and is not let in.
-/

namespace DCScan.Credentials

open Lib RDB

/-- `Auth::EncryptAES256`: what it makes of a text, a key and an iv. -/
structure Cipher where
  result : List UInt8 → List UInt8 → List UInt8 → List UInt8
  tag : List UInt8 → List UInt8 → List UInt8 → List UInt8
  result_length : ∀ text key iv, (result text key iv).length = text.length
  tag_length : ∀ text key iv, (tag text key iv).length = 16

/-- `username_buff` as a string, when it ends in the array. -/
def nameIn (username_buff : List UInt8) : CString where
  bytes := cStr username_buff
  nul_free := by
    intro zero
    simpa using List.mem_takeWhile_imp zero

section

variable (sql : Sqlite) (sha : Digest) (cipher : Cipher)

/-- The accounts whose users are those of the database. -/
def accounts (db : Tables) : Accounts where
  GetUser username_buff := (GetUser sql db (nameIn username_buff)).bind fun user =>
    if user.u = invalidUser then none else user.p
  SHA256Str := sha.SHA256Str
  EncryptAES256 := cipher.result
  tag := cipher.tag

/-- The digest that the client takes of a password; of an empty one it takes none. -/
def digestOf (stack : Stack) (password : CString) : List UInt8 :=
  if password.bytes = [] then stack.hash else sha.SHA256Str password.bytes

/-- The user has a password whose digest encrypts the challenge to this text. -/
def Matches (calls : List UserCall) (c : Challenge) (username : CString) (text : List UInt8) : Prop :=
  username.bytes ≠ invalidUser ∧ ∃ password, passwordsOf calls username.bytes = some password ∧
    cipher.result c.r (sha.SHA256Str password.bytes) c.iv = text

/-- Who is let in. -/
structure LetsIn (calls : List UserCall) (db : Tables) : Prop where
  peer : ∀ c received username, received.length = 80 → 0 ∈ received.take 32 →
    cStr (received.take 32) = username.bytes → sql.SelectsUser username →
    ((accounts sql sha cipher db).Authenticate c received = .accepted ↔
      Matches sha cipher calls c username ((received.drop 32).take 32))
  client : ∀ c stack username password, sql.SelectsUser username →
    ((accounts sql sha cipher db).Authenticate c ((accounts sql sha cipher db).answer c.r c.iv
        username.bytes password.bytes stack).flatten = .accepted ↔
      Matches sha cipher calls c username (cipher.result c.r (digestOf sha stack password) c.iv))

end

variable {sql : Sqlite} {sha : Digest} {cipher : Cipher} {db : Tables} {m m' : Passwords}
variable {calls : List UserCall} {call : UserCall} {username password : CString} {c : Challenge}
variable {stack : Stack} {received : List UInt8}

/-! ## What the table holds -/

/-- A call, where a user `INVALID_USER` is registered again, and never removed. -/
def act (m : Passwords) : UserCall → Passwords
  | .AddUser username password =>
    if Acceptable username password ∧ (m username.bytes = none ∨ username.bytes = invalidUser) then
      Function.update m username.bytes (some password)
    else m
  | .RemoveUser username => if username.bytes = invalidUser then m else erase m username.bytes

theorem registered_act (held : Registered sha db m) (exact : sql.SelectsUser call.username) :
    ∃ t, db.userCall sql sha call = some t ∧ Registered sha t (act m call) := by
  cases call with
  | AddUser username password =>
    have exact : sql.SelectsUser username := exact
    refine ⟨_, held.addUser exact password, ?_⟩
    simp only [act]
    split
    · rename_i accepted
      exact held.register accepted.1
    · exact held
  | RemoveUser username =>
    refine ⟨_, held.removeUser exact, ?_⟩
    simp only [act]
    by_cases invalid : username.bytes = invalidUser
    · rw [if_pos (.inr invalid), if_pos invalid]
      exact held
    · rw [if_neg invalid]
      cases there : m username.bytes with
      | none =>
        have unchanged : erase m username.bytes = m := by
          rw [erase, ← there, Function.update_eq_self]
        rw [if_pos (.inl rfl), unchanged]
        exact held
      | some password =>
        rw [if_neg (by simp [invalid])]
        exact held.unregister

/-- Of the other users a call makes what it is to make. -/
theorem act_agrees (agree : ∀ k ≠ invalidUser, m k = m' k) {k : List UInt8} (other : k ≠ invalidUser) :
    act m call k = m'.call call k := by
  cases call with
  | AddUser username password =>
    simp only [act, Passwords.call]
    by_cases named : k = username.bytes
    · subst named
      by_cases acceptable : Acceptable username password
      · rw [if_pos acceptable, emplace_self, ← agree _ other]
        cases there : m username.bytes <;> simp [acceptable, other, there]
      · rw [if_neg fun both => acceptable both.1, if_neg acceptable]
        exact agree _ other
    · have left : (if Acceptable username password ∧
          (m username.bytes = none ∨ username.bytes = invalidUser) then
            Function.update m username.bytes (some password) else m) k = m k := by
        split
        · exact Function.update_of_ne named _ _
        · rfl
      have right : (if Acceptable username password then emplace m' username.bytes password
          else m') k = m' k := by
        split
        · exact emplace_other named
        · rfl
      rw [left, right]
      exact agree k other
  | RemoveUser username =>
    simp only [act, Passwords.call]
    by_cases named : k = username.bytes
    · subst named
      rw [if_neg other, erase_self, erase_self]
    · rw [erase_other named]
      split
      · exact agree k other
      · rw [erase_other named]
        exact agree k other

/-- However the user `INVALID_USER` is treated, the others have the passwords of their
registrations. -/
theorem runUsers_agrees (sha : Digest) (exact : ∀ call ∈ calls, sql.SelectsUser call.username) :
    ∃ db m, runUsers sql sha calls = some db ∧ Registered sha db m ∧
      ∀ k ≠ invalidUser, m k = passwordsOf calls k := by
  induction calls using List.reverseRecOn with
  | nil => exact ⟨CreateTables, _, rfl, registered_createTables, fun _ _ => rfl⟩
  | append_singleton calls call ih =>
    obtain ⟨db, m, ran, held, agree⟩ := ih fun call member => exact call (by simp [member])
    obtain ⟨t, stepped, after⟩ := registered_act held (exact call (by simp))
    refine ⟨t, act m call, ?_, after, fun k other => ?_⟩
    · rw [runUsers_concat, ran]
      exact stepped
    · rw [passwordsOf_concat]
      exact act_agrees agree other

/-! ## What is sent -/

/-- The user that the accounts find. -/
theorem accounts_getUser (held : Registered sha db m) (exact : sql.SelectsUser username)
    {username_buff : List UInt8} (named : cStr username_buff = username.bytes) :
    (accounts sql sha cipher db).GetUser username_buff =
      if username.bytes = invalidUser then none
      else (m username.bytes).map fun password => sha.SHA256Str password.bytes := by
  have same : nameIn username_buff = username := by
    cases username
    simp only [nameIn, CString.mk.injEq]
    exact named
  simp only [accounts, same, held.getUser exact, Option.bind_some, userOf]
  cases there : m username.bytes with
  | none => simp
  | some password => simp

/-- With 80 bytes the verdict is there. -/
theorem authenticate_whole (accounts : Accounts) (c : Challenge) (whole : received.length = 80) :
    accounts.Authenticate c received = .accepted ↔
      ∃ p, accounts.GetUser (received.take 32) = some p ∧
        accounts.EncryptAES256 c.r p c.iv = (received.drop 32).take 32 := by
  unfold Accounts.Authenticate
  rw [if_neg (by omega)]
  cases accounts.GetUser (received.take 32) with
  | none => simp
  | some p =>
    simp only [whole, lt_irrefl, if_false, Option.some.injEq, exists_eq_left']
    split <;> simp_all

theorem authenticate_iff (held : Registered sha db m)
    (agree : ∀ k ≠ invalidUser, m k = passwordsOf calls k) (exact : sql.SelectsUser username)
    (whole : received.length = 80) (named : cStr (received.take 32) = username.bytes) :
    (accounts sql sha cipher db).Authenticate c received = .accepted ↔
      Matches sha cipher calls c username ((received.drop 32).take 32) := by
  rw [authenticate_whole _ c whole, accounts_getUser held exact named, Matches]
  by_cases invalid : username.bytes = invalidUser
  · simp [invalid]
  · rw [if_neg invalid, agree _ invalid]
    simp only [Option.map_eq_some_iff, ne_eq, invalid, not_false_eq_true, true_and]
    constructor
    · rintro ⟨_, ⟨password, there, rfl⟩, same⟩
      exact ⟨password, there, same⟩
    · rintro ⟨password, there, same⟩
      exact ⟨_, ⟨password, there, rfl⟩, same⟩

/-- The array of the name, and the string in it. -/
theorem strcpy_array (short : username.bytes.length < 32) (stack : Stack) :
    (stack.strcpy username.bytes).length = 32 ∧
      cStr (stack.strcpy username.bytes) = username.bytes := by
  rw [Stack.strcpy, username.cStr_bytes]
  refine ⟨?_, ?_⟩
  · simp only [List.length_append, List.length_cons, List.length_drop, stack.user_length]
    omega
  · have plain : ∀ x ∈ username.bytes, decide (x ≠ 0) = true := by
      intro x member
      exact decide_eq_true fun zero => username.nul_free (zero ▸ member)
    rw [cStr, List.takeWhile_append_of_pos plain]
    simp

theorem answer_client (held : Registered sha db m)
    (agree : ∀ k ≠ invalidUser, m k = passwordsOf calls k) (exact : sql.SelectsUser username) :
    (accounts sql sha cipher db).Authenticate c ((accounts sql sha cipher db).answer c.r c.iv
        username.bytes password.bytes stack).flatten = .accepted ↔
      Matches sha cipher calls c username (cipher.result c.r (digestOf sha stack password) c.iv) := by
  unfold Accounts.answer
  split
  · rename_i long
    -- 64 bytes that say nothing, and no such user
    refine iff_of_false ?_ ?_
    · unfold Accounts.Authenticate
      simp only [List.flatten_cons, List.flatten_nil, List.append_nil, stack.garbage_length]
      split
      · nofun
      · split <;> simp
    · rintro ⟨valid, known, there, _⟩
      rw [← agree _ valid] at there
      obtain ⟨other, same, short, _⟩ := held.names _ _ there
      exact absurd (same ▸ short) (by omega)
  · rename_i short
    have fits : username.bytes.length < 32 := by omega
    obtain ⟨array, string⟩ := strcpy_array fits stack
    dsimp only
    have text : (cipher.result c.r (digestOf sha stack password) c.iv).length = 32 := by
      rw [cipher.result_length, c.r_length]
    have sent : (if cStr password.bytes = [] then stack.hash
        else (accounts sql sha cipher db).SHA256Str (cStr password.bytes)) =
        digestOf sha stack password := by
      rw [password.cStr_bytes]
      rfl
    rw [sent]
    have bytes : [stack.strcpy username.bytes, (accounts sql sha cipher db).EncryptAES256 c.r
          (digestOf sha stack password) c.iv ++
          (accounts sql sha cipher db).tag c.r (digestOf sha stack password) c.iv].flatten =
        stack.strcpy username.bytes ++ (cipher.result c.r (digestOf sha stack password) c.iv ++
          cipher.tag c.r (digestOf sha stack password) c.iv) := by
      simp [accounts]
    rw [bytes, authenticate_iff held agree exact, List.drop_left' array, List.take_left' text]
    · simp [array, text, cipher.tag_length]
    · rw [List.take_left' array, string]

theorem letsIn_of_registered (held : Registered sha db m)
    (agree : ∀ k ≠ invalidUser, m k = passwordsOf calls k) : LetsIn sql sha cipher calls db := by
  constructor
  · intro c received username whole _ named exactly
    exact authenticate_iff held agree exactly whole named
  · intro c stack username password exactly
    exact answer_client held agree exactly

/-- A cipher that adds the key to the text. -/
def adding : Cipher where
  result text key _ := text.mapIdx fun i b => b + key.getD i 0
  tag _ _ _ := List.replicate 16 0
  result_length _ _ _ := List.length_mapIdx
  tag_length _ _ _ := List.length_replicate

/-- A challenge of zeros, and arrays that hold zeros. -/
def zeros : Challenge := ⟨List.replicate 32 0, List.replicate 16 0, rfl, rfl⟩

def zeroStack : Stack := ⟨List.replicate 64 0, List.replicate 32 0, List.replicate 32 0, rfl, rfl⟩

end DCScan.Credentials
