import Mathlib.Data.List.Induction
import DCScan.Lib.Table
import DCScan.Rdb

/-!
The users of the realtime database: the rows of USERS compared with the passwords of the accepted
registrations.

That there is no such user is said by the name `INVALID_USER`. A user of that name can be added; from
then on it is taken for one that does not exist, so it is replaced when it is added again and stays
when it is removed.
-/

namespace DCScan.RDB

open Lib

inductive UserCall where
  | AddUser (username password : CString)
  | RemoveUser (username : CString)
  deriving DecidableEq

namespace UserCall

def username : UserCall → CString
  | AddUser username _ => username
  | RemoveUser username => username

end UserCall

/-- What `AddUser` asks of a name and a password. -/
def Acceptable (username password : CString) : Prop :=
  username.bytes.length < 32 ∧ space ∉ username.bytes ∧ space ∉ password.bytes ∧
    5 ≤ password.bytes.length ∧ ∃ c ∈ password.bytes, isdigit c = true

instance (username password : CString) : Decidable (Acceptable username password) :=
  inferInstanceAs (Decidable (_ ∧ _))

/-- The password of each user there is. -/
abbrev Passwords := List UInt8 → Option CString

/-- A registration is accepted when it is acceptable and there is no such user yet. -/
def Passwords.call (m : Passwords) : UserCall → Passwords
  | .AddUser username password =>
    if Acceptable username password then emplace m username.bytes password else m
  | .RemoveUser username => erase m username.bytes

def passwordsOf (calls : List UserCall) : Passwords := calls.foldl Passwords.call fun _ => none

section

variable (sql : Sqlite) (sha : Digest)

def Tables.userCall (db : Tables) : UserCall → Option Tables
  | .AddUser username password => AddUser sql sha db username password
  | .RemoveUser username => RemoveUser sql db username

def runUsers (calls : List UserCall) : Option Tables :=
  calls.foldlM (Tables.userCall sql sha) CreateTables

/-- What `GetUser` is to return. -/
def userOf (m : Passwords) (username : CString) : User :=
  match m username.bytes with
  | some password => ⟨username.bytes, some (sha.SHA256Str password.bytes)⟩
  | none => ⟨invalidUser, none⟩

/-- The rows of USERS are well formed. -/
structure WellFormed (rows : List UserRow) : Prop where
  unique : Distinct UserRow.username rows
  names : ∀ r ∈ rows, r.username.length < 32 ∧ space ∉ r.username
  blobs : ∀ r ∈ rows, r.passHash.length = 40 ∧ r.passHash.take 8 = leBytes 8 40

/-- The user table keeps its promises throughout the calls. -/
structure KeepsUsers (calls : List UserCall) : Prop where
  rows : ∀ before, before <+: calls →
    ∃ db, runUsers sql sha before = some db ∧ WellFormed db.USERS
  /-- A registration that is refused leaves the table as it was. -/
  refused : ∀ before username password, before ++ [.AddUser username password] <+: calls →
    ∀ db t, runUsers sql sha before = some db → AddUser sql sha db username password = some t →
    (¬ Acceptable username password ∨ ∃ r ∈ db.USERS, r.username = username.bytes) →
    t.USERS = db.USERS
  /-- `GetUser` returns the digest of the password last accepted. -/
  got : ∀ before, before <+: calls → ∀ db, runUsers sql sha before = some db →
    ∀ username, sql.SelectsUser username →
      GetUser sql db username = some (userOf sha (passwordsOf before) username)

end

/-- While there is a user `INVALID_USER`, it is not removed, nor added again with a password that
passes the checks. -/
def InvalidUserKept (calls : List UserCall) : Prop :=
  ∀ before call, before ++ [call] <+: calls → call.username.bytes = invalidUser →
    passwordsOf before invalidUser ≠ none →
    ∃ username password, call = .AddUser username password ∧ ¬ Acceptable username password

/-! ## One call -/

section

variable {sql : Sqlite} {sha : Digest} {db t : Tables} {m : Passwords} {call : UserCall}
variable {username password : CString} {k : List UInt8}

/-- The rows are those of the accepted registrations. -/
structure Registered (sha : Digest) (db : Tables) (m : Passwords) : Prop where
  unique : Distinct UserRow.username db.USERS
  agrees : ∀ k, (keyed UserRow.username db.USERS k).map UserRow.passHash =
    (m k).toList.map fun password => passHash sha password.bytes
  names : ∀ k password, m k = some password →
    ∃ username : CString, username.bytes = k ∧ Acceptable username password
  ids : ∀ r ∈ db.USERS, r.id ≤ db.userSequence

theorem passHash_length (password : List UInt8) : (passHash sha password).length = 40 := by
  simp [passHash, sha.length]

theorem passHash_take (password : List UInt8) : (passHash sha password).take 8 = leBytes 8 40 :=
  List.take_left' (leBytes_length 8 40)

/-- The blob that is written is read back whole. -/
theorem blobEntry_passHash (password : List UInt8) :
    blobEntry (passHash sha password) = some (passHash sha password) := by
  have size : leNat (leBytes 8 40) = 40 := leNat_leBytes_of_lt (by norm_num)
  have whole : (passHash sha password).take 40 = passHash sha password :=
    List.take_of_length_le (by rw [passHash_length])
  simp only [blobEntry, passHash_take, size, passHash_length, whole]
  rfl

/-- Behind its size is the digest. -/
theorem digest_passHash (password : List UInt8) :
    ((passHash sha password).drop 8).take 32 = sha.SHA256Str password := by
  rw [passHash, List.drop_left' (leBytes_length 8 40)]
  exact List.take_of_length_le (by rw [sha.length])

theorem Registered.absent (held : Registered sha db m) (none_there : m k = none) :
    keyed UserRow.username db.USERS k = [] := by
  have same := held.agrees k
  rw [none_there] at same
  simpa using same

theorem Registered.present (held : Registered sha db m) (there : m k = some password) :
    ∃ r ∈ db.USERS, keyed UserRow.username db.USERS k = [r] ∧ r.username = k ∧
      r.passHash = passHash sha password.bytes := by
  have same := held.agrees k
  rw [there, Option.toList_some, List.map_singleton, List.map_eq_singleton_iff] at same
  obtain ⟨r, only, blob⟩ := same
  have member : r ∈ keyed UserRow.username db.USERS k := by simp [only]
  obtain ⟨member, named⟩ := List.mem_filter.mp member
  exact ⟨r, member, only, by simpa using named, blob⟩

theorem Registered.row (held : Registered sha db m) {r : UserRow} (member : r ∈ db.USERS) :
    ∃ password, m r.username = some password ∧ r.passHash = passHash sha password.bytes := by
  cases there : m r.username with
  | none =>
    have gone := held.absent there
    have here : r ∈ keyed UserRow.username db.USERS r.username :=
      List.mem_filter.mpr ⟨member, by simp⟩
    rw [gone] at here
    cases here
  | some password =>
    obtain ⟨other, _, only, _, blob⟩ := held.present there
    have here : r ∈ keyed UserRow.username db.USERS r.username :=
      List.mem_filter.mpr ⟨member, by simp⟩
    rw [only, List.mem_singleton] at here
    exact ⟨password, rfl, here ▸ blob⟩

theorem Registered.wellFormed (held : Registered sha db m) : WellFormed db.USERS where
  unique := held.unique
  names r member := by
    obtain ⟨password, there, _⟩ := held.row member
    obtain ⟨username, named, short, spaceless, _⟩ := held.names _ _ there
    exact named ▸ ⟨short, spaceless⟩
  blobs r member := by
    obtain ⟨password, _, blob⟩ := held.row member
    rw [blob]
    exact ⟨passHash_length _, passHash_take _⟩

/-- `GetUser` finds the user, and copies no name that is too long. -/
theorem Registered.getUser (held : Registered sha db m) (exact : sql.SelectsUser username) :
    GetUser sql db username = some (userOf sha m username) := by
  unfold GetUser userOf
  cases there : m username.bytes with
  | none =>
    rw [exact.query_absent (held.absent there)]
    rfl
  | some password =>
    obtain ⟨r, _, only, named, blob⟩ := held.present there
    obtain ⟨other, same, short, _⟩ := held.names _ _ there
    have read : cStr r.username = username.bytes := by rw [named, username.cStr_bytes]
    rw [exact.query_present only, exact.query_present only, read, blob, blobEntry_passHash]
    simp only [Option.map_some, Option.bind_eq_bind, Option.bind_some, if_pos (same ▸ short),
      passHash_length, Nat.le_refl, if_true, digest_passHash]

theorem userOf_invalid (sha : Digest) (m : Passwords) (username : CString) :
    (userOf sha m username).u = invalidUser ↔
      m username.bytes = none ∨ username.bytes = invalidUser := by
  unfold userOf
  cases there : m username.bytes <;> simp

/-- The tables after an accepted registration. -/
def Tables.registered (sha : Digest) (db : Tables) (username password : CString) : Tables :=
  (db.insertUser username.bytes (passHash sha password.bytes)).LogEventSystem .USR_CREATE
    username.bytes

/-- The tables without a user. -/
def Tables.unregistered (db : Tables) (username : CString) : Tables :=
  Tables.LogEventSystem { db with USERS := without UserRow.username db.USERS username.bytes }
    .USR_DELETE username.bytes

theorem Registered.addUser (held : Registered sha db m) (exact : sql.SelectsUser username)
    (password : CString) :
    AddUser sql sha db username password =
      some (if Acceptable username password ∧
          (m username.bytes = none ∨ username.bytes = invalidUser) then
        db.registered sha username password else db) := by
  have got := held.getUser exact
  have invalid := userOf_invalid sha m username
  unfold AddUser
  by_cases long : 32 ≤ username.bytes.length
  · rw [if_pos long, if_neg fun both => absurd both.1.1 (by omega)]
  rw [if_neg long]
  by_cases spaces : space ∈ username.bytes ∨ space ∈ password.bytes
  · rw [if_pos spaces, if_neg fun both => spaces.elim both.1.2.1 both.1.2.2.1]
  rw [if_neg spaces, got, Option.bind_eq_bind, Option.bind_some]
  by_cases there : m username.bytes = none ∨ username.bytes = invalidUser
  · rw [if_neg fun other => other (invalid.mpr there)]
    by_cases short : password.bytes.length < 5
    · rw [if_pos short, if_neg fun both => absurd both.1.2.2.2.1 (by omega)]
    rw [if_neg short]
    by_cases digit : ∃ c ∈ password.bytes, isdigit c = true
    · have found : ¬ (password.bytes.all (fun c => !isdigit c)) = true := by simpa using digit
      have acceptable : Acceptable username password :=
        ⟨by omega, fun inside => spaces (Or.inl inside), fun inside => spaces (Or.inr inside),
          by omega, digit⟩
      rw [if_neg found, if_pos ⟨acceptable, there⟩]
      rfl
    · have none_found : (password.bytes.all (fun c => !isdigit c)) = true := by simpa using digit
      rw [if_pos none_found, if_neg fun both => digit both.1.2.2.2.2]
  · rw [if_pos fun other => there (invalid.mp other), if_neg fun both => there both.2]

theorem Registered.removeUser (held : Registered sha db m) (exact : sql.SelectsUser username) :
    RemoveUser sql db username =
      some (if m username.bytes = none ∨ username.bytes = invalidUser then db
        else db.unregistered username) := by
  have got := held.getUser exact
  have invalid := userOf_invalid sha m username
  unfold RemoveUser
  rw [got, Option.bind_eq_bind, Option.bind_some]
  by_cases there : m username.bytes = none ∨ username.bytes = invalidUser
  · rw [if_pos (invalid.mpr there), if_pos there]
  · rw [if_neg fun other => there (invalid.mp other), if_neg there]
    cases known : m username.bytes with
    | none => exact absurd (Or.inl known) there
    | some password =>
      obtain ⟨r, _, only, _⟩ := held.present known
      obtain ⟨meets, prepared⟩ := exact.prepared db.USERS (by simp [only])
      rw [prepared]
      simp only [exact.rest prepared]
      rfl

theorem Registered.register (held : Registered sha db m)
    (acceptable : Acceptable username password) :
    Registered sha (db.registered sha username password)
      (Function.update m username.bytes (some password)) where
  unique := held.unique.upsert
  agrees k := by
    by_cases same : k = username.bytes
    · subst same
      rw [Function.update_self]
      exact congrArg (List.map UserRow.passHash) keyed_upsert_self
    · rw [Function.update_of_ne same, ← held.agrees k]
      exact congrArg (List.map UserRow.passHash) (keyed_upsert_other same)
  names k known found := by
    rcases update_cases found with ⟨rfl, new⟩ | ⟨_, old⟩
    · exact ⟨username, rfl, Option.some.inj new ▸ acceptable⟩
    · exact held.names k known old
  ids r member := by
    have later : (db.registered sha username password).userSequence = db.userSequence + 1 := rfl
    rw [later]
    rcases mem_upsert.mp member with ⟨old, _⟩ | rfl
    · have := held.ids r old
      omega
    · exact Int.le_refl _

theorem Registered.unregister (held : Registered sha db m) :
    Registered sha (db.unregistered username) (erase m username.bytes) where
  unique := held.unique.without
  agrees k := by
    by_cases same : k = username.bytes
    · subst same
      rw [erase, Function.update_self]
      exact congrArg (List.map UserRow.passHash) keyed_without_self
    · rw [erase, Function.update_of_ne same, ← held.agrees k]
      exact congrArg (List.map UserRow.passHash) (keyed_without_other same)
  names k known found := by
    rcases update_cases found with ⟨_, ⟨⟩⟩ | ⟨_, old⟩
    exact held.names k known old
  ids r member := held.ids r (mem_without.mp member).1

/-- A replacement is seen in the table: it has a new ID. -/
theorem Registered.registered_ne (held : Registered sha db m) :
    (db.registered sha username password).USERS ≠ db.USERS := by
  intro same
  have new : (⟨db.userSequence + 1, username.bytes, passHash sha password.bytes, 0⟩ : UserRow) ∈
      db.USERS := same ▸ mem_upsert.mpr (Or.inr rfl)
  have := held.ids _ new
  simp at this

/-! ## Runs of calls -/

/-- A call that does not touch an existing user `INVALID_USER` does what it is to do. -/
theorem Registered.step (held : Registered sha db m) (exact : sql.SelectsUser call.username)
    (kept : call.username.bytes = invalidUser → m invalidUser ≠ none →
      ∃ username password, call = .AddUser username password ∧ ¬ Acceptable username password) :
    ∃ t, db.userCall sql sha call = some t ∧ Registered sha t (m.call call) := by
  cases call with
  | AddUser username password =>
    have exact : sql.SelectsUser username := exact
    refine ⟨_, held.addUser exact password, ?_⟩
    simp only [Passwords.call]
    by_cases acceptable : Acceptable username password
    · rw [if_pos acceptable]
      cases there : m username.bytes with
      | none =>
        rw [if_pos ⟨acceptable, Or.inl rfl⟩, emplace, there]
        exact held.register acceptable
      | some known =>
        have other : username.bytes ≠ invalidUser := by
          intro same
          obtain ⟨u, p, ⟨⟩, refused⟩ := kept same (by rw [← same, there]; simp)
          exact refused acceptable
        have unchanged : emplace m username.bytes password = m := by
          rw [emplace, there, Option.getD_some, ← there, Function.update_eq_self]
        rw [if_neg (by simp [other]), unchanged]
        exact held
    · rw [if_neg acceptable, if_neg fun both => acceptable both.1]
      exact held
  | RemoveUser username =>
    have exact : sql.SelectsUser username := exact
    refine ⟨_, held.removeUser exact, ?_⟩
    simp only [Passwords.call]
    by_cases there : m username.bytes = none
    · have unchanged : erase m username.bytes = m := by
        rw [erase, ← there, Function.update_eq_self]
      rw [if_pos (Or.inl there), unchanged]
      exact held
    · have other : username.bytes ≠ invalidUser := by
        intro same
        obtain ⟨u, p, ⟨⟩, _⟩ := kept same (same ▸ there)
      rw [if_neg (by simp [there, other])]
      exact held.unregister

theorem registered_createTables : Registered sha CreateTables (fun _ => none) where
  unique := List.nodup_nil
  agrees _ := rfl
  names _ _ found := by cases found
  ids _ member := by cases member

theorem runUsers_concat (calls : List UserCall) :
    runUsers sql sha (calls ++ [call]) =
      (runUsers sql sha calls).bind fun db => db.userCall sql sha call := by
  simp [runUsers]

theorem passwordsOf_concat (calls : List UserCall) :
    passwordsOf (calls ++ [call]) = (passwordsOf calls).call call := by
  simp [passwordsOf]

theorem runUsers_registered {calls : List UserCall}
    (exact : ∀ call ∈ calls, sql.SelectsUser call.username) (kept : InvalidUserKept calls) :
    ∃ db, runUsers sql sha calls = some db ∧ Registered sha db (passwordsOf calls) := by
  induction calls using List.reverseRecOn with
  | nil => exact ⟨CreateTables, rfl, registered_createTables⟩
  | append_singleton calls call ih =>
    obtain ⟨db, ran, held⟩ := ih (fun call member => exact call (by simp [member]))
      (fun before call front => kept before call (front.trans (by simp)))
    obtain ⟨t, stepped, held⟩ := held.step (exact call (by simp))
      (kept calls call (List.prefix_refl _))
    refine ⟨t, ?_, passwordsOf_concat calls ▸ held⟩
    rw [runUsers_concat, ran]
    exact stepped

/-- The user `INVALID_USER` is replaced by a registration, and is not removed. -/
theorem KeepsUsers.kept_at {calls before : List UserCall} (keeps : KeepsUsers sql sha calls)
    (front : before ++ [call] <+: calls) (exact : sql.SelectsUser call.username)
    (ran : runUsers sql sha before = some db) (held : Registered sha db (passwordsOf before))
    (invalid : call.username.bytes = invalidUser) (there : passwordsOf before invalidUser ≠ none) :
    ∃ username password, call = .AddUser username password ∧ ¬ Acceptable username password := by
  obtain ⟨known, there⟩ := Option.ne_none_iff_exists'.mp there
  cases call with
  | AddUser username password =>
    refine ⟨username, password, rfl, fun acceptable => ?_⟩
    have exact : sql.SelectsUser username := exact
    have invalid : username.bytes = invalidUser := invalid
    have added := held.addUser exact password
    rw [if_pos ⟨acceptable, Or.inr invalid⟩] at added
    obtain ⟨r, member, _, named, _⟩ := held.present there
    exact held.registered_ne (keeps.refused before username password front db _ ran added
      (Or.inr ⟨r, member, named.trans invalid.symm⟩))
  | RemoveUser username =>
    exfalso
    have invalid : username.bytes = invalidUser := invalid
    have exact : sql.SelectsUser username := exact
    have removed := held.removeUser exact
    rw [if_pos (Or.inr invalid)] at removed
    have after : runUsers sql sha (before ++ [.RemoveUser username]) = some db := by
      rw [runUsers_concat, ran]
      exact removed
    have promised := keeps.got _ front db after username exact
    rw [held.getUser exact, passwordsOf_concat] at promised
    simp [userOf, Passwords.call, erase, invalid, there] at promised

theorem KeepsUsers.invalidUserKept {calls : List UserCall}
    (exact : ∀ call ∈ calls, sql.SelectsUser call.username) (keeps : KeepsUsers sql sha calls) :
    InvalidUserKept calls := by
  have registered : ∀ before, before <+: calls →
      ∃ db, runUsers sql sha before = some db ∧ Registered sha db (passwordsOf before) := by
    intro before
    induction before using List.reverseRecOn with
    | nil => exact fun _ => ⟨CreateTables, rfl, registered_createTables⟩
    | append_singleton before call ih =>
      intro front
      have exact := exact call (front.subset (by simp))
      obtain ⟨db, ran, held⟩ := ih ((List.prefix_append _ _).trans front)
      obtain ⟨t, stepped, held⟩ := held.step exact (keeps.kept_at front exact ran held)
      refine ⟨t, ?_, passwordsOf_concat before ▸ held⟩
      rw [runUsers_concat, ran]
      exact stepped
  intro before call front
  obtain ⟨db, ran, held⟩ := registered before ((List.prefix_append _ _).trans front)
  exact keeps.kept_at front (exact call (front.subset (by simp))) ran held

/-- **The user table keeps its promises**, for any sequence of calls, if and only if a user
`INVALID_USER`, while there is one, is neither removed nor registered again. -/
theorem keepsUsers_iff (calls : List UserCall)
    (exact : ∀ call ∈ calls, sql.SelectsUser call.username) :
    KeepsUsers sql sha calls ↔ InvalidUserKept calls := by
  constructor
  · exact KeepsUsers.invalidUserKept exact
  · intro kept
    have holds : ∀ before, before <+: calls →
        ∃ db, runUsers sql sha before = some db ∧ Registered sha db (passwordsOf before) :=
      fun before front =>
        runUsers_registered (fun call member => exact call (front.subset member))
          fun first call early => kept first call (early.trans front)
    have registered : ∀ before, before <+: calls → ∀ db, runUsers sql sha before = some db →
        Registered sha db (passwordsOf before) := by
      intro before front db ran
      obtain ⟨same, also, held⟩ := holds before front
      exact Option.some.inj (also.symm.trans ran) ▸ held
    refine ⟨fun before front => ?_, fun before username password front db t ran added why => ?_,
      fun before front db ran username named => (registered before front db ran).getUser named⟩
    · obtain ⟨db, ran, held⟩ := holds before front
      exact ⟨db, ran, held.wellFormed⟩
    · have held := registered before ((List.prefix_append _ _).trans front) db ran
      have named : sql.SelectsUser username :=
        exact (.AddUser username password) (front.subset (by simp))
      have result := held.addUser named password
      rw [added] at result
      rw [Option.some.inj result, if_neg]
      rintro ⟨acceptable, absent⟩
      rcases why with refused | ⟨r, member, named⟩
      · exact refused acceptable
      · obtain ⟨known, there, _⟩ := held.row member
        rw [named] at there
        rcases absent with absent | invalid
        · rw [absent] at there
          cases there
        · obtain ⟨u, p, ⟨⟩, refused⟩ := kept before _ front invalid (by
            rw [← invalid, there]
            simp)
          exact refused acceptable

end

def root : CString := ⟨ascii "root", by decide⟩

def invalidName : CString := ⟨invalidUser, by decide⟩

def pass1 : CString := ⟨ascii "pass1", by decide⟩

def other2 : CString := ⟨ascii "other2", by decide⟩

/-- A digest that tells the first bytes of the text. -/
def firstBytes : Digest where
  SHA256Str s := s.take 32 ++ List.replicate (32 - s.length) 0
  length s := by simp; omega

theorem keepsUsers_root :
    KeepsUsers Sqlite.byText firstBytes
      [.AddUser root pass1, .AddUser root other2, .RemoveUser root, .AddUser root other2] :=
  (keepsUsers_iff _ fun call _ => byText_selectsUser call.username).mpr (by
    intro before call front invalid
    have named : call.username = root := by
      have member := front.subset (List.mem_append_right before (List.mem_singleton_self call))
      simp only [List.mem_cons, List.not_mem_nil, or_false] at member
      rcases member with rfl | rfl | rfl | rfl <;> rfl
    rw [named] at invalid
    exact absurd invalid (by decide))

/-- The user `INVALID_USER` is registered, and registered again with another password. -/
theorem invalid_user_replaced :
    ¬ KeepsUsers Sqlite.byText firstBytes
      [.AddUser invalidName pass1, .AddUser invalidName other2] := by
  intro keeps
  have kept := keeps.invalidUserKept fun call _ => byText_selectsUser call.username
  obtain ⟨username, password, ⟨⟩, refused⟩ := kept [.AddUser invalidName pass1]
    (.AddUser invalidName other2) (List.prefix_refl _) rfl (by decide)
  exact refused (by decide)

end DCScan.RDB
