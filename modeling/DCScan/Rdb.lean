import Mathlib.Data.List.TakeWhile
import DCScan.Lib.Bytes
import DCScan.Lib.Keyed
import DCScan.Login

/-!
`DCS::RDB`: the tables of the realtime database, and the functions that read and write them.

What a WHERE text selects is SQLite's to say, and the functions take it as a parameter. A result
`none` is undefined behaviour: a copy past the end of its object, or a string made of a null pointer.
-/

namespace DCScan.RDB

open Lib

/-- A `const char*`: the bytes before the terminating zero. -/
structure CString where
  bytes : List UInt8
  nul_free : 0 ∉ bytes
  deriving DecidableEq

theorem CString.cStr_bytes (s : CString) : cStr s.bytes = s.bytes := by
  apply List.takeWhile_eq_self_iff.mpr
  intro c member
  have not_zero : c ≠ 0 := fun zero => s.nul_free (zero ▸ member)
  simpa using not_zero

/-- A row of USERS. -/
structure UserRow where
  id : Int
  username : List UInt8
  passHash : List UInt8
  accessLvl : Int
  deriving DecidableEq

/-- A row of VARIABLES; a descriptor may be NULL. -/
structure VariableRow where
  rowid : Int
  name : List UInt8
  value : List UInt8
  descriptor : Option (List UInt8)
  deriving DecidableEq

inductive LogOperation where
  | VAR_CREATE | VAR_UPDATE | VAR_DELETE | USR_CREATE | USR_DELETE | NETWORK
  deriving DecidableEq, Repr

/-- A row of EVENTS. -/
structure EventRow where
  username : List UInt8
  operation : LogOperation
  description : List UInt8
  deriving DecidableEq

/-- The tables, and `authenticated_username`. -/
structure Tables where
  USERS : List UserRow
  /-- The largest ID that USERS has had (AUTOINCREMENT). -/
  userSequence : Int
  VARIABLES : List VariableRow
  EVENTS : List EventRow
  authenticatedUsername : List UInt8
  deriving DecidableEq

/-- `CreateTables`, on a new database. -/
def CreateTables : Tables := ⟨[], 0, [], [], []⟩

/-- What a WHERE text selects; `none` when `sqlite3_prepare` rejects the statement. -/
structure Sqlite where
  ofUsers : List UInt8 → Option (UserRow → Bool)
  ofVariables : List UInt8 → Option (VariableRow → Bool)

section

variable {ρ α : Type}

/-- The rows that a statement steps through. -/
def selected (statement : Option (ρ → Bool)) (rows : List ρ) : List ρ :=
  match statement with
  | some meets => rows.filter meets
  | none => []

/-- `QueryEntries` of one column. For the second row it reads a second column, which there is not. -/
def QueryEntries (statement : Option (ρ → Bool)) (rows : List ρ) (read : ρ → Option α) :
    Option (List α) :=
  match selected statement rows with
  | [] => some []
  | [row] => (read row).map fun entry => [entry]
  | _ => none

end

/-- A BLOB entry tells its own size in its first eight bytes. -/
def blobEntry (temp : List UInt8) : Option (List UInt8) :=
  let blob_sz := leNat (temp.take 8)
  if 8 ≤ temp.length ∧ blob_sz ≤ temp.length then some (temp.take blob_sz) else none

def whereUser (username : CString) : List UInt8 := ascii "USERNAME = \"" ++ username.bytes ++ ascii "\""

def whereVariable (name : CString) : List UInt8 := ascii "NAME = \"" ++ name.bytes ++ ascii "\""

/-! ## Events -/

def Tables.LogEventUser (db : Tables) (op : LogOperation) (what : List UInt8) : Tables :=
  { db with EVENTS := db.EVENTS ++ [⟨db.authenticatedUsername, op, what⟩] }

def Tables.LogEventSystem (db : Tables) (op : LogOperation) (what : List UInt8) : Tables :=
  { db with EVENTS := db.EVENTS ++ [⟨ascii "System", op, what⟩] }

/-! ## Users -/

/-- The name that says that there is no such user. -/
def invalidUser : List UInt8 := ascii "INVALID_USER"

/-- `p` is not written for the invalid user. -/
structure User where
  u : List UInt8
  p : Option (List UInt8)
  deriving DecidableEq

/-- `Auth::SHA256Str`, of a string that is not empty. -/
structure Digest where
  SHA256Str : List UInt8 → List UInt8
  length : ∀ s, (SHA256Str s).length = 32

def GetUser (sql : Sqlite) (db : Tables) (username : CString) : Option User := do
  let rows ← QueryEntries (sql.ofUsers (whereUser username)) db.USERS fun r => some (cStr r.username)
  match rows with
  | [] => some ⟨invalidUser, none⟩
  | name :: _ =>
    -- `strcpy` into the 32 bytes of `u`
    if name.length < 32 then
      let hash ← QueryEntries (sql.ofUsers (whereUser username)) db.USERS fun r => blobEntry r.passHash
      match hash with
      | [] => none
      | blob :: _ => if 40 ≤ blob.length then some ⟨name, some ((blob.drop 8).take 32)⟩ else none
    else none

/-- INSERT OR REPLACE INTO USERS. -/
def Tables.insertUser (db : Tables) (username blob_data : List UInt8) : Tables :=
  { db with
    USERS := upsert UserRow.username db.USERS ⟨db.userSequence + 1, username, blob_data, 0⟩
    userSequence := db.userSequence + 1 }

def space : UInt8 := 32

def isdigit (c : UInt8) : Bool := 48 ≤ c && c ≤ 57

/-- PASS_HASH: its own size, and the digest. -/
def passHash (sha : Digest) (password : List UInt8) : List UInt8 := leBytes 8 40 ++ sha.SHA256Str password

def AddUser (sql : Sqlite) (sha : Digest) (db : Tables) (username password : CString) :
    Option Tables :=
  if 32 ≤ username.bytes.length then some db
  else if space ∈ username.bytes ∨ space ∈ password.bytes then some db
  else do
    let user ← GetUser sql db username
    if user.u ≠ invalidUser then some db
    else if password.bytes.length < 5 then some db
    else if password.bytes.all (fun c => !isdigit c) then some db
    else some ((db.insertUser username.bytes (passHash sha password.bytes)).LogEventSystem
      .USR_CREATE username.bytes)

def RemoveUser (sql : Sqlite) (db : Tables) (username : CString) : Option Tables := do
  let user ← GetUser sql db username
  if user.u = invalidUser then some db
  else match sql.ofUsers (whereUser username) with
    | none => some db
    | some meets =>
      some (Tables.LogEventSystem { db with USERS := db.USERS.filter fun r => !meets r }
        .USR_DELETE username.bytes)

/-! ## Variables -/

def ReadVariable (sql : Sqlite) (db : Tables) (name : CString) : Option (List UInt8) := do
  let rows ← QueryEntries (sql.ofVariables (whereVariable name)) db.VARIABLES fun r => some (cStr r.value)
  some (rows.headD [])

def GetVariableDescriptor (sql : Sqlite) (db : Tables) (name : CString) : Option (List UInt8) := do
  let rows ← QueryEntries (sql.ofVariables (whereVariable name)) db.VARIABLES fun r =>
    r.descriptor.map cStr
  some (rows.headD [])

/-- INSERT OR REPLACE INTO VARIABLES. -/
def Tables.insertVariable (db : Tables) (name value : CString) (descriptor : Option CString) :
    Tables :=
  let rest := without VariableRow.name db.VARIABLES name.bytes
  let rowid := (rest.map VariableRow.rowid).foldr max 0 + 1
  { db with
    VARIABLES := upsert VariableRow.name db.VARIABLES
      ⟨rowid, name.bytes, value.bytes, descriptor.map CString.bytes⟩ }

def WriteVariableSys (db : Tables) (name value : CString) (descriptor : Option CString) : Tables :=
  db.insertVariable name value descriptor

def WriteVariable (sql : Sqlite) (db : Tables) (name value : CString) (descriptor : Option CString) :
    Option Tables := do
  let before ← ReadVariable sql db name
  let op := if before = [] then LogOperation.VAR_CREATE else .VAR_UPDATE
  some ((db.LogEventSystem op (name.bytes ++ ascii "=" ++ value.bytes)).insertVariable
    name value descriptor)

/-- Whether the variable was deleted, and the tables. -/
def DeleteVariableInternal (sql : Sqlite) (db : Tables) (name : CString) : Option (Bool × Tables) := do
  let value ← ReadVariable sql db name
  if value = [] then some (false, db)
  else match sql.ofVariables (whereVariable name) with
    | none => some (false, db)
    | some meets => some (true, { db with VARIABLES := db.VARIABLES.filter fun r => !meets r })

def DeleteVariable (sql : Sqlite) (db : Tables) (name : CString) : Option Tables := do
  let (deleted, db) ← DeleteVariableInternal sql db name
  some (if deleted then db.LogEventUser .VAR_DELETE name.bytes else db)

def DeleteVariableSys (sql : Sqlite) (db : Tables) (name : CString) : Option Tables := do
  let (deleted, db) ← DeleteVariableInternal sql db name
  some (if deleted then db.LogEventSystem .VAR_DELETE name.bytes else db)

/-! ## Lookups that select by the key -/

section

variable {ρ : Type} {key : ρ → List UInt8} {statement : Option (ρ → Bool)} {rows : List ρ}
variable {k : List UInt8}

/-- A statement that selects the rows with the key and no others. -/
def Selects (key : ρ → List UInt8) (statement : Option (ρ → Bool)) (k : List UInt8) : Prop :=
  ∀ rows, selected statement rows = keyed key rows k

theorem Selects.query_absent {α : Type} {read : ρ → Option α} (exact : Selects key statement k)
    (absent : keyed key rows k = []) : QueryEntries statement rows read = some [] := by
  rw [QueryEntries, exact, absent]

theorem Selects.query_present {α : Type} {read : ρ → Option α} {r : ρ}
    (exact : Selects key statement k) (only : keyed key rows k = [r]) :
    QueryEntries statement rows read = (read r).map fun entry => [entry] := by
  rw [QueryEntries, exact, only]

/-- The rows that a DELETE leaves. -/
theorem Selects.rest (exact : Selects key statement k) {meets : ρ → Bool}
    (prepared : statement = some meets) :
    rows.filter (fun r => !meets r) = without key rows k := by
  have meets_iff : ∀ r, meets r = decide (key r = k) := by
    intro r
    have one := exact [r]
    rw [prepared, selected, keyed] at one
    cases met : meets r <;> by_cases same : key r = k <;> simp_all
  rw [without]
  apply List.filter_congr
  intro r _
  simp [meets_iff]

/-- A statement that selects a row was prepared. -/
theorem Selects.prepared (exact : Selects key statement k) (rows : List ρ)
    (there : keyed key rows k ≠ []) :
    ∃ meets, statement = some meets := by
  cases made : statement with
  | some meets => exact ⟨meets, rfl⟩
  | none =>
    have nothing := exact rows
    rw [made] at nothing
    exact absurd nothing.symm there

end

/-- The WHERE text with a username selects the rows with that username, and no others. -/
def Sqlite.SelectsUser (sql : Sqlite) (username : CString) : Prop :=
  Selects UserRow.username (sql.ofUsers (whereUser username)) username.bytes

def Sqlite.SelectsVariable (sql : Sqlite) (name : CString) : Prop :=
  Selects VariableRow.name (sql.ofVariables (whereVariable name)) name.bytes

/-- Compares a WHERE text with the one that each row's key would make. -/
def Sqlite.byText : Sqlite where
  ofUsers text := some fun r => ascii "USERNAME = \"" ++ r.username ++ ascii "\"" = text
  ofVariables text := some fun r => ascii "NAME = \"" ++ r.name ++ ascii "\"" = text

theorem byText_selectsUser (username : CString) : Sqlite.byText.SelectsUser username := by
  intro rows
  apply List.filter_congr
  intro r _
  simp [whereUser]

theorem byText_selectsVariable (name : CString) : Sqlite.byText.SelectsVariable name := by
  intro rows
  apply List.filter_congr
  intro r _
  simp [whereVariable]

end DCScan.RDB
