import DCScan.Users

/-!
What the table EVENTS tells of the other two.

Each function of `DCS::RDB` that changes USERS or VARIABLES writes down what it has done, but for
`WriteVariableSys`. `replay` makes the change that a row of EVENTS stands for; whatever calls were
made without that function, replaying EVENTS from the beginning gives the users and the variables
that the tables hold.
-/

namespace DCScan.RDB

open Lib

/-- The calls that may change the tables. -/
inductive TableCall where
  | AddUser (username password : CString)
  | RemoveUser (username : CString)
  | WriteVariable (name value : CString) (descriptor : Option CString)
  | WriteVariableSys (name value : CString) (descriptor : Option CString)
  | DeleteVariable (name : CString)
  | DeleteVariableSys (name : CString)

section

variable (sql : Sqlite) (sha : Digest)

def Tables.call (db : Tables) : TableCall → Option Tables
  | .AddUser username password => RDB.AddUser sql sha db username password
  | .RemoveUser username => RDB.RemoveUser sql db username
  | .WriteVariable name value descriptor => RDB.WriteVariable sql db name value descriptor
  | .WriteVariableSys name value descriptor => some (RDB.WriteVariableSys db name value descriptor)
  | .DeleteVariable name => RDB.DeleteVariable sql db name
  | .DeleteVariableSys name => RDB.DeleteVariableSys sql db name

def runTables (calls : List TableCall) : Option Tables :=
  calls.foldlM (Tables.call sql sha) CreateTables

end

/-! ## What a row of EVENTS stands for -/

def equals : UInt8 := 61

/-- The users there are, and the value of each variable. -/
structure Contents where
  users : List UInt8 → Bool
  values : List UInt8 → Option (List UInt8)

/-- A description such as `name=value`, taken apart at its first `=`. -/
def assignment (what : List UInt8) : List UInt8 × List UInt8 :=
  (what.takeWhile (· ≠ equals), (what.dropWhile (· ≠ equals)).drop 1)

def Contents.replay (c : Contents) (row : EventRow) : Contents :=
  match row.operation with
  | .VAR_CREATE | .VAR_UPDATE =>
    let (name, value) := assignment row.description
    { c with values := Function.update c.values name (some value) }
  | .VAR_DELETE => { c with values := erase c.values row.description }
  | .USR_CREATE => { c with users := Function.update c.users row.description true }
  | .USR_DELETE => { c with users := Function.update c.users row.description false }
  | .NETWORK => c

def contentsOf (events : List EventRow) : Contents :=
  events.foldl Contents.replay ⟨fun _ => false, fun _ => none⟩

/-- A call that EVENTS is to account for. A removal is to select by the key, and a name that is written
is to end at the first `=`. -/
def Journals (sql : Sqlite) : TableCall → Prop
  | .AddUser .. => True
  | .RemoveUser username => sql.SelectsUser username
  | .WriteVariable name .. => equals ∉ name.bytes
  | .WriteVariableSys .. => False
  | .DeleteVariable name | .DeleteVariableSys name => sql.SelectsVariable name

theorem contentsOf_concat (events : List EventRow) (row : EventRow) :
    contentsOf (events ++ [row]) = (contentsOf events).replay row := by
  simp [contentsOf]

theorem assignment_of_name {name : List UInt8} (value : List UInt8) (plain : equals ∉ name) :
    assignment (name ++ ascii "=" ++ value) = (name, value) := by
  have stops : ascii "=" ++ value = equals :: value := rfl
  have through : ∀ c ∈ name, decide (c ≠ equals) = true := fun c member =>
    decide_eq_true fun same => plain (same ▸ member)
  rw [assignment, List.append_assoc, stops, List.takeWhile_append_of_pos through,
    List.dropWhile_append_of_pos through]
  simp

/-! ## What each call writes -/

section

variable {sql : Sqlite} {sha : Digest} {db t : Tables} {call : TableCall}

/-- What a call leaves in the tables. -/
inductive Wrote (sql : Sqlite) (sha : Digest) (db : Tables) : TableCall → Tables → Prop
  | nothing {c : TableCall} : Wrote sql sha db c db
  | added {username password} :
      Wrote sql sha db (.AddUser username password) (db.registered sha username password)
  | removed {username meets} (prepared : sql.ofUsers (whereUser username) = some meets) :
      Wrote sql sha db (.RemoveUser username)
        (Tables.LogEventSystem { db with USERS := db.USERS.filter fun r => !meets r } .USR_DELETE
          username.bytes)
  | written {name value descriptor op} (kind : op = .VAR_CREATE ∨ op = .VAR_UPDATE) :
      Wrote sql sha db (.WriteVariable name value descriptor)
        ((db.LogEventSystem op (name.bytes ++ ascii "=" ++ value.bytes)).insertVariable
          name value descriptor)
  | writtenSys {name value descriptor} :
      Wrote sql sha db (.WriteVariableSys name value descriptor) (db.insertVariable name value descriptor)
  | deleted {name meets} (prepared : sql.ofVariables (whereVariable name) = some meets) :
      Wrote sql sha db (.DeleteVariable name)
        (Tables.LogEventUser { db with VARIABLES := db.VARIABLES.filter fun r => !meets r } .VAR_DELETE
          name.bytes)
  | deletedSys {name meets} (prepared : sql.ofVariables (whereVariable name) = some meets) :
      Wrote sql sha db (.DeleteVariableSys name)
        (Tables.LogEventSystem { db with VARIABLES := db.VARIABLES.filter fun r => !meets r }
          .VAR_DELETE name.bytes)

theorem wrote_of_addUser {username password : CString}
    (ran : AddUser sql sha db username password = some t) :
    t = db ∨ t = db.registered sha username password := by
  unfold AddUser at ran
  split at ran
  · exact Or.inl (Option.some.inj ran).symm
  · split at ran
    · exact Or.inl (Option.some.inj ran).symm
    · obtain ⟨user, _, ran⟩ := Option.bind_eq_some_iff.mp ran
      split at ran
      · exact Or.inl (Option.some.inj ran).symm
      · split at ran
        · exact Or.inl (Option.some.inj ran).symm
        · split at ran
          · exact Or.inl (Option.some.inj ran).symm
          · exact Or.inr (Option.some.inj ran).symm

theorem wrote_of_removeUser {username : CString} (ran : RemoveUser sql db username = some t) :
    t = db ∨ ∃ meets, sql.ofUsers (whereUser username) = some meets ∧
      t = Tables.LogEventSystem { db with USERS := db.USERS.filter fun r => !meets r } .USR_DELETE
        username.bytes := by
  obtain ⟨user, _, ran⟩ := Option.bind_eq_some_iff.mp ran
  split at ran
  · exact Or.inl (Option.some.inj ran).symm
  · split at ran
    · exact Or.inl (Option.some.inj ran).symm
    · rename_i meets prepared
      exact Or.inr ⟨meets, prepared, (Option.some.inj ran).symm⟩

/-- A row is deleted, or nothing is. -/
theorem of_deleteVariableInternal {name : CString} {deleted : Bool}
    (ran : DeleteVariableInternal sql db name = some (deleted, t)) :
    (deleted = false ∧ t = db) ∨ (deleted = true ∧
      ∃ meets, sql.ofVariables (whereVariable name) = some meets ∧
        t = { db with VARIABLES := db.VARIABLES.filter fun r => !meets r }) := by
  obtain ⟨value, _, ran⟩ := Option.bind_eq_some_iff.mp ran
  split at ran
  · cases ran
    exact Or.inl ⟨rfl, rfl⟩
  · split at ran
    · cases ran
      exact Or.inl ⟨rfl, rfl⟩
    · rename_i meets prepared
      cases ran
      exact Or.inr ⟨rfl, meets, prepared, rfl⟩

theorem wrote_of_call (ran : db.call sql sha call = some t) : Wrote sql sha db call t := by
  cases call with
  | AddUser username password =>
    rcases wrote_of_addUser ran with rfl | rfl
    · exact .nothing
    · exact .added
  | RemoveUser username =>
    rcases wrote_of_removeUser ran with rfl | ⟨meets, prepared, rfl⟩
    · exact .nothing
    · exact .removed prepared
  | WriteVariable name value descriptor =>
    obtain ⟨before, _, ran⟩ := Option.bind_eq_some_iff.mp ran
    cases ran
    refine .written ?_
    split
    · exact Or.inl rfl
    · exact Or.inr rfl
  | WriteVariableSys name value descriptor =>
    cases ran
    exact .writtenSys
  | DeleteVariable name =>
    obtain ⟨⟨deleted, left⟩, deletes, ran⟩ := Option.bind_eq_some_iff.mp ran
    cases ran
    rcases of_deleteVariableInternal deletes with ⟨rfl, rfl⟩ | ⟨rfl, meets, prepared, rfl⟩
    · exact .nothing
    · exact .deleted prepared
  | DeleteVariableSys name =>
    obtain ⟨⟨deleted, left⟩, deletes, ran⟩ := Option.bind_eq_some_iff.mp ran
    cases ran
    rcases of_deleteVariableInternal deletes with ⟨rfl, rfl⟩ | ⟨rfl, meets, prepared, rfl⟩
    · exact .nothing
    · exact .deletedSys prepared

/-! ## The tables and the journal -/

/-- The tables hold what EVENTS says. -/
structure Journalled (db : Tables) : Prop where
  users : ∀ k, keyed UserRow.username db.USERS k ≠ [] ↔ (contentsOf db.EVENTS).users k = true
  values : ∀ k, (keyed VariableRow.name db.VARIABLES k).map VariableRow.value =
    ((contentsOf db.EVENTS).values k).toList

/-- A user comes with the row that says so. -/
theorem Journalled.added (held : Journalled db) {row : UserRow} {event : EventRow}
    (users : t.USERS = upsert UserRow.username db.USERS row) (values : t.VARIABLES = db.VARIABLES)
    (events : t.EVENTS = db.EVENTS ++ [event]) (stated : event.operation = .USR_CREATE)
    (about : event.description = row.username) : Journalled t := by
  have after : contentsOf t.EVENTS = ⟨Function.update (contentsOf db.EVENTS).users row.username true,
      (contentsOf db.EVENTS).values⟩ := by
    rw [events, contentsOf_concat, Contents.replay, stated, about]
  refine ⟨fun k => ?_, fun k => by rw [values, after]; exact held.values k⟩
  simp only [users, after]
  by_cases same : k = row.username
  · simp [same]
  · rw [keyed_upsert_other same, Function.update_of_ne same]
    exact held.users k

theorem Journalled.removed (held : Journalled db) {username : CString} {meets : UserRow → Bool}
    (exact : sql.SelectsUser username) (prepared : sql.ofUsers (whereUser username) = some meets) :
    Journalled (Tables.LogEventSystem { db with USERS := db.USERS.filter fun r => !meets r } .USR_DELETE
      username.bytes) := by
  refine ⟨fun k => ?_, fun k => ?_⟩ <;>
    simp only [Tables.LogEventSystem, contentsOf_concat, Contents.replay]
  · rw [Selects.rest exact prepared]
    by_cases same : k = username.bytes
    · simp [same]
    · rw [keyed_without_other same, Function.update_of_ne same]
      exact held.users k
  · exact held.values k

theorem Journalled.written (held : Journalled db) {name value : CString} {descriptor : Option CString}
    {op : LogOperation} (kind : op = .VAR_CREATE ∨ op = .VAR_UPDATE) (plain : equals ∉ name.bytes) :
    Journalled ((db.LogEventSystem op (name.bytes ++ ascii "=" ++ value.bytes)).insertVariable
      name value descriptor) := by
  have after : (contentsOf db.EVENTS).replay
      ⟨ascii "System", op, name.bytes ++ ascii "=" ++ value.bytes⟩ = { contentsOf db.EVENTS with
        values := Function.update (contentsOf db.EVENTS).values name.bytes (some value.bytes) } := by
    rcases kind with rfl | rfl <;>
      simp only [Contents.replay, assignment_of_name value.bytes plain]
  refine ⟨fun k => ?_, fun k => ?_⟩ <;>
    simp only [Tables.insertVariable, Tables.LogEventSystem, contentsOf_concat, after]
  · exact held.users k
  · by_cases same : k = name.bytes
    · subst same
      rw [Function.update_self]
      exact congrArg (List.map VariableRow.value) keyed_upsert_self
    · rw [Function.update_of_ne same, ← held.values k]
      exact congrArg (List.map VariableRow.value) (keyed_upsert_other same)

/-- A variable goes with the row that says so, whoever it names. -/
theorem Journalled.deleted (held : Journalled db) {name : CString} {meets : VariableRow → Bool}
    {event : EventRow} (exact : sql.SelectsVariable name)
    (prepared : sql.ofVariables (whereVariable name) = some meets) (users : t.USERS = db.USERS)
    (values : t.VARIABLES = db.VARIABLES.filter fun r => !meets r)
    (events : t.EVENTS = db.EVENTS ++ [event]) (stated : event.operation = .VAR_DELETE)
    (about : event.description = name.bytes) : Journalled t := by
  have after : contentsOf t.EVENTS = ⟨(contentsOf db.EVENTS).users,
      erase (contentsOf db.EVENTS).values name.bytes⟩ := by
    rw [events, contentsOf_concat, Contents.replay, stated, about]
  refine ⟨fun k => by rw [users, after]; exact held.users k, fun k => ?_⟩
  simp only [values, Selects.rest exact prepared, after]
  by_cases same : k = name.bytes
  · subst same
    simp
  · rw [keyed_without_other same, erase_other same]
    exact held.values k

/-- **One call** that EVENTS is to account for keeps the tables and EVENTS together. -/
theorem Journalled.next (held : Journalled db) (journals : Journals sql call)
    (ran : db.call sql sha call = some t) : Journalled t := by
  cases wrote_of_call ran with
  | nothing => exact held
  | added => exact held.added rfl rfl rfl rfl rfl
  | removed prepared => exact held.removed journals prepared
  | written kind => exact held.written kind journals
  | writtenSys => exact absurd journals id
  | deleted prepared => exact held.deleted journals prepared rfl rfl rfl rfl rfl
  | deletedSys prepared => exact held.deleted journals prepared rfl rfl rfl rfl rfl

theorem runTables_journalled {calls : List TableCall} (journals : ∀ call ∈ calls, Journals sql call)
    (ran : runTables sql sha calls = some db) : Journalled db := by
  induction calls using List.reverseRecOn generalizing db with
  | nil =>
    cases ran
    exact ⟨by simp [CreateTables, contentsOf, keyed], by simp [CreateTables, contentsOf, keyed]⟩
  | append_singleton calls call ih =>
    have parts : runTables sql sha (calls ++ [call]) =
        (runTables sql sha calls).bind fun db => db.call sql sha call := by simp [runTables]
    obtain ⟨before, ran, last⟩ := Option.bind_eq_some_iff.mp (parts ▸ ran)
    have held := ih (fun call member => journals call (List.mem_append_left _ member)) ran
    exact held.next (journals call (by simp)) last

/-- **EVENTS tells the tables.** After any calls but `WriteVariableSys` the users and the values of the
variables are what replaying EVENTS gives. -/
theorem tables_journalled (calls : List TableCall) (journals : ∀ call ∈ calls, Journals sql call)
    (ran : runTables sql sha calls = some db) :
    (∀ username, (∃ r ∈ db.USERS, r.username = username) ↔
      (contentsOf db.EVENTS).users username = true) ∧
    ∀ name, (db.VARIABLES.filter fun r => r.name = name).map VariableRow.value =
      ((contentsOf db.EVENTS).values name).toList := by
  have held := runTables_journalled journals ran
  refine ⟨fun username => ?_, held.values⟩
  rw [← held.users username, keyed, Ne, List.filter_eq_nil_iff]
  simp

end

def speed : CString := ⟨ascii "speed", by decide⟩

def fast : CString := ⟨ascii "a=b", by decide⟩

/-- Users and variables that come, change and go. -/
def speedCalls : List TableCall :=
  [.AddUser root pass1, .WriteVariable speed pass1 none, .AddUser invalidName pass1,
    .RemoveUser invalidName, .DeleteVariableSys speed, .WriteVariable speed fast none, .RemoveUser root]

theorem speedCalls_journal : ∀ call ∈ speedCalls, Journals Sqlite.byText call := by
  intro call member
  simp only [speedCalls, List.mem_cons, List.not_mem_nil, or_false] at member
  rcases member with rfl | rfl | rfl | rfl | rfl | rfl | rfl
  · trivial
  · exact (by decide : equals ∉ speed.bytes)
  · trivial
  · exact byText_selectsUser invalidName
  · exact byText_selectsVariable speed
  · exact (by decide : equals ∉ speed.bytes)
  · exact byText_selectsUser root

/-- A user and a variable are there, and another user is gone. -/
theorem tables_journalled_speed : ∃ db, runTables Sqlite.byText firstBytes speedCalls = some db ∧
    (∀ username, (∃ r ∈ db.USERS, r.username = username) ↔
      (contentsOf db.EVENTS).users username = true) ∧
    ∀ name, (db.VARIABLES.filter fun r => r.name = name).map VariableRow.value =
      ((contentsOf db.EVENTS).values name).toList := by
  obtain ⟨db, ran⟩ : ∃ db, runTables Sqlite.byText firstBytes speedCalls = some db := ⟨_, rfl⟩
  exact ⟨db, ran, tables_journalled speedCalls speedCalls_journal ran⟩

/-- `WriteVariableSys` writes nothing down: of the variable it writes EVENTS knows nothing. -/
theorem system_write_unjournalled : ∃ db, runTables Sqlite.byText firstBytes
      [.WriteVariableSys speed fast none] = some db ∧ db.VARIABLES ≠ [] ∧ db.EVENTS = [] :=
  ⟨_, rfl, List.cons_ne_nil _ _, rfl⟩

end DCScan.RDB
