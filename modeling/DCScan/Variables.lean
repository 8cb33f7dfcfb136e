import Mathlib.Data.List.Induction
import DCScan.Lib.Table
import DCScan.Rdb

/-!
`DCS::Database`: the variables as callers see them, one call after another.

The rows of VARIABLES are compared with a finite map from names to values. The table says that a
variable does not exist by reading an empty value, so a variable with an empty value can be written
and read, but not deleted.
-/

namespace DCScan.Database

open Lib RDB

/-- `Utils::BasicString`. -/
structure BasicString where
  buffer : List UInt8
  size : buffer.length = 512
  deriving DecidableEq

/-- One with a zero in it, as callers pass. -/
structure Text extends BasicString where
  terminated : 0 ∈ buffer
  deriving DecidableEq

/-- The text in the buffer. -/
def Text.c_str (s : Text) : CString where
  bytes := cStr s.buffer
  nul_free zero := by simpa using List.mem_takeWhile_imp zero

theorem Text.c_str_length (s : Text) : s.c_str.bytes.length < 512 := by
  have front : s.c_str.bytes <+: s.buffer := List.takeWhile_prefix _
  have inside := front.length_le
  rw [s.size] at inside
  rcases Nat.lt_or_eq_of_le inside with shorter | full
  · exact shorter
  · have whole : s.c_str.bytes = s.buffer := front.eq_of_length (full.trans s.size.symm)
    exact absurd (whole ▸ s.terminated) s.c_str.nul_free

/-- `std::to_string` and `atof`. -/
structure Numerals (f64 : Type) where
  to_string : f64 → CString
  atof : List UInt8 → f64
  zero : f64
  /-- `"%f"` prints a digit at least, or a name such as `nan`. -/
  printed : ∀ x, (to_string x).bytes ≠ []
  /-- The longest text, of the least double, has 317 characters. -/
  short : ∀ x, (to_string x).bytes.length < 512

inductive Authority where
  | SYS | USER
  deriving DecidableEq, Repr

/-- The database, and `db_var_cache`. -/
structure State where
  tables : Tables
  db_var_cache : List UInt8 → Option (List UInt8)

/-- `Open`, of a new database. -/
def Open : State := ⟨CreateTables, fun _ => none⟩

section

variable {f64 : Type} (sql : Sqlite) (num : Numerals f64)

/-- What the two reads begin with: fills the cache with the variable. No value is found when it could
not be read. -/
def fetch (d : State) (name : CString) : Option (State × Option (List UInt8)) :=
  match d.db_var_cache name.bytes with
  | some value => some (d, some value)
  | none => do
    let value ← ReadVariable sql d.tables name
    if value = [] then some (d, none)
    else some ({ d with
      db_var_cache := Function.update d.db_var_cache name.bytes (some value) }, some value)

def ReadValuef64 (d : State) (name : Text) : Option (State × f64) := do
  let (d, value) ← fetch sql d name.c_str
  some (d, (value.map num.atof).getD num.zero)

/-- `out` is what the returned buffer holds before it is written. -/
def ReadValueString (d : State) (name : Text) (out : BasicString) : Option (State × List UInt8) := do
  let (d, value) ← fetch sql d name.c_str
  match value with
  | none => some (d, List.replicate 512 0)
  | some value => do
    let written ← store out.buffer 0 (value ++ [0])
    some (d, written)

/-- What every change ends with. -/
def State.forget (d : State) (name : CString) : State :=
  { d with db_var_cache := erase d.db_var_cache name.bytes }

def writeValue (d : State) (auth : Authority) (name value description : CString) :
    Option State :=
  let written := match auth with
    | .SYS => some (WriteVariableSys d.tables name value (some description))
    | .USER => WriteVariable sql d.tables name value (some description)
  written.map fun tables => { d with tables }.forget name

def WriteValuef64 (d : State) (auth : Authority) (name : Text) (value : f64)
    (description : Text) : Option State :=
  writeValue sql d auth name.c_str (num.to_string value) description.c_str

def WriteValueString (d : State) (auth : Authority) (name value description : Text) :
    Option State :=
  writeValue sql d auth name.c_str value.c_str description.c_str

def DeleteValue (d : State) (auth : Authority) (name : Text) : Option State :=
  let left := match auth with
    | .SYS => DeleteVariableSys sql d.tables name.c_str
    | .USER => DeleteVariable sql d.tables name.c_str
  left.map fun tables => { d with tables }.forget name.c_str

end

/-! ## Runs -/

inductive Call (f64 : Type) where
  | WriteValuef64 (auth : Authority) (name : Text) (value : f64) (description : Text)
  | WriteValueString (auth : Authority) (name value description : Text)
  | DeleteValue (auth : Authority) (name : Text)
  | ReadValuef64 (name : Text)
  | ReadValueString (name : Text) (out : BasicString)
  deriving DecidableEq

/-- The variable that a call is about. -/
def Call.name {f64 : Type} : Call f64 → CString
  | WriteValuef64 _ name _ _ => name.c_str
  | WriteValueString _ name _ _ => name.c_str
  | DeleteValue _ name => name.c_str
  | ReadValuef64 name => name.c_str
  | ReadValueString name _ => name.c_str

/-- A finite map from names to values and descriptors. -/
abbrev Variables := List UInt8 → Option (CString × CString)

section

variable {f64 : Type} (sql : Sqlite) (num : Numerals f64)

def State.call (d : State) : Call f64 → Option State
  | .WriteValuef64 auth name value description =>
    Database.WriteValuef64 sql num d auth name value description
  | .WriteValueString auth name value description =>
    Database.WriteValueString sql d auth name value description
  | .DeleteValue auth name => Database.DeleteValue sql d auth name
  | .ReadValuef64 name => (Database.ReadValuef64 sql num d name).map Prod.fst
  | .ReadValueString name out => (Database.ReadValueString sql d name out).map Prod.fst

/-- What the call does to the map. -/
def Variables.call (m : Variables) : Call f64 → Variables
  | .WriteValuef64 _ name value description =>
    Function.update m name.c_str.bytes (some (num.to_string value, description.c_str))
  | .WriteValueString _ name value description =>
    Function.update m name.c_str.bytes (some (value.c_str, description.c_str))
  | .DeleteValue _ name => erase m name.c_str.bytes
  | .ReadValuef64 _ => m
  | .ReadValueString _ _ => m

def run (calls : List (Call f64)) : Option State := calls.foldlM (State.call sql num) Open

def mapOf (calls : List (Call f64)) : Variables := calls.foldl (Variables.call num) fun _ => none

/-- The rows with a name are the map's entry for it. -/
def Agrees (rows : List VariableRow) (m : Variables) : Prop :=
  ∀ k, (keyed VariableRow.name rows k).map (fun r => (r.value, r.descriptor)) =
    (m k).toList.map fun entry => (entry.1.bytes, some entry.2.bytes)

/-- The store is a map throughout the calls. -/
structure ActsAsMap (calls : List (Call f64)) : Prop where
  /-- After each call the rows are the map that the writes and deletes make, in their order. -/
  rows : ∀ before, before <+: calls →
    ∃ d, run sql num before = some d ∧ Agrees d.tables.VARIABLES (mapOf num before)
  /-- A call changes no other variable's row. -/
  others : ∀ before call, before ++ [call] <+: calls → ∀ d t, run sql num before = some d →
    d.call sql num call = some t → ∀ k, k ≠ call.name.bytes →
    keyed VariableRow.name t.tables.VARIABLES k = keyed VariableRow.name d.tables.VARIABLES k
  /-- No row is left of a deleted variable. -/
  deleted : ∀ before auth name, before ++ [.DeleteValue auth name] <+: calls →
    ∀ t, run sql num (before ++ [.DeleteValue auth name]) = some t →
    keyed VariableRow.name t.tables.VARIABLES name.c_str.bytes = []

/-- No variable is deleted while its value is empty. -/
def NoneDeletedEmpty (calls : List (Call f64)) : Prop :=
  ∀ before auth name, before ++ [.DeleteValue auth name] <+: calls →
    ∀ entry, mapOf num before name.c_str.bytes = some entry → entry.1.bytes ≠ []

end

/-! ## One call -/

section

variable {f64 : Type} {sql : Sqlite} {num : Numerals f64} {d t : State} {m : Variables}
variable {db : Tables} {rows : List VariableRow} {name value : CString} {k : List UInt8}
variable {call : Call f64}

theorem Agrees.absent (agrees : Agrees rows m) (none_there : m k = none) :
    keyed VariableRow.name rows k = [] := by
  have same := agrees k
  rw [none_there] at same
  simpa using same

theorem Agrees.present (agrees : Agrees rows m) {entry : CString × CString}
    (there : m k = some entry) :
    ∃ r, keyed VariableRow.name rows k = [r] ∧ r.value = entry.1.bytes := by
  have same := agrees k
  rw [there, Option.toList_some, List.map_singleton, List.map_eq_singleton_iff] at same
  obtain ⟨r, only, read⟩ := same
  exact ⟨r, only, congrArg Prod.fst read⟩

/-- Of a map's variable the value is read, and the empty string of any other. -/
theorem ReadVariable_of_agrees (exact : sql.SelectsVariable name)
    (agrees : Agrees db.VARIABLES m) :
    ReadVariable sql db name = some ((m name.bytes).elim [] fun entry => entry.1.bytes) := by
  unfold ReadVariable
  cases there : m name.bytes with
  | none =>
    rw [exact.query_absent (agrees.absent there)]
    rfl
  | some entry =>
    obtain ⟨r, only, read⟩ := agrees.present there
    rw [exact.query_present only, read, entry.1.cStr_bytes]
    rfl

theorem keyed_insertVariable_other {description : Option CString} (different : k ≠ name.bytes) :
    keyed VariableRow.name (db.insertVariable name value description).VARIABLES k =
      keyed VariableRow.name db.VARIABLES k :=
  keyed_upsert_other different

theorem keyed_insertVariable_self (db : Tables) (name value : CString)
    (description : Option CString) :
    ∃ rowid, keyed VariableRow.name (db.insertVariable name value description).VARIABLES name.bytes =
      [⟨rowid, name.bytes, value.bytes, description.map CString.bytes⟩] :=
  ⟨_, keyed_upsert_self⟩

/-- A row put in is the map's new entry. -/
theorem Agrees.insert (agrees : Agrees db.VARIABLES m) (description : CString) :
    Agrees (db.insertVariable name value (some description)).VARIABLES
      (Function.update m name.bytes (some (value, description))) := by
  intro k
  by_cases same : k = name.bytes
  · subst same
    obtain ⟨rowid, only⟩ := keyed_insertVariable_self db name value (some description)
    rw [Function.update_self, only]
    rfl
  · rw [Function.update_of_ne same, keyed_insertVariable_other same]
    exact agrees k

theorem Agrees.without (agrees : Agrees rows m) :
    Agrees (without VariableRow.name rows k) (erase m k) := by
  intro other
  by_cases same : other = k
  · subst same
    rw [keyed_without_self, erase, Function.update_self]
    rfl
  · rw [keyed_without_other same, erase, Function.update_of_ne same]
    exact agrees other

/-- Both write paths put the row in. -/
theorem writeValue_rows (read : ∃ before, ReadVariable sql d.tables name = some before)
    (auth : Authority) (value description : CString) :
    ∃ t, writeValue sql d auth name value description = some t ∧
      t.tables.VARIABLES = (d.tables.insertVariable name value (some description)).VARIABLES ∧
      t.db_var_cache = erase d.db_var_cache name.bytes := by
  cases auth with
  | SYS => exact ⟨_, rfl, rfl, rfl⟩
  | USER =>
    obtain ⟨before, read⟩ := read
    unfold writeValue WriteVariable
    rw [read]
    exact ⟨_, rfl, rfl, rfl⟩

/-- A variable whose value is not empty is deleted. -/
theorem DeleteVariableInternal_of_agrees (exact : sql.SelectsVariable name)
    (agrees : Agrees db.VARIABLES m)
    (full : ∀ entry, m name.bytes = some entry → entry.1.bytes ≠ []) :
    ∃ deleted after, DeleteVariableInternal sql db name = some (deleted, after) ∧
      Agrees after.VARIABLES (erase m name.bytes) := by
  unfold DeleteVariableInternal
  rw [ReadVariable_of_agrees exact agrees]
  cases there : m name.bytes with
  | none =>
    refine ⟨false, db, by simp, ?_⟩
    have same : erase m name.bytes = m := by
      rw [erase, ← there, Function.update_eq_self]
    rw [same]
    exact agrees
  | some entry =>
    obtain ⟨r, only, _⟩ := agrees.present there
    obtain ⟨meets, prepared⟩ := exact.prepared db.VARIABLES (by simp [only])
    refine ⟨true, { db with VARIABLES := db.VARIABLES.filter fun r => !meets r }, ?_, ?_⟩
    · simp [full entry there, prepared]
    · rw [exact.rest prepared]
      exact agrees.without

/-- Of a variable whose value is empty the row is left. -/
theorem DeleteVariableInternal_empty (exact : sql.SelectsVariable name)
    (agrees : Agrees db.VARIABLES m) {entry : CString × CString}
    (there : m name.bytes = some entry) (empty : entry.1.bytes = []) :
    DeleteVariableInternal sql db name = some (false, db) := by
  rw [DeleteVariableInternal, ReadVariable_of_agrees exact agrees, there]
  simp [empty]

/-! ## What a call does to the rows -/

theorem fetch_tables {found : Option (List UInt8)} (ran : fetch sql d name = some (t, found)) :
    t.tables = d.tables := by
  unfold fetch at ran
  split at ran
  · cases ran
    rfl
  · rw [Option.bind_eq_bind, Option.bind_eq_some_iff] at ran
    obtain ⟨value, _, ran⟩ := ran
    split at ran <;> cases ran <;> rfl

theorem writeValue_cases {auth : Authority} {description : CString}
    (ran : writeValue sql d auth name value description = some t) :
    t.tables.VARIABLES = (d.tables.insertVariable name value (some description)).VARIABLES := by
  have read : auth = .USER → ∃ before, ReadVariable sql d.tables name = some before := by
    rintro rfl
    unfold writeValue WriteVariable at ran
    cases made : ReadVariable sql d.tables name with
    | some before => exact ⟨before, rfl⟩
    | none => simp [made] at ran
  cases auth with
  | SYS =>
    cases ran
    rfl
  | USER =>
    obtain ⟨after, same, rows, _⟩ := writeValue_rows (read rfl) .USER value description
    cases ran.symm.trans same
    exact rows

theorem DeleteVariableInternal_cases {deleted : Bool} {after : Tables}
    (ran : DeleteVariableInternal sql db name = some (deleted, after)) :
    after.VARIABLES = db.VARIABLES ∨ ∃ meets, sql.ofVariables (whereVariable name) = some meets ∧
      after.VARIABLES = db.VARIABLES.filter fun r => !meets r := by
  unfold DeleteVariableInternal at ran
  rw [Option.bind_eq_bind, Option.bind_eq_some_iff] at ran
  obtain ⟨read, _, ran⟩ := ran
  split at ran
  · cases ran
    exact Or.inl rfl
  · split at ran
    · cases ran
      exact Or.inl rfl
    · rename_i meets prepared
      cases ran
      exact Or.inr ⟨meets, prepared, rfl⟩

/-- Either deletion logs at most. -/
theorem DeleteValue_rows (sql : Sqlite) (d : State) (auth : Authority) (name : Text) :
    (DeleteValue sql d auth name).map (fun t => t.tables.VARIABLES) =
      (DeleteVariableInternal sql d.tables name.c_str).map fun result => result.2.VARIABLES := by
  unfold DeleteValue DeleteVariable DeleteVariableSys
  cases auth <;> cases DeleteVariableInternal sql d.tables name.c_str with
  | none => rfl
  | some result => obtain ⟨deleted, after⟩ := result; cases deleted <;> rfl

theorem DeleteValue_cache {auth : Authority} {name : Text}
    (ran : DeleteValue sql d auth name = some t) :
    t.db_var_cache = erase d.db_var_cache name.c_str.bytes := by
  unfold DeleteValue at ran
  obtain ⟨tables, _, rfl⟩ := Option.map_eq_some_iff.mp ran
  rfl

/-- A call leaves the rows, puts its own variable's row in, or takes out those that its WHERE text
selects. -/
theorem call_cases (ran : d.call sql num call = some t) :
    t.tables.VARIABLES = d.tables.VARIABLES ∨
      (∃ value description, t.tables.VARIABLES =
        (d.tables.insertVariable call.name value (some description)).VARIABLES) ∨
      ∃ meets, sql.ofVariables (whereVariable call.name) = some meets ∧
        t.tables.VARIABLES = d.tables.VARIABLES.filter fun r => !meets r := by
  cases call with
  | WriteValuef64 auth name value description =>
    exact Or.inr (Or.inl ⟨_, _, writeValue_cases ran⟩)
  | WriteValueString auth name value description =>
    exact Or.inr (Or.inl ⟨_, _, writeValue_cases ran⟩)
  | DeleteValue auth name =>
    have rows := DeleteValue_rows sql d auth name
    rw [show DeleteValue sql d auth name = some t from ran] at rows
    obtain ⟨⟨deleted, after⟩, made, same⟩ := Option.map_eq_some_iff.mp rows.symm
    have same : after.VARIABLES = t.tables.VARIABLES := same
    rw [← same]
    exact (DeleteVariableInternal_cases made).imp_right Or.inr
  | ReadValuef64 name =>
    left
    obtain ⟨⟨after, x⟩, made, rfl⟩ := Option.map_eq_some_iff.mp ran
    unfold Database.ReadValuef64 at made
    rw [Option.bind_eq_bind, Option.bind_eq_some_iff] at made
    obtain ⟨⟨filled, found⟩, fetched, made⟩ := made
    cases made
    rw [fetch_tables fetched]
  | ReadValueString name out =>
    left
    obtain ⟨⟨after, x⟩, made, rfl⟩ := Option.map_eq_some_iff.mp ran
    unfold Database.ReadValueString at made
    rw [Option.bind_eq_bind, Option.bind_eq_some_iff] at made
    obtain ⟨⟨filled, found⟩, fetched, made⟩ := made
    rw [← fetch_tables fetched]
    cases found with
    | none =>
      cases made
      rfl
    | some value =>
      obtain ⟨written, _, made⟩ := Option.bind_eq_some_iff.mp made
      cases made
      rfl

theorem call_rows (exact : sql.SelectsVariable call.name)
    (ran : d.call sql num call = some t) :
    t.tables.VARIABLES = d.tables.VARIABLES ∨
      (∃ value description, t.tables.VARIABLES =
        (d.tables.insertVariable call.name value (some description)).VARIABLES) ∨
      t.tables.VARIABLES = without VariableRow.name d.tables.VARIABLES call.name.bytes := by
  rcases call_cases ran with same | put | ⟨meets, prepared, rest⟩
  · exact Or.inl same
  · exact Or.inr (Or.inl put)
  · exact Or.inr (Or.inr (rest.trans (exact.rest prepared)))

/-- No name is in the table twice. -/
theorem call_distinct (ran : d.call sql num call = some t)
    (distinct : Distinct VariableRow.name d.tables.VARIABLES) :
    Distinct VariableRow.name t.tables.VARIABLES := by
  rcases call_cases ran with same | ⟨value, description, put⟩ | ⟨meets, -, rest⟩
  · rwa [same]
  · rw [put]
    exact distinct.upsert
  · rw [rest]
    exact distinct.filter _

theorem call_others (exact : sql.SelectsVariable call.name)
    (ran : d.call sql num call = some t) (different : k ≠ call.name.bytes) :
    keyed VariableRow.name t.tables.VARIABLES k = keyed VariableRow.name d.tables.VARIABLES k := by
  rcases call_rows exact ran with same | ⟨value, description, put⟩ | taken
  · rw [same]
  · rw [put, keyed_insertVariable_other different]
  · rw [taken, keyed_without_other different]

/-! ## Runs of calls -/

/-- The rows are the map's, and no text is too long for a `BasicString`. -/
structure Holds (d : State) (m : Variables) : Prop where
  agrees : Agrees d.tables.VARIABLES m
  stored : ∀ k entry, m k = some entry → entry.1.bytes.length < 512
  cached : ∀ k value, d.db_var_cache k = some value → value.length < 512

theorem Holds.fetch (holds : Holds d m) (exact : sql.SelectsVariable name) :
    ∃ t found, fetch sql d name = some (t, found) ∧ Holds t m ∧
      ∀ value, found = some value → value.length < 512 := by
  unfold Database.fetch
  cases cached : d.db_var_cache name.bytes with
  | some value => exact ⟨d, some value, rfl, holds, by
      rintro _ ⟨⟩
      exact holds.cached _ _ cached⟩
  | none =>
    rw [ReadVariable_of_agrees exact holds.agrees]
    cases there : m name.bytes with
    | none => exact ⟨d, none, rfl, holds, by rintro _ ⟨⟩⟩
    | some entry =>
      have short := holds.stored _ entry there
      by_cases empty : entry.1.bytes = []
      · exact ⟨d, none, by simp [empty], holds, by rintro _ ⟨⟩⟩
      · refine ⟨{ d with
          db_var_cache := Function.update d.db_var_cache name.bytes (some entry.1.bytes) },
          some entry.1.bytes, by simp [empty], ⟨holds.agrees, holds.stored, ?_⟩, ?_⟩
        · intro k value found
          rcases update_cases found with ⟨_, new⟩ | ⟨_, old⟩
          · cases new
            exact short
          · exact holds.cached k value old
        · rintro _ ⟨⟩
          exact short

/-- A change forgets what the cache held of the variable. -/
theorem Holds.change (holds : Holds d m) (agrees : Agrees t.tables.VARIABLES (m.call num call))
    (forgot : t.db_var_cache = erase d.db_var_cache name.bytes) (short : ∀ k entry,
      m.call num call k = some entry → m k = some entry ∨ entry.1.bytes.length < 512) :
    Holds t (m.call num call) := by
  refine ⟨agrees, fun k entry found => ?_, fun k value found => ?_⟩
  · rcases short k entry found with old | new
    · exact holds.stored k entry old
    · exact new
  · rw [forgot] at found
    rcases update_cases found with ⟨_, ⟨⟩⟩ | ⟨_, old⟩
    exact holds.cached k value old

theorem Holds.step (holds : Holds d m) (num : Numerals f64) (exact : sql.SelectsVariable call.name)
    (kept : ∀ auth name, call = .DeleteValue auth name → ∀ entry,
      m name.c_str.bytes = some entry → entry.1.bytes ≠ []) :
    ∃ t, d.call sql num call = some t ∧ Holds t (m.call num call) := by
  have read : ∃ before, ReadVariable sql d.tables call.name = some before :=
    ⟨_, ReadVariable_of_agrees exact holds.agrees⟩
  cases call with
  | WriteValuef64 auth name value description =>
    obtain ⟨t, ran, rows, forgot⟩ := writeValue_rows read auth (num.to_string value)
      description.c_str
    refine ⟨t, ran, holds.change (rows ▸ holds.agrees.insert _) forgot fun k entry found => ?_⟩
    rcases update_cases found with ⟨_, ⟨⟩⟩ | ⟨_, old⟩
    · exact Or.inr (num.short value)
    · exact Or.inl old
  | WriteValueString auth name value description =>
    obtain ⟨t, ran, rows, forgot⟩ := writeValue_rows read auth value.c_str description.c_str
    refine ⟨t, ran, holds.change (rows ▸ holds.agrees.insert _) forgot fun k entry found => ?_⟩
    rcases update_cases found with ⟨_, ⟨⟩⟩ | ⟨_, old⟩
    · exact Or.inr value.c_str_length
    · exact Or.inl old
  | DeleteValue auth name =>
    have exact : sql.SelectsVariable name.c_str := exact
    obtain ⟨deleted, after, made, agrees⟩ :=
      DeleteVariableInternal_of_agrees exact holds.agrees (kept auth name rfl)
    have rows := DeleteValue_rows sql d auth name
    rw [made] at rows
    obtain ⟨t, ran, same⟩ := Option.map_eq_some_iff.mp rows
    have same : t.tables.VARIABLES = after.VARIABLES := same
    refine ⟨t, ran, holds.change (same ▸ agrees) (DeleteValue_cache ran) fun k entry found => ?_⟩
    rcases update_cases found with ⟨_, ⟨⟩⟩ | ⟨_, old⟩
    exact Or.inl old
  | ReadValuef64 name =>
    obtain ⟨t, found, fetched, kept, _⟩ := holds.fetch exact
    have fetched : Database.fetch sql d name.c_str = some (t, found) := fetched
    refine ⟨t, ?_, kept⟩
    show (Database.ReadValuef64 sql num d name).map Prod.fst = some t
    rw [Database.ReadValuef64, fetched]
    rfl
  | ReadValueString name out =>
    obtain ⟨t, found, fetched, kept, short⟩ := holds.fetch exact
    refine ⟨t, ?_, kept⟩
    have fetched : Database.fetch sql d name.c_str = some (t, found) := fetched
    show (Database.ReadValueString sql d name out).map Prod.fst = some t
    rw [Database.ReadValueString, fetched]
    cases found with
    | none => rfl
    | some value =>
      have fits : value.length < 512 := short value rfl
      have inside : (0 : Int) ≤ 0 ∧ (0 : Int) + ↑(value ++ [0]).length ≤ out.buffer.length := by
        rw [out.size, List.length_append, List.length_singleton]
        omega
      simp only [Option.bind_eq_bind, Option.bind_some, store, if_pos inside, Option.map_some]

theorem holds_open : Holds Open (fun _ => none) where
  agrees _ := rfl
  stored _ _ found := by cases found
  cached _ _ found := by cases found

theorem mapOf_concat (calls : List (Call f64)) :
    mapOf num (calls ++ [call]) = (mapOf num calls).call num call := by
  simp [mapOf]

theorem run_concat (calls : List (Call f64)) :
    run sql num (calls ++ [call]) = (run sql num calls).bind fun d => d.call sql num call := by
  simp [run]

theorem run_distinct {calls : List (Call f64)} (ran : run sql num calls = some d) :
    Distinct VariableRow.name d.tables.VARIABLES := by
  induction calls using List.reverseRecOn generalizing d with
  | nil =>
    cases ran
    exact List.nodup_nil
  | append_singleton calls call ih =>
    rw [run_concat, Option.bind_eq_some_iff] at ran
    obtain ⟨before, ran, stepped⟩ := ran
    exact call_distinct stepped (ih ran)

/-- What is done after each call holds of the map's rows, as long as none with an empty value is
deleted. -/
theorem run_holds {calls : List (Call f64)} (exact : ∀ call ∈ calls, sql.SelectsVariable call.name)
    (kept : NoneDeletedEmpty num calls) :
    ∃ d, run sql num calls = some d ∧ Holds d (mapOf num calls) := by
  induction calls using List.reverseRecOn with
  | nil => exact ⟨Open, rfl, holds_open⟩
  | append_singleton calls call ih =>
    obtain ⟨d, ran, holds⟩ := ih (fun call member => exact call (by simp [member]))
      (fun before auth name front => kept before auth name (front.trans (by simp)))
    obtain ⟨t, stepped, held⟩ := holds.step num (exact call (by simp))
      (by
        rintro auth name rfl
        exact kept calls auth name (List.prefix_refl _))
    refine ⟨t, ?_, ?_⟩
    · rw [run_concat, ran]
      exact stepped
    · rw [mapOf_concat]
      exact held

theorem keyed_after_delete {auth : Authority} {name : Text} {calls : List (Call f64)}
    (agrees : Agrees t.tables.VARIABLES (mapOf num (calls ++ [.DeleteValue auth name]))) :
    keyed VariableRow.name t.tables.VARIABLES name.c_str.bytes = [] := by
  apply agrees.absent
  rw [mapOf_concat]
  exact Function.update_self _ _ _

/-- A row with an empty value outlives its deletion. -/
theorem ActsAsMap.noneDeletedEmpty {calls : List (Call f64)}
    (exact : ∀ call ∈ calls, sql.SelectsVariable call.name) (acts : ActsAsMap sql num calls) :
    NoneDeletedEmpty num calls := by
  intro before auth name front entry there empty
  have named : sql.SelectsVariable name.c_str :=
    exact (.DeleteValue auth name) (front.subset (by simp))
  obtain ⟨d, ran, agrees⟩ := acts.rows before ((List.prefix_append _ _).trans front)
  obtain ⟨r, only, _⟩ := agrees.present there
  have left := DeleteValue_rows sql d auth name
  rw [DeleteVariableInternal_empty named agrees there empty] at left
  obtain ⟨t, stepped, same⟩ := Option.map_eq_some_iff.mp left
  have same : t.tables.VARIABLES = d.tables.VARIABLES := same
  have gone := acts.deleted before auth name front t (by rw [run_concat, ran]; exact stepped)
  rw [same, only] at gone
  cases gone

/-- **The variable store is a map**, for any sequence of calls, if and only if no variable is deleted
while its value is empty. -/
theorem variables_map_iff (calls : List (Call f64))
    (exact : ∀ call ∈ calls, sql.SelectsVariable call.name) :
    ActsAsMap sql num calls ↔ NoneDeletedEmpty num calls := by
  constructor
  · exact ActsAsMap.noneDeletedEmpty exact
  · intro kept
    have holds : ∀ before, before <+: calls →
        ∃ d, run sql num before = some d ∧ Holds d (mapOf num before) := fun before front =>
      run_holds (fun call member => exact call (front.subset member))
        fun first auth name early => kept first auth name (early.trans front)
    refine ⟨fun before front => ?_, fun before call front d t _ stepped k different => ?_,
      fun before auth name front t ran => ?_⟩
    · obtain ⟨d, ran, held⟩ := holds before front
      exact ⟨d, ran, held.agrees⟩
    · exact call_others (exact call (front.subset (by simp))) stepped different
    · obtain ⟨d, same, held⟩ := holds _ front
      obtain rfl := Option.some.inj (ran.symm.trans same)
      exact keyed_after_delete held.agrees

end

/-- A text of its own, with zeros behind it. -/
def Text.of (s : CString) (short : s.bytes.length < 512) : Text where
  buffer := s.bytes ++ List.replicate (512 - s.bytes.length) 0
  size := by rw [List.length_append, List.length_replicate]; omega
  terminated := List.mem_append_right _ (List.mem_replicate.mpr ⟨by omega, rfl⟩)

@[simp] theorem Text.c_str_of (s : CString) (short : s.bytes.length < 512) :
    (Text.of s short).c_str.bytes = s.bytes := by
  obtain ⟨zeros, more⟩ : ∃ zeros, 512 - s.bytes.length = zeros + 1 :=
    Nat.exists_eq_succ_of_ne_zero (by omega)
  show cStr (s.bytes ++ List.replicate (512 - s.bytes.length) 0) = s.bytes
  have not_zero : ∀ c ∈ s.bytes, decide (c ≠ 0) = true := fun c member =>
    decide_eq_true fun zero => s.nul_free (zero ▸ member)
  rw [more, List.replicate_succ]
  exact (List.takeWhile_append_of_pos not_zero).trans (List.append_nil s.bytes)

/-- The numbers of one digit. -/
def digits : Numerals (Fin 10) where
  to_string x := ⟨UInt8.ofNat (48 + x) :: ascii ".000000", by revert x; decide⟩
  atof text := Fin.ofNat 10 ((text.headD 48).toNat - 48)
  zero := 0
  printed _ := by simp
  short _ := by simp [ascii]

def variableX : Text := .of ⟨[120], by decide⟩ (by decide)

def noText : Text := .of ⟨[], by decide⟩ (by decide)

def one : Text := .of ⟨[49], by decide⟩ (by decide)

theorem variables_map_written :
    ActsAsMap Sqlite.byText digits [.WriteValueString .USER variableX one noText,
      .WriteValuef64 .SYS variableX 3 noText, .DeleteValue .SYS variableX] :=
  (variables_map_iff _ fun call _ => byText_selectsVariable call.name).mpr (by
    intro before auth name front entry found
    rcases before with _ | ⟨a, _ | ⟨b, _ | ⟨c, rest⟩⟩⟩ <;>
      simp only [List.nil_append, List.cons_append, List.cons_prefix_cons, List.nil_prefix] at front
    · cases front.1
    · cases front.2.1
    · obtain ⟨rfl, rfl, ⟨⟩, _⟩ := front
      cases found
      exact digits.printed 3
    · exact absurd (List.prefix_nil.mp front.2.2.2) (by simp))

/-- A variable written with the empty value, and deleted. -/
theorem empty_value_stays :
    ¬ ActsAsMap Sqlite.byText digits [.WriteValueString .USER variableX noText noText,
      .DeleteValue .USER variableX] := by
  intro acts
  have kept := acts.noneDeletedEmpty fun call _ => byText_selectsVariable call.name
  have written : mapOf digits [.WriteValueString .USER variableX noText noText]
      variableX.c_str.bytes = some (noText.c_str, noText.c_str) := by
    simp [mapOf, Variables.call]
  exact kept [.WriteValueString .USER variableX noText noText] .USER variableX (List.prefix_refl _)
    (noText.c_str, noText.c_str) written rfl

end DCScan.Database
