import DCScan.Rdb

/-!
`QueryEntries` and `GetAllUsers` over a whole result set.

Each of the five loops counts the rows and passes the count to the accessor for the column. The
statement has one column, so from the second row on the accessor is asked for one that there is not:
NULL, or zero. `Rdb` has the lookups of one row.
-/

namespace DCScan.Queries

open Lib RDB

/-- `EntryType`. -/
inductive EntryType where
  | TEXT | INT | REAL | DATE | BLOB
  deriving DecidableEq, Repr

/-- The selected column of a row, as each of SQLite's accessors returns it; a pointer may be null. -/
structure Cell where
  text : Option CString
  int : Int32
  double : Float
  blob : Option (List UInt8)

/-- How stepping ends, after the last row. -/
inductive Ending where
  | done
  | error
  deriving DecidableEq, Repr

/-- A prepared statement: the rows that it steps through. -/
structure Statement where
  rows : List Cell
  ending : Ending

/-- An entry of the vector that is filled. -/
inductive Entry where
  | text (s : CString)
  | int (x : Int32)
  | real (x : Float)
  | blob (bytes : List UInt8)

/-! ## The loops -/

/-- An accessor of a row with one column. -/
def column {α : Type} (i : Nat) (first beyond : α) : α := if i = 0 then first else beyond

/-- An entry made of the column's text. A string is not made of a null pointer. -/
def textEntry (c : Cell) (i : Nat) : Option Entry := (column i c.text none).map .text

def intEntry (c : Cell) (i : Nat) : Option Entry := some (.int (column i c.int 0))

def realEntry (c : Cell) (i : Nat) : Option Entry := some (.real (column i c.double 0.0))

/-- The entry takes as many bytes as the first eight say. -/
def blobEntryOf (c : Cell) (i : Nat) : Option Entry :=
  (column i c.blob none).bind fun temp => (blobEntry temp).map .blob

/-- `while(sqlite3_step(stmt) == SQLITE_ROW)`, from column `i` on. -/
def whileRow (entry : Cell → Nat → Option Entry) : List Cell → Nat → List Entry → Option (List Entry)
  | [], _, vector => some vector
  | c :: rows, i, vector => do
    let x ← entry c i
    whileRow entry rows (i + 1) (vector ++ [x])

/-- `while(sqlite3_step(stmt) != SQLITE_DONE)`. After an error there is no row, and no text. -/
def whileNotDone (entry : Cell → Nat → Option Entry) (ending : Ending) :
    List Cell → Nat → List Entry → Option (List Entry)
  | [], _, vector => if ending = .done then some vector else none
  | c :: rows, i, vector => do
    let x ← entry c i
    whileNotDone entry ending rows (i + 1) (vector ++ [x])

/-- `QueryEntries` of a statement that is prepared. -/
def QueryEntries (stmt : Statement) : EntryType → Option (List Entry)
  | .TEXT => whileNotDone textEntry stmt.ending stmt.rows 0 []
  | .INT => whileRow intEntry stmt.rows 0 []
  | .REAL => whileRow realEntry stmt.rows 0 []
  | .DATE => whileRow textEntry stmt.rows 0 []
  | .BLOB => whileRow blobEntryOf stmt.rows 0 []

/-- The value of a column, as an entry of the type. -/
def value (c : Cell) : EntryType → Option Entry
  | .TEXT => c.text.map .text
  | .INT => some (.int c.int)
  | .REAL => some (.real c.double)
  | .DATE => c.text.map .text
  | .BLOB => c.blob.map .blob

/-- The query fills the vector with the values of all rows in their order. -/
def Exact (stmt : Statement) (type : EntryType) : Prop :=
  ∃ entries, QueryEntries stmt type = some entries ∧
    entries.map some = stmt.rows.map fun c => value c type

/-- A blob that begins with its own size. -/
def Sized (temp : List UInt8) : Prop := 8 ≤ temp.length ∧ leNat (temp.take 8) = temp.length

/-- The result sets that a type can be read of. -/
def Readable (stmt : Statement) : EntryType → Prop
  | .TEXT => stmt.ending = .done ∧ stmt.rows.length ≤ 1 ∧ ∀ c ∈ stmt.rows, c.text ≠ none
  | .INT => ∀ c ∈ stmt.rows.tail, c.int = 0
  | .REAL => ∀ c ∈ stmt.rows.tail, c.double = 0.0
  | .DATE => stmt.rows.length ≤ 1 ∧ ∀ c ∈ stmt.rows, c.text ≠ none
  | .BLOB => stmt.rows.length ≤ 1 ∧ ∀ c ∈ stmt.rows, ∃ temp, c.blob = some temp ∧ Sized temp

variable {entry : Cell → Nat → Option Entry} {rows : List Cell} {i : Nat} {vector : List Entry}
  {ending : Ending} {stmt : Statement} {c : Cell}

/-! ## What a loop makes -/

/-- The entries of the rows, each read at its own count. -/
def entriesFrom (entry : Cell → Nat → Option Entry) : List Cell → Nat → List (Option Entry)
  | [], _ => []
  | c :: rows, i => entry c i :: entriesFrom entry rows (i + 1)

/-- A loop over rows appends their entries, if every one can be made. -/
theorem whileRow_eq_some {filled : List Entry} :
    whileRow entry rows i vector = some filled ↔
      ∃ made, entriesFrom entry rows i = made.map some ∧ filled = vector ++ made := by
  induction rows generalizing i vector with
  | nil =>
    constructor
    · rintro ⟨⟩
      exact ⟨[], rfl, (List.append_nil _).symm⟩
    · rintro ⟨made, none, rfl⟩
      obtain rfl : made = [] := by simpa [entriesFrom] using none
      rw [whileRow, List.append_nil]
  | cons c rows ih =>
    rw [whileRow, entriesFrom]
    cases first : entry c i with
    | none =>
      refine iff_of_false (by simp) ?_
      rintro ⟨made, heads, -⟩
      cases made <;> cases heads
    | some x =>
      rw [Option.bind_eq_bind, Option.bind_some, ih]
      constructor
      · rintro ⟨made, rest, rfl⟩
        exact ⟨x :: made, by rw [rest, List.map_cons], by simp⟩
      · rintro ⟨_ | ⟨y, made⟩, heads, rfl⟩
        · cases heads
        · rw [List.map_cons, List.cons.injEq, Option.some.injEq] at heads
          obtain ⟨rfl, rest⟩ := heads
          exact ⟨made, rest, by simp⟩

/-- The loop that goes on after an error is the other one where there is none. -/
theorem whileNotDone_eq :
    whileNotDone entry ending rows i vector =
      if ending = .done then whileRow entry rows i vector else none := by
  induction rows generalizing i vector with
  | nil => rfl
  | cons c rows ih =>
    rw [whileNotDone, whileRow]
    cases entry c i with
    | none => simp
    | some x => exact ih

/-- From the second row on every entry is the one of a column that there is not. -/
theorem entriesFrom_beyond {beyond : Option Entry} (same : ∀ c i, entry c (i + 1) = beyond) :
    entriesFrom entry rows (i + 1) = rows.map fun _ => beyond := by
  induction rows generalizing i with
  | nil => rfl
  | cons c rows ih => rw [entriesFrom, same, ih, List.map_cons]

/-- A loop is exact when the first row's entry is its value, and the values of all others are what is
read of a column that there is not. -/
theorem whileRow_exact {f : Cell → Option Entry} (beyond : Option Entry)
    (same : ∀ c i, entry c (i + 1) = beyond) :
    (∃ entries, whileRow entry rows 0 [] = some entries ∧ entries.map some = rows.map f) ↔
      (∀ c ∈ rows, f c ≠ none) ∧ (∀ c ∈ rows.head?, entry c 0 = f c) ∧
        ∀ c ∈ rows.tail, f c = beyond := by
  have entries : entriesFrom entry rows 0 = rows.map f ↔
      (∀ c ∈ rows.head?, entry c 0 = f c) ∧ ∀ c ∈ rows.tail, f c = beyond := by
    cases rows with
    | nil => simp [entriesFrom]
    | cons c rows =>
      rw [entriesFrom, entriesFrom_beyond same, List.map_cons, List.cons.injEq]
      refine and_congr (by simp) ?_
      rw [List.map_inj_left]
      exact ⟨fun all c member => (all c member).symm, fun all c member => (all c member).symm⟩
  rw [← entries]
  constructor
  · rintro ⟨filled, ran, values⟩
    obtain ⟨made, heads, same⟩ := whileRow_eq_some.mp ran
    obtain rfl : filled = made := same
    refine ⟨fun c member none => ?_, heads.trans values⟩
    have there : f c ∈ filled.map some := values ▸ List.mem_map_of_mem member
    obtain ⟨x, -, some'⟩ := List.mem_map.mp there
    rw [none] at some'
    cases some'
  · rintro ⟨there, heads⟩
    have values : (rows.filterMap f).map some = rows.map f := by
      rw [List.map_filterMap_some_eq_filter_map_isSome, List.filter_eq_self]
      intro x member
      obtain ⟨c, row, rfl⟩ := List.mem_map.mp member
      exact Option.isSome_iff_ne_none.mpr (there c row)
    exact ⟨rows.filterMap f, whileRow_eq_some.mpr ⟨_, heads.trans values.symm, rfl⟩, values⟩

/-! ## The types -/

theorem Sized.blobEntry {temp : List UInt8} (sized : Sized temp) : RDB.blobEntry temp = some temp := by
  obtain ⟨long, size⟩ := sized
  unfold RDB.blobEntry
  simp only [size]
  rw [if_pos ⟨long, le_rfl⟩, List.take_length]

/-- A blob is read whole when it begins with its own size, and only then. -/
theorem blobEntry_iff {temp : List UInt8} : RDB.blobEntry temp = some temp ↔ Sized temp := by
  refine ⟨fun whole => ?_, Sized.blobEntry⟩
  unfold RDB.blobEntry at whole
  obtain ⟨⟨long, fits⟩, front⟩ := Option.ite_none_right_eq_some.mp whole
  have length := congrArg List.length (Option.some.inj front)
  rw [List.length_take] at length
  exact ⟨long, by omega⟩

/-- Where another column is none, a single row has to be all there is. -/
theorem tail_none_iff {f : Cell → Option Entry} (there : ∀ c ∈ rows, f c ≠ none) :
    (∀ c ∈ rows.tail, f c = none) ↔ rows.length ≤ 1 := by
  rcases rows with _ | ⟨c, _ | ⟨c', rows⟩⟩
  · simp
  · simp
  · refine iff_of_false (fun all => ?_) (by simp)
    exact there c' (by simp) (all c' (by simp))

theorem text_exact :
    (∃ entries, whileRow textEntry rows 0 [] = some entries ∧
      entries.map some = rows.map fun c => c.text.map .text) ↔
      rows.length ≤ 1 ∧ ∀ c ∈ rows, c.text ≠ none := by
  rw [whileRow_exact none fun c i => rfl]
  have values : (∀ c ∈ rows, c.text.map Entry.text ≠ none) ↔ ∀ c ∈ rows, c.text ≠ none := by
    simp only [ne_eq, Option.map_eq_none_iff]
  constructor
  · rintro ⟨there, -, rest⟩
    exact ⟨(tail_none_iff there).mp rest, values.mp there⟩
  · rintro ⟨one, there⟩
    exact ⟨values.mpr there, fun c _ => rfl, (tail_none_iff (values.mpr there)).mpr one⟩

theorem blob_exact :
    (∃ entries, whileRow blobEntryOf rows 0 [] = some entries ∧
      entries.map some = rows.map fun c => c.blob.map .blob) ↔
      rows.length ≤ 1 ∧ ∀ c ∈ rows, ∃ temp, c.blob = some temp ∧ Sized temp := by
  rw [whileRow_exact none fun c i => rfl]
  have first {c : Cell} {temp : List UInt8} (there : c.blob = some temp) :
      blobEntryOf c 0 = c.blob.map .blob ↔ Sized temp := by
    rw [← blobEntry_iff, blobEntryOf, column, if_pos rfl, there, Option.bind_some, Option.map_some]
    cases RDB.blobEntry temp with
    | none => simp
    | some bytes => simp
  constructor
  · rintro ⟨there, head, rest⟩
    have one := (tail_none_iff there).mp rest
    refine ⟨one, fun c member => ?_⟩
    have pointer : c.blob ≠ none := fun null => there c member (by rw [null, Option.map_none])
    obtain ⟨temp, blob⟩ := Option.ne_none_iff_exists'.mp pointer
    obtain rfl : rows = [c] := by
      obtain ⟨c', rfl⟩ := List.length_eq_one_iff.mp
        (Nat.le_antisymm one (List.length_pos_of_mem member))
      rw [List.mem_singleton.mp member]
    exact ⟨temp, blob, (first blob).mp (head c rfl)⟩
  · rintro ⟨one, sized⟩
    have there (c : Cell) (member : c ∈ rows) : c.blob.map Entry.blob ≠ none := by
      obtain ⟨temp, blob, -⟩ := sized c member
      simp [blob]
    refine ⟨there, fun c head => ?_, (tail_none_iff there).mpr one⟩
    obtain ⟨temp, blob, whole⟩ := sized c (List.mem_of_mem_head? head)
    exact (first blob).mpr whole

/-- A number is read of the first row, and zero of the others. -/
theorem number_exact {α : Type} {number : Cell → α} {zero : α} {make : α → Entry}
    (injective : Function.Injective make) :
    (∃ entries, whileRow (fun c i => some (make (column i (number c) zero))) rows 0 [] =
      some entries ∧ entries.map some = rows.map fun c => some (make (number c))) ↔
      ∀ c ∈ rows.tail, number c = zero := by
  rw [whileRow_exact (some (make zero)) fun c i => rfl]
  constructor
  · rintro ⟨-, -, rest⟩ c member
    exact injective (Option.some.inj (rest c member))
  · intro rest
    refine ⟨fun c _ => Option.some_ne_none _, fun c _ => rfl, fun c member => ?_⟩
    rw [rest c member]

/-- A query is exact of the result sets that can be read. -/
theorem exact_iff (stmt : Statement) (type : EntryType) : Exact stmt type ↔ Readable stmt type := by
  unfold Exact
  cases type with
  | TEXT =>
    simp only [QueryEntries, whileNotDone_eq, value, Readable]
    by_cases done : stmt.ending = .done
    · simp only [done, true_and]
      exact text_exact
    · simp [done]
  | INT => exact number_exact fun _ _ same => Entry.int.inj same
  | REAL => exact number_exact fun _ _ same => Entry.real.inj same
  | DATE => exact text_exact
  | BLOB => exact blob_exact

/-! ## The lookups of one row -/

/-- The bytes of a text or of a blob. -/
def Entry.bytes : Entry → List UInt8
  | text s => s.bytes
  | blob bytes => bytes
  | int _ => []
  | real _ => []

/-- A statement that selects two rows is read beyond its column. -/
theorem whileRow_two {c' : Cell} (beyond : ∀ c i, entry c (i + 1) = none) :
    whileRow entry (c :: c' :: rows) 0 [] = none := by
  rw [whileRow]
  cases entry c 0 with
  | none => rfl
  | some x => rw [Option.bind_eq_bind, Option.bind_some, whileRow, beyond]; rfl

/-- Where there is nothing to read beyond the column, a loop is the query of `Rdb`. -/
theorem whileRow_eq_query {ρ : Type} {statement : Option (ρ → Bool)} {table : List ρ}
    {cell : ρ → Cell} {read : ρ → Option (List UInt8)} (beyond : ∀ c i, entry c (i + 1) = none)
    (first : ∀ r, (entry (cell r) 0).map Entry.bytes = read r) :
    (whileRow entry ((selected statement table).map cell) 0 []).map (List.map Entry.bytes) =
      RDB.QueryEntries statement table read := by
  unfold RDB.QueryEntries
  rcases selected statement table with _ | ⟨r, _ | ⟨r', rest⟩⟩
  · rfl
  · simp only [List.map_cons, List.map_nil, ← first]
    cases made : entry (cell r) 0 with
    | none => simp [whileRow, made]
    | some x => simp [whileRow, made]
  · rw [List.map_cons, List.map_cons, whileRow_two beyond]
    rfl

/-- The column USERNAME. It is read as a text only. -/
def usernameCell (r : UserRow) : Cell where
  text := some ⟨cStr r.username, fun zero => by simpa using List.mem_takeWhile_imp zero⟩
  int := 0
  double := 0.0
  blob := none

/-- The column PASS_HASH. It is read as a blob only. -/
def passHashCell (r : UserRow) : Cell where
  text := none
  int := 0
  double := 0.0
  blob := some r.passHash

/-- The name that `GetUser` looks up. -/
theorem username_query (statement : Option (UserRow → Bool)) (table : List UserRow) :
    (QueryEntries ⟨(selected statement table).map usernameCell, .done⟩ .TEXT).map
        (List.map Entry.bytes) =
      RDB.QueryEntries statement table fun r => some (cStr r.username) := by
  simp only [QueryEntries, whileNotDone_eq, if_true]
  exact whileRow_eq_query (fun _ _ => rfl) fun _ => rfl

/-- The hash that it looks up. -/
theorem passHash_query (statement : Option (UserRow → Bool)) (table : List UserRow) :
    (QueryEntries ⟨(selected statement table).map passHashCell, .done⟩ .BLOB).map
        (List.map Entry.bytes) =
      RDB.QueryEntries statement table fun r => blobEntry r.passHash := by
  refine whileRow_eq_query (fun _ _ => rfl) fun r => ?_
  simp only [blobEntryOf, column, passHashCell, if_true, Option.bind_some, Option.map_map]
  exact Option.map_id'

/-! ## All users -/

/-- `strcpy` into the 32 bytes of `u`. -/
def strcpyUser (u : List UInt8) : Option (List UInt8) := if u.length < 32 then some u else none

/-- `memcpy` of `p`, out of the vector of hashes. -/
def copyHash (hash : List (List UInt8)) (u : List UInt8) (i : Nat) : Option User :=
  match hash[i]? with
  | some bytes => if 40 ≤ bytes.length then some ⟨u, some ((bytes.drop 8).take 32)⟩ else none
  | none => none

/-- `GetAllUsers`; its WHERE text selects every row. -/
def GetAllUsers (db : Tables) : Option (List User) := do
  let usernames ← QueryEntries ⟨db.USERS.map usernameCell, .done⟩ .TEXT
  if usernames.isEmpty then some []
  else do
    let users ← usernames.mapM fun u => strcpyUser u.bytes
    let hash ← QueryEntries ⟨db.USERS.map passHashCell, .done⟩ .BLOB
    users.zipIdx.mapM fun (u, i) => copyHash (hash.map Entry.bytes) u i

/-- One user for each row, with its own name and its own hash. -/
def ListsUsers (db : Tables) : Prop :=
  GetAllUsers db = some (db.USERS.map fun r => ⟨r.username, some ((r.passHash.drop 8).take 32)⟩)

/-- A row that a `User` has room for: a name, and a hash behind the size of the blob. -/
structure Kept (r : UserRow) : Prop where
  name : r.username.length < 32
  nul_free : 0 ∉ r.username
  sized : 40 ≤ leNat (r.passHash.take 8)
  whole : leNat (r.passHash.take 8) ≤ r.passHash.length

/-- Of one row one user is made, of its name and of its hash. -/
theorem getAllUsers_one {db : Tables} {r : UserRow} (only : db.USERS = [r]) :
    GetAllUsers db = (strcpyUser (cStr r.username)).bind fun u =>
      (blobEntry r.passHash).bind fun temp => (copyHash [temp] u 0).map fun user => [user] := by
  rw [GetAllUsers, only]
  simp only [QueryEntries, whileNotDone, whileRow, textEntry, blobEntryOf, column, usernameCell,
    passHashCell, List.map_cons, List.map_nil, if_true, Option.map_some, Option.bind_some,
    Option.bind_eq_bind, List.nil_append, List.isEmpty_cons, Bool.false_eq_true, if_false]
  cases copied : strcpyUser (cStr r.username) with
  | none => simp [Entry.bytes, copied]
  | some u =>
    cases blob : blobEntry r.passHash with
    | none => simp [Entry.bytes, copied]
    | some temp =>
      cases made : copyHash [temp] u 0 with
      | none => simp [Entry.bytes, copied, made]
      | some user => simp [Entry.bytes, copied, made]

/-- Of a row that is kept, the name is whole. -/
theorem Kept.cStr {r : UserRow} (kept : Kept r) : DCScan.cStr r.username = r.username :=
  CString.cStr_bytes ⟨r.username, kept.nul_free⟩

/-- A single row is listed when it is kept. -/
theorem listsUsers_one {db : Tables} {r : UserRow} (only : db.USERS = [r]) :
    ListsUsers db ↔ Kept r := by
  rw [ListsUsers, getAllUsers_one only, only]
  constructor
  · intro listed
    obtain ⟨u, copied, listed⟩ := Option.bind_eq_some_iff.mp listed
    obtain ⟨temp, blob, listed⟩ := Option.bind_eq_some_iff.mp listed
    obtain ⟨user, made, same⟩ := Option.map_eq_some_iff.mp listed
    obtain ⟨short, name⟩ := Option.ite_none_right_eq_some.mp copied
    obtain rfl := Option.some.inj name
    obtain ⟨⟨-, whole⟩, front⟩ := Option.ite_none_right_eq_some.mp blob
    obtain ⟨long, record⟩ := Option.ite_none_right_eq_some.mp made
    have named : DCScan.cStr r.username = r.username := by
      rw [← Option.some.inj record, List.map_singleton, List.singleton_inj, User.mk.injEq] at same
      exact same.1
    rw [← Option.some.inj front, List.length_take] at long
    refine ⟨named ▸ short, fun zero => ?_, by omega, whole⟩
    rw [← named] at zero
    simpa using List.mem_takeWhile_imp zero
  · intro kept
    have long : 8 ≤ r.passHash.length := by
      have := kept.sized
      have := kept.whole
      omega
    have blob : blobEntry r.passHash = some (r.passHash.take (leNat (r.passHash.take 8))) :=
      if_pos ⟨long, kept.whole⟩
    have size : (r.passHash.take (leNat (r.passHash.take 8))).length = leNat (r.passHash.take 8) :=
      List.length_take_of_le kept.whole
    have hash : ((r.passHash.take (leNat (r.passHash.take 8))).drop 8).take 32 =
        (r.passHash.drop 8).take 32 := by
      have := kept.sized
      rw [List.drop_take, List.take_take, min_eq_left (by omega)]
    have enough := kept.sized
    rw [← size] at enough
    rw [kept.cStr, strcpyUser, if_pos kept.name, Option.bind_some, blob, Option.bind_some, copyHash]
    simp only [List.getElem?_cons_zero]
    rw [if_pos enough, hash]
    rfl

/-- Of two rows the second has no name. -/
theorem getAllUsers_two {db : Tables} {r r' : UserRow} {rest : List UserRow}
    (more : db.USERS = r :: r' :: rest) : GetAllUsers db = none := by
  have query : QueryEntries ⟨db.USERS.map usernameCell, .done⟩ .TEXT = none := by
    rw [more, QueryEntries, whileNotDone_eq, if_pos rfl]
    exact whileRow_two fun _ _ => rfl
  rw [GetAllUsers, query]
  rfl

/-- The users are listed when there is none, or one that is kept. -/
theorem listsUsers_iff (db : Tables) :
    ListsUsers db ↔ db.USERS.length ≤ 1 ∧ ∀ r ∈ db.USERS, Kept r := by
  cases users : db.USERS with
  | nil =>
    refine iff_of_true ?_ (by simp)
    rw [ListsUsers, GetAllUsers, users]
    rfl
  | cons r rest =>
    cases rest with
    | nil =>
      rw [listsUsers_one users]
      simp
    | cons r' rest =>
      refine iff_of_false ?_ (by simp)
      rw [ListsUsers, getAllUsers_two users]
      simp

/-- A row that `AddUser` makes is kept. -/
theorem kept_of_added {r : UserRow} {username : CString} {sha : Digest} {password : List UInt8}
    (name : r.username = username.bytes) (short : username.bytes.length < 32)
    (hash : r.passHash = passHash sha password) : Kept r := by
  have length : r.passHash.length = 40 := by
    rw [hash, passHash, List.length_append, leBytes_length, sha.length]
  have size : leNat (r.passHash.take 8) = 40 := by
    rw [hash, passHash, List.take_left' (leBytes_length 8 40)]
    exact leNat_leBytes_of_lt (by decide)
  exact ⟨name ▸ short, name ▸ username.nul_free, size.ge, by rw [size, length]⟩

/-- Every query is exact of the result sets that can be read, and of no others; and all users are listed
when there is at most one. -/
theorem queries_exact_iff (stmt : Statement) (type : EntryType) (db : Tables) :
    (Exact stmt type ↔ Readable stmt type) ∧
      (ListsUsers db ↔ db.USERS.length ≤ 1 ∧ ∀ r ∈ db.USERS, Kept r) :=
  ⟨exact_iff stmt type, listsUsers_iff db⟩

/-! ## Two users -/

def sampleRow (id : Int) (username : String) : UserRow :=
  ⟨id, ascii username, leBytes 8 40 ++ .replicate 32 (UInt8.ofNat id.toNat), 0⟩

/-- The name of the second user is read of a column that there is not. -/
theorem second_user_null :
    ¬ Exact ⟨[sampleRow 1 "alice", sampleRow 2 "bob"].map usernameCell, .done⟩ .TEXT ∧
      ¬ ListsUsers ⟨[sampleRow 1 "alice", sampleRow 2 "bob"], 2, [], [], []⟩ := by
  constructor
  · rw [exact_iff]
    rintro ⟨-, one, -⟩
    exact absurd one (by decide)
  · rw [listsUsers_iff]
    rintro ⟨one, -⟩
    exact absurd one (by decide)

end DCScan.Queries
