import DCScan.Lib.Quoted
import DCScan.Rdb

/-!
The WHERE texts of the lookups, as SQLite reads them.

A key is put between double quotes as it is. SQLite takes a quoted token that names a column for that
column and any other for a text, and ends the token at a quote that is not doubled. An `Engine` is
anything that reads WHERE texts so; what it makes of the others is its own affair.
-/

namespace DCScan.RDB

open Lib

def doubleQuote : UInt8 := 34

/-- A value of a row. -/
inductive Value where
  | null
  | integer (n : Int)
  | text (bytes : List UInt8)
  | blob (bytes : List UInt8)
  deriving DecidableEq

structure Column (ρ : Type) where
  name : List UInt8
  value : ρ → Value

/-- Column names are compared without regard to the case of ASCII letters. -/
def upper (c : UInt8) : UInt8 := if 97 ≤ c ∧ c ≤ 122 then c - 32 else c

/-- The columns of USERS, and the names that every table has for its row id. -/
def userColumns : List (Column UserRow) :=
  [⟨ascii "ID", fun r => .integer r.id⟩, ⟨ascii "USERNAME", fun r => .text r.username⟩,
    ⟨ascii "PASS_HASH", fun r => .blob r.passHash⟩,
    ⟨ascii "ACCESS_LVL", fun r => .integer r.accessLvl⟩, ⟨ascii "ROWID", fun r => .integer r.id⟩,
    ⟨ascii "OID", fun r => .integer r.id⟩, ⟨ascii "_ROWID_", fun r => .integer r.id⟩]

def variableColumns : List (Column VariableRow) :=
  [⟨ascii "NAME", fun r => .text r.name⟩, ⟨ascii "VALUE", fun r => .text r.value⟩,
    ⟨ascii "DESCRIPTOR", fun r => r.descriptor.elim .null .text⟩,
    ⟨ascii "ROWID", fun r => .integer r.rowid⟩, ⟨ascii "OID", fun r => .integer r.rowid⟩,
    ⟨ascii "_ROWID_", fun r => .integer r.rowid⟩]

structure Engine where
  /-- The integer that a text is taken for when it is compared with a column of integers. -/
  numeric : List UInt8 → Option Int
  digits : ∀ text n, numeric text = some n → ∃ c ∈ text, isdigit c = true
  /-- The other WHERE texts. -/
  otherUsers : List UInt8 → Option (UserRow → Bool)
  otherVariables : List UInt8 → Option (VariableRow → Bool)

section

variable {ρ : Type}

/-- Whether a TEXT column equals another column. -/
def Engine.equals (engine : Engine) (key : List UInt8) : Value → Bool
  | .null => false
  | .integer n => engine.numeric key = some n
  | .text bytes => key = bytes
  | .blob _ => false

/-- The column that a quoted token names. -/
def columnOf (columns : List (Column ρ)) (token : List UInt8) : Option (Column ρ) :=
  columns.find? fun column => column.name = token.map upper

/-- The rows where a TEXT column equals a quoted token. -/
def Engine.equalsToken (engine : Engine) (columns : List (Column ρ)) (key : ρ → List UInt8)
    (token : List UInt8) (r : ρ) : Bool :=
  match columnOf columns token with
  | some column => engine.equals (key r) (column.value r)
  | none => key r = token

/-- Reads `front`, which is `KEY = "`, one token, and nothing behind it. -/
def Engine.statement (engine : Engine) (columns : List (Column ρ)) (key : ρ → List UInt8)
    (other : List UInt8 → Option (ρ → Bool)) (front text : List UInt8) : Option (ρ → Bool) :=
  if front <+: text then
    match unquote doubleQuote (text.drop front.length) with
    | some (token, []) => some (engine.equalsToken columns key token)
    | _ => other text
  else other text

end

def Engine.sqlite (engine : Engine) : Sqlite where
  ofUsers := engine.statement userColumns UserRow.username engine.otherUsers
    (ascii "USERNAME = \"")
  ofVariables := engine.statement variableColumns VariableRow.name engine.otherVariables
    (ascii "NAME = \"")

/-! ## What one WHERE text selects -/

section

variable {ρ : Type} {engine : Engine} {columns : List (Column ρ)} {key : ρ → List UInt8}
variable {other : List UInt8 → Option (ρ → Bool)} {front s token : List UInt8}

theorem selects_some {meets : ρ → Bool} {k : List UInt8} :
    Selects key (some meets) k ↔ ∀ r, meets r = decide (key r = k) := by
  constructor
  · intro exact r
    have one := exact [r]
    rw [selected, keyed] at one
    cases met : meets r <;> by_cases same : key r = k <;> simp_all
  · intro same rows
    exact List.filter_congr fun r _ => same r

theorem statement_append {tail : List UInt8} :
    engine.statement columns key other front (front ++ s ++ tail) =
      match unquote doubleQuote (s ++ tail) with
      | some (token, []) => some (engine.equalsToken columns key token)
      | _ => other (front ++ s ++ tail) := by
  rw [Engine.statement, List.append_assoc, if_pos (List.prefix_append _ _), List.drop_left]

/-- A text without a quote is one token. -/
theorem statement_plain (plain : doubleQuote ∉ s) :
    engine.statement columns key other front (front ++ s ++ [doubleQuote]) =
      some (engine.equalsToken columns key s) := by
  rw [statement_append, unquote_of_not_mem plain]

/-- A text with a quote is never a token of its own. -/
theorem statement_quote (engine : Engine) (columns : List (Column ρ)) (key : ρ → List UInt8)
    (other : List UInt8 → Option (ρ → Bool)) (front : List UInt8) (quoted : doubleQuote ∈ s) :
    (∃ token, s = escape doubleQuote token ∧ token ≠ s ∧ doubleQuote ∈ token ∧
      engine.statement columns key other front (front ++ s ++ [doubleQuote]) =
        some (engine.equalsToken columns key token)) ∨
    engine.statement columns key other front (front ++ s ++ [doubleQuote]) =
      other (front ++ s ++ [doubleQuote]) := by
  rw [statement_append]
  split
  · rename_i token read
    left
    have written : s = escape doubleQuote token :=
      List.append_cancel_right (eq_escape_of_unquote read)
    have inside : doubleQuote ∈ token := by
      by_contra plain
      rw [escape_of_not_mem plain] at written
      exact plain (written ▸ quoted)
    have different : token ≠ s := fun same =>
      not_mem_of_escape_eq (written.symm.trans same.symm) inside
    exact ⟨token, written, different, inside, rfl⟩
  · exact Or.inr rfl

theorem upper_of_digit {c : UInt8} (digit : isdigit c = true) : upper c = c := by
  simp only [isdigit, Bool.and_eq_true, decide_eq_true_eq] at digit
  rw [upper, if_neg]
  rintro ⟨low, _⟩
  exact absurd (UInt8.le_trans low digit.2) (by decide)

/-- The name of a column is no number. -/
theorem equals_integer {name : List UInt8} {n : Int} (named : name = s.map upper)
    (letters : name.all (fun c => !isdigit c) = true) : engine.equals s (.integer n) = false := by
  simp only [Engine.equals, decide_eq_false_iff_not]
  intro number
  obtain ⟨c, member, digit⟩ := engine.digits s n number
  have inside : c ∈ name := by
    rw [named, ← upper_of_digit digit]
    exact List.mem_map_of_mem member
  have letter := List.all_eq_true.mp letters c inside
  rw [digit] at letter
  cases letter

theorem columnOf_eq_some {column : Column ρ} (found : columnOf columns s = some column) :
    column ∈ columns ∧ column.name = s.map upper :=
  ⟨List.mem_of_find?_eq_some found, by simpa using List.find?_some found⟩

/-- A text with a character that is in no column's name names none. -/
theorem columnOf_eq_none {c : UInt8} (same : upper c = c)
    (names : ∀ column ∈ columns, c ∉ column.name) (inside : c ∈ s) : columnOf columns s = none := by
  cases found : columnOf columns s with
  | none => rfl
  | some column =>
    obtain ⟨member, named⟩ := columnOf_eq_some found
    refine absurd ?_ (names column member)
    rw [named]
    exact List.mem_map.mpr ⟨c, inside, same⟩

theorem ne_of_columnOf {column : Column ρ} {text : List UInt8} {c : UInt8}
    (found : columnOf columns s = some column) (same : upper c = c)
    (names : ∀ column ∈ columns, c ∉ column.name) (inside : c ∈ text) : text ≠ s := by
  rintro rfl
  rw [columnOf_eq_none same names inside] at found
  cases found

/-- Of a table's columns each is unlike the text that names it, in some row. -/
def Unlike (engine : Engine) (columns : List (Column ρ)) (key : ρ → List UInt8) : Prop :=
  ∀ column ∈ columns, ∀ s, column.name = s.map upper →
    ∃ r, engine.equals (key r) (column.value r) ≠ decide (key r = s)

/-- A text without a quote selects its own rows unless it names a column. -/
theorem selects_plain_iff (unlike : Unlike engine columns key) (plain : doubleQuote ∉ s) :
    Selects key (engine.statement columns key other front (front ++ s ++ [doubleQuote])) s ↔
      columnOf columns s = none := by
  rw [statement_plain plain, selects_some]
  cases found : columnOf columns s with
  | none =>
    constructor
    · exact fun _ => rfl
    · intro _ r
      rw [Engine.equalsToken, found]
  | some column =>
    obtain ⟨member, named⟩ := columnOf_eq_some found
    obtain ⟨r, differs⟩ := unlike column member s named
    constructor
    · intro same
      have here := same r
      rw [Engine.equalsToken, found] at here
      exact absurd here differs
    · rintro ⟨⟩

/-- A text with a quote does not select its own rows where nothing is known of other texts. -/
theorem not_selects_quote (quoted : doubleQuote ∈ s) (row : List UInt8 → ρ)
    (keyed_row : ∀ k, key (row k) = k)
    (names : ∀ column ∈ columns, doubleQuote ∉ column.name)
    (silent : other (front ++ s ++ [doubleQuote]) = none) :
    ¬ Selects key (engine.statement columns key other front (front ++ s ++ [doubleQuote])) s := by
  intro exact
  rcases statement_quote engine columns key other front quoted with
    ⟨token, -, different, inside, read⟩ | read
  · rw [read, selects_some] at exact
    have literal : columnOf columns token = none := columnOf_eq_none rfl names inside
    have here := exact (row token)
    rw [Engine.equalsToken, literal, keyed_row] at here
    simp [different] at here
  · rw [read, silent] at exact
    have gone := exact [row s]
    simp [selected, keyed, keyed_row] at gone

end

/-- A text that names a column is not empty. -/
theorem ne_nil_of_named {s name : List UInt8} (named : name = s.map upper) (long : name ≠ []) :
    s ≠ [] := by
  rintro rfl
  exact long named

theorem users_unlike (engine : Engine) : Unlike engine userColumns UserRow.username := by
  intro column member s named
  have number {n : Int} (letters : column.name.all (fun c => !isdigit c) = true) :
      engine.equals s (.integer n) = false := equals_integer named letters
  simp only [userColumns, List.mem_cons, List.not_mem_nil, or_false] at member
  rcases member with rfl | rfl | rfl | rfl | rfl | rfl | rfl
  case inr.inl =>
    have long := ne_nil_of_named named (by decide)
    exact ⟨⟨0, [], [], 0⟩, by simp [Engine.equals, long.symm]⟩
  case inr.inr.inl => exact ⟨⟨0, s, [], 0⟩, by simp [Engine.equals]⟩
  all_goals exact ⟨⟨0, s, [], 0⟩, by simp [number (by decide)]⟩

theorem variables_unlike (engine : Engine) : Unlike engine variableColumns VariableRow.name := by
  intro column member s named
  have number {n : Int} (letters : column.name.all (fun c => !isdigit c) = true) :
      engine.equals s (.integer n) = false := equals_integer named letters
  simp only [variableColumns, List.mem_cons, List.not_mem_nil, or_false] at member
  rcases member with rfl | rfl | rfl | rfl | rfl | rfl
  case inl =>
    have long := ne_nil_of_named named (by decide)
    exact ⟨⟨0, [], [], none⟩, by simp [Engine.equals, long.symm]⟩
  case inr.inl =>
    have long := ne_nil_of_named named (by decide)
    exact ⟨⟨0, s, [], none⟩, by simp [Engine.equals, long]⟩
  case inr.inr.inl => exact ⟨⟨0, s, [], none⟩, by simp [Engine.equals]⟩
  all_goals exact ⟨⟨0, s, [], none⟩, by simp [number (by decide)]⟩

/-! ## Exact lookups -/

/-- An engine that takes no text for a number and knows no other WHERE text. -/
def Engine.plain : Engine where
  numeric _ := none
  digits _ _ taken := by cases taken
  otherUsers _ := none
  otherVariables _ := none

theorem selectsUser_eq (engine : Engine) (s : CString) :
    engine.sqlite.SelectsUser s ↔ Selects UserRow.username
      (engine.statement userColumns UserRow.username engine.otherUsers (ascii "USERNAME = \"")
        (ascii "USERNAME = \"" ++ s.bytes ++ [doubleQuote])) s.bytes := Iff.rfl

theorem selectsVariable_eq (engine : Engine) (s : CString) :
    engine.sqlite.SelectsVariable s ↔ Selects VariableRow.name
      (engine.statement variableColumns VariableRow.name engine.otherVariables (ascii "NAME = \"")
        (ascii "NAME = \"" ++ s.bytes ++ [doubleQuote])) s.bytes := Iff.rfl

theorem selectsUser_iff (s : CString) :
    (∀ engine : Engine, engine.sqlite.SelectsUser s) ↔
      doubleQuote ∉ s.bytes ∧ columnOf userColumns s.bytes = none := by
  have read (engine : Engine) (plain : doubleQuote ∉ s.bytes) :
      engine.sqlite.SelectsUser s ↔ columnOf userColumns s.bytes = none :=
    (selectsUser_eq engine s).trans (selects_plain_iff (users_unlike engine) plain)
  constructor
  · intro exact
    by_cases quoted : doubleQuote ∈ s.bytes
    · exact absurd ((selectsUser_eq .plain s).mp (exact .plain))
        (not_selects_quote quoted (fun k => ⟨0, k, [], 0⟩) (fun _ => rfl) (by decide) rfl)
    · exact ⟨quoted, (read .plain quoted).mp (exact .plain)⟩
  · rintro ⟨plain, literal⟩ engine
    exact (read engine plain).mpr literal

theorem selectsVariable_iff (s : CString) :
    (∀ engine : Engine, engine.sqlite.SelectsVariable s) ↔
      doubleQuote ∉ s.bytes ∧ columnOf variableColumns s.bytes = none := by
  have read (engine : Engine) (plain : doubleQuote ∉ s.bytes) :
      engine.sqlite.SelectsVariable s ↔ columnOf variableColumns s.bytes = none :=
    (selectsVariable_eq engine s).trans (selects_plain_iff (variables_unlike engine) plain)
  constructor
  · intro exact
    by_cases quoted : doubleQuote ∈ s.bytes
    · exact absurd ((selectsVariable_eq .plain s).mp (exact .plain))
        (not_selects_quote quoted (fun k => ⟨0, k, [], none⟩) (fun _ => rfl) (by decide) rfl)
    · exact ⟨quoted, (read .plain quoted).mp (exact .plain)⟩
  · rintro ⟨plain, literal⟩ engine
    exact (read engine plain).mpr literal

/-- **A lookup matches its key and nothing else**, for every engine, if and only if the key has no
double quote and does not name a column of the table. -/
theorem lookups_exact_iff (s : CString) :
    ((∀ engine : Engine, engine.sqlite.SelectsUser s) ↔
      doubleQuote ∉ s.bytes ∧ columnOf userColumns s.bytes = none) ∧
    ((∀ engine : Engine, engine.sqlite.SelectsVariable s) ↔
      doubleQuote ∉ s.bytes ∧ columnOf variableColumns s.bytes = none) :=
  ⟨selectsUser_iff s, selectsVariable_iff s⟩

/-- The username `username` selects every user. -/
theorem username_selects_all :
    selected (Engine.plain.sqlite.ofUsers (whereUser ⟨ascii "username", by decide⟩))
        [⟨1, ascii "root", [], 0⟩, ⟨2, ascii "guest", [], 0⟩] =
      [⟨1, ascii "root", [], 0⟩, ⟨2, ascii "guest", [], 0⟩] ∧
    ¬ Engine.plain.sqlite.SelectsUser ⟨ascii "username", by decide⟩ := by
  refine ⟨by decide, fun exact => ?_⟩
  have one := exact [⟨1, ascii "root", [], 0⟩]
  exact absurd one (by decide)

end DCScan.RDB
