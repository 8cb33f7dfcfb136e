import DCScan.Lib.Decimal
import DCScan.Lookups
import DCScan.Variables

/-!
Numbers in the table of variables, whose values are texts.

A number is written with six places behind the point, so that one with more of them is read back
changed. Of the texts that `atof` takes for numbers those in hexadecimal, and the names of infinities
and of what is no number, are left out.
-/

namespace DCScan.Database

open Lib RDB

/-! ## Texts of numbers -/

/-- A finite double. -/
structure F64 where
  value : ℚ
  finite : |value| < 2 ^ 1024
  deriving DecidableEq

theorem finite_of_le_one {q : ℚ} (le : |q| ≤ 1) : |q| < 2 ^ 1024 :=
  le.trans_lt (one_lt_pow₀ one_lt_two (Nat.succ_ne_zero 1023))

def F64.zero : F64 := ⟨0, finite_of_le_one (abs_zero.trans_le zero_le_one)⟩

def F64.one : F64 := ⟨1, finite_of_le_one abs_one.le⟩

/-- How many millionths it is, rounded. -/
def F64.millionths (x : F64) : ℤ := roundEven (|x.value| * 10 ^ 6)

/-- `"%f"`. -/
def F64.text (x : F64) : List UInt8 := fixed (x.value < 0) 6 x.millionths.toNat

section

variable (x : F64)

theorem F64.millionths_nonneg : 0 ≤ x.millionths := roundEven_nonneg (by positivity)

theorem F64.millionths_le : x.millionths.toNat ≤ 2 ^ 1024 * 10 ^ 6 := by
  have most : ((2 ^ 1024 * 10 ^ 6 : ℕ) : ℤ) = 2 ^ 1024 * 10 ^ 6 := by
    rw [Nat.cast_mul, Nat.cast_pow, Nat.cast_pow, Nat.cast_ofNat, Nat.cast_ofNat]
  have below : |x.value| * 10 ^ 6 < ((2 ^ 1024 * 10 ^ 6 : ℤ) : ℚ) := by
    rw [Int.cast_mul, Int.cast_pow, Int.cast_pow, Int.cast_ofNat, Int.cast_ofNat]
    exact mul_lt_mul_of_pos_right x.finite (by positivity)
  rw [Int.toNat_le, most]
  exact roundEven_le below

theorem F64.nul_free_text : 0 ∉ x.text := by
  intro member
  rcases mem_fixed member with sign | dot | digit
  · exact absurd sign (by decide)
  · exact absurd dot (by decide)
  · exact absurd digit (by decide)

/-- The longest text is that of the least double. -/
theorem F64.text_length : x.text.length ≤ 317 := by
  have small : 2 ^ 1024 * 10 ^ 6 < 10 ^ 309 * 10 ^ 6 := by decide +kernel
  have below : x.millionths.toNat / 10 ^ 6 < 10 ^ 309 := by
    rw [Nat.div_lt_iff_lt_mul (by positivity)]
    exact x.millionths_le.trans_lt small
  exact length_fixed _ below (by decide)

end

/-- `std::to_string`. -/
def to_string (x : F64) : CString := ⟨x.text, x.nul_free_text⟩

/-- A number too large for the type is undefined behaviour, and taken for zero here. -/
def atof (text : List UInt8) : F64 :=
  if finite : |numberOf text| < 2 ^ 1024 then ⟨numberOf text, finite⟩ else F64.zero

theorem printed_text (x : F64) : x.text ≠ [] := by
  unfold F64.text fixed
  exact List.append_ne_nil_of_right_ne_nil _
    (List.append_ne_nil_of_right_ne_nil _ (List.cons_ne_nil _ _))

theorem point_mem_text (x : F64) : point ∈ x.text :=
  List.mem_append_right _ (List.mem_append_right _ (List.mem_cons_self ..))

theorem short_text (x : F64) : x.text.length < 512 := x.text_length.trans_lt (by decide)

def numerals : Numerals F64 where
  to_string := to_string
  atof := atof
  zero := F64.zero
  printed := printed_text
  short := short_text

/-- The number that a printed number is read as. -/
theorem numberOf_text (x : F64) : numberOf x.text =
    if x.value < 0 then -((x.millionths : ℚ) / 10 ^ 6) else (x.millionths : ℚ) / 10 ^ 6 := by
  have cast : ((x.millionths.toNat : ℕ) : ℚ) = x.millionths := by
    rw [← Int.cast_natCast, Int.toNat_of_nonneg x.millionths_nonneg]
  rw [F64.text, numberOf_fixed, cast]
  simp only [decide_eq_true_eq]

/-- It is the number itself if no place is missing. -/
theorem numberOf_text_iff (x : F64) :
    numberOf x.text = x.value ↔ ∃ n : ℤ, x.value * 10 ^ 6 = n := by
  have rounded : (x.millionths : ℚ) = |x.value| * 10 ^ 6 ↔ ∃ n : ℤ, |x.value| * 10 ^ 6 = n :=
    roundEven_eq_self_iff _
  rw [numberOf_text]
  split
  · rename_i negative
    rw [abs_of_neg negative] at rounded
    have opposite : (∃ n : ℤ, -x.value * 10 ^ 6 = n) ↔ ∃ n : ℤ, x.value * 10 ^ 6 = n := by
      constructor
      · rintro ⟨n, same⟩
        exact ⟨-n, by rw [Int.cast_neg, ← same]; ring⟩
      · rintro ⟨n, same⟩
        exact ⟨-n, by rw [Int.cast_neg, ← same]; ring⟩
    rw [← opposite, ← rounded, neg_eq_iff_eq_neg, div_eq_iff (by positivity)]
  · rename_i positive
    rw [abs_of_nonneg (not_lt.mp positive)] at rounded
    rw [← rounded, div_eq_iff (by positivity)]

theorem atof_to_string_iff (x : F64) :
    atof (to_string x).bytes = x ↔ ∃ n : ℤ, x.value * 10 ^ 6 = n := by
  rw [← numberOf_text_iff]
  show atof x.text = x ↔ numberOf x.text = x.value
  unfold atof
  split
  · constructor
    · exact fun same => congrArg F64.value same
    · intro same
      cases x
      exact F64.mk.injEq .. ▸ same
  · rename_i infinite
    constructor
    · intro same
      rw [numberOf_text_iff, ← same]
      exact ⟨0, by rw [F64.zero, zero_mul, Int.cast_zero]⟩
    · exact fun same => absurd (same ▸ x.finite) infinite

/-! ## A write, and the reads behind it -/

/-- `InvalidateCache`. -/
def State.InvalidateCache (d : State) : State := { d with db_var_cache := fun _ => none }

section

variable {f64 : Type}

/-- The variable that is not in the cache reads so from the database, from the cache that this fills,
and from the database again. -/
def ReadsAs (sql : Sqlite) (num : Numerals f64) (t : State) (name : Text) (v : f64) : Prop :=
  t.db_var_cache name.c_str.bytes = none ∧
    ∃ filled, ReadValuef64 sql num t name = some (filled, v) ∧
      filled.db_var_cache name.c_str.bytes ≠ none ∧
      ReadValuef64 sql num filled name = some (filled, v) ∧
      ∃ again, ReadValuef64 sql num filled.InvalidateCache name = some (again, v)

variable {sql : Sqlite} {num : Numerals f64} {d t : State} {name : Text} {v : f64}
variable {value : List UInt8}

theorem ReadValuef64_missing (num : Numerals f64) (missing : d.db_var_cache name.c_str.bytes = none)
    (read : ReadVariable sql d.tables name.c_str = some value) (full : value ≠ []) :
    ReadValuef64 sql num d name = some ({ d with
      db_var_cache := Function.update d.db_var_cache name.c_str.bytes (some value) },
        num.atof value) := by
  rw [ReadValuef64, fetch, missing]
  simp [read, full]

theorem ReadValuef64_cached (cached : d.db_var_cache name.c_str.bytes = some value) :
    ReadValuef64 sql num d name = some (d, num.atof value) := by
  rw [ReadValuef64, fetch, cached]
  rfl

/-- What is stored is what is read, both ways. -/
theorem readsAs_iff (missing : t.db_var_cache name.c_str.bytes = none)
    (read : ReadVariable sql t.tables name.c_str = some value) (full : value ≠ []) :
    ReadsAs sql num t name v ↔ num.atof value = v := by
  have first := ReadValuef64_missing num missing read full
  constructor
  · rintro ⟨-, filled, reads, -⟩
    rw [first] at reads
    cases reads
    rfl
  · rintro rfl
    refine ⟨missing, _, first, ?_, ReadValuef64_cached (Function.update_self ..),
      _, ReadValuef64_missing num rfl read full⟩
    exact (Function.update_self ..).trans_ne (Option.some_ne_none value)

/-- What is read was stored. -/
theorem ReadsAs.stored (reads : ReadsAs sql num t name v) :
    ∃ value, ReadVariable sql t.tables name.c_str = some value := by
  obtain ⟨missing, filled, reads, -⟩ := reads
  cases read : ReadVariable sql t.tables name.c_str with
  | some value => exact ⟨value, rfl⟩
  | none =>
    rw [ReadValuef64, fetch, missing] at reads
    simp [read] at reads

/-- A name that selects its own row is read as it was written. -/
theorem written_readsAs_iff {u : f64} (exact : sql.SelectsVariable name.c_str)
    (distinct : Distinct VariableRow.name d.tables.VARIABLES) (auth : Authority) (description : Text) :
    (∃ t, WriteValuef64 sql num d auth name u description = some t ∧ ReadsAs sql num t name v) ↔
      num.atof (num.to_string u).bytes = v := by
  have before : ∃ before, ReadVariable sql d.tables name.c_str = some before := by
    rcases distinct.keyed_cases name.c_str.bytes with absent | ⟨r, only⟩
    · exact ⟨[], by rw [ReadVariable, exact.query_absent absent]; rfl⟩
    · exact ⟨cStr r.value, by rw [ReadVariable, exact.query_present only]; rfl⟩
  obtain ⟨t, written, rows, forgot⟩ :=
    writeValue_rows before auth (num.to_string u) description.c_str
  obtain ⟨rowid, only⟩ :=
    keyed_insertVariable_self d.tables name.c_str (num.to_string u) (some description.c_str)
  have missing : t.db_var_cache name.c_str.bytes = none := by rw [forgot, erase_self]
  have read : ReadVariable sql t.tables name.c_str = some (num.to_string u).bytes := by
    rw [ReadVariable, exact.query_present (rows ▸ only), CString.cStr_bytes]
    rfl
  have same : ReadsAs sql num t name v ↔ num.atof (num.to_string u).bytes = v :=
    readsAs_iff missing read (num.printed u)
  constructor
  · rintro ⟨after, written', reads⟩
    cases written.symm.trans written'
    exact same.mp reads
  · exact fun equal => ⟨t, written, same.mpr equal⟩

/-- The first row stays where another name is written. -/
theorem insertVariable_first {db : Tables} {key text : CString} {descriptor : Option CString}
    {first : VariableRow} {rest : List VariableRow} (rows : db.VARIABLES = first :: rest)
    (different : first.name ≠ key.bytes) :
    ∃ behind, (db.insertVariable key text descriptor).VARIABLES = first :: behind := by
  have kept : without VariableRow.name db.VARIABLES key.bytes =
      first :: without VariableRow.name rest key.bytes := by
    rw [without, rows]
    exact List.filter_cons_of_pos (decide_eq_true different)
  exact ⟨without VariableRow.name rest key.bytes ++
    [⟨_, key.bytes, text.bytes, descriptor.map CString.bytes⟩], congrArg (· ++ _) kept⟩

/-- Of a WHERE text that selects the table's first row that row is read, or nothing. -/
theorem ReadVariable_first {db : Tables} {key : CString} {meets : VariableRow → Bool}
    {first : VariableRow} {rest : List VariableRow}
    (prepared : sql.ofVariables (whereVariable key) = some meets) (met : meets first = true)
    (rows : db.VARIABLES = first :: rest) (read : ReadVariable sql db key = some value) :
    value = cStr first.value := by
  unfold ReadVariable QueryEntries at read
  rw [prepared, selected, rows, List.filter_cons_of_pos met] at read
  cases more : rest.filter meets with
  | nil =>
    rw [more] at read
    cases read
    rfl
  | cons second others =>
    rw [more] at read
    cases read

end

/-! ## Any name -/

/-- Wherever among other calls the number is written, and whatever SQLite makes of other texts, it is
read as it was written. -/
def ReadsBack (k : Text) (v : F64) : Prop :=
  ∀ (engine : Engine) (calls : List (Call F64)) (d : State),
    run engine.sqlite numerals calls = some d → ∀ auth description,
      ∃ t, WriteValuef64 engine.sqlite numerals d auth k v description = some t ∧
        ReadsAs engine.sqlite numerals t k v

section

variable {k : Text} {v : F64} {engine : Engine} {meets : VariableRow → Bool}

/-- A row with another name that the WHERE text selects is read in the place of the number. -/
theorem not_readsBack (first description : Text) (w : F64)
    (different : first.c_str.bytes ≠ k.c_str.bytes)
    (prepared : engine.sqlite.ofVariables (whereVariable k.c_str) = some meets)
    (met : meets ⟨1, first.c_str.bytes, w.text, some description.c_str.bytes⟩ = true)
    (other : atof w.text ≠ v) : ¬ ReadsBack k v := by
  intro back
  obtain ⟨t, written, reads⟩ :=
    back engine [.WriteValuef64 .SYS first w description] _ rfl .SYS description
  have only : (WriteVariableSys CreateTables first.c_str (to_string w)
      (some description.c_str)).VARIABLES =
        [⟨1, first.c_str.bytes, w.text, some description.c_str.bytes⟩] := rfl
  obtain ⟨rest, rows⟩ := insertVariable_first only different
  have rows := (writeValue_cases written).trans rows
  obtain ⟨value, read⟩ := reads.stored
  obtain rfl := ReadVariable_first prepared met rows read
  have text : cStr w.text = w.text := (to_string w).cStr_bytes
  rw [text] at read
  exact other ((readsAs_iff reads.1 read (printed_text w)).mp reads)

/-- Not every number reads as `v`. -/
theorem exists_other (v : F64) : ∃ w : F64, atof w.text ≠ v := by
  have zero : atof F64.zero.text = F64.zero :=
    (atof_to_string_iff _).mpr ⟨0, by rw [F64.zero, zero_mul, Int.cast_zero]⟩
  have one : atof F64.one.text = F64.one :=
    (atof_to_string_iff _).mpr ⟨10 ^ 6, by rw [F64.one, one_mul, Int.cast_pow, Int.cast_ofNat]⟩
  by_cases same : v = F64.zero
  · refine ⟨F64.one, fun equal => ?_⟩
    have values := congrArg F64.value (one.symm.trans (equal.trans same))
    exact one_ne_zero values
  · exact ⟨F64.zero, fun equal => same (equal.symm.trans zero)⟩

theorem ones_digits {text : List UInt8} {n : Int}
    (taken : (if text = one.c_str.bytes then some 1 else none) = some n) :
    ∃ c ∈ text, isdigit c = true := by
  split at taken
  · rename_i same
    exact ⟨49, same ▸ List.mem_singleton_self 49, rfl⟩
  · cases taken

/-- Takes the text `1` for a number, and any other WHERE text for one that selects all rows. -/
def ones : Engine where
  numeric text := if text = one.c_str.bytes then some 1 else none
  digits _ _ := ones_digits
  otherUsers _ := none
  otherVariables _ := some fun _ => true

theorem ofVariables_eq (engine : Engine) (s : CString) :
    engine.sqlite.ofVariables (whereVariable s) =
      engine.statement variableColumns VariableRow.name engine.otherVariables (ascii "NAME = \"")
        (ascii "NAME = \"" ++ s.bytes ++ [doubleQuote]) := rfl

/-- The name of a column is compared with what is in the column. -/
theorem ofVariables_column (engine : Engine) {s : CString} {column : Column VariableRow}
    (found : columnOf variableColumns s.bytes = some column) :
    ∃ meets, engine.sqlite.ofVariables (whereVariable s) = some meets ∧
      ∀ r, meets r = engine.equals r.name (column.value r) := by
  have plain : doubleQuote ∉ s.bytes := fun quoted =>
    ne_of_columnOf found rfl (by decide) quoted rfl
  refine ⟨_, (ofVariables_eq engine s).trans (statement_plain plain), fun r => ?_⟩
  rw [Engine.equalsToken, found]

/-- A row that has its own name, or `1`, in the column is read. -/
theorem column_not_readsBack {column : Column VariableRow}
    (found : columnOf variableColumns k.c_str.bytes = some column) (v : F64) : ¬ ReadsBack k v := by
  obtain ⟨w, other⟩ := exists_other v
  obtain ⟨meets, prepared, compared⟩ := ofVariables_column ones found
  have differs : one.c_str.bytes ≠ k.c_str.bytes :=
    ne_of_columnOf found (c := 49) rfl (by decide) (List.mem_singleton_self 49)
  obtain ⟨member, -⟩ := columnOf_eq_some found
  simp only [variableColumns, List.mem_cons, List.not_mem_nil, or_false] at member
  rcases member with rfl | rfl | rfl | rfl | rfl | rfl
  case inr.inl =>
    -- the column of values: the row is named like its value
    have text : (Text.of (to_string w) (short_text w)).c_str.bytes = w.text := Text.c_str_of _ _
    have apart : (Text.of (to_string w) (short_text w)).c_str.bytes ≠ k.c_str.bytes :=
      ne_of_columnOf found (c := point) rfl (by decide) (text ▸ point_mem_text w)
    refine not_readsBack _ one w apart prepared ?_ other
    rw [compared, text]
    exact decide_eq_true rfl
  all_goals
    refine not_readsBack one one w differs prepared ?_ other
    rw [compared]
    simp [Engine.equals, ones]

/-- A name with a quote ends early, or is another statement. -/
theorem quote_not_readsBack (quoted : doubleQuote ∈ k.c_str.bytes) (v : F64) : ¬ ReadsBack k v := by
  obtain ⟨w, other⟩ := exists_other v
  rcases statement_quote ones variableColumns VariableRow.name ones.otherVariables
      (ascii "NAME = \"") quoted with ⟨token, written, different, inside, read⟩ | read
  · have nul_free : 0 ∉ token := fun zero =>
      k.c_str.nul_free (written ▸ subset_escape doubleQuote token zero)
    have short : token.length < 512 :=
      (length_le_escape doubleQuote token).trans_lt (written ▸ k.c_str_length)
    have text : (Text.of ⟨token, nul_free⟩ short).c_str.bytes = token := Text.c_str_of _ _
    refine not_readsBack (Text.of ⟨token, nul_free⟩ short) one w (by rwa [text])
      ((ofVariables_eq ones k.c_str).trans read) ?_ other
    rw [Engine.equalsToken, columnOf_eq_none rfl (by decide) inside, text]
    exact decide_eq_true rfl
  · have differs : one.c_str.bytes ≠ k.c_str.bytes := by
      intro equal
      rw [← equal] at quoted
      exact absurd quoted (by decide)
    exact not_readsBack one one w differs ((ofVariables_eq ones k.c_str).trans read) rfl other

/-- **Stored numbers read back as written** if and only if they have no more than six places behind
the point, and the name has no double quote and is not that of a column. -/
theorem stored_numbers_iff (k : Text) (v : F64) :
    ReadsBack k v ↔ (∃ n : ℤ, v.value * 10 ^ 6 = n) ∧ doubleQuote ∉ k.c_str.bytes ∧
      columnOf variableColumns k.c_str.bytes = none := by
  constructor
  · intro back
    have plain : doubleQuote ∉ k.c_str.bytes := fun quoted => quote_not_readsBack quoted v back
    have literal : columnOf variableColumns k.c_str.bytes = none := by
      cases found : columnOf variableColumns k.c_str.bytes with
      | none => rfl
      | some column => exact absurd back (column_not_readsBack found v)
    have exact := (selectsVariable_iff k.c_str).mpr ⟨plain, literal⟩ .plain
    have distinct : Distinct VariableRow.name Open.tables.VARIABLES := List.nodup_nil
    have read := (written_readsAs_iff exact distinct .SYS noText).mp
      (back .plain [] Open rfl .SYS noText)
    exact ⟨(atof_to_string_iff v).mp read, plain, literal⟩
  · rintro ⟨places, good⟩ engine calls d ran auth description
    have exact := (selectsVariable_iff k.c_str).mpr good engine
    exact (written_readsAs_iff exact (run_distinct ran) auth description).mpr
      ((atof_to_string_iff v).mpr places)

end

theorem fraction_le_one : |(1 / 1024 : ℚ)| ≤ 1 := by decide +kernel

theorem millionths_le_one : |(977 / 10 ^ 6 : ℚ)| ≤ 1 := by decide +kernel

def millionths977 : F64 := ⟨977 / 10 ^ 6, finite_of_le_one millionths_le_one⟩

/-- A number with ten places. -/
def fraction : F64 := ⟨1 / 1024, finite_of_le_one fraction_le_one⟩

/-- It loses four of them in a new database. -/
theorem fraction_rounded :
    (∃ t, WriteValuef64 Engine.plain.sqlite numerals Open .SYS variableX fraction noText = some t ∧
      ReadsAs Engine.plain.sqlite numerals t variableX millionths977) ∧
    ¬ ReadsBack variableX fraction := by
  have exact : Engine.plain.sqlite.SelectsVariable variableX.c_str :=
    (selectsVariable_iff variableX.c_str).mpr (by decide) .plain
  have distinct : Distinct VariableRow.name Open.tables.VARIABLES := List.nodup_nil
  have read : atof fraction.text = millionths977 := by decide +kernel
  refine ⟨(written_readsAs_iff exact distinct .SYS noText).mpr read, fun back => ?_⟩
  have same := (written_readsAs_iff exact distinct .SYS noText).mp
    (back .plain [] Open rfl .SYS noText)
  exact absurd (read.symm.trans same) (by decide +kernel)

end DCScan.Database
