import DCScan.Marshalling

/-!
Requests from a peer: what `GetParamsFromData` and `Execute` do with any payload at all.

`Scans` is the grammar of the payloads that are read without leaving them, beside the loop
that reads them; `Exact` is a request as it should be. Neither is checked before the call:
`unharmed_iff` says for which payloads the server is safe all the same.
-/

namespace DCScan.Marshalling

open Lib Generator Message

variable {τ : Type} (lay : Layout τ) (reg : Registry)

/-! ## The request up to the call -/

/-- The loop of `GetParamsFromData` with its log: `decodeArgs`, and whether it reports an error. -/
def scanArgs (payload : List UInt8) (size : Int) :
    Nat → Int → List (Any lay) → Bool → Option (List (Any lay) × Bool)
  | 0, _, _, _ => none
  | rounds + 1, it, args, logged =>
    if it < size then do
      let code ← convertFromByte 1 [0] payload it size
      match switchOn reg.argDefAll reg.switchType (leNat code) with
      | some a =>
        let t := lay.type a
        -- behind the last byte `convert_from_byte` reports an error and reads nothing
        let v ← (convertFromByte (lay.sizeof t) (lay.init t) payload (it + 1) size).bind
          (Any.ofBytes lay t)
        scanArgs payload size rounds (signed 32 (it + 1 + lay.sizeof t)) (args ++ [v])
          (logged || size ≤ it + 1)
      | none => scanArgs payload size rounds (it + 1) args (logged || leNat code = 0)
    else some (args, logged)

/-- What has come of a request when the registered function is called, or none is. -/
structure Outcome where
  /-- An error was reported. -/
  error : Bool
  call : Option (ExecuteCase × List (Any lay))

/-- `Execute(GetParamsFromData(msg.ptr, (i32)msg.size))` up to the call. -/
def request [DecidableEq τ] (mem : Uninit) (payload : List UInt8) : Option (Outcome lay) := do
  let code ← convertFromByte 2 [0, 0] payload 0 payload.length
  let fcode := UInt16.ofNat (leNat code)
  let (args, logged) ← scanArgs lay reg payload payload.length (payload.length + 1) 2 []
    (payload.length = 0)
  match switchOn reg.defines reg.switch fcode.toNat with
  | some c => (getArgs lay mem ⟨fcode, args⟩ c.args 0).map fun values => ⟨logged, some (c, values)⟩
  | none => some ⟨logged || fcode = 0, none⟩

variable {lay reg}

theorem scanArgs_fst (payload : List UInt8) (size : Int) (rounds : Nat) (it : Int)
    (args : List (Any lay)) (logged : Bool) :
    (scanArgs lay reg payload size rounds it args logged).map Prod.fst =
      decodeArgs lay reg payload size rounds it args := by
  induction rounds generalizing it args logged with
  | zero => rfl
  | succ rounds ih =>
    rw [scanArgs, decodeArgs]
    split
    · cases convertFromByte 1 [0] payload it size with
      | none => rfl
      | some code =>
        simp only [Option.bind_eq_bind, Option.bind_some]
        cases switchOn reg.argDefAll reg.switchType (leNat code) with
        | none => exact ih ..
        | some a =>
          simp only [Option.map_bind]
          exact Option.bind_congr fun v _ => ih ..
    · rfl

/-- A request is what the model of the registry makes of it, and the call's value is returned. -/
theorem Execute_GetParamsFromData [DecidableEq τ] (impl : Text → List (Any lay) → Any lay)
    (mem : Uninit) (payload : List UInt8) :
    (GetParamsFromData lay reg payload payload.length).bind (Execute lay reg impl mem) =
      (request lay reg mem payload).bind fun outcome =>
        match outcome.call with
        | some (c, values) => returned lay reg mem c (impl c.func values)
        | none => SVReturn.ofFields 0 ((List.range 1024).map mem.heap) := by
  rw [GetParamsFromData, request]
  cases convertFromByte 2 [0, 0] payload 0 payload.length with
  | none => rfl
  | some code =>
    simp only [Option.bind_eq_bind, Option.bind_some, Int.toNat_natCast,
      ← scanArgs_fst payload payload.length (payload.length + 1) 2 [] (payload.length = 0)]
    cases scanArgs lay reg payload payload.length (payload.length + 1) 2 []
      (payload.length = 0) with
    | none => rfl
    | some scanned =>
      obtain ⟨args, logged⟩ := scanned
      simp only [Option.map_some, Option.bind_some, Option.pure_def, Execute]
      cases switchOn reg.defines reg.switch (UInt16.ofNat (leNat code)).toNat with
      | none => simp only [Option.bind_some]
      | some c => simp only [Option.bind_eq_bind, Option.bind_map, Function.comp_def]

/-! ## The grammar of payloads -/

variable (lay reg)

/-- What the loop makes of the bytes from some offset on, when it reads none behind the payload's
`size` bytes: the arguments, and whether it reports an error. -/
inductive Scans (size : Nat) : List UInt8 → List (Any lay) → Bool → Prop
  | done : Scans size [] [] false
  /-- A byte that is no type's code is passed over; the code 0 is reported. -/
  | skip {code : UInt8} {rest : List UInt8} {args : List (Any lay)} {error : Bool} :
      switchOn reg.argDefAll reg.switchType code.toNat = none → Scans size rest args error →
      Scans size (code :: rest) args (code = 0 || error)
  | arg {code : UInt8} {a : Text} {v : Any lay} {rest : List UInt8} {args : List (Any lay)}
      {error : Bool} :
      switchOn reg.argDefAll reg.switchType code.toNat = some a → v.type = lay.type a →
      Scans size rest args error → Scans size (code :: (v.bytes ++ rest)) (v :: args) error
  /-- A type's code in the last byte makes a default value, and is reported. -/
  | cut {code : UInt8} {a : Text} {v : Any lay} :
      switchOn reg.argDefAll reg.switchType code.toNat = some a → v.type = lay.type a →
      v.bytes = lay.init (lay.type a) → size + lay.sizeof (lay.type a) < 2 ^ 31 →
      Scans size [code] [v] true

/-- One argument of each of the types, under a code of its type. -/
inductive Spells : List Text → List UInt8 → Prop
  | nil : Spells [] []
  | cons {code : UInt8} {a b : Text} {value rest : List UInt8} {types : List Text} :
      switchOn reg.argDefAll reg.switchType code.toNat = some b → lay.type b = lay.type a →
      value.length = lay.sizeof (lay.type a) → Spells types rest →
      Spells (a :: types) (code :: (value ++ rest))

/-- The function code at the front of a payload; 0 when there is none. -/
def functionCode (payload : List UInt8) : Nat := leNat (payload.take 2)

/-- A request for a registered function, with exactly its declared arguments. -/
def Exact (payload : List UInt8) : Prop :=
  2 ≤ payload.length ∧ ∃ c, switchOn reg.defines reg.switch (functionCode payload) = some c ∧
    Spells lay reg c.args (payload.drop 2)

/-- A payload that is read to its end, asks for no registered function and is reported: its function
code is 0, or a type code in it is, or a type code is its last byte. -/
def Refused (payload : List UInt8) : Prop :=
  payload.length ≠ 1 ∧ switchOn reg.defines reg.switch (functionCode payload) = none ∧
    ∃ args error, Scans lay reg payload.length (payload.drop 2) args error ∧
      (error = true ∨ functionCode payload = 0)

/-- The server reads nothing behind the payload, throws nothing, and depends on no memory it has
not written; unless the request is exact it reports an error and calls nothing. -/
def Unharmed [DecidableEq τ] (payload : List UInt8) : Prop :=
  ∃ outcome, (∀ mem, request lay reg mem payload = some outcome) ∧
    (Exact lay reg payload ∨ (outcome.error = true ∧ outcome.call = none))

variable {lay reg} {payload rest : List UInt8} {args taken : List (Any lay)} {error logged : Bool}

/-! ## The loop reads what the grammar says -/

/-- A read in front of the block is outside it. -/
theorem scanArgs_negative {it : Int} (before : it < 0) (rounds : Nat) :
    scanArgs lay reg payload payload.length rounds it taken logged = none := by
  cases rounds with
  | zero => rfl
  | succ rounds =>
    rw [scanArgs, if_pos (by omega), convertFromByte, if_neg (by omega), load, if_neg (by omega)]
    rfl

/-- The byte in front of which the loop stands is read. -/
theorem convertFromByte_code {code : UInt8} {it : Nat} (front : payload.drop it = code :: rest) :
    it < payload.length ∧ convertFromByte 1 [0] payload it payload.length = some [code] := by
  have inside : it < payload.length := by
    have := congrArg List.length front
    rw [List.length_drop, List.length_cons] at this
    omega
  refine ⟨inside, ?_⟩
  rw [convertFromByte, if_neg (by omega), load_nat, if_pos (by omega), front]
  rfl

/-- A round on a byte that is no type's code. -/
theorem scanArgs_skip {code : UInt8} {it rounds : Nat} (front : payload.drop it = code :: rest)
    (unknown : switchOn reg.argDefAll reg.switchType code.toNat = none) :
    scanArgs lay reg payload payload.length (rounds + 1) it taken logged =
      scanArgs lay reg payload payload.length rounds (it + 1 : Nat) taken (logged || code = 0) := by
  obtain ⟨inside, coded⟩ := convertFromByte_code front
  have zero : decide (leNat [code] = 0) = decide (code = 0) := by
    simp [← UInt8.toNat_inj]
  rw [scanArgs, if_pos (by omega), coded]
  simp only [Option.bind_eq_bind, Option.bind_some, leNat_cons, leNat_nil, Nat.mul_zero,
    Nat.add_zero, unknown, Nat.cast_add, Nat.cast_one] at zero ⊢
  rw [zero]

/-- A round on a type's code. -/
theorem scanArgs_code {code : UInt8} {a : Text} {it rounds : Nat}
    (front : payload.drop it = code :: rest)
    (known : switchOn reg.argDefAll reg.switchType code.toNat = some a) :
    scanArgs lay reg payload payload.length (rounds + 1) it taken logged =
      ((convertFromByte (lay.sizeof (lay.type a)) (lay.init (lay.type a)) payload (it + 1)
        payload.length).bind (Any.ofBytes lay (lay.type a))).bind fun v =>
        scanArgs lay reg payload payload.length rounds
          (signed 32 ((it + 1 + lay.sizeof (lay.type a) : Nat) : Int)) (taken ++ [v])
          (logged || payload.length ≤ it + 1) := by
  obtain ⟨inside, coded⟩ := convertFromByte_code front
  have last : decide ((payload.length : Int) ≤ it + 1) = decide (payload.length ≤ it + 1) := by
    apply decide_eq_decide.mpr
    omega
  rw [scanArgs, if_pos (by omega), coded]
  simp only [Option.bind_eq_bind, Option.bind_some, leNat_cons, leNat_nil, Nat.mul_zero,
    Nat.add_zero, known, Nat.cast_add, Nat.cast_one, last]

/-- What follows the code is the argument, when all of it is there. -/
theorem convertFromByte_rest (n : Nat) (init : List UInt8) {it : Nat} (front : payload.drop it = rest)
    (nonempty : rest ≠ []) :
    convertFromByte n init payload it payload.length =
      if n ≤ rest.length then some (rest.take n) else none := by
  have length := congrArg List.length front
  rw [List.length_drop] at length
  have positive := List.length_pos_iff.mpr nonempty
  have fits : it + n ≤ payload.length ↔ n ≤ rest.length := by omega
  rw [convertFromByte, if_neg (by omega), load_nat, front]
  simp only [fits]

theorem drop_succ {code : UInt8} {it : Nat} (front : payload.drop it = code :: rest) :
    payload.drop (it + 1) = rest := by
  rw [← List.drop_drop, front, List.drop_succ_cons, List.drop_zero]

/-- What the loop returns is what the grammar says of the bytes it has read. -/
theorem scans_of_scanArgs (objects : ∀ t, lay.sizeof t < 2 ^ 31) (measured : payload.length < 2 ^ 31)
    {rounds it : Nat} (front : payload.drop it = rest)
    (ran : scanArgs lay reg payload payload.length rounds it taken logged = some (args, error)) :
    ∃ more e, Scans lay reg payload.length rest more e ∧ args = taken ++ more ∧
      error = (logged || e) := by
  induction rounds generalizing it rest taken logged with
  | zero => cases ran
  | succ rounds ih =>
    have length := congrArg List.length front
    rw [List.length_drop] at length
    cases rest with
    | nil =>
      rw [List.length_nil] at length
      rw [scanArgs, if_neg (by omega), Option.some.injEq, Prod.mk.injEq] at ran
      obtain ⟨rfl, rfl⟩ := ran
      exact ⟨[], false, .done, (List.append_nil _).symm, (Bool.or_false _).symm⟩
    | cons code rest =>
      rw [List.length_cons] at length
      cases known : switchOn reg.argDefAll reg.switchType code.toNat with
      | none =>
        rw [scanArgs_skip front known] at ran
        obtain ⟨more, e, scans, rfl, rfl⟩ := ih (drop_succ front) ran
        exact ⟨more, _, .skip known scans, rfl, Bool.or_assoc ..⟩
      | some a =>
        rw [scanArgs_code front known] at ran
        have size := objects (lay.type a)
        by_cases last : rest = []
        · subst last
          obtain ⟨v, made, ran⟩ := Option.bind_eq_some_iff.mp ran
          rw [List.length_nil] at length
          have init : convertFromByte (lay.sizeof (lay.type a)) (lay.init (lay.type a)) payload
              (it + 1) payload.length = some (lay.init (lay.type a)) := if_pos (by omega)
          rw [init, Option.bind_some, Any.ofBytes, dif_pos (lay.init_length _)] at made
          cases made
          have ends : it + 1 = payload.length := by omega
          by_cases fits : payload.length + lay.sizeof (lay.type a) < 2 ^ 31
          · rw [ends, signed_of_range (by omega) (by omega)] at ran
            cases rounds with
            | zero => cases ran
            | succ rounds =>
              rw [scanArgs, if_neg (by omega), Option.some.injEq, Prod.mk.injEq] at ran
              obtain ⟨rfl, rfl⟩ := ran
              exact ⟨[_], true, .cut known rfl rfl fits, rfl, by simp⟩
          · rw [ends, signed_of_high (by omega) (by omega), scanArgs_negative (by omega)] at ran
            cases ran
        · have read := convertFromByte_rest (lay.sizeof (lay.type a)) (lay.init (lay.type a))
            (drop_succ front) last
          obtain ⟨v, made, ran⟩ := Option.bind_eq_some_iff.mp ran
          obtain ⟨value, converted, made⟩ := Option.bind_eq_some_iff.mp made
          rw [Nat.cast_add, Nat.cast_one] at read
          rw [read, Option.ite_none_right_eq_some, Option.some.injEq] at converted
          obtain ⟨fits, rfl⟩ := converted
          rw [Any.ofBytes] at made
          split at made
          · cases made
            have positive := List.length_pos_iff.mpr last
            rw [signed_of_range (by omega) (by omega)] at ran
            have next : payload.drop (it + 1 + lay.sizeof (lay.type a)) =
                rest.drop (lay.sizeof (lay.type a)) := by
              rw [← List.drop_drop, drop_succ front]
            obtain ⟨more, e, scans, rfl, rfl⟩ := ih next ran
            have scanned := Scans.arg (v := ⟨lay.type a, rest.take (lay.sizeof (lay.type a)), by
              assumption⟩) known rfl scans
            rw [List.take_append_drop] at scanned
            have more_left : ¬payload.length ≤ it + 1 := by omega
            exact ⟨_, _, scanned, by simp, by simp [more_left]⟩
          · cases made

/-- What the grammar says of the bytes is what the loop returns. -/
theorem scanArgs_of_scans (measured : payload.length < 2 ^ 31) {rounds it : Nat}
    (front : payload.drop it = rest) (scans : Scans lay reg payload.length rest args error)
    (enough : rest.length < rounds) :
    scanArgs lay reg payload payload.length rounds it taken logged =
      some (taken ++ args, logged || error) := by
  obtain ⟨rounds, rfl⟩ := Nat.exists_eq_add_of_lt enough
  induction scans generalizing it taken logged rounds with
  | done =>
    have length := congrArg List.length front
    rw [List.length_drop, List.length_nil] at length
    rw [scanArgs, if_neg (by omega), List.append_nil, Bool.or_false]
  | @skip code rest args error unknown _ ih =>
    rw [scanArgs_skip front unknown, List.length_cons, Nat.add_right_comm rest.length,
      ih (drop_succ front) rounds (by omega), Bool.or_assoc]
  | @arg code a v rest args error known type _ ih =>
    have length := congrArg List.length front
    have positive := lay.sizeof_pos v.type
    have whole := v.length_eq
    simp only [List.length_drop, List.length_cons, List.length_append] at length
    have nonempty : v.bytes ++ rest ≠ [] := by
      rw [← List.length_pos_iff, List.length_append]
      omega
    have read := convertFromByte_rest (lay.sizeof (lay.type a)) (lay.init (lay.type a))
      (drop_succ front) nonempty
    rw [Nat.cast_add, Nat.cast_one, ← type, if_pos (by rw [List.length_append]; omega),
      List.take_left' whole] at read
    have next : payload.drop (it + 1 + lay.sizeof v.type) = rest := by
      rw [← List.drop_drop, drop_succ front, List.drop_left' whole]
    have rounds_left : (code :: (v.bytes ++ rest)).length + rounds =
        rest.length + (v.bytes.length + rounds) + 1 := by
      simp only [List.length_cons, List.length_append]
      omega
    have more_left : ¬payload.length ≤ it + 1 := by omega
    rw [scanArgs_code front known, ← type, read, Option.bind_some, ofBytes_bytes rfl,
      Option.bind_some, signed_of_range (by omega) (by omega), rounds_left,
      ih next _ (by omega)]
    simp [more_left]
  | @cut code a v known type bytes fits =>
    have length := congrArg List.length front
    simp only [List.length_drop, List.length_singleton] at length
    have ends : it + 1 = payload.length := by omega
    have init : convertFromByte (lay.sizeof (lay.type a)) (lay.init (lay.type a)) payload
        (it + 1) payload.length = some (lay.init (lay.type a)) := if_pos (by omega)
    rw [scanArgs_code front known, init, Option.bind_some, ← bytes, ofBytes_bytes type,
      Option.bind_some, ends, signed_of_range (by omega) (by omega), List.length_singleton,
      Nat.add_comm 1, scanArgs, if_neg (by omega)]
    simp

/-! ## The result -/

/-- Arguments spelled out are read without an error, and are of the declared types. -/
theorem scans_of_spells {types : List Text} (size : Nat) (spells : Spells lay reg types rest) :
    ∃ args, Scans lay reg size rest args false ∧ args.map Any.type = types.map lay.type := by
  induction spells with
  | nil => exact ⟨[], .done, rfl⟩
  | @cons code a b value rest types known type length _ ih =>
    obtain ⟨args, scans, typed⟩ := ih
    refine ⟨⟨lay.type a, value, length⟩ :: args,
      .arg (v := ⟨lay.type a, value, length⟩) known type.symm scans, ?_⟩
    rw [List.map_cons, List.map_cons, typed]

/-- The function code is read when the payload does not end inside it. -/
theorem functionCode_read (whole : payload.length ≠ 1) :
    ∃ code, convertFromByte 2 [0, 0] payload 0 payload.length = some code ∧
      leNat code = functionCode payload := by
  by_cases empty : payload.length = 0
  · rw [List.length_eq_zero_iff] at empty
    exact ⟨[0, 0], if_pos (by simp [empty]), by simp [empty, functionCode]⟩
  · refine ⟨payload.take 2, ?_, rfl⟩
    have read := load_nat payload 0 2
    rw [if_pos (by omega), List.drop_zero] at read
    rw [convertFromByte, if_neg (by omega)]
    exact read

theorem functionCode_lt (payload : List UInt8) : functionCode payload < 2 ^ 16 := by
  have bound := leNat_lt (payload.take 2)
  have short : (payload.take 2).length ≤ 2 := by
    rw [List.length_take]
    omega
  exact bound.trans_le ((Nat.pow_le_pow_right (by decide) short).trans (by decide))

/-- A request whose payload is read to its end. -/
theorem request_of_scans [DecidableEq τ] (measured : payload.length < 2 ^ 31)
    (whole : payload.length ≠ 1)
    (scans : Scans lay reg payload.length (payload.drop 2) args error) (mem : Uninit) :
    request lay reg mem payload =
      match switchOn reg.defines reg.switch (functionCode payload) with
      | some c => (getArgs lay mem ⟨UInt16.ofNat (functionCode payload), args⟩ c.args 0).map
          fun values => ⟨payload.length = 0 || error, some (c, values)⟩
      | none => some ⟨payload.length = 0 || error || functionCode payload = 0, none⟩ := by
  obtain ⟨code, read, value⟩ := functionCode_read whole
  have code_eq : (UInt16.ofNat (functionCode payload)).toNat = functionCode payload := by
    rw [UInt16.toNat_ofNat', Nat.mod_eq_of_lt (functionCode_lt payload)]
  have zero : decide (UInt16.ofNat (functionCode payload) = 0) =
      decide (functionCode payload = 0) := by
    apply decide_eq_decide.mpr
    rw [← UInt16.toNat_inj, code_eq]
    rfl
  have scanned : scanArgs lay reg payload payload.length (payload.length + 1) (2 : Nat) []
      (payload.length = 0) = some ([] ++ args, payload.length = 0 || error) :=
    scanArgs_of_scans measured rfl scans (by rw [List.length_drop]; omega)
  rw [request, read, Option.bind_eq_bind, Option.bind_some, value]
  rw [Nat.cast_ofNat] at scanned
  simp only [scanned, Option.bind_eq_bind, Option.bind_some, code_eq, zero, List.nil_append]

/-- **Which requests do no harm**: those that are exact, and those that ask for no registered
function, are read to their end, and are reported. -/
theorem unharmed_iff [DecidableEq τ] (objects : ∀ t, lay.sizeof t < 2 ^ 31)
    (measured : payload.length < 2 ^ 31) :
    Unharmed lay reg payload ↔ Exact lay reg payload ∨ Refused lay reg payload := by
  constructor
  · rintro ⟨outcome, served, exact | ⟨reported, nothing⟩⟩
    · exact Or.inl exact
    · have served := served .zeros
      have whole : payload.length ≠ 1 := fun one => by
        rw [request, convertFromByte, if_neg (by omega), load, if_neg (by omega)] at served
        cases served
      obtain ⟨code, read, value⟩ := functionCode_read whole
      have ran := served
      rw [request, read, Option.bind_eq_bind, Option.bind_some] at ran
      obtain ⟨⟨args, logged⟩, scanned, _⟩ := Option.bind_eq_some_iff.mp ran
      obtain ⟨more, error, scans, _, _⟩ :=
        scans_of_scanArgs objects measured (show payload.drop 2 = payload.drop 2 from rfl) scanned
      rw [request_of_scans measured whole scans] at served
      refine Or.inr ⟨whole, ?_⟩
      cases known : switchOn reg.defines reg.switch (functionCode payload) with
      | some c =>
        rw [known] at served
        obtain ⟨values, _, rfl⟩ := Option.map_eq_some_iff.mp served
        cases nothing
      | none =>
        rw [known, Option.some.injEq] at served
        subst served
        refine ⟨rfl, more, error, scans, ?_⟩
        simp only [Bool.or_eq_true, decide_eq_true_eq] at reported
        rcases reported with (empty | reported) | zero
        · rw [List.length_eq_zero_iff] at empty
          exact Or.inr (by simp [empty, functionCode])
        · exact Or.inl reported
        · exact Or.inr zero
  · rintro (exact | ⟨whole, unknown, args, error, scans, reported⟩)
    · obtain ⟨long, c, known, spells⟩ := exact
      obtain ⟨args, scans, typed⟩ := scans_of_spells payload.length spells
      refine ⟨⟨payload.length = 0 || false, some (c, args)⟩, fun mem => ?_,
        Or.inl ⟨long, c, known, spells⟩⟩
      rw [request_of_scans measured (by omega) scans, known]
      simp only [getArgs_typed typed, Option.map_some]
    · refine ⟨⟨true, none⟩, fun mem => ?_, Or.inr ⟨rfl, rfl⟩⟩
      rw [request_of_scans measured whole scans, unknown]
      rcases reported with reported | zero
      · simp [reported]
      · simp [zero]

theorem sampleLayout_sizeof (t : Text) : sampleLayout.sizeof t < 2 ^ 31 := by
  simp only [sampleLayout]
  split <;> decide

/-- The sample's call, encoded. -/
theorem unharmed_sample : Unharmed sampleLayout (DCSGen (sampleRun _ (.refl _)))
    [1, 0, 1, 7, 2, 0, 0, 0, 0, 0, 0, 240, 63] := by
  refine (unharmed_iff sampleLayout_sizeof (by decide)).mpr (Or.inl ⟨by decide,
    ⟨"DCS::Move".toList, ["DCS::u8".toList, "DCS::f64".toList], [], retMacro []⟩,
    by decide +kernel, ?_⟩)
  exact @Spells.cons _ _ _ 1 _ "DCS::u8".toList [7] _ _ (by decide +kernel) rfl (by decide +kernel)
    (@Spells.cons _ _ _ 2 _ "DCS::f64".toList [0, 0, 0, 0, 0, 0, 240, 63] _ _ (by decide +kernel) rfl
      (by decide +kernel) .nil)

/-- **Unchecked requests do harm.** One byte is read as the two of a function code, an argument cut
off in its middle is read past the payload, and a missing argument makes `at()` throw. -/
theorem malformed_requests_harm :
    ¬Unharmed sampleLayout (DCSGen (sampleRun _ (.refl _))) [1] ∧
      ¬Unharmed sampleLayout (DCSGen (sampleRun _ (.refl _))) [1, 0, 2, 0] ∧
      ¬Unharmed sampleLayout (DCSGen (sampleRun _ (.refl _))) [1, 0, 1, 7] := by
  have harm : ∀ {payload : List UInt8},
      (request sampleLayout (DCSGen (sampleRun _ (.refl _))) .zeros payload).isNone = true →
      ¬Unharmed sampleLayout (DCSGen (sampleRun _ (.refl _))) payload := by
    rintro payload undefined ⟨outcome, served, _⟩
    rw [served] at undefined
    cases undefined
  exact ⟨harm (by decide +kernel), harm (by decide +kernel), harm (by decide +kernel)⟩

end DCScan.Marshalling
