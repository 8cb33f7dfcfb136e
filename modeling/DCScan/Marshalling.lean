import DCScan.Generator
import DCScan.Registry

/-!
The generated registry at work: `GetDataFromParams`, `GetParamsFromData` and `Execute`.

`none` stands for what C++ leaves undefined or throws: a read or write outside a block, an
`at()` out of range, a failed `any_cast`, an overflow of `i32`. An object is the bytes of
its representation, which both sides share.
-/

namespace DCScan.Marshalling

open Lib Generator Message

/-- What the compiler knows of the types: what each spelling denotes, how large an object is,
and what `T()` holds. -/
structure Layout (τ : Type) where
  type : Text → τ
  sizeof : τ → Nat
  sizeof_pos : ∀ t, 0 < sizeof t
  init : τ → List UInt8
  init_length : ∀ t, (init t).length = sizeof t

variable {τ : Type}

/-- `std::any`: an object of some type. -/
structure Any (lay : Layout τ) where
  type : τ
  bytes : List UInt8
  length_eq : bytes.length = lay.sizeof type

@[ext] theorem Any.ext {lay : Layout τ} {v w : Any lay} (type : v.type = w.type)
    (bytes : v.bytes = w.bytes) :
    v = w := by
  cases v
  cases w
  cases type
  cases bytes
  rfl

/-- `SVParams`. -/
structure SVParams (lay : Layout τ) where
  fcode : UInt16
  args : List (Any lay)

variable (lay : Layout τ) (reg : Registry)

/-! ## Encoding -/

/-- `cpyArgToBuffer`: the buffer and `it` after it. -/
def cpyArgToBuffer (buffer value : List UInt8) (type : UInt8) (argSize it : Int) :
    Option (List UInt8 × Int) := do
  let buffer ← store buffer it [type]
  let it := signed 32 (it + 1)
  -- a negative size is converted to a huge one
  let buffer ← if 0 ≤ argSize then store buffer it (value.take argSize.toNat) else none
  if it + argSize < 2 ^ 31 then some (buffer, it + argSize) else none

/-- The body of a case of `GetDataFromParams`, from argument `i` on. -/
def encodeArgs [DecidableEq τ] (p : List (Any lay)) :
    List EncodeArg → Nat → List UInt8 → Int → Option (List UInt8 × Int)
  | [], _, buffer, it => some (buffer, it)
  | a :: rest, i, buffer, it => do
    let v ← p[i]?
    if v.type = lay.type a.type then
      let code ← resolve reg.argDefAll a.code
      let (buffer, it) ← cpyArgToBuffer buffer v.bytes (UInt8.ofNat code)
        (signed 32 (lay.sizeof v.type)) it
      encodeArgs p rest (i + 1) buffer it
    else none

/-- `GetDataFromParams`: the buffer it leaves, and the size it returns. -/
def GetDataFromParams [DecidableEq τ] (buffer : List UInt8) (fcode : UInt16)
    (args : List (Any lay)) :
    Option (List UInt8 × Int) := do
  let buffer ← store buffer 0 (leBytes 2 fcode.toNat)
  if 0 < args.length then
    match switchOn reg.defines reg.switchReverse fcode.toNat with
    | some body => encodeArgs lay reg args body 0 buffer 2
    | none => some (buffer, 2)
  else some (buffer, 2)

/-! ## Decoding -/

/-- `convert_from_byte` for a type of `n` bytes. -/
def convertFromByte (n : Nat) (init data : List UInt8) (offset size : Int) : Option (List UInt8) :=
  if size ≤ offset then some init else load data offset n

/-- An object of type `t` with the given bytes. -/
def Any.ofBytes (t : τ) (bytes : List UInt8) : Option (Any lay) :=
  if length_eq : bytes.length = lay.sizeof t then some ⟨t, bytes, length_eq⟩ else none

/-- The loop of `GetParamsFromData`, for at most as many rounds as given. -/
def decodeArgs (payload : List UInt8) (size : Int) :
    Nat → Int → List (Any lay) → Option (List (Any lay))
  | 0, _, _ => none
  | rounds + 1, it, args =>
    if it < size then do
      let code ← convertFromByte 1 [0] payload it size
      match switchOn reg.argDefAll reg.switchType (leNat code) with
      | some a =>
        let t := lay.type a
        let v ← (convertFromByte (lay.sizeof t) (lay.init t) payload (it + 1) size).bind
          (Any.ofBytes lay t)
        decodeArgs payload size rounds (signed 32 (it + 1 + lay.sizeof t)) (args ++ [v])
      | none => decodeArgs payload size rounds (it + 1) args
    else some args

/-- `GetParamsFromData`. Each round moves on, so that no more than `size` of them are needed. -/
def GetParamsFromData (payload : List UInt8) (size : Int) : Option (SVParams lay) := do
  let code ← convertFromByte 2 [0, 0] payload 0 size
  let args ← decodeArgs lay reg payload size (size.toNat + 1) 2 []
  return ⟨UInt16.ofNat (leNat code), args⟩

/-! ## Execution -/

/-- An object whose bytes have not been written. -/
def uninitialised (mem : Uninit) (t : τ) : Any lay :=
  ⟨t, (List.range (lay.sizeof t)).map mem.heap, by rw [List.length_map, List.length_range]⟩

/-- `getArg<T>(i)`: a failed `any_cast` is caught and leaves the result unwritten. -/
def getArg [DecidableEq τ] (mem : Uninit) (params : SVParams lay) (t : τ) (i : Nat) :
    Option (Any lay) :=
  params.args[i]?.map fun v => if v.type = t then v else uninitialised lay mem t

/-- The arguments of a call in `Execute`, from argument `i` on. -/
def getArgs [DecidableEq τ] (mem : Uninit) (params : SVParams lay) :
    List Text → Nat → Option (List (Any lay))
  | [], _ => some []
  | a :: rest, i => do
    let v ← getArg lay mem params (lay.type a) i
    let others ← getArgs mem params rest (i + 1)
    return v :: others

/-- `SVReturn` from its two fields. -/
def SVReturn.ofFields (type : UInt8) (ptr : List UInt8) : Option SVReturn :=
  if length_eq : ptr.length =
    1024 then some ⟨type :: ptr, by rw [List.length_cons, length_eq, sizeofSVReturn]⟩
  else none

/-- What `Execute` returns when the call has returned `value`; only `type` is written without one. -/
def returned (mem : Uninit) (c : ExecuteCase) (value : Any lay) : Option SVReturn := do
  let ptr := (List.range 1024).map mem.heap
  if c.returnType = [] then SVReturn.ofFields 0 ptr
  else
    let ptr ← store ptr 0 value.bytes
    let code ← resolve reg.rtypeDefines c.code
    SVReturn.ofFields (UInt8.ofNat code) ptr

/-- `Execute`; `impl` is what the registered functions do. -/
def Execute [DecidableEq τ] (impl : Text → List (Any lay) → Any lay) (mem : Uninit)
    (params : SVParams lay) :
    Option SVReturn :=
  match switchOn reg.defines reg.switch params.fcode.toNat with
  | some c => do
    let args ← getArgs lay mem params c.args 0
    returned lay reg mem c (impl c.func args)
  | none => SVReturn.ofFields 0 ((List.range 1024).map mem.heap)

/-! ## The round trip -/

/-- The code of an argument type, as it is written. -/
def typeCode (a : Text) : UInt8 := UInt8.ofNat ((resolve reg.argDefAll (encodeMacro a)).getD 0)

/-- The bytes of arguments with their declared types: each one's type code, then its object. -/
def encoding (args : List (Text × Any lay)) : List UInt8 :=
  args.flatMap fun x => typeCode reg x.1 :: x.2.bytes

variable {lay reg}

@[simp] theorem encoding_nil : encoding lay reg [] = [] := rfl

@[simp] theorem encoding_cons (x : Text × Any lay) (args : List (Text × Any lay)) :
    encoding lay reg (x :: args) = typeCode reg x.1 :: x.2.bytes ++ encoding lay reg args := rfl

/-- Every argument takes its code and its object. -/
theorem encoding_length (args : List (Text × Any lay)) :
    (encoding lay reg args).length = (args.map fun x => 1 + lay.sizeof x.2.type).sum := by
  induction args with
  | nil => rfl
  | cons x args ih =>
    rw [encoding_cons, List.length_append, ih, List.map_cons, List.sum_cons, List.length_cons,
      x.2.length_eq]
    omega

theorem length_le_encoding (args : List (Text × Any lay)) :
    args.length ≤ (encoding lay reg args).length := by
  induction args with
  | nil => exact Nat.zero_le _
  | cons x args ih =>
    rw [encoding_cons, List.length_append, List.length_cons, List.length_cons]
    omega

/-- An argument is copied behind what has been written. -/
theorem cpyArgToBuffer_eq (buffer : List UInt8) (v : Any lay) (code : UInt8) (n : Nat)
    (fits : n + (1 + lay.sizeof v.type) ≤ buffer.length)
    (small : n + (1 + lay.sizeof v.type) < 2 ^ 31) :
    ∃ written, cpyArgToBuffer buffer v.bytes code (signed 32 (lay.sizeof v.type)) n =
        some (written, ((n + (1 + lay.sizeof v.type) : Nat) : Int)) ∧
      written.length = buffer.length ∧
      written.take (n + (1 + lay.sizeof v.type)) = buffer.take n ++ code :: v.bytes := by
  have positive := lay.sizeof_pos v.type
  have size : signed 32 (lay.sizeof v.type : Int) = (lay.sizeof v.type : Nat) :=
    signed_of_range (by omega) (by omega)
  have next : signed 32 ((n : Int) + 1) = ((n + 1 : Nat) : Int) := by
    rw [signed_of_range (by omega) (by omega)]
    push_cast
    rfl
  obtain ⟨coded, stored, coded_length, coded_front⟩ := store_append buffer [code] n
    (by rw [List.length_singleton]; omega)
  obtain ⟨written, stored', written_length, written_front⟩ := store_append coded v.bytes (n + 1)
    (by rw [v.length_eq]; omega)
  have total : ((n + 1 : Nat) : Int) + (lay.sizeof v.type : Nat) =
      ((n + (1 + lay.sizeof v.type) : Nat) : Int) := by
    push_cast
    omega
  have whole : v.bytes.take (lay.sizeof v.type) = v.bytes := by rw [← v.length_eq, List.take_length]
  refine ⟨written, ?_, written_length.trans coded_length, ?_⟩
  · unfold cpyArgToBuffer
    rw [stored, Option.bind_eq_bind, Option.bind_some, next, size, if_pos (Int.natCast_nonneg _),
      Int.toNat_natCast, whole, stored', Option.bind_some, total]
    exact if_pos (by omega)
  · rw [List.length_singleton] at coded_front
    rw [v.length_eq, coded_front, List.append_assoc, List.singleton_append,
      Nat.add_assoc] at written_front
    exact written_front

/-- The case of a function writes its arguments one behind the other. -/
theorem encodeArgs_eq [DecidableEq τ] {args : List (Text × Any lay)}
    (typed : ∀ x ∈ args, x.2.type = lay.type x.1 ∧ ∃ n, resolve reg.argDefAll (encodeMacro x.1) =
      some n)
    (done : List (Any lay)) (buffer : List UInt8) (n : Nat)
    (fits : n + (encoding lay reg args).length ≤ buffer.length)
    (small : n + (encoding lay reg args).length < 2 ^ 31) :
    ∃ written, encodeArgs lay reg (done ++ args.map Prod.snd)
    (args.map fun x => ⟨x.1, encodeMacro x.1⟩) done.length
        buffer n = some (written, ((n + (encoding lay reg args).length : Nat) : Int)) ∧
      written.take (n + (encoding lay reg args).length) = buffer.take n ++
        encoding lay reg args := by
  induction args generalizing done buffer n with
  | nil => exact ⟨buffer, rfl, by simp⟩
  | cons x args ih =>
    obtain ⟨a, v⟩ := x
    obtain ⟨type, code, resolved⟩ : v.type = lay.type a ∧
      ∃ n, resolve reg.argDefAll (encodeMacro a) = some n :=
      typed (a, v) List.mem_cons_self
    have length : (encoding lay reg ((a, v) :: args)).length =
        1 + lay.sizeof v.type + (encoding lay reg args).length := by
      simp only [encoding_length, List.map_cons, List.sum_cons]
    rw [length] at fits small ⊢
    obtain ⟨coded, copied, coded_length, coded_front⟩ :=
      cpyArgToBuffer_eq buffer v (UInt8.ofNat code) n
      (by omega) (by omega)
    obtain ⟨written, rest, front⟩ :=
      ih (fun x member => typed x (List.mem_cons_of_mem _ member)) (done ++ [v]) coded
      (n + (1 + lay.sizeof v.type)) (by omega) (by omega)
    have found : (done ++ ((a, v) :: args).map Prod.snd)[done.length]? = some v := by simp
    have shifted : done ++ ((a, v) :: args).map Prod.snd = (done ++ [v]) ++
      args.map Prod.snd := by simp
    refine ⟨written, ?_, ?_⟩
    · rw [List.map_cons (f := fun x : Text × Any lay => EncodeArg.mk x.1 (encodeMacro x.1)),
        encodeArgs]
      simp only [found, resolved, Option.bind_eq_bind, Option.bind_some]
      rw [if_pos type, copied, Option.bind_some, shifted]
      rw [List.length_append, List.length_singleton, Nat.add_assoc n] at rest
      exact rest
    · rw [Nat.add_assoc] at front
      rw [front, coded_front, encoding_cons, typeCode, resolved, Option.getD_some,
        List.append_assoc]

/-- A round of the loop at a known type code. -/
theorem decodeArgs_case {payload code : List UInt8} {size it : Int} {rounds : Nat}
    {taken : List (Any lay)} {a : Text}
    {v : Any lay} (inside : it < size) (coded : convertFromByte 1 [0] payload it size = some code)
    (case : switchOn reg.argDefAll reg.switchType (leNat code) = some a)
    (object : (convertFromByte (lay.sizeof (lay.type a)) (lay.init (lay.type a)) payload
      (it + 1) size).bind
      (Any.ofBytes lay (lay.type a)) = some v) :
    decodeArgs lay reg payload size (rounds + 1) it taken =
      decodeArgs lay reg payload size rounds (signed 32 (it + 1 + lay.sizeof (lay.type a)))
      (taken ++ [v]) := by
  rw [decodeArgs, if_pos inside, coded]
  simp only [Option.bind_eq_bind, Option.bind_some, case, object]

theorem ofBytes_bytes {v : Any lay} {t : τ} (type : v.type = t) :
    Any.ofBytes lay t v.bytes = some v := by
  subst type
  exact dif_pos v.length_eq

/-- The loop takes the arguments back, one a round. -/
theorem decodeArgs_eq {args : List (Text × Any lay)}
    (typed : ∀ x ∈ args, x.2.type = lay.type x.1 ∧
      switchOn reg.argDefAll reg.switchType (typeCode reg x.1).toNat = some x.1)
    (before rest : List UInt8) (taken : List (Any lay)) (rounds : Nat)
    (enough : args.length < rounds)
    (small : before.length + (encoding lay reg args).length < 2 ^ 31) :
    decodeArgs lay reg (before ++ encoding lay reg args ++ rest)
        ((before.length + (encoding lay reg args).length : Nat) : Int) rounds before.length taken =
      some (taken ++ args.map Prod.snd) := by
  induction args generalizing before taken rounds with
  | nil =>
    obtain ⟨rounds, rfl⟩ := Nat.exists_eq_add_of_lt enough
    simp [decodeArgs]
  | cons x args ih =>
    obtain ⟨a, v⟩ := x
    obtain ⟨type, case⟩ : v.type = lay.type a ∧
        switchOn reg.argDefAll reg.switchType (typeCode reg a).toNat = some a :=
          typed (a, v) List.mem_cons_self
    have positive := lay.sizeof_pos v.type
    have length : (encoding lay reg ((a, v) :: args)).length =
        1 + lay.sizeof v.type + (encoding lay reg args).length := by
      simp only [encoding_length, List.map_cons, List.sum_cons]
    rw [length] at small ⊢
    obtain ⟨rounds, rfl⟩ := Nat.exists_eq_add_of_lt enough
    have coded : convertFromByte 1 [0]
      (before ++ encoding lay reg ((a, v) :: args) ++ rest) before.length
        ((before.length + (1 + lay.sizeof v.type + (encoding lay reg args).length) : Nat) : Int) =
          some [typeCode reg a] := by
      have split : before ++ encoding lay reg ((a, v) :: args) ++ rest =
          before ++ [typeCode reg a] ++ (v.bytes ++ encoding lay reg args ++ rest) := by simp
      rw [convertFromByte, if_neg (by omega), split]
      exact load_append before [typeCode reg a] _ rfl rfl
    have object : (convertFromByte (lay.sizeof (lay.type a)) (lay.init (lay.type a))
        (before ++ encoding lay reg ((a, v) :: args) ++ rest) ((before.length : Int) + 1)
        ((before.length + (1 + lay.sizeof v.type +
          (encoding lay reg args).length) : Nat) : Int)).bind
          (Any.ofBytes lay (lay.type a)) = some v := by
      have split : before ++ encoding lay reg ((a, v) :: args) ++ rest =
          (before ++ [typeCode reg a]) ++ v.bytes ++ (encoding lay reg args ++ rest) := by simp
      have offset : ((before.length : Int) + 1) =
        ((before.length + 1 : Nat) : Int) := by push_cast; rfl
      rw [convertFromByte, if_neg (by omega), split, offset,
        load_append _ v.bytes _ (by simp) (by rw [v.length_eq, type]),
        Option.bind_some, ofBytes_bytes type]
    have next : signed 32 ((before.length : Int) + 1 + lay.sizeof (lay.type a)) =
        ((before ++ typeCode reg a :: v.bytes).length : Nat) := by
      rw [signed_of_range (by omega) (by rw [← type]; omega), List.length_append, List.length_cons,
        v.length_eq, type]
      push_cast
      omega
    have through : before ++ encoding lay reg ((a, v) :: args) ++ rest =
        (before ++ typeCode reg a :: v.bytes) ++ encoding lay reg args ++ rest := by simp
    have size : before.length + (1 + lay.sizeof v.type + (encoding lay reg args).length) =
        (before ++ typeCode reg a :: v.bytes).length + (encoding lay reg args).length := by
      rw [List.length_append, List.length_cons, v.length_eq]
      omega
    rw [decodeArgs_case (by omega) coded (by simpa using case) object, next, through, size,
      ih (fun x member => typed x (List.mem_cons_of_mem _ member)) _ _ _
        (by simp at enough ⊢; omega) (by omega)]
    simp

/-- `Execute` reads each argument at its type and position. -/
theorem getArgs_eq [DecidableEq τ] {args : List (Text × Any lay)}
    (typed : ∀ x ∈ args, x.2.type = lay.type x.1)
    (mem : Uninit) (fcode : UInt16) (done : List (Any lay)) :
    getArgs lay mem ⟨fcode, done ++ args.map Prod.snd⟩ (args.map Prod.fst) done.length =
      some (args.map Prod.snd) := by
  induction args generalizing done with
  | nil => rfl
  | cons x args ih =>
    obtain ⟨a, v⟩ := x
    have type : v.type = lay.type a := typed (a, v) List.mem_cons_self
    have shifted : done ++ ((a, v) :: args).map Prod.snd = (done ++ [v]) ++
      args.map Prod.snd := by simp
    have rest := ih (fun x member => typed x (List.mem_cons_of_mem _ member)) (done ++ [v])
    rw [List.length_append, List.length_singleton, ← shifted] at rest
    have found : (done ++ ((a, v) :: args).map Prod.snd)[done.length]? = some v := by simp
    simp only [List.map_cons (f := Prod.fst), getArgs, getArg, found, Option.map_some, type,
      ↓reduceIte, Option.bind_eq_bind, Option.bind_some, rest]
    simp

variable {headers : List Header} {run : Run headers} {d : Declaration} {i : Nat}

/-- The bytes of a call: the function code, and for each argument its type code and its object. -/
def callSize (lay : Layout τ) (d : Declaration) : Nat :=
  2 + (d.args.map fun a => 1 + lay.sizeof (lay.type a)).sum

/-- Arguments of the declared types, paired with them. -/
theorem typed_zip {args : List (Any lay)} {types : List Text}
    (typed : args.map Any.type = types.map lay.type) :
    ((types.zip args).map Prod.fst = types ∧ (types.zip args).map Prod.snd = args) ∧
      ∀ x ∈ types.zip args, x.2.type = lay.type x.1 := by
  have length : args.length = types.length := by simpa using congrArg List.length typed
  refine ⟨⟨List.map_fst_zip (by omega), List.map_snd_zip (by omega)⟩, fun x member => ?_⟩
  obtain ⟨j, position⟩ := List.mem_iff_getElem?.mp member
  obtain ⟨at_type, at_arg⟩ := List.getElem?_zip_eq_some.mp position
  have both := congrArg (fun l : List τ => l[j]?) typed
  simpa [at_type, at_arg] using both

theorem callSize_eq {args : List (Any lay)} (typed : args.map Any.type = d.args.map lay.type) :
    callSize lay d = 2 + (encoding lay reg (d.args.zip args)).length := by
  obtain ⟨⟨fst, _⟩, types⟩ := typed_zip typed
  have sizes : (d.args.zip args).map (fun x => 1 + lay.sizeof x.2.type) =
      d.args.map fun a => 1 + lay.sizeof (lay.type a) := by
    conv_rhs => rw [← fst, List.map_map]
    exact List.map_congr_left fun x member => by rw [types x member]; rfl
  rw [callSize, encoding_length, sizes]

/-- The code written for an argument type is the one its decode case has. -/
theorem typeCode_case (macros : DistinctMacros run) (few : run.argDefines.length ≤ 255)
    (plain : ∀ d ∈ run.declarations, ∀ a ∈ d.args, Plain a) (registered : d ∈ run.declarations)
    {a : Text} (declared : a ∈ d.args) :
    (∃ n, resolve (DCSGen run).argDefAll (encodeMacro a) = some n) ∧
      switchOn (DCSGen run).argDefAll (DCSGen run).switchType (typeCode (DCSGen run) a).toNat =
        some a := by
  have named := plain d registered a declared
  obtain ⟨n, within, resolved, case⟩ :=
    Run.code_of_arg macros (Run.mem_argDefines registered declared named.1) named
  refine ⟨⟨n, resolved⟩, ?_⟩
  rw [typeCode, resolved, Option.getD_some, UInt8.toNat_ofNat', Nat.mod_eq_of_lt (by omega)]
  exact case

/-- `GetDataFromParams` writes the function code and the arguments. -/
theorem GetDataFromParams_eq [DecidableEq τ] (macros : DistinctMacros run)
    (few : run.argDefines.length ≤ 255)
    (plain : ∀ d ∈ run.declarations, ∀ a ∈ d.args, Plain a)
    (registered : run.declarations[i]? = some d)
    {fcode : UInt16} (code : fcode.toNat = i + 1) {args : List (Any lay)}
    (typed : args.map Any.type = d.args.map lay.type) {buffer : List UInt8}
    (fits : callSize lay d ≤ buffer.length) (measured : callSize lay d < 2 ^ 31) :
    ∃ written, GetDataFromParams lay (DCSGen run) buffer fcode args =
      some (written, (callSize lay d : Int)) ∧
      written.take (callSize lay d) =
        leBytes 2 fcode.toNat ++ encoding lay (DCSGen run) (d.args.zip args) := by
  obtain ⟨⟨fst, snd⟩, types⟩ := typed_zip typed
  have size : callSize lay d = 2 + (encoding lay (DCSGen run) (d.args.zip args)).length :=
    callSize_eq typed
  obtain ⟨coded, stored, coded_length, front⟩ := store_append buffer (leBytes 2 fcode.toNat) 0
    (by rw [leBytes_length]; omega)
  rw [leBytes_length, Nat.zero_add, List.take_zero, List.nil_append] at front
  have stored : store buffer 0 (leBytes 2 fcode.toNat) = some coded := stored
  rw [GetDataFromParams, stored, Option.bind_eq_bind, Option.bind_some]
  by_cases takes : d.args = []
  · have no_args : args = [] := by simpa [takes] using typed
    refine ⟨coded, ?_, ?_⟩
    · simp [no_args, callSize, takes]
    · simpa [callSize, takes] using front
  · have some_args : 0 < args.length := by
      have length : args.length = d.args.length := by simpa using congrArg List.length typed
      rw [length]
      exact List.length_pos_iff.mpr takes
    have encodable : ∀ x ∈ d.args.zip args, x.2.type = lay.type x.1 ∧
        ∃ n, resolve (DCSGen run).argDefAll (encodeMacro x.1) = some n := fun x member =>
      ⟨types x member,
        (typeCode_case macros few plain (List.mem_of_getElem? registered)
          (List.of_mem_zip member).1).1⟩
    obtain ⟨written, encoded, written_front⟩ :=
      encodeArgs_eq encodable [] coded 2 (by omega) (by omega)
    have body : (d.args.zip args).map (fun x => EncodeArg.mk x.1 (encodeMacro x.1)) =
        d.encodeCase := by
      conv_rhs => rw [Declaration.encodeCase, ← fst, List.map_map]
      rfl
    rw [body, snd, List.nil_append, List.length_nil, ← size] at encoded
    refine ⟨written, ?_, ?_⟩
    · rw [if_pos some_args, code, Run.switchReverse_of_declaration macros registered takes]
      exact encoded
    · rw [size, written_front, front]

/-- `GetParamsFromData` takes them back, whatever follows them. -/
theorem GetParamsFromData_eq {args : List (Text × Any lay)}
    (typed : ∀ x ∈ args, x.2.type = lay.type x.1 ∧
      switchOn reg.argDefAll reg.switchType (typeCode reg x.1).toNat = some x.1)
    (fcode : UInt16) (rest : List UInt8) (measured : 2 + (encoding lay reg args).length < 2 ^ 31) :
    GetParamsFromData lay reg (leBytes 2 fcode.toNat ++ encoding lay reg args ++ rest)
        ((2 + (encoding lay reg args).length : Nat) : Int) = some ⟨fcode, args.map Prod.snd⟩ := by
  have coded : convertFromByte 2 [0, 0] (leBytes 2 fcode.toNat ++ encoding lay reg args ++ rest) 0
      ((2 + (encoding lay reg args).length : Nat) : Int) = some (leBytes 2 fcode.toNat) := by
    rw [convertFromByte, if_neg (by omega), List.append_assoc]
    exact load_append [] (leBytes 2 fcode.toNat) _ rfl (leBytes_length ..)
  have rounds : args.length ≤ (encoding lay reg args).length := length_le_encoding args
  have decoded := decodeArgs_eq typed (leBytes 2 fcode.toNat) rest []
    (2 + (encoding lay reg args).length + 1) (by omega) (by rwa [leBytes_length])
  rw [leBytes_length, List.nil_append] at decoded
  have whole : UInt16.ofNat (leNat (leBytes 2 fcode.toNat)) = fcode := by
    rw [leNat_leBytes_of_lt fcode.toNat_lt, UInt16.ofNat_toNat]
  rw [GetParamsFromData, coded, Option.bind_eq_bind, Option.bind_some, Int.toNat_natCast]
  have decoded : decodeArgs lay reg (leBytes 2 fcode.toNat ++ encoding lay reg args ++ rest)
      ((2 + (encoding lay reg args).length : Nat) : Int) (2 + (encoding lay reg args).length + 1) 2
      [] =
        some (args.map Prod.snd) := decoded
  rw [decoded, Option.bind_eq_bind, Option.bind_some, whole]
  rfl

/-- Arguments of the declared types are all read. -/
theorem getArgs_typed [DecidableEq τ] {args : List (Any lay)} {types : List Text}
    (typed : args.map Any.type = types.map lay.type) (mem : Uninit) (fcode : UInt16) :
    getArgs lay mem ⟨fcode, args⟩ types 0 = some args := by
  obtain ⟨⟨fst, snd⟩, matched⟩ := typed_zip typed
  have read := getArgs_eq matched mem fcode []
  rwa [fst, snd, List.nil_append, List.length_nil] at read

/-- `Execute` calls the function of the code with the arguments. -/
theorem Execute_eq [DecidableEq τ] (macros : DistinctMacros run)
    (registered : run.declarations[i]? = some d)
    {fcode : UInt16} (code : fcode.toNat = i + 1) {args : List (Any lay)}
    (typed : args.map Any.type = d.args.map lay.type) (impl : Text → List (Any lay) → Any lay)
    (mem : Uninit) :
    Execute lay (DCSGen run) impl mem ⟨fcode, args⟩ = returned lay (DCSGen run) mem d.executeCase
    (impl d.func args) := by
  have read : getArgs lay mem ⟨fcode, args⟩ d.executeCase.args 0 = some args :=
    getArgs_typed typed mem fcode
  have case : switchOn (DCSGen run).defines (DCSGen run).switch fcode.toNat =
      some d.executeCase := by
    rw [code]
    exact Run.switch_of_declaration macros registered
  simp only [Execute, case, read, Option.bind_eq_bind, Option.bind_some]
  rfl

/-- A buffer, whose size is an `i32` as everywhere in the interface. -/
structure Buffer where
  bytes : List UInt8
  measured : bytes.length < 2 ^ 31

/-- What is written is read back, from any payload that starts with it. -/
theorem GetParamsFromData_of_written [DecidableEq τ] (macros : DistinctMacros run)
    (few : run.argDefines.length ≤ 255)
    (plain : ∀ d ∈ run.declarations, ∀ a ∈ d.args, Plain a)
    (registered : run.declarations[i]? = some d)
    {fcode : UInt16} (code : fcode.toNat = i + 1) {args : List (Any lay)}
    (typed : args.map Any.type = d.args.map lay.type) {buffer : Buffer}
    (fits : callSize lay d ≤ buffer.bytes.length) :
    ∃ written, GetDataFromParams lay (DCSGen run) buffer.bytes fcode args =
      some (written, (callSize lay d : Int)) ∧
      ∀ payload, payload.take (callSize lay d) = written.take (callSize lay d) →
        GetParamsFromData lay (DCSGen run) payload (callSize lay d) = some ⟨fcode, args⟩ := by
  have measured : callSize lay d < 2 ^ 31 := lt_of_le_of_lt fits buffer.measured
  obtain ⟨⟨_, snd⟩, types⟩ := typed_zip typed
  have size : callSize lay d = 2 + (encoding lay (DCSGen run) (d.args.zip args)).length :=
    callSize_eq typed
  obtain ⟨written, encoded, front⟩ :=
    GetDataFromParams_eq macros few plain registered code typed fits measured
  refine ⟨written, encoded, fun payload same => ?_⟩
  have decodable : ∀ x ∈ d.args.zip args, x.2.type = lay.type x.1 ∧
      switchOn (DCSGen run).argDefAll (DCSGen run).switchType (typeCode (DCSGen run) x.1).toNat =
        some x.1 :=
    fun x member => ⟨types x member,
      (typeCode_case macros few plain (List.mem_of_getElem? registered)
        (List.of_mem_zip member).1).2⟩
  have decoded := GetParamsFromData_eq decodable fcode (payload.drop (callSize lay d)) (by omega)
  rwa [← front, ← same, List.take_append_drop, ← size, snd] at decoded

/-- A header with one call, of a `DCS::u8` and a `DCS::f64`. -/
def sampleHeader : Header := ⟨[⟨"DCS::Move".toList, [], ["DCS::u8".toList, "DCS::f64".toList]⟩], []⟩

/-- The run over it that numbers the argument types in the given order. -/
def sampleRun (order : List Text) (perm : order.Perm ["DCS::u8".toList, "DCS::f64".toList]) :
    Run [sampleHeader] where
  files := [sampleHeader]
  walk := .refl _
  returnSet := [[]]
  returnSet_nodup := List.nodup_singleton _
  mem_returnSet t := by simp [sampleHeader]
  argSet := order
  argSet_nodup := perm.nodup_iff.mpr (by decide +kernel)
  mem_argSet t := by rw [perm.mem_iff]; simp [sampleHeader]

/-- Types by their names; a `DCS::f64` has eight bytes. -/
def sampleLayout : Layout Text where
  type := id
  sizeof t := if t = "DCS::f64".toList then 8 else 1
  sizeof_pos t := by split <;> decide
  init t := List.replicate (if t = "DCS::f64".toList then 8 else 1) 0
  init_length t := List.length_replicate

def sampleArgs : List (Any sampleLayout) :=
  [⟨"DCS::u8".toList, [7], by decide +kernel⟩,
    ⟨"DCS::f64".toList, [0, 0, 0, 0, 0, 0, 240, 63], by decide +kernel⟩]

end DCScan.Marshalling
