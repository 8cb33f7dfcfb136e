import Mathlib.Algebra.BigOperators.Ring.Finset
import DCScan.Marshalling
import DCScan.Sizes

/-!
The two fixed buffers of the generated code: the 1024 bytes of a generated RPC function, and
`SVReturn::ptr`.

The generator adds up no sizes, and neither does what it generates: `GetDataFromParams` trusts its
buffer, and the case of `Execute` logs an error and copies all the same. `Marshalling` proves the round
trip for a buffer that is large enough; here is for which declarations it is.
-/

namespace DCScan.Marshalling

open Lib Generator Message

variable {τ : Type} (lay : Layout τ) (reg : Registry)

/-! ## What is written -/

/-- The size of an argument as `cpyArgToBuffer` gets it, an `i32`. -/
def argSize (t : τ) : Int := signed 32 (lay.sizeof t)

/-- The arguments' codes and objects fit into this many bytes. -/
structure ArgsFit (types : List Text) (room : Int) : Prop where
  sizes : ∀ a ∈ types, 0 ≤ argSize lay (lay.type a)
  total : (types.map fun a => 1 + argSize lay (lay.type a)).sum ≤ room

/-- `GetDataFromParams` into the `buffer` that a function of `make_rpc_func` declares. -/
def rpcFunc [DecidableEq τ] (mem : Uninit) (fcode : UInt16) (args : List (Any lay)) :
    Option (List UInt8 × Int) :=
  GetDataFromParams lay reg ((List.range 1024).map mem.heap) fcode args

/-- Neither a call of the declaration's RPC function, nor the return from its case of `Execute`, writes
behind its 1024 bytes. -/
structure StaysInside [DecidableEq τ] (d : Declaration) (fcode : UInt16) : Prop where
  call : ∀ mem args, args.map Any.type = d.args.map lay.type → (rpcFunc lay reg mem fcode args).isSome
  result : ∀ mem (value : Any lay), value.type = lay.type d.returnType →
    (returned lay reg mem d.executeCase value).isSome

/-- The macros of the declaration are defined, and none of the run twice. Other code does not compile. -/
structure Compiles {headers : List Header} (run : Run headers) (d : Declaration) : Prop where
  macros : DistinctMacros run
  encoded : ∀ a ∈ d.args, ∃ n, resolve (DCSGen run).argDefAll (encodeMacro a) = some n

variable {lay reg}

/-! ## One argument -/

/-- An object is no smaller than the size that is passed for it. -/
theorem argSize_le (t : τ) : argSize lay t ≤ lay.sizeof t := by
  have := signed_bounds (w := 32) (by decide) (lay.sizeof t)
  unfold argSize
  by_cases small : lay.sizeof t < 2 ^ 31
  · rw [signed_of_range] <;> omega
  · omega

theorem store_isSome {block data : List UInt8} (n : Nat) :
    (store block n data).isSome ↔ n + data.length ≤ block.length := by
  unfold store
  split <;> simp <;> omega

/-- The index behind the type code. -/
theorem signed_succ {n : Nat} (small : n + 1 < 2 ^ 31) :
    signed 32 ((n : Int) + 1) = ((n + 1 : Nat) : Int) := by
  rw [signed_of_range (by omega) (by omega)]
  push_cast
  rfl

/-- As many bytes are copied as the size says. -/
theorem copied_length (v : Any lay) :
    (v.bytes.take (argSize lay v.type).toNat).length = (argSize lay v.type).toNat := by
  have size : argSize lay v.type ≤ lay.sizeof v.type := argSize_le v.type
  rw [List.length_take, v.length_eq]
  omega

/-- What does not fit is not copied. -/
theorem cpyArgToBuffer_outside (buffer : List UInt8) (v : Any lay) (code : UInt8) (n : Nat)
    (measured : buffer.length < 2 ^ 31)
    (outside : 0 ≤ argSize lay v.type → buffer.length < n + 1 + argSize lay v.type) :
    cpyArgToBuffer buffer v.bytes code (argSize lay v.type) n = none := by
  unfold cpyArgToBuffer
  by_cases inside : n + 1 ≤ buffer.length
  · obtain ⟨coded, stored, coded_length, -⟩ := store_append buffer [code] n
      (by rw [List.length_singleton]; omega)
    have next := signed_succ (n := n) (by omega)
    rw [stored, Option.bind_eq_bind, Option.bind_some, next]
    by_cases positive : 0 ≤ argSize lay v.type
    · have behind := outside positive
      have copied := copied_length v
      have full : store coded ((n + 1 : Nat) : Int) (v.bytes.take (argSize lay v.type).toNat) = none := by
        rw [← Option.not_isSome_iff_eq_none, store_isSome, copied, coded_length]
        omega
      rw [if_pos positive, full]
      rfl
    · rw [if_neg positive]
      rfl
  · have full : store buffer n [code] = none := by
      rw [← Option.not_isSome_iff_eq_none, store_isSome, List.length_singleton]
      exact inside
    rw [full]
    rfl

/-- What fits is copied, and the next argument goes behind it. -/
theorem cpyArgToBuffer_inside (buffer : List UInt8) (v : Any lay) (code : UInt8) (n : Nat)
    (measured : buffer.length < 2 ^ 31) (positive : 0 ≤ argSize lay v.type)
    (inside : n + 1 + argSize lay v.type ≤ buffer.length) :
    ∃ written, cpyArgToBuffer buffer v.bytes code (argSize lay v.type) n =
        some (written, ((n + 1 + (argSize lay v.type).toNat : Nat) : Int)) ∧
      written.length = buffer.length := by
  obtain ⟨coded, stored, coded_length, -⟩ := store_append buffer [code] n
    (by rw [List.length_singleton]; omega)
  have next := signed_succ (n := n) (by omega)
  have copied := copied_length v
  obtain ⟨written, stored', written_length, -⟩ :=
    store_append coded (v.bytes.take (argSize lay v.type).toNat) (n + 1)
      (by rw [copied, coded_length]; omega)
  have total : ((n + 1 : Nat) : Int) + argSize lay v.type =
      ((n + 1 + (argSize lay v.type).toNat : Nat) : Int) := by
    push_cast
    omega
  refine ⟨written, ?_, written_length.trans coded_length⟩
  unfold cpyArgToBuffer
  rw [stored, Option.bind_eq_bind, Option.bind_some, next, if_pos positive, stored', Option.bind_some,
    total]
  exact if_pos (by omega)

/-! ## A call -/

@[simp] theorem argsFit_nil {room : Int} : ArgsFit lay [] room ↔ 0 ≤ room :=
  ⟨fun fit => by simpa using fit.total, fun room => ⟨by simp, by simpa using room⟩⟩

theorem argsFit_cons {a : Text} {types : List Text} {room : Int} :
    ArgsFit lay (a :: types) room ↔ 0 ≤ argSize lay (lay.type a) ∧
      ArgsFit lay types (room - (1 + argSize lay (lay.type a))) := by
  constructor
  · rintro ⟨sizes, total⟩
    rw [List.map_cons, List.sum_cons] at total
    exact ⟨sizes a List.mem_cons_self, fun b member => sizes b (List.mem_cons_of_mem _ member), by omega⟩
  · rintro ⟨positive, sizes, total⟩
    refine ⟨List.forall_mem_cons.mpr ⟨positive, sizes⟩, ?_⟩
    rw [List.map_cons, List.sum_cons]
    omega

/-- Arguments that fit leave the room non-negative. -/
theorem ArgsFit.room_nonneg {types : List Text} {room : Int} (fit : ArgsFit lay types room) :
    0 ≤ room := by
  induction types generalizing room with
  | nil => exact argsFit_nil.mp fit
  | cons a types ih =>
    obtain ⟨positive, rest⟩ := argsFit_cons.mp fit
    have := ih rest
    omega

/-- The case of a function copies its arguments when they fit behind what is written, and only then. -/
theorem encodeArgs_isSome [DecidableEq τ] {args : List (Text × Any lay)}
    (typed : ∀ x ∈ args, x.2.type = lay.type x.1 ∧
      ∃ n, resolve reg.argDefAll (encodeMacro x.1) = some n)
    (done : List (Any lay)) (buffer : List UInt8) (n : Nat) (start : n ≤ buffer.length)
    (measured : buffer.length < 2 ^ 31) :
    (encodeArgs lay reg (done ++ args.map Prod.snd) (args.map fun x => ⟨x.1, encodeMacro x.1⟩)
      done.length buffer n).isSome ↔ ArgsFit lay (args.map Prod.fst) (buffer.length - n) := by
  induction args generalizing done buffer n with
  | nil =>
    have none : ArgsFit lay (([] : List (Text × Any lay)).map Prod.fst) (buffer.length - n) ↔
      (0 : Int) ≤ buffer.length - n := argsFit_nil
    exact ⟨fun _ => none.mpr (by omega), fun _ => rfl⟩
  | cons x args ih =>
    obtain ⟨a, v⟩ := x
    have heads : ((a, v) :: args).map Prod.fst = a :: args.map Prod.fst := rfl
    obtain ⟨type, code, resolved⟩ : v.type = lay.type a ∧
      ∃ n, resolve reg.argDefAll (encodeMacro a) = some n :=
      typed (a, v) List.mem_cons_self
    have found : (done ++ ((a, v) :: args).map Prod.snd)[done.length]? = some v := by simp
    have shifted : done ++ ((a, v) :: args).map Prod.snd = (done ++ [v]) ++ args.map Prod.snd := by simp
    rw [heads, argsFit_cons, ← type,
      List.map_cons (f := fun x : Text × Any lay => EncodeArg.mk x.1 (encodeMacro x.1)), encodeArgs]
    simp only [found, resolved, Option.bind_eq_bind, Option.bind_some]
    rw [if_pos type]
    change ((cpyArgToBuffer buffer v.bytes (UInt8.ofNat code) (argSize lay v.type) n).bind _).isSome ↔ _
    by_cases fits : 0 ≤ argSize lay v.type ∧ (n : Int) + 1 + argSize lay v.type ≤ buffer.length
    · obtain ⟨coded, copied, coded_length⟩ :=
        cpyArgToBuffer_inside buffer v (UInt8.ofNat code) n measured fits.1 fits.2
      have rest := ih (fun x member => typed x (List.mem_cons_of_mem _ member)) (done ++ [v]) coded
        (n + 1 + (argSize lay v.type).toNat) (by omega) (by omega)
      have left : (coded.length : Int) - (n + 1 + (argSize lay v.type).toNat : Nat) =
          buffer.length - n - (1 + argSize lay v.type) := by
        push_cast
        omega
      rw [List.length_append, List.length_singleton, left] at rest
      rw [copied, Option.bind_some, shifted, rest]
      exact (and_iff_right fits.1).symm
    · rw [cpyArgToBuffer_outside buffer v (UInt8.ofNat code) n measured (by omega), Option.bind_none]
      constructor
      · intro failed
        cases failed
      · rintro ⟨positive, fit⟩
        have := fit.room_nonneg
        omega

variable {headers : List Header} {run : Run headers} {d : Declaration} {i : Nat} {fcode : UInt16}

/-- A call of an RPC function stays inside its buffer when the code and the arguments take no more than
1024 bytes. -/
theorem rpcFunc_isSome [DecidableEq τ] (compiles : Compiles run d)
    (registered : run.declarations[i]? = some d) (code : fcode.toNat = i + 1) (mem : Uninit)
    {args : List (Any lay)} (typed : args.map Any.type = d.args.map lay.type) :
    (rpcFunc lay (DCSGen run) mem fcode args).isSome ↔ ArgsFit lay d.args 1022 := by
  obtain ⟨⟨fst, snd⟩, types⟩ := typed_zip typed
  obtain ⟨coded, stored, coded_length, -⟩ :=
    store_append ((List.range 1024).map mem.heap) (leBytes 2 fcode.toNat) 0 (by simp)
  have whole : coded.length = 1024 := by simpa using coded_length
  rw [rpcFunc, GetDataFromParams]
  rw [show store ((List.range 1024).map mem.heap) 0 (leBytes 2 fcode.toNat) = some coded from stored,
    Option.bind_eq_bind, Option.bind_some]
  have length : args.length = d.args.length := by simpa using congrArg List.length typed
  by_cases takes : d.args = []
  · have none : ¬ 0 < args.length := by simp [length, takes]
    rw [if_neg none, takes, argsFit_nil]
    exact ⟨fun _ => by decide, fun _ => rfl⟩
  · have some' : 0 < args.length := by
      rw [length]
      exact List.length_pos_iff.mpr takes
    have body : (d.args.zip args).map (fun x => EncodeArg.mk x.1 (encodeMacro x.1)) = d.encodeCase := by
      conv_rhs => rw [Declaration.encodeCase, ← fst, List.map_map]
      rfl
    have encodable : ∀ x ∈ d.args.zip args, x.2.type = lay.type x.1 ∧
        ∃ n, resolve (DCSGen run).argDefAll (encodeMacro x.1) = some n :=
      fun x member => ⟨types x member, compiles.encoded x.1 (List.of_mem_zip member).1⟩
    have encoded := encodeArgs_isSome encodable [] coded 2 (by omega) (by omega)
    rw [body, snd, fst, whole, List.nil_append, List.length_nil] at encoded
    rw [if_pos some', code, Run.switchReverse_of_declaration compiles.macros registered takes]
    exact encoded

/-! ## A return -/

/-- The macro of a return type that is not `void` is defined. -/
theorem resolve_returnType (registered : d ∈ run.declarations) (valued : d.returnType ≠ []) :
    ∃ n, resolve (DCSGen run).rtypeDefines (retMacro d.returnType) = some n := by
  have declared : d ∈ headers.flatMap Header.declarations :=
    (run.walk.flatMap_right Header.declarations).mem_iff.mp registered
  have numbered : d.returnType ∈ run.returnTypes :=
    List.mem_filter.mpr ⟨(run.mem_returnSet _).mpr ⟨d, declared, rfl⟩, by simpa using valued⟩
  have labelled : retMacro d.returnType ∈ (DCSGen run).rtypeDefines.map Prod.fst := by
    rw [DCSGen, numbered_names]
    exact List.mem_cons_of_mem _ (List.mem_map_of_mem numbered)
  exact resolve_of_name labelled

theorem SVReturn.ofFields_isSome {type : UInt8} {ptr : List UInt8} (length : ptr.length = 1024) :
    (SVReturn.ofFields type ptr).isSome := by
  rw [SVReturn.ofFields, dif_pos length, Option.isSome_some]

/-- A return stays inside `ptr` when there is no value, or one of at most 1024 bytes. -/
theorem returned_isSome {c : ExecuteCase}
    (defined : c.returnType ≠ [] → ∃ n, resolve reg.rtypeDefines c.code = some n) (mem : Uninit)
    (value : Any lay) :
    (returned lay reg mem c value).isSome ↔ c.returnType = [] ∨ lay.sizeof value.type ≤ 1024 := by
  have block : ((List.range 1024).map mem.heap).length = 1024 := by simp
  unfold returned
  by_cases valued : c.returnType = []
  · rw [if_pos valued]
    exact ⟨fun _ => .inl valued, fun _ => SVReturn.ofFields_isSome block⟩
  · obtain ⟨n, resolved⟩ := defined valued
    have copied : (store ((List.range 1024).map mem.heap) 0 value.bytes).isSome ↔
        lay.sizeof value.type ≤ 1024 := by
      have inside : (store ((List.range 1024).map mem.heap) (0 : Nat) value.bytes).isSome ↔
        0 + value.bytes.length ≤ ((List.range 1024).map mem.heap).length := store_isSome 0
      rwa [block, Nat.zero_add, value.length_eq] at inside
    rw [if_neg valued, or_iff_right valued, ← copied]
    simp only [Option.bind_eq_bind, resolved, Option.bind_some]
    cases stored : store ((List.range 1024).map mem.heap) 0 value.bytes with
    | none => rfl
    | some ptr =>
      have kept : ptr.length = 1024 := by
        obtain ⟨inside, written⟩ := Option.ite_none_right_eq_some.mp stored
        rw [← Option.some.inj written, blit_length (by omega), block]
      simp only [Option.bind_some, Option.isSome_some, iff_true]
      exact SVReturn.ofFields_isSome kept

/-! ## Every declaration -/

/-- Objects of the declared types, as `T()` makes them. -/
def defaults (lay : Layout τ) (types : List Text) : List (Any lay) :=
  types.map fun a => ⟨lay.type a, lay.init _, lay.init_length _⟩

theorem defaults_typed (types : List Text) : (defaults lay types).map Any.type = types.map lay.type := by
  rw [defaults, List.map_map]
  rfl

theorem fits_of_staysInside [DecidableEq τ] (compiles : Compiles run d)
    (registered : run.declarations[i]? = some d) (code : fcode.toNat = i + 1)
    (inside : StaysInside lay (DCSGen run) d fcode) :
    ArgsFit lay d.args 1022 ∧ (d.returnType = [] ∨ lay.sizeof (lay.type d.returnType) ≤ 1024) := by
  constructor
  · have typed : (defaults lay d.args).map Any.type = d.args.map lay.type := defaults_typed d.args
    exact (rpcFunc_isSome compiles registered code .zeros typed).mp (inside.call .zeros _ typed)
  · let value : Any lay := ⟨lay.type d.returnType, lay.init _, lay.init_length _⟩
    exact (returned_isSome (resolve_returnType (List.mem_of_getElem? registered)) .zeros value).mp
      (inside.result .zeros value rfl)

/-- The generated code of a declaration stays inside its buffers when two bytes, and one more than its
size for each argument, are at most 1024, and the return value has at most 1024 bytes. -/
theorem staysInside_iff [DecidableEq τ] (compiles : Compiles run d)
    (registered : run.declarations[i]? = some d) (code : fcode.toNat = i + 1) :
    StaysInside lay (DCSGen run) d fcode ↔
      ArgsFit lay d.args 1022 ∧ (d.returnType = [] ∨ lay.sizeof (lay.type d.returnType) ≤ 1024) := by
  constructor
  · exact fits_of_staysInside compiles registered code
  · rintro ⟨args, result⟩
    refine ⟨fun mem _ typed => (rpcFunc_isSome compiles registered code mem typed).mpr args,
      fun mem value typed => ?_⟩
    have defined := resolve_returnType (List.mem_of_getElem? registered)
    rw [returned_isSome (c := d.executeCase) defined mem value, typed]
    exact result

/-- For objects whose size is an `i32`, what has to fit is the call of `GetDataFromParams`. -/
theorem argsFit_iff_callSize (objects : ∀ t, lay.sizeof t < 2 ^ 31) :
    ArgsFit lay d.args 1022 ↔ callSize lay d ≤ 1024 := by
  have size (t : τ) : argSize lay t = lay.sizeof t := by
    have := objects t
    rw [argSize, signed_of_range] <;> omega
  have total : (d.args.map fun a => 1 + argSize lay (lay.type a)).sum =
      ((d.args.map fun a => 1 + lay.sizeof (lay.type a)).sum : Nat) := by
    simp only [size, Nat.cast_list_sum, List.map_map]
    rfl
  constructor
  · rintro ⟨-, fits⟩
    rw [total] at fits
    unfold callSize
    omega
  · intro fits
    unfold callSize at fits
    refine ⟨fun a _ => ?_, by rw [total]; omega⟩
    rw [size]
    omega

/-- A call that stays inside its buffer is sent whole: the function code and the arguments. -/
theorem rpcFunc_sent [DecidableEq τ] (compiles : Compiles run d) (few : run.argDefines.length ≤ 255)
    (plain : ∀ d ∈ run.declarations, ∀ a ∈ d.args, Plain a)
    (registered : run.declarations[i]? = some d) (code : fcode.toNat = i + 1)
    {args : List (Any lay)} (typed : args.map Any.type = d.args.map lay.type)
    (fits : callSize lay d ≤ 1024) (mem mem' : Uninit) (nid : UInt64) :
    ∃ buffer, rpcFunc lay (DCSGen run) mem fcode args = some (buffer, (callSize lay d : Int)) ∧
      SendCall.SendSync.queue mem' nid .REQUEST (some buffer) (callSize lay d) =
        some (nid + 1, ⟨InternalOperation.SYNC_REQUEST.code, nid,
          some (leBytes 2 fcode.toNat ++ encoding lay (DCSGen run) (d.args.zip args))⟩) := by
  have room : callSize lay d ≤ ((List.range 1024).map mem.heap).length := by simpa using fits
  obtain ⟨buffer, written, front⟩ := GetDataFromParams_eq compiles.macros few plain registered code
    typed room (by omega)
  have whole : kept (callSize lay d) = callSize lay d := by unfold kept; omega
  have header : 2 ≤ callSize lay d := Nat.le_add_right _ _
  refine ⟨buffer, written, ?_⟩
  rw [queue_payload (by omega) (by omega), whole, Option.map_some, Option.getD_some, front]
  rfl

/-! ## Three strings -/

/-- The header of `WriteValueString`. -/
def databaseHeader : Header :=
  ⟨[⟨"DCS::Database::WriteValueString".toList, [],
    ["DCS::Database::Authority".toList, "DCS::Utils::BasicString".toList,
      "DCS::Utils::BasicString".toList, "DCS::Utils::BasicString".toList]⟩], []⟩

def databaseArgSet : List Text :=
  ["DCS::Database::Authority".toList, "DCS::Utils::BasicString".toList]

theorem databaseReturnSet_nodup : [([] : Text)].Nodup := List.nodup_singleton _

theorem databaseArgSet_nodup : databaseArgSet.Nodup := by decide +kernel

theorem mem_databaseReturnSet (t : Text) :
    t ∈ [[]] ↔ ∃ d ∈ [databaseHeader].flatMap Header.declarations, t = d.returnType := by
  simp [databaseHeader]

theorem mem_databaseArgSet (t : Text) :
    t ∈ databaseArgSet ↔ ∃ d ∈ [databaseHeader].flatMap Header.declarations, t ∈ d.argsName := by
  simp [databaseHeader, databaseArgSet]

/-- A run over it. -/
def databaseRun : Run [databaseHeader] where
  files := [databaseHeader]
  walk := .refl _
  returnSet := [[]]
  returnSet_nodup := databaseReturnSet_nodup
  mem_returnSet := mem_databaseReturnSet
  argSet := databaseArgSet
  argSet_nodup := databaseArgSet_nodup
  mem_argSet := mem_databaseArgSet

/-- An enumeration has four bytes, a `BasicString` 512. -/
def databaseLayout : Layout Text where
  type := id
  sizeof t := if t = "DCS::Utils::BasicString".toList then 512 else 4
  sizeof_pos t := by split <;> decide
  init t := List.replicate (if t = "DCS::Utils::BasicString".toList then 512 else 4) 0
  init_length t := List.length_replicate

def writeValueString : Declaration :=
  ⟨"DCS::Database::WriteValueString".toList, [],
    ["DCS::Database::Authority".toList, "DCS::Utils::BasicString".toList,
      "DCS::Utils::BasicString".toList, "DCS::Utils::BasicString".toList]⟩

theorem writeValueString_compiles : Compiles databaseRun writeValueString := by
  refine ⟨⟨by decide +kernel, by decide +kernel⟩, fun a declared => ?_⟩
  have defined : ∀ a ∈ writeValueString.args,
      encodeMacro a ∈ (DCSGen databaseRun).argDefAll.map Prod.fst := by
    decide +kernel
  exact resolve_of_name (defined a declared)

/-- `WriteValueString` is called with 1546 bytes. -/
theorem writeValueString_overruns :
    ¬ StaysInside databaseLayout (DCSGen databaseRun) writeValueString 1 := by
  intro inside
  obtain ⟨⟨-, total⟩, -⟩ :=
    fits_of_staysInside (i := 0) writeValueString_compiles rfl rfl inside
  exact absurd total (by decide +kernel)

theorem staysInside_iff_writeValueString :
    StaysInside databaseLayout (DCSGen databaseRun) writeValueString 1 ↔
      ArgsFit databaseLayout writeValueString.args 1022 ∧ (writeValueString.returnType = [] ∨
        databaseLayout.sizeof (databaseLayout.type writeValueString.returnType) ≤ 1024) :=
  staysInside_iff (i := 0) writeValueString_compiles rfl rfl

end DCScan.Marshalling
