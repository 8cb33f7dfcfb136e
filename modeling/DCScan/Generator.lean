import Mathlib.Data.List.Perm.Basic
import DCScan.Lib.Switch
import DCScan.Lib.Text

/-!
The tables `DCSGen.py` writes into the generated registry, from the declarations it has read.

A run lists the headers in the order `os.walk` yields them and each `set` of type names in
the order Python enumerates it, so two runs over the same headers may differ in both. A
generated `switch` is the list of its cases: the macro that labels each, and what its body does.
-/

namespace DCScan.Generator

open Lib

/-- A `DCS_REGISTER_CALL` declaration: an entry of `func`, `return_type` and `args_name`. -/
structure Declaration where
  func : Text
  /-- Empty for `void`. -/
  returnType : Text
  /-- One empty name when there is no argument. -/
  argsName : List Text
  deriving DecidableEq

/-- The arguments of the generated cases: none when the first name is empty. -/
def Declaration.args (d : Declaration) : List Text :=
  if d.argsName.headD [] = [] then [] else d.argsName

/-- What `getTokenSymbols` finds in a header. -/
structure Header where
  declarations : List Declaration
  /-- `evt_func`. -/
  events : List Text
  deriving DecidableEq

/-- A run of the script over some headers. -/
structure Run (headers : List Header) where
  /-- The headers as `os.walk` yields them. -/
  files : List Header
  walk : files.Perm headers
  /-- `list(set(return_type))`. -/
  returnSet : List Text
  returnSet_nodup : returnSet.Nodup
  mem_returnSet : ∀ t, t ∈ returnSet ↔ ∃ d ∈ headers.flatMap Header.declarations, t = d.returnType
  /-- `list(set(sum(args_name, [])))`. -/
  argSet : List Text
  argSet_nodup : argSet.Nodup
  mem_argSet : ∀ t, t ∈ argSet ↔ ∃ d ∈ headers.flatMap Header.declarations, t ∈ d.argsName

namespace Run

variable {headers : List Header}

/-- The registered functions, in the order of the files and of their lines. -/
def declarations (run : Run headers) : List Declaration := run.files.flatMap Header.declarations

/-- The registered events, in the same order. -/
def events (run : Run headers) : List Text := run.files.flatMap Header.events

/-- The return types that are numbered; `filter(None, ..)` leaves out the empty name. -/
def returnTypes (run : Run headers) : List Text := run.returnSet.filter (· ≠ [])

/-- `arg_defines`, before each is turned into a definition. -/
def argDefines (run : Run headers) : List Text := run.argSet.filter (· ≠ [])

end Run

/-! ## Macro names -/

/-- `name.replace('::', '_')`. -/
def mangle (name : Text) : Text := replace name [':', ':'] ['_']

def callMacro (sig : Text) : Text := "SV_CALL_".toList ++ mangle sig

def retMacro (rt : Text) : Text := "SV_RET_".toList ++ mangle rt

def evtMacro (evt : Text) : Text := "SV_EVT_".toList ++ mangle evt

/-- `arg_def`, the macro of an argument type where it is defined and decoded. -/
def argMacro (a : Text) : Text :=
  "SV_ARG_".toList ++ replace (replace (mangle a) [' '] ['_']) ['*'] ['_', 'p', 't', 'r']

/-- The macro of an argument type where it is encoded. -/
def encodeMacro (a : Text) : Text := "SV_ARG_".toList ++ mangle a

/-! ## The registry -/

/-- An encoded argument: `any_cast` to its type, and the macro of its type code. -/
structure EncodeArg where
  type : Text
  code : Text
  deriving DecidableEq

/-- A case of `Execute`: the call, with `getArg` at each argument's type and position, and what is
done with the value it returns. -/
structure ExecuteCase where
  func : Text
  args : List Text
  returnType : Text
  code : Text
  deriving DecidableEq

/-- The case a declaration gives to `GetDataFromParams`. -/
def Declaration.encodeCase (d : Declaration) : List EncodeArg :=
  d.args.map fun a => ⟨a, encodeMacro a⟩

/-- The case a declaration gives to `Execute`. -/
def Declaration.executeCase (d : Declaration) : ExecuteCase :=
  ⟨d.func, d.args, d.returnType, retMacro d.returnType⟩

/-- `registry.h` and `registry.cpp`: macro definitions and the cases of the generated switches. -/
structure Registry where
  defines : List (Text × Nat)
  argDefAll : List (Text × Nat)
  rtypeDefines : List (Text × Nat)
  evtDef : List (Text × Nat)
  /-- The switch of `GetDataFromParams`. -/
  switchReverse : List (Text × List EncodeArg)
  /-- The switch of `GetParamsFromData`. -/
  switchType : List (Text × Text)
  /-- The switch of `Execute`. -/
  switch : List (Text × ExecuteCase)

variable {headers : List Header}

/-- What the script writes. -/
def DCSGen (run : Run headers) : Registry where
  defines := numbered "SV_CALL_NULL".toList (run.declarations.map fun d => callMacro d.func)
  argDefAll := numbered "SV_ARG_NULL".toList (run.argDefines.map argMacro)
  rtypeDefines := numbered "SV_RET_VOID".toList (run.returnTypes.map retMacro)
  evtDef := (run.events.map evtMacro).zipIdx 1
  switchReverse := (run.declarations.filter (·.args ≠ [])).map fun d =>
    (callMacro d.func, d.encodeCase)
  switchType := run.argDefines.map fun a => (argMacro a, a)
  switch := run.declarations.map fun d => (callMacro d.func, d.executeCase)

/-! ## Names and codes -/

/-- A plain qualified name: letters, digits, `_` and the colons of `::`. -/
def Plain (name : Text) : Prop := name ≠ [] ∧ ∀ c ∈ name, c.isAlphanum = true ∨ c = '_' ∨ c = ':'

instance (name : Text) : Decidable (Plain name) :=
  @instDecidableAnd _ _ _ (List.decidableBAll _ name)

/-- No macro of a call or of an argument type is defined twice, as the generated switches need to
compile. -/
structure DistinctMacros (run : Run headers) : Prop where
  calls : ("SV_CALL_NULL".toList :: run.declarations.map fun d => callMacro d.func).Nodup
  args : ("SV_ARG_NULL".toList :: run.argDefines.map argMacro).Nodup

/-- A plain name has one macro, wherever it is used. -/
theorem encodeMacro_eq {a : Text} (plain : Plain a) : encodeMacro a = argMacro a := by
  have absent : ∀ c, c.isAlphanum = false → c ≠ '_' → c ≠ ':' → c ∉ mangle a := by
    intro c symbol underscore colon member
    rcases mem_replace member with before | new
    · rcases plain.2 c before with letter | rfl | rfl
      · rw [symbol] at letter
        cases letter
      · exact underscore rfl
      · exact colon rfl
    · exact underscore (List.mem_singleton.mp new)
  have spaces : replace (mangle a) [' '] ['_'] = mangle a :=
    replace_of_not_mem (absent ' ' (by decide) (by decide) (by decide))
  have stars : replace (mangle a) ['*'] ['_', 'p', 't', 'r'] = mangle a :=
    replace_of_not_mem (absent '*' (by decide) (by decide) (by decide))
  unfold encodeMacro argMacro
  apply congrArg
  rw [spaces, stars]

namespace Run

variable {run : Run headers} {d : Declaration} {a : Text} {i : Nat}

/-- An argument type of a registered function is among those that are numbered. -/
theorem mem_argDefines (registered : d ∈ run.declarations) (declared : a ∈ d.args)
    (named : a ≠ []) :
    a ∈ run.argDefines := by
  have written : a ∈ d.argsName := by
    unfold Declaration.args at declared
    split at declared
    · cases declared
    · exact declared
  refine List.mem_filter.mpr ⟨(run.mem_argSet a).mpr ⟨d, ?_, written⟩, by simpa using named⟩
  exact (run.walk.flatMap_right Header.declarations).mem_iff.mp registered

theorem switch_of_declaration (macros : DistinctMacros run)
    (registered : run.declarations[i]? = some d) :
    switchOn (DCSGen run).defines (DCSGen run).switch (i + 1) = some d.executeCase :=
  switchOn_numbered (fun d : Declaration => callMacro d.func) Declaration.executeCase macros.calls
    (fun _ member => member)
    registered (List.mem_of_getElem? registered)

theorem switchReverse_of_declaration (macros : DistinctMacros run)
    (registered : run.declarations[i]? = some d) (takes : d.args ≠ []) :
    switchOn (DCSGen run).defines (DCSGen run).switchReverse (i + 1) = some d.encodeCase :=
  switchOn_numbered (fun d : Declaration => callMacro d.func) Declaration.encodeCase macros.calls
    (fun _ member => (List.mem_filter.mp member).1) registered
    (List.mem_filter.mpr ⟨List.mem_of_getElem? registered, by simpa using takes⟩)

/-- The code that is encoded for a type is the one its decode case is labelled with. -/
theorem code_of_arg (macros : DistinctMacros run) (numbered : a ∈ run.argDefines)
    (plain : Plain a) :
    ∃ n, n ≤ run.argDefines.length ∧ resolve (DCSGen run).argDefAll (encodeMacro a) = some n ∧
      switchOn (DCSGen run).argDefAll (DCSGen run).switchType n = some a := by
  obtain ⟨i, position⟩ := List.mem_iff_getElem?.mp numbered
  obtain ⟨within, _⟩ := List.getElem?_eq_some_iff.mp position
  refine ⟨i + 1, within, ?_, ?_⟩
  · rw [encodeMacro_eq plain]
    exact resolve_numbered macros.args (by rw [List.getElem?_map, position, Option.map_some])
  · exact switchOn_numbered argMacro id macros.args (fun _ member => member) position numbered

end Run

end DCScan.Generator
