import DCScan.Generator

/-!
The macros and wrappers of a generated registry, and when they are as distinct as the names they come
from.

A name is taken apart at `::` and joined with `_`, so names whose scopes join to the same text share
a macro; a wrapper keeps two scopes. An argument type's spaces and stars are replaced where its macro
is defined and not where it is encoded. And what a `#define` defines ends with its first character
that no identifier has.
-/

namespace DCScan.Generator

open Lib

/-- `sig.split('::')`. -/
def scopes (name : Text) : List Text := split name [':', ':']

/-- The name of the wrapper, `'_'.join(sig.split('::')[-2:])`. -/
def rpcName (sig : Text) : Text :=
  ['_'].intercalate ((scopes sig).drop ((scopes sig).length - 2))

/-- What `make_rpc_func` is given. -/
structure RpcCall where
  fname : Text
  name : Text
  params : List Text
  ret_type : Text
  deriving DecidableEq

/-- The wrapper of a declaration. -/
def Declaration.rpcCall (d : Declaration) : RpcCall :=
  ⟨callMacro d.func, rpcName d.func, d.args, d.returnType⟩

/-- The characters of identifiers. -/
def IdentChar (c : Char) : Prop := c.isAlphanum = true ∨ c = '_'

instance (c : Char) : Decidable (IdentChar c) := instDecidableOr

def IsIdent (text : Text) : Prop := ∀ c ∈ text, IdentChar c

instance (text : Text) : Decidable (IsIdent text) := List.decidableBAll _ text

/-- The header defines the macro, with this number: the text of the `#define` is an identifier. -/
def Defines (defines : List (Text × Nat)) (macroName : Text) (number : Nat) : Prop :=
  IsIdent macroName ∧ resolve defines macroName = some number

variable {headers : List Header}

/-- Distinct functions and types have distinct macros and wrappers, and every macro that is used is
defined as the number of its function or type. -/
structure MangledSoundly (run : Run headers) : Prop where
  calls : (run.declarations.map fun d => callMacro d.func).Nodup
  args : (run.argDefines.map argMacro).Nodup
  rets : (run.returnTypes.map retMacro).Nodup
  wrappers : (run.declarations.map fun d => d.rpcCall.name).Nodup
  /-- In the encode case, the `Execute` case and the wrapper. -/
  call_used : ∀ i d, run.declarations[i]? = some d →
    Defines (DCSGen run).defines (callMacro d.func) (i + 1)
  /-- In the decode case. -/
  arg_decoded : ∀ i a, run.argDefines[i]? = some a →
    Defines (DCSGen run).argDefAll (argMacro a) (i + 1)
  /-- In the encode case. -/
  arg_encoded : ∀ d ∈ run.declarations, ∀ a ∈ d.encodeCase, ∃ i, run.argDefines[i]? = some a.type ∧
    Defines (DCSGen run).argDefAll a.code (i + 1)
  /-- In the `Execute` case. -/
  ret_used : ∀ d ∈ run.declarations, d.returnType ≠ [] →
    ∃ i, run.returnTypes[i]? = some d.returnType ∧
      Defines (DCSGen run).rtypeDefines d.executeCase.code (i + 1)

/-! ## Conditions on names -/

/-- The scopes of both, joined, are the same text. -/
def Alike (a b : Text) : Prop := ['_'].intercalate (scopes a) = ['_'].intercalate (scopes b)

/-- The two last scopes of both, joined, are the same text. -/
def TailAlike (a b : Text) : Prop := rpcName a = rpcName b

/-- A space of a type is written as `_`, and a star as `_ptr`. -/
def typeChar (c : Char) : Text := if c = ' ' then ['_'] else if c = '*' then "_ptr".toList else [c]

/-- The scopes of both types, joined, are the same text when their spaces and stars are written
out. -/
def TypeAlike (a b : Text) : Prop :=
  (['_'].intercalate (scopes a)).flatMap typeChar = (['_'].intercalate (scopes b)).flatMap typeChar

/-- All scopes are identifiers. -/
def Scoped (name : Text) : Prop := ∀ scope ∈ scopes name, IsIdent scope

/-- All scopes are made of identifiers, spaces and stars. -/
def TypeScoped (name : Text) : Prop :=
  ∀ scope ∈ scopes name, ∀ c ∈ scope, IdentChar c ∨ c = ' ' ∨ c = '*'

/-- Names of identifiers and `::`, of which no two are joined alike; types that are encoded have no
space and no star. -/
structure NamesApart (run : Run headers) : Prop where
  funcs : ∀ d ∈ run.declarations, Scoped d.func
  funcs_apart : run.declarations.Pairwise fun d e => ¬ Alike d.func e.func
  tails_apart : run.declarations.Pairwise fun d e => ¬ TailAlike d.func e.func
  types : ∀ a ∈ run.argDefines, TypeScoped a
  types_apart : run.argDefines.Pairwise fun a b => ¬ TypeAlike a b
  encoded : ∀ d ∈ run.declarations, ∀ a ∈ d.args, a ≠ [] ∧ Scoped a
  returned : ∀ d ∈ run.declarations, Scoped d.returnType
  returns_apart : run.returnTypes.Pairwise fun a b => ¬ Alike a b

variable {a b : Text} {run : Run headers} {d : Declaration}

/-! ## Texts -/

theorem mangle_eq (name : Text) : mangle name = ['_'].intercalate (scopes name) :=
  replace_eq_intercalate

theorem mangle_inj : mangle a = mangle b ↔ Alike a b := by
  rw [mangle_eq, mangle_eq, Alike]

theorem callMacro_inj : callMacro a = callMacro b ↔ Alike a b :=
  (List.append_right_inj _).trans mangle_inj

theorem retMacro_inj : retMacro a = retMacro b ↔ Alike a b :=
  (List.append_right_inj _).trans mangle_inj

/-- The spaces and the stars are replaced one after the other, as all at once. -/
theorem replaced_eq (a : Text) : replace (replace (mangle a) [' '] ['_']) ['*'] ['_', 'p', 't', 'r'] =
    (['_'].intercalate (scopes a)).flatMap typeChar := by
  rw [replace_singleton, replace_singleton, mangle_eq, List.flatMap_assoc]
  refine List.flatMap_congr fun c _ => ?_
  unfold typeChar
  by_cases space : c = ' '
  · subst space
    rfl
  · rw [if_neg space, if_neg space]
    exact List.append_nil _

theorem argMacro_inj : argMacro a = argMacro b ↔ TypeAlike a b := by
  refine (List.append_right_inj _).trans ?_
  rw [replaced_eq, replaced_eq, TypeAlike]

/-- A joined text is made of what its pieces are made of. -/
theorem forall_mem_joined {p : Char → Prop} (underscore : p '_') (pieces : List Text) :
    (∀ c ∈ ['_'].intercalate pieces, p c) ↔ ∀ piece ∈ pieces, ∀ c ∈ piece, p c := by
  induction pieces with
  | nil => simp
  | cons piece pieces ih =>
    cases pieces with
    | nil => simp
    | cons next rest =>
      rw [List.intercalate_cons_of_ne_nil (List.cons_ne_nil _ _), List.forall_mem_append,
        List.forall_mem_append, List.forall_mem_singleton, ih, and_assoc, and_iff_right underscore]
      exact (List.forall_mem_cons (p := fun piece => ∀ c ∈ piece, p c)).symm

theorem isIdent_append {front : Text} (ident : IsIdent front) : IsIdent (front ++ a) ↔ IsIdent a :=
  List.forall_mem_append.trans (and_iff_right ident)

theorem isIdent_mangle : IsIdent (mangle a) ↔ Scoped a := by
  rw [mangle_eq]
  exact forall_mem_joined (Or.inr rfl) _

theorem isIdent_callMacro : IsIdent (callMacro a) ↔ Scoped a :=
  (isIdent_append (by decide)).trans isIdent_mangle

theorem isIdent_retMacro : IsIdent (retMacro a) ↔ Scoped a :=
  (isIdent_append (by decide)).trans isIdent_mangle

theorem isIdent_encodeMacro : IsIdent (encodeMacro a) ↔ Scoped a :=
  (isIdent_append (by decide)).trans isIdent_mangle

theorem isIdent_typeChar (c : Char) : IsIdent (typeChar c) ↔ IdentChar c ∨ c = ' ' ∨ c = '*' := by
  unfold typeChar
  split_ifs with space star
  · exact ⟨fun _ => Or.inr (Or.inl space), fun _ => by decide⟩
  · exact ⟨fun _ => Or.inr (Or.inr star), fun _ => by decide⟩
  · rw [or_iff_left (not_or.mpr ⟨space, star⟩)]
    exact List.forall_mem_singleton

theorem isIdent_argMacro : IsIdent (argMacro a) ↔ TypeScoped a := by
  refine (isIdent_append (by decide)).trans ?_
  rw [replaced_eq, TypeScoped, ← forall_mem_joined (Or.inl (Or.inr rfl))]
  simp only [IsIdent, List.forall_mem_flatMap]
  exact forall₂_congr fun c _ => isIdent_typeChar c

/-- The macro of a type without spaces and stars is the one that is encoded. -/
theorem encodeMacro_of_scoped (plain : Scoped a) : encodeMacro a = argMacro a := by
  have kept : ∀ c ∈ mangle a, typeChar c = [c] := by
    intro c member
    have ident := isIdent_mangle.mpr plain c member
    unfold typeChar
    rw [if_neg, if_neg]
    · rintro rfl
      revert ident
      decide
    · rintro rfl
      revert ident
      decide
  have same : replace (replace (mangle a) [' '] ['_']) ['*'] ['_', 'p', 't', 'r'] = mangle a := by
    rw [replaced_eq, ← mangle_eq, List.flatMap_congr kept]
    exact List.flatMap_singleton' _
  exact congrArg (fun written => "SV_ARG_".toList ++ written) same.symm

/-! ## Numbers -/

/-- A later definition hides those before it. -/
theorem resolve_cons {d : Text × Nat} {defines : List (Text × Nat)} {name : Text} {number : Nat}
    (found : resolve defines name = some number) : resolve (d :: defines) name = some number := by
  obtain ⟨e, first, rfl⟩ := Option.map_eq_some_iff.mp found
  rw [resolve, List.reverse_cons, List.find?_append, first, Option.some_or, Option.map_some]

/-- Names are distinct exactly when each stands for its own number. -/
theorem resolve_numbered_iff {zero : Text} {names : List Text} :
    (∀ i name, names[i]? = some name → resolve (numbered zero names) name = some (i + 1)) ↔
      names.Nodup := by
  constructor
  · intro own
    refine List.nodup_iff_getElem?_ne_getElem?.mpr fun i j less inside same => ?_
    obtain ⟨name, there⟩ : ∃ name, names[j]? = some name := ⟨_, List.getElem?_eq_getElem inside⟩
    have first := own i name (same.trans there)
    rw [own j name there, Option.some.injEq] at first
    omega
  · intro distinct i name there
    refine resolve_cons (resolve_of_mem (by rwa [List.zipIdx_map_fst]) ?_)
    rw [List.mk_mem_zipIdx_iff_le_and_getElem?_sub]
    exact ⟨Nat.le_add_left 1 i, by simpa using there⟩

/-- The macros of a list are distinct, defined and numbered, when no two items are alike and each
macro is an identifier. -/
theorem numbered_iff {ι : Type} {items : List ι} {label : ι → Text} (zero : Text)
    (alike : ι → ι → Prop) (inj : ∀ x y, label x = label y ↔ alike x y) :
    ((items.map label).Nodup ∧ ∀ i x, items[i]? = some x →
        Defines (numbered zero (items.map label)) (label x) (i + 1)) ↔
      (∀ x ∈ items, IsIdent (label x)) ∧ items.Pairwise fun x y => ¬ alike x y := by
  have apart : (items.map label).Nodup ↔ items.Pairwise fun x y => ¬ alike x y := by
    rw [List.Nodup, List.pairwise_map]
    simp only [ne_eq, inj]
  rw [apart]
  constructor
  · rintro ⟨distinct, used⟩
    refine ⟨fun x member => ?_, distinct⟩
    obtain ⟨i, there⟩ := List.getElem?_of_mem member
    exact (used i x there).1
  · rintro ⟨idents, distinct⟩
    refine ⟨distinct, fun i x there => ⟨idents x (List.mem_of_getElem? there), ?_⟩⟩
    refine resolve_numbered_iff.mpr (apart.mpr distinct) i (label x) ?_
    rw [List.getElem?_map, there, Option.map_some]

/-! ## The registry -/

/-- An encoded type is numbered, unless its name is empty. -/
theorem encoded_index (registered : d ∈ run.declarations) (declared : a ∈ d.args) (named : a ≠ []) :
    ∃ i : Nat, run.argDefines[i]? = some a :=
  List.mem_iff_getElem?.mp (Run.mem_argDefines registered declared named)

/-- So is a type that is returned. -/
theorem returned_index (registered : d ∈ run.declarations) (named : d.returnType ≠ []) :
    ∃ i : Nat, run.returnTypes[i]? = some d.returnType := by
  refine List.mem_iff_getElem?.mp (List.mem_filter.mpr ⟨?_, by simpa using named⟩)
  refine (run.mem_returnSet _).mpr ⟨d, ?_, rfl⟩
  exact (run.walk.flatMap_right Header.declarations).mem_iff.mp registered

/-- Every numbered return type is one that is returned. -/
theorem exists_returned {t : Text} (member : t ∈ run.returnTypes) :
    ∃ d ∈ run.declarations, d.returnType = t ∧ d.returnType ≠ [] := by
  obtain ⟨inside, named⟩ := List.mem_filter.mp member
  obtain ⟨d, declared, rfl⟩ := (run.mem_returnSet t).mp inside
  refine ⟨d, ?_, rfl, by simpa using named⟩
  exact (run.walk.flatMap_right Header.declarations).mem_iff.mpr declared

theorem calls_iff (run : Run headers) :
    ((run.declarations.map fun d => callMacro d.func).Nodup ∧
      ∀ i d, run.declarations[i]? = some d →
        Defines (DCSGen run).defines (callMacro d.func) (i + 1)) ↔
      (∀ d ∈ run.declarations, Scoped d.func) ∧
        run.declarations.Pairwise fun d e => ¬ Alike d.func e.func := by
  refine (numbered_iff "SV_CALL_NULL".toList (fun d e => Alike d.func e.func)
    fun d e => callMacro_inj).trans (and_congr_left' ?_)
  exact forall₂_congr fun d _ => isIdent_callMacro

theorem args_iff (run : Run headers) :
    ((run.argDefines.map argMacro).Nodup ∧ ∀ i a, run.argDefines[i]? = some a →
        Defines (DCSGen run).argDefAll (argMacro a) (i + 1)) ↔
      (∀ a ∈ run.argDefines, TypeScoped a) ∧
        run.argDefines.Pairwise fun a b => ¬ TypeAlike a b := by
  refine (numbered_iff "SV_ARG_NULL".toList TypeAlike fun a b => argMacro_inj).trans
    (and_congr_left' ?_)
  exact forall₂_congr fun a _ => isIdent_argMacro

theorem rets_iff (run : Run headers) :
    ((run.returnTypes.map retMacro).Nodup ∧ ∀ i t, run.returnTypes[i]? = some t →
        Defines (DCSGen run).rtypeDefines (retMacro t) (i + 1)) ↔
      (∀ t ∈ run.returnTypes, Scoped t) ∧ run.returnTypes.Pairwise fun a b => ¬ Alike a b := by
  refine (numbered_iff "SV_RET_VOID".toList Alike fun a b => retMacro_inj).trans
    (and_congr_left' ?_)
  exact forall₂_congr fun t _ => isIdent_retMacro

theorem wrappers_iff (run : Run headers) :
    (run.declarations.map fun d => d.rpcCall.name).Nodup ↔
      run.declarations.Pairwise fun d e => ¬ TailAlike d.func e.func := by
  rw [List.Nodup, List.pairwise_map]
  exact Iff.rfl

/-- **Name mangling is sound** if and only if the names are apart. -/
theorem name_mangling_iff (run : Run headers) : MangledSoundly run ↔ NamesApart run := by
  constructor
  · intro sound
    obtain ⟨funcs, funcs_apart⟩ := (calls_iff run).mp ⟨sound.calls, sound.call_used⟩
    obtain ⟨types, types_apart⟩ := (args_iff run).mp ⟨sound.args, sound.arg_decoded⟩
    have returned : ∀ d ∈ run.declarations, Scoped d.returnType := by
      intro d registered
      by_cases none_there : d.returnType = []
      · rw [none_there]
        rintro scope member
        obtain rfl := List.mem_singleton.mp member
        exact fun _ inside => absurd inside List.not_mem_nil
      · obtain ⟨i, -, used⟩ := sound.ret_used d registered none_there
        exact isIdent_retMacro.mp used.1
    have rets : ∀ i t, run.returnTypes[i]? = some t →
        Defines (DCSGen run).rtypeDefines (retMacro t) (i + 1) := by
      intro i t there
      obtain ⟨d, registered, rfl, named⟩ := exists_returned (List.mem_of_getElem? there)
      obtain ⟨j, also, used⟩ := sound.ret_used d registered named
      obtain ⟨inside, -⟩ := List.getElem?_eq_some_iff.mp there
      obtain rfl := (List.getElem?_inj inside (run.returnSet_nodup.filter _)).mp (there.trans also.symm)
      exact used
    refine ⟨funcs, funcs_apart, (wrappers_iff run).mp sound.wrappers, types, types_apart, ?_,
      returned, ((rets_iff run).mp ⟨sound.rets, rets⟩).2⟩
    intro d registered a declared
    obtain ⟨i, there, used⟩ :=
      sound.arg_encoded d registered ⟨a, encodeMacro a⟩ (List.mem_map_of_mem declared)
    refine ⟨?_, isIdent_encodeMacro.mp used.1⟩
    exact of_decide_eq_true (List.mem_filter.mp (List.mem_of_getElem? there)).2
  · intro apart
    obtain ⟨calls, call_used⟩ := (calls_iff run).mpr ⟨apart.funcs, apart.funcs_apart⟩
    obtain ⟨args, arg_decoded⟩ := (args_iff run).mpr ⟨apart.types, apart.types_apart⟩
    have returned : ∀ t ∈ run.returnTypes, Scoped t := by
      intro t member
      obtain ⟨d, registered, rfl, -⟩ := exists_returned member
      exact apart.returned d registered
    obtain ⟨rets, ret_used⟩ := (rets_iff run).mpr ⟨returned, apart.returns_apart⟩
    refine ⟨calls, args, rets, (wrappers_iff run).mpr apart.tails_apart, call_used, arg_decoded, ?_, ?_⟩
    · intro d registered code member
      obtain ⟨a, declared, rfl⟩ := List.mem_map.mp member
      obtain ⟨named, plain⟩ := apart.encoded d registered a declared
      obtain ⟨i, there⟩ := encoded_index registered declared named
      refine ⟨i, there, ?_⟩
      rw [encodeMacro_of_scoped plain]
      exact arg_decoded i a there
    · intro d registered named
      obtain ⟨i, there⟩ := returned_index registered named
      exact ⟨i, there, ret_used i d.returnType there⟩

/-- `void A::B_C()` and `void A_B::C()`. -/
def clashing : List Declaration :=
  [⟨"A::B_C".toList, [], [[]]⟩, ⟨"A_B::C".toList, [], [[]]⟩]

theorem clashing_returns (t : Text) : t ∈ [([] : Text)] ↔
    ∃ d ∈ [Header.mk clashing []].flatMap Header.declarations, t = d.returnType := by
  simp [clashing]

theorem clashing_args (t : Text) : t ∈ [([] : Text)] ↔
    ∃ d ∈ [Header.mk clashing []].flatMap Header.declarations, t ∈ d.argsName := by
  simp [clashing]

theorem clashing_nodup : [([] : Text)].Nodup := List.nodup_singleton _

/-- A run over the header that registers both. -/
def clashingRun : Run [⟨clashing, []⟩] where
  files := [⟨clashing, []⟩]
  walk := .refl _
  returnSet := [[]]
  returnSet_nodup := clashing_nodup
  mem_returnSet := clashing_returns
  argSet := [[]]
  argSet_nodup := clashing_nodup
  mem_argSet := clashing_args

/-- The two functions have distinct names, and share the macro `SV_CALL_A_B_C`. -/
theorem macros_clash : (clashingRun.declarations.map Declaration.func).Nodup ∧
    ¬ MangledSoundly clashingRun := by
  refine ⟨by decide, fun sound => ?_⟩
  have distinct : (clashing.map fun d => callMacro d.func).Nodup := sound.calls
  revert distinct
  decide

end DCScan.Generator
