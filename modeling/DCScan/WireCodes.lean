import DCScan.Marshalling

/-!
Two runs of the generator over the same headers.

`header_def` keeps the order of what it has read; the type names go through `set`, and the
files come as `os.walk` yields them. A client and a server that are built apart number what
they exchange alike only when both runs have enumerated it alike.
-/

namespace DCScan.WireCodes

open Lib Generator Marshalling Message

variable {headers : List Header} {run₁ run₂ : Run headers}

/-- The same SV_CALL, SV_ARG, SV_RET and SV_EVT numbers. -/
structure SameNumbers (reg₁ reg₂ : Registry) : Prop where
  calls : ∀ x, x ∈ reg₁.defines ↔ x ∈ reg₂.defines
  args : ∀ x, x ∈ reg₁.argDefAll ↔ x ∈ reg₂.argDefAll
  rets : ∀ x, x ∈ reg₁.rtypeDefines ↔ x ∈ reg₂.rtypeDefines
  evts : ∀ x, x ∈ reg₁.evtDef ↔ x ∈ reg₂.evtDef

/-- A request that the registry of the first run encodes is decoded and executed by the registry of
the second with the same function and arguments. -/
def Decodes (run₁ run₂ : Run headers) : Prop :=
  ∀ (τ : Type) [DecidableEq τ] (lay : Layout τ) (i : Nat) (d : Declaration) (fcode : UInt16)
    (args : List (Any lay)) (buffer : Buffer), DistinctMacros run₁ → run₁.argDefines.length ≤ 255 →
    (∀ d ∈ run₁.declarations, ∀ a ∈ d.args, Plain a) → run₁.declarations[i]? = some d →
      fcode.toNat = i + 1 →
    args.map Any.type = d.args.map lay.type → callSize lay d ≤ buffer.bytes.length →
    ∃ written size, GetDataFromParams lay (DCSGen run₁) buffer.bytes fcode args =
      some (written, size) ∧
      (∀ payload, payload.take size.toNat = written.take size.toNat →
        GetParamsFromData lay (DCSGen run₂) payload size = some ⟨fcode, args⟩) ∧
      ∀ impl mem, Execute lay (DCSGen run₂) impl mem ⟨fcode, args⟩ =
        returned lay (DCSGen run₂) mem d.executeCase (impl d.func args)

/-- Both runs list the functions, the argument types, the return types and the events in one order,
where names with one macro are not told apart. -/
structure SameOrder (run₁ run₂ : Run headers) : Prop where
  calls : (run₁.declarations.map fun d => callMacro d.func) = run₂.declarations.map fun d =>
    callMacro d.func
  args : run₁.argDefines.map argMacro = run₂.argDefines.map argMacro
  rets : run₁.returnTypes.map retMacro = run₂.returnTypes.map retMacro
  evts : run₁.events.map evtMacro = run₂.events.map evtMacro

/-- Numbers are given in the order of the lists. -/
theorem sameNumbers_iff : SameNumbers (DCSGen run₁) (DCSGen run₂) ↔ SameOrder run₁ run₂ := by
  constructor
  · intro same
    exact ⟨eq_of_mem_numbered same.calls, eq_of_mem_numbered same.args,
      eq_of_mem_numbered same.rets, eq_of_mem_zipIdx same.evts⟩
  · intro order
    simp only [DCSGen, order.calls, order.args, order.rets, order.evts]
    exact ⟨fun _ => Iff.rfl, fun _ => Iff.rfl, fun _ => Iff.rfl, fun _ => Iff.rfl⟩

/-- With distinct macros, runs that list everything in one order write the same registry. -/
theorem registry_eq (macros : DistinctMacros run₁) (order : SameOrder run₁ run₂) :
    DCSGen run₁ = DCSGen run₂ := by
  have walks : run₁.declarations.Perm run₂.declarations :=
    (run₁.walk.trans run₂.walk.symm).flatMap_right Header.declarations
  have declarations : run₁.declarations = run₂.declarations :=
    eq_of_perm walks order.calls (List.nodup_cons.mp macros.calls).2
  have sets : run₁.argSet.Perm run₂.argSet := by
    rw [List.perm_ext_iff_of_nodup run₁.argSet_nodup run₂.argSet_nodup]
    exact fun a => (run₁.mem_argSet a).trans (run₂.mem_argSet a).symm
  have argDefines : run₁.argDefines = run₂.argDefines :=
    eq_of_perm (sets.filter _) order.args (List.nodup_cons.mp macros.args).2
  simp only [DCSGen, declarations, argDefines, order.rets, order.evts]

theorem decodes_of_sameOrder (order : SameOrder run₁ run₂) : Decodes run₁ run₂ := by
  intro τ _ lay i d fcode args buffer macros few plain registered code typed fits
  obtain ⟨written, encoded, decoded⟩ :=
    GetParamsFromData_of_written macros few plain registered code typed fits
  rw [← registry_eq macros order]
  exact ⟨written, callSize lay d, encoded, decoded, Execute_eq macros registered code typed⟩

/-- **Wire codes of two runs.** They are the same, and each run's requests are understood by the
other, exactly when the two runs have enumerated what they number in one order. -/
theorem wire_codes : (SameNumbers (DCSGen run₁) (DCSGen run₂) ∧ Decodes run₁ run₂) ↔
    SameOrder run₁ run₂ :=
  ⟨fun same => sameNumbers_iff.mp same.1, fun order =>
    ⟨sameNumbers_iff.mpr order, decodes_of_sameOrder order⟩⟩

/-- **The condition is needed.** Two runs over the same header enumerate its two argument types in
either order; what one encodes as a `DCS::u8` and a `DCS::f64`, the other decodes as one `DCS::f64`. -/
theorem codes_differ_between_runs : ∃ run₁ run₂ : Run [sampleHeader],
    ¬(SameNumbers (DCSGen run₁) (DCSGen run₂) ∧ Decodes run₁ run₂) ∧
      ((GetDataFromParams sampleLayout (DCSGen run₁)
        (List.replicate 1024 0) 1 sampleArgs).bind fun x =>
        (GetParamsFromData sampleLayout (DCSGen run₂) x.1 x.2).map fun params =>
        params.args.map Any.type) =
          some ["DCS::f64".toList] := by
  refine ⟨sampleRun _ (.refl _), sampleRun _ (.swap _ _ _), fun same => ?_, by decide +kernel⟩
  have order := (sameNumbers_iff.mp same.1).args
  revert order
  decide +kernel

end DCScan.WireCodes
