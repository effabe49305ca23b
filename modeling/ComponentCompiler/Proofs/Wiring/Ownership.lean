import ComponentCompiler.Proofs.Registry.Contents
import ComponentCompiler.Wiring.Validate

/-! Registries that differ in the owners of their definitions alone. -/

namespace ComponentCompiler

open Option SortedMap

def Definition.unowned (d : Definition) : Definition := { d with module := none }

structure Registry.SameButOwners (r r' : Registry) : Prop where
  definitions : ∀ kind name, (r'.get? kind name).map (·.unowned) = (r.get? kind name).map (·.unowned)
  index : r'.index = r.index
  packages : r'.packages = r.packages
  output : r'.output = r.output

namespace Registry.SameButOwners

theorem refl (r) : SameButOwners r r := ⟨fun _ _ => rfl, rfl, rfl, rfl⟩

theorem trans (first : SameButOwners r r') (second : SameButOwners r' r'') : SameButOwners r r'' where
  definitions kind name := (second.definitions kind name).trans (first.definitions kind name)
  index := second.index.trans first.index
  packages := second.packages.trans first.packages
  output := second.output.trans first.output

section

variable (same : SameButOwners r r')
include same

theorem get? (here : r'.get? kind name = some d) :
    ∃ old, r.get? kind name = some old ∧ d.unowned = old.unowned := by
  have equal := same.definitions kind name
  rw [here] at equal
  obtain ⟨old, before, unowned⟩ := map_eq_some_iff.mp equal.symm
  exact ⟨old, before, unowned.symm⟩

theorem symm : SameButOwners r' r where
  definitions kind name := (same.definitions kind name).symm
  index := same.index.symm
  packages := same.packages.symm
  output := same.output.symm

theorem coherent (coherent : r.Coherent) : r'.Coherent where
  own here := by
    obtain ⟨old, before, unowned⟩ := same.get? here
    obtain ⟨kinds, names⟩ := coherent.own before
    rw [← kinds, ← names]
    exact ⟨congrArg (·.kind.table) unowned, congrArg (·.name) unowned⟩
  index {entry} := by
    rw [same.index, coherent.index]
    constructor
    · rintro ⟨d, here, listed⟩
      obtain ⟨new, here', unowned⟩ := same.symm.get? here
      exact ⟨new, here', congrArg indexEntries unowned ▸ listed⟩
    · rintro ⟨d, here, listed⟩
      obtain ⟨old, before, unowned⟩ := same.get? here
      exact ⟨old, before, congrArg indexEntries unowned ▸ listed⟩

theorem isSome_get? (kind) (name) :
    (r'.get? kind name).isSome = (r.get? kind name).isSome := by
  have equal := congrArg isSome (same.definitions kind name)
  simpa using equal

theorem definitions_map (kind) :
    ((r'.definitions kind).map fun _ => Definition.unowned) = (r.definitions kind).map fun _ => Definition.unowned := by
  apply ext_get?
  intro name
  rw [get?_map, get?_map]
  exact same.definitions kind name

theorem registerExternal (d) :
    SameButOwners (r.registerExternal d) (r'.registerExternal d) := by
  unfold Registry.registerExternal
  rw [same.isSome_get?]
  split
  · exact same
  · refine ⟨fun kind name => ?_, ?_, ?_, ?_⟩
    · rw [get?_store, get?_store]
      split
      · rfl
      · exact same.definitions kind name
    · exact congrArg (· ++ indexEntries d) same.index
    · cases kinds : d.kind <;> simp only [store, kinds, withDefinitions] <;> exact same.packages
    · cases kinds : d.kind <;> simp only [store, kinds, withDefinitions] <;> exact same.output

theorem diagnostics_register (d) :
    (r'.register d).diagnostics = (r.register d).diagnostics := by
  have equal := same.definitions d.kind d.name
  unfold register
  cases taken : r.get? d.kind d.name with
  | none =>
    rw [taken, map_none, map_eq_none_iff] at equal
    rw [equal]
  | some existing =>
    rw [taken, map_some, map_eq_some_iff] at equal
    obtain ⟨other, here, unowned⟩ := equal
    have file : other.file = existing.file := congrArg (·.file) unowned
    rw [here]
    simp only [duplicateDiagnostic, file]

end

theorem declaredIn_map (file) (ds : SortedMap String Definition) :
    declaredIn file (ds.map fun _ => Definition.unowned) = declaredIn file ds := by
  simp only [declaredIn, SortedMap.toList, map, List.filter_map, List.map_map]
  rfl

theorem deregisterFile (same : SameButOwners r r') (file) :
    SameButOwners (r.deregisterFile file).1 (r'.deregisterFile file).1 := by
  have removed : (r'.deregisterFile file).2 = (r.deregisterFile file).2 := by
    have each : ∀ kind, declaredIn file (r'.definitions kind) = declaredIn file (r.definitions kind) := by
      intro kind
      rw [← declaredIn_map, same.definitions_map, declaredIn_map]
    have elements : declaredIn file r'.elements = declaredIn file r.elements := each .element
    have directives : declaredIn file r'.directives = declaredIn file r.directives := each .directive
    have services : declaredIn file r'.services = declaredIn file r.services := each .service
    have modules : declaredIn file r'.modules = declaredIn file r.modules := each .module
    simp only [Registry.deregisterFile, elements, directives, services, modules]
  have output : (r'.deregisterFile file).1.output = (r.deregisterFile file).1.output := by
    change ({ r'.output with
      templates := r'.output.templates.filter fun name _ => !(r'.deregisterFile file).2.contains (AnnotationKind.element, name)
      styles := r'.output.styles.filter fun name _ => !(r'.deregisterFile file).2.contains (AnnotationKind.element, name) } :
        TargetOutput) = _
    rw [removed, same.output]
    rfl
  refine ⟨fun kind name => ?_, ?_, same.packages, output⟩
  · rw [get?_deregisterFile, get?_deregisterFile]
    have kept : ∀ found : Option Definition,
        (found.filter fun d => !(d.isLocal && d.file == file)).map (·.unowned) =
          (found.map (·.unowned)).filter fun d => !(d.isLocal && d.file == file) := by
      intro found
      cases found with
      | none => rfl
      | some d =>
        have stays : (!(d.unowned.isLocal && d.unowned.file == file)) = !(d.isLocal && d.file == file) := rfl
        rw [map_some, filter_some, filter_some, stays]
        split <;> rfl
    rw [kept, kept, same.definitions]
  · change r'.index.filter (fun entry => !(r'.deregisterFile file).2.contains (entry.kind, entry.name)) = _
    rw [removed, same.index]
    rfl

end Registry.SameButOwners

namespace Wiring

open Registry (SameButOwners)

theorem get?_clearOwners (ds) (name) :
    ((clearOwners ds).get? name).map (·.unowned) = (ds.get? name).map (·.unowned) := by
  rw [clearOwners, get?_map, Option.map_map]
  congr 1
  funext d
  dsimp only [Function.comp]
  split <;> rfl

theorem sameButOwners_cleared (r) : SameButOwners r (cleared r) where
  definitions kind name := by
    cases kind with
    | module => rfl
    | _ => exact get?_clearOwners _ name
  index := rfl
  packages := rfl
  output := rfl

end Wiring

end ComponentCompiler
