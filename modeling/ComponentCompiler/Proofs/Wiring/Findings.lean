import ComponentCompiler.Proofs.Diagnostic.Log
import ComponentCompiler.Proofs.Wiring.Claims

/-!
What validation reports. The diagnostics of a pass are those of the registry with the owners it
gives (`validate_eq`).
-/

namespace ComponentCompiler

open List Option

namespace Registry

variable {r : Registry} {kind : AnnotationKind}

theorem table_ne_module_of_isSelectable (selectable : kind.isSelectable) : kind.table ≠ .module := by
  cases kind <;> simp_all [AnnotationKind.table, AnnotationKind.isSelectable]

theorem Coherent.isSelectable_of_mem_index (coherent : r.Coherent) (mem : entry ∈ r.index) :
    entry.kind.isSelectable := by
  obtain ⟨d, -, listed⟩ := coherent.index.mp mem
  unfold indexEntries at listed
  split at listed
  · rename_i selectable
    split at listed
    · obtain ⟨selector, -, rfl⟩ := List.mem_map.mp listed
      exact selectable
    · cases listed
  · cases listed

end Registry

namespace Wiring

open Registry (SameButOwners)

variable {r r' : Registry} {kind : AnnotationKind} {name : String}
variable {m : Definition} {e : Diagnostic}

/-! ### What validation reports -/

/-- Everything that validation reports, given the owners of definitions. -/
def findings (r : Registry) : List Diagnostic :=
  (localModules r).flatMap (moduleFindings r) ++ (moduleGraph r).cycles.filterMap (circularModule? r) ++
    dependencyDiagnostics r

theorem isSelectable_of_selectorTarget? (coherent : r.Coherent) (found : Claims.selectorTarget? r entry = some place) :
    place.1.isSelectable := by
  unfold Claims.selectorTarget? at found
  split at found
  · cases found
    rfl
  · split at found
    · cases found
      rfl
    · obtain ⟨indexed, first, rfl⟩ := map_eq_some_iff.mp found
      exact coherent.isSelectable_of_mem_index (mem_of_find?_eq_some first)

theorem claimant?_module (coherent : r.Coherent) (name) : claimant? r .module name = none := by
  rw [claimant?, findSome?_eq_none_iff]
  intro m _
  rw [claimBy?, if_neg]
  intro claimed
  rcases mem_append.mp claimed with service | selector
  · obtain ⟨_, -, equal⟩ := List.mem_map.mp service
    cases equal
  · obtain ⟨entry, -, target⟩ := mem_filterMap.mp selector
    obtain ⟨place, found, equal⟩ := map_eq_some_iff.mp target
    have table : place.1.table = .module := congrArg Prod.fst equal
    exact Registry.table_ne_module_of_isSelectable (isSelectable_of_selectorTarget? coherent found) table

theorem modules_assignOwners (coherent : r.Coherent) : (assignOwners r).1.modules = r.modules := by
  apply SortedMap.ext_get?
  intro name
  have here := get?_assignOwners r .module name
  rw [claimant?_module coherent] at here
  simp only [Definition.ownedBy_none, Option.map_id'] at here
  exact here

theorem validate_eq (coherent : r.Coherent) (log) :
    validate r log = ((assignOwners r).1, (log.clearCodes codes).extend (findings (assignOwners r).1)) := by
  have modules : localModules (assignOwners r).1 = localModules r := by
    rw [localModules, localModules, modules_assignOwners coherent]
  have reported : (validate r log).2 =
      ((log.clearCodes codes).extend (assignOwners r).2).extend (dependencyDiagnostics (assignOwners r).1) := rfl
  have appended : ∀ (log : DiagnosticLog) ds more, (log.extend ds).extend more = log.extend (ds ++ more) := by
    intro log ds more
    exact (foldl_append ..).symm
  apply Prod.ext
  · rfl
  · rw [reported, appended, diagnostics_assignOwners, findings, modules]

theorem code_of_mem_findings (mem : d ∈ findings r) : d.code ∈ codes := by
  have foreign : ∀ {m label name e}, foreign? m label name e = some d → d.code ∈ codes := by
    intro m label name e found
    unfold foreign? at found
    split at found
    · split at found
      · cases found
      · cases found
        simp [codes, Claims.ownershipDiagnostic]
    · cases found
  rcases mem_append.mp mem with mem | mem
  · rcases mem_append.mp mem with mem | mem
    · obtain ⟨m, -, mem⟩ := mem_flatMap.mp mem
      rcases mem_append.mp mem with mem | mem
      · rcases mem_append.mp mem with mem | mem
        · obtain ⟨service, -, found⟩ := mem_filterMap.mp mem
          unfold serviceFinding? at found
          split at found
          · exact foreign found
          · cases found
            simp [codes, Claims.unknownService]
        · obtain ⟨required, -, found⟩ := mem_filterMap.mp mem
          unfold requiredFinding? at found
          split at found
          · cases found
          · cases found
            simp [codes, Claims.unknownModule]
      · obtain ⟨entry, -, found⟩ := mem_filterMap.mp mem
        unfold selectorFinding? at found
        split at found
        · obtain ⟨e, -, found⟩ := bind_eq_some_iff.mp found
          exact foreign found
        · cases found
          simp [codes, Claims.unknownSelector]
    · obtain ⟨cycle, -, found⟩ := mem_filterMap.mp mem
      obtain ⟨first, -, found⟩ := bind_eq_some_iff.mp found
      obtain ⟨head, -, found⟩ := bind_eq_some_iff.mp found
      cases found
      simp [codes]
  · rcases mem_append.mp mem with mem | mem
    · obtain ⟨e, -, mem⟩ := mem_flatMap.mp mem
      obtain ⟨dependency, -, rfl⟩ := List.mem_map.mp mem
      simp [codes, unresolvedDependency]
    · obtain ⟨cycle, -, found⟩ := mem_filterMap.mp mem
      obtain ⟨first, -, found⟩ := bind_eq_some_iff.mp found
      obtain ⟨head, -, found⟩ := bind_eq_some_iff.mp found
      split at found
      · cases found
        simp [codes]
      · cases found

/-! ### Registries that differ in the owners of packages -/

section

variable (same : SameButOwners r r')
include same

theorem values_map_unowned (kind) :
    (r'.definitions kind).values.map (·.unowned) = (r.definitions kind).values.map (·.unowned) := by
  rw [← SortedMap.values_map, same.definitions_map, SortedMap.values_map]

theorem providedTokens_congr : providedTokens r' = providedTokens r := by
  have modules : ∀ r : Registry, r.modules.values.flatMap (·.providedTokens) =
      ((r.definitions .module).values.map (·.unowned)).flatMap (·.providedTokens) := by
    intro r
    rw [flatMap_map]
    rfl
  have providers : ∀ r : Registry,
      (r.services.values.filterMap fun d => if d.kind = .provider then d.stringProperty? "name" else none) =
        ((r.definitions .service).values.map (·.unowned)).filterMap
          fun d => if d.kind = .provider then d.stringProperty? "name" else none := by
    intro r
    rw [filterMap_map]
    rfl
  rw [providedTokens, providedTokens, modules, modules, providers, providers, values_map_unowned same,
    values_map_unowned same]

theorem contains_services_congr : r'.services.contains = r.services.contains := by
  funext name
  exact same.isSome_get? .service name

theorem isProvided_congr : isProvided r' = isProvided r := by
  funext name
  rw [isProvided, isProvided, providedTokens_congr same, contains_services_congr same]

theorem all_map_unowned : r'.all.map (·.unowned) = r.all.map (·.unowned) := by
  have elements := values_map_unowned same .element
  have directives := values_map_unowned same .directive
  have services := values_map_unowned same .service
  have modules := values_map_unowned same .module
  simp only [Registry.definitions] at elements directives services modules
  simp only [Registry.all, map_append, elements, directives, services, modules]

theorem unresolvedDependencies_congr :
    unresolvedDependencies r' = unresolvedDependencies r := by
  have unowned : ∀ r : Registry, unresolvedDependencies r =
      ((r.all.map (·.unowned)).filter fun d => d.isLocal && d.kind != .module).flatMap fun d =>
        (d.dependencies.filter fun dependency => !(isProvided r dependency.name || dependency.isOptional)).map
          (unresolvedDependency d) := by
    intro r
    rw [List.filter_map, flatMap_map]
    rfl
  rw [unowned, unowned, all_map_unowned same, isProvided_congr same]

theorem circularDependency?_congr : circularDependency? r' = circularDependency? r := by
  funext cycle
  unfold circularDependency?
  cases cycle.head? with
  | none => rfl
  | some head =>
    have equal : (r'.services.get? head).map (·.unowned) = (r.services.get? head).map (·.unowned) :=
      same.definitions .service head
    cases here : r.services.get? head with
    | none =>
      rw [here, map_none, map_eq_none_iff] at equal
      simp [equal, here]
    | some d =>
      rw [here, map_some, map_eq_some_iff] at equal
      obtain ⟨d', here', unowned⟩ := equal
      have isLocal : d'.isLocal = d.isLocal := congrArg (·.isLocal) unowned
      have file : d'.file = d.file := congrArg (·.file) unowned
      have name : d'.name = d.name := congrArg (·.name) unowned
      simp [here, here', isLocal, file, name]

theorem serviceGraph_congr : serviceGraph r' = serviceGraph r := by
  have unowned : ∀ r : Registry, serviceGraph r = ((r.definitions .service).map fun _ => Definition.unowned).map
      fun _ d => (d.dependencies.map (·.name)).filter r.services.contains := by
    intro r
    rw [SortedMap.map_map]
    rfl
  rw [unowned, unowned, same.definitions_map, contains_services_congr same]

theorem dependencyDiagnostics_congr :
    dependencyDiagnostics r' = dependencyDiagnostics r := by
  rw [dependencyDiagnostics, dependencyDiagnostics, unresolvedDependencies_congr same, serviceGraph_congr same,
    circularDependency?_congr same]

end

/-- Whether a diagnostic reports a claim to a definition of a package. -/
def AboutPackage (r : Registry) (e : Diagnostic) : Prop :=
  ∃ m kind name d owner, r.get? kind name = some d ∧ d.isLocal = false ∧
    e = Claims.ownershipDiagnostic m kind.keyword name owner

theorem aboutPackage_of_foreign? (here : r.get? kind name = some d) (packaged : d.isLocal = false)
    (found : foreign? m kind.keyword name d = some e) : AboutPackage r e := by
  unfold foreign? at found
  split at found
  · rename_i owner _
    split at found
    · cases found
    · cases found
      exact ⟨m, kind, name, d, owner, here, packaged, rfl⟩
  · cases found

/-- Registries with the same modules that differ in the owners of package definitions alone. -/
structure SameLocally (r r' : Registry) : Prop where
  same : SameButOwners r r'
  modules : r'.modules = r.modules
  own : ∀ {kind name d}, r.get? kind name = some d → d.isLocal = true → r'.get? kind name = some d

section

variable (agree : SameLocally r r')
include agree

theorem SameLocally.symm : SameLocally r' r where
  same := agree.same.symm
  modules := agree.modules.symm
  own {kind name d} here isLocal := by
    obtain ⟨old, before, unowned⟩ := agree.same.get? here
    have isLocal' : old.isLocal := (congrArg (·.isLocal) unowned).symm.trans isLocal
    have after := agree.own before isLocal'
    rw [here] at after
    exact after ▸ before

theorem SameLocally.get? (here : r'.get? kind name = some d) :
    r.get? kind name = some d ∨ d.isLocal = false := by
  cases isLocal : d.isLocal with
  | true => exact .inl (agree.symm.own here isLocal)
  | false => exact .inr rfl

theorem SameLocally.foreign?
    (found : (r'.get? kind name).bind (Wiring.foreign? m kind.keyword name) = some e) :
    (r.get? kind name).bind (Wiring.foreign? m kind.keyword name) = some e ∨ AboutPackage r' e := by
  obtain ⟨d, here, found⟩ := bind_eq_some_iff.mp found
  rcases agree.get? here with same | packaged
  · rw [same]
    exact .inl found
  · exact .inr (aboutPackage_of_foreign? here packaged found)

theorem SameLocally.moduleFindings (mem : e ∈ Wiring.moduleFindings r' m) :
    e ∈ Wiring.moduleFindings r m ∨ AboutPackage r' e := by
  simp only [Wiring.moduleFindings, mem_append, mem_filterMap] at mem ⊢
  rcases mem with (⟨service, listed, found⟩ | ⟨required, listed, found⟩) | ⟨entry, listed, found⟩
  · unfold serviceFinding? at found
    split at found
    · rename_i d here
      have found : (r'.get? .service service).bind (Wiring.foreign? m AnnotationKind.service.keyword service) = some e := by
        rw [here]
        exact found
      rcases agree.foreign? found with found | about
      · obtain ⟨d, here, found⟩ := bind_eq_some_iff.mp found
        refine .inl (.inl (.inl ⟨service, listed, ?_⟩))
        rw [serviceFinding?, here]
        exact found
      · exact .inr about
    · rename_i absent
      have absent : r.get? .service service = none := by
        have some := agree.same.isSome_get? .service service
        rw [absent] at some
        simpa using some
      refine .inl (.inl (.inl ⟨service, listed, ?_⟩))
      rw [serviceFinding?, absent]
      exact found
  · rw [requiredFinding?_congr agree.same] at found
    exact .inl (.inl (.inr ⟨required, listed, found⟩))
  · unfold selectorFinding? at found
    rw [selectorTarget?_congr agree.same] at found
    cases target : Claims.selectorTarget? r entry with
    | none =>
      rw [target] at found
      refine .inl (.inr ⟨entry, listed, ?_⟩)
      rw [selectorFinding?, target]
      exact found
    | some place =>
      rw [target] at found
      rcases agree.foreign? found with found | about
      · refine .inl (.inr ⟨entry, listed, ?_⟩)
        rw [selectorFinding?, target]
        exact found
      · exact .inr about

theorem SameLocally.findings (mem : e ∈ Wiring.findings r') :
    e ∈ Wiring.findings r ∨ AboutPackage r' e := by
  have modules : localModules r' = localModules r := by rw [localModules, localModules, agree.modules]
  have graph : moduleGraph r' = moduleGraph r := by
    rw [moduleGraph, moduleGraph, modules, agree.modules]
  have circular : circularModule? r' = circularModule? r := by
    funext cycle
    rw [circularModule?, circularModule?, agree.modules]
  simp only [Wiring.findings, modules, graph, circular, dependencyDiagnostics_congr agree.same, mem_append,
    mem_flatMap] at mem ⊢
  rcases mem with (⟨m, listed, found⟩ | circle) | dependency
  · rcases agree.moduleFindings found with found | about
    · exact .inl (.inl (.inl ⟨m, listed, found⟩))
    · exact .inr about
  · exact .inl (.inl (.inr circle))
  · exact .inl (.inr dependency)

end

end Wiring

end ComponentCompiler
