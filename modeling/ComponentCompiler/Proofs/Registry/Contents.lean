import ComponentCompiler.Proofs.Collection.SortedMap
import ComponentCompiler.Registry.Metadata

/-! What a registry holds after a registration and after the removal of a file. -/

namespace ComponentCompiler

open List SortedMap

def AnnotationKind.table : AnnotationKind → AnnotationKind
  | .provider | .pipe => .service
  | kind => kind

namespace Registry

variable {r : Registry} {d : Definition} {kind : AnnotationKind} {name : String}

theorem get?_of_table_eq {kind' : AnnotationKind} (same : kind.table = kind'.table) :
    r.get? kind name = r.get? kind' name := by
  cases kind <;> cases kind' <;> first | rfl | cases same

theorem mem_all : d ∈ r.all ↔ ∃ kind name, r.get? kind name = some d := by
  simp only [all, mem_append, mem_values_iff]
  constructor
  · rintro (((⟨name, here⟩ | ⟨name, here⟩) | ⟨name, here⟩) | ⟨name, here⟩)
    · exact ⟨.element, name, here⟩
    · exact ⟨.directive, name, here⟩
    · exact ⟨.service, name, here⟩
    · exact ⟨.module, name, here⟩
  · rintro ⟨kind, name, here⟩
    cases kind with
    | element => exact .inl (.inl (.inl ⟨name, here⟩))
    | directive => exact .inl (.inl (.inr ⟨name, here⟩))
    | service | provider | pipe => exact .inl (.inr ⟨name, here⟩)
    | module => exact .inr ⟨name, here⟩

theorem indexEntries_of (mem : entry ∈ indexEntries d) : entry.kind = d.kind ∧ entry.name = d.name := by
  unfold indexEntries at mem
  split at mem
  · split at mem
    · obtain ⟨selector, -, rfl⟩ := mem_map.mp mem
      exact ⟨rfl, rfl⟩
    · cases mem
  · cases mem

theorem definitions_withDefinitions (r : Registry) (kind other) (ds) :
    (r.withDefinitions kind ds).definitions other = if other.table = kind.table then ds else r.definitions other := by
  cases kind <;> cases other <;> rfl

theorem get?_store (r : Registry) (d) (kind) (name) :
    (r.store d).get? kind name = if kind.table = d.kind.table ∧ name = d.name then some d else r.get? kind name := by
  have stored : (r.store d).definitions kind =
      (r.withDefinitions d.kind ((r.definitions d.kind).insert d.name d)).definitions kind := by cases kind <;> rfl
  rw [get?, stored, definitions_withDefinitions]
  by_cases same : kind.table = d.kind.table
  · rw [if_pos same, get?_insert, get?_of_table_eq same]
    simp [same, get?]
  · simp [same, get?]

theorem get?_registerExternal (r : Registry) (d) (kind) (name) :
    (r.registerExternal d).get? kind name =
      if kind.table = d.kind.table ∧ name = d.name then some ((r.get? kind name).getD d) else r.get? kind name := by
  unfold registerExternal
  by_cases here : kind.table = d.kind.table ∧ name = d.name
  · rw [if_pos here, get?_of_table_eq here.1, get?_of_table_eq here.1, here.2]
    cases taken : r.get? d.kind d.name <;> simp [taken, get?_store]
  · rw [if_neg here]
    split
    · rfl
    · rw [get?_store, if_neg here]

theorem registry_register (r : Registry) (d) : (r.register d).registry = r.registerExternal d := by
  unfold register registerExternal
  cases r.get? d.kind d.name <;> rfl

theorem accepted_register (r : Registry) (d) :
    (r.register d).accepted = (r.get? d.kind d.name).isNone := by
  unfold register
  cases r.get? d.kind d.name <;> rfl

theorem of_get?_registerExternal (here : (r.registerExternal d).get? kind name = some e) :
    r.get? kind name = some e ∨ r.get? d.kind d.name = none ∧ e = d := by
  rw [get?_registerExternal] at here
  split at here
  · rename_i same
    rw [← get?_of_table_eq same.1, ← same.2]
    cases taken : r.get? kind name <;> simp_all
  · exact .inl here

theorem get?_withOutput (r : Registry) (output : TargetOutput) (kind : AnnotationKind) (name : String) :
    ({ r with output := output } : Registry).get? kind name = r.get? kind name := by
  cases kind <;> rfl

theorem registerMetadataEntry_eq (package) (r) (entry) :
    ∃ output, registerMetadataEntry package r entry =
      ({ r with output := output } : Registry).registerExternal (externalDefinition package entry.1 entry.2) := by
  unfold registerMetadataEntry
  split
  · exact ⟨_, rfl⟩
  · exact ⟨r.output, rfl⟩

theorem registerMetadata_induct {P : Registry → Prop} (start : P r)
    (step : ∀ r output d, P r → P (({ r with output := output } : Registry).registerExternal d)) (package) (m) :
    P (r.registerMetadata package m) := by
  unfold registerMetadata
  induction m.entries generalizing r with
  | nil => exact start
  | cons entry rest ih =>
    obtain ⟨output, same⟩ := registerMetadataEntry_eq package r entry
    rw [foldl_cons, same]
    exact ih (step r output _ start)

theorem of_get?_registerMetadata (here : (r.registerMetadata package m).get? kind name = some d) :
    r.get? kind name = some d ∨ ∃ entry ∈ m.entries, d = externalDefinition package entry.1 entry.2 := by
  unfold registerMetadata at here
  generalize m.entries = entries at here
  induction entries generalizing r with
  | nil => exact .inl here
  | cons entry rest ih =>
    rcases ih here with before | ⟨later, mem, same⟩
    · obtain ⟨output, step⟩ := registerMetadataEntry_eq package r entry
      rw [step] at before
      rcases of_get?_registerExternal before with old | ⟨-, rfl⟩
      · exact .inl (get?_withOutput r output kind name ▸ old)
      · exact .inr ⟨entry, mem_cons_self, rfl⟩
    · exact .inr ⟨later, mem_cons_of_mem _ mem, same⟩

theorem get?_deregisterFile (r : Registry) (file) (kind) (name) :
    (r.deregisterFile file).1.get? kind name =
      (r.get? kind name).filter fun d => !(d.isLocal && d.file == file) := by
  have removed : (r.deregisterFile file).1.definitions kind = withoutFile file (r.definitions kind) := by
    cases kind <;> rfl
  rw [get?, removed, withoutFile, get?_filter, get?]

theorem of_get?_deregisterFile (here : (r.deregisterFile file).1.get? kind name = some d) :
    r.get? kind name = some d ∧ (d.package = none → d.file ≠ file) := by
  rw [get?_deregisterFile, Option.filter_eq_some_iff] at here
  refine ⟨here.1, fun unpackaged same => ?_⟩
  simp [Definition.isLocal, unpackaged, same] at here

theorem mem_declaredIn :
    (kind, name) ∈ declaredIn file ds ↔
      ∃ d, ds.get? name = some d ∧ d.kind = kind ∧ (d.isLocal && d.file == file) := by
  simp only [declaredIn, mem_map, mem_filter, toList, get?_eq_some_iff, Prod.mk.injEq]
  constructor
  · rintro ⟨⟨name', d⟩, ⟨mem, gone⟩, rfl, rfl⟩
    exact ⟨d, mem, rfl, gone⟩
  · rintro ⟨d, mem, rfl, gone⟩
    exact ⟨(name, d), ⟨mem, gone⟩, rfl, rfl⟩

structure Coherent (r : Registry) : Prop where
  own : ∀ {kind name d}, r.get? kind name = some d → d.kind.table = kind.table ∧ d.name = name
  index : ∀ {entry}, entry ∈ r.index ↔ ∃ d, r.get? entry.kind entry.name = some d ∧ entry ∈ indexEntries d

theorem coherent_empty : Coherent {} where
  own {kind _ _} here := by cases kind <;> cases here
  index {entry} := by
    constructor
    · intro mem
      cases mem
    · rintro ⟨d, here, -⟩
      cases kind : entry.kind <;> rw [kind] at here <;> cases here

theorem Coherent.mem_index (coherent : r.Coherent) : entry ∈ r.index ↔ ∃ d ∈ r.all, entry ∈ indexEntries d := by
  rw [coherent.index]
  constructor
  · rintro ⟨d, here, listed⟩
    exact ⟨d, mem_all.mpr ⟨entry.kind, entry.name, here⟩, listed⟩
  · rintro ⟨d, mem, listed⟩
    obtain ⟨kind, name, here⟩ := mem_all.mp mem
    obtain ⟨same, rfl⟩ := coherent.own here
    obtain ⟨kind', name'⟩ := indexEntries_of listed
    exact ⟨d, by rw [kind', name', get?_of_table_eq same, here], listed⟩

theorem Coherent.of_eq {r' : Registry} (coherent : r.Coherent)
    (same : ∀ kind name, r'.get? kind name = r.get? kind name) (index : r'.index = r.index) : r'.Coherent where
  own here := coherent.own (same _ _ ▸ here)
  index := by simp only [same, index]; exact coherent.index

theorem Coherent.registerExternal (coherent : r.Coherent) (d) : (r.registerExternal d).Coherent := by
  by_cases taken : (r.get? d.kind d.name).isSome
  · rwa [Registry.registerExternal, if_pos taken]
  · rw [Registry.registerExternal, if_neg taken]
    refine ⟨?_, ?_⟩
    · intro kind name e here
      rw [get?_store] at here
      split at here
      · rename_i same
        cases here
        exact ⟨same.1.symm, same.2.symm⟩
      · exact coherent.own here
    · intro entry
      rw [get?_store, show (r.store d).index = r.index ++ indexEntries d from rfl, mem_append, coherent.index]
      by_cases here : entry.kind.table = d.kind.table ∧ entry.name = d.name
      · -- the name was free, so that no entry was listed under it
        have free : r.get? entry.kind entry.name = none := by
          rw [get?_of_table_eq here.1, here.2]
          simpa using taken
        rw [if_pos here, free]
        simp
      · have other : entry ∉ indexEntries d := fun mem =>
          here ⟨congrArg AnnotationKind.table (indexEntries_of mem).1, (indexEntries_of mem).2⟩
        simp [here, other]

theorem Coherent.registerMetadata (coherent : r.Coherent) (package) (m) : (r.registerMetadata package m).Coherent :=
  registerMetadata_induct coherent (fun r output _ known => (known.of_eq (get?_withOutput r output) rfl).registerExternal _)
    package m

theorem Coherent.mem_removed (coherent : r.Coherent) : (kind, name) ∈ (r.deregisterFile file).2 ↔
    ∃ d, r.get? kind name = some d ∧ d.kind = kind ∧ (d.isLocal && d.file == file) := by
  have among (table : AnnotationKind) {d : Definition} (here : r.get? table name = some d) (same : d.kind = kind) :
      r.get? kind name = some d := by
    rw [← same, get?_of_table_eq (coherent.own here).1]
    exact here
  simp only [Registry.deregisterFile, mem_append, mem_declaredIn]
  constructor
  · rintro (((⟨d, here, same, gone⟩ | ⟨d, here, same, gone⟩) | ⟨d, here, same, gone⟩) | ⟨d, here, same, gone⟩)
    · exact ⟨d, among .element here same, same, gone⟩
    · exact ⟨d, among .directive here same, same, gone⟩
    · exact ⟨d, among .service here same, same, gone⟩
    · exact ⟨d, among .module here same, same, gone⟩
  · rintro ⟨d, here, same, gone⟩
    cases kind with
    | element => exact .inl (.inl (.inl ⟨d, here, same, gone⟩))
    | directive => exact .inl (.inl (.inr ⟨d, here, same, gone⟩))
    | service | provider | pipe => exact .inl (.inr ⟨d, here, same, gone⟩)
    | module => exact .inr ⟨d, here, same, gone⟩

theorem Coherent.deregisterFile (coherent : r.Coherent) (file) : (r.deregisterFile file).1.Coherent := by
  refine ⟨fun here => coherent.own (of_get?_deregisterFile here).1, ?_⟩
  intro entry
  have kept : entry ∈ (r.deregisterFile file).1.index ↔
      entry ∈ r.index ∧ (entry.kind, entry.name) ∉ (r.deregisterFile file).2 := by
    rw [show (r.deregisterFile file).1.index =
      r.index.filter fun entry => !(r.deregisterFile file).2.contains (entry.kind, entry.name) from rfl]
    simp
  rw [kept, coherent.index, coherent.mem_removed, get?_deregisterFile]
  constructor
  · rintro ⟨⟨d, here, listed⟩, stays⟩
    refine ⟨d, ?_, listed⟩
    rw [here, Option.filter_some, if_pos]
    simp only [Bool.not_eq_true']
    exact Bool.eq_false_iff.mpr fun gone => stays ⟨d, here, (indexEntries_of listed).1.symm, gone⟩
  · rintro ⟨d, here, listed⟩
    obtain ⟨before, stays⟩ := Option.filter_eq_some_iff.mp here
    refine ⟨⟨d, before, listed⟩, ?_⟩
    rintro ⟨d', before', -, gone⟩
    cases before.symm.trans before'
    simp [gone] at stays

end Registry

end ComponentCompiler
