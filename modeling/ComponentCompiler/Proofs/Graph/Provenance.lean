import ComponentCompiler.Proofs.Graph.Enrolment

/-!
Where the definitions of a registry come from. A file that fails gives back what it registered
before its imports were followed. Main statement: `compileEntry_definitions_stem`.
-/

namespace ComponentCompiler.Session

open Registry

variable {tree : FileTree} {built s : Session} {r : FileRecord} {d : Definition}

def StemsFrom (tree : FileTree) (r : FileRecord) (d : Definition) : Prop :=
  ∃ m, tree.surface? r.path = some m ∧ Declares r m d

section

variable (ledger : Ledger ⟨tree, built, []⟩ s) (settled : SettledFrom tree 0 s)
include ledger settled

theorem Ledger.local_stems (mem : d ∈ s.registry.all) (unpackaged : d.package = none) :
    ∃ r ∈ s.graph.records, r.isCompiled ∧ StemsFrom tree r d ∧ (d.kind, d.name) ∈ r.annotations := by
  obtain ⟨kind, name, here⟩ := mem_all.mp mem
  obtain ⟨r, inside, m, surface, declared, listed⟩ := (ledger.backed here).local_file unpackaged
  obtain ⟨i, held⟩ := FileGraph.mem_records_iff.mp inside
  obtain ⟨compiled, loaded⟩ := (settled i r (Nat.zero_le i) held).of_surface surface
  exact ⟨r, inside, compiled, ⟨m, loaded, declared⟩, listed⟩

theorem Ledger.package_stems (mem : d ∈ s.registry.all) (packaged : d.package = some name) :
    (s.library = false ∧ ∃ r ∈ s.graph.records, (r.isCompiled ∨ r.state = .failed) ∧ r.package = some name ∧
      StemsFrom tree r d) ∨
    ∃ info m, s.resolver.package? tree name = some info ∧ info.loadMetadata tree = some m ∧
      ∃ declared ∈ m.entries, d = externalDefinition name declared.1 declared.2 := by
  obtain ⟨kind, key, here⟩ := mem_all.mp mem
  cases ledger.backed here with
  | @file r m inside surface declared _ =>
    obtain ⟨i, held⟩ := FileGraph.mem_records_iff.mp inside
    obtain ⟨compiled, loaded⟩ := (settled i r (Nat.zero_le i) held).of_surface surface
    have package := declared.frame.2.symm.trans packaged
    exact .inl ⟨(ledger.admitted inside name package).1, r, inside, .inl compiled, package, m, loaded, declared⟩
  | @former r t m inside _ read loaded declared gone =>
    have package := declared.frame.2.symm.trans packaged
    rcases gone with failed | ⟨_, edited, -⟩
    · cases List.mem_singleton.mp read
      exact .inl ⟨(ledger.admitted inside name package).1, r, inside, .inr failed, package, m, loaded, declared⟩
    · cases edited
  | metadata read described =>
    obtain ⟨other, info, m, found, loaded, entry, inside, rfl⟩ := described
    cases packaged
    cases List.mem_singleton.mp read
    exact .inr ⟨info, m, found, loaded, entry, inside, rfl⟩

theorem Ledger.not_stemsFrom (mem : r ∈ s.graph.records) (state : r.state = .failed)
    (outside : s.library ∨ r.package = none) (apart : ∀ other ∈ s.graph.records, other.key = r.key → other = r)
    (registered : d ∈ s.registry.all) : ¬StemsFrom tree r d := by
  rintro ⟨m, -, declared⟩
  have unpackaged : r.package = none := by
    rcases outside with library | unpackaged
    · refine Option.eq_none_iff_forall_ne_some.mpr fun name package => ?_
      rw [(ledger.admitted mem name package).1] at library
      cases library
    · exact unpackaged
  obtain ⟨other, inside, compiled, ⟨_, -, declared'⟩, -⟩ :=
    ledger.local_stems settled registered (declared.frame.2.trans unpackaged)
  cases apart other inside (declared'.frame.1.symm.trans declared.frame.1)
  simp [FileRecord.isCompiled, state] at compiled

end

/-- After a build of a new session, a local definition stems from a compiled file that lists it, and a definition of
a package from the description of the package or, in an application, from a file of the package, which may have
failed. The selector index has the selectors of these definitions and no others. So a failed file that belongs to no
package has no definition in the registry, unless another file has its key. -/
theorem compileEntry_definitions_stem (resolver : Resolver) (library : Bool) (globals : SortedMap String String)
    (tree : FileTree) (entry : Path) :
    let s := ((new resolver library globals).compileEntry tree entry).1
    (∀ d ∈ s.registry.all, d.package = none →
      ∃ r ∈ s.graph.records, r.isCompiled ∧ StemsFrom tree r d ∧ (d.kind, d.name) ∈ r.annotations) ∧
    (∀ d ∈ s.registry.all, ∀ name, d.package = some name →
      (library = false ∧ ∃ r ∈ s.graph.records, (r.isCompiled ∨ r.state = .failed) ∧ r.package = some name ∧
        StemsFrom tree r d) ∨
      ∃ info m, resolver.package? tree name = some info ∧ info.loadMetadata tree = some m ∧
        ∃ declared ∈ m.entries, d = externalDefinition name declared.1 declared.2) ∧
    (∀ selector, selector ∈ s.registry.index ↔ ∃ d ∈ s.registry.all, selector ∈ indexEntries d) ∧
    ∀ r ∈ s.graph.records, r.state = .failed → library = true ∨ r.package = none →
      (∀ other ∈ s.graph.records, other.key = r.key → other = r) → ∀ d ∈ s.registry.all, ¬StemsFrom tree r d := by
  intro s
  obtain ⟨checks, builds⟩ := compileEntry_builds (requested_new resolver library globals tree) entry
  have settled := builds.settles (coherent_new resolver library globals)
    (settledFrom_size tree (new resolver library globals))
  have ledger := builds.ledger []
  have mode : s.library = library := builds.grows.library
  refine ⟨fun d member => ledger.local_stems settled member, fun d member name packaged => ?_,
    fun _ => ledger.coherent.mem_index, fun r member state outside apart d registered => ?_⟩
  · have stems := ledger.package_stems settled member packaged
    rw [mode, builds.grows.resolver] at stems
    exact stems
  · exact ledger.not_stemsFrom settled member state (outside.imp_left mode.trans) apart registered

/-- A package whose file registers an element and then imports a file that is not there. -/
def brokenPackageTree : FileTree where
  entries := .ofList
    [(["w"], .directory),
      (["w", "main.js"], .file (.text "import \x7bButton\x7d from 'ui-kit';\n")),
      (["w", "node_modules"], .directory),
      (["w", "node_modules", "ui-kit"], .directory),
      (["w", "node_modules", "ui-kit", "index.js"],
        .file (.text ("import './missing.js';\nElement(\x7b selector: 'ui-button', template: '' \x7d)\n" ++
          "export function Button() \x7b\x7d\n")))]

/-- The file of the package fails, and its element stays in the registry and in the selector index. -/
theorem failed_package_keeps_element :
    let s := ((new ⟨⟨"/w"⟩, [], [⟨"/w/node_modules"⟩]⟩ false ∅).compileEntry brokenPackageTree ⟨"/w/main.js"⟩).1
    (s.graph.records.map fun r => (r.key, r.state)) =
        [("/w/main.js", .compiled), ("/w/node_modules/ui-kit/index.js", .failed)] ∧
      (s.registry.all.map fun d => (d.kind, d.name, d.file, d.package)) =
        [(.element, "Button", "/w/node_modules/ui-kit/index.js", some "ui-kit")] ∧
      (s.registry.index.map fun entry => (entry.text, entry.name)) = [("ui-button", "Button")] := by
  decide +kernel

end ComponentCompiler.Session
