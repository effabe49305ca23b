import ComponentCompiler.Proofs.Build.Passes
import ComponentCompiler.Proofs.Graph.Provenance

/-!
The references to providers in the annotations of elements. Main statement:
`BuildTarget.build?_supplies_providers`.
-/

namespace ComponentCompiler

open Option FileGraph Registry

/-! ### Loaded tables -/

namespace FileGraph

variable {g : FileGraph}

/-- Whoever loads the first table has the second: the main table is always there, and a chunk is loaded with the
chunks that it depends on. -/
def Loads (g : FileGraph) : Option Nat → Option Nat → Prop
  | _, none => True
  | none, some _ => False
  | some root, some other => Relation.ReflTransGen (fun chunk next => next ∈ g.chunkDependencies chunk) root other

theorem loads_self (g : FileGraph) (table) : g.Loads table table := by
  cases table with
  | none => trivial
  | some root => exact .refl

theorem Loads.trans (first : g.Loads a b) (second : g.Loads b c) : g.Loads a c := by
  cases c with
  | none => trivial
  | some last =>
    cases b with
    | none => exact second.elim
    | some middle =>
      cases a with
      | none => exact first.elim
      | some root => exact Relation.ReflTransGen.trans first second

theorem Isolated.loads (isolated : g.Isolated) (compiled : ∀ {i r}, g.get? i = some r → r.isCompiled)
    (reaches : Relation.ReflTransGen g.Imports i j) (first : g.get? i = some r) (last : g.get? j = some q) :
    g.Loads r.lazyRoot q.lazyRoot := by
  induction reaches generalizing q with
  | refl =>
    cases first.symm.trans last
    exact loads_self g _
  | @tail k j _ step ih =>
    obtain ⟨r', there, leads⟩ := step
    refine (ih there).trans ?_
    obtain ⟨q', held, allowed⟩ := isolated k r' j there leads
    cases last.symm.trans held
    cases chunk : q.lazyRoot with
    | none => cases r'.lazyRoot <;> trivial
    | some other =>
      cases own : r'.lazyRoot with
      | none =>
        rw [chunk, own] at allowed
        exact allowed
      | some root =>
        by_cases same : other = root
        · rw [same]
          exact .refl
        · have file := mem_chunkFiles.mpr ⟨mem_records_iff.mpr ⟨k, there⟩, own, compiled there⟩
          exact .single (mem_chunkDependencies.mpr ⟨same, r', file, j, q, leads, last, chunk⟩)

end FileGraph

/-! ### Objects of elements -/

namespace GenerationContext

variable {c : GenerationContext} {r : FileRecord} {m : SourceModule} {d : Definition} {t : CompiledTemplate}

def references (c : GenerationContext) (r : FileRecord) (m : SourceModule) (t : CompiledTemplate) : List String :=
  (SortedSet.toList t.providers).filterMap fun p => (c.providerReference r m p).toOption

theorem elementMembers_template (template : c.registry.output.templates.get? d.name = some t) :
    (c.references r m t ≠ [] →
      ("providers", Script.Writer.list (c.references r m t)) ∈ (c.elementMembers r m d).1) ∧
    ∀ p e, t.providers.contains p → c.providerReference r m p = .error (some e) →
      e ∈ (c.elementMembers r m d).2 := by
  have same (ok : Except (Option Diagnostic) String → Option String)
      (some : ∀ reference, ok (.ok reference) = .some reference) (none : ∀ e, ok (.error e) = .none) :
      ((SortedSet.toList t.providers).map (c.providerReference r m)).filterMap ok = c.references r m t := by
    rw [List.filterMap_map]
    unfold references
    congr 1
    funext p
    dsimp only [Function.comp]
    cases c.providerReference r m p with
    | ok reference => exact some reference
    | error e => exact none e
  unfold elementMembers
  rw [template]
  dsimp only
  refine ⟨?_, ?_⟩
  · intro listed
    rw [same _ (fun _ => rfl) (fun _ => rfl), nonemptyMember, if_neg (by simpa using listed)]
    simp
  · intro p e asked refused
    refine List.mem_append_left _ (List.mem_filterMap.mpr ⟨.error (some e), ?_, rfl⟩)
    exact List.mem_map.mpr ⟨p, SortedSet.mem_toList.mpr asked, refused⟩

theorem annotationEdits_element {block : AnnotationBlock} (kind : block.kind = .element)
    (here : c.registry.get? .element block.name = some d) (own : d.file = r.key) (element : d.kind = .element)
    (name : d.name = block.name) (template : c.registry.output.templates.get? block.name = some t) :
    (∃ members, (annotationEdits c r m block).1 = [.removal block.call, .insertion block.implementation.stop
        ("\n" ++ block.name ++ ".annotations = " ++ Script.Writer.object members ++ ";")] ∧
      (c.references r m t ≠ [] → ("providers", Script.Writer.list (c.references r m t)) ∈ members)) ∧
    ∀ p e, t.providers.contains p → c.providerReference r m p = .error (some e) →
      e ∈ (annotationEdits c r m block).2 := by
  obtain ⟨listed, reported⟩ := elementMembers_template (r := r) (m := m) (name ▸ template)
  unfold annotationEdits annotationObject
  rw [kind, here]
  simp only [own, bne_self_eq_false, Bool.false_eq_true, if_false, element, if_true]
  exact ⟨⟨_, rfl, fun some => List.mem_append_right _ (listed some)⟩, reported⟩

theorem generate_of_surface (surface : r.surface = some m) : ∃ module, r.generate c = some module ∧
    module.diagnostics = m.annotations.flatMap fun block => (annotationEdits c r m block).2 := by
  rw [FileRecord.generate, surface]
  exact ⟨_, rfl, rfl⟩

/-! ### Providers -/

variable {p : String}

theorem providerReference_bound (declared : m.declarations.contains p) : c.providerReference r m p = .ok p := by
  unfold providerReference
  rw [if_pos declared]

variable (free : m.declarations.contains p = false) (here : c.registry.provider? p = some d)
include free here

theorem providerReference_hidden (unpackaged : d.package = none) (hidden : d.exported = false) :
    c.providerReference r m p = .error (some (notExportedProvider r d p)) := by
  unfold provider? at here
  simp [providerReference, free, here, unpackaged, hidden]

theorem providerReference_local (unpackaged : d.package = none) (exported : d.exported)
    (file : c.graph.lookup? ⟨d.file⟩ = some i) : c.providerReference r m p = .ok (Loader.member i p) := by
  unfold provider? at here
  simp [providerReference, free, here, unpackaged, exported, file]

variable (application : c.library = false) {name : String} {package : PackageImport}
  (packaged : d.package = some name) (known : c.registry.packages.get? name = some package)
include application packaged known

theorem providerReference_package (entry : c.graph.lookup? package.entry = some i) :
    c.providerReference r m p = .ok (Loader.member i p) := by
  unfold provider? at here
  simp [providerReference, free, here, packaged, known, application, entry]

theorem providerReference_dropped (absent : c.graph.lookup? package.entry = none) :
    c.providerReference r m p = .error none := by
  unfold provider? at here
  simp [providerReference, free, here, packaged, known, application, absent]

end GenerationContext

theorem Registry.get?_of_provider? {r : Registry} (here : r.provider? name = some d) :
    ∃ kind, r.get? kind name = some d := by
  unfold provider? at here
  rcases or_eq_some_iff.mp here with first | ⟨-, service⟩
  · rcases or_eq_some_iff.mp first with element | ⟨-, directive⟩
    · exact ⟨.element, element⟩
    · exact ⟨.directive, directive⟩
  · exact ⟨.service, service⟩

namespace Session

variable {tree : FileTree} {s s' : Session} {r : FileRecord} {m : SourceModule} {p : String}

def context (s : Session) : GenerationContext := ⟨s.graph, s.registry, s.library⟩

inductive Supplied (s : Session) (r : FileRecord) (m : SourceModule) (p : String) : Prop where
  /-- The name is bound in the file itself. -/
  | bound (declared : m.declarations.contains p = true) (reference : s.context.providerReference r m p = .ok p)
  /-- The provider is an export of the file that declares it. -/
  | file {d i f own} (here : s.registry.provider? p = some d) (unpackaged : d.package = none)
      (present : s.graph.get? i = some f) (surface : f.surface = some own) (declared : Declares f own d.unowned)
      (exported : { bound := p, exported := p } ∈ own.exports)
      (reference : f.path.text = f.key → s.context.providerReference r m p = .ok (Loader.member i p))
  /-- The provider is asked of the entry file of its package. -/
  | package {d name package i f} (here : s.registry.provider? p = some d) (packaged : d.package = some name)
      (known : s.registry.packages.get? name = some package) (present : s.graph.get? i = some f)
      (entry : f.path.components = package.entry.components)
      (reference : s.context.providerReference r m p = .ok (Loader.member i p))
  /-- The entry file of the package is not among the files, and no reference is written. -/
  | dropped {d name package} (here : s.registry.provider? p = some d) (packaged : d.package = some name)
      (known : s.registry.packages.get? name = some package)
      (absent : ∀ f ∈ s.graph.records, f.path.components ≠ package.entry.components)
      (reference : s.context.providerReference r m p = .error none)

/-! ### After the passes -/

theorem fatal_not_mem_passCodes (fatal : code ∈ fatalCodes) : code ∉ passCodes := by
  revert code
  decide

theorem exported_of_surface? (loaded : tree.surface? path = some m) (mem : block ∈ m.annotations)
    (exported : block.exported) : { bound := block.name, exported := block.name } ∈ m.exports := by
  obtain ⟨_, _, extracted⟩ := extracted_of_surface? loaded
  exact (SourceModule.sound_of_extract extracted).listed _ mem exported

section Passes

variable (passes : Passes s s')
include passes

theorem Passes.get? (here : s'.registry.get? kind name = some d) :
    ∃ old, s.registry.get? kind name = some old ∧ d.unowned = old.unowned := by
  have same := passes.definitions kind name
  rw [here] at same
  obtain ⟨old, before, equal⟩ := map_eq_some_iff.mp same.symm
  exact ⟨old, before, equal.symm⟩

theorem Passes.coherent (coherent : s.graph.Coherent) : s'.graph.Coherent where
  ids {i r} held := by
    obtain ⟨old, output, before, rfl⟩ := get?_of_unwritten (passes.records i) held
    exact (coherent.ids before :)
  clean {i r} held := by
    obtain ⟨old, output, before, rfl⟩ := get?_of_unwritten (passes.records i) held
    exact (coherent.clean before :)
  index {p i} := by
    rw [passes.links, coherent.index]
    constructor
    · rintro ⟨old, before, same⟩
      obtain ⟨r, output, held, rfl⟩ := get?_of_unwritten (passes.records i).symm before
      exact ⟨r, held, same⟩
    · rintro ⟨r, held, same⟩
      obtain ⟨old, output, before, rfl⟩ := get?_of_unwritten (passes.records i) held
      exact ⟨old, before, same⟩

theorem Passes.own (coherent : s.registry.Coherent) (here : s'.registry.get? kind name = some d) :
    d.kind.table = kind.table ∧ d.name = name := by
  obtain ⟨old, before, unowned⟩ := passes.get? here
  obtain ⟨kinds, names⟩ := coherent.own before
  rw [← kinds, ← names]
  exact ⟨congrArg (·.kind.table) unowned, congrArg (·.name) unowned⟩

theorem Passes.isolated (isolated : s.graph.Isolated) : s'.graph.Isolated := by
  intro i r target held leads
  obtain ⟨old, output, before, rfl⟩ := get?_of_unwritten (passes.records i) held
  obtain ⟨q, there, allowed⟩ := isolated i old target before leads
  obtain ⟨q', output', held', rfl⟩ := get?_of_unwritten (passes.records target).symm there
  exact ⟨q', held', allowed⟩

theorem Passes.compiled (reported : FailuresReported s) (settled : SettledFrom tree 0 s)
    (clean : s'.log.isEmpty) (held : s'.graph.get? i = some r) : r.isCompiled := by
  obtain ⟨old, output, before, rfl⟩ := get?_of_unwritten (passes.records i) held
  change old.isCompiled
  cases (settled i old (Nat.zero_le i) before).outcome with
  | failed _ record =>
    obtain ⟨d, here, fatal⟩ := reported i old before (congrArg FileRecord.state record)
    have kept := passes.log d d.file (fatal_not_mem_passCodes fatal) here
    rw [DiagnosticLog.forFile_of_isEmpty clean] at kept
    cases kept
  | compiled _ _ record _ =>
    rw [FileRecord.isCompiled, congrArg FileRecord.state record]
    cases old.package.isSome <;> rfl

theorem Passes.declaring_file (ledger : Ledger past s) (settled : SettledFrom tree 0 s)
    (here : s'.registry.get? kind name = some d) (unpackaged : d.package = none) :
    ∃ i r m, s'.graph.get? i = some r ∧ r.surface = some m ∧ tree.surface? r.path = some m ∧
      Declares r m d.unowned := by
  obtain ⟨old, before, unowned⟩ := passes.get? here
  have outside : old.package = none := (congrArg Definition.package unowned).symm.trans unpackaged
  obtain ⟨a, mem, m, surface, declared, -⟩ := (ledger.backed before).local_file outside
  obtain ⟨i, there⟩ := mem_records_iff.mp mem
  obtain ⟨-, loaded⟩ := (settled i a (Nat.zero_le i) there).of_surface surface
  obtain ⟨r, output, held, rfl⟩ := get?_of_unwritten (passes.records i).symm there
  have kept : d.unowned = old := by
    obtain ⟨block, -, rfl⟩ := declared
    exact unowned
  exact ⟨i, r, m, held, surface, loaded, kept ▸ declared.of_blank_eq rfl⟩

theorem Passes.package (ledger : Ledger past s) {package : String} (here : s'.registry.get? kind name = some d)
    (packaged : d.package = some package) : ∃ known, s'.registry.packages.get? package = some known := by
  obtain ⟨old, before, unowned⟩ := passes.get? here
  rw [passes.packages, ← isSome_iff_exists]
  exact ledger.known before ((congrArg Definition.package unowned).symm.trans packaged)

theorem Passes.supplied (coherent : s.graph.Coherent) (ledger : Ledger past s) (settled : SettledFrom tree 0 s)
    (application : s.library = false) (known : (s'.registry.provider? p).isSome)
    (unreported : ∀ e, s'.context.providerReference r m p ≠ .error (some e)) : Supplied s' r m p := by
  cases declared : m.declarations.contains p with
  | true => exact .bound declared (GenerationContext.providerReference_bound declared)
  | false =>
    obtain ⟨d, here⟩ := isSome_iff_exists.mp known
    obtain ⟨kind, registered⟩ := get?_of_provider? here
    cases packaged : d.package with
    | none =>
      cases exported : d.exported with
      | false =>
        exact absurd (GenerationContext.providerReference_hidden declared here packaged exported) (unreported _)
      | true =>
        obtain ⟨i, f, own, held, surface, loaded, declares⟩ :=
          passes.declaring_file ledger settled registered packaged
        refine .file here packaged held surface declares ?_ ?_
        · obtain ⟨block, mem, same⟩ := declares
          have name := (congrArg Definition.name same).symm.trans (passes.own ledger.coherent registered).2
          rw [← name]
          exact exported_of_surface? loaded mem ((congrArg Definition.exported same).symm.trans exported)
        · intro plain
          refine GenerationContext.providerReference_local declared here packaged exported ?_
          have file : d.file = f.key := declares.frame.1
          have found := (passes.coherent coherent).lookup?_path held
          rw [file, ← plain]
          exact found
    | some name =>
      obtain ⟨package, known⟩ := passes.package ledger registered packaged
      have application : s'.library = false := passes.library.trans application
      cases entry : s'.graph.lookup? package.entry with
      | none =>
        refine .dropped here packaged known ?_
          (GenerationContext.providerReference_dropped declared here application packaged known entry)
        intro f mem same
        obtain ⟨i, held⟩ := mem_records_iff.mp mem
        have found := (passes.coherent coherent).index.mpr ⟨f, held, same⟩
        rw [entry] at found
        cases found
      | some i =>
        obtain ⟨f, held, same⟩ := (passes.coherent coherent).index.mp entry
        exact .package here packaged known held same
          (GenerationContext.providerReference_package declared here application packaged known entry)

open GenerationContext in
theorem Passes.annotates (ledger : Ledger past s) (settled : SettledFrom tree 0 s)
    (template : s'.registry.output.templates.get? element = some t) :
    ∃ i r m block, s'.graph.get? i = some r ∧ r.surface = some m ∧ block ∈ m.annotations ∧
      (∃ members, (annotationEdits s'.context r m block).1 = [.removal block.call, .insertion block.implementation.stop
          ("\n" ++ element ++ ".annotations = " ++ Script.Writer.object members ++ ";")] ∧
        (s'.context.references r m t ≠ [] →
          ("providers", Script.Writer.list (s'.context.references r m t)) ∈ members)) ∧
      ∀ p e, t.providers.contains p → s'.context.providerReference r m p = .error (some e) →
        e ∈ (annotationEdits s'.context r m block).2 := by
  obtain ⟨d, here, unpackaged⟩ := passes.templates.owner template
  obtain ⟨i, r, m, held, surface, -, declares⟩ := passes.declaring_file ledger settled here unpackaged
  obtain ⟨table, name⟩ := passes.own ledger.coherent here
  have own : d.file = r.key := declares.frame.1
  obtain ⟨block, mem, same⟩ := declares
  have kind : d.kind = .element := by
    cases kind : d.kind <;> rw [kind] at table <;> first | rfl | cases table
  have label : block.name = element := (congrArg Definition.name same).symm.trans name
  subst label
  have edits := annotationEdits_element (c := s'.context) (r := r) (m := m)
    ((congrArg Definition.kind same).symm.trans kind) here own kind name template
  exact ⟨i, r, m, block, held, surface, mem, edits⟩

end Passes

end Session

namespace BuildTarget

open GenerationContext in
/-- An application that is built without a diagnostic has compiled every file. For each template there is a file of
its element whose code carries an annotation with the references to the providers of the template. Each provider is
supplied in one of the ways of `Supplied`, and what the file imports is loaded with it. A reference to a file that is
not imported may name a module that is not loaded, and the one to a package whose entry file is not among
the files is missing. -/
theorem build?_supplies_providers (projectRoot : Path) (config : ProjectConfig) (outDir : Path) (tree : FileTree)
    (entry : TargetEntry) (application : config.isLibrary = false) {result : TargetResult}
    (built : (new projectRoot config outDir tree entry).1.build? (new projectRoot config outDir tree entry).2 =
      some result) (clean : result.target.session.log.isEmpty = true) :
    let s := result.target.session
    (∀ f ∈ s.graph.records, f.isCompiled = true) ∧
    ∀ element t, s.registry.output.templates.get? element = some t →
      ∃ r ∈ s.graph.records, ∃ m, r.surface = some m ∧ r.output = (r.generate s.context).map (·.code) ∧
        (∃ block ∈ m.annotations, ∃ members,
          (annotationEdits s.context r m block).1 = [.removal block.call, .insertion block.implementation.stop
            ("\n" ++ element ++ ".annotations = " ++ Script.Writer.object members ++ ";")] ∧
          (s.context.references r m t ≠ [] →
            ("providers", Script.Writer.list (s.context.references r m t)) ∈ members)) ∧
        (∀ p, t.providers.contains p = true → s.Supplied r m p) ∧
        ∀ i q, Relation.ReflTransGen s.graph.Imports r.id i → s.graph.get? i = some q →
          s.graph.Loads r.lazyRoot q.lazyRoot := by
  intro s
  let fresh := Session.new (.new projectRoot config) config.isLibrary config.output.globals
  obtain ⟨checks, builds⟩ := Session.compileEntry_builds
    (Session.requested_new (.new projectRoot config) config.isLibrary config.output.globals
      (new projectRoot config outDir tree entry).2) (new projectRoot config outDir tree entry).1.entry
  have coherent : fresh.graph.Coherent := Session.coherent_new _ _ _
  have settled := builds.settles coherent (Session.settledFrom_size _ fresh)
  have graph := builds.grows.coherent coherent
  rcases build?_passes built graph (builds.ledger []).coherent with same | passes
  · -- the entry is not a file, and nothing has been compiled
    have empty : s = fresh := congrArg BuildTarget.session same
    rw [empty]
    refine ⟨?_, ?_⟩
    · intro f member
      cases member
    · intro element t here
      cases here
  · have compiled {i : Nat} {r : FileRecord} (present : s.graph.get? i = some r) : r.isCompiled = true :=
      passes.compiled builds.reported settled clean present
    refine ⟨fun f member => ?_, ?_⟩
    · obtain ⟨i, present⟩ := mem_records_iff.mp member
      exact compiled present
    · intro element t template
      obtain ⟨i, r, m, block, present, surface, member, edits, refused⟩ :=
        passes.annotates (builds.ledger []) settled template
      obtain ⟨module, generated, diagnostics⟩ := generate_of_surface (c := s.context) surface
      refine ⟨r, mem_records_iff.mpr ⟨i, present⟩, m, surface, ?_, ⟨block, member, edits⟩, ?_, ?_⟩
      · rw [generated]
        exact passes.written present (compiled present) generated
      · intro p asked
        refine passes.supplied graph (builds.ledger []) settled (builds.grows.library.trans application)
          (passes.templates.known template asked) ?_
        intro e error
        have inside := passes.reported present (compiled present) generated e
          (diagnostics ▸ List.mem_flatMap.mpr ⟨block, member, refused p e asked error⟩)
        rw [DiagnosticLog.forFile_of_isEmpty clean] at inside
        cases inside
      · intro j q reaches last
        rw [(passes.coherent graph).ids present] at reaches
        exact (passes.isolated builds.isolated).loads compiled reaches present last

def pageTree : FileTree where
  entries := .ofList
    [(["w"], .directory), (["w", "src"], .directory),
      (["w", "src", "main.js"], .file (.text
        ("import './page.js';\nElement(\x7b selector: 'app-root', template: '<app-page></app-page>' \x7d)\n" ++
          "export function Root() \x7b\x7d\n"))),
      (["w", "src", "page.js"], .file (.text
        "Element(\x7b selector: 'app-page' \x7d)\nexport function Page() \x7b\x7d\n"))]

def applicationTarget (tree : FileTree) : BuildTarget × FileTree :=
  new ⟨"/w"⟩ {} ⟨"/w/dist"⟩ tree ⟨"main", ⟨"/w/src/main.js"⟩⟩

theorem pageTree_supplies_page : ∃ result, (applicationTarget pageTree).1.build? (applicationTarget pageTree).2 =
    some result ∧ result.target.session.log.isEmpty = true ∧
      ∃ r ∈ result.target.session.graph.records, ∃ m, r.surface = some m ∧
        result.target.session.Supplied r m "Page" := by
  have run : ((applicationTarget pageTree).1.build? (applicationTarget pageTree).2).any (fun result =>
      result.target.session.log.isEmpty &&
        (result.target.session.registry.output.templates.get? "Root").any (·.providers.contains "Page")) = true := by
    decide +kernel
  obtain ⟨result, built, facts⟩ := (Option.any_eq_true _ _).mp run
  obtain ⟨clean, used⟩ := Bool.and_eq_true_iff.mp facts
  obtain ⟨t, template, asked⟩ := (Option.any_eq_true _ _).mp used
  obtain ⟨r, member, m, surface, -, -, supplied, -⟩ :=
    (build?_supplies_providers ⟨"/w"⟩ {} ⟨"/w/dist"⟩ pageTree ⟨"main", ⟨"/w/src/main.js"⟩⟩ rfl built clean).2
      "Root" t template
  exact ⟨result, built, clean, r, member, m, surface, supplied "Page" asked⟩

/-- An application that imports an element from a file of a package other than its entry file. -/
def deepImportTree : FileTree where
  entries := .ofList
    [(["w"], .directory), (["w", "src"], .directory),
      (["w", "src", "main.js"], .file (.text
        ("import 'ui-kit/button.js';\nElement(\x7b selector: 'app-root', template: '<ui-button></ui-button>' \x7d)\n" ++
          "export function Root() \x7b\x7d\n"))),
      (["w", "node_modules"], .directory),
      (["w", "node_modules", "ui-kit"], .directory),
      (["w", "node_modules", "ui-kit", "index.js"], .file (.text "export \x7bButton\x7d from './button.js';\n")),
      (["w", "node_modules", "ui-kit", "button.js"], .file (.text
        "Element(\x7b selector: 'ui-button' \x7d)\nexport function Button() \x7b\x7d\n"))]

open GenerationContext in
/-- The build reports nothing, the template has a provider, and the annotation has no reference to it. -/
theorem deepImportTree_drops_provider :
    ((applicationTarget deepImportTree).1.build? (applicationTarget deepImportTree).2).map (fun result =>
      let s := result.target.session
      (s.log.isEmpty, (s.registry.output.templates.get? "Root").map (SortedSet.toList ·.providers),
        (s.graph.get? 0).bind (·.output))) =
    some (true, some ["Button"], some
      ("function (exports, __required) \x7b\n" ++
        "__required.r(exports, 'Root', function () \x7b return Root; \x7d);\n__required(1);\n\n" ++
        "function Root() \x7b\x7d\n" ++
        "Root.annotations = \x7b kind: 'Element', selector: \"app-root\", template: \x7b nodes: [" ++
        "\x7b type: 'element', name: \"ui-button\", element: \"Button\" \x7d] \x7d \x7d;\n\x7d")) := by
  -- the code is put together apart from the run, as both at once need much memory
  have run : ((applicationTarget deepImportTree).1.build? (applicationTarget deepImportTree).2).any (fun result =>
      let s := result.target.session
      (s.log.isEmpty &&
        (s.registry.output.templates.get? "Root").map (SortedSet.toList ·.providers) = some ["Button"]) &&
        (s.graph.get? 0).any fun r => r.isCompiled && r.surface.any fun m =>
          s.context.getters r m = ["__required.r(exports, 'Root', function () \x7b return Root; \x7d);"] ∧
          s.context.edits r m = [⟨⟨0, 26⟩, "__required(1);"⟩, .removal ⟨98, 105⟩, .removal ⟨27, 97⟩, .insertion 123
            ("\nRoot.annotations = \x7b kind: 'Element', selector: \"app-root\", template: \x7b nodes: [" ++
              "\x7b type: 'element', name: \"ui-button\", element: \"Button\" \x7d] \x7d \x7d;")] ∧
          m.source = "import 'ui-kit/button.js';\nElement(\x7b selector: 'app-root', " ++
            "template: '<ui-button></ui-button>' \x7d)\nexport function Root() \x7b\x7d\n") = true := by
    decide +kernel
  obtain ⟨result, built, facts⟩ := (Option.any_eq_true _ _).mp run
  simp only [Bool.and_eq_true, Option.any_eq_true, decide_eq_true_eq] at facts
  obtain ⟨⟨clean, providers⟩, r, present, compiled, m, surface, getters, edits, source⟩ := facts
  obtain ⟨_, builds⟩ := Session.compileEntry_builds (Session.requested_new _ _ _ (applicationTarget deepImportTree).2)
    (applicationTarget deepImportTree).1.entry
  have output : r.output = (r.generate result.target.session.context).map (·.code) := by
    rcases build?_passes built (builds.grows.coherent (Session.coherent_new _ _ _)) (builds.ledger []).coherent with
      same | passes
    · rw [same] at present
      cases present
    · obtain ⟨module, generated, -⟩ := generate_of_surface surface
      rw [generated]
      exact passes.written present compiled generated
  rw [FileRecord.generate, surface, map_some, map_some, body, getters, edits, source] at output
  rw [built, map_some]
  simp only [clean, providers, present, bind_some, output]
  decide +kernel

end BuildTarget

end ComponentCompiler
