import ComponentCompiler.Build.Target
import ComponentCompiler.Proofs.Diagnostic.Log
import ComponentCompiler.Proofs.Graph.Records
import ComponentCompiler.Proofs.Template.Providers
import ComponentCompiler.Proofs.Wiring.Claims

/-!
What the passes of a build leave of the session that they start from. Main statement:
`BuildTarget.build?_passes`.
-/

namespace ComponentCompiler

open List Option SortedMap FileGraph

namespace Session

variable {s s' : Session} {d : Definition}
variable {codes : List DiagnosticCode} {log log' : DiagnosticLog}

/-! ### Styles and templates -/

/-- The second log has every diagnostic of the first that carries none of the codes. -/
def KeepsBut (codes : List DiagnosticCode) (log log' : DiagnosticLog) : Prop :=
  ∀ d file, d.code ∉ codes → d ∈ log.forFile file → d ∈ log'.forFile file

theorem KeepsBut.mono (kept : KeepsBut codes log log') (sub : codes ⊆ codes') : KeepsBut codes' log log' :=
  fun d file other here => kept d file (fun inside => other (sub inside)) here

theorem KeepsBut.trans (first : KeepsBut codes log log') (second : KeepsBut codes log' log'') :
    KeepsBut codes log log'' :=
  fun d file other here => second d file other (first d file other here)

theorem keepsBut_extend (codes) (log) (ds) :
    KeepsBut codes log (log.extend ds) :=
  fun _ _ _ here => DiagnosticLog.mem_forFile_extend.mpr (.inl here)

theorem keepsBut_clearCodes (codes) (log) :
    KeepsBut codes log (log.clearCodes codes) := by
  intro d file other here
  rw [DiagnosticLog.forFile_clearCodes, DiagnosticLog.mem_without]
  exact ⟨here, other⟩

/-- Sessions that differ only in the log and in what is collected beside the definitions. -/
def SameButOutput (s s' : Session) : Prop :=
  ∃ log output, KeepsBut templateCodes s.log log ∧
    s' = { s with log := log, registry := { s.registry with output := output } }

theorem SameButOutput.refl (s) : SameButOutput s s :=
  ⟨s.log, s.registry.output, fun _ _ _ here => here, rfl⟩

theorem SameButOutput.trans (first : SameButOutput s s') (second : SameButOutput s' s'') : SameButOutput s s'' := by
  obtain ⟨_, _, kept, rfl⟩ := first
  obtain ⟨log, output, kept', rfl⟩ := second
  exact ⟨log, output, kept.trans kept', rfl⟩

theorem keepsBut_validate (r) (log) :
    KeepsBut Wiring.codes log (Wiring.validate r log).2 :=
  ((keepsBut_clearCodes _ log).trans (keepsBut_extend _ _ _)).trans (keepsBut_extend _ _ _)

theorem sameButOutput_updateOutput (s) (f : TargetOutput → TargetOutput) :
    SameButOutput s (s.updateOutput f) := ⟨s.log, _, fun _ _ _ here => here, rfl⟩

theorem sameButOutput_extend (s) (ds) :
    SameButOutput s { s with log := s.log.extend ds } := ⟨_, s.registry.output, keepsBut_extend _ _ ds, rfl⟩

structure TemplatesSound (s : Session) : Prop where
  owner : ∀ {name t}, s.registry.output.templates.get? name = some t →
    ∃ d, s.registry.get? .element name = some d ∧ d.package = none
  known : ∀ {name t}, s.registry.output.templates.get? name = some t →
    ∀ {p}, t.providers.contains p = true → (s.registry.provider? p).isSome

theorem SameButOutput.get? (same : SameButOutput s s') (kind) (name) :
    s'.registry.get? kind name = s.registry.get? kind name := by
  obtain ⟨_, output, -, rfl⟩ := same
  exact Registry.get?_withOutput s.registry output kind name

theorem SameButOutput.coherent (same : SameButOutput s s') (coherent : s.registry.Coherent) :
    s'.registry.Coherent := by
  refine coherent.of_eq same.get? ?_
  obtain ⟨_, _, -, rfl⟩ := same
  rfl

theorem TemplatesSound.addTemplate (sound : TemplatesSound s) (coherent : s.registry.Coherent)
    (here : s.registry.get? .element d.name = some d) (own : d.package = none)
    (compiled : Template.compile? ⟨s.registry, d, assetBase⟩ markup = some t) :
    TemplatesSound (s.updateOutput fun o => { o with templates := o.templates.insert d.name t }) where
  owner {name other} there := by
    change (s.registry.output.templates.insert d.name t).get? name = some other at there
    rw [get?_insert] at there
    split at there
    · rename_i same
      have same : name = d.name := by simpa using same
      exact ⟨d, same ▸ here, own⟩
    · exact sound.owner there
  known {name other} there p asked := by
    change (s.registry.output.templates.insert d.name t).get? name = some other at there
    rw [get?_insert] at there
    split at there
    · cases there
      obtain ⟨nodes, -, rfl⟩ := map_eq_some_iff.mp compiled
      exact Template.isSome_provider?_of_compileMarkup coherent asked
    · exact sound.known there asked

theorem TemplatesSound.compileTemplate? (sound : TemplatesSound s) (coherent : s.registry.Coherent)
    (here : s.registry.get? .element d.name = some d) (own : d.package = none)
    (compiled : Session.compileTemplate? files assetBase s d = some s') : SameButOutput s s' ∧ TemplatesSound s' := by
  unfold Session.compileTemplate? at compiled
  generalize templateText files d = source at compiled
  obtain ⟨path, text⟩ := source
  dsimp only at compiled
  have located : SameButOutput s (path.elim s fun path => s.updateOutput fun o =>
      { o with templatePaths := addUser path d.name o.templatePaths }) ∧
      TemplatesSound (path.elim s fun path => s.updateOutput fun o =>
        { o with templatePaths := addUser path d.name o.templatePaths }) := by
    cases path with
    | none => exact ⟨.refl s, sound⟩
    | some path =>
      exact ⟨sameButOutput_updateOutput s fun o => { o with templatePaths := addUser path d.name o.templatePaths },
        ⟨sound.owner, sound.known⟩⟩
  revert compiled located
  generalize (path.elim s fun path => s.updateOutput fun o =>
    { o with templatePaths := addUser path d.name o.templatePaths }) = s₁
  rintro compiled ⟨same, sound⟩
  cases text with
  | error e =>
    cases compiled
    exact ⟨same.trans (sameButOutput_extend s₁ [e]), ⟨sound.owner, sound.known⟩⟩
  | ok markup =>
    obtain ⟨t, parsed, last⟩ := bind_eq_some_iff.mp compiled
    cases last
    have logged : TemplatesSound { s₁ with log := s₁.log.extend t.diagnostics } := ⟨sound.owner, sound.known⟩
    exact ⟨(same.trans (sameButOutput_extend s₁ t.diagnostics)).trans (sameButOutput_updateOutput _ _),
      logged.addTemplate (same.coherent coherent) ((same.get? _ _).trans here) own parsed⟩

theorem TemplatesSound.compileTemplates (sound : TemplatesSound s) (coherent : s.registry.Coherent)
    {elements : List Definition} (listed : ∀ d ∈ elements, s.registry.get? .element d.name = some d ∧ d.package = none)
    (compiled : elements.foldlM (Session.compileTemplate? files assetBase) s = some s') :
    SameButOutput s s' ∧ TemplatesSound s' := by
  induction elements generalizing s with
  | nil =>
    cases compiled
    exact ⟨.refl _, sound⟩
  | cons first rest ih =>
    rw [foldlM_cons] at compiled
    obtain ⟨s₁, here, later⟩ := bind_eq_some_iff.mp compiled
    obtain ⟨held, own⟩ := listed first mem_cons_self
    obtain ⟨same, sound'⟩ := sound.compileTemplate? coherent held own here
    have rested : ∀ d ∈ rest, s₁.registry.get? .element d.name = some d ∧ d.package = none := by
      intro d mem
      rw [same.get?]
      exact listed d (mem_cons_of_mem _ mem)
    obtain ⟨same', sound''⟩ := ih sound' (same.coherent coherent) rested later
    exact ⟨same.trans same', sound''⟩

theorem mem_localElements (coherent : s.registry.Coherent) (mem : d ∈ s.localElements) :
    s.registry.get? .element d.name = some d ∧ d.package = none := by
  obtain ⟨listed, own⟩ := mem_filter.mp mem
  obtain ⟨name, here⟩ := mem_values_iff.mp listed
  have here : s.registry.get? .element name = some d := here
  rw [(coherent.own here).2]
  exact ⟨here, by simpa [Definition.isLocal] using own⟩

theorem TemplatesSound.drain (sound : TemplatesSound s) (log) :
    TemplatesSound { s with registry := s.registry.drain.registry, log := log } := by
  have before {name : String} {t : CompiledTemplate}
      (here : s.registry.drain.registry.output.templates.get? name = some t) :
      ∃ old, s.registry.output.templates.get? name = some old ∧ t.providers = old.providers := by
    change (s.registry.output.templates.map _).get? name = some t at here
    rw [get?_map] at here
    obtain ⟨old, there, rfl⟩ := map_eq_some_iff.mp here
    refine ⟨old, there, ?_⟩
    unfold Registry.drainTemplate
    split <;> rfl
  refine ⟨?_, ?_⟩
  · intro name t here
    obtain ⟨old, there, -⟩ := before here
    exact sound.owner there
  · intro name t here p asked
    obtain ⟨old, there, same⟩ := before here
    exact sound.known there (same ▸ asked)

theorem compileTemplates?_sound (coherent : s.registry.Coherent)
    (compiled : s.compileTemplates? files assetBase = some s') : SameButOutput s s' ∧ TemplatesSound s' := by
  obtain ⟨s₁, folded, last⟩ := bind_eq_some_iff.mp compiled
  cases last
  let cleared : Session := { s with log := s.log.clearCodes templateCodes }.updateOutput fun o =>
    { o with templates := ∅, templatePaths := ∅ }
  have start : SameButOutput s cleared := ⟨_, _, keepsBut_clearCodes _ _, rfl⟩
  have bare : TemplatesSound cleared := ⟨fun here => (by cases here), fun here => (by cases here)⟩
  have listed : ∀ d ∈ s.localElements, cleared.registry.get? .element d.name = some d ∧ d.package = none := by
    intro d mem
    rw [start.get?]
    exact mem_localElements coherent mem
  obtain ⟨same, sound⟩ := bare.compileTemplates (start.coherent coherent) listed folded
  exact ⟨(start.trans same).trans ⟨_, _, keepsBut_extend _ _ _, rfl⟩, sound.drain _⟩

end Session

/-! ### Generation -/

def FileRecord.unwritten (r : FileRecord) : FileRecord := { r with output := none }

theorem FileGraph.get?_of_unwritten {g g' : FileGraph}
    (same : (g'.get? i).map (·.unwritten) = (g.get? i).map (·.unwritten)) (held : g'.get? i = some r) :
    ∃ old output, g.get? i = some old ∧ r = { old with output := output } := by
  rw [held] at same
  obtain ⟨old, before, equal⟩ := map_eq_some_iff.mp same.symm
  refine ⟨old, r.output, before, ?_⟩
  have kept : ({ old.unwritten with output := r.output } : FileRecord) = { r.unwritten with output := r.output } :=
    congrArg (fun q : FileRecord => { q with output := r.output }) equal
  exact kept.symm

namespace GenerationContext

variable {c : GenerationContext} {g : FileGraph}

theorem providerReference_graph (links : ∀ p, g.lookup? p = c.graph.lookup? p) :
    ({ c with graph := g } : GenerationContext).providerReference = c.providerReference := by
  funext r m name
  simp only [providerReference, links]

theorem lazyReference_graph (links : ∀ p, g.lookup? p = c.graph.lookup? p)
    (chunks : ∀ i, (g.get? i).bind (·.lazyRoot) = (c.graph.get? i).bind (·.lazyRoot)) :
    ({ c with graph := g } : GenerationContext).lazyReference = c.lazyReference := by
  funext target specifier
  simp only [lazyReference, links, chunks]

variable (links : ∀ p, g.lookup? p = c.graph.lookup? p)
  (chunks : ∀ i, (g.get? i).bind (·.lazyRoot) = (c.graph.get? i).bind (·.lazyRoot))
include links chunks

theorem annotationEdits_graph (r) (m) (block) :
    annotationEdits { c with graph := g } r m block = annotationEdits c r m block := by
  unfold annotationEdits annotationObject elementMembers lazySubstitutions
  rw [providerReference_graph links, lazyReference_graph links chunks]

theorem generate_graph (r : FileRecord) : r.generate { c with graph := g } = r.generate c := by
  have edits (m : SourceModule) : edits { c with graph := g } r m = edits c r m := by
    unfold GenerationContext.edits lazyEdits
    simp only [annotationEdits_graph links chunks, lazyReference_graph links chunks]
    rfl
  unfold FileRecord.generate body
  simp only [annotationEdits_graph links chunks, edits]
  rfl

end GenerationContext

namespace BuildTarget

variable {t : BuildTarget} {s : Session}
variable {modules : List GeneratedModule}

theorem get?_keepModule (s) (m : GeneratedModule) (i) : (keepModule s m).graph.get? i =
    if i = m.id then (s.graph.get? i).map fun r => { r with output := some m.code } else s.graph.get? i :=
  get?_update i

theorem keepModules_frame (modules : List GeneratedModule) (s) :
    (modules.foldl keepModule s).registry = s.registry ∧ (modules.foldl keepModule s).library = s.library ∧
      (∀ p, (modules.foldl keepModule s).graph.lookup? p = s.graph.lookup? p) ∧
      ∀ i, ((modules.foldl keepModule s).graph.get? i).map (·.unwritten) = (s.graph.get? i).map (·.unwritten) := by
  induction modules generalizing s with
  | nil => exact ⟨rfl, rfl, fun _ => rfl, fun _ => rfl⟩
  | cons m rest ih =>
    obtain ⟨registry, library, links, records⟩ := ih (keepModule s m)
    refine ⟨registry, library, links, fun i => (records i).trans ?_⟩
    rw [get?_keepModule]
    split
    · rw [Option.map_map]
      rfl
    · rfl

theorem output_keepModules (held : (modules.foldl keepModule s).graph.get? i = some r)
    (agree : ∀ m ∈ modules, m.id = i → m.code = code)
    (written : (∃ m ∈ modules, m.id = i) ∨ ∃ old, s.graph.get? i = some old ∧ old.output = some code) :
    r.output = some code := by
  induction modules generalizing s with
  | nil =>
    rcases written with ⟨m, mem, -⟩ | ⟨old, before, output⟩
    · cases mem
    · cases before.symm.trans held
      exact output
  | cons m rest ih =>
    refine ih held (fun m' mem => agree m' (mem_cons_of_mem _ mem)) ?_
    rw [get?_keepModule]
    by_cases same : i = m.id
    · rw [if_pos same]
      obtain ⟨old, before⟩ : ∃ old, s.graph.get? i = some old := by
        obtain ⟨old, _, before, -⟩ := get?_of_unwritten ((keepModules_frame (m :: rest) s).2.2.2 i) held
        exact ⟨old, before⟩
      exact .inr ⟨_, by rw [before]; rfl, congrArg some (agree m mem_cons_self same.symm)⟩
    · rw [if_neg same]
      rcases written with ⟨m', mem, here⟩ | before
      · rcases mem_cons.mp mem with rfl | later
        · exact absurd here.symm same
        · exact .inl ⟨m', later, here⟩
      · exact .inr before

theorem mem_log_keepModules (reported : d ∈ s.log.forFile file ∨ (∃ m ∈ modules, d ∈ m.diagnostics) ∧ file = d.file) :
    d ∈ (modules.foldl keepModule s).log.forFile file := by
  induction modules generalizing s with
  | nil =>
    rcases reported with here | ⟨⟨m, mem, -⟩, -⟩
    · exact here
    · cases mem
  | cons m rest ih =>
    refine ih ?_
    change d ∈ (s.log.extend m.diagnostics).forFile file ∨ _
    rw [DiagnosticLog.mem_forFile_extend]
    rcases reported with here | ⟨⟨m', mem, here⟩, same⟩
    · exact .inl (.inl here)
    · rcases mem_cons.mp mem with rfl | later
      · exact .inl (.inr ⟨here, same⟩)
      · exact .inr ⟨⟨m', later, here⟩, same⟩

theorem mem_modules : m ∈ t.modules ↔
    ∃ r ∈ t.session.graph.records, r.isCompiled ∧
      r.generate ⟨t.session.graph, t.session.registry, t.session.library⟩ = some m := by
  unfold modules
  generalize (⟨t.session.graph, t.session.registry, t.session.library⟩ : GenerationContext) = c
  simp only [mem_filterMap, mem_filter, and_assoc]

theorem id_of_generate {r : FileRecord} (generated : r.generate c = some m) : m.id = r.id := by
  obtain ⟨source, -, rfl⟩ := map_eq_some_iff.mp generated
  rfl

end BuildTarget

/-! ### All passes -/

def passCodes : List DiagnosticCode := Wiring.codes ++ Session.templateCodes ++ BuildTarget.generationCodes

/-- What a session that has been built has in common with the session after the compilation of the files. -/
structure Session.Passes (s s' : Session) : Prop where
  library : s'.library = s.library
  packages : s'.registry.packages = s.registry.packages
  definitions : ∀ kind name, (s'.registry.get? kind name).map (·.unowned) = (s.registry.get? kind name).map (·.unowned)
  links : ∀ p, s'.graph.lookup? p = s.graph.lookup? p
  records : ∀ i, (s'.graph.get? i).map (·.unwritten) = (s.graph.get? i).map (·.unwritten)
  templates : s'.TemplatesSound
  log : KeepsBut passCodes s.log s'.log
  written : ∀ {i r m}, s'.graph.get? i = some r → r.isCompiled = true →
    r.generate ⟨s'.graph, s'.registry, s'.library⟩ = some m → r.output = some m.code
  reported : ∀ {i r m}, s'.graph.get? i = some r → r.isCompiled = true →
    r.generate ⟨s'.graph, s'.registry, s'.library⟩ = some m → ∀ d ∈ m.diagnostics, d ∈ s'.log.forFile d.file

namespace BuildTarget

variable {t : BuildTarget}

theorem session_finish {entry : Nat} (entered : t.entryId = some entry) :
    (t.finish files).target.session = (t.keepModules t.modules).session := by
  unfold finish
  rw [entered]
  dsimp only
  split <;> rfl

theorem analyze?_frame (analyzed : t.analyze? files = some t') (coherent : t.session.registry.Coherent) :
    t'.entryId = t.entryId ∧ t'.session.graph = t.session.graph ∧ t'.session.library = t.session.library ∧
      t'.session.registry.packages = t.session.registry.packages ∧
      (∀ kind name, (t'.session.registry.get? kind name).map (·.unowned) =
        (t.session.registry.get? kind name).map (·.unowned)) ∧ t'.session.TemplatesSound ∧
      Session.KeepsBut passCodes t.session.log t'.session.log := by
  have owners := Wiring.sameButOwners_validate t.session.registry t.session.log
  have logged := Session.keepsBut_validate t.session.registry t.session.log
  unfold analyze? at analyzed
  revert analyzed owners logged
  generalize Wiring.validate t.session.registry t.session.log = validated
  obtain ⟨registry, log⟩ := validated
  intro analyzed owners logged
  obtain ⟨s, compiled, last⟩ := bind_eq_some_iff.mp analyzed
  cases last
  let validated : Session := { t.session with registry := registry, log := log }
  have styled := Session.sameButOutput_updateOutput validated fun o =>
    validated.localElements.foldl (Session.addStyles files) { o with styles := ∅, stylePaths := ∅ }
  obtain ⟨same, sound⟩ := Session.compileTemplates?_sound (styled.coherent (owners.coherent coherent)) compiled
  have same := styled.trans same
  refine ⟨rfl, ?_, ?_, ?_, ?_, sound, ?_⟩
  · obtain ⟨_, _, -, rfl⟩ := same
    rfl
  · obtain ⟨_, _, -, rfl⟩ := same
    rfl
  · obtain ⟨_, _, -, rfl⟩ := same
    exact owners.packages
  · intro kind name
    rw [same.get?]
    exact owners.definitions kind name
  · obtain ⟨_, _, kept, rfl⟩ := same
    exact (logged.mono fun _ inside => mem_append_left _ (mem_append_left _ inside)).trans
      (kept.mono fun _ inside => mem_append_left _ (mem_append_right _ inside))

theorem keepModules_passes (coherent : t.session.graph.Coherent) (sound : t.session.TemplatesSound) :
    t.session.Passes (t.keepModules t.modules).session := by
  obtain ⟨registry, library, links, records⟩ : (t.keepModules t.modules).session.registry = t.session.registry ∧
      (t.keepModules t.modules).session.library = t.session.library ∧
      (∀ p, (t.keepModules t.modules).session.graph.lookup? p = t.session.graph.lookup? p) ∧
      ∀ i, ((t.keepModules t.modules).session.graph.get? i).map (·.unwritten) =
        (t.session.graph.get? i).map (·.unwritten) := keepModules_frame t.modules _
  have chunks (i : Nat) : ((t.keepModules t.modules).session.graph.get? i).bind (·.lazyRoot) =
      (t.session.graph.get? i).bind (·.lazyRoot) := by
    have same := congrArg (·.bind (·.lazyRoot)) (records i)
    rwa [bind_map, bind_map] at same
  -- a compiled file has the module that was made for it
  have made {i : Nat} {r : FileRecord} {m : GeneratedModule}
      (held : (t.keepModules t.modules).session.graph.get? i = some r) (compiled : r.isCompiled)
      (generated : r.generate ⟨(t.keepModules t.modules).session.graph, (t.keepModules t.modules).session.registry,
        (t.keepModules t.modules).session.library⟩ = some m) :
      m ∈ t.modules ∧ m.id = i ∧ ∀ m' ∈ t.modules, m'.id = i → m' = m := by
    rw [registry, library] at generated
    rw [GenerationContext.generate_graph (c := ⟨t.session.graph, t.session.registry, t.session.library⟩) links chunks]
      at generated
    obtain ⟨old, output, before, rfl⟩ := get?_of_unwritten (records i) held
    have generated : old.generate ⟨t.session.graph, t.session.registry, t.session.library⟩ = some m := generated
    refine ⟨mem_modules.mpr ⟨old, mem_records_iff.mpr ⟨i, before⟩, compiled, generated⟩,
      (id_of_generate generated).trans (coherent.ids before), ?_⟩
    intro m' mem here
    obtain ⟨r', inside, -, generated'⟩ := mem_modules.mp mem
    obtain ⟨j, there⟩ := mem_records_iff.mp inside
    rw [id_of_generate generated', coherent.ids there] at here
    subst here
    cases before.symm.trans there
    exact some.inj (generated'.symm.trans generated)
  refine ⟨library, congrArg Registry.packages registry, ?_, links, records, ?_, ?_, ?_, ?_⟩
  · intro kind name
    rw [registry]
  · exact ⟨fun here => registry ▸ sound.owner (registry ▸ here), fun here => registry ▸ sound.known (registry ▸ here)⟩
  · intro d file other here
    refine mem_log_keepModules (.inl (Session.keepsBut_clearCodes generationCodes _ d file ?_ here))
    exact fun inside => other (mem_append_right _ inside)
  · intro i r m held compiled generated
    obtain ⟨mem, here, unique⟩ := made held compiled generated
    exact output_keepModules held (fun m' inside same => congrArg _ (unique m' inside same)) (.inl ⟨m, mem, here⟩)
  · intro i r m held compiled generated d reported
    exact mem_log_keepModules (.inr ⟨⟨m, (made held compiled generated).1, reported⟩, rfl⟩)

theorem build?_passes (built : t.build? files = some result)
    (graph : (t.session.compileEntry files t.entry).1.graph.Coherent)
    (registry : (t.session.compileEntry files t.entry).1.registry.Coherent) :
    result.target = t ∨ (t.session.compileEntry files t.entry).1.Passes result.target.session := by
  unfold build? at built
  split at built
  · cases built
    exact .inl rfl
  · revert graph registry built
    generalize t.session.compileEntry files t.entry = compiled
    obtain ⟨s, id⟩ := compiled
    intro graph registry built
    obtain ⟨analyzed, found, last⟩ := bind_eq_some_iff.mp built
    cases last
    obtain ⟨entered, graph', library, packages, definitions, sound, log⟩ := analyze?_frame found registry
    rw [session_finish entered]
    have kept := keepModules_passes (t := analyzed) (by rw [graph']; exact graph) sound
    refine .inr ⟨kept.library.trans library, kept.packages.trans packages,
      fun kind name => (kept.definitions kind name).trans (definitions kind name), ?_, ?_, kept.templates,
      log.trans kept.log, kept.written, kept.reported⟩
    · intro p
      rw [kept.links, graph']
    · intro i
      rw [kept.records, graph']

end BuildTarget

end ComponentCompiler
