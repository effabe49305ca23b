import ComponentCompiler.Proofs.Graph.Failures
import ComponentCompiler.Proofs.Graph.Placement
import ComponentCompiler.Proofs.Graph.Recheck

/-!
What a session knows of the annotated functions of its files and of the definitions in its registry.
A `Ledger` accounts for every function, definition and refusal, whatever the history is.
-/

namespace ComponentCompiler

open List Option FileGraph Registry

namespace Registry

variable {r : Registry}

theorem get?_registerExternal_of_some (held : r.get? kind name = some d) (e) :
    (r.registerExternal e).get? kind name = some d := by
  rw [get?_registerExternal, held]
  split <;> rfl

theorem get?_registerMetadata_of_some (held : r.get? kind name = some d) (package) (m) :
    (r.registerMetadata package m).get? kind name = some d :=
  registerMetadata_induct (P := (·.get? kind name = some d)) held
    (fun _ _ _ known => get?_registerExternal_of_some (by rwa [get?_withOutput]) _) package m

theorem code_of_selectorDiagnostic? (reported : selectorDiagnostic? d = some e) : e.code = .elementSelector := by
  unfold selectorDiagnostic? at reported
  split at reported
  · cases reported
  · split at reported
    · split at reported <;> cases reported
      rfl
    · cases reported
      rfl

theorem mem_diagnostics_register {e : Diagnostic} (code : e.code = .duplicateRegistration) :
    e ∈ (r.register d).diagnostics ↔ ∃ winner, r.get? d.kind d.name = some winner ∧ e = duplicateDiagnostic d winner := by
  unfold register
  cases r.get? d.kind d.name with
  | some winner => simp
  | none =>
    simp only [mem_toList, reduceCtorEq, false_and, exists_false, iff_false]
    intro reported
    rw [code_of_selectorDiagnostic? reported] at code
    cases code

end Registry

namespace Session

structure Past where
  tree : FileTree
  built : Session
  edits : List Edit

namespace Past

def trees (past : Past) : List FileTree := past.tree :: past.edits.map (·.tree)

def Edited (past : Past) (key : String) : Prop := ∃ e ∈ past.edits, e.path.clean.key = key

/-- The refusal was in the log already when the file of the winner was compiled again. -/
def Outdates (past : Past) (refusal : Diagnostic) (winner : Definition) : Prop :=
  ∃ before e after, past.edits = before ++ e :: after ∧ e.path.clean.key = winner.file ∧
    refusal ∈ (before.foldl edit past.built).log.forFile refusal.file

end Past

def Described (resolver : Resolver) (tree : FileTree) (d : Definition) : Prop :=
  ∃ name info m, resolver.package? tree name = some info ∧ info.loadMetadata tree = some m ∧
    ∃ entry ∈ m.entries, d = externalDefinition name entry.1 entry.2

def SharesKey (s : Session) (r : FileRecord) : Prop := ∃ q ∈ s.graph.records, q.id ≠ r.id ∧ q.key = r.key

/-- The winner has its name, or its file has failed or has been compiled again since the refusal. -/
def Stands (past : Past) (s : Session) (refusal : Diagnostic) (winner : Definition) : Prop :=
  s.registry.get? winner.kind winner.name = some winner ∨
    winner.package = none ∧
      ((∃ q ∈ s.graph.records, q.key = winner.file ∧ q.state = .failed) ∨ past.Outdates refusal winner)

/-- The file was refused the name of an annotated function because of the winner, a definition of another file. -/
structure Refused (past : Past) (s : Session) (r : FileRecord) (m : SourceModule) (block : AnnotationBlock)
    (winner : Definition) : Prop where
  logged : duplicateDiagnostic (blockDefinition r m block) winner ∈ s.log.forFile r.key
  rival : winner.kind.table = block.kind.table ∧ winner.name = block.name
  apart : winner.package = none → winner.file = r.key → s.SharesKey r
  stands : Stands past s (duplicateDiagnostic (blockDefinition r m block) winner) winner

inductive Enrolled (past : Past) (s : Session) (r : FileRecord) (m : SourceModule) (block : AnnotationBlock) : Prop where
  | registered (held : s.registry.get? block.kind block.name = some (blockDefinition r m block))
  | refused {winner} (refused : Refused past s r m block winner)
  | shared (shares : s.SharesKey r)

/-- What a definition of the registry stems from. Only local definitions are taken back. -/
inductive Backed (past : Past) (s : Session) (d : Definition) : Prop where
  | file {r m} (member : r ∈ s.graph.records) (surface : r.surface = some m) (declared : Declares r m d)
      (listed : (d.kind, d.name) ∈ r.annotations)
  | former {r t m} (member : r ∈ s.graph.records) (package : r.package.isSome) (read : t ∈ past.trees)
      (loaded : t.surface? r.path = some m) (declared : Declares r m d)
      (gone : r.state = .failed ∨ past.Edited r.key)
  | metadata {t} (read : t ∈ past.trees) (described : Described s.resolver t d)

def LastRead (past : Past) (r : FileRecord) (m : SourceModule) : Prop :=
  r.surface = some m ∨ r.state = .failed ∧ ∃ t ∈ past.trees, t.surface? r.path = some m

def Explained (past : Past) (s : Session) (file : String) (refusal : Diagnostic) : Prop :=
  ∃ r ∈ s.graph.records, r.key = file ∧ r.package = none ∧ ∃ m block winner, block ∈ m.annotations ∧
    LastRead past r m ∧ refusal = duplicateDiagnostic (blockDefinition r m block) winner ∧
    Refused past s r m block winner

structure Ledger (past : Past) (s : Session) : Prop where
  coherent : s.registry.Coherent
  read : ∀ {r m}, r ∈ s.graph.records → r.surface = some m → ∃ t ∈ past.trees, t.surface? r.path = some m
  blocks : ∀ {r m block}, r ∈ s.graph.records → r.surface = some m → r.package = none → block ∈ m.annotations →
    Enrolled past s r m block
  backed : ∀ {kind name d}, s.registry.get? kind name = some d → Backed past s d
  refusals : ∀ {file d}, d ∈ s.log.forFile file → d.code = .duplicateRegistration → Explained past s file d
  admitted : ∀ {r}, r ∈ s.graph.records → s.Admits r.package
  known : ∀ {kind name d package}, s.registry.get? kind name = some d → d.package = some package →
    s.registry.packages.contains package = true

variable {tree : FileTree} {s s' : Session} {a r : FileRecord} {d : Definition} {id : Nat}

/-! ### Steps that take nothing back -/

structure Carries (s s' : Session) : Prop where
  retains : ∀ {r}, r ∈ s.graph.records → ∃ r' ∈ s'.graph.records, Retains r r'
  kept : ∀ {kind name d}, s.registry.get? kind name = some d → s'.registry.get? kind name = some d
  log : ∀ {file d}, d.code = .duplicateRegistration → d ∈ s.log.forFile file → d ∈ s'.log.forFile file

theorem blank_frame (same : a.blank = r.blank) :
    a.id = r.id ∧ a.path = r.path ∧ a.key = r.key ∧ a.package = r.package := by
  obtain ⟨ids, path, -, -, package⟩ := FileRecord.blank_eq_iff.mp same
  exact ⟨ids, path, by rw [FileRecord.key, path, FileRecord.key], package⟩

theorem blockDefinition_of_blank_eq (same : a.blank = r.blank) (m) (block) :
    blockDefinition a m block = blockDefinition r m block := by
  obtain ⟨-, -, key, package⟩ := blank_frame same
  simp [blockDefinition, key, package]

theorem SharesKey.mono (shares : s.SharesKey r) (carries : Carries s s') (same : a.blank = r.blank) :
    s'.SharesKey a := by
  obtain ⟨q, mem, other, key⟩ := shares
  obtain ⟨q', mem', kept⟩ := carries.retains mem
  obtain ⟨ids, -, keys, -⟩ := blank_frame kept.blank
  obtain ⟨ids', -, keys', -⟩ := blank_frame same
  exact ⟨q', mem', by rwa [ids, ids'], by rw [keys, key, keys']⟩

theorem Stands.mono (stands : Stands past s refusal winner) (carries : Carries s s') :
    Stands past s' refusal winner := by
  rcases stands with held | ⟨unpackaged, ⟨q, mem, key, failed⟩ | outdated⟩
  · exact .inl (carries.kept held)
  · obtain ⟨q', mem', kept⟩ := carries.retains mem
    exact .inr ⟨unpackaged, .inl ⟨q', mem', (blank_frame kept.blank).2.2.1.trans key, kept.failed failed⟩⟩
  · exact .inr ⟨unpackaged, .inr outdated⟩

theorem Refused.mono (refused : Refused past s r m block winner) (carries : Carries s s') (same : a.blank = r.blank) :
    Refused past s' a m block winner := by
  obtain ⟨-, -, key, -⟩ := blank_frame same
  have definition := blockDefinition_of_blank_eq same m block
  exact
    { logged := by rw [definition, key]; exact carries.log rfl refused.logged
      rival := refused.rival
      apart := fun unpackaged file => (refused.apart unpackaged (file.trans key)).mono carries same
      stands := by rw [definition]; exact refused.stands.mono carries }

theorem Enrolled.mono (enrolled : Enrolled past s r m block) (carries : Carries s s') (same : a.blank = r.blank) :
    Enrolled past s' a m block := by
  cases enrolled with
  | registered held => exact .registered (by rw [blockDefinition_of_blank_eq same]; exact carries.kept held)
  | refused refused => exact .refused (refused.mono carries same)
  | shared shares => exact .shared (shares.mono carries same)

theorem Backed.mono (backed : Backed past s d) (carries : Carries s s') (resolver : s'.resolver = s.resolver) :
    Backed past s' d := by
  cases backed with
  | file mem surface declared listed =>
    obtain ⟨r', mem', kept⟩ := carries.retains mem
    exact .file mem' ((kept.surface (by simp [surface])).trans surface) (declared.of_blank_eq kept.blank)
      (kept.annotations listed)
  | former mem package read loaded declared gone =>
    obtain ⟨r', mem', kept⟩ := carries.retains mem
    obtain ⟨-, path, key, packages⟩ := blank_frame kept.blank
    exact .former mem' (by rwa [packages]) read (by rwa [path]) (declared.of_blank_eq kept.blank)
      (gone.imp kept.failed fun edited => by rwa [key])
  | metadata read described => exact .metadata read (by rwa [resolver])

/-- A step that takes in no file: new definitions are those of package descriptions, and nothing is refused. -/
structure Advances (tree : FileTree) (s s' : Session) : Prop extends Carries s s' where
  resolver : s'.resolver = s.resolver
  library : s'.library = s.library
  packages : ∀ {name}, s.registry.packages.contains name = true → s'.registry.packages.contains name = true
  coherent : s.registry.Coherent → s'.registry.Coherent
  records : ∀ {r'}, r' ∈ s'.graph.records → (∃ r ∈ s.graph.records, r'.surface = r.surface ∧ r'.blank = r.blank) ∨
    r'.surface = none ∧ s'.Admits r'.package
  added : ∀ {kind name d}, s'.registry.get? kind name = some d → s.registry.get? kind name = some d ∨
    Described s.resolver tree d ∧ ∀ package, d.package = some package → s'.registry.packages.contains package = true
  refusals : ∀ {file d}, d.code = .duplicateRegistration → d ∈ s'.log.forFile file → d ∈ s.log.forFile file

theorem LastRead.mono (last : LastRead past r m) (kept : Retains r a) : LastRead past a m := by
  rcases last with surface | ⟨failed, t, read, loaded⟩
  · exact .inl ((kept.surface (by simp [surface])).trans surface)
  · exact .inr ⟨kept.failed failed, t, read, by rwa [(blank_frame kept.blank).2.1]⟩

theorem Explained.mono (explained : Explained past s file refusal) (carries : Carries s s') :
    Explained past s' file refusal := by
  obtain ⟨r, mem, key, unpackaged, m, block, winner, listed, last, same, refused⟩ := explained
  obtain ⟨r', mem', kept⟩ := carries.retains mem
  obtain ⟨-, -, keys, packages⟩ := blank_frame kept.blank
  refine ⟨r', mem', keys.trans key, packages.trans unpackaged, m, block, winner, listed, last.mono kept, ?_,
    refused.mono carries kept.blank⟩
  rw [same, blockDefinition_of_blank_eq kept.blank]

theorem Advances.admits (advances : Advances tree s s') (admits : s.Admits package) : s'.Admits package := by
  intro name same
  obtain ⟨application, known⟩ := admits name same
  exact ⟨advances.library.trans application, advances.packages known⟩

theorem Advances.surface (advances : Advances tree s s') (mem : a ∈ s'.graph.records) (surface : a.surface = some m) :
    ∃ r ∈ s.graph.records, r.surface = some m ∧ a.blank = r.blank := by
  rcases advances.records mem with ⟨r, before, same, blank⟩ | ⟨none, -⟩
  · exact ⟨r, before, same.symm.trans surface, blank⟩
  · cases none.symm.trans surface

theorem Ledger.advance (ledger : Ledger past s) (reading : tree ∈ past.trees) (advances : Advances tree s s') :
    Ledger past s' where
  coherent := advances.coherent ledger.coherent
  read mem surface := by
    obtain ⟨r, before, same, blank⟩ := advances.surface mem surface
    rw [(blank_frame blank).2.1]
    exact ledger.read before same
  blocks mem surface unpackaged inside := by
    obtain ⟨r, before, same, blank⟩ := advances.surface mem surface
    rw [(blank_frame blank).2.2.2] at unpackaged
    exact (ledger.blocks before same unpackaged inside).mono advances.toCarries blank
  backed here := by
    rcases advances.added here with before | described
    · exact (ledger.backed before).mono advances.toCarries advances.resolver
    · exact .metadata reading (by rw [advances.resolver]; exact described.1)
  refusals logged code := (ledger.refusals (advances.refusals code logged) code).mono advances.toCarries
  admitted mem := by
    rcases advances.records mem with ⟨r, before, -, blank⟩ | ⟨-, admits⟩
    · rw [(blank_frame blank).2.2.2]
      exact advances.admits (ledger.admitted before)
    · exact admits
  known here packaged := by
    rcases advances.added here with before | described
    · exact advances.packages (ledger.known before packaged)
    · exact described.2 _ packaged

/-! ### Operations -/

theorem Retains.trans (first : Retains earlier r) (second : Retains r later) : Retains earlier later where
  blank := second.blank.trans first.blank
  surface known := (second.surface (by rwa [first.surface known])).trans (first.surface known)
  annotations := Subset.trans first.annotations second.annotations
  failed state := second.failed (first.failed state)

theorem Advances.trans (first : Advances tree s s₁) (second : Advances tree s₁ s') : Advances tree s s' where
  retains mem := by
    obtain ⟨r₁, member₁, kept₁⟩ := first.retains mem
    obtain ⟨r₂, member₂, kept₂⟩ := second.retains member₁
    exact ⟨r₂, member₂, kept₁.trans kept₂⟩
  kept here := second.kept (first.kept here)
  log code logged := second.log code (first.log code logged)
  resolver := second.resolver.trans first.resolver
  library := second.library.trans first.library
  packages known := second.packages (first.packages known)
  coherent coherent := second.coherent (first.coherent coherent)
  records mem := by
    rcases second.records mem with ⟨r₁, member₁, surface₁, blank₁⟩ | new
    · rcases first.records member₁ with ⟨r₂, member₂, surface₂, blank₂⟩ | ⟨surface₂, admits⟩
      · exact .inl ⟨r₂, member₂, surface₁.trans surface₂, blank₁.trans blank₂⟩
      · exact .inr ⟨surface₁.trans surface₂, (blank_frame blank₁).2.2.2 ▸ second.admits admits⟩
    · exact .inr new
  added here := by
    rcases second.added here with before | described
    · refine (first.added before).imp_right ?_
      rintro ⟨described, known⟩
      exact ⟨described, fun package packaged => second.packages (known package packaged)⟩
    · exact .inr (by rwa [first.resolver] at described)
  refusals code logged := first.refusals code (second.refusals code logged)

theorem advances_of_graph_eq (graph : s'.graph = s.graph) (resolver : s'.resolver = s.resolver)
    (library : s'.library = s.library)
    (packages : ∀ {name}, s.registry.packages.contains name → s'.registry.packages.contains name)
    (coherent : s.registry.Coherent → s'.registry.Coherent)
    (kept : ∀ {kind name d}, s.registry.get? kind name = some d → s'.registry.get? kind name = some d)
    (added : ∀ {kind name d}, s'.registry.get? kind name = some d → s.registry.get? kind name = some d ∨
      Described s.resolver tree d ∧ ∀ package, d.package = some package → s'.registry.packages.contains package)
    (log : ∀ {file d}, d.code = .duplicateRegistration → (d ∈ s'.log.forFile file ↔ d ∈ s.log.forFile file)) :
    Advances tree s s' where
  retains {r} mem := ⟨r, by rwa [graph], .refl r⟩
  kept := kept
  log code := (log code).mpr
  resolver := resolver
  library := library
  packages := packages
  coherent := coherent
  records {r'} mem := .inl ⟨r', by rwa [graph] at mem, rfl, rfl⟩
  added := added
  refusals code := (log code).mp

theorem Advances.refl (s) : Advances tree s s := advances_of_graph_eq rfl rfl rfl id id id .inl fun _ => .rfl

theorem advances_reportAny (other : ∀ {d}, d? = some d → d.code ≠ .duplicateRegistration) :
    Advances tree s (s.reportAny d?) := by
  obtain ⟨log, same⟩ := reportAny_log s d?
  have reported {file d} : d ∈ log.forFile file ↔ d ∈ s.log.forFile file ∨ file = d.file ∧ d? = some d := by
    rw [← mem_forFile_reportAny, same]
  rw [same]
  refine advances_of_graph_eq rfl rfl rfl id id id .inl ?_
  intro file d code
  refine reported.trans (or_iff_left ?_)
  rintro ⟨-, new⟩
  exact other new code

theorem advances_report {d : Diagnostic} (other : d.code ≠ .duplicateRegistration) : Advances tree s (s.report d) := by
  have reported : Advances tree s (s.reportAny (some d)) := by
    refine advances_reportAny ?_
    rintro e same
    cases same
    exact other
  exact reported

theorem advances_update (i) (retains : ∀ {r}, s.graph.get? i = some r → Retains r (f r))
    (surface : ∀ r, (f r).surface = r.surface) (blank : ∀ r, (f r).blank = r.blank) :
    Advances tree s (s.update i f) where
  retains {r} mem := by
    obtain ⟨j, held⟩ := mem_records_iff.mp mem
    have here : (s.update i f).graph.get? j = some (if j = i then f r else r) := by
      rw [Session.update, get?_update, held]
      split <;> rfl
    refine ⟨_, mem_records_iff.mpr ⟨j, here⟩, ?_⟩
    split
    · rename_i same
      exact retains (same ▸ held)
    · exact .refl r
  kept := id
  log _ := id
  resolver := rfl
  library := rfl
  packages := id
  coherent := id
  records {r'} mem := by
    obtain ⟨j, held⟩ := mem_records_iff.mp mem
    rw [Session.update, get?_update] at held
    split at held
    · obtain ⟨r, before, rfl⟩ := map_eq_some_iff.mp held
      exact .inl ⟨r, mem_records_iff.mpr ⟨j, before⟩, surface r, blank r⟩
    · exact .inl ⟨r', mem_records_iff.mpr ⟨j, held⟩, rfl, rfl⟩
  added := .inl
  refusals _ logged := logged

theorem advances_enter (path) {origin : Origin} (admits : s.Admits origin.package) :
    Advances tree s (s.enter path origin) where
  retains {r} mem := ⟨r, mem_append_left _ mem, .refl r⟩
  kept := id
  log _ := id
  resolver := rfl
  library := rfl
  packages := id
  coherent := id
  records {r'} mem := by
    rcases mem_append.mp mem with before | new
    · exact .inl ⟨r', before, rfl, rfl⟩
    · rw [mem_singleton.mp new]
      exact .inr ⟨rfl, admits⟩
  added := .inl
  refusals _ logged := logged

theorem advances_registerPackage (name) : Advances tree s (s.registerPackage tree name) := by
  unfold registerPackage
  split
  · exact .refl s
  · split
    · exact .refl s
    · rename_i info found
      dsimp only
      have same (kind : AnnotationKind) (other : String) (packages : SortedMap String PackageImport) (r : Registry) :
          ({ r with packages := packages } : Registry).get? kind other = r.get? kind other := by cases kind <;> rfl
      refine advances_of_graph_eq rfl rfl rfl ?_ ?_ ?_ ?_ fun _ => .rfl
      · intro other known
        refine SortedMap.contains_insert.mpr (.inr ?_)
        rwa [(registerDeclared_frame s.registry name _).2]
      · intro coherent
        exact (coherent.registerDeclared name (info.loadMetadata tree)).of_eq (fun _ _ => same ..) rfl
      · intro kind other d held
        rw [same]
        cases info.loadMetadata tree with
        | none => exact held
        | some m => exact get?_registerMetadata_of_some held name m
      · intro kind other d here
        rw [same] at here
        refine (of_get?_registerDeclared here).imp_right ?_
        rintro ⟨m, loaded, entry, mem, rfl⟩
        refine ⟨⟨name, info, m, found, loaded, entry, mem, rfl⟩, fun package packaged => ?_⟩
        cases packaged
        exact SortedMap.contains_insert.mpr (.inl rfl)

theorem advances_noteImport (r) (index) (found) :
    Advances tree s (s.noteImport tree r index found) := by
  have noted : Advances tree s (s.update r.id fun r => { r with resolved := r.resolved.set index (some found) }) :=
    advances_update r.id (fun _ => ⟨rfl, fun _ => rfl, Subset.refl _, fun state => state⟩) (fun _ => rfl) fun _ => rfl
  unfold noteImport
  dsimp only
  split
  · exact noted.trans (advances_registerPackage _)
  · exact noted

theorem code_of_importError? {importer index : Nat} {d : Diagnostic} (reported : s.importError? importer index = some d) :
    d.code = .importNotExported := by
  simp only [importError?, bind_eq_bind, bind_eq_some_iff] at reported
  obtain ⟨r, -, target, -, reported⟩ := reported
  split at reported <;> cases reported
  rfl

theorem code_of_packageError? {importer index : Nat} {package : String} {d : Diagnostic}
    (reported : s.packageError? importer index package = some d) : d.code = .importNotExported := by
  simp only [packageError?, bind_eq_bind, bind_eq_some_iff] at reported
  obtain ⟨r, -, p, -, reported⟩ := reported
  split at reported <;> cases reported
  rfl

theorem advances_outside (r) (index) (found) (name) :
    Advances tree s ((s.noteImport tree r index found).checkPackageImport r.id index name) :=
  (advances_noteImport r index found).trans
    (advances_reportAny fun reported => by simp [code_of_packageError? reported])

theorem advances_linked (i index target) : Advances tree s ((s.setTarget i index target).checkImport i index) :=
  have set : Advances tree s (s.setTarget i index target) :=
    advances_update i (fun _ => ⟨rfl, fun _ => rfl, Subset.refl _, fun state => state⟩) (fun _ => rfl) fun _ => rfl
  set.trans (advances_reportAny fun reported => by simp [code_of_importError? reported])

theorem advances_requestLazy (r) (s) (load : LazyLoad) :
    Advances tree s (requestLazy tree r s load) := by
  have note (s : Session) (target : Option Path) :
      Advances tree s (s.update r.id fun r => { r with lazyTargets := r.lazyTargets ++ [target] }) :=
    advances_update r.id (fun _ => ⟨rfl, fun _ => rfl, Subset.refl _, fun state => state⟩) (fun _ => rfl) fun _ => rfl
  unfold requestLazy
  dsimp only
  split
  · refine Advances.trans ?_ (note _ _)
    refine advances_of_graph_eq rfl rfl rfl id ?_ ?_ ?_ fun _ => .rfl
    · exact fun coherent => coherent.of_eq (fun _ _ => get?_withOutput ..) rfl
    · intro kind name d held
      rwa [get?_withOutput]
    · intro kind name d here
      rw [get?_withOutput] at here
      exact .inl here
  · refine Advances.trans (advances_report ?_) (note _ _)
    simp [unresolvedLazy]

theorem advances_finish (held : s.graph.get? r.id = some a) (running : a.state ≠ .failed) (m) :
    Advances tree s (s.finish tree r m) := by
  have asked (loads : List LazyLoad) : ∀ s : Session, Advances tree s (loads.foldl (requestLazy tree r) s) := by
    induction loads with
    | nil => exact .refl
    | cons load rest ih => exact fun s => (advances_requestLazy r s load).trans (ih _)
  refine (asked m.lazyLoads s).trans (advances_update r.id ?_ (fun _ => rfl) fun _ => rfl)
  intro last here
  rw [(requestLazies_frame tree r m.lazyLoads).1, get?_update_self, held] at here
  cases here
  exact ⟨rfl, fun _ => rfl, Subset.refl _, fun state => absurd state running⟩
end Session

end ComponentCompiler
