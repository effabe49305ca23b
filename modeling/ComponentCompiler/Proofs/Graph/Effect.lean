import ComponentCompiler.Proofs.Graph.Growth

/-! What each operation of a compilation does to the records and to the loads on demand. -/

namespace ComponentCompiler.Session

open List FileGraph

variable {s : Session}
variable {id : Nat} {r : FileRecord}

@[simp]
theorem graph_report (d) : (s.report d).graph = s.graph := rfl

@[simp]
theorem requests_report (d) : (s.report d).requests = s.requests := rfl

theorem reportAny_log (s : Session) (d) : ∃ log, s.reportAny d = { s with log := log } := by
  cases d with
  | none => exact ⟨s.log, rfl⟩
  | some d => exact ⟨_, rfl⟩

@[simp]
theorem graph_reportAny (d) : (s.reportAny d).graph = s.graph := by
  cases d <;> rfl

@[simp]
theorem requests_reportAny (d) : (s.reportAny d).requests = s.requests := by
  cases d <;> rfl

@[simp]
theorem graph_checkImport (importer index) : (s.checkImport importer index).graph = s.graph :=
  graph_reportAny _

@[simp]
theorem requests_checkImport (importer index) : (s.checkImport importer index).requests = s.requests :=
  requests_reportAny _

@[simp]
theorem graph_checkPackageImport (importer index) (package) :
    (s.checkPackageImport importer index package).graph = s.graph := graph_reportAny _

@[simp]
theorem requests_checkPackageImport (importer index) (package) :
    (s.checkPackageImport importer index package).requests = s.requests := requests_reportAny _

theorem recheckImport_log (importer) (s) (index) :
    ∃ log, recheckImport importer s index = { s with log := log } := by
  unfold recheckImport
  split
  · exact ⟨s.log, rfl⟩
  · split
    · exact reportAny_log s _
    · split
      · split
        · exact reportAny_log s _
        · exact ⟨s.log, rfl⟩
      · exact ⟨s.log, rfl⟩

theorem foldl_log {α : Type} {f : Session → α → Session} (step : ∀ s a, ∃ log, f s a = { s with log := log })
    (items : List α) (s) : ∃ log, items.foldl f s = { s with log := log } := by
  induction items generalizing s with
  | nil => exact ⟨s.log, rfl⟩
  | cons first rest ih =>
    obtain ⟨log, here⟩ := step s first
    obtain ⟨log', there⟩ := ih (f s first)
    exact ⟨log', by rw [foldl_cons, there, here]⟩

theorem recheckImports_log (s : Session) (importer) :
    ∃ log, s.recheckImports importer = { s with log := log } := by
  unfold recheckImports
  split
  · exact ⟨s.log, rfl⟩
  · rename_i r _
    obtain ⟨log, same⟩ := foldl_log (recheckImport_log importer) (range r.importTargets.length)
      { s with log := s.log.clearFileCodes r.key [.importNotExported] }
    exact ⟨log, same⟩

theorem registerPackage_frame (tree) (name) :
    (s.registerPackage tree name).graph = s.graph ∧ (s.registerPackage tree name).requests = s.requests := by
  unfold registerPackage
  split
  · exact ⟨rfl, rfl⟩
  · split
    · exact ⟨rfl, rfl⟩
    · exact ⟨rfl, (Registry.registerDeclared_frame s.registry name _).1⟩

theorem lookup?_enter (s : Session) (path) (origin) :
    (s.enter path origin).graph.lookup? path = some s.graph.size := by
  rw [enter, lookup?_push, if_pos rfl]

theorem get?_enter (s : Session) (path) (origin) :
    (s.enter path origin).graph.get? s.graph.size =
      some (s.graph.newRecord path origin.parent origin.lazyRoot origin.package) := get?_push_self

@[simp]
theorem graph_setTarget (id index target) : (s.setTarget id index target).graph =
    s.graph.update id fun r => { r with importTargets := r.importTargets.set index (some target) } := rfl

@[simp]
theorem requests_setTarget (id index target) : (s.setTarget id index target).requests = s.requests := rfl

@[simp]
theorem graph_noteImport (tree) (r) (index) (found) :
    (s.noteImport tree r index found).graph =
      s.graph.update r.id fun r => { r with resolved := r.resolved.set index (some found) } := by
  unfold noteImport
  dsimp only
  split
  · exact (registerPackage_frame tree _).1
  · rfl

@[simp]
theorem requests_noteImport (tree) (r) (index) (found) :
    (s.noteImport tree r index found).requests = s.requests := by
  unfold noteImport
  dsimp only
  split
  · exact (registerPackage_frame tree _).2
  · rfl

theorem graph_fail (held : s.graph.get? id = some r) :
    (s.fail id).graph = s.graph.update id fun r =>
      { r with state := .failed, surface := none, resolved := [], annotations := [], importTargets := [] } := by
  unfold fail
  rw [held]
  rfl

@[simp]
theorem size_fail (id) : (s.fail id).graph.size = s.graph.size := by
  cases held : s.graph.get? id with
  | none => rw [fail, held]
  | some r => rw [graph_fail held, size_update]

@[simp]
theorem requests_fail (id) : (s.fail id).requests = s.requests := by
  unfold fail
  split <;> rfl

theorem registerBlock_frame (id) (r) (m) (block) :
    (∃ added, (registerBlock id r m s block).graph =
        s.graph.update id fun r => { r with annotations := r.annotations ++ added }) ∧
      (registerBlock id r m s block).requests = s.requests := by
  unfold registerBlock
  dsimp only
  split
  · exact ⟨⟨_, rfl⟩, congrArg TargetOutput.lazy (Registry.registerExternal_frame _ _).1⟩
  · have frame := congrArg TargetOutput.lazy (Registry.register_frame s.registry (blockDefinition r m block)).1
    split
    · exact ⟨⟨_, rfl⟩, frame⟩
    · exact ⟨⟨[], by simp [update_id]⟩, frame⟩

theorem registerBlocks_frame (id) (r) (m) (blocks : List AnnotationBlock) :
    (∃ added, (blocks.foldl (registerBlock id r m) s).graph =
        s.graph.update id fun r => { r with annotations := r.annotations ++ added }) ∧
      (blocks.foldl (registerBlock id r m) s).requests = s.requests := by
  induction blocks generalizing s with
  | nil => exact ⟨⟨[], by simp [update_id]⟩, rfl⟩
  | cons block rest ih =>
    obtain ⟨⟨first, graph₁⟩, requests₁⟩ := registerBlock_frame (s := s) id r m block
    obtain ⟨⟨later, graph₂⟩, requests₂⟩ := ih (s := registerBlock id r m s block)
    refine ⟨⟨first ++ later, ?_⟩, requests₂.trans requests₁⟩
    rw [foldl_cons, graph₂, graph₁, update_update]
    simp [Function.comp_def]

theorem graph_begin (id) (r) (m) :
    ∃ added, (s.begin id r m).graph = s.graph.update id fun r =>
      { r with
        annotations := r.annotations ++ added
        surface := some m
        resolved := replicate m.imports.length none
        importTargets := replicate m.imports.length none } := by
  obtain ⟨⟨added, graph⟩, -⟩ := registerBlocks_frame (s := { s with log := s.log.extend m.diagnostics })
    id r m m.annotations
  refine ⟨added, ?_⟩
  unfold begin Session.update
  dsimp only
  rw [graph, update_update]
  rfl

@[simp]
theorem size_begin (id) (r) (m) : (s.begin id r m).graph.size = s.graph.size := by
  obtain ⟨added, graph⟩ := graph_begin (s := s) id r m
  rw [graph, size_update]

@[simp]
theorem requests_begin (id) (r) (m) : (s.begin id r m).requests = s.requests :=
  (registerBlocks_frame (s := { s with log := s.log.extend m.diagnostics }) id r m m.annotations).2

def lazyRequest? (resolver : Resolver) (tree : FileTree) (path : Path) (load : LazyLoad) : Option LazyRequest :=
  (resolver.resolve tree load.specifier path).map fun found => ⟨found.path.clean, path⟩

def lazyTarget? (resolver : Resolver) (tree : FileTree) (path : Path) (load : LazyLoad) : Option Path :=
  (lazyRequest? resolver tree path load).map (·.target)

theorem requestLazy_frame (tree) (r) (load : LazyLoad) :
    (requestLazy tree r s load).graph = s.graph.update r.id (fun old =>
        { old with lazyTargets := old.lazyTargets ++ [lazyTarget? s.resolver tree r.path load] }) ∧
      (requestLazy tree r s load).requests = s.requests ++ (lazyRequest? s.resolver tree r.path load).toList := by
  unfold requestLazy lazyTarget? lazyRequest?
  dsimp only
  split
  · rename_i found resolved
    rw [resolved]
    exact ⟨rfl, rfl⟩
  · rename_i missing
    rw [missing]
    exact ⟨rfl, (append_nil _).symm⟩

theorem requestLazies_frame (tree) (r) (loads : List LazyLoad) :
    (loads.foldl (requestLazy tree r) s).graph = s.graph.update r.id (fun old =>
        { old with lazyTargets := old.lazyTargets ++ loads.map (lazyTarget? s.resolver tree r.path) }) ∧
      (loads.foldl (requestLazy tree r) s).requests =
        s.requests ++ loads.filterMap (lazyRequest? s.resolver tree r.path) := by
  induction loads generalizing s with
  | nil => exact ⟨by simp [update_id], by simp⟩
  | cons load rest ih =>
    obtain ⟨graph₁, requests₁⟩ := requestLazy_frame (s := s) tree r load
    obtain ⟨graph₂, requests₂⟩ := ih (s := requestLazy tree r s load)
    rw [(grows_requestLazy tree r load).resolver] at graph₂ requests₂
    refine ⟨?_, ?_⟩
    · rw [foldl_cons, graph₂, graph₁, update_update]
      simp [Function.comp_def]
    · rw [foldl_cons, requests₂, requests₁, append_assoc]
      cases asked : lazyRequest? s.resolver tree r.path load <;> simp [asked]

theorem graph_finish (tree) (r) (m) :
    (s.finish tree r m).graph = s.graph.update r.id fun old =>
      { old with
        lazyTargets := old.lazyTargets ++ m.lazyLoads.map (lazyTarget? s.resolver tree r.path)
        state := if old.package.isSome then .compiledExternal else .compiled } := by
  unfold finish Session.update
  dsimp only
  rw [(requestLazies_frame tree r m.lazyLoads).1, update_update]
  rfl

theorem requests_finish (tree) (r) (m) :
    (s.finish tree r m).requests =
      s.requests ++ m.lazyLoads.filterMap (lazyRequest? s.resolver tree r.path) :=
  (requestLazies_frame tree r m.lazyLoads).2

theorem get?_fail_of_ne (other : i ≠ id) : (s.fail id).graph.get? i = s.graph.get? i := by
  cases held : s.graph.get? id with
  | none => rw [fail, held]
  | some r => rw [graph_fail held, get?_update_of_ne other]

theorem get?_begin_of_ne (other : i ≠ id) (r) (m) :
    (s.begin id r m).graph.get? i = s.graph.get? i := by
  obtain ⟨added, graph⟩ := graph_begin (s := s) id r m
  rw [graph, get?_update_of_ne other]

theorem get?_finish_of_ne (other : i ≠ r.id) (tree) (m) :
    (s.finish tree r m).graph.get? i = s.graph.get? i := by
  rw [graph_finish, get?_update_of_ne other]

theorem get?_noteImport_of_ne (other : i ≠ r.id) (tree) (index) (found) :
    (s.noteImport tree r index found).graph.get? i = s.graph.get? i := by
  rw [graph_noteImport, get?_update_of_ne other]

theorem get?_setTarget_of_ne (other : i ≠ id) (index target) :
    (s.setTarget id index target).graph.get? i = s.graph.get? i := by
  rw [graph_setTarget, get?_update_of_ne other]

end ComponentCompiler.Session
