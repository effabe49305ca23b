import ComponentCompiler.Proofs.Graph.Outcome

/-!
What is known of files in the middle of a run. At no moment does a record hold anything wrong
(`Tentative`), and every file that has been entered has been read (`Truthful`).
-/

namespace ComponentCompiler

open List FileGraph

theorem join_getElem?_set {α : Type} {slots : List (Option α)} {index k : Nat} {value : Option α} {x : α}
    (filled : (slots.set index value)[k]?.join = some x) :
    k = index ∧ value = some x ∨ slots[k]?.join = some x := by
  rw [getElem?_set] at filled
  split at filled
  · rename_i same
    split at filled
    · exact .inl ⟨same.symm, filled⟩
    · cases filled
  · exact .inr filled

theorem join_getElem?_replicate (n k : Nat) : (replicate n (none : Option α))[k]?.join = none := by
  rw [getElem?_replicate]
  split <;> rfl

namespace Session

variable {tree : FileTree} {s s' : Session} {a r : FileRecord} {m : SourceModule} {statement : ImportStatement}
  {index : Nat} {found : ResolvedImport}
variable {path : Path} {id target : Nat} {unread : Option Nat}

/-- What a record holds is right, though there may be more to come. -/
structure Tentative (tree : FileTree) (s : Session) (a : FileRecord) : Prop where
  failed : a.state = .failed → Fault s.resolver tree a.path
  surface : ∀ {m}, a.surface = some m → tree.surface? a.path = some m
  slots : ∀ {m}, a.surface = some m → a.importTargets.length = m.imports.length
  resolved : ∀ {k found}, a.resolved? k = some found → ∃ m statement, a.surface = some m ∧
    m.imports[k]? = some statement ∧ s.resolver.resolve tree statement.source a.path = some found
  target : ∀ {k t}, a.importTarget? k = some t → ∃ m statement, a.surface = some m ∧
    m.imports[k]? = some statement ∧ importSlot tree s a.path statement = some t

theorem Continues.importSlot_of_some (onwards : Continues s s') (slot : importSlot tree s path statement = some target) :
    importSlot tree s' path statement = some target := by
  obtain ⟨p, leads, known⟩ := Option.bind_eq_some_iff.mp slot
  rw [importSlot, onwards.resolver, onwards.library, leads]
  exact onwards.lookup known

namespace Tentative

theorem mono (tentative : Tentative tree s a) (grows : Grows s s') : Tentative tree s' a where
  failed := by
    rw [grows.resolver]
    exact tentative.failed
  surface := tentative.surface
  slots := tentative.slots
  resolved := by
    rw [grows.resolver]
    exact tentative.resolved
  target := by
    intro k t filled
    obtain ⟨m, statement, surface, there, slot⟩ := tentative.target filled
    exact ⟨m, statement, surface, there, grows.importSlot_of_some slot⟩

theorem of_fault (fault : Fault s.resolver tree a.path) :
    Tentative tree s
      { a with state := .failed, surface := none, resolved := [], annotations := [], importTargets := [] } where
  failed _ := fault
  surface read := by cases read
  slots read := by cases read
  resolved filled := by cases filled
  target filled := by cases filled

theorem blank (a : FileRecord) : Tentative tree s a.blank where
  failed broken := by cases broken
  surface read := by cases read
  slots read := by cases read
  resolved filled := by cases filled
  target filled := by cases filled

theorem read (tentative : Tentative tree s a) (loaded : tree.surface? a.path = some m)
    (annotations : List (AnnotationKind × String)) :
    Tentative tree s
      { a with
        annotations := annotations
        surface := some m
        resolved := replicate m.imports.length none
        importTargets := replicate m.imports.length none } where
  failed := tentative.failed
  surface same := by
    cases same
    exact loaded
  slots same := by
    cases same
    exact length_replicate
  resolved filled := by cases (join_getElem?_replicate _ _).symm.trans filled
  target filled := by cases (join_getElem?_replicate _ _).symm.trans filled

theorem note (tentative : Tentative tree s a) (surface : a.surface = some m)
    (there : m.imports[index]? = some statement)
    (resolves : s.resolver.resolve tree statement.source a.path = some found) :
    Tentative tree s { a with resolved := a.resolved.set index (some found) } where
  failed := tentative.failed
  surface := tentative.surface
  slots := tentative.slots
  resolved filled := by
    rcases join_getElem?_set filled with ⟨rfl, same⟩ | old
    · cases same
      exact ⟨m, statement, surface, there, resolves⟩
    · exact tentative.resolved old
  target := tentative.target

theorem link {target : Nat} (tentative : Tentative tree s a) (surface : a.surface = some m)
    (there : m.imports[index]? = some statement) (slot : importSlot tree s a.path statement = some target) :
    Tentative tree s { a with importTargets := a.importTargets.set index (some target) } where
  failed := tentative.failed
  surface := tentative.surface
  slots read := by
    rw [length_set]
    exact tentative.slots read
  resolved := tentative.resolved
  target filled := by
    rcases join_getElem?_set filled with ⟨rfl, same⟩ | old
    · cases same
      exact ⟨m, statement, surface, there, slot⟩
    · exact tentative.target old

theorem finish (tentative : Tentative tree s a) (fine : state ≠ .failed) (targets) :
    Tentative tree s { a with lazyTargets := targets, state := state } where
  failed broken := absurd broken fine
  surface := tentative.surface
  slots := tentative.slots
  resolved := tentative.resolved
  target := tentative.target

end Tentative

/-! ### Sessions in the middle of a run -/

/-- What is known of the files is right, and every file but perhaps one has been read or has failed. -/
structure Truthful (tree : FileTree) (s : Session) (unread : Option Nat) : Prop where
  tentative : ∀ {i a}, s.graph.get? i = some a → Tentative tree s a
  read : ∀ {i a}, s.graph.get? i = some a → unread ≠ some i → a.state = .failed ∨ a.surface.isSome

theorem Truthful.of_graph_eq (truthful : Truthful tree s unread) (grows : Grows s s') (same : s'.graph = s.graph) :
    Truthful tree s' unread where
  tentative held := (truthful.tentative (same ▸ held)).mono grows
  read held := truthful.read (same ▸ held)

theorem Truthful.step (truthful : Truthful tree s unread) (only : unread = none ∨ unread = some id)
    (grows : Grows s s') (others : ∀ {i}, i ≠ id → s'.graph.get? i = s.graph.get? i) (own : s'.graph.get? id = some a)
    (tentative : Tentative tree s' a) (read : a.state = .failed ∨ a.surface.isSome) : Truthful tree s' none := by
  constructor
  · intro i b held
    by_cases here : i = id
    · subst here
      cases own.symm.trans held
      exact tentative
    · rw [others here] at held
      exact (truthful.tentative held).mono grows
  · intro i b held _
    by_cases here : i = id
    · subst here
      cases own.symm.trans held
      exact read
    · rw [others here] at held
      refine truthful.read held ?_
      rcases only with rfl | rfl
      · simp
      · exact fun same => here (Option.some.inj same).symm

theorem Truthful.enter (truthful : Truthful tree s none) (clean : path.clean = path)
    (new : s.graph.lookup? path = none) (origin) :
    Truthful tree (s.enter path origin) (some s.graph.size) := by
  have grows := grows_enter clean new origin
  constructor
  · intro i a held
    rw [Session.enter, get?_push] at held
    split at held
    · cases held
      exact .blank (s.graph.newRecord path origin.parent origin.lazyRoot origin.package)
    · exact (truthful.tentative held).mono grows
  · intro i a held other
    rw [Session.enter, get?_push, if_neg fun same => other (congrArg some same.symm)] at held
    exact truthful.read held (by simp)

def Task.unread? : Task → Option Nat
  | .record id => some id
  | _ => none

def Linked (s : Session) (i index : Nat) : Prop :=
  ∃ a target, s.graph.get? i = some a ∧ a.importTarget? index = some target

/-! ### Steps -/

theorem Truthful.fail (truthful : Truthful tree s unread) (only : unread = none ∨ unread = some id)
    (held : s.graph.get? id = some a) (fault : Fault s.resolver tree a.path) : Truthful tree (s.fail id) none := by
  have grows := grows_fail (s := s) id
  rw [← grows.resolver] at fault
  exact truthful.step only grows get?_fail_of_ne (fail_own held) (.of_fault fault) (.inl rfl)

theorem Truthful.begin (truthful : Truthful tree s (some id)) (held : s.graph.get? id = some r)
    (loaded : tree.surface? r.path = some m) : Truthful tree (s.begin id r m) none := by
  obtain ⟨annotations, own⟩ := begin_own held r m
  have tentative := (truthful.tentative held).mono (grows_begin id r m)
  exact truthful.step (.inr rfl) (grows_begin id r m)
    (fun other => get?_begin_of_ne other r m) own (tentative.read loaded annotations) (.inr rfl)

theorem Truthful.finish (truthful : Truthful tree s none) (held : s.graph.get? r.id = some a)
    (surface : a.surface = some m) : Truthful tree (s.finish tree r m) none := by
  have tentative := (truthful.tentative held).mono (grows_finish tree r m)
  refine truthful.step (.inl rfl) (grows_finish tree r m) (fun other => get?_finish_of_ne other tree m)
    (finish_own rfl held m) (tentative.finish ?_ _) (.inr (by simp [surface]))
  split <;> simp

theorem Truthful.setTarget (truthful : Truthful tree s none) (held : s.graph.get? id = some a)
    (surface : a.surface = some m) (there : m.imports[index]? = some statement)
    (slot : importSlot tree s a.path statement = some target) : Truthful tree (s.setTarget id index target) none := by
  have grows := grows_setTarget (s := s) id index target
  exact truthful.step (.inl rfl) grows (fun other => get?_setTarget_of_ne other index target) (setTarget_own held)
    (((truthful.tentative held).mono grows).link surface there (grows.importSlot_of_some slot))
    (.inr (by simp [surface]))

/-! ### Imports of a file -/

def Task.Loaded (tree : FileTree) (s : Session) : Task → Prop
  | .imports r rest _ => ∃ a m, s.graph.get? r.id = some a ∧ a.path = r.path ∧ a.surface = some m ∧
      tree.surface? r.path = some m ∧ a.importTargets.length = m.imports.length ∧
      ∀ {statement k}, (statement, k) ∈ rest → m.imports[k]? = some statement
  | _ => True

theorem loaded_begin (held : s.graph.get? r.id = some r) (loaded : tree.surface? r.path = some m) :
    Task.Loaded tree (s.begin r.id r m) (.imports r m.imports.zipIdx complete) := by
  obtain ⟨annotations, own⟩ := begin_own held r m
  exact ⟨_, m, own, rfl, rfl, loaded, length_replicate, mem_zipIdx_iff_getElem?.mp⟩

section

variable {rest : List (ImportStatement × Nat)} {complete : Bool}
  (ready : Task.Loaded tree s (.imports r ((statement, index) :: rest) complete))
include ready

theorem Task.Loaded.outside (name) :
    Task.Loaded tree ((s.noteImport tree r index found).checkPackageImport r.id index name)
      (.imports r rest complete) := by
  obtain ⟨a, m, held, path, surface, loaded, slots, imports⟩ := ready
  exact ⟨_, m, outside_own tree index found name held, path, surface, loaded, slots,
    fun mem => imports (mem_cons_of_mem _ mem)⟩

theorem Task.Loaded.linked (coherent : s.graph.Coherent)
    (resolved : s.resolver.resolve tree statement.source r.path = some found) (inside : s.outsidePackage? found = none)
    (file : Runs tree (.file found.path (importOrigin r found) target) (s.noteImport tree r index found) checks s₁) :
    (∃ a, (s₁.setTarget r.id index target).graph.get? r.id = some a ∧ ∃ m, a.surface = some m ∧
      tree.surface? a.path = some m ∧ m.imports[index]? = some statement ∧
      importSlot tree (s₁.setTarget r.id index target) a.path statement = some target ∧
      a.importTarget? index = some target) ∧
    Task.Loaded tree ((s₁.setTarget r.id index target).checkImport r.id index) (.imports r rest complete) := by
  obtain ⟨a, m, held, path, surface, loaded, slots, imports⟩ := ready
  have there := imports mem_cons_self
  have own := linked_own coherent held file
  have inRange : index < a.importTargets.length := slots ▸ (List.getElem?_eq_some_iff.mp there).1
  have grows := ((grows_noteImport (s := s) tree r index found).trans file.grows).trans
    (grows_setTarget r.id index target)
  have slot := grows.importSlot_eq resolved inside ((grows_setTarget r.id index target).lookup file.lookup)
  refine ⟨⟨_, own, m, surface, path ▸ loaded, there, path ▸ slot, ?_⟩, ?_⟩
  · simp [FileRecord.importTarget?, inRange]
  · rw [← graph_checkImport r.id index] at own
    exact ⟨_, m, own, path, surface, loaded, by rw [length_set, slots],
      fun mem => imports (mem_cons_of_mem _ mem)⟩

theorem Truthful.noteImport (truthful : Truthful tree s none)
    (resolved : s.resolver.resolve tree statement.source r.path = some found) :
    Truthful tree (s.noteImport tree r index found) none := by
  obtain ⟨a, m, held, path, surface, -, -, imports⟩ := ready
  have grows := grows_noteImport (s := s) tree r index found
  rw [← path, ← grows.resolver] at resolved
  exact truthful.step (.inl rfl) grows (fun other => get?_noteImport_of_ne other tree index found)
    (noteImport_own tree index found held)
    (((truthful.tentative held).mono grows).note surface (imports mem_cons_self) resolved)
    (.inr (by simp [surface]))

theorem Truthful.inside (coherent : s.graph.Coherent)
    (resolved : s.resolver.resolve tree statement.source r.path = some found) (inside : s.outsidePackage? found = none)
    (file : Runs tree (.file found.path (importOrigin r found) target) (s.noteImport tree r index found) checks s₁)
    (reached : Truthful tree s₁ none) : Truthful tree (s₁.setTarget r.id index target) none := by
  obtain ⟨a, m, held, path, surface, -, -, imports⟩ := ready
  rw [← path] at resolved
  have grows := grows_noteImport (s := s) tree r index found
  -- The run to the target leaves the record of the importer alone, so its slot is still there to fill.
  have kept := file.keeps (grows.coherent coherent) (noteImport_own tree index found held) (by simp [Task.own?])
  have slot := (grows.trans file.grows).importSlot_eq resolved inside file.lookup
  exact reached.setTarget kept surface (imports mem_cons_self) slot

end

/-! ### Runs -/

theorem Runs.truthful (run : Runs tree task s checks s') (coherent : s.graph.Coherent)
    (truthful : Truthful tree s task.unread?) (ready : task.Loaded tree s) :
    Truthful tree s' none ∧ ∀ check ∈ checks, Truthful tree check.session none := by
  induction run with
  | visited => exact ⟨truthful, by simp⟩
  | @entered _ _ path origin _ new _ ih =>
    have clean := Path.clean_clean path
    exact ih ((grows_enter clean new origin).coherent coherent) (truthful.enter clean new origin) trivial
  | @unread _ _ _ d held failed =>
    have reported := truthful.of_graph_eq (grows_report d) rfl
    exact ⟨reported.fail (.inr rfl) held (fault_of_loadSurface failed), by simp⟩
  | @stopped s s₁ id r m _ held loaded run ih =>
    cases coherent.ids held
    have loaded := surface?_of_loadSurface loaded
    obtain ⟨middle, made⟩ := ih ((grows_begin r.id r m).coherent coherent) (truthful.begin held loaded)
      (loaded_begin held loaded)
    obtain ⟨_, _, _, last⟩ := run.begun_own coherent held
    have fault := run.fault loaded
    rw [← run.grows.resolver] at fault
    exact ⟨middle.fail (.inl rfl) last fault, made⟩
  | @finished s s₁ id r m _ held loaded run ih =>
    cases coherent.ids held
    have loaded := surface?_of_loadSurface loaded
    obtain ⟨middle, made⟩ := ih ((grows_begin r.id r m).coherent coherent) (truthful.begin held loaded)
      (loaded_begin held loaded)
    obtain ⟨_, _, _, last⟩ := run.begun_own coherent held
    exact ⟨middle.finish last rfl, made⟩
  | followed => exact ⟨truthful, by simp⟩
  | unresolved => exact ⟨truthful.of_graph_eq (grows_report _) rfl, by simp⟩
  | @outside s s' r _ index _ _ found name _ resolved _ run ih =>
    have checked := grows_checkPackageImport (s := s.noteImport tree r index found) r.id index name
    have noted := truthful.noteImport ready resolved
    obtain ⟨last, made⟩ := ih ((grows_outside tree r index found name).coherent coherent)
      (noted.of_graph_eq checked (graph_checkPackageImport ..)) (ready.outside name)
    exact ⟨last, forall_mem_cons.mpr ⟨noted, made⟩⟩
  | @linked s s₁ s' r _ index _ _ found target _ _ resolved inside file run fileIh restIh =>
    have grows := (grows_noteImport (s := s) tree r index found).coherent coherent
    obtain ⟨reached, before⟩ := fileIh grows (truthful.noteImport ready resolved) trivial
    have linked := reached.inside ready coherent resolved inside file
    obtain ⟨last, after⟩ := restIh ((grows_linked r.id index target).coherent (file.grows.coherent grows))
      (linked.of_graph_eq (grows_checkImport r.id index) (graph_checkImport ..)) (ready.linked coherent resolved inside file).2
    exact ⟨last, forall_mem_append.mpr ⟨before, forall_mem_cons.mpr ⟨linked, after⟩⟩⟩

theorem Drains.truthful (drains : Drains tree cursor s checks s') (coherent : s.graph.Coherent)
    (truthful : Truthful tree s none) : ∀ check ∈ checks, Truthful tree check.session none := by
  induction drains with
  | done => simp
  | known _ _ _ ih => exact ih coherent truthful
  | chunk _ _ run _ ih =>
    obtain ⟨middle, before⟩ := run.truthful coherent truthful trivial
    exact forall_mem_append.mpr ⟨before, ih (run.grows.coherent coherent) middle⟩

theorem Builds.truthful (builds : Builds tree entry s id checks s') (coherent : s.graph.Coherent)
    (truthful : Truthful tree s none) : ∀ check ∈ checks, Truthful tree check.session none := by
  obtain ⟨run, drains⟩ := builds
  obtain ⟨middle, before⟩ := run.truthful coherent truthful trivial
  exact forall_mem_append.mpr ⟨before, drains.truthful (run.grows.coherent coherent) middle⟩

/-! ### Every import is checked -/

def Check.About (check : Check) (i index : Nat) : Prop :=
  check.importer = i ∧ check.index = index ∧ check.package = none

theorem linked_of_update (same : s'.graph = s.graph.update id f)
    (kept : ∀ {a t}, (f a).importTarget? index = some t → a.importTarget? index = some t) (linked : s'.Linked i index) :
    s.Linked i index := by
  obtain ⟨a, t, held, filled⟩ := linked
  rw [same, get?_update] at held
  split at held
  · obtain ⟨b, before, rfl⟩ := Option.map_eq_some_iff.mp held
    exact ⟨b, t, before, kept filled⟩
  · exact ⟨a, t, held, filled⟩

theorem linked_of_enter (linked : (s.enter path origin).Linked i index) : s.Linked i index := by
  obtain ⟨a, t, held, filled⟩ := linked
  rw [Session.enter, get?_push] at held
  split at held
  · cases held
    cases filled
  · exact ⟨a, t, held, filled⟩

theorem linked_of_fail (linked : (s.fail id).Linked i index) : s.Linked i index := by
  cases held : s.graph.get? id with
  | none =>
    rw [Session.fail, held] at linked
    exact linked
  | some a => exact linked_of_update (graph_fail held) (fun filled => by cases filled) linked

theorem linked_of_begin (linked : (s.begin id r m).Linked i index) : s.Linked i index := by
  obtain ⟨added, graph⟩ := graph_begin (s := s) id r m
  exact linked_of_update graph (fun filled => by cases (join_getElem?_replicate _ _).symm.trans filled) linked

theorem linked_of_setTarget {k : Nat} (linked : (s.setTarget id k target).Linked i index) :
    i = id ∧ index = k ∨ s.Linked i index := by
  obtain ⟨a, t, held, filled⟩ := linked
  rw [graph_setTarget, get?_update] at held
  split at held
  · rename_i own
    obtain ⟨b, before, rfl⟩ := Option.map_eq_some_iff.mp held
    rcases join_getElem?_set filled with ⟨here, -⟩ | old
    · exact .inl ⟨own, here⟩
    · exact .inr ⟨b, t, before, old⟩
  · exact .inr ⟨a, t, held, filled⟩

theorem Runs.checked (run : Runs tree task s checks s') (linked : s'.Linked i index) :
    s.Linked i index ∨ ∃ check ∈ checks, check.About i index := by
  induction run with
  | visited => exact .inl linked
  | entered _ _ ih => exact (ih linked).imp_left linked_of_enter
  | @unread s _ _ d _ _ => exact .inl (linked_of_fail (s := s.report d) linked)
  | stopped _ _ _ ih => exact (ih (linked_of_fail linked)).imp_left linked_of_begin
  | finished _ _ _ ih => exact (ih (linked_of_update (graph_finish ..) id linked)).imp_left linked_of_begin
  | followed => exact .inl linked
  | unresolved => exact .inl linked
  | outside _ _ _ ih =>
    rcases ih linked with before | ⟨check, mem, about⟩
    · exact .inl (linked_of_update ((graph_checkPackageImport ..).trans (graph_noteImport ..)) id before)
    · exact .inr ⟨check, mem_cons_of_mem _ mem, about⟩
  | linked _ _ _ _ fileIh restIh =>
    rcases restIh linked with before | ⟨check, mem, about⟩
    · rw [Linked, graph_checkImport] at before
      rcases linked_of_setTarget before with ⟨rfl, rfl⟩ | before
      · exact .inr ⟨_, mem_append_right _ mem_cons_self, rfl, rfl, rfl⟩
      · rcases fileIh before with before | ⟨check, mem, about⟩
        · exact .inl (linked_of_update (graph_noteImport ..) id before)
        · exact .inr ⟨check, mem_append_left _ mem, about⟩
    · exact .inr ⟨check, mem_append_right _ (mem_cons_of_mem _ mem), about⟩

theorem Drains.checked (drains : Drains tree cursor s checks s') (linked : s'.Linked i index) :
    s.Linked i index ∨ ∃ check ∈ checks, check.About i index := by
  induction drains with
  | done => exact .inl linked
  | known _ _ _ ih => exact ih linked
  | chunk _ _ run _ ih =>
    rcases ih linked with before | ⟨check, mem, about⟩
    · rcases run.checked before with before | ⟨check, mem, about⟩
      · exact .inl before
      · exact .inr ⟨check, mem_append_left _ mem, about⟩
    · exact .inr ⟨check, mem_append_right _ mem, about⟩

theorem Builds.checked (builds : Builds tree entry s id checks s') (linked : s'.Linked i index) :
    s.Linked i index ∨ ∃ check ∈ checks, check.About i index := by
  obtain ⟨run, drains⟩ := builds
  rcases drains.checked linked with before | ⟨check, mem, about⟩
  · rcases run.checked before with before | ⟨check, mem, about⟩
    · exact .inl before
    · exact .inr ⟨check, mem_append_left _ mem, about⟩
  · exact .inr ⟨check, mem_append_right _ mem, about⟩

end Session

end ComponentCompiler
