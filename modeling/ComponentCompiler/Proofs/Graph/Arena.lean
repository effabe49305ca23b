import ComponentCompiler.Proofs.Graph.Lineage
import ComponentCompiler.Proofs.Graph.Outcome

/-! The records of a session over its whole life. Main statement: `edits_keep_wellFormed`. -/

namespace ComponentCompiler

structure FileRecord.Shaped (library : Bool) (size : Nat) (r : FileRecord) : Prop where
  targets : ∀ target, some target ∈ r.importTargets → target < size
  compiled : r.isCompiled → ∃ m, r.surface = some m ∧ r.importTargets.length = m.imports.length ∧
    r.lazyTargets.length = m.lazyLoads.length ∧ (library = false → none ∉ r.importTargets)
  failed : r.state = .failed → r.surface = none ∧ r.annotations = [] ∧ r.importTargets = []

theorem FileRecord.Shaped.mono {r : FileRecord} (shaped : r.Shaped library size) (le : size ≤ size') :
    r.Shaped library size' where
  targets target mem := Nat.lt_of_lt_of_le (shaped.targets target mem) le
  compiled := shaped.compiled
  failed := shaped.failed

/-- The records fit together: each has its number, its path and its parent, and chunks have roots. -/
structure FileGraph.WellFormed (library : Bool) (g : FileGraph) : Prop where
  ids : ∀ i r, g.get? i = some r → r.id = i
  index : ∀ p i, g.lookup? p = some i ↔ ∃ r, g.get? i = some r ∧ (r.path == p) = true
  paths : ∀ i j r r', g.get? i = some r → g.get? j = some r' → (r.path == r'.path) = true → i = j
  parents : ∀ i r parent, g.get? i = some r → r.parent = some parent → parent < g.size
  shaped : ∀ i r, g.get? i = some r → r.Shaped library g.size
  roots : ∀ i r root, g.get? i = some r → r.lazyRoot = some root →
    root ≤ i ∧ ∃ q, g.get? root = some q ∧ q.lazyRoot = some root

namespace Session

variable {tree : FileTree} {s : Session} {r : FileRecord}

theorem Settled.shaped (settled : Settled tree s r) (coherent : s.graph.Coherent) :
    r.Shaped s.library s.graph.size := by
  cases settled.outcome with
  | failed fault record =>
    have targets : r.importTargets = [] := congrArg FileRecord.importTargets record
    have state : r.state = .failed := congrArg FileRecord.state record
    refine ⟨by simp [targets], ?_, ?_⟩
    · intro compiled
      simp [FileRecord.isCompiled, state] at compiled
    · intro _
      exact ⟨congrArg FileRecord.surface record, congrArg FileRecord.annotations record, targets⟩
  | @compiled m loaded resolves record _ =>
    have targets : r.importTargets = m.imports.map (importSlot tree s r.path) :=
      congrArg FileRecord.importTargets record
    have lazies : r.lazyTargets = m.lazyLoads.map (lazyTarget? s.resolver tree r.path) :=
      congrArg FileRecord.lazyTargets record
    have state : r.state = if r.package.isSome then .compiledExternal else .compiled :=
      congrArg FileRecord.state record
    refine ⟨?_, ?_, ?_⟩
    · intro target mem
      rw [targets] at mem
      obtain ⟨statement, -, slot⟩ := List.mem_map.mp mem
      obtain ⟨p, -, known⟩ := Option.bind_eq_some_iff.mp slot
      exact coherent.lookup?_lt known
    · intro _
      refine ⟨m, congrArg FileRecord.surface record, by simp [targets], by simp [lazies], ?_⟩
      intro application mem
      rw [targets] at mem
      obtain ⟨statement, inside, slot⟩ := List.mem_map.mp mem
      obtain ⟨found, resolved⟩ := Option.isSome_iff_exists.mp (resolves statement inside)
      have leads : importPath? s.resolver s.library tree r.path statement = some found.path.clean := by
        simp [importPath?, resolved, application]
      have known := settled.follows loaded statement (by rwa [followedImports_of_isSome resolves]) leads
      rw [importSlot, leads, Option.bind_some] at slot
      simp [slot] at known
    · intro failed
      rw [state] at failed
      split at failed <;> cases failed

/-- Every record but those of files that are being compiled is in shape. -/
def ShapedBut (own : Option Nat) (s : Session) : Prop :=
  ∀ i r, s.graph.get? i = some r → own ≠ some i → r.Shaped s.library s.graph.size

theorem Runs.shaped (run : Runs tree task s checks s') (coherent : s.graph.Coherent)
    (own : ∀ {i}, task.own? = some i → i < s.graph.size) (shaped : ShapedBut task.own? s) :
    ShapedBut task.own? s' := by
  intro i r held other
  by_cases inside : i < s.graph.size
  · have before := run.get?_before coherent other inside held
    rw [run.grows.library]
    exact (shaped i r before other).mono run.grows.size_le
  · exact (run.settles coherent own i r (by omega) held).shaped (run.grows.coherent coherent)

theorem Drains.shaped (drains : Drains tree cursor s checks s') (coherent : s.graph.Coherent)
    (shaped : ShapedBut none s) : ShapedBut none s' :=
  drains.invariant coherent shaped fun run coherent => run.shaped coherent (by simp [Task.own?])

structure Resting (s : Session) : Prop where
  coherent : s.graph.Coherent
  placed : s.graph.Placed
  shaped : ShapedBut none s
  drained : ∀ request ∈ s.requests, request.target.clean = request.target ∧
    (s.graph.lookup? request.target).isSome

theorem Resting.wellFormed (resting : Resting s) : s.graph.WellFormed s.library where
  ids _ _ := resting.coherent.ids
  index p i := by
    simp only [Path.beq_iff]
    exact resting.coherent.index
  paths _ _ _ _ first second same := resting.coherent.eq_of_components_eq first second (Path.beq_iff.mp same)
  parents _ _ _ := resting.placed.parents
  shaped i r held := resting.shaped i r held (by simp)
  roots _ _ _ := resting.placed.roots

theorem Drains.resting (drains : Drains tree 0 s checks s') (coherent : s.graph.Coherent) (placed : s.graph.Placed)
    (shaped : ShapedBut none s) (asked : Requested tree s) : Resting s' where
  coherent := drains.grows.coherent coherent
  placed := drains.placed coherent asked placed
  shaped := drains.shaped coherent shaped
  drained request mem := by
    refine ⟨(drains.requested asked request mem).1, ?_⟩
    exact drains.drained asked (fun before => absurd before (Nat.not_lt_zero _)) request mem

theorem compileEntry_resting (resolver) (library) (globals)
    (tree) (entry) :
    Resting ((new resolver library globals).compileEntry tree entry).1 ∧
      ((new resolver library globals).compileEntry tree entry).1.library = library := by
  have fresh := coherent_new resolver library globals
  have asked := requested_new resolver library globals tree
  obtain ⟨checks, builds⟩ := compileEntry_builds asked entry
  refine ⟨?_, builds.grows.library⟩
  obtain ⟨run, drains⟩ := builds
  have lineage := run.lineage fresh (by simp [Task.Anchored])
  have placed := placed_of_descends FileGraph.placed_empty run.grows lineage (by simp [Task.chunk?])
  have shaped : ShapedBut none (new resolver library globals) := fun _ _ held => by cases held
  exact drains.resting (run.grows.coherent fresh) placed (run.shaped fresh (by simp [Task.own?]) shaped)
    (run.requested asked)

theorem get?_forget (id) (path) (i) : (s.forget id path).graph.get? i =
    if i = id then (s.graph.get? i).map (·.blank) else s.graph.get? i := FileGraph.get?_update i

theorem requests_forget (id) (path) :
    (s.forget id path).requests = s.requests.filter fun request => !(request.importer == path) := rfl

theorem Resting.requested_forget (resting : Resting s) (tree) (id) (path) :
    Requested tree (s.forget id path) := by
  intro request mem
  rw [requests_forget] at mem
  obtain ⟨clean, known⟩ := resting.drained request (List.mem_filter.mp mem).1
  exact ⟨clean, .inr known⟩

theorem Resting.shaped_forget (resting : Resting s) (id) (path) :
    ShapedBut (some id) (s.forget id path) := by
  intro i r held other
  have apart : i ≠ id := fun same => other (congrArg some same.symm)
  rw [get?_forget, if_neg apart] at held
  exact (resting.shaped i r held (by simp)).mono (Nat.le_of_eq FileGraph.size_update.symm)

theorem Resting.compileRecord_forget (resting : Resting s) (tree : FileTree) {id : Nat}
    (known : s.graph.lookup? path = some id) : let s' := (s.forget id path).compileRecord tree (compileFile tree) id
    s'.graph.Coherent ∧ s'.graph.Placed ∧ ShapedBut none s' ∧ Requested tree s' ∧ s'.library = s.library := by
  intro s'
  obtain ⟨r, held, -⟩ := resting.coherent.index.mp known
  have blank : (s.forget id path).graph.get? id = some r.blank := by rw [get?_forget, if_pos rfl, held]; rfl
  have coherent : (s.forget id path).graph.Coherent := resting.coherent.update fun _ => rfl
  have placed : (s.forget id path).graph.Placed := resting.placed.update fun _ => rfl
  have inside := FileGraph.get?_eq_some_lt blank
  obtain ⟨checks, run⟩ := compileRecord_runs tree blank
  have lineage := run.lineage coherent inside
  refine ⟨run.grows.coherent coherent, placed_of_descends placed run.grows lineage ?_, ?_,
    run.requested (resting.requested_forget tree id path), run.grows.library⟩
  · intro root chunk
    rw [Task.chunk?, blank] at chunk
    obtain ⟨le, q, first, rooted⟩ := placed.roots blank chunk
    obtain ⟨q', first', same⟩ := run.grows.place first
    exact ⟨by omega, q', first', (FileRecord.blank_eq_iff.mp same).2.2.2.1.trans rooted⟩
  · intro i r' held' _
    by_cases own : i = id
    · obtain ⟨r'', settled', -, settled⟩ := run.settles_record coherent blank
      rw [own] at held'
      cases held'.symm.trans settled'
      exact settled.shaped (run.grows.coherent coherent)
    · have others := run.shaped coherent (by simpa [Task.own?] using inside) (resting.shaped_forget id path)
      exact others i r' held' (by simpa [Task.own?] using Ne.symm own)

theorem recompile_resting (resting : Resting s) {id : Nat} (compiled : s.recompile tree path = some (s', id)) :
    Resting s' ∧ s'.library = s.library := by
  obtain ⟨id', known, same⟩ := Option.map_eq_some_iff.mp compiled
  cases same
  obtain ⟨coherent, placed, shaped, asked, library⟩ := resting.compileRecord_forget tree known
  generalize (s.forget id path.clean).compileRecord tree (compileFile tree) id = s₁ at *
  -- the checks of the files that import it change the log alone
  obtain ⟨log, checked⟩ := foldl_log recheckImports_log (s₁.graph.importersOf id) s₁
  rw [checked]
  have asked' : Requested tree { s₁ with log := log } := asked
  obtain ⟨checks, drains⟩ := drainLazy_drains asked'
  exact ⟨drains.resting coherent placed shaped asked', drains.grows.library.trans library⟩

structure Edit where
  tree : FileTree
  path : Path

/-- The session after an edit; the edit of a file that it does not have changes nothing. -/
def edit (s : Session) (e : Edit) : Session := ((s.recompile e.tree e.path).map (·.1)).getD s

theorem edit_resting (resting : Resting s) (e) : Resting (s.edit e) ∧ (s.edit e).library = s.library := by
  unfold edit
  cases compiled : s.recompile e.tree e.path with
  | none => exact ⟨resting, rfl⟩
  | some outcome => exact recompile_resting resting compiled

theorem edits_resting (edits : List Edit) (resting : Resting s) :
    Resting (edits.foldl edit s) ∧ (edits.foldl edit s).library = s.library := by
  induction edits generalizing s with
  | nil => exact ⟨resting, rfl⟩
  | cons e rest ih =>
    obtain ⟨next, library⟩ := edit_resting resting e
    obtain ⟨last, library'⟩ := ih next
    exact ⟨last, library'.trans library⟩

/-- However a session is edited after it was built, its records and its index fit together. -/
theorem edits_keep_wellFormed (resolver : Resolver) (library : Bool) (globals : SortedMap String String)
    (tree : FileTree) (entry : Path) (edits : List Edit) :
    (edits.foldl edit ((new resolver library globals).compileEntry tree entry).1).graph.WellFormed library := by
  obtain ⟨built, mode⟩ := compileEntry_resting resolver library globals tree entry
  obtain ⟨resting, kept⟩ := edits_resting edits built
  have wellFormed := resting.wellFormed
  rwa [kept, mode] at wellFormed

end Session

end ComponentCompiler
