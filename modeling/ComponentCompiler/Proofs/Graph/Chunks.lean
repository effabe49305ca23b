import ComponentCompiler.Build.Target
import ComponentCompiler.Proofs.Graph.Arena
import Mathlib.Data.List.ReduceOption

/-!
How a new build places files in the main table and in chunks, each of them complete before the next
is begun. Main statement: `compileEntry_isolates_chunks`.
-/

namespace ComponentCompiler

open List FileGraph

namespace FileGraph

variable {g : FileGraph} {other root : Nat}

/-- A table of modules can use another one: the main table can be used by all, and a chunk by itself and the
chunks after it. -/
def CanUse (table other : Option Nat) : Prop :=
  match table, other with
  | _, none => True
  | none, some _ => False
  | some root, some earlier => earlier ≤ root

theorem canUse_self (table) : CanUse table table := by
  cases table with
  | none => trivial
  | some root => exact Nat.le_refl root

def Isolated (g : FileGraph) : Prop :=
  ∀ i r target, g.get? i = some r → some target ∈ r.importTargets →
    ∃ q, g.get? target = some q ∧ CanUse r.lazyRoot q.lazyRoot

def Strays (g : FileGraph) (i target : Nat) : Prop :=
  ∃ r q, g.get? i = some r ∧ some target ∈ r.importTargets ∧ g.get? target = some q ∧
    ¬CanUse r.lazyRoot q.lazyRoot

theorem Isolated.not_strays {g : FileGraph} (isolated : g.Isolated) : ¬g.Strays i target := by
  rintro ⟨r, q, held, leads, there, stray⟩
  obtain ⟨q', there', use⟩ := isolated i r target held leads
  cases there.symm.trans there'
  exact stray use

def Imports (g : FileGraph) (i j : Nat) : Prop := ∃ r, g.get? i = some r ∧ some j ∈ r.importTargets

theorem mem_chunkRoots : root ∈ g.chunkRoots ↔ ∃ r ∈ g.records, r.lazyRoot = some root := by
  rw [chunkRoots, SortedSet.mem_toList_ofList, mem_filterMap]

theorem mem_chunkFiles : r ∈ g.chunkFiles root ↔ r ∈ g.records ∧ r.lazyRoot = some root ∧ r.isCompiled := by
  simp [chunkFiles]

theorem mem_mainFiles : r ∈ g.mainFiles ↔ r ∈ g.records ∧ r.lazyRoot = none ∧ r.isCompiled := by
  simp [mainFiles]

theorem mem_chunkDependencies : other ∈ g.chunkDependencies root ↔
    other ≠ root ∧ ∃ r ∈ g.chunkFiles root, ∃ target q, some target ∈ r.importTargets ∧ g.get? target = some q ∧
      q.lazyRoot = some other := by
  simp only [chunkDependencies, SortedSet.mem_toList_ofList, mem_filter, mem_filterMap, mem_flatMap,
    reduceOption_mem_iff, bne_iff_ne, Option.bind_eq_some_iff]
  constructor
  · rintro ⟨⟨target, ⟨r, mem, leads⟩, q, held, chunk⟩, other⟩
    exact ⟨other, r, mem, target, q, leads, held, chunk⟩
  · rintro ⟨other, r, mem, target, q, leads, held, chunk⟩
    exact ⟨⟨target, ⟨r, mem, leads⟩, q, held, chunk⟩, other⟩

theorem Isolated.dependency_lt (isolated : g.Isolated) (mem : other ∈ g.chunkDependencies root) :
    other ∈ g.chunkRoots ∧ other < root := by
  obtain ⟨apart, r, file, target, q, leads, held, chunk⟩ := mem_chunkDependencies.mp mem
  obtain ⟨inside, own, -⟩ := mem_chunkFiles.mp file
  obtain ⟨i, known⟩ := mem_records_iff.mp inside
  obtain ⟨q', held', use⟩ := isolated i r target known leads
  cases held.symm.trans held'
  rw [own, chunk] at use
  have le : other ≤ root := use
  exact ⟨mem_chunkRoots.mpr ⟨q, mem_records_iff.mpr ⟨target, held⟩, chunk⟩, by omega⟩

end FileGraph

namespace Session

variable {id : Nat}

theorem Runs.strays_file (run : Runs tree (.file path origin id) s checks s') (coherent : s.graph.Coherent)
    (shaped : ShapedBut none s) (anchored : ∀ {p}, origin.parent = some p → p < s.graph.size)
    (last : ∀ {i r}, s.graph.get? i = some r → CanUse origin.lazyRoot r.lazyRoot)
    (strays : s'.graph.Strays i target) : s.graph.Strays i target := by
  obtain ⟨r, q, held, leads, there, stray⟩ := strays
  have lineage := run.lineage coherent anchored
  by_cases old : i < s.graph.size
  · have before := run.get?_before coherent (by simp [Task.own?]) old held
    have inside := (shaped i r before (by simp)).targets target leads
    exact ⟨r, q, before, leads, run.get?_before coherent (by simp [Task.own?]) inside there, stray⟩
  · obtain ⟨chunk, -⟩ := lineage i r (by omega) held
    refine absurd ?_ stray
    rw [chunk]
    by_cases earlier : target < s.graph.size
    · exact last (run.get?_before coherent (by simp [Task.own?]) earlier there)
    · obtain ⟨chunk', -⟩ := lineage target q (by omega) there
      rw [chunk']
      exact canUse_self _

theorem Drains.strays (drains : Drains tree cursor s checks s') (coherent : s.graph.Coherent)
    (asked : Requested tree s) (placed : s.graph.Placed) (shaped : ShapedBut none s)
    (strays : s'.graph.Strays i target) : s.graph.Strays i target := by
  induction drains with
  | done => exact strays
  | known _ _ _ ih => exact ih coherent asked placed shaped strays
  | chunk next new run _ ih =>
    have later := ih (run.grows.coherent coherent) (run.requested asked)
      (run.placed_chunk coherent asked placed next new) (run.shaped coherent (by simp [Task.own?]) shaped) strays
    refine run.strays_file coherent shaped (fun known => coherent.lookup?_lt known) ?_ later
    -- the chunks so far have smaller numbers
    intro i r held
    cases chunk : r.lazyRoot with
    | none => trivial
    | some root =>
      have le := (placed.roots held chunk).1
      have inside := get?_eq_some_lt held
      exact Nat.le_of_lt (by omega)

theorem Builds.isolated {resolver : Resolver} {library : Bool} {globals : SortedMap String String} {id : Nat}
    (builds : Builds tree entry (new resolver library globals) id checks s) : s.graph.Isolated := by
  have fresh := coherent_new resolver library globals
  obtain ⟨run, drains⟩ := builds
  have lineage := run.lineage fresh (by simp [Task.Anchored])
  have placed := placed_of_descends placed_empty run.grows lineage (by simp [Task.chunk?])
  have nothing : ShapedBut none (new resolver library globals) := fun _ _ held => by cases held
  have shaped := run.shaped fresh (by simp [Task.own?]) nothing
  have coherent := run.grows.coherent fresh
  intro i r target held leads
  obtain ⟨q, there⟩ := get?_of_lt ((drains.shaped coherent shaped i r held (by simp)).targets target leads)
  refine ⟨q, there, Classical.not_not.mp fun stray => ?_⟩
  have strays := drains.strays coherent (run.requested (requested_new resolver library globals tree)) placed shaped
    ⟨r, q, held, leads, there, stray⟩
  obtain ⟨_, _, early, -⟩ := run.strays_file fresh nothing (by simp) (fun held => by cases held) strays
  cases early

end Session

namespace FileGraph

variable {g : FileGraph}

def tables (g : FileGraph) : List (Option Nat) := none :: g.chunkRoots.map some

def filesOf (g : FileGraph) : Option Nat → List FileRecord
  | none => g.mainFiles
  | some root => g.chunkFiles root

theorem mem_filesOf : r ∈ g.filesOf table ↔ r ∈ g.records ∧ r.lazyRoot = table ∧ r.isCompiled := by
  cases table with
  | none => exact mem_mainFiles
  | some root => exact mem_chunkFiles

theorem lazyRoot_mem_tables (mem : r ∈ g.records) : r.lazyRoot ∈ g.tables := by
  unfold tables
  cases chunk : r.lazyRoot with
  | none => exact mem_cons_self
  | some root => exact mem_cons_of_mem _ (mem_map_of_mem (mem_chunkRoots.mpr ⟨r, mem, chunk⟩))

theorem existsUnique_table (mem : r ∈ g.records) (compiled : r.isCompiled) :
    ∃! table, table ∈ g.tables ∧ r ∈ g.filesOf table := by
  refine ⟨r.lazyRoot, ⟨lazyRoot_mem_tables mem, mem_filesOf.mpr ⟨mem, rfl, compiled⟩⟩, ?_⟩
  rintro table ⟨-, inside⟩
  exact (mem_filesOf.mp inside).2.1.symm

end FileGraph

namespace BuildTarget

variable {t : BuildTarget}

theorem blank_get?_keepModules (modules) (i) :
    ((t.keepModules modules).session.graph.get? i).map (·.blank) = (t.session.graph.get? i).map (·.blank) := by
  have step (s : Session) (m : GeneratedModule) :
      ((keepModule s m).graph.get? i).map (·.blank) = (s.graph.get? i).map (·.blank) :=
    blank_get?_update s.graph m.id (fun _ => by rfl) i
  unfold keepModules
  generalize start : ({ t.session with log := t.session.log.clearCodes generationCodes } : Session) = s
  have graph : t.session.graph = s.graph := by rw [← start]
  rw [graph]
  clear start graph
  dsimp only
  induction modules generalizing s with
  | nil => rfl
  | cons m rest ih => rw [foldl_cons, ih, step]

theorem mem_modulesOf_keepModules {modules : List GeneratedModule} {m : GeneratedModule}
    (held : t.session.graph.get? m.id = some r) :
    m ∈ (t.keepModules kept).modulesOf modules table ↔ m ∈ modules ∧ r.lazyRoot = table := by
  have places := blank_get?_keepModules (t := t) kept m.id
  rw [held] at places
  obtain ⟨r', there, same⟩ := Option.map_eq_some_iff.mp places
  rw [modulesOf, mem_filter, there]
  simp [(FileRecord.blank_eq_iff.mp same).2.2.2.1]

theorem exists_module (mem : r ∈ t.session.graph.records) (compiled : r.isCompiled)
    (surface : r.surface = some source) : ∃ m ∈ t.modules, m.id = r.id := by
  unfold modules
  generalize (⟨t.session.graph, t.session.registry, t.session.library⟩ : GenerationContext) = cx
  cases generated : r.generate cx with
  | none => simp [FileRecord.generate, surface] at generated
  | some m =>
    refine ⟨m, mem_filterMap.mpr ⟨r, mem_filter.mpr ⟨mem, compiled⟩, generated⟩, ?_⟩
    rw [FileRecord.generate, surface, Option.map_some] at generated
    cases generated
    rfl

end BuildTarget

/-- After a build of a new session, imports stay within the tables that their file can use, a chunk waits only
for chunks before it, and each compiled file is in one table, whose module is emitted there and nowhere else. -/
theorem Session.compileEntry_isolates_chunks (resolver : Resolver) (library : Bool)
    (globals : SortedMap String String) (tree : FileTree) (entry : Path) :
    let s := ((new resolver library globals).compileEntry tree entry).1
    s.graph.Isolated ∧
    (∀ root, ∀ other ∈ s.graph.chunkDependencies root, other ∈ s.graph.chunkRoots ∧ other < root) ∧
    (∀ r ∈ s.graph.records, r.isCompiled → ∃! table, table ∈ s.graph.tables ∧ r ∈ s.graph.filesOf table) ∧
    ∀ t : BuildTarget, t.session = s → ∀ r ∈ s.graph.records, r.isCompiled → ∃ m ∈ t.modules, m.id = r.id ∧
      ∃! table, table ∈ s.graph.tables ∧ m ∈ (t.keepModules t.modules).modulesOf t.modules table := by
  intro s
  obtain ⟨checks, builds⟩ := compileEntry_builds (requested_new resolver library globals tree) entry
  have isolated := builds.isolated
  have resting := (compileEntry_resting resolver library globals tree entry).1
  refine ⟨isolated, fun _ _ => isolated.dependency_lt, fun _ => existsUnique_table, ?_⟩
  intro t same r member compiled
  obtain ⟨i, present⟩ := mem_records_iff.mp member
  obtain ⟨source, surface, -⟩ := (resting.shaped i r present (by simp)).compiled compiled
  obtain ⟨m, generated, ids⟩ := BuildTarget.exists_module (same ▸ member) compiled surface
  have there : t.session.graph.get? m.id = some r := by rw [ids, resting.coherent.ids present, same, present]
  refine ⟨m, generated, ids, r.lazyRoot, ⟨lazyRoot_mem_tables member, ?_⟩, ?_⟩
  · exact (BuildTarget.mem_modulesOf_keepModules there).mpr ⟨generated, rfl⟩
  · rintro table ⟨-, inside⟩
    exact ((BuildTarget.mem_modulesOf_keepModules there).mp inside).2.symm

end ComponentCompiler
