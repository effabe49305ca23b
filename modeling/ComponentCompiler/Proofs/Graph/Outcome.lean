import ComponentCompiler.Proofs.Graph.Termination
import Mathlib.Data.List.TakeWhile

/-!
What a file has become at the end of its compilation. Main statement: `Runs.settles`, every file
that a run enters is settled at its end.
-/

namespace ComponentCompiler

open List
open FileGraph (get?_update_self size_update)

variable {resolver : Resolver} {tree : FileTree}

def FileTree.surface? (tree : FileTree) (path : Path) : Option SourceModule :=
  match tree.readText path with
  | .error _ => none
  | .ok source => (SourceModule.extract source path.key).toOption

theorem extracted_of_surface? (loaded : tree.surface? path = some m) :
    ∃ source file, SourceModule.extract source file = .ok m := by
  unfold FileTree.surface? at loaded
  split at loaded
  · cases loaded
  · cases extracted : SourceModule.extract _ path.key with
    | error d =>
      rw [extracted] at loaded
      cases loaded
    | ok m' =>
      rw [extracted] at loaded
      cases loaded
      exact ⟨_, _, extracted⟩

def importPath? (resolver : Resolver) (library : Bool) (tree : FileTree) (path : Path)
    (statement : ImportStatement) : Option Path :=
  (resolver.resolve tree statement.source path).bind fun found =>
    if library && found.package?.isSome then none else some found.path.clean

def followedImports (resolver : Resolver) (tree : FileTree) (path : Path) (statements : List ImportStatement) :
    List ImportStatement :=
  statements.takeWhile fun statement => (resolver.resolve tree statement.source path).isSome

inductive Fault (resolver : Resolver) (tree : FileTree) (path : Path) : Prop where
  | unreadable {cause} (unread : tree.readText path = .error cause)
  | malformed {source d} (read : tree.readText path = .ok source)
      (refused : SourceModule.extract source path.key = .error d)
  | unresolved {m statement} (loaded : tree.surface? path = some m) (member : statement ∈ m.imports)
      (missing : resolver.resolve tree statement.source path = none)

theorem followedImports_of_isSome
    (resolves : ∀ statement ∈ statements, (resolver.resolve tree statement.source path).isSome) :
    followedImports resolver tree path statements = statements := takeWhile_eq_self_iff.mpr resolves

theorem Fault.not_of_resolves (loaded : tree.surface? path = some m)
    (resolves : ∀ statement ∈ m.imports, (resolver.resolve tree statement.source path).isSome) :
    ¬Fault resolver tree path := by
  intro fault
  cases fault with
  | unreadable unread => simp [FileTree.surface?, unread] at loaded
  | malformed read refused => simp [FileTree.surface?, read, refused, Except.toOption] at loaded
  | unresolved loaded' mem missing =>
    rw [loaded] at loaded'
    cases loaded'
    have some := resolves _ mem
    rw [missing] at some
    cases some

namespace Session

variable {tree : FileTree} {s s' : Session} {r : FileRecord}
variable {m : SourceModule} {path : Path} {statements : List ImportStatement} {checks : List Check} {id size : Nat}

theorem toOption_loadSurface : (s.loadSurface tree r).toOption = tree.surface? r.path := by
  unfold loadSurface FileTree.surface? FileRecord.key
  cases tree.readText r.path with
  | error cause => rfl
  | ok source =>
    dsimp only
    cases SourceModule.extract source r.path.key <;> rfl

theorem surface?_of_loadSurface (loaded : s.loadSurface tree r = .ok m) : tree.surface? r.path = some m := by
  rw [← toOption_loadSurface (s := s), loaded]
  rfl

theorem surface?_of_loadSurface_error (failed : s.loadSurface tree r = .error d) : tree.surface? r.path = none := by
  rw [← toOption_loadSurface (s := s), failed]
  rfl

theorem fault_of_loadSurface (failed : s.loadSurface tree r = .error d) : Fault s.resolver tree r.path := by
  unfold loadSurface at failed
  split at failed
  · rename_i cause unread
    exact .unreadable unread
  · rename_i source read
    split at failed
    · cases failed
    · rename_i d' refused
      exact .malformed read refused

/-! ### Imports that have been followed -/

def Follows (tree : FileTree) (s : Session) (path : Path) (statements : List ImportStatement) : Prop :=
  ∀ statement ∈ followedImports s.resolver tree path statements, ∀ {p},
    importPath? s.resolver s.library tree path statement = some p → (s.graph.lookup? p).isSome

theorem Follows.mono (follows : Follows tree s path statements) (grows : Grows s s') :
    Follows tree s' path statements := by
  intro statement mem p leads
  rw [grows.resolver] at mem leads
  rw [grows.library] at leads
  exact grows.isSome_lookup (follows statement mem leads)

theorem importPath?_of_outside {statement : ImportStatement}
    (resolved : s.resolver.resolve tree statement.source path = some found)
    (package : s.outsidePackage? found = some name) : importPath? s.resolver s.library tree path statement = none := by
  unfold outsidePackage? at package
  split at package
  · rename_i library
    simp [importPath?, resolved, library, package]
  · cases package

theorem importPath?_of_inside {statement : ImportStatement}
    (resolved : s.resolver.resolve tree statement.source path = some found) (inside : s.outsidePackage? found = none) :
    importPath? s.resolver s.library tree path statement = some found.path.clean := by
  unfold outsidePackage? at inside
  split at inside
  · simp [importPath?, resolved, inside]
  · rename_i application
    simp [importPath?, resolved, application]

theorem follows_cons {statement : ImportStatement} {rest : List ImportStatement}
    (here : ∀ {p}, importPath? s.resolver s.library tree path statement = some p → (s.graph.lookup? p).isSome)
    (follows : Follows tree s path rest) : Follows tree s path (statement :: rest) := by
  intro other mem p leads
  unfold followedImports at mem
  rw [takeWhile_cons] at mem
  split at mem
  · rcases mem_cons.mp mem with rfl | later
    · exact here leads
    · exact follows other later leads
  · cases mem

theorem Runs.follows (run : Runs tree (.imports r rest complete) s checks s') :
    Follows tree s' r.path (rest.map (·.1)) ∧
      (complete ↔ ∀ statement ∈ rest.map (·.1),
        (s.resolver.resolve tree statement.source r.path).isSome) := by
  induction rest generalizing s checks with
  | nil =>
    cases run
    exact ⟨fun _ mem => absurd mem not_mem_nil, by simp⟩
  | cons first rest ih =>
    cases run with
    | unresolved missing =>
      refine ⟨fun _ mem => ?_, by simp [missing]⟩
      rw [followedImports, map_cons, takeWhile_cons, if_neg] at mem
      · cases mem
      · simp [report, missing]
    | @outside _ _ _ statement index _ _ found name _ resolved package run =>
      have grows := grows_outside (s := s) tree r index found name
      obtain ⟨follows, all⟩ := ih run
      rw [grows.resolver] at all
      refine ⟨follows_cons ?_ follows, by simp [all, resolved]⟩
      intro p leads
      rw [run.grows.resolver, run.grows.library, grows.resolver, grows.library,
        importPath?_of_outside resolved package] at leads
      cases leads
    | @linked _ s₁ _ _ statement index _ _ found target _ _ resolved inside file run =>
      have grows := (grows_noteImport tree r index found).trans file.grows
      have linked := grows_linked (s := s₁) r.id index target
      obtain ⟨follows, all⟩ := ih run
      rw [linked.resolver, grows.resolver] at all
      refine ⟨follows_cons ?_ follows, by simp [all, resolved]⟩
      intro p leads
      rw [run.grows.resolver, run.grows.library, linked.resolver, linked.library, grows.resolver, grows.library,
        importPath?_of_inside resolved inside] at leads
      cases leads
      exact run.grows.isSome_lookup (linked.isSome_lookup (by simp [file.lookup]))

theorem Runs.fault (run : Runs tree (.imports r m.imports.zipIdx false) s checks s')
    (loaded : tree.surface? r.path = some m) : Fault s.resolver tree r.path := by
  have all := run.follows.2
  rw [zipIdx_map_fst] at all
  have missing : ∃ statement ∈ m.imports, s.resolver.resolve tree statement.source r.path = none := by
    simpa using all
  obtain ⟨statement, mem, missing⟩ := missing
  exact .unresolved loaded mem missing

/-! ### The slots of imports -/

variable {a : FileRecord} {statement : ImportStatement} {found : ResolvedImport}

theorem noteImport_own (tree) (index) (found)
    (held : s.graph.get? r.id = some a) :
    (s.noteImport tree r index found).graph.get? r.id =
      some { a with resolved := a.resolved.set index (some found) } := by
  rw [graph_noteImport, get?_update_self, held]
  rfl

theorem outside_own (tree) (index) (found) (name)
    (held : s.graph.get? r.id = some a) :
    ((s.noteImport tree r index found).checkPackageImport r.id index name).graph.get? r.id =
      some { a with resolved := a.resolved.set index (some found) } := by
  rw [graph_checkPackageImport]
  exact noteImport_own tree index found held

theorem setTarget_own (held : s.graph.get? id = some a) :
    (s.setTarget id index target).graph.get? id =
      some { a with importTargets := a.importTargets.set index (some target) } := by
  rw [graph_setTarget, get?_update_self, held]
  rfl

/-- What an import that has been followed leaves in the record of its file. The run to the target in between
changes no record that was there before. -/
theorem linked_own (coherent : s.graph.Coherent) (held : s.graph.get? r.id = some a)
    (file : Runs tree (.file found.path origin target) (s.noteImport tree r index found) checks s₁) :
    (s₁.setTarget r.id index target).graph.get? r.id = some
      { a with
        resolved := a.resolved.set index (some found)
        importTargets := a.importTargets.set index (some target) } := by
  have noted := (grows_noteImport tree r index found).coherent coherent
  exact setTarget_own (file.keeps noted (noteImport_own tree index found held) (by simp [Task.own?]))

theorem Runs.imports_own (run : Runs tree (.imports r rest complete) s checks s') (coherent : s.graph.Coherent)
    (held : s.graph.get? r.id = some a) :
    ∃ resolved targets, s'.graph.get? r.id = some { a with resolved := resolved, importTargets := targets } := by
  induction rest generalizing s a checks with
  | nil =>
    cases run
    exact ⟨_, _, held⟩
  | cons first rest ih =>
    cases run with
    | unresolved => exact ⟨_, _, held⟩
    | @outside _ _ _ _ index _ _ found name _ _ _ run =>
      have coherent' := (grows_outside tree r index found name).coherent coherent
      obtain ⟨resolved, targets, last⟩ := ih run coherent' (outside_own tree index found name held)
      exact ⟨resolved, targets, last⟩
    | @linked _ s₁ _ _ _ index _ _ found target _ _ _ _ file run =>
      have grows := ((grows_noteImport tree r index found).trans file.grows).trans (grows_linked r.id index target)
      have linked := linked_own coherent held file
      rw [← graph_checkImport r.id index] at linked
      obtain ⟨resolved, targets, last⟩ := ih run (grows.coherent coherent) linked
      exact ⟨resolved, targets, last⟩

def importSlot (tree : FileTree) (s : Session) (path : Path) (statement : ImportStatement) : Option Nat :=
  (importPath? s.resolver s.library tree path statement).bind s.graph.lookup?

theorem Grows.importSlot_eq (grows : Grows s s')
    (resolved : s.resolver.resolve tree statement.source path = some found) (inside : s.outsidePackage? found = none)
    (known : s'.graph.lookup? found.path.clean = some target) : importSlot tree s' path statement = some target := by
  rw [importSlot, grows.resolver, grows.library, importPath?_of_inside resolved inside]
  exact known

theorem Grows.importSlot_eq_none (grows : Grows s s')
    (resolved : s.resolver.resolve tree statement.source path = some found)
    (package : s.outsidePackage? found = some name) : importSlot tree s' path statement = none := by
  rw [importSlot, grows.resolver, grows.library, importPath?_of_outside resolved package]
  rfl

/-- When all imports have been followed, each slot holds what its import leads to. The slots before those of
the imports that are left have been filled already. -/
theorem Runs.slots {statements : List ImportStatement} (resolved : List (Option ResolvedImport))
    (targets : List (Option Nat)) (same : targets.length = resolved.length)
    (run : Runs tree (.imports r (statements.zipIdx resolved.length) true) s checks s') (coherent : s.graph.Coherent)
    (held : s.graph.get? r.id = some
      { a with
        resolved := resolved ++ replicate statements.length none
        importTargets := targets ++ replicate statements.length none }) :
    s'.graph.get? r.id = some
      { a with
        resolved := resolved ++ statements.map fun statement => s'.resolver.resolve tree statement.source r.path
        importTargets := targets ++ statements.map (importSlot tree s' r.path) } := by
  induction statements generalizing s checks resolved targets with
  | nil =>
    cases run
    exact held
  | cons statement rest ih =>
    rw [zipIdx_cons] at run
    rw [length_cons, replicate_succ, replicate_succ] at held
    cases run with
    | @outside _ _ _ _ _ _ _ found name _ resolves package run =>
      have grows := grows_outside (s := s) tree r resolved.length found name
      have own := outside_own tree resolved.length found name held
      have last := ih (resolved ++ [some found]) (targets ++ [none]) (by simp [same])
        (by simpa using run) (grows.coherent coherent) (by simpa using own)
      have leads : s'.resolver.resolve tree statement.source r.path = some found := by
        rw [(grows.trans run.grows).resolver, resolves]
      rw [last, map_cons, map_cons, leads, (grows.trans run.grows).importSlot_eq_none resolves package]
      simp
    | @linked _ s₁ _ _ _ _ _ _ found target _ _ resolves inside file run =>
      have grows := ((grows_noteImport tree r resolved.length found).trans file.grows).trans
        (grows_linked r.id resolved.length target)
      have own := linked_own coherent held file
      rw [← graph_checkImport r.id resolved.length, ← same] at own
      have last := ih (resolved ++ [some found]) (targets ++ [some target]) (by simp [same])
        (by simpa using run) (grows.coherent coherent) (by simpa [same] using own)
      have leads : s'.resolver.resolve tree statement.source r.path = some found := by
        rw [(grows.trans run.grows).resolver, resolves]
      have known := run.grows.lookup ((grows_linked r.id resolved.length target).lookup file.lookup)
      rw [last, map_cons, map_cons, leads, (grows.trans run.grows).importSlot_eq resolves inside known]
      simp

/-! ### Outcomes -/

inductive Outcome (tree : FileTree) (s : Session) (r : FileRecord) : Prop where
  | failed (fault : Fault s.resolver tree r.path) (record : r = { r.blank with state := .failed })
  | compiled {m : SourceModule} (loaded : tree.surface? r.path = some m)
      (resolves : ∀ statement ∈ m.imports, (s.resolver.resolve tree statement.source r.path).isSome)
      (record : r =
        { r.blank with
          state := if r.package.isSome then .compiledExternal else .compiled
          surface := some m
          annotations := r.annotations
          resolved := m.imports.map fun statement => s.resolver.resolve tree statement.source r.path
          importTargets := m.imports.map (importSlot tree s r.path)
          lazyTargets := m.lazyLoads.map (lazyTarget? s.resolver tree r.path) })
      (requested : ∀ load ∈ m.lazyLoads, ∀ {request}, lazyRequest? s.resolver tree r.path load = some request →
        request ∈ s.requests)

/-- A file that is done with: its outcome is known, and the imports that it follows have been followed. -/
structure Settled (tree : FileTree) (s : Session) (r : FileRecord) : Prop where
  outcome : Outcome tree s r
  follows : ∀ {m}, tree.surface? r.path = some m → Follows tree s r.path m.imports

theorem Grows.importSlot (grows : Grows s s')
    (resolves : ∀ statement ∈ statements, (s.resolver.resolve tree statement.source path).isSome)
    (follows : Follows tree s path statements) :
    statements.map (importSlot tree s' path) = statements.map (importSlot tree s path) := by
  apply map_congr_left
  intro statement mem
  rw [Session.importSlot, Session.importSlot, grows.resolver, grows.library]
  cases leads : importPath? s.resolver s.library tree path statement with
  | none => rfl
  | some p =>
    have known := follows statement (by rwa [followedImports_of_isSome resolves]) leads
    obtain ⟨target, known⟩ := Option.isSome_iff_exists.mp known
    rw [Option.bind_some, Option.bind_some, known, grows.lookup known]

theorem Settled.withLog (settled : Settled tree s r) (log) : Settled tree { s with log := log } r := by
  refine ⟨?_, settled.follows⟩
  cases settled.outcome with
  | failed fault record => exact .failed fault record
  | compiled loaded resolves record requested => exact .compiled loaded resolves record requested

theorem Settled.mono (settled : Settled tree s r) (grows : Grows s s') : Settled tree s' r := by
  refine ⟨?_, fun loaded => (settled.follows loaded).mono grows⟩
  cases settled.outcome with
  | failed fault record => exact .failed (by rwa [grows.resolver]) record
  | compiled loaded resolves record requested =>
    refine .compiled loaded (by rwa [grows.resolver]) ?_ ?_
    · rw [grows.resolver, grows.importSlot resolves (settled.follows loaded)]
      exact record
    · intro load mem request asked
      rw [grows.resolver] at asked
      exact grows.requests.subset (requested load mem asked)

theorem fail_own (held : s.graph.get? id = some a) :
    (s.fail id).graph.get? id = some
      { a with state := .failed, surface := none, resolved := [], annotations := [], importTargets := [] } := by
  rw [graph_fail held, get?_update_self, held]
  rfl

theorem begin_own (held : s.graph.get? id = some a) (r) (m) :
    ∃ annotations, (s.begin id r m).graph.get? id = some
      { a with
        annotations := annotations
        surface := some m
        resolved := replicate m.imports.length none
        importTargets := replicate m.imports.length none } := by
  obtain ⟨added, graph⟩ := graph_begin (s := s) id r m
  refine ⟨a.annotations ++ added, ?_⟩
  rw [graph, get?_update_self, held]
  rfl

theorem Runs.begun_own (run : Runs tree (.imports r m.imports.zipIdx complete) (s.begin id r m) checks s')
    (coherent : s.graph.Coherent) (held : s.graph.get? id = some r) :
    ∃ annotations resolved targets, s'.graph.get? id = some
      { r with annotations := annotations, surface := some m, resolved := resolved, importTargets := targets } := by
  cases coherent.ids held
  obtain ⟨annotations, own⟩ := begin_own held r m
  exact ⟨annotations, run.imports_own ((grows_begin r.id r m).coherent coherent) own⟩

theorem finish_own (same : r.id = id) (held : s.graph.get? id = some a) (m) :
    (s.finish tree r m).graph.get? id = some
      { a with
        lazyTargets := a.lazyTargets ++ m.lazyLoads.map (lazyTarget? s.resolver tree r.path)
        state := if a.package.isSome then .compiledExternal else .compiled } := by
  rw [graph_finish, same, get?_update_self, held]
  rfl

def SettlesAt (tree : FileTree) (s : Session) (r : FileRecord) : Prop :=
  ∃ r', s.graph.get? r.id = some r' ∧ r'.blank = r.blank ∧ Settled tree s r'

theorem settlesAt_unread (held : s.graph.get? r.id = some r.blank) (failed : s.loadSurface tree r.blank = .error d) :
    SettlesAt tree ((s.report d).fail r.id) r := by
  have grows := (grows_report (s := s) d).trans (grows_fail r.id)
  refine ⟨_, fail_own (s := s.report d) held, rfl, .failed ?_ rfl, ?_⟩
  · rw [grows.resolver]
    exact fault_of_loadSurface failed
  · intro m loaded
    have unread := surface?_of_loadSurface_error failed
    rw [show tree.surface? r.blank.path = some m from loaded] at unread
    cases unread

theorem Runs.settlesAt_stopped
    (run : Runs tree (.imports r.blank m.imports.zipIdx false) (s.begin r.id r.blank m) checks s')
    (coherent : s.graph.Coherent) (held : s.graph.get? r.id = some r.blank)
    (loaded : tree.surface? r.blank.path = some m) : SettlesAt tree (s'.fail r.id) r := by
  obtain ⟨added, resolved, targets, own⟩ := run.begun_own coherent held
  have follows := run.follows.1
  rw [zipIdx_map_fst] at follows
  have ended := grows_fail (s := s') r.id
  refine ⟨_, fail_own own, rfl, .failed ?_ rfl, ?_⟩
  · rw [ended.resolver, run.grows.resolver]
    exact run.fault loaded
  · intro m' loaded'
    cases loaded.symm.trans loaded'
    exact follows.mono ended

theorem Runs.settlesAt_finished {m : SourceModule}
    (run : Runs tree (.imports r.blank m.imports.zipIdx true) (s.begin r.id r.blank m) checks s')
    (coherent : s.graph.Coherent) (held : s.graph.get? r.id = some r.blank)
    (loaded : tree.surface? r.blank.path = some m) : SettlesAt tree (s'.finish tree r.blank m) r := by
  have begun := grows_begin (s := s) r.id r.blank m
  obtain ⟨added, own⟩ := begin_own held r.blank m
  have own := Runs.slots (a := { r.blank with annotations := added, surface := some m }) [] [] rfl run
    (begun.coherent coherent) own
  obtain ⟨follows, all⟩ := run.follows
  rw [zipIdx_map_fst] at follows all
  have resolves := all.mp rfl
  rw [← run.grows.resolver] at resolves
  have ended := grows_finish (s := s') tree r.blank m
  refine ⟨_, finish_own rfl own m, rfl, .compiled loaded ?_ ?_ ?_, ?_⟩
  · rw [ended.resolver]
    exact resolves
  · rw [ended.resolver, ended.importSlot resolves follows]
    rfl
  · intro load mem request asked
    rw [ended.resolver] at asked
    rw [requests_finish]
    exact mem_append_right _ (mem_filterMap.mpr ⟨load, mem, asked⟩)
  · intro m' loaded'
    cases loaded.symm.trans loaded'
    exact follows.mono ended

theorem Runs.settles_record (run : Runs tree (.record id) s checks s') (coherent : s.graph.Coherent)
    (held : s.graph.get? id = some r.blank) :
    ∃ r', s'.graph.get? id = some r' ∧ r'.blank = r.blank ∧ Settled tree s' r' := by
  have ids : r.blank.id = id := coherent.ids held
  subst ids
  cases loaded : s.loadSurface tree r.blank with
  | error d =>
    obtain ⟨rfl, rfl⟩ := run.of_error held loaded
    exact settlesAt_unread held loaded
  | ok m =>
    obtain ⟨complete, s₁, inner, rfl⟩ := run.of_ok held loaded
    have loaded := surface?_of_loadSurface loaded
    cases complete with
    | false => exact inner.settlesAt_stopped coherent held loaded
    | true => exact inner.settlesAt_finished coherent held loaded

/-! ### Everything a run enters -/

def SettledFrom (tree : FileTree) (size : Nat) (s : Session) : Prop :=
  ∀ i r, size ≤ i → s.graph.get? i = some r → Settled tree s r

theorem settledFrom_size (tree) (s : Session) : SettledFrom tree s.graph.size s :=
  fun _ _ later held => absurd (FileGraph.get?_eq_some_lt held) (Nat.not_lt.mpr later)

theorem SettledFrom.of_get?_eq (settled : SettledFrom tree size s) (grows : Grows s s')
    (same : ∀ {i}, size ≤ i → s'.graph.get? i = s.graph.get? i) : SettledFrom tree size s' := by
  intro i r later held
  rw [same later] at held
  exact (settled i r later held).mono grows

theorem SettledFrom.of_keeps (settled : SettledFrom tree size s) (grows : Grows s s')
    (kept : ∀ {i r}, size ≤ i → s.graph.get? i = some r → s'.graph.get? i = some r)
    (new : SettledFrom tree s.graph.size s') : SettledFrom tree size s' := by
  intro i r later held
  by_cases inside : i < s.graph.size
  · obtain ⟨r', before⟩ := FileGraph.get?_of_lt inside
    have same := kept later before
    rw [held] at same
    cases same
    exact (settled i r later before).mono grows
  · exact new i r (by omega) held

theorem Runs.settles (run : Runs tree task s checks s') (coherent : s.graph.Coherent)
    (own : ∀ {i}, task.own? = some i → i < s.graph.size) : SettledFrom tree s.graph.size s' := by
  induction run with
  | visited => exact settledFrom_size tree _
  | @entered s s' path origin _ new run ih =>
    have entered := (grows_enter (Path.clean_clean path) new origin).coherent coherent
    have size : (s.enter path.clean origin).graph.size = s.graph.size + 1 := FileGraph.size_push
    intro i r later held
    by_cases here : i = s.graph.size
    · subst here
      obtain ⟨r', held', -, settled⟩ := run.settles_record (r := s.graph.newRecord path.clean origin.parent
        origin.lazyRoot origin.package) entered (get?_enter s path.clean origin)
      rw [held] at held'
      cases held'
      exact settled
    · exact ih entered (by simp [Task.own?, size]) i r (by omega) held
  | @unread s id _ d _ _ =>
    have inside : id < s.graph.size := own rfl
    exact (settledFrom_size tree s).of_get?_eq ((grows_report d).trans (grows_fail id))
      fun later => get?_fail_of_ne (by omega)
  | @stopped s _ id r m _ held _ _ ih =>
    have inside : id < s.graph.size := own rfl
    have settled := ih ((grows_begin id r m).coherent coherent) (by simpa [Task.own?, coherent.ids held] using inside)
    rw [size_begin] at settled
    exact settled.of_get?_eq (grows_fail id) fun later => get?_fail_of_ne (by omega)
  | @finished s _ id r m _ held _ _ ih =>
    have inside : id < s.graph.size := own rfl
    have ids := coherent.ids held
    have settled := ih ((grows_begin id r m).coherent coherent) (by simpa [Task.own?, ids] using inside)
    rw [size_begin] at settled
    exact settled.of_get?_eq (grows_finish tree r m) fun later => get?_finish_of_ne (by omega) tree m
  | followed => exact settledFrom_size tree _
  | unresolved => exact (settledFrom_size tree _).of_get?_eq (grows_report _) fun _ => rfl
  | @outside _ _ r _ index _ _ found name _ _ _ _ ih =>
    have settled := ih ((grows_outside tree r index found name).coherent coherent) (by simpa [Task.own?] using own rfl)
    simpa using settled
  | @linked s s₁ _ r _ index _ _ found target _ _ _ _ run rest file ih =>
    have inside : r.id < s.graph.size := own rfl
    have noted := (grows_noteImport tree r index found).coherent coherent
    have reached := run.grows.coherent noted
    have linked := (grows_linked r.id index target).coherent reached
    have first := file noted (by simp [Task.own?])
    have size := run.grows.size_le
    rw [graph_noteImport, size_update] at first size
    have later := ih linked (by simp [Task.own?]; omega)
    rw [graph_checkImport, graph_setTarget, size_update] at later
    refine first.of_keeps ((grows_linked r.id index target).trans rest.grows) ?_ later
    intro i kept after held
    have apart : i ≠ r.id := by omega
    exact rest.keeps linked (by rwa [graph_checkImport, get?_setTarget_of_ne apart]) (by simpa [Task.own?] using apart.symm)

theorem SettledFrom.run (settled : SettledFrom tree size s) (coherent : s.graph.Coherent)
    (run : Runs tree (.file path origin id) s checks s') : SettledFrom tree size s' := by
  have new := run.settles coherent (by simp [Task.own?])
  exact settled.of_keeps run.grows (fun _ held => run.keeps coherent held (by simp [Task.own?])) new

theorem Drains.settles (drains : Drains tree cursor s checks s') (coherent : s.graph.Coherent)
    (settled : SettledFrom tree size s) : SettledFrom tree size s' :=
  drains.invariant coherent settled fun run coherent settled => settled.run coherent run

theorem Builds.settles (builds : Builds tree entry s id checks s') (coherent : s.graph.Coherent)
    (settled : SettledFrom tree 0 s) : SettledFrom tree 0 s' := by
  obtain ⟨run, drains⟩ := builds
  exact drains.settles (run.grows.coherent coherent) (settled.run coherent run)

end Session

end ComponentCompiler
