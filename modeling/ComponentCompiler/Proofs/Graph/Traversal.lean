import ComponentCompiler.Proofs.Graph.Outcome

/-! Which files a build reaches. Main statement: `compileEntry_reaches_exactly`. -/

namespace ComponentCompiler

open List Option

inductive Reached (resolver : Resolver) (library : Bool) (tree : FileTree) (entry : Path) : Path → Prop where
  | entry : Reached resolver library tree entry entry.clean
  | imported {path m statement p} (importer : Reached resolver library tree entry path)
      (loaded : tree.surface? path = some m) (followed : statement ∈ followedImports resolver tree path m.imports)
      (leads : importPath? resolver library tree path statement = some p) : Reached resolver library tree entry p
  | demanded {path m load found} (importer : Reached resolver library tree entry path)
      (loaded : tree.surface? path = some m) (sound : ¬Fault resolver tree path) (member : load ∈ m.lazyLoads)
      (resolved : resolver.resolve tree load.specifier path = some found) :
      Reached resolver library tree entry found.path.clean

theorem Reached.clean {entry : Path} (reached : Reached resolver library tree entry path) : path.clean = path := by
  cases reached with
  | entry => exact Path.clean_clean entry
  | imported _ _ _ leads =>
    obtain ⟨found, -, inside⟩ := bind_eq_some_iff.mp leads
    split at inside
    · cases inside
    · cases inside
      exact Path.clean_clean found.path
  | demanded => exact Path.clean_clean _

namespace Session

variable {tree : FileTree} {s : Session} {entry : Path}

/-- Everything that is in the session or asked for is a path that the build reaches. -/
structure ReachedOnly (tree : FileTree) (entry : Path) (s : Session) : Prop where
  files : ∀ {i r}, s.graph.get? i = some r → Reached s.resolver s.library tree entry r.path
  requests : ∀ request ∈ s.requests, Reached s.resolver s.library tree entry request.target

theorem ReachedOnly.of_size_eq (only : ReachedOnly tree entry s) (grows : Grows s s')
    (size : s'.graph.size = s.graph.size)
    (requests : ∀ request ∈ s'.requests, request ∈ s.requests ∨
      Reached s.resolver s.library tree entry request.target) : ReachedOnly tree entry s' := by
  refine ⟨?_, ?_⟩
  · intro i r held
    obtain ⟨old, before⟩ := FileGraph.get?_of_lt (size ▸ FileGraph.get?_eq_some_lt held)
    rw [grows.resolver, grows.library, (FileRecord.blank_eq_iff.mp (grows.blank_eq before held)).2.1]
    exact only.files before
  · intro request mem
    rw [grows.resolver, grows.library]
    exact (requests request mem).elim (only.requests request) id

def Task.Expected (tree : FileTree) (entry : Path) (s : Session) : Task → Prop
  | .file path _ _ => Reached s.resolver s.library tree entry path.clean
  | .record _ => True
  | .imports r rest _ => ∀ statement ∈ followedImports s.resolver tree r.path (rest.map (·.1)), ∀ {p},
      importPath? s.resolver s.library tree r.path statement = some p → Reached s.resolver s.library tree entry p

theorem Task.Expected.tail (expected : Task.Expected tree entry s (.imports r ((statement, index) :: rest) complete))
    (resolved : s.resolver.resolve tree statement.source r.path = some found) (grows : Grows s s') :
    Task.Expected tree entry s' (.imports r rest complete') := by
  intro later mem p leads
  rw [grows.resolver] at mem leads ⊢
  rw [grows.library] at leads ⊢
  refine expected later ?_ leads
  rw [followedImports, map_cons, takeWhile_cons_of_pos (by simp [resolved])]
  exact mem_cons_of_mem _ mem

theorem ReachedOnly.imports (only : ReachedOnly tree entry s) {id : Nat} (held : s.graph.get? id = some r)
    (loaded : s.loadSurface tree r = .ok m) (complete) :
    Task.Expected tree entry (s.begin id r m) (.imports r m.imports.zipIdx complete) := by
  have begun := grows_begin (s := s) id r m
  intro statement mem p leads
  rw [zipIdx_map_fst, begun.resolver] at mem
  rw [begun.resolver, begun.library] at leads ⊢
  exact .imported (only.files held) (surface?_of_loadSurface loaded) mem leads

theorem Runs.reachedOnly (run : Runs tree task s checks s') (only : ReachedOnly tree entry s)
    (expected : task.Expected tree entry s) : ReachedOnly tree entry s' := by
  induction run with
  | visited => exact only
  | @entered s _ path origin _ new _ ih =>
    refine ih ⟨?_, only.requests⟩ trivial
    intro i r held
    rw [enter, FileGraph.get?_push] at held
    split at held
    · cases held
      exact expected
    · exact only.files held
  | @unread s id r d =>
    exact only.of_size_eq ((grows_report d).trans (grows_fail id)) (by simp) (by simp +contextual)
  | @stopped s s₁ id r m _ held loaded run ih =>
    have begun := only.of_size_eq (grows_begin id r m) (size_begin id r m) (by simp +contextual)
    exact (ih begun (only.imports held loaded false)).of_size_eq (grows_fail id) (by simp) (by simp +contextual)
  | @finished s s₁ id r m _ held loaded run ih =>
    have begun := only.of_size_eq (grows_begin id r m) (size_begin id r m) (by simp +contextual)
    have grows := (grows_begin id r m).trans run.grows
    refine (ih begun (only.imports held loaded true)).of_size_eq (grows_finish tree r m) (by simp [graph_finish]) ?_
    intro request mem
    rw [requests_finish, mem_append] at mem
    refine mem.imp_right fun new => ?_
    obtain ⟨load, inside, asked⟩ := mem_filterMap.mp new
    obtain ⟨found, resolved, rfl⟩ := map_eq_some_iff.mp asked
    have loaded' := surface?_of_loadSurface loaded
    have resolves := run.follows.2.mp rfl
    rw [zipIdx_map_fst, (grows_begin id r m).resolver] at resolves
    rw [grows.resolver] at resolved
    rw [grows.resolver, grows.library]
    exact .demanded (only.files held) loaded' (Fault.not_of_resolves loaded' resolves) inside resolved
  | followed => exact only
  | unresolved => exact only.of_size_eq (grows_report _) rfl fun _ => .inl
  | @outside s _ r _ index _ _ found name _ resolved _ _ ih =>
    have grows := grows_outside (s := s) tree r index found name
    exact ih (only.of_size_eq grows (by simp) (by simp +contextual)) (expected.tail resolved grows)
  | @linked s s₁ _ r statement index rest _ found target _ _ resolved inside run _ file ih =>
    have noted := grows_noteImport (s := s) tree r index found
    have linked := grows_linked (s := s₁) r.id index target
    have leads : Reached s.resolver s.library tree entry found.path.clean := by
      refine expected statement ?_ (importPath?_of_inside resolved inside)
      rw [followedImports, map_cons, takeWhile_cons_of_pos (by simp [resolved])]
      exact mem_cons_self
    have reached := file (only.of_size_eq noted (by simp) (by simp +contextual))
      (by rw [Task.Expected, noted.resolver, noted.library]; exact leads)
    exact ih (reached.of_size_eq linked (by simp) (by simp +contextual))
      (expected.tail resolved ((noted.trans run.grows).trans linked))

theorem Drains.reachedOnly (drains : Drains tree cursor s checks s') (only : ReachedOnly tree entry s) :
    ReachedOnly tree entry s' := by
  induction drains with
  | done => exact only
  | known _ _ _ ih => exact ih only
  | chunk next _ run _ ih =>
    have asked := only.requests _ (mem_of_getElem? next)
    exact ih (run.reachedOnly only (by rw [Task.Expected, asked.clean]; exact asked))

theorem Outcome.state_cases (outcome : Outcome tree s r) :
    r.state ≠ .inProgress ∧ (r.state = .failed ↔ Fault s.resolver tree r.path) := by
  cases outcome with
  | failed fault record =>
    have state : r.state = .failed := congrArg FileRecord.state record
    exact ⟨by simp [state], by simp [state, fault]⟩
  | compiled loaded resolves record _ =>
    have state : r.state = if r.package.isSome then .compiledExternal else .compiled :=
      congrArg FileRecord.state record
    have sound := Fault.not_of_resolves loaded resolves
    cases package : r.package.isSome <;> simp [package] at state <;> simp [state, sound]

theorem lookup_of_reached (coherent : s.graph.Coherent) (settled : SettledFrom tree 0 s)
    (drained : ∀ request ∈ s.requests, (s.graph.lookup? request.target).isSome)
    (start : (s.graph.lookup? entry.clean).isSome) (reached : Reached s.resolver s.library tree entry path) :
    (s.graph.lookup? path).isSome := by
  induction reached with
  | entry => exact start
  | imported importer loaded followed leads ih =>
    obtain ⟨i, known⟩ := isSome_iff_exists.mp ih
    obtain ⟨r, held, rfl⟩ := coherent.get?_of_lookup? importer.clean known
    exact (settled i r (Nat.zero_le i) held).follows loaded _ followed leads
  | @demanded _ m load found importer loaded sound mem resolved ih =>
    obtain ⟨i, known⟩ := isSome_iff_exists.mp ih
    obtain ⟨r, held, rfl⟩ := coherent.get?_of_lookup? importer.clean known
    cases (settled i r (Nat.zero_le i) held).outcome with
    | failed fault => exact absurd fault sound
    | compiled loaded' _ _ requested =>
      cases some.inj (loaded.symm.trans loaded')
      have asked : lazyRequest? s.resolver tree r.path load = some ⟨found.path.clean, r.path⟩ := by
        rw [lazyRequest?, resolved]
        rfl
      exact drained ⟨found.path.clean, r.path⟩ (requested load mem asked)

variable {resolver : Resolver} {library : Bool} {globals : SortedMap String String} {id : Nat}

theorem Builds.files_reached (builds : Builds tree entry (new resolver library globals) id checks s)
    (held : s.graph.get? i = some r) : Reached resolver library tree entry r.path := by
  have grows := builds.grows
  obtain ⟨run, drains⟩ := builds
  have nothing : ReachedOnly tree entry (new resolver library globals) :=
    ⟨fun held => absurd held (by simp [new, FileGraph.get?]), fun _ mem => absurd mem not_mem_nil⟩
  have reached := (drains.reachedOnly (run.reachedOnly nothing .entry)).files held
  rwa [grows.resolver, grows.library] at reached

theorem Builds.lookup_reached (builds : Builds tree entry (new resolver library globals) id checks s)
    (reached : Reached resolver library tree entry path) : (s.graph.lookup? path).isSome := by
  have fresh := coherent_new resolver library globals
  have coherent := builds.grows.coherent fresh
  have settled := builds.settles fresh (settledFrom_size tree (new resolver library globals))
  rw [← show s.resolver = resolver from builds.grows.resolver,
    ← show s.library = library from builds.grows.library] at reached
  obtain ⟨run, drains⟩ := builds
  have asked := run.requested (requested_new resolver library globals tree)
  have drained := drains.drained asked (fun before => absurd before (Nat.not_lt_zero _))
  exact lookup_of_reached coherent settled drained (drains.grows.isSome_lookup (by rw [run.lookup]; rfl)) reached

/-- A build of a new session stops with one record for each path that it reaches and for no other; the
records that failed are those of files with a fault. -/
theorem compileEntry_reaches_exactly (resolver : Resolver) (library : Bool) (globals : SortedMap String String)
    (tree : FileTree) (entry : Path) :
    let start := new resolver library globals
    let built := start.compileEntry tree entry
    (∃ checks, ∀ id checks' s, Builds tree entry start id checks' s ↔ (s, id) = built ∧ checks' = checks) ∧
    (built.1.graph.records.map (·.path)).Nodup ∧
    (∀ path, path ∈ built.1.graph.records.map (·.path) ↔ Reached resolver library tree entry path) ∧
    ∀ r ∈ built.1.graph.records, r.state ≠ .inProgress ∧ (r.state = .failed ↔ Fault resolver tree r.path) := by
  intro start built
  obtain ⟨checks, builds⟩ := compileEntry_builds (requested_new resolver library globals tree) entry
  -- from here on only the run counts
  change Builds tree entry start built.2 checks built.1 at builds
  generalize built = built at builds ⊢
  obtain ⟨s, id⟩ := built
  have fresh := coherent_new resolver library globals
  have coherent := builds.grows.coherent fresh
  refine ⟨⟨checks, ?_⟩, coherent.nodup_paths, ?_, ?_⟩
  · intro id' checks' s'
    constructor
    · intro other
      obtain ⟨rfl, rfl, rfl⟩ := builds.unique other
      exact ⟨rfl, rfl⟩
    · rintro ⟨same, rfl⟩
      cases same
      exact builds
  · intro path
    constructor
    · intro member
      obtain ⟨r, present, rfl⟩ := List.mem_map.mp member
      obtain ⟨i, present⟩ := FileGraph.mem_records_iff.mp present
      exact builds.files_reached present
    · intro reached
      obtain ⟨i, known⟩ := isSome_iff_exists.mp (builds.lookup_reached reached)
      obtain ⟨r, present, same⟩ := coherent.get?_of_lookup? reached.clean known
      exact List.mem_map.mpr ⟨r, FileGraph.mem_records_iff.mpr ⟨i, present⟩, same⟩
  · intro r member
    obtain ⟨i, present⟩ := FileGraph.mem_records_iff.mp member
    have settled := builds.settles fresh (settledFrom_size tree start) i r (Nat.zero_le i) present
    have state := settled.outcome.state_cases
    rwa [builds.grows.resolver] at state

end Session

end ComponentCompiler
