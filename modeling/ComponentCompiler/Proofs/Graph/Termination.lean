import ComponentCompiler.Proofs.Graph.Run
import ComponentCompiler.Proofs.Resolution.Resolver

/-!
Every compilation stops: a file that is entered takes a clean path of the tree that was free before,
and there are at most two of them for each entry of the tree.
-/

namespace ComponentCompiler.Session

open List

variable {tree : FileTree} {s : Session}
variable {checks : List Check} {request : LazyRequest}

/-! ### Free paths -/

def freePaths (tree : FileTree) (g : FileGraph) : Nat :=
  tree.cleanPaths.countP fun p => (g.lookup? p).isNone

theorem freePaths_le (tree) (g) : freePaths tree g ≤ 2 * tree.entries.size := by
  rw [← tree.length_cleanPaths]
  exact countP_le_length

theorem Grows.free (grows : Grows s s') (free : (s'.graph.lookup? p).isNone) :
    (s.graph.lookup? p).isNone := by
  cases known : s.graph.lookup? p with
  | none => rfl
  | some i =>
    rw [grows.lookup known] at free
    cases free

theorem Grows.freePaths_le (grows : Grows s s') : freePaths tree s'.graph ≤ freePaths tree s.graph :=
  countP_mono_left fun _ _ => grows.free

theorem Grows.freePaths_lt (grows : Grows s s') (inside : path ∈ tree.cleanPaths) (new : s.graph.lookup? path = none)
    (taken : (s'.graph.lookup? path).isSome) : freePaths tree s'.graph < freePaths tree s.graph := by
  apply countP_lt_countP (fun _ _ => grows.free) inside
  · simp [new]
  · simpa using taken

/-! ### The bound is never reached -/

/-- A function that reaches the end of a run to any file of the tree, if few enough paths are free. -/
def Reaches (tree : FileTree) (bound : Nat) (compile : CompileFile) : Prop :=
  ∀ (s : Session) (path : Path) (origin : Origin), path.clean ∈ tree.cleanPaths → freePaths tree s.graph < bound →
    ∃ checks, Runs tree (.file path origin (compile s path origin).2) s checks (compile s path origin).1

variable {bound : Nat}

theorem followImports_runs (reaches : Reaches tree bound compile) (r)
    (rest) (free : freePaths tree s.graph < bound) :
    ∃ checks, Runs tree (.imports r rest (followImports tree compile r rest s).2) s checks
      (followImports tree compile r rest s).1 := by
  induction rest generalizing s with
  | nil => exact ⟨_, .followed⟩
  | cons first rest ih =>
    obtain ⟨statement, index⟩ := first
    rw [followImports]
    cases resolved : s.resolver.resolve tree statement.source r.path with
    | none => exact ⟨_, .unresolved resolved⟩
    | some found =>
      dsimp only
      have noted := grows_noteImport (s := s) tree r index found
      unfold link
      cases package : s.outsidePackage? found with
      | some name =>
        have grows := grows_outside (s := s) tree r index found name
        obtain ⟨checks, run⟩ := ih (Nat.lt_of_le_of_lt grows.freePaths_le free)
        exact ⟨_, .outside resolved package run⟩
      | none =>
        have inside := Resolver.resolve_mem_cleanPaths resolved
        obtain ⟨before, file⟩ := reaches (s.noteImport tree r index found) found.path (importOrigin r found) inside
          (Nat.lt_of_le_of_lt noted.freePaths_le free)
        dsimp only [linkFile]
        generalize compile (s.noteImport tree r index found) found.path (importOrigin r found) = reached at file ⊢
        obtain ⟨s₁, target⟩ := reached
        have grows := (noted.trans file.grows).trans (grows_linked r.id index target)
        obtain ⟨after, run⟩ := ih (Nat.lt_of_le_of_lt grows.freePaths_le free)
        exact ⟨_, .linked resolved package file run⟩

theorem compileRecord_runs_of_reaches (reaches : Reaches tree bound compile) {id : Nat}
    (held : s.graph.get? id = some r) (free : freePaths tree s.graph < bound) :
    ∃ checks, Runs tree (.record id) s checks (s.compileRecord tree compile id) := by
  unfold compileRecord
  rw [held]
  dsimp only
  cases loaded : s.loadSurface tree r with
  | error d => exact ⟨_, .unread held loaded⟩
  | ok m =>
    dsimp only
    obtain ⟨checks, run⟩ := followImports_runs reaches r m.imports.zipIdx
      (Nat.lt_of_le_of_lt (grows_begin (s := s) id r m).freePaths_le free)
    generalize followImports tree compile r m.imports.zipIdx (s.begin id r m) = followed at run
    obtain ⟨s', complete⟩ := followed
    cases complete with
    | true => exact ⟨checks, .finished held loaded run⟩
    | false => exact ⟨checks, .stopped held loaded run⟩

theorem compileFileWithin_runs_of_record {path : Path}
    (record : s.graph.lookup? path.clean = none → ∃ checks, Runs tree (.record s.graph.size)
      (s.enter path.clean origin) checks
      ((s.enter path.clean origin).compileRecord tree (compileFileWithin tree fuel) s.graph.size)) :
    ∃ checks, Runs tree (.file path origin (compileFileWithin tree (fuel + 1) s path origin).2) s checks
      (compileFileWithin tree (fuel + 1) s path origin).1 := by
  rw [compileFileWithin]
  cases known : s.graph.lookup? path.clean with
  | some id => exact ⟨_, .visited known⟩
  | none =>
    obtain ⟨checks, run⟩ := record known
    exact ⟨checks, .entered known run⟩

theorem compileFileWithin_reaches (tree) (fuel) :
    Reaches tree fuel (compileFileWithin tree fuel) := by
  induction fuel with
  | zero => exact fun _ _ _ _ free => absurd free (Nat.not_lt_zero _)
  | succ fuel ih =>
    intro s path origin inside free
    apply compileFileWithin_runs_of_record
    intro new
    have taken : ((s.enter path.clean origin).graph.lookup? path.clean).isSome := by
      rw [lookup?_enter]
      rfl
    have fewer := (grows_enter (Path.clean_clean path) new origin).freePaths_lt inside new taken
    exact compileRecord_runs_of_reaches ih (get?_enter s path.clean origin) (by omega)

theorem compileRecord_runs (tree) {id : Nat} (held : s.graph.get? id = some r) :
    ∃ checks, Runs tree (.record id) s checks (s.compileRecord tree (compileFile tree) id) := by
  have free := freePaths_le tree s.graph
  exact compileRecord_runs_of_reaches (compileFileWithin_reaches tree (bound tree)) held
    (by unfold bound; omega)

theorem compileFile_runs (tree) (s) (path) (origin) :
    ∃ checks, Runs tree (.file path origin (compileFile tree s path origin).2) s checks
      (compileFile tree s path origin).1 := by
  apply compileFileWithin_runs_of_record
  intro new
  have free := freePaths_le tree (s.enter path.clean origin).graph
  exact compileRecord_runs_of_reaches (compileFileWithin_reaches tree _) (get?_enter s path.clean origin)
    (by omega)

/-! ### Draining ends -/

def Requested (tree : FileTree) (s : Session) : Prop :=
  ∀ request ∈ s.requests, request.target.clean = request.target ∧
    (request.target ∈ tree.cleanPaths ∨ (s.graph.lookup? request.target).isSome)

theorem Requested.of_requests_eq (asked : Requested tree s) (grows : Grows s s')
    (same : s'.requests = s.requests) : Requested tree s' := by
  intro request mem
  obtain ⟨clean, place⟩ := asked request (same ▸ mem)
  exact ⟨clean, place.imp_right grows.isSome_lookup⟩

theorem Requested.finish (asked : Requested tree s) (r) (m) :
    Requested tree (s.finish tree r m) := by
  intro request mem
  rw [requests_finish, mem_append] at mem
  rcases mem with old | new
  · obtain ⟨clean, place⟩ := asked request old
    exact ⟨clean, place.imp_right (grows_finish tree r m).isSome_lookup⟩
  · obtain ⟨load, -, resolved⟩ := mem_filterMap.mp new
    obtain ⟨found, leads, rfl⟩ := Option.map_eq_some_iff.mp resolved
    exact ⟨Path.clean_clean _, .inl (Resolver.resolve_mem_cleanPaths leads)⟩

theorem Runs.requested (run : Runs tree task s checks s') (asked : Requested tree s) : Requested tree s' := by
  induction run with
  | visited => exact asked
  | entered new _ ih => exact ih (asked.of_requests_eq (grows_enter (Path.clean_clean _) new _) rfl)
  | unread => exact asked.of_requests_eq ((grows_report _).trans (grows_fail _)) (by simp)
  | stopped _ _ _ ih =>
    exact (ih (asked.of_requests_eq (grows_begin _ _ _) (by simp))).of_requests_eq (grows_fail _) (by simp)
  | finished _ _ _ ih => exact (ih (asked.of_requests_eq (grows_begin _ _ _) (by simp))).finish _ _
  | followed => exact asked
  | unresolved => exact asked.of_requests_eq (grows_report _) rfl
  | outside _ _ _ ih =>
    exact ih (asked.of_requests_eq (grows_outside _ _ _ _ _) (by simp))
  | linked _ _ _ _ file ih =>
    have noted := file (asked.of_requests_eq (grows_noteImport _ _ _ _) (by simp))
    exact ih (noted.of_requests_eq (grows_linked _ _ _) (by simp))

theorem Drains.requested (drains : Drains tree cursor s checks s') (asked : Requested tree s) : Requested tree s' := by
  induction drains with
  | done => exact asked
  | known _ _ _ ih => exact ih asked
  | chunk _ _ run _ ih => exact ih (run.requested asked)

theorem compileLazy_of_known (known : (s.graph.lookup? request.target).isSome) : compileLazy tree s request = s := by
  obtain ⟨id, known⟩ := Option.isSome_iff_exists.mp known
  rw [compileLazy, known]

theorem compileLazy_runs (tree) (new : s.graph.lookup? request.target = none) :
    ∃ id checks, Runs tree (.file request.target ⟨s.graph.lookup? request.importer, some s.graph.size, none⟩ id)
      s checks (compileLazy tree s request) := by
  rw [compileLazy, new]
  exact ⟨_, compileFile_runs tree s request.target _⟩

theorem grows_compileLazy (tree) (s) (request : LazyRequest) :
    Grows s (compileLazy tree s request) := by
  cases new : s.graph.lookup? request.target with
  | none =>
    obtain ⟨_, _, run⟩ := compileLazy_runs tree new
    exact run.grows
  | some id =>
    rw [compileLazy_of_known (by simp [new])]
    exact .refl s

theorem compileLazy_drains (next : s.requests[cursor]? = some request)
    (rest : ∃ checks, Drains tree (cursor + 1) (compileLazy tree s request) checks s') :
    ∃ checks, Drains tree cursor s checks s' := by
  obtain ⟨after, rest⟩ := rest
  cases new : s.graph.lookup? request.target with
  | none =>
    obtain ⟨id, before, run⟩ := compileLazy_runs tree new
    exact ⟨_, .chunk next new run rest⟩
  | some id =>
    have known : (s.graph.lookup? request.target).isSome := by simp [new]
    rw [compileLazy_of_known known] at rest
    exact ⟨_, .known next known rest⟩

theorem foldl_compileLazy_drains (waiting) (upcoming : waiting <+: s.requests.drop cursor)
    (rest : ∃ checks, Drains tree (cursor + waiting.length) (waiting.foldl (compileLazy tree) s) checks s') :
    ∃ checks, Drains tree cursor s checks s' := by
  induction waiting generalizing cursor s with
  | nil => exact rest
  | cons request waiting ih =>
    obtain ⟨behind, upcoming⟩ := upcoming
    have next : s.requests[cursor]? = some request := by
      rw [← head?_drop, ← upcoming]
      rfl
    apply compileLazy_drains next
    apply ih
    · obtain ⟨more, requests⟩ := (grows_compileLazy tree s request).requests
      have later : s.requests.drop (cursor + 1) = waiting ++ behind := by
        rw [← tail_drop, ← upcoming]
        rfl
      have inside : cursor + 1 ≤ s.requests.length := (List.getElem?_eq_some_iff.mp next).1
      exact ⟨behind ++ more, by rw [← requests, drop_append_of_le_length inside, later, append_assoc]⟩
    · rwa [length_cons, foldl_cons, Nat.add_comm waiting.length, ← Nat.add_assoc] at rest

theorem Requested.compileLazy (asked : Requested tree s) (request : LazyRequest) :
    Requested tree (compileLazy tree s request) := by
  cases new : s.graph.lookup? request.target with
  | none =>
    obtain ⟨_, _, run⟩ := compileLazy_runs tree new
    exact run.requested asked
  | some id => rwa [compileLazy_of_known (by simp [new])]

theorem foldl_compileLazy_progress (waiting : List LazyRequest) (asked : Requested tree s)
    (mem : ∀ request ∈ waiting, request ∈ s.requests) :
    waiting.foldl (compileLazy tree) s = s ∨
      freePaths tree (waiting.foldl (compileLazy tree) s).graph < freePaths tree s.graph := by
  induction waiting generalizing s with
  | nil => exact .inl rfl
  | cons request waiting ih =>
    obtain ⟨clean, place⟩ := asked request (mem request mem_cons_self)
    have grows := grows_compileLazy tree s request
    have rest := ih (asked.compileLazy request) fun later inside =>
      grows.requests.subset (mem later (mem_cons_of_mem _ inside))
    rw [foldl_cons]
    cases new : s.graph.lookup? request.target with
    | some id => rwa [compileLazy_of_known (by simp [new])] at rest ⊢
    | none =>
      obtain ⟨_, _, run⟩ := compileLazy_runs tree new
      have taken : ((compileLazy tree s request).graph.lookup? request.target).isSome := by
        rw [← clean, run.lookup]
        rfl
      have fewer := grows.freePaths_lt (place.resolve_right (by simp [new])) new taken
      right
      rcases rest with same | less
      · rwa [same]
      · omega

theorem drainFrom_of_length_le (tree) (fuel) (drained : s.requests.length ≤ cursor) :
    drainFrom tree fuel cursor s = s := by
  cases fuel with
  | zero => rfl
  | succ fuel => rw [drainFrom, drop_eq_nil_of_le drained]

theorem drainFrom_drains (fuel : Nat) (asked : Requested tree s) (free : freePaths tree s.graph < fuel) :
    ∃ checks, Drains tree cursor s checks (drainFrom tree fuel cursor s) := by
  induction fuel generalizing cursor s with
  | zero => exact absurd free (Nat.not_lt_zero _)
  | succ fuel ih =>
    rw [drainFrom]
    split
    · rename_i drained
      exact ⟨_, .done (drop_eq_nil_iff.mp drained)⟩
    · apply foldl_compileLazy_drains _ (prefix_refl _)
      have progress := foldl_compileLazy_progress (s.requests.drop cursor) asked fun _ => mem_of_mem_drop
      have asked' : Requested tree ((s.requests.drop cursor).foldl (compileLazy tree) s) :=
        foldlRecOn _ _ asked fun _ asked request _ => asked.compileLazy request
      rcases progress with same | fewer
      · have drained : s.requests.length ≤ cursor + (s.requests.drop cursor).length := by
          rw [length_drop]
          omega
        rw [same, drainFrom_of_length_le tree fuel drained]
        exact ⟨_, .done drained⟩
      · exact ih asked' (by omega)

theorem drainLazy_drains (asked : Requested tree s) : ∃ checks, Drains tree 0 s checks (s.drainLazy tree) := by
  have free := freePaths_le tree s.graph
  exact drainFrom_drains (bound tree) asked (by unfold bound; omega)

theorem Drains.drained (drains : Drains tree cursor s checks s') (asked : Requested tree s)
    (done : ∀ {k request}, k < cursor → s.requests[k]? = some request → (s.graph.lookup? request.target).isSome) :
    ∀ request ∈ s'.requests, (s'.graph.lookup? request.target).isSome := by
  induction drains with
  | done none =>
    intro request mem
    obtain ⟨k, inside, same⟩ := mem_iff_getElem.mp mem
    exact done (Nat.lt_of_lt_of_le inside none) (List.getElem?_eq_some_iff.mpr ⟨inside, same⟩)
  | known next known _ ih =>
    refine ih asked ?_
    intro k request before here
    rcases Nat.lt_succ_iff_lt_or_eq.mp before with earlier | rfl
    · exact done earlier here
    · cases next.symm.trans here
      exact known
  | @chunk s s₁ _ cursor request _ _ _ next _ run _ ih =>
    refine ih (run.requested asked) ?_
    intro k request' before here
    -- the requests up to the cursor are those of the session before
    have inside : k < s.requests.length := Nat.lt_of_lt_of_le before (List.getElem?_eq_some_iff.mp next).1
    have old : s.requests[k]? = some request' := by
      rw [getElem?_eq_getElem inside, ← prefix_iff_getElem?.mp run.grows.requests k inside, here]
    rcases Nat.lt_succ_iff_lt_or_eq.mp before with earlier | rfl
    · exact run.grows.isSome_lookup (done earlier old)
    · cases next.symm.trans old
      rw [← (asked request (mem_of_getElem? next)).1, run.lookup]
      rfl

theorem compileEntry_builds (asked : Requested tree s) (path) :
    ∃ checks, Builds tree path s (s.compileEntry tree path).2 checks (s.compileEntry tree path).1 := by
  obtain ⟨before, run⟩ := compileFile_runs tree s path {}
  obtain ⟨after, drains⟩ := drainLazy_drains (run.requested asked)
  exact ⟨_, .intro run drains⟩

/-! ### A new session -/

theorem requested_new (resolver) (library) (globals) (tree) :
    Requested tree (new resolver library globals) := fun _ mem => absurd mem not_mem_nil

theorem coherent_new (resolver) (library) (globals) :
    (new resolver library globals).graph.Coherent := FileGraph.coherent_empty

end ComponentCompiler.Session
