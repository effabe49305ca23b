import ComponentCompiler.Proofs.Graph.Effect

/-!
Runs of a compilation, without bounds: its recursion as a relation. A derivation is finite, so that
it ends where a compilation stops.
-/

namespace ComponentCompiler.Session

inductive Task where
  | file (path : Path) (origin : Origin) (id : Nat)
  | record (id : Nat)
  /-- To follow imports of a file; `complete` says whether all of them could be resolved. -/
  | imports (r : FileRecord) (rest : List (ImportStatement × Nat)) (complete : Bool)

/-- An import at the moment when the names it asks for are checked, against a file or against a package. -/
structure Check where
  importer : Nat
  index : Nat
  package : Option String
  session : Session

def Check.error? (check : Check) : Option Diagnostic :=
  match check.package with
  | none => check.session.importError? check.importer check.index
  | some name => check.session.packageError? check.importer check.index name

/-- `Runs tree task s checks s'`: the task takes `s` to `s'` and checks these imports on the way. -/
inductive Runs (tree : FileTree) : Task → Session → List Check → Session → Prop where
  | visited {s path origin id} (known : s.graph.lookup? path.clean = some id) :
      Runs tree (.file path origin id) s [] s
  | entered {s s' path origin checks} (new : s.graph.lookup? path.clean = none)
      (run : Runs tree (.record s.graph.size) (s.enter path.clean origin) checks s') :
      Runs tree (.file path origin s.graph.size) s checks s'
  | unread {s id r d} (present : s.graph.get? id = some r) (failed : s.loadSurface tree r = .error d) :
      Runs tree (.record id) s [] ((s.report d).fail id)
  | stopped {s s' id r m checks} (present : s.graph.get? id = some r) (loaded : s.loadSurface tree r = .ok m)
      (run : Runs tree (.imports r m.imports.zipIdx false) (s.begin id r m) checks s') :
      Runs tree (.record id) s checks (s'.fail id)
  | finished {s s' id r m checks} (present : s.graph.get? id = some r) (loaded : s.loadSurface tree r = .ok m)
      (run : Runs tree (.imports r m.imports.zipIdx true) (s.begin id r m) checks s') :
      Runs tree (.record id) s checks (s'.finish tree r m)
  | followed {s r} : Runs tree (.imports r [] true) s [] s
  | unresolved {s r statement index rest} (missing : s.resolver.resolve tree statement.source r.path = none) :
      Runs tree (.imports r ((statement, index) :: rest) false) s [] (s.report (unresolvedImport r statement))
  | outside {s s' r statement index rest complete found name checks}
      (resolved : s.resolver.resolve tree statement.source r.path = some found)
      (package : s.outsidePackage? found = some name)
      (run : Runs tree (.imports r rest complete)
        ((s.noteImport tree r index found).checkPackageImport r.id index name) checks s') :
      Runs tree (.imports r ((statement, index) :: rest) complete) s
        (⟨r.id, index, some name, s.noteImport tree r index found⟩ :: checks) s'
  | linked {s s₁ s' r statement index rest complete found target before after}
      (resolved : s.resolver.resolve tree statement.source r.path = some found)
      (inside : s.outsidePackage? found = none)
      (file : Runs tree (.file found.path (importOrigin r found) target) (s.noteImport tree r index found) before s₁)
      (run : Runs tree (.imports r rest complete)
        ((s₁.setTarget r.id index target).checkImport r.id index) after s') :
      Runs tree (.imports r ((statement, index) :: rest) complete) s
        (before ++ ⟨r.id, index, none, s₁.setTarget r.id index target⟩ :: after) s'

/-- `Drains tree cursor s checks s'`: the loads on demand from `cursor` on take `s` to `s'`. -/
inductive Drains (tree : FileTree) : Nat → Session → List Check → Session → Prop where
  | done {s cursor} (none : s.requests.length ≤ cursor) : Drains tree cursor s [] s
  | known {s s' cursor request checks} (next : s.requests[cursor]? = some request)
      (known : (s.graph.lookup? request.target).isSome) (rest : Drains tree (cursor + 1) s checks s') :
      Drains tree cursor s checks s'
  | chunk {s s₁ s' cursor request id before after} (next : s.requests[cursor]? = some request)
      (new : s.graph.lookup? request.target = none)
      (run : Runs tree (.file request.target
        ⟨s.graph.lookup? request.importer, some s.graph.size, none⟩ id) s before s₁)
      (rest : Drains tree (cursor + 1) s₁ after s') :
      Drains tree cursor s (before ++ after) s'

/-- `Builds tree path s id checks s'`: compiling an entry file, which has the number `id`, and then all that
is loaded on demand takes `s` to `s'`. -/
inductive Builds (tree : FileTree) (path : Path) (s : Session) (id : Nat) : List Check → Session → Prop where
  | intro {s₁ s' before after} (run : Runs tree (.file path {} id) s before s₁) (drains : Drains tree 0 s₁ after s') :
      Builds tree path s id (before ++ after) s'

theorem Runs.grows (run : Runs tree task s checks s') : Grows s s' := by
  induction run with
  | visited => exact .refl _
  | entered new _ ih => exact (grows_enter (Path.clean_clean _) new _).trans ih
  | unread => exact (grows_report _).trans (grows_fail _)
  | stopped _ _ _ ih => exact ((grows_begin _ _ _).trans ih).trans (grows_fail _)
  | finished _ _ _ ih => exact ((grows_begin _ _ _).trans ih).trans (grows_finish _ _ _)
  | followed => exact .refl _
  | unresolved => exact grows_report _
  | outside _ _ _ ih => exact (grows_outside _ _ _ _ _).trans ih
  | linked _ _ _ _ file ih => exact (((grows_noteImport _ _ _ _).trans file).trans (grows_linked _ _ _)).trans ih

theorem Runs.lookup {id : Nat} (run : Runs tree (.file path origin id) s checks s') :
    s'.graph.lookup? path.clean = some id := by
  cases run with
  | visited known => exact known
  | entered new run => exact run.grows.lookup (lookup?_enter s path.clean origin)

theorem Drains.grows (drains : Drains tree cursor s checks s') : Grows s s' := by
  induction drains with
  | done => exact .refl _
  | known _ _ _ ih => exact ih
  | chunk _ _ run _ ih => exact run.grows.trans ih

theorem Drains.invariant {P : Session → Prop} (drains : Drains tree cursor s checks s') (coherent : s.graph.Coherent)
    (holds : P s)
    (kept : ∀ {s s' path parent root id checks}, Runs tree (.file path ⟨parent, root, none⟩ id) s checks s' →
      s.graph.Coherent → P s → P s') : P s' := by
  induction drains with
  | done => exact holds
  | known _ _ _ ih => exact ih coherent holds
  | chunk _ _ run _ ih => exact ih (run.grows.coherent coherent) (kept run coherent holds)

theorem Builds.grows {id : Nat} (builds : Builds tree path s id checks s') : Grows s s' := by
  obtain ⟨run, drains⟩ := builds
  exact run.grows.trans drains.grows

/-! ### A task has one outcome -/

section

variable {id : Nat}

theorem Runs.of_error (run : Runs tree (.record id) s checks s') (held : s.graph.get? id = some r)
    (failed : s.loadSurface tree r = .error d) : checks = [] ∧ s' = (s.report d).fail id := by
  cases run with
  | unread held' failed' =>
    cases held.symm.trans held'
    cases failed.symm.trans failed'
    exact ⟨rfl, rfl⟩
  | stopped held' loaded | finished held' loaded =>
    cases held.symm.trans held'
    cases failed.symm.trans loaded

theorem Runs.of_ok (run : Runs tree (.record id) s checks s') (held : s.graph.get? id = some r)
    (loaded : s.loadSurface tree r = .ok m) :
    ∃ complete s₁, Runs tree (.imports r m.imports.zipIdx complete) (s.begin id r m) checks s₁ ∧
      s' = if complete then s₁.finish tree r m else s₁.fail id := by
  cases run with
  | unread held' failed =>
    cases held.symm.trans held'
    cases loaded.symm.trans failed
  | stopped held' loaded' run | finished held' loaded' run =>
    cases held.symm.trans held'
    cases loaded.symm.trans loaded'
    exact ⟨_, _, run, rfl⟩

end

def Task.Same : Task → Task → Prop
  | .file path origin _, .file path' origin' _ => path = path' ∧ origin = origin'
  | .record id, .record id' => id = id'
  | .imports r rest _, .imports r' rest' _ => r = r' ∧ rest = rest'
  | _, _ => False

theorem Task.Same.file {id : Nat} (same : Task.Same (.file path origin id) task) :
    ∃ id', task = .file path origin id' := by
  cases task with
  | file path' origin' id' =>
    obtain ⟨rfl, rfl⟩ := same
    exact ⟨id', rfl⟩
  | _ => cases same

theorem Task.Same.record {id : Nat} (same : Task.Same (.record id) task) : task = .record id := by
  cases task with
  | record id' =>
    cases same
    rfl
  | _ => cases same

theorem Task.Same.imports (same : Task.Same (.imports r rest complete) task) :
    ∃ complete', task = .imports r rest complete' := by
  cases task with
  | imports r' rest' complete' =>
    obtain ⟨rfl, rfl⟩ := same
    exact ⟨complete', rfl⟩
  | _ => cases same

theorem Runs.unique (run : Runs tree task s checks s') (run' : Runs tree task' s checks' s'') (same : task.Same task') :
    task = task' ∧ checks = checks' ∧ s' = s'' := by
  induction run generalizing task' checks' s'' with
  | visited known =>
    obtain ⟨_, rfl⟩ := same.file
    cases run' with
    | visited known' =>
      cases known.symm.trans known'
      exact ⟨rfl, rfl, rfl⟩
    | entered new => cases known.symm.trans new
  | entered new _ ih =>
    obtain ⟨_, rfl⟩ := same.file
    cases run' with
    | visited known => cases new.symm.trans known
    | entered _ run =>
      obtain ⟨-, rfl, rfl⟩ := ih run rfl
      exact ⟨rfl, rfl, rfl⟩
  | unread held failed =>
    cases same.record
    obtain ⟨rfl, rfl⟩ := run'.of_error held failed
    exact ⟨rfl, rfl, rfl⟩
  | stopped held loaded _ ih | finished held loaded _ ih =>
    cases same.record
    obtain ⟨complete, s₁, inner, rfl⟩ := run'.of_ok held loaded
    obtain ⟨task, rfl, rfl⟩ := ih inner ⟨rfl, rfl⟩
    cases task
    exact ⟨rfl, rfl, rfl⟩
  | followed =>
    obtain ⟨_, rfl⟩ := same.imports
    cases run'
    exact ⟨rfl, rfl, rfl⟩
  | unresolved missing =>
    obtain ⟨_, rfl⟩ := same.imports
    cases run' with
    | unresolved => exact ⟨rfl, rfl, rfl⟩
    | outside resolved | linked resolved => cases missing.symm.trans resolved
  | outside resolved package _ ih =>
    obtain ⟨_, rfl⟩ := same.imports
    cases run' with
    | unresolved missing => cases resolved.symm.trans missing
    | outside resolved' package' run =>
      cases resolved.symm.trans resolved'
      cases package.symm.trans package'
      obtain ⟨task, rfl, rfl⟩ := ih run ⟨rfl, rfl⟩
      cases task
      exact ⟨rfl, rfl, rfl⟩
    | linked resolved' inside =>
      cases resolved.symm.trans resolved'
      cases package.symm.trans inside
  | linked resolved inside _ _ file ih =>
    obtain ⟨_, rfl⟩ := same.imports
    cases run' with
    | unresolved missing => cases resolved.symm.trans missing
    | outside resolved' package =>
      cases resolved.symm.trans resolved'
      cases inside.symm.trans package
    | linked resolved' _ file' run =>
      cases resolved.symm.trans resolved'
      obtain ⟨target, rfl, rfl⟩ := file file' ⟨rfl, rfl⟩
      cases target
      obtain ⟨task, rfl, rfl⟩ := ih run ⟨rfl, rfl⟩
      cases task
      exact ⟨rfl, rfl, rfl⟩

theorem Drains.unique (drains : Drains tree cursor s checks s') (drains' : Drains tree cursor s checks' s'') :
    checks = checks' ∧ s' = s'' := by
  induction drains generalizing checks' s'' with
  | done none =>
    cases drains' with
    | done => exact ⟨rfl, rfl⟩
    | known next | chunk next =>
      have := (List.getElem?_eq_some_iff.mp next).1
      omega
  | known next known _ ih =>
    cases drains' with
    | done none =>
      have := (List.getElem?_eq_some_iff.mp next).1
      omega
    | known _ _ rest' => exact ih rest'
    | chunk next' new' =>
      cases next.symm.trans next'
      simp [new'] at known
  | chunk next new run _ ih =>
    cases drains' with
    | done none =>
      have := (List.getElem?_eq_some_iff.mp next).1
      omega
    | known next' known' =>
      cases next.symm.trans next'
      simp [new] at known'
    | chunk next' _ run' rest' =>
      cases next.symm.trans next'
      obtain ⟨-, rfl, rfl⟩ := run.unique run' ⟨rfl, rfl⟩
      obtain ⟨rfl, rfl⟩ := ih rest'
      exact ⟨rfl, rfl⟩

theorem Builds.unique {id : Nat} (builds : Builds tree path s id checks s')
    (builds' : Builds tree path s id' checks' s'') : id' = id ∧ checks' = checks ∧ s'' = s' := by
  obtain ⟨run, drains⟩ := builds
  obtain ⟨run', drains'⟩ := builds'
  obtain ⟨same, rfl, rfl⟩ := run.unique run' ⟨rfl, rfl⟩
  cases same
  obtain ⟨rfl, rfl⟩ := drains.unique drains'
  exact ⟨rfl, rfl, rfl⟩

/-! ### What a run leaves alone -/

def Task.own? : Task → Option Nat
  | .file .. => none
  | .record id => some id
  | .imports r .. => some r.id

theorem Runs.keeps (run : Runs tree task s checks s') (coherent : s.graph.Coherent)
    (there : s.graph.get? i = some kept) (other : task.own? ≠ some i) : s'.graph.get? i = some kept := by
  induction run with
  | visited => exact there
  | @entered s _ _ _ _ new _ ih =>
    have inside := FileGraph.get?_eq_some_lt there
    exact ih (coherent.push (Path.clean_clean _) new) (FileGraph.get?_push_of_some there)
      (fun same => Nat.ne_of_gt inside (Option.some.inj same))
  | @unread _ id _ _ _ _ =>
    have apart : i ≠ id := fun same => other (same ▸ rfl)
    rwa [get?_fail_of_ne apart]
  | @stopped _ _ id r _ _ held _ _ ih =>
    have apart : i ≠ id := fun same => other (same ▸ rfl)
    rw [get?_fail_of_ne apart]
    exact ih ((grows_begin _ _ _).coherent coherent) (by rwa [get?_begin_of_ne apart])
      (by rwa [Task.own?, coherent.ids held])
  | @finished _ _ id r _ _ held _ _ ih =>
    have apart : i ≠ id := fun same => other (same ▸ rfl)
    rw [get?_finish_of_ne (by rwa [coherent.ids held])]
    exact ih ((grows_begin _ _ _).coherent coherent) (by rwa [get?_begin_of_ne apart])
      (by rwa [Task.own?, coherent.ids held])
  | followed => exact there
  | unresolved => exact there
  | outside _ _ _ ih =>
    have apart := fun same => other (congrArg some (Eq.symm same))
    exact ih ((grows_outside _ _ _ _ _).coherent coherent)
      (by rwa [graph_checkPackageImport, get?_noteImport_of_ne apart]) other
  | @linked _ _ _ r _ index _ _ found _ _ _ _ _ run _ file ih =>
    have apart := fun same => other (congrArg some (Eq.symm same))
    have noted := (grows_noteImport tree r index found).coherent coherent
    have reached := file noted (by rwa [get?_noteImport_of_ne apart]) (by simp [Task.own?])
    exact ih ((grows_linked _ _ _).coherent (run.grows.coherent noted))
      (by rwa [graph_checkImport, get?_setTarget_of_ne apart]) other

theorem Runs.get?_before (run : Runs tree task s checks s') (coherent : s.graph.Coherent) (other : task.own? ≠ some i)
    (inside : i < s.graph.size) (held : s'.graph.get? i = some r) : s.graph.get? i = some r := by
  obtain ⟨old, before⟩ := FileGraph.get?_of_lt inside
  cases held.symm.trans (run.keeps coherent before other)
  exact before

end ComponentCompiler.Session
