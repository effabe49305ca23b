import ComponentCompiler.Proofs.Graph.ImportErrors

/-!
A file fails only when the log says so. Main statement: `Builds.reported`, after a build that has a
failed file the log has a diagnostic with one of the `fatalCodes`.
-/

namespace ComponentCompiler.Session

variable {s : Session}

def HasFatal (s : Session) : Prop := ∃ d, d ∈ s.log.forFile d.file ∧ d.code ∈ fatalCodes

def FailuresReported (s : Session) : Prop :=
  ∀ i r, s.graph.get? i = some r → r.state = .failed → s.HasFatal

theorem hasFatal_report {d : Diagnostic} (fatal : d.code ∈ fatalCodes) : (s.report d).HasFatal :=
  ⟨d, DiagnosticLog.mem_forFile_push.mpr (.inr ⟨rfl, rfl⟩), fatal⟩

theorem Grows.hasFatal (grows : Grows s s') (known : s.HasFatal) : s'.HasFatal := by
  obtain ⟨d, here, fatal⟩ := known
  exact ⟨d, grows.log here, fatal⟩

theorem FailuresReported.update (reported : FailuresReported s) (grows : Grows s s') {id : Nat}
    (graph : s'.graph = s.graph.update id f) (kept : ∀ r, (f r).state = .failed → r.state = .failed) :
    FailuresReported s' := by
  intro i r held failed
  rw [graph, FileGraph.get?_update] at held
  split at held
  · obtain ⟨old, before, rfl⟩ := Option.map_eq_some_iff.mp held
    exact grows.hasFatal (reported i old before (kept old failed))
  · exact grows.hasFatal (reported i r held failed)

theorem FailuresReported.enter (reported : FailuresReported s) : FailuresReported (s.enter path origin) := by
  intro i r held failed
  rw [Session.enter, FileGraph.get?_push] at held
  split at held
  · cases held
    cases failed
  · exact reported i r held failed

theorem FailuresReported.noteImport (reported : FailuresReported s) (tree) (r) (index)
    (found) : FailuresReported (s.noteImport tree r index found) :=
  reported.update (grows_noteImport tree r index found) (graph_noteImport tree r index found) fun _ failed => failed

def Task.Excused (s : Session) : Task → Prop
  | .imports _ _ complete => complete = false → s.HasFatal
  | _ => True

theorem Runs.reported (run : Runs tree task s checks s') (reported : FailuresReported s) :
    FailuresReported s' ∧ task.Excused s' := by
  induction run with
  | visited => exact ⟨reported, trivial⟩
  | entered _ _ ih => exact ⟨(ih reported.enter).1, trivial⟩
  | @unread s id r d held failed =>
    have fatal : ((s.report d).fail id).HasFatal :=
      (grows_fail id).hasFatal (hasFatal_report (code_mem_fatalCodes failed))
    exact ⟨fun _ _ _ _ => fatal, trivial⟩
  | @stopped s s₁ id r m _ _ _ run ih =>
    obtain ⟨added, graph⟩ := graph_begin (s := s) id r m
    obtain ⟨-, excused⟩ := ih (reported.update (grows_begin id r m) graph fun _ failed => failed)
    exact ⟨fun _ _ _ _ => (grows_fail id).hasFatal (excused rfl), trivial⟩
  | @finished s s₁ id r m _ _ _ run ih =>
    obtain ⟨added, graph⟩ := graph_begin (s := s) id r m
    obtain ⟨reported, -⟩ := ih (reported.update (grows_begin id r m) graph fun _ failed => failed)
    refine ⟨reported.update (grows_finish tree r m) (graph_finish tree r m) ?_, trivial⟩
    intro old failed
    dsimp only at failed
    split at failed <;> cases failed
  | followed => exact ⟨reported, fun stopped => by cases stopped⟩
  | @unresolved s r statement =>
    have fatal : (s.report (unresolvedImport r statement)).HasFatal :=
      hasFatal_report (by simp [unresolvedImport, fatalCodes])
    exact ⟨fun _ _ _ _ => fatal, fun _ => fatal⟩
  | @outside s _ r _ index _ complete found name _ _ _ _ ih =>
    have noted := reported.noteImport tree r index found
    refine ih fun i a held failed => ?_
    rw [graph_checkPackageImport] at held
    exact (grows_reportAny _).hasFatal (noted i a held failed)
  | @linked s s₁ _ r _ index _ _ found target _ _ _ _ _ _ file ih =>
    obtain ⟨reached, -⟩ := file (reported.noteImport tree r index found)
    exact ih (reached.update (grows_linked r.id index target) (graph_checkImport r.id index) fun _ failed => failed)

theorem Drains.reported (drains : Drains tree cursor s checks s') (reported : FailuresReported s) :
    FailuresReported s' := by
  induction drains with
  | done => exact reported
  | known _ _ _ ih => exact ih reported
  | chunk _ _ run _ ih => exact ih (run.reported reported).1

theorem Builds.reported {resolver : Resolver} {library : Bool} {globals : SortedMap String String} {id : Nat}
    (builds : Builds tree entry (new resolver library globals) id checks s) : FailuresReported s := by
  obtain ⟨run, drains⟩ := builds
  exact drains.reported (run.reported fun _ _ held => by cases held).1

end ComponentCompiler.Session
