import ComponentCompiler.Proofs.Graph.Progress
import ComponentCompiler.Proofs.Graph.Declarations

/-!
Checks of imports in the middle of a run, in a session that has other files already. Main
statements: `Runs.traced` and `Drains.traced`.
-/

namespace ComponentCompiler.Session

open FileGraph

variable {tree : FileTree} {s s' : Session} {a r : FileRecord} {m : SourceModule}

def Noted (s : Session) : Prop :=
  ∀ i r k found name, s.graph.get? i = some r → r.resolved? k = some found → found.package? = some name →
    s.registry.packages.contains name = true

section

variable (noted : Noted s)
include noted

theorem Noted.update (grows : Grows s s') {id : Nat} (graph : s'.graph = s.graph.update id f)
    (kept : ∀ a k found, (f a).resolved? k = some found → a.resolved? k = some found ∨
      ∀ name, found.package? = some name → s'.registry.packages.contains name) : Noted s' := by
  intro i r k found name held resolved package
  rw [graph, get?_update] at held
  split at held
  · obtain ⟨old, before, rfl⟩ := Option.map_eq_some_iff.mp held
    rcases kept old k found resolved with earlier | known
    · exact grows.contains_package (noted i old k found name before earlier package)
    · exact known name package
  · exact grows.contains_package (noted i r k found name held resolved package)

theorem Noted.of_graph_eq (grows : Grows s s') (same : s'.graph = s.graph) : Noted s' := by
  intro i r k found name held resolved package
  exact grows.contains_package (noted i r k found name (same ▸ held) resolved package)

theorem Noted.enter : Noted (s.enter path origin) := by
  intro i r k found name held resolved package
  rw [Session.enter, get?_push] at held
  split at held
  · cases held
    cases resolved
  · exact noted i r k found name held resolved package

theorem Noted.fail {id : Nat} (held : s.graph.get? id = some a) : Noted (s.fail id) :=
  noted.update (grows_fail id) (graph_fail held) fun _ _ _ resolved => by cases resolved

theorem Noted.begin (id) (r) (m) : Noted (s.begin id r m) := by
  obtain ⟨added, graph⟩ := graph_begin (s := s) id r m
  refine noted.update (grows_begin id r m) graph fun _ _ _ resolved => ?_
  cases (join_getElem?_replicate _ _).symm.trans resolved

theorem Noted.finish (r) (m) : Noted (s.finish tree r m) :=
  noted.update (grows_finish tree r m) (graph_finish tree r m) fun _ _ _ resolved => .inl resolved

theorem Noted.noteImport (resolves : s.resolver.resolve tree specifier path = some found)
    (r) (index) : Noted (s.noteImport tree r index found) := by
  refine noted.update (grows_noteImport tree r index found) (graph_noteImport tree r index found) ?_
  intro old k other filled
  rcases join_getElem?_set filled with ⟨-, same⟩ | earlier
  · cases same
    exact .inr fun name package => contains_noteImport resolves package r index
  · exact .inl earlier

theorem Noted.linked (id index target) : Noted (s.setTarget id index target) :=
  noted.update (grows_setTarget id index target) rfl fun _ _ _ resolved => .inl resolved

end

/-- A check between two sessions. It is about the file `own` or about a file that has come since, it sees
all other files as they were, and what it knows of the importer is right. -/
structure Check.Traced (tree : FileTree) (s s' : Session) (own : Option Nat) (check : Check) : Prop where
  before : Grows s check.session
  after : Grows check.session s'
  keeps : ∀ {i r}, s.graph.get? i = some r → own ≠ some i → check.session.graph.get? i = some r
  noted : Noted check.session
  importer : own = some check.importer ∨ s.graph.size ≤ check.importer
  sound : ∃ a, check.session.graph.get? check.importer = some a ∧ (check.package = none →
    ∃ m statement t, a.surface = some m ∧ tree.surface? a.path = some m ∧ m.imports[check.index]? = some statement ∧
      importSlot tree check.session a.path statement = some t ∧ a.importTarget? check.index = some t)

theorem Check.Traced.mono {check : Check} (traced : check.Traced tree s s' own) (before : Grows s₀ s)
    (after : Grows s' s₁)
    (kept : ∀ {i r}, s₀.graph.get? i = some r → own₀ ≠ some i → s.graph.get? i = some r ∧ own ≠ some i)
    (since : ∀ {j}, own = some j → own₀ = some j ∨ s₀.graph.size ≤ j) : check.Traced tree s₀ s₁ own₀ where
  before := before.trans traced.before
  after := traced.after.trans after
  keeps held other := traced.keeps (kept held other).1 (kept held other).2
  noted := traced.noted
  importer := by
    rcases traced.importer with own | new
    · exact since own
    · exact .inr (Nat.le_trans before.size_le new)
  sound := traced.sound

theorem Runs.traced (run : Runs tree task s checks s') (coherent : s.graph.Coherent) (noted : Noted s)
    (ready : task.Loaded tree s) : Noted s' ∧ ∀ check ∈ checks, check.Traced tree s s' task.own? := by
  induction run with
  | visited => exact ⟨noted, by simp⟩
  | @entered s _ path origin _ new _ ih =>
    have grows := grows_enter (Path.clean_clean path) new origin
    obtain ⟨last, traced⟩ := ih (grows.coherent coherent) noted.enter trivial
    refine ⟨last, fun check mem => (traced check mem).mono grows (.refl _) ?_ ?_⟩
    · intro i r held _
      refine ⟨get?_push_of_some held, fun same => ?_⟩
      cases same
      exact absurd (get?_eq_some_lt held) (Nat.lt_irrefl _)
    · intro j same
      cases same
      exact .inr (Nat.le_refl _)
  | @unread _ _ _ d held failed => exact ⟨(noted.of_graph_eq (grows_report d) rfl).fail held, by simp⟩
  | @stopped s s₁ id r m _ held loaded run ih =>
    cases coherent.ids held
    have begun := grows_begin (s := s) r.id r m
    obtain ⟨_, _, _, last⟩ := run.begun_own coherent held
    obtain ⟨middle, traced⟩ := ih (begun.coherent coherent) (noted.begin r.id r m)
      (loaded_begin held (surface?_of_loadSurface loaded))
    refine ⟨middle.fail last, fun check mem => (traced check mem).mono begun (grows_fail _) ?_ .inl⟩
    intro i old there other
    exact ⟨by rwa [get?_begin_of_ne fun same => other (congrArg some same.symm)], other⟩
  | @finished s s₁ id r m _ held loaded run ih =>
    cases coherent.ids held
    have begun := grows_begin (s := s) r.id r m
    obtain ⟨middle, traced⟩ := ih (begun.coherent coherent) (noted.begin r.id r m)
      (loaded_begin held (surface?_of_loadSurface loaded))
    refine ⟨middle.finish r m, fun check mem => (traced check mem).mono begun (grows_finish tree r m) ?_ .inl⟩
    intro i old there other
    exact ⟨by rwa [get?_begin_of_ne fun same => other (congrArg some same.symm)], other⟩
  | followed => exact ⟨noted, by simp⟩
  | unresolved => exact ⟨noted.of_graph_eq (grows_report _) rfl, by simp⟩
  | @outside s s' r _ index _ _ found name _ resolved _ run ih =>
    have grows := grows_noteImport (s := s) tree r index found
    have checked := grows_checkPackageImport (s := s.noteImport tree r index found) r.id index name
    have marked := noted.noteImport resolved r index
    have kept {i : Nat} {old : FileRecord} (there : s.graph.get? i = some old) (other : some r.id ≠ some i) :
        (s.noteImport tree r index found).graph.get? i = some old := by
      rwa [get?_noteImport_of_ne fun same => other (congrArg some same.symm)]
    obtain ⟨last, traced⟩ := ih ((grows.trans checked).coherent coherent)
      (marked.of_graph_eq checked (graph_checkPackageImport ..)) (ready.outside name)
    refine ⟨last, fun check mem => ?_⟩
    rcases List.mem_cons.mp mem with rfl | later
    · obtain ⟨a, m, held, -⟩ := ready
      exact ⟨grows, checked.trans run.grows, kept, marked, .inl rfl,
        ⟨_, noteImport_own tree index found held, fun file => by cases file⟩⟩
    · refine (traced check later).mono (grows.trans checked) (.refl _) ?_ .inl
      intro i old there other
      exact ⟨by rw [graph_checkPackageImport]; exact kept there other, other⟩
  | @linked s s₁ s' r _ index _ _ found target _ _ resolved inside file run fileIh restIh =>
    have grows := grows_noteImport (s := s) tree r index found
    have set := grows_setTarget (s := s₁) r.id index target
    have checked := grows_checkImport (s := s₁.setTarget r.id index target) r.id index
    have since := (grows.trans file.grows).trans set
    have kept {i : Nat} {old : FileRecord} (there : s.graph.get? i = some old) (other : some r.id ≠ some i) :
        (s.noteImport tree r index found).graph.get? i = some old := by
      rwa [get?_noteImport_of_ne fun same => other (congrArg some same.symm)]
    have kept' {i : Nat} {old : FileRecord} (there : s.graph.get? i = some old) (other : some r.id ≠ some i) :
        (s₁.setTarget r.id index target).graph.get? i = some old := by
      rw [get?_setTarget_of_ne fun same => other (congrArg some same.symm)]
      exact file.keeps (grows.coherent coherent) (kept there other) (by simp [Task.own?])
    obtain ⟨reached, before⟩ := fileIh (grows.coherent coherent) (noted.noteImport resolved r index) trivial
    obtain ⟨⟨a, own, m, sound⟩, ready⟩ := ready.linked coherent resolved inside file
    have marked := reached.linked r.id index target
    obtain ⟨last, after⟩ := restIh ((since.trans checked).coherent coherent)
      (marked.of_graph_eq checked (graph_checkImport ..)) ready
    refine ⟨last, fun check mem => ?_⟩
    rcases List.mem_append.mp mem with early | late
    · refine (before check early).mono grows ((set.trans checked).trans run.grows) ?_ (fun same => by cases same)
      exact fun there other => ⟨kept there other, by simp [Task.own?]⟩
    · rcases List.mem_cons.mp late with rfl | later
      · exact ⟨since, checked.trans run.grows, kept', marked, .inl rfl, ⟨a, own, fun _ => ⟨m, _, target, sound⟩⟩⟩
      · refine (after check later).mono (since.trans checked) (.refl _) ?_ .inl
        exact fun there other => ⟨by rw [graph_checkImport]; exact kept' there other, other⟩

theorem Runs.traced_append {id : Nat} (run : Runs tree (.file path origin id) s before s₁)
    (coherent : s.graph.Coherent) (rest : Grows s₁ s') (first : ∀ check ∈ before, check.Traced tree s s₁ none)
    (later : ∀ check ∈ after, check.Traced tree s₁ s' none) :
    ∀ check ∈ before ++ after, check.Traced tree s s' none := by
  refine List.forall_mem_append.mpr ⟨fun check early => ?_, fun check late => ?_⟩
  · exact (first check early).mono (.refl _) rest (fun there other => ⟨there, other⟩) fun same => by cases same
  · refine (later check late).mono run.grows (.refl _) ?_ fun same => by cases same
    exact fun there other => ⟨run.keeps coherent there other, other⟩

theorem Drains.traced (drains : Drains tree cursor s checks s') (coherent : s.graph.Coherent) (noted : Noted s) :
    Noted s' ∧ ∀ check ∈ checks, check.Traced tree s s' none := by
  induction drains with
  | done => exact ⟨noted, by simp⟩
  | known _ _ _ ih => exact ih coherent noted
  | chunk _ _ run rest ih =>
    obtain ⟨middle, before⟩ := run.traced coherent noted trivial
    obtain ⟨last, after⟩ := ih (run.grows.coherent coherent) middle
    exact ⟨last, run.traced_append coherent rest.grows before after⟩

theorem Builds.traced {resolver : Resolver} {library : Bool} {globals : SortedMap String String} {id : Nat}
    (builds : Builds tree entry (new resolver library globals) id checks s') :
    Noted s' ∧ ∀ check ∈ checks, check.Traced tree (new resolver library globals) s' none := by
  have fresh := coherent_new resolver library globals
  have noted : Noted (new resolver library globals) := fun _ _ _ _ _ held => by cases held
  obtain ⟨run, drains⟩ := builds
  obtain ⟨middle, before⟩ := run.traced fresh noted trivial
  obtain ⟨last, after⟩ := drains.traced (run.grows.coherent fresh) middle
  exact ⟨last, run.traced_append fresh drains.grows before after⟩

theorem Drains.keeps (drains : Drains tree cursor s checks s') (coherent : s.graph.Coherent)
    (there : s.graph.get? i = some r) : s'.graph.get? i = some r :=
  drains.invariant coherent there fun run coherent there => run.keeps coherent there (by simp [Task.own?])

end ComponentCompiler.Session
