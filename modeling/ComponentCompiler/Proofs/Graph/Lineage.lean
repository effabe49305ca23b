import ComponentCompiler.Proofs.Graph.Termination

/-! Where the files of a session have been reached from. Main statement: `Runs.lineage`. -/

namespace ComponentCompiler

/-- The parent of each file is there, and each chunk has its root, which was reached before its other files. -/
structure FileGraph.Placed (g : FileGraph) : Prop where
  parents : ∀ {i r p}, g.get? i = some r → r.parent = some p → p < g.size
  roots : ∀ {i r root}, g.get? i = some r → r.lazyRoot = some root →
    root ≤ i ∧ ∃ q, g.get? root = some q ∧ q.lazyRoot = some root

theorem FileGraph.placed_empty : FileGraph.Placed {} where
  parents held := by cases held
  roots held := by cases held

theorem FileGraph.Placed.update {g : FileGraph} (placed : g.Placed) {id : Nat} (kept : ∀ r, (f r).blank = r.blank) :
    (g.update id f).Placed := by
  refine ⟨?_, ?_⟩
  · intro i r p held known
    obtain ⟨old, before, same⟩ := get?_of_get?_update kept held
    rw [size_update]
    exact placed.parents before ((FileRecord.blank_eq_iff.mp same).2.2.1 ▸ known)
  · intro i r root held known
    obtain ⟨old, before, same⟩ := get?_of_get?_update kept held
    obtain ⟨le, q, first, rooted⟩ := placed.roots before ((FileRecord.blank_eq_iff.mp same).2.2.2.1 ▸ known)
    obtain ⟨q', first', same'⟩ := get?_update_of_get? kept first
    exact ⟨le, q', first', (FileRecord.blank_eq_iff.mp same').2.2.2.1.trans rooted⟩

namespace Session

variable {tree : FileTree} {s s' : Session}
variable {root : Option Nat} {origin : Origin} {checks : List Check} {cursor : Nat}

/-- The files that have come since `size` belong to one chunk and have their parents in the session. -/
def Descends (size : Nat) (root : Option Nat) (s : Session) : Prop :=
  ∀ i r, size ≤ i → s.graph.get? i = some r → r.lazyRoot = root ∧ ∀ {p}, r.parent = some p → p < s.graph.size

theorem descends_of_size_eq (size : s'.graph.size = s.graph.size) : Descends s.graph.size root s' := by
  intro i r later held
  have := FileGraph.get?_eq_some_lt held
  omega

theorem Descends.trans (first : Descends size root s) (grows : Grows s s') (second : Descends s.graph.size root s') :
    Descends size root s' := by
  intro i r later held
  by_cases inside : i < s.graph.size
  · obtain ⟨old, before⟩ := FileGraph.get?_of_lt inside
    obtain ⟨-, -, parent, root, -⟩ := FileRecord.blank_eq_iff.mp (grows.blank_eq before held)
    obtain ⟨root', parents⟩ := first i old later before
    refine ⟨root.trans root', ?_⟩
    intro p known
    exact Nat.lt_of_lt_of_le (parents (parent ▸ known)) grows.size_le
  · exact second i r (by omega) held

def Task.chunk? (s : Session) : Task → Option Nat
  | .file _ origin _ => origin.lazyRoot
  | .record id => (s.graph.get? id).bind (·.lazyRoot)
  | .imports r .. => r.lazyRoot

def Task.Anchored (s : Session) : Task → Prop
  | .file _ origin _ => ∀ {p}, origin.parent = some p → p < s.graph.size
  | .record id => id < s.graph.size
  | .imports r .. => r.id < s.graph.size

theorem descends_enter (anchored : ∀ {p}, origin.parent = some p → p < s.graph.size) :
    Descends s.graph.size origin.lazyRoot (s.enter path origin) := by
  intro i r later held
  have inside := FileGraph.get?_eq_some_lt held
  rw [enter, FileGraph.size_push] at inside ⊢
  obtain rfl : i = s.graph.size := by omega
  rw [get?_enter] at held
  cases held
  exact ⟨rfl, fun known => Nat.lt_succ_of_lt (anchored known)⟩

theorem Runs.lineage (run : Runs tree task s checks s') (coherent : s.graph.Coherent) (anchored : task.Anchored s) :
    Descends s.graph.size (task.chunk? s) s' := by
  induction run with
  | visited => exact descends_of_size_eq rfl
  | @entered s _ path origin _ new run ih =>
    have size : (s.enter path.clean origin).graph.size = s.graph.size + 1 := FileGraph.size_push
    have later := ih ((grows_enter (Path.clean_clean path) new origin).coherent coherent)
      (show s.graph.size < _ by omega)
    rw [Task.chunk?, get?_enter] at later
    exact (descends_enter anchored).trans run.grows later
  | unread => exact descends_of_size_eq (by simp)
  | @stopped s _ id r m _ held _ run ih =>
    have ids := coherent.ids held
    have new := ih ((grows_begin id r m).coherent coherent) (by rw [Task.Anchored, ids, size_begin]; exact anchored)
    rw [size_begin] at new
    rw [Task.chunk?, held]
    exact new.trans (grows_fail id) (descends_of_size_eq (size_fail id))
  | @finished s _ id r m _ held _ run ih =>
    have ids := coherent.ids held
    have new := ih ((grows_begin id r m).coherent coherent) (by rw [Task.Anchored, ids, size_begin]; exact anchored)
    rw [size_begin] at new
    rw [Task.chunk?, held]
    exact new.trans (grows_finish tree r m) (descends_of_size_eq (by simp [graph_finish]))
  | followed => exact descends_of_size_eq rfl
  | unresolved => exact descends_of_size_eq rfl
  | @outside s _ r _ index _ _ found name _ _ _ run ih =>
    have new := ih ((grows_outside tree r index found name).coherent coherent)
      (by simpa [Task.Anchored] using anchored)
    rwa [graph_checkPackageImport, graph_noteImport, FileGraph.size_update] at new
  | @linked s s₁ _ r _ index _ _ found target _ _ _ _ run rest file ih =>
    have noted := (grows_noteImport tree r index found).coherent coherent
    have reached := (grows_linked r.id index target).coherent (run.grows.coherent noted)
    have size := run.grows.size_le
    have first := file noted (by simpa [Task.Anchored, importOrigin] using anchored)
    rw [graph_noteImport, FileGraph.size_update] at first size
    have inside : r.id < s.graph.size := anchored
    have later := ih reached (by rw [Task.Anchored, graph_checkImport, graph_setTarget, FileGraph.size_update]; omega)
    rw [graph_checkImport, graph_setTarget, FileGraph.size_update] at later
    exact first.trans ((grows_linked r.id index target).trans rest.grows) later

theorem Runs.enters {id : Nat} (run : Runs tree (.file path origin id) s checks s')
    (new : s.graph.lookup? path.clean = none) :
    id = s.graph.size ∧ ∃ r, s'.graph.get? s.graph.size = some r ∧ r.lazyRoot = origin.lazyRoot := by
  cases run with
  | visited known => cases new.symm.trans known
  | entered _ run =>
    obtain ⟨r, held, same⟩ := run.grows.place (get?_enter s path.clean origin)
    exact ⟨rfl, r, held, (FileRecord.blank_eq_iff.mp same).2.2.2.1⟩

theorem placed_of_descends (placed : s.graph.Placed) (grows : Grows s s') (new : Descends s.graph.size chunk s')
    (rooted : ∀ {root}, chunk = some root →
      root ≤ s.graph.size ∧ ∃ q, s'.graph.get? root = some q ∧ q.lazyRoot = some root) : s'.graph.Placed := by
  refine ⟨?_, ?_⟩
  · intro i r p held known
    by_cases inside : i < s.graph.size
    · obtain ⟨old, before⟩ := FileGraph.get?_of_lt inside
      rw [(FileRecord.blank_eq_iff.mp (grows.blank_eq before held)).2.2.1] at known
      exact Nat.lt_of_lt_of_le (placed.parents before known) grows.size_le
    · exact (new i r (by omega) held).2 known
  · intro i r root held known
    by_cases inside : i < s.graph.size
    · obtain ⟨old, before⟩ := FileGraph.get?_of_lt inside
      rw [(FileRecord.blank_eq_iff.mp (grows.blank_eq before held)).2.2.2.1] at known
      obtain ⟨le, q, first, rooted⟩ := placed.roots before known
      obtain ⟨q', first', same'⟩ := grows.place first
      exact ⟨le, q', first', (FileRecord.blank_eq_iff.mp same').2.2.2.1.trans rooted⟩
    · obtain ⟨le, first⟩ := rooted ((new i r (by omega) held).1.symm.trans known)
      exact ⟨by omega, first⟩

theorem Runs.placed_chunk {id : Nat} {request : LazyRequest}
    (run : Runs tree (.file request.target ⟨s.graph.lookup? request.importer, some s.graph.size, none⟩ id) s checks s')
    (coherent : s.graph.Coherent) (asked : Requested tree s) (placed : s.graph.Placed)
    (next : s.requests[cursor]? = some request) (new : s.graph.lookup? request.target = none) : s'.graph.Placed := by
  have clean := (asked request (List.mem_of_getElem? next)).1
  have lineage := run.lineage coherent (fun known => coherent.lookup?_lt known)
  obtain ⟨-, root⟩ := run.enters (by rwa [clean])
  apply placed_of_descends placed run.grows lineage
  intro chunk same
  cases same
  exact ⟨Nat.le_refl _, root⟩

theorem Drains.placed (drains : Drains tree cursor s checks s') (coherent : s.graph.Coherent)
    (asked : Requested tree s) (placed : s.graph.Placed) : s'.graph.Placed := by
  induction drains with
  | done => exact placed
  | known _ _ _ ih => exact ih coherent asked placed
  | chunk next new run _ ih =>
    exact ih (run.grows.coherent coherent) (run.requested asked) (run.placed_chunk coherent asked placed next new)

end Session

end ComponentCompiler
