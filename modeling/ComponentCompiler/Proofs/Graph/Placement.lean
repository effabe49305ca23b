import ComponentCompiler.Proofs.Graph.Chunks

/-!
The tables of the targets of imports in a session that is edited: a file keeps its table for good,
so an import may come to lead into a chunk. Main statement: `edits_place_imports`.
-/

namespace ComponentCompiler.Session

open Option FileGraph

variable {s : Session} {id i target : Nat}

theorem Grows.lazyRoot (grows : Grows s s') (before : s.graph.get? i = some r) (after : s'.graph.get? i = some r') :
    r'.lazyRoot = r.lazyRoot := (FileRecord.blank_eq_iff.mp (grows.blank_eq before after)).2.2.2.1

theorem Runs.strays_record (run : Runs tree (.record id) s checks s') (coherent : s.graph.Coherent)
    (inside : id < s.graph.size) (shaped : ShapedBut (some id) s) (strays : s'.graph.Strays i target) :
    s.graph.Strays i target ∨
      (i = id ∨ s.graph.size ≤ i) ∧ ∃ q, s.graph.get? target = some q ∧ q.lazyRoot.isSome := by
  obtain ⟨r, q, held, leads, there, stray⟩ := strays
  have lineage := run.lineage coherent inside
  by_cases compiled : i = id ∨ s.graph.size ≤ i
  · refine .inr ⟨compiled, ?_⟩
    have own : r.lazyRoot = Task.chunk? s (.record id) := by
      rcases compiled with rfl | new
      · obtain ⟨a, before⟩ := get?_of_lt inside
        rw [run.grows.lazyRoot before held, Task.chunk?, before]
        rfl
      · exact (lineage i r new held).1
    by_cases earlier : target < s.graph.size
    · obtain ⟨q', before⟩ := get?_of_lt earlier
      refine ⟨q', before, ?_⟩
      rw [run.grows.lazyRoot before there] at stray
      cases chunk : q'.lazyRoot with
      | none =>
        rw [chunk] at stray
        exact absurd trivial stray
      | some root => rfl
    · obtain ⟨chunk, -⟩ := lineage target q (by omega) there
      rw [own, chunk] at stray
      exact absurd (canUse_self _) stray
  · obtain ⟨apart, old⟩ := not_or.mp compiled
    have other : some id ≠ some i := fun same => apart (some.inj same).symm
    have before := run.get?_before coherent other (by omega) held
    obtain ⟨q', earlier⟩ := get?_of_lt ((shaped i r before other).targets target leads)
    rw [run.grows.lazyRoot earlier there] at stray
    exact .inl ⟨r, q', before, leads, earlier, stray⟩

theorem strays_of_forget (strays : (s.forget id path).graph.Strays i target) : s.graph.Strays i target := by
  obtain ⟨r, q, held, leads, there, stray⟩ := strays
  rw [get?_forget] at held there
  split at held
  · obtain ⟨a, -, rfl⟩ := map_eq_some_iff.mp held
    cases leads
  · split at there
    · obtain ⟨b, before, rfl⟩ := map_eq_some_iff.mp there
      exact ⟨r, b, held, leads, before, stray⟩
    · exact ⟨r, q, held, leads, there, stray⟩

theorem Resting.recompile_steps (resting : Resting s) (compiled : s.recompile tree path = some (s', id)) :
    let s₁ := (s.forget id path.clean).compileRecord tree (compileFile tree) id
    s.graph.lookup? path.clean = some id ∧ ∃ checks later,
      Runs tree (.record id) (s.forget id path.clean) checks s₁ ∧
      Drains tree 0 ((s₁.graph.importersOf id).foldl recheckImports s₁) later s' := by
  intro s₁
  obtain ⟨id', known, same⟩ := map_eq_some_iff.mp compiled
  cases same
  obtain ⟨r, held, -⟩ := resting.coherent.index.mp known
  have blank : (s.forget id path.clean).graph.get? id = some r.blank := by rw [get?_forget, if_pos rfl, held]; rfl
  obtain ⟨checks, run⟩ := compileRecord_runs tree blank
  obtain ⟨log, checked⟩ := foldl_log recheckImports_log (s₁.graph.importersOf id) s₁
  have asked : Requested tree ((s₁.graph.importersOf id).foldl recheckImports s₁) := by
    rw [checked]
    exact run.requested (resting.requested_forget tree id path.clean)
  obtain ⟨later, drains⟩ := drainLazy_drains asked
  exact ⟨known, checks, later, run, drains⟩

/-- The edit compiles the file `i`, and the file `target` is in a chunk before it. -/
structure Overtakes (s : Session) (e : Edit) (i target : Nat) : Prop where
  compiles : s.graph.lookup? e.path.clean = some i ∨ s.graph.size ≤ i ∧ i < (s.edit e).graph.size
  chunked : ∃ q, s.graph.get? target = some q ∧ q.lazyRoot.isSome

theorem edit_strays (resting : Resting s) (strays : (s.edit e).graph.Strays i target) :
    s.graph.Strays i target ∨ s.Overtakes e i target := by
  have bounded : i < (s.edit e).graph.size := by
    obtain ⟨r, -, held, -⟩ := strays
    exact get?_eq_some_lt held
  cases compiled : s.recompile e.tree e.path with
  | none =>
    have same : s.edit e = s := by rw [edit, compiled]; rfl
    exact .inl (same ▸ strays)
  | some outcome =>
    obtain ⟨s', id⟩ := outcome
    have same : s.edit e = s' := by rw [edit, compiled]; rfl
    obtain ⟨known, checks, later, run, drains⟩ := resting.recompile_steps compiled
    obtain ⟨coherent, placed, shaped, asked, -⟩ := resting.compileRecord_forget e.tree known
    generalize (s.forget id e.path.clean).compileRecord e.tree (compileFile e.tree) id = s₁ at *
    obtain ⟨log, checked⟩ := foldl_log recheckImports_log (s₁.graph.importersOf id) s₁
    rw [checked] at drains
    have early := drains.strays coherent asked placed shaped (same ▸ strays)
    have forgotten : (s.forget id e.path.clean).graph.Coherent := resting.coherent.update fun _ => rfl
    have size : (s.forget id e.path.clean).graph.size = s.graph.size := size_update
    have inside : id < (s.forget id e.path.clean).graph.size := size ▸ resting.coherent.lookup?_lt known
    rcases run.strays_record forgotten inside (resting.shaped_forget id e.path.clean) early with
      old | ⟨file, q, there, chunk⟩
    · exact .inl (strays_of_forget old)
    · refine .inr ⟨?_, ?_⟩
      · rcases file with rfl | new
        · exact .inl known
        · exact .inr ⟨size ▸ new, bounded⟩
      · rw [get?_forget] at there
        split at there
        · obtain ⟨a, before, rfl⟩ := map_eq_some_iff.mp there
          exact ⟨a, before, chunk⟩
        · exact ⟨q, there, chunk⟩

theorem edits_strays (edits : List Edit) (resting : Resting s) (strays : (edits.foldl edit s).graph.Strays i target) :
    s.graph.Strays i target ∨
      ∃ before e after, edits = before ++ e :: after ∧ (before.foldl edit s).Overtakes e i target := by
  induction edits generalizing s with
  | nil => exact .inl strays
  | cons e rest ih =>
    rcases ih (edit_resting resting e).1 strays with earlier | ⟨before, e', after, split, overtakes⟩
    · rcases edit_strays resting earlier with old | overtakes
      · exact .inl old
      · exact .inr ⟨[], e, rest, rfl, overtakes⟩
    · exact .inr ⟨e :: before, e', after, by rw [split]; rfl, overtakes⟩

/-- In an application that is edited after it was built, every import of a compiled file is written as a reference to
the file that it leads to. That file is in a table that the importer can use, and in the main table if the importer is,
unless an edit has compiled the importer when the other file was in a chunk already. -/
theorem edits_place_imports (resolver : Resolver) (globals : SortedMap String String) (tree : FileTree) (entry : Path)
    (edits : List Edit) :
    let built := ((new resolver false globals).compileEntry tree entry).1
    let s := edits.foldl edit built
    ∀ r ∈ s.graph.records, ∀ m, r.isCompiled = true → r.surface = some m → ∀ index < m.imports.length,
      ∃ target q, s.graph.get? target = some q ∧
        (∀ context, r.moduleReference? context index = some (Loader.module target) ∧
          ∀ name, r.memberReference? context index name = some (Loader.member target name)) ∧
        (CanUse r.lazyRoot q.lazyRoot ∧ (r.lazyRoot = none → q.lazyRoot = none) ∨
          ∃ before e after, edits = before ++ e :: after ∧ (before.foldl edit built).Overtakes e r.id target) := by
  intro built s r member m compiled surface index inside
  obtain ⟨checks, builds⟩ := compileEntry_builds (requested_new resolver false globals tree) entry
  obtain ⟨rested, mode⟩ := compileEntry_resting resolver false globals tree entry
  obtain ⟨resting, kept⟩ := edits_resting edits rested
  obtain ⟨i, present⟩ := mem_records_iff.mp member
  have shaped := resting.shaped i r present (by simp)
  obtain ⟨m', surface', slots, -, filled⟩ := shaped.compiled compiled
  cases surface.symm.trans surface'
  -- an application has a file for every import
  obtain ⟨target, leads⟩ : ∃ target, r.importTargets[index]? = some (some target) := by
    have slot := List.getElem?_eq_getElem (slots ▸ inside : index < r.importTargets.length)
    cases here : r.importTargets[index] with
    | none => exact absurd (here ▸ List.getElem_mem _) (filled (kept.trans mode))
    | some target => exact ⟨target, here ▸ slot⟩
  have link := FileRecord.importTarget?_eq_some_iff.mpr leads
  have listed : some target ∈ r.importTargets := List.mem_of_getElem? leads
  obtain ⟨q, there⟩ := get?_of_lt (shaped.targets target listed)
  refine ⟨target, q, there, fun context => ⟨?_, fun name => ?_⟩, ?_⟩
  · rw [FileRecord.moduleReference?, link]
  · rw [FileRecord.memberReference?, link]
  · by_cases use : CanUse r.lazyRoot q.lazyRoot
    · refine .inl ⟨use, fun main => ?_⟩
      rw [main] at use
      cases chunk : q.lazyRoot with
      | none => rfl
      | some root =>
        rw [chunk] at use
        exact use.elim
    · rw [resting.coherent.ids present]
      rcases edits_strays edits rested ⟨r, q, present, listed, there, use⟩ with old | brought
      · exact absurd old builds.isolated.not_strays
      · exact .inr brought

def pageProject (main : String) : FileTree where
  entries := .ofList
    [(["w"], .directory), (["w", "main.js"], .file (.text main)),
      (["w", "page.js"], .file (.text "export const page = 1;\n"))]

/-- A page that was loaded on demand stays in its chunk when the main file comes to import it. -/
theorem imported_page_stays_in_chunk :
    let built := ((new ⟨⟨"/w"⟩, [], [⟨"/w/node_modules"⟩]⟩ false ∅).compileEntry
      (pageProject "export function open() \x7b return lazyload('./page.js'); \x7d\n") ⟨"/w/main.js"⟩).1
    let s := built.edit ⟨pageProject
      "import \x7bpage\x7d from './page.js';\nexport function open() \x7b return page; \x7d\n", ⟨"/w/main.js"⟩⟩
    (s.graph.records.map fun r => (r.key, r.isCompiled, r.lazyRoot, r.importTargets)) =
        [("/w/main.js", true, none, [some 1]), ("/w/page.js", true, some 1, [])] ∧
      s.graph.chunkRoots = [1] ∧ s.log.isEmpty = true := by
  decide +kernel

end ComponentCompiler.Session
