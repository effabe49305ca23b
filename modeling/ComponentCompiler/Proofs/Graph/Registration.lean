import ComponentCompiler.Proofs.Graph.Enrolment
import Mathlib.Data.List.Induction

/-!
The registry of a session that is edited, and the annotated functions of its files. Main statement:
`edits_register_declarations`.
-/

namespace ComponentCompiler.Session

open List

variable {past : Past} {s : Session} {a r : FileRecord} {m : SourceModule} {id : Nat}

/-! ### Edits -/

theorem code_of_recheckError? (reported : s.recheckError? importer index = some e) : e.code = .importNotExported := by
  obtain ⟨r, -, reported⟩ := Option.bind_eq_some_iff.mp reported
  split at reported
  · exact code_of_importError? reported
  · obtain ⟨package, -, reported⟩ := Option.bind_eq_some_iff.mp reported
    split at reported
    · exact code_of_packageError? reported
    · cases reported

theorem advances_foldl {α : Type} {f : Session → α → Session} (step : ∀ s a, Advances tree s (f s a)) (items : List α)
    (s) : Advances tree s (items.foldl f s) := by
  induction items generalizing s with
  | nil => exact .refl s
  | cons item rest ih => exact (step s item).trans (ih (f s item))

theorem advances_recheckImports (s) (importer) : Advances tree s (s.recheckImports importer) := by
  unfold recheckImports
  split
  · exact .refl s
  · rename_i r _
    have cleared : Advances tree s { s with log := s.log.clearFileCodes r.key [.importNotExported] } := by
      refine advances_of_graph_eq rfl rfl rfl id id id .inl ?_
      intro file d code
      rw [DiagnosticLog.forFile_clearFileCodes]
      split
      · simp [DiagnosticLog.mem_without, code]
      · rfl
    refine cleared.trans (advances_foldl (fun s index => ?_) _ _)
    rw [recheckImport_eq]
    exact advances_reportAny fun reported => by simp [code_of_recheckError? reported]

def Past.next (past : Past) (e : Edit) : Past := { past with edits := past.edits ++ [e] }

section

variable (e : Edit)

theorem Past.mem_trees_next (read : t ∈ past.trees) : t ∈ (past.next e).trees := by
  rw [trees, next, map_append, ← cons_append]
  exact mem_append_left _ read

theorem Past.Edited.next (edited : past.Edited key) : (past.next e).Edited key := by
  obtain ⟨e', mem, same⟩ := edited
  exact ⟨e', mem_append_left _ mem, same⟩

theorem Past.Outdates.next (outdated : past.Outdates refusal winner) : (past.next e).Outdates refusal winner := by
  obtain ⟨before, e', after, split, file, logged⟩ := outdated
  exact ⟨before, e', after ++ [e], by simp [Past.next, split], file, logged⟩

theorem Refused.next (refused : Refused past s r m block winner) : Refused (past.next e) s r m block winner :=
  { refused with
    stands := refused.stands.imp_right (And.imp_right (Or.imp_right (Past.Outdates.next e))) }

theorem Enrolled.next (enrolled : Enrolled past s r m block) : Enrolled (past.next e) s r m block := by
  cases enrolled with
  | registered held => exact .registered held
  | refused refused => exact .refused (refused.next e)
  | shared shares => exact .shared shares

theorem Backed.next (backed : Backed past s d) : Backed (past.next e) s d := by
  cases backed with
  | file mem surface declared listed => exact .file mem surface declared listed
  | former mem package read loaded declared gone =>
    exact .former mem package (Past.mem_trees_next e read) loaded declared (gone.imp_right (Past.Edited.next e))
  | metadata read described => exact .metadata (Past.mem_trees_next e read) described

theorem Explained.next (explained : Explained past s file refusal) : Explained (past.next e) s file refusal := by
  obtain ⟨r, mem, key, unpackaged, m, block, winner, listed, last, same, refused⟩ := explained
  refine ⟨r, mem, key, unpackaged, m, block, winner, listed, last.imp_right ?_, same, refused.next e⟩
  rintro ⟨failed, t, read, loaded⟩
  exact ⟨failed, t, Past.mem_trees_next e read, loaded⟩

theorem Ledger.next (ledger : Ledger past s) : Ledger (past.next e) s where
  coherent := ledger.coherent
  read mem surface := by
    obtain ⟨t, read, loaded⟩ := ledger.read mem surface
    exact ⟨t, Past.mem_trees_next e read, loaded⟩
  blocks mem surface unpackaged listed := (ledger.blocks mem surface unpackaged listed).next e
  backed here := (ledger.backed here).next e
  refusals logged code := (ledger.refusals logged code).next e
  admitted := ledger.admitted
  known := ledger.known

end

theorem Resting.edit_steps (resting : Resting s) (e) : s.edit e = s ∨
    ∃ id a s₁ checks later, s.graph.get? id = some a ∧ a.path = e.path.clean ∧
      Runs e.tree (.record id) (s.forget id a.path) checks s₁ ∧
      Drains e.tree 0 ((s₁.graph.importersOf id).foldl recheckImports s₁) later (s.edit e) := by
  cases compiled : s.recompile e.tree e.path with
  | none => exact .inl (by rw [Session.edit, compiled]; rfl)
  | some outcome =>
    obtain ⟨s', id⟩ := outcome
    have same : s.edit e = s' := by rw [Session.edit, compiled]; rfl
    rw [same]
    obtain ⟨known, checks, later, run, drains⟩ := resting.recompile_steps compiled
    obtain ⟨a, held, path⟩ := resting.coherent.get?_of_lookup? (Path.clean_clean e.path) known
    rw [← path] at run drains
    exact .inr ⟨id, a, _, checks, later, held, path, run, drains⟩

theorem get?_forget_self (held : s.graph.get? id = some a) (path) :
    (s.forget id path).graph.get? id = some a.blank := by
  rw [get?_forget, if_pos rfl, held]
  rfl

theorem coherent_recheck (coherent : s.graph.Coherent) (importers : List Nat) :
    (importers.foldl recheckImports s).graph.Coherent := by
  obtain ⟨log, checked⟩ := foldl_log recheckImports_log importers s
  rw [checked]
  exact coherent

theorem Ledger.edit (ledger : Ledger past s) (resting : Resting s) (reached : s = past.edits.foldl edit past.built)
    (e) : Ledger (past.next e) (s.edit e) := by
  rcases resting.edit_steps e with same | ⟨id, a, s₁, checks, later, held, path, run, drains⟩
  · rw [same]
    exact ledger.next e
  · have reading : e.tree ∈ (past.next e).trees := by simp [Past.trees, Past.next]
    have key : e.path.clean.key = a.key := congrArg Path.key path.symm
    have removes : (past.next e).Removes s a.blank := by
      refine .inr ⟨⟨e, by simp [Past.next], key⟩, ?_⟩
      intro refusal winner logged file
      exact ⟨past.edits, e, [], rfl, key.trans file.symm, reached ▸ logged⟩
    have coherent : (s.forget id a.path).graph.Coherent := resting.coherent.update fun _ => rfl
    have forgotten := (ledger.next e).withdraw (withdraws_forget resting.coherent held) removes
    have blank : Task.Fresh (s.forget id a.path) (.record id) := by
      intro r here
      cases (get?_forget_self held a.path).symm.trans here
      rfl
    have compiled := run.ledger coherent reading blank forgotten
    exact drains.ledger (coherent_recheck (run.grows.coherent coherent) _) reading
      (compiled.advance reading (advances_foldl advances_recheckImports _ _))

theorem edits_ledger (resting : Resting built) (ledger : ∀ edits, Ledger ⟨tree, built, edits⟩ built)
    (edits) : Ledger ⟨tree, built, edits⟩ (edits.foldl edit built) := by
  induction edits using reverseRecOn with
  | nil => exact ledger []
  | append_singleton edits e ih =>
    rw [foldl_append]
    exact ih.edit (edits_resting edits resting).1 rfl e

/-! ### Files that hold a surface -/

/-- Only files that have been compiled hold a surface, but for those that are being compiled. -/
def CompiledBut (own : Option Nat) (s : Session) : Prop :=
  ∀ i r m, s.graph.get? i = some r → own ≠ some i → r.surface = some m → r.isCompiled = true

theorem Runs.compiledBut (run : Runs tree task s checks s') (coherent : s.graph.Coherent)
    (own : ∀ {i}, task.own? = some i → i < s.graph.size) (compiled : CompiledBut task.own? s) :
    CompiledBut task.own? s' := by
  intro i r m held other surface
  by_cases inside : i < s.graph.size
  · have before := run.get?_before coherent other inside held
    exact compiled i r m before other surface
  · exact ((run.settles coherent own i r (by omega) held).of_surface surface).1

theorem Drains.compiledBut (drains : Drains tree cursor s checks s') (coherent : s.graph.Coherent)
    (compiled : CompiledBut none s) : CompiledBut none s' :=
  drains.invariant coherent compiled fun run coherent => run.compiledBut coherent (by simp [Task.own?])

theorem CompiledBut.edit (compiled : CompiledBut none s) (resting : Resting s) (e) :
    CompiledBut none (s.edit e) := by
  rcases resting.edit_steps e with same | ⟨id, a, s₁, checks, later, held, path, run, drains⟩
  · rwa [same]
  · have coherent : (s.forget id a.path).graph.Coherent := resting.coherent.update fun _ => rfl
    have blank := get?_forget_self held a.path
    have inside := FileGraph.get?_eq_some_lt blank
    have others : CompiledBut (some id) (s.forget id a.path) := by
      intro i r m there other surface
      rw [get?_forget, if_neg fun same => other (congrArg some same.symm)] at there
      exact compiled i r m there (by simp) surface
    have all : CompiledBut none s₁ := by
      intro i r m there _ surface
      by_cases own : i = id
      · subst own
        obtain ⟨r', last, -, settled⟩ := run.settles_record coherent blank
        cases there.symm.trans last
        exact (settled.of_surface surface).1
      · exact run.compiledBut coherent (by simpa [Task.own?] using inside) others i r m there
          (by simpa [Task.own?] using Ne.symm own) surface
    obtain ⟨log, checked⟩ := foldl_log recheckImports_log (s₁.graph.importersOf id) s₁
    rw [checked] at drains
    exact drains.compiledBut (run.grows.coherent coherent) all

theorem edits_compiledBut (edits : List Edit) (resting : Resting s) (compiled : CompiledBut none s) :
    CompiledBut none (edits.foldl Session.edit s) := by
  induction edits generalizing s with
  | nil => exact compiled
  | cons e rest ih => exact ih (edit_resting resting e).1 (compiled.edit resting e)

/-! ### The registry after edits -/

/-- However a session is edited after it was built, an annotated function of a compiled file is registered, or the file
has been refused its name for a definition of another file or a package. That definition has the name still, unless its
file has failed or has been compiled again since the refusal: the name is not handed over. A local definition is one of
a compiled file that lists it; a definition of a package may stem from a file of the package that has failed or
has been compiled again. All refusals in the log are of these kinds. Files are told apart by their keys. -/
theorem edits_register_declarations (resolver : Resolver) (library : Bool) (globals : SortedMap String String)
    (tree : FileTree) (entry : Path) (edits : List Edit) :
    let built := ((new resolver library globals).compileEntry tree entry).1
    let past : Past := ⟨tree, built, edits⟩
    let s := edits.foldl edit built
    (∀ r ∈ s.graph.records, ∀ m, r.surface = some m → r.package = none →
      (∀ q ∈ s.graph.records, q.key = r.key → q = r) → ∀ block ∈ m.annotations,
      s.registry.get? block.kind block.name = some (blockDefinition r m block) ∨
        ∃ winner, Refused past s r m block winner ∧ (winner.package = none → winner.file ≠ r.key)) ∧
    (∀ d ∈ s.registry.all, Backed past s d ∧ (d.package = none → ∃ r ∈ s.graph.records, r.isCompiled ∧
      ∃ m, r.surface = some m ∧ Declares r m d ∧ (d.kind, d.name) ∈ r.annotations)) ∧
    ∀ file, ∀ refusal ∈ s.log.forFile file, refusal.code = .duplicateRegistration → Explained past s file refusal := by
  intro built past s
  obtain ⟨checks, builds⟩ := compileEntry_builds (requested_new resolver library globals tree) entry
  obtain ⟨rested, -⟩ := compileEntry_resting resolver library globals tree entry
  have ledger : Ledger past s := edits_ledger rested builds.ledger edits
  have compiled : CompiledBut none s := by
    refine edits_compiledBut edits rested ?_
    intro i r m present _ surface
    have settled := builds.settles (coherent_new resolver library globals)
      (settledFrom_size tree (new resolver library globals))
    exact ((settled i r (Nat.zero_le i) present).of_surface surface).1
  refine ⟨?_, ?_, fun file refusal logged code => ledger.refusals logged code⟩
  · intro r member m surface unpackaged alone block listed
    have unshared : ¬s.SharesKey r := by
      rintro ⟨q, there, other, key⟩
      exact other (congrArg FileRecord.id (alone q there key))
    cases ledger.blocks member surface unpackaged listed with
    | registered held => exact .inl held
    | refused refused =>
      exact .inr ⟨_, refused, fun unpackaged file => unshared (refused.apart unpackaged file)⟩
    | shared shares => exact absurd shares unshared
  · intro d member
    obtain ⟨kind, name, here⟩ := Registry.mem_all.mp member
    refine ⟨ledger.backed here, fun unpackaged => ?_⟩
    obtain ⟨r, inside, m, surface, declared, listed⟩ := (ledger.backed here).local_file unpackaged
    obtain ⟨i, present⟩ := FileGraph.mem_records_iff.mp inside
    exact ⟨r, inside, compiled i r m present (by simp) surface, m, surface, declared, listed⟩

def serviceProject (first : String) : FileTree where
  entries := .ofList
    [(["w"], .directory), (["w", "main.js"], .file (.text "import './a.js';\nimport './b.js';\n")),
      (["w", "a.js"], .file (.text first)),
      (["w", "b.js"], .file (.text "Service(\x7b\x7d)\nexport function Api() \x7b\x7d\n"))]

/-- When the first of two files with a service of one name no longer declares it, the second one is not registered, and
the refusal stays in the log. -/
theorem refused_name_not_handed_over :
    let built := ((new ⟨⟨"/w"⟩, [], [⟨"/w/node_modules"⟩]⟩ false ∅).compileEntry
      (serviceProject "Service(\x7b\x7d)\nexport function Api() \x7b\x7d\n") ⟨"/w/main.js"⟩).1
    let s := built.edit ⟨serviceProject "export const x = 1;\n", ⟨"/w/a.js"⟩⟩
    (s.graph.records.map fun r => (r.key, r.state, (r.surface.map (·.annotations.map (·.name))).getD [])) =
        [("/w/main.js", .compiled, []), ("/w/a.js", .compiled, []), ("/w/b.js", .compiled, ["Api"])] ∧
      s.registry.all.map (·.name) = [] ∧
      (s.log.forFile "/w/b.js").map (fun d => (d.code, d.message)) =
        [(.duplicateRegistration, "Service 'Api' is already registered by /w/a.js")] := by
  decide +kernel

end ComponentCompiler.Session
