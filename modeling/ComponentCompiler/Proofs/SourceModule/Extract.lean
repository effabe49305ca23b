import ComponentCompiler.Proofs.Collection.SortedMap
import ComponentCompiler.SourceModule.Extract
import Mathlib.Data.List.Duplicate
import Mathlib.Data.List.Nodup

/-!
What extraction adds to a surface, statement by statement: the names it declares, its exports and their forms.
Main statement: `adds_extract`.
-/

namespace ComponentCompiler

open List

namespace Script

/-! ### What a statement binds and exports -/

def ownName : Node → List String
  | .mk (.function name) _ _ => name.toList
  | .mk (.classNode name) _ _ => name.toList
  | _ => []

/-- The names that a statement of a module binds, given the names that a declaration binds. -/
def topLevelNames (declared : Node → List String) : Node → List String
  | .mk (.importFrom specifiers _) _ _ => specifiers.map (·.bound)
  | .mk .exportDeclaration _ [inner] => declared inner
  | .mk .exportDefault _ [value] => ownName value
  | statement => declared statement

/-- An exported name and what it stands for: a name here or in the requested module. No exported name means all
names of the module, no name in the module the module itself. -/
structure ExportEntry where
  exported : Option String
  request : Option String := none
  name : Option String
deriving DecidableEq

def ExportEntry.own (name : String) : ExportEntry := { exported := some name, name := some name }

/-- The exports of a statement of a module, given the names that a declaration binds. -/
def exportEntries (declared : Node → List String) : Node → List ExportEntry
  | .mk .exportDeclaration _ [inner] => (declared inner).map .own
  | .mk (.exportList specifiers source) _ _ =>
    specifiers.map fun (s : ExportSpecifier) => ⟨s.exported, source, s.inner⟩
  | .mk (.exportAll name source) _ _ => [⟨name, source, none⟩]
  | .mk .exportDefault _ [_] => [.own "default"]
  | _ => []

end Script

def ExportForm.shape : ExportForm → ExportForm
  | .star span _ => .star span 0
  | form => form

namespace SourceModule

open Script Extraction
variable {statement : Node} {name source file : String} {exported : Bool} {m : SourceModule}

def defaultForm (span : Span) (value : Node) : ExportForm :=
  match value.label with
  | .function name | .classNode name => .defaultDeclaration span value.span name
  | .identifier name => .defaultExpression span value.span (some name)
  | _ => .defaultExpression span value.span none

def formShape? : Node → Option ExportForm
  | .mk .exportDeclaration span [inner] => some (.declaration span inner.span.start)
  | .mk (.exportList _ _) span _ => some (.names span)
  | .mk (.exportAll (some _) _) span _ => some (.names span)
  | .mk (.exportAll none _) span _ => some (.star span 0)
  | .mk .exportDefault span [value] => some (defaultForm span value)
  | _ => none

def exportEntry (imports : List ImportStatement) (e : ExportName) : ExportEntry :=
  let source := e.reexportOf.bind (imports[·]?)
  { exported := if e.star then none else e.exported
    request := source.map (·.source)
    name := if e.star || source.any (·.namespaceName.isSome) then none else e.bound }

def entries (m : SourceModule) : List ExportEntry := m.exports.map (exportEntry m.imports)

structure Additions where
  names : List String := []
  exports : List ExportEntry := []
  forms : List ExportForm := []

instance : Append Additions := ⟨fun a b => ⟨a.names ++ b.names, a.exports ++ b.exports, a.forms ++ b.forms⟩⟩

theorem Additions.append_eq (a b : Additions) :
    a ++ b = ⟨a.names ++ b.names, a.exports ++ b.exports, a.forms ++ b.forms⟩ := rfl

def additions (statement : Node) : Additions :=
  ⟨topLevelNames declaredNames statement, exportEntries declaredNames statement, (formShape? statement).toList⟩

def additionsOf (body : List Node) : Additions :=
  ⟨body.flatMap (topLevelNames declaredNames), body.flatMap (exportEntries declaredNames), body.filterMap formShape?⟩

theorem additionsOf_cons (statement) (rest) :
    additionsOf (statement :: rest) = additions statement ++ additionsOf rest := by
  refine congr (congrArg₂ Additions.mk flatMap_cons flatMap_cons) ?_
  rw [filterMap_cons, additions]
  cases formShape? statement <;> rfl

namespace Extraction

def Declares (e : Extraction) (name : String) : Prop := e.surface.declarations.contains name = true

structure Sound (e : Extraction) : Prop where
  linked : ∀ name ∈ e.surface.exports, ∀ index, name.reexportOf = some index → index < e.surface.imports.length
  stars : ∀ name ∈ e.surface.exports, name.star = true →
    ∃ index span, name.reexportOf = some index ∧ .star span index ∈ e.surface.exportForms
  listed : ∀ block ∈ e.surface.annotations, block.exported = true →
    { bound := block.name, exported := block.name } ∈ e.surface.exports
  unattached : ∀ d ∈ e.surface.diagnostics, d.code = .annotationTarget

end Extraction

def Clashes (e : Extraction) (names : List String) (name : String) : Prop :=
  e.Declares name ∧ name ∈ names ∨ Duplicate name names

structure Extends (e e' : Extraction) (a : Additions) : Prop where
  file : e'.file = e.file
  nodup : a.names.Nodup
  fresh : ∀ name ∈ a.names, ¬e.Declares name
  declares : ∀ name, e'.Declares name ↔ e.Declares name ∨ name ∈ a.names
  sound : e.Sound → e'.Sound
  entries : e.Sound → e'.surface.entries = e.surface.entries ++ a.exports
  forms : e'.surface.exportForms.map (·.shape) = e.surface.exportForms.map (·.shape) ++ a.forms
  annotated : ∃ blocks, blocks.Sublist a.names ∧
    e'.surface.annotations.map (·.name) = e.surface.annotations.map (·.name) ++ blocks

/-- How the addition of names and exports may end: it fails exactly if one of the names clashes. -/
def Adds (e : Extraction) (a : Additions) : Except Diagnostic Extraction → Prop
  | .ok e' => Extends e e' a
  | .error d => d.code = .duplicateDeclaration ∧ d.file = e.file ∧
      ∃ name, d.identifier = some name ∧ Clashes e a.names name

theorem Extends.refl (e) : Extends e e {} where
  file := rfl
  nodup := nodup_nil
  fresh _ mem := absurd mem not_mem_nil
  declares name := by simp
  sound := id
  entries _ := (append_nil _).symm
  forms := (append_nil _).symm
  annotated := ⟨[], Sublist.refl _, (append_nil _).symm⟩

theorem Extends.trans (first : Extends e e₁ a) (second : Extends e₁ e₂ b) : Extends e e₂ (a ++ b) where
  file := second.file.trans first.file
  nodup := by
    refine nodup_append'.mpr ⟨first.nodup, second.nodup, ?_⟩
    intro name early late
    exact second.fresh name late ((first.declares name).mpr (.inr early))
  fresh name mem := by
    rcases mem_append.mp mem with early | late
    · exact first.fresh name early
    · exact fun declared => second.fresh name late ((first.declares name).mpr (.inl declared))
  declares name := by
    rw [second.declares, first.declares, or_assoc, ← mem_append]
    rfl
  sound before := second.sound (first.sound before)
  entries before := by
    rw [second.entries (first.sound before), first.entries before, append_assoc]
    rfl
  forms := by
    rw [second.forms, first.forms, append_assoc]
    rfl
  annotated := by
    obtain ⟨blocks, within, same⟩ := first.annotated
    obtain ⟨blocks', within', same'⟩ := second.annotated
    exact ⟨blocks ++ blocks', within.append within', by rw [same', same, append_assoc]⟩

theorem Extends.adds (first : Extends e e₁ a) (second : Adds e₁ b x) : Adds e (a ++ b) x := by
  cases x with
  | ok e₂ => exact first.trans second
  | error d =>
    obtain ⟨code, file, name, identifier, clash⟩ := second
    refine ⟨code, file.trans first.file, name, identifier, ?_⟩
    rcases clash with ⟨declared, mem⟩ | twice
    · rcases (first.declares name).mp declared with before | early
      · exact .inl ⟨before, mem_append_right _ mem⟩
      · exact .inr (duplicate_iff_sublist.mpr
          ((singleton_sublist.mpr early).append (singleton_sublist.mpr mem)))
    · exact .inr (twice.mono_sublist (sublist_append_right ..))

theorem Adds.bind (first : Adds e a x) (next : ∀ e₁, Adds e₁ b (f e₁)) : Adds e (a ++ b) (x >>= f) := by
  cases x with
  | ok e₁ => exact Extends.adds first (next e₁)
  | error d =>
    obtain ⟨code, file, name, identifier, clash⟩ := first
    refine ⟨code, file, name, identifier, ?_⟩
    rcases clash with ⟨declared, mem⟩ | twice
    · exact .inl ⟨declared, mem_append_left _ mem⟩
    · exact .inr (twice.mono_sublist (sublist_append_left ..))

theorem Adds.map {f : Extraction → Extraction} (first : Adds e a x) (next : ∀ e₁, Extends e₁ (f e₁) b) :
    Adds e (a ++ b) (x >>= fun e₁ => pure (f e₁)) := first.bind next

/-! ### Single additions -/

theorem adds_declare (e) (name) (offset) :
    Adds e { names := [name] } (e.declare name offset) := by
  unfold Extraction.declare
  split
  · rename_i declared
    exact ⟨rfl, rfl, name, rfl, .inl ⟨declared, mem_singleton_self name⟩⟩
  · rename_i new
    exact
      { Extends.refl e with
        nodup := nodup_singleton name
        fresh := by
          intro other mem
          rw [mem_singleton.mp mem]
          exact new
        declares := by
          intro other
          rw [Declares, SortedSet.contains_add, mem_singleton, or_comm]
          rfl
        sound := fun before => { before with }
        annotated := ⟨[], nil_sublist _, (append_nil _).symm⟩ }

theorem extends_addForm (e) (form) : Extends e (e.addForm form) { forms := [form.shape] } :=
  { Extends.refl e with
    sound := fun before => { before with
      stars := by
        intro name mem star
        obtain ⟨index, span, from?, there⟩ := before.stars name mem star
        exact ⟨index, span, from?, mem_append_left _ there⟩ }
    forms := map_append .. }

theorem extends_reportUnattached (e) (kind) (call) :
    Extends e (reportUnattached kind call e) {} :=
  { Extends.refl e with
    sound := fun before => { before with
      unattached := by
        intro d mem
        rcases mem_append.mp mem with old | new
        · exact before.unattached d old
        · rw [mem_singleton.mp new] } }

theorem exportEntry_append {imports : List ImportStatement} {name : ExportName}
    (linked : ∀ index, name.reexportOf = some index → index < imports.length) (added) :
    exportEntry (imports ++ added) name = exportEntry imports name := by
  have same : name.reexportOf.bind ((imports ++ added)[·]?) = name.reexportOf.bind (imports[·]?) := by
    cases from? : name.reexportOf with
    | none => rfl
    | some index => exact getElem?_append_left (linked index from?)
  rw [exportEntry, exportEntry, same]

theorem exportEntry_last (imports) (statement) (bound exported)
    (star) : exportEntry (imports ++ [statement]) ⟨bound, exported, some imports.length, star⟩ =
      ⟨if star then none else exported, statement.source,
        if star || statement.namespaceName.isSome then none else bound⟩ := by
  simp [exportEntry]

theorem extends_addImport (e) (statement) : Extends e (e.addImport statement) {} :=
  { Extends.refl e with
    sound := fun before => { before with
      linked := by
        intro name mem index from?
        have inside := before.linked name mem index from?
        simp only [addImport, length_append]
        omega }
    entries := by
      intro before
      rw [append_nil]
      exact map_congr_left fun name mem => exportEntry_append (before.linked name mem) [statement] }

theorem extends_addExports (e : Extraction) (added) (forms)
    (linked : ∀ name ∈ added, ∀ index, name.reexportOf = some index → index < e.surface.imports.length)
    (stars : ∀ name ∈ added, name.star → ∃ index span, name.reexportOf = some index ∧ .star span index ∈ forms) :
    Extends e { e with
        surface.exports := e.surface.exports ++ added
        surface.exportForms := e.surface.exportForms ++ forms }
      { exports := added.map (exportEntry e.surface.imports), forms := forms.map (·.shape) } :=
  { Extends.refl e with
    sound := by
      intro before
      refine ⟨?_, ?_, ?_, before.unattached⟩
      · intro name mem
        exact (mem_append.mp mem).elim (before.linked name) (linked name)
      · intro name mem star
        rcases mem_append.mp mem with old | new
        · obtain ⟨index, span, from?, there⟩ := before.stars name old star
          exact ⟨index, span, from?, mem_append_left _ there⟩
        · obtain ⟨index, span, from?, there⟩ := stars name new star
          exact ⟨index, span, from?, mem_append_right _ there⟩
      · exact fun block mem exported => mem_append_left _ (before.listed block mem exported)
    entries := fun _ => map_append ..
    forms := map_append .. }

theorem extends_reexport (e : Extraction) (statement) (added) (form)
    (linked : ∀ name ∈ added, name.reexportOf = some e.surface.imports.length)
    (stars : ∀ name ∈ added, name.star → ∃ span, form = .star span e.surface.imports.length) :
    Extends e (((e.addImport statement).addExports added).addForm form)
      { exports := added.map (exportEntry (e.surface.imports ++ [statement])), forms := [form.shape] } := by
  refine (extends_addImport e statement).trans (extends_addExports (e.addImport statement) added [form] ?_ ?_)
  · intro name mem index from?
    rw [linked name mem] at from?
    cases from?
    simp [addImport]
  · intro name mem star
    obtain ⟨span, rfl⟩ := stars name mem star
    exact ⟨_, span, linked name mem, mem_singleton_self _⟩

/-! ### Statements -/

theorem adds_declareSpecifiers (specifiers : List ImportSpecifier) (e) :
    Adds e { names := specifiers.map (·.bound) } (declareSpecifiers specifiers e) := by
  induction specifiers generalizing e with
  | nil => exact .refl e
  | cons specifier rest ih => exact (adds_declare e specifier.bound specifier.span.start).bind ih

theorem extends_addOwnExport (e) (name) :
    Extends e (e.addExports [{ bound := name, exported := name }]) { exports := [.own name] } := by
  have added := extends_addExports e [{ bound := name, exported := name }] [] (by simp) (by simp)
  rw [append_nil] at added
  exact added

theorem adds_declareExported (offset) (names) (e) :
    Adds e { names, exports := names.map .own } (declareExported offset names e) := by
  induction names generalizing e with
  | nil => exact .refl e
  | cons name rest ih =>
    exact (adds_declare e name offset).bind fun e₁ => (extends_addOwnExport e₁ name).adds (ih _)

def plainName? : Node → Option String
  | .mk .declarator _ (.mk (.binding name) _ _ :: _) => some name
  | _ => none

theorem adds_declareVariables (declarators : List Node) (e) :
    Adds e { names := declarators.filterMap plainName? } (declareVariables declarators e) := by
  induction declarators generalizing e with
  | nil => exact .refl e
  | cons first rest ih =>
    unfold declareVariables
    split
    · rename_i none
      cases none
    · rename_i same
      cases same
      exact (adds_declare _ _ _).bind ih
    · rename_i pattern same
      cases same
      rw [filterMap_cons_none]
      · exact ih _
      · unfold plainName?
        split
        · exact absurd rfl (pattern _ _ _ _ _)
        · rfl

theorem extends_collectExportList (specifiers) (source) (span)
    (e) :
    Extends e (collectExportList specifiers source span e)
      { exports := specifiers.map fun (s : ExportSpecifier) => ⟨s.exported, source, s.inner⟩
        forms := [.names span] } := by
  cases source with
  | none =>
    have added := extends_addExports e (specifiers.map fun (s : ExportSpecifier) =>
      { bound := s.inner, exported := s.exported }) [.names span] (by simp) (by simp)
    rw [map_map] at added
    exact added
  | some source =>
    have added := extends_reexport e
      { source, named := specifiers.map fun (s : ExportSpecifier) => ⟨s.inner, s.inner⟩, origin := .reexported, span }
      (specifiers.map fun (s : ExportSpecifier) =>
        { bound := s.inner, exported := s.exported, reexportOf := e.surface.imports.length })
      (.names span) (by simp) (by simp)
    simp only [map_map, Function.comp_def, exportEntry_last] at added
    exact added

theorem extends_collectExportAll (name) (source) (span) (parts)
    (e) :
    Extends e (collectExportAll name source span e) (additions (.mk (.exportAll name source) span parts)) := by
  cases name with
  | none =>
    have added := extends_reexport e { source, origin := .reexported, span }
      [{ bound := "*", exported := "*", reexportOf := e.surface.imports.length, star := true }]
      (.star span e.surface.imports.length) (by simp) (by simp)
    rw [map_singleton, exportEntry_last] at added
    exact added
  | some name =>
    have added := extends_reexport e { source, namespaceName := name, origin := .reexported, span }
      [{ bound := name, exported := name, reexportOf := e.surface.imports.length }] (.names span) (by simp) (by simp)
    rw [map_singleton, exportEntry_last] at added
    exact added

theorem adds_collectExportDefault (value) (span) (e) :
    Adds e (additions (.mk .exportDefault span [value])) (collectExportDefault value span e) := by
  have exported := extends_addOwnExport e "default"
  obtain ⟨label, place, parts⟩ := value
  cases label with
  | function name | classNode name =>
    cases name with
    | none => exact exported.trans (extends_addForm _ _)
    | some name => exact exported.adds ((adds_declare _ name _).map fun e₁ => extends_addForm e₁ _)
  | _ => exact exported.trans (extends_addForm _ _)

theorem adds_collect (statement) (e) : Adds e (additions statement) (collect statement e) := by
  obtain ⟨label, span, parts⟩ := statement
  cases label with
  | importFrom specifiers source =>
    have added := (adds_declareSpecifiers specifiers e).map fun e₁ =>
      extends_addImport e₁ (importOf specifiers source span)
    rw [Additions.append_eq, append_nil] at added
    exact added
  | exportDeclaration =>
    match parts with
    | [inner] =>
      have added := (adds_declareExported inner.span.start (declaredNames inner) e).map fun e₁ =>
        extends_addForm e₁ (.declaration span inner.span.start)
      rw [Additions.append_eq, append_nil, append_nil] at added
      exact added
    | [] | _ :: _ :: _ => exact Extends.refl e
  | exportList specifiers source => exact extends_collectExportList specifiers source span e
  | exportAll name source => exact extends_collectExportAll name source span parts e
  | exportDefault =>
    match parts with
    | [value] => exact adds_collectExportDefault value span e
    | [] | _ :: _ :: _ => exact Extends.refl e
  | function name | classNode name =>
    cases name with
    | none => exact Extends.refl e
    | some name => exact adds_declare e name span.start
  | declaration keyword => exact adds_declareVariables parts e
  | _ => exact Extends.refl e

theorem extends_addBlock (first : Extends e e₁ a) {block : AnnotationBlock} (same : a.names = [block.name])
    (unannotated : e₁.surface.annotations = e.surface.annotations)
    (listed : block.exported → { bound := block.name, exported := block.name } ∈ e₁.surface.exports) :
    Extends e { e₁ with surface.annotations := e₁.surface.annotations ++ [block] } a :=
  { first with
    sound := fun before => { first.sound before with
      listed := by
        intro other mem exported
        rcases mem_append.mp mem with old | new
        · exact (first.sound before).listed other old exported
        · rw [mem_singleton.mp new] at exported ⊢
          exact listed exported }
    annotated := ⟨[block.name], by rw [same], by simp [unannotated]⟩ }

theorem adds_collectAnnotated (kind) (arguments) (call) (stop)
    (declared : functionDeclaration? function = some (name, exported)) (e) :
    Adds e (additions function) (collectAnnotated kind arguments call function name exported stop e) := by
  unfold collectAnnotated
  have first := adds_declare e name function.span.start
  have unannotated (e₁) (added : e.declare name function.span.start = .ok e₁) :
      e₁.surface.annotations = e.surface.annotations := by
    unfold Extraction.declare at added
    split at added <;> cases added
    rfl
  generalize e.declare name function.span.start = x at first unannotated ⊢
  unfold functionDeclaration? at declared
  split at declared
  · cases declared
    cases x with
    | error d => exact first
    | ok e₁ =>
      refine extends_addBlock first rfl (unannotated e₁ rfl) fun exported => ?_
      cases exported
  · rename_i span _ place _
    cases declared
    cases x with
    | error d => exact first
    | ok e₁ =>
      have exported := (extends_addOwnExport e₁ name).trans (extends_addForm _ (.declaration span place.start))
      exact extends_addBlock (first.trans exported) rfl (unannotated e₁ rfl) fun _ =>
        mem_append_right _ mem_cons_self
  · cases declared

theorem annotationCall?_additions (call : annotationCall? statement = some found) : additions statement = {} := by
  unfold annotationCall? at call
  split at call
  · rfl
  · cases call

theorem isAttachment_additions (attached : isAttachment name statement) : additions statement = {} := by
  unfold isAttachment at attached
  split at attached
  · rfl
  · cases attached

def Pending.due : Pending → List Node → List Node
  | .function _, statements => statements.tail
  | _, statements => statements

theorem bind_pair (x : Except Diagnostic Extraction) (a : α) (f : α × Extraction → Except Diagnostic Extraction) :
    (do return (a, ← x)) >>= f = x >>= fun e => f (a, e) := by
  cases x <;> rfl

theorem adds_collectAll (pending : Pending) (statements) (e) :
    Adds e (additionsOf (pending.due statements)) (collectAll pending statements e) := by
  induction statements generalizing pending e with
  | nil => cases pending <;> exact Extends.refl e
  | cons statement rest ih =>
    have here : Adds e (additionsOf (statement :: rest)) (collectAll .nothing (statement :: rest) e) := by
      unfold collectAll collectAll.collectOne
      rw [additionsOf_cons]
      split
      · rw [bind_pair]
        exact (adds_collect statement e).bind (ih .nothing)
      · rename_i kind arguments call
        have reported := (extends_reportUnattached e kind statement.span).adds ((adds_collect statement _).bind (ih .nothing))
        split
        · rw [bind_pair]
          exact reported
        · rename_i function after
          split
          · rw [bind_pair]
            exact reported
          · rename_i name exported declared
            dsimp only
            rw [bind_pair, annotationCall?_additions call, additionsOf_cons]
            exact (adds_collectAnnotated kind arguments statement.span _ declared e).bind (ih (.function name))
    cases pending with
    | nothing => exact here
    | function name => exact ih (.attachments name) e
    | attachments name =>
      unfold collectAll
      split
      · rename_i attached
        change Adds e (additionsOf (statement :: rest)) _
        rw [additionsOf_cons, isAttachment_additions attached]
        exact ih (.attachments name) e
      · exact here

/-! ### Extraction -/

theorem sound_empty (source file) : Extraction.Sound ⟨file, { source := source }⟩ := by
  constructor <;> exact fun _ mem => absurd mem not_mem_nil

theorem not_declares_empty (source file name) : ¬Extraction.Declares ⟨file, { source := source }⟩ name := by
  intro declared
  cases declared

theorem adds_extract (parsed : parseModule source = .ok program) (file) :
    Adds ⟨file, { source := source }⟩ (additionsOf program.body) ((extract source file).map (⟨file, ·⟩)) := by
  have all := adds_collectAll .nothing program.body ⟨file, { source := source }⟩
  rw [extract, parsed]
  dsimp only
  revert all
  cases collectAll .nothing program.body ⟨file, { source := source }⟩ with
  | error d => exact id
  | ok e =>
    intro all
    exact { all with file := rfl, sound := fun before => { all.sound before with } }

theorem exists_of_extract (extracted : extract source file = .ok m) : ∃ program, parseModule source = .ok program ∧
    Extends ⟨file, { source := source }⟩ ⟨file, m⟩ (additionsOf program.body) := by
  cases parsed : parseModule source with
  | error cause =>
    rw [extract, parsed] at extracted
    cases extracted
  | ok program =>
    have all := adds_extract parsed file
    rw [extracted] at all
    exact ⟨program, rfl, all⟩

theorem sound_of_extract (extracted : extract source file = .ok m) : Extraction.Sound ⟨file, m⟩ := by
  obtain ⟨_, _, all⟩ := exists_of_extract extracted
  exact all.sound (sound_empty source file)

theorem code_of_extract_error (refused : extract source file = .error d) :
    d.code = .malformedScript ∨ d.code = .duplicateDeclaration := by
  cases parsed : parseModule source with
  | error cause =>
    rw [extract, parsed] at refused
    cases refused
    exact .inl rfl
  | ok program =>
    have all := adds_extract parsed file
    rw [refused] at all
    exact .inr all.1

theorem nodup_annotations_of_extract (extracted : extract source file = .ok m) : (m.annotations.map (·.name)).Nodup := by
  obtain ⟨_, _, all⟩ := exists_of_extract extracted
  obtain ⟨blocks, within, same⟩ := all.annotated
  rw [same]
  exact all.nodup.sublist within

end SourceModule

end ComponentCompiler
