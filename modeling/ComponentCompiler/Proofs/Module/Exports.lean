import ComponentCompiler.Module.Generate
import ComponentCompiler.Proofs.Graph.ExportSurface
import ComponentCompiler.Proofs.SourceModule.Bindings
import ComponentCompiler.Proofs.Text.Edit

/-! What defines the exports of a generated module. Main statement: `definesExports`. -/

namespace ComponentCompiler

open Script SourceModule List Bool
variable {source : String}

/-- What defines an export: a getter at the start of the module, or an edit that assigns the default export. -/
inductive ExportDefinition where
  | getter (exported value : String)
  | assignment (edit : Edit)
deriving DecidableEq

namespace ExportDefinition

def exported : ExportDefinition → String
  | .getter exported _ => exported
  | .assignment _ => "default"

def script : ExportDefinition → String
  | .getter exported value => Loader.getter exported value
  | .assignment edit => edit.text

end ExportDefinition

def Edit.assignsDefault (e : Edit) : Bool :=
  Loader.assignDefault.toList.isPrefixOf (e.text.toList.dropWhile (· == '\n'))

/-! ### Names of exports -/

theorem exported_sublist (statement) :
    ((exportEntries boundNames statement).filterMap (·.exported)).Sublist (exportsWithin statement) := by
  obtain ⟨label, span, parts⟩ := statement
  refine Sublist.trans ?_ (sublist_append_left (exportedNames (.mk label span parts)) (exportsWithinAll parts))
  cases label with
  | exportDeclaration =>
    match parts with
    | [inner] =>
      simp [exportEntries, exportedNames, boundNamesOf, ExportEntry.own, Function.comp_def]
    | [] | _ :: _ :: _ => exact nil_sublist _
  | exportList specifiers source =>
    simp [exportEntries, exportedNames]
  | exportAll name source => cases name <;> exact .refl _
  | exportDefault =>
    match parts with
    | [_] => exact .refl _
    | [] | _ :: _ :: _ => exact nil_sublist _
  | _ => exact nil_sublist _

theorem exported_sublist_flatMap (body : List Node) :
    ((body.flatMap (exportEntries boundNames)).filterMap (·.exported)).Sublist (exportsWithinAll body) := by
  induction body with
  | nil => exact .slnil
  | cons statement rest ih =>
    rw [flatMap_cons, filterMap_append, exportsWithinAll]
    exact (exported_sublist statement).append ih

theorem exported_entries (m : SourceModule) : m.entries.filterMap (·.exported) = ownNames m.exports := by
  have each : ∀ e : ExportName, (exportEntry m.imports e).exported = if !e.star then some e.exported else none := by
    intro e
    cases star : e.star <;> simp [exportEntry, star]
  rw [entries, ownNames, filterMap_map, ← filterMap_eq_map, filterMap_filter]
  exact congrArg (filterMap · m.exports) (funext each)

theorem bind_ok {α β : Type} {p : Parse α} {f : α → Parse β} {b : β} (run : (p >>= f) s = .ok (b, s')) :
    ∃ a s₁, p s = .ok (a, s₁) ∧ f a s₁ = .ok (b, s') := by
  cases first : p s with
  | error e => simp [bind, StateT.bind, Except.bind, first] at run
  | ok next => exact ⟨next.1, next.2, rfl, by simpa [bind, StateT.bind, Except.bind, first] using run⟩

theorem nodup_of_allDistinct (distinct : allDistinct names) : names.Nodup := by
  induction names with
  | nil => exact nodup_nil
  | cons name rest ih =>
    simp only [allDistinct, and_eq_true, not_eq_true', contains_eq_mem, decide_eq_false_iff_not] at distinct
    exact nodup_cons.mpr ⟨distinct.1, ih distinct.2⟩

theorem exportsWithinAll_eq_flatMap (nodes) : exportsWithinAll nodes = nodes.flatMap exportsWithin := by
  induction nodes with
  | nil => rfl
  | cons node rest ih => rw [exportsWithinAll, ih, flatMap_cons]

theorem nodup_exports_of_parse (parsed : parseModule source = .ok program) :
    (exportsWithinAll program.body).Nodup := by
  unfold parseModule at parsed
  cases first : initialState (skipInterpreter source.toList) with
  | error => simp [first, bind, Except.bind] at parsed
  | ok s =>
    cases read : moduleBody (fuelFor source.toList.length) s with
    | error => simp [first, read, bind, Except.bind] at parsed
    | ok found =>
      obtain ⟨found, s'⟩ := found
      have result : found = program := by simpa [first, read, bind, Except.bind, pure, Except.pure] using parsed
      subst result
      obtain ⟨statements, s₁, -, rest⟩ := bind_ok read
      obtain ⟨_, s₂, -, rest⟩ := bind_ok rest
      dsimp only at rest
      split at rest
      · obtain ⟨_, _, failed, -⟩ := bind_ok rest
        cases failed
      · rename_i distinct
        simp only [not_eq_true', not_eq_false] at distinct
        cases rest
        have nodup := nodup_of_allDistinct distinct
        have whole := statements.takeWhile_append_dropWhile (p := isDirective)
        rw [← whole, exportsWithinAll_eq_flatMap, flatMap_append, ← exportsWithinAll_eq_flatMap,
          ← exportsWithinAll_eq_flatMap] at nodup
        exact nodup.sublist (sublist_append_right ..)

/-! ### Forms of exports -/

def ExportForm.isDefault : ExportForm → Bool
  | .defaultExpression _ _ _ | .defaultDeclaration _ _ _ => true
  | _ => false

theorem ExportForm.isDefault_shape (form : ExportForm) : form.shape.isDefault = form.isDefault := by
  cases form <;> rfl

theorem exportDefault_of_formShape (shape : formShape? node = some form) (isDefault : form.isDefault) :
    ∃ span value, node = .mk .exportDefault span [value] := by
  unfold formShape? at shape
  split at shape
  case h_5 => exact ⟨_, _, rfl⟩
  case h_6 => cases shape
  all_goals
    cases shape
    cases isDefault

structure ReadFrom (body : List Node) (m : SourceModule) : Prop where
  forms : m.exportForms.map (·.shape) = body.filterMap formShape?
  distinct : (exportsWithinAll body).Nodup
  entries : m.entries = body.flatMap (exportEntries declaredNames)
  sound : Extraction.Sound ⟨"", m⟩

theorem readFrom_of_extract (extracted : extract source file = .ok m) : ∃ body, ReadFrom body m := by
  obtain ⟨program, parsed, all⟩ := exists_of_extract extracted
  have empty := sound_empty source file
  exact ⟨program.body, all.forms, nodup_exports_of_parse parsed, all.entries empty,
    { all.sound empty with }⟩

namespace ReadFrom

variable {m : SourceModule} {body : List Node} (laid : ReadFrom body m)

include laid

theorem nodup_ownNames : (ownNames m.exports).Nodup := by
  have perm := (exports_perm ⟨[], body⟩).filterMap (·.exported)
  have names := laid.distinct.sublist (exported_sublist_flatMap body)
  rw [← exported_entries, laid.entries]
  have both := perm.nodup_iff.mp names
  rw [filterMap_append] at both
  exact both.sublist (sublist_append_left ..)

theorem filter_exports (listed : e ∈ m.exports) (own : e.star = false) :
    m.exports.filter (fun x => x.exported == e.exported && !x.star) = [e] := by
  rw [← List.filter_filter]
  have there : e ∈ m.exports.filter fun x => !x.star := mem_filter.mpr ⟨listed, by simp [own]⟩
  have once := count_eq_one_of_mem laid.nodup_ownNames (List.mem_map_of_mem there)
  rw [ownNames, count_eq_countP, countP_map, countP_eq_length_filter] at once
  obtain ⟨only, same⟩ := length_eq_one_iff.mp once
  have found : e ∈ [only] := same ▸ mem_filter.mpr ⟨there, by simp⟩
  cases mem_singleton.mp found
  exact same

theorem exportDefault (listed : form ∈ m.exportForms) (isDefault : form.isDefault) :
    ∃ node ∈ body, ∃ span value, node = .mk .exportDefault span [value] := by
  have shape := List.mem_map_of_mem (f := (·.shape)) listed
  rw [laid.forms] at shape
  obtain ⟨node, mem, found⟩ := mem_filterMap.mp shape
  exact ⟨node, mem, exportDefault_of_formShape found (form.isDefault_shape.trans isDefault)⟩

theorem single_default : m.exportForms.Pairwise fun f g => ¬(f.isDefault ∧ g.isDefault) := by
  have names : body.Pairwise fun a b => List.Disjoint (exportsWithin a) (exportsWithin b) := by
    have distinct := laid.distinct
    rw [exportsWithinAll_eq_flatMap] at distinct
    exact (nodup_flatMap.mp distinct).2
  have exported : ∀ span value, "default" ∈ exportsWithin (.mk .exportDefault span [value]) := fun span value =>
    mem_append_left _ (mem_singleton_self _)
  have shapes : (body.filterMap formShape?).Pairwise fun f g => ¬(f.isDefault ∧ g.isDefault) := by
    refine pairwise_filterMap.mpr (names.imp fun apart f first g second both => ?_)
    obtain ⟨_, _, rfl⟩ := exportDefault_of_formShape first both.1
    obtain ⟨_, _, rfl⟩ := exportDefault_of_formShape second both.2
    exact apart (exported _ _) (exported _ _)
  rw [← laid.forms, pairwise_map] at shapes
  simpa only [ExportForm.isDefault_shape] using shapes

theorem default_listed (listed : form ∈ m.exportForms) (isDefault : form.isDefault) :
    ∃ e ∈ m.exports, e.star = false ∧ e.exported = "default" ∧ e.reexportOf = none := by
  obtain ⟨node, mem, span, value, rfl⟩ := laid.exportDefault listed isDefault
  have entry : ExportEntry.own "default" ∈ exportEntries declaredNames (.mk .exportDefault span [value]) :=
    mem_singleton_self _
  have among : ExportEntry.own "default" ∈ m.entries := laid.entries ▸ mem_flatMap.mpr ⟨_, mem, entry⟩
  obtain ⟨e, held, same⟩ := List.mem_map.mp among
  refine ⟨e, held, ?_⟩
  simp only [exportEntry, ExportEntry.own, ExportEntry.mk.injEq] at same
  obtain ⟨exported, request, -⟩ := same
  have own : e.star = false := by
    cases star : e.star with
    | false => rfl
    | true => simp [star] at exported
  refine ⟨own, by simpa [own] using exported, ?_⟩
  cases from? : e.reexportOf with
  | none => rfl
  | some index => simp [from?, laid.sound.linked e held index from?] at request

theorem flatMap_default {β : Type} {gives : ExportForm → List β}
    (other : ∀ form, form.isDefault = false → gives form = []) (listed : form ∈ m.exportForms)
    (isDefault : form.isDefault) : m.exportForms.flatMap gives = gives form := by
  have excludes := laid.single_default
  obtain ⟨before, after, split⟩ := append_of_mem listed
  rw [split] at excludes ⊢
  obtain ⟨-, later, earlier⟩ := pairwise_append.mp excludes
  have nothing : ∀ forms : List ExportForm, (∀ f ∈ forms, ¬(f.isDefault ∧ form.isDefault)) →
      forms.flatMap gives = [] := by
    intro forms apart
    refine flatMap_eq_nil_iff.mpr fun f mem => other f ?_
    exact eq_false_iff.mpr fun also => apart f mem ⟨also, isDefault⟩
  have first := nothing before fun f mem => earlier f mem form mem_cons_self
  have last := nothing after fun f mem both => (pairwise_cons.mp later).1 f mem both.symm
  rw [flatMap_append, flatMap_cons, first, last, nil_append, append_nil]

end ReadFrom

namespace GenerationContext

section Definitions

variable (cx : GenerationContext) (r : FileRecord) (m : SourceModule)

def defaultDefinition? : ExportForm → Option ExportDefinition
  | .defaultDeclaration _ _ (some name) => some (.getter "default" name)
  | _ => none

def exportDefinition? (e : ExportName) : Option ExportDefinition :=
  if e.star then none else (exportValue? cx r m e).map (.getter e.exported)

def getterDefinitions : List ExportDefinition :=
  m.exportForms.filterMap defaultDefinition? ++ m.exports.filterMap (exportDefinition? cx r m)

def assignments : List Edit := (m.exportForms.flatMap (exportEdits cx r m)).filter (·.assignsDefault)

/-- A getter takes effect, and an edit does so unless an earlier one reaches over its start. -/
def takesEffect : ExportDefinition → Bool
  | .getter _ _ => true
  | .assignment edit => decide (edit ∈ Edit.applied (edits cx r m))

def candidates (name : String) : List ExportDefinition :=
  (getterDefinitions cx r m ++ (assignments cx r m).map ExportDefinition.assignment).filter (·.exported == name)

def definitionsOf (name : String) : List ExportDefinition := (candidates cx r m name).filter (takesEffect cx r m)

theorem getters_eq : getters cx r m = (getterDefinitions cx r m).map (·.script) := by
  have default : ∀ form, defaultGetter? form = (defaultDefinition? form).map (·.script) := by
    intro form
    cases form with
    | defaultDeclaration span inner name => cases name <;> rfl
    | _ => rfl
  have own : ∀ e, exportGetter? cx r m e = (exportDefinition? cx r m e).map (·.script) := by
    intro e
    unfold exportGetter? exportDefinition?
    split
    · rfl
    · rw [Option.map_map]
      rfl
  rw [getters, getterDefinitions, map_append, map_filterMap, map_filterMap, funext default, funext own]

end Definitions

/-! ### Texts of edits -/

theorem head?_append {text : String} (head : text.toList.head? = some c) (rest) :
    (text ++ rest).toList.head? = some c := by
  rw [String.toList_append, List.head?_append, head]
  rfl

theorem assignsDefault_of_head {e : Edit} (plain : ∀ c ∈ e.text.toList.head?, c ≠ '\n' ∧ c ≠ 'e') :
    e.assignsDefault = false := by
  have start : Loader.assignDefault.toList = 'e' :: Loader.assignDefault.toList.tail := by decide
  rw [Edit.assignsDefault, start]
  cases text : e.text.toList with
  | nil => rfl
  | cons c rest =>
    obtain ⟨line, letter⟩ := plain c (by rw [text]; rfl)
    rw [dropWhile_cons_of_neg (by simpa using line), isPrefixOf]
    simp [letter.symm]

theorem assignsDefault_of_eq {e : Edit} (head : e.text.toList.head? = some c) (line : c ≠ '\n') (letter : c ≠ 'e') :
    e.assignsDefault = false := by
  refine assignsDefault_of_head fun c' here => ?_
  rw [head] at here
  cases here
  exact ⟨line, letter⟩

theorem assignsDefault_removal (span) : (Edit.removal span).assignsDefault = false := rfl

theorem assignsDefault_inPlace (span) : Edit.assignsDefault ⟨span, Loader.assignDefault⟩ := by
  change Loader.assignDefault.toList.isPrefixOf (Loader.assignDefault.toList.dropWhile (· == '\n'))
  decide

theorem filter_exportEdits {form : ExportForm} (other : form.isDefault = false) :
    (exportEdits cx r m form).filter (·.assignsDefault) = [] := by
  refine filter_eq_nil_iff.mpr fun e made => eq_false_iff.mp ?_
  cases form with
  | declaration span start | names span =>
    cases mem_singleton.mp made
    rfl
  | star span source =>
    cases mem_singleton.mp made
    exact assignsDefault_of_eq (head?_append (head?_append (head?_append (head?_append (head?_append rfl _) _) _) _) _)
      (by decide) (by decide)
  | defaultExpression span inner identifier | defaultDeclaration span inner name => cases other

/-! ### Definitions of exports -/

def passedReference? (cx : GenerationContext) (r : FileRecord) (m : SourceModule) (e : ExportName) (index : Nat) :
    Option String :=
  match (exportEntry m.imports e).name with
  | some name => r.memberReference? cx index name
  | none => r.moduleReference? cx index

/-- The definition of the default export that a form stands for: a getter of what it declares, or the assignment of its
value in place or behind the declaration of the name that the value is. -/
inductive DefaultDefinition (m : SourceModule) : ExportForm → ExportDefinition → Prop
  | declared {span inner : Span} {name : String} :
      DefaultDefinition m (.defaultDeclaration span inner (some name)) (.getter "default" name)
  | anonymous {span inner : Span} : DefaultDefinition m (.defaultDeclaration span inner none)
      (.assignment ⟨⟨span.start, inner.start⟩, Loader.assignDefault⟩)
  | inPlace {span inner : Span} {identifier : Option String} :
      DefaultDefinition m (.defaultExpression span inner identifier)
        (.assignment ⟨⟨span.start, inner.start⟩, Loader.assignDefault⟩)
  | behind {span inner : Span} {name : String} {stop : Nat} (ends : declarationEnd? m name = some stop) :
      DefaultDefinition m (.defaultExpression span inner (some name))
        (.assignment (.insertion stop ("\n" ++ Loader.assignDefault ++ inner.slice m.source ++ ";")))

/-- How the exports of a surface are defined in the module that is made of it. -/
structure DefinesExports (cx : GenerationContext) (r : FileRecord) (m : SourceModule) : Prop where
  /-- The module is the getters and the source with the edits that take effect. -/
  text : GenerationContext.body cx r m = Text.join "" ((getterDefinitions cx r m).map fun d => d.script ++ "\n") ++
    .ofList (Edit.applyFrom 0 m.source.toList (Edit.applied (edits cx r m)))
  /-- A name of the file itself has a getter for what it is called there. -/
  own : ∀ e ∈ m.exports, e.star = false → e.reexportOf = none → e.exported ≠ "default" →
    definitionsOf cx r m e.exported = [.getter e.exported e.bound]
  /-- A name that is passed on has a getter for the reference to it, if there is one. -/
  passed : ∀ e ∈ m.exports, e.star = false → ∀ index, e.reexportOf = some index →
    definitionsOf cx r m e.exported = (passedReference? cx r m e index).toList.map (.getter e.exported)
  /-- The default export has the definition that its statement stands for, if it takes effect. -/
  default : ∀ form ∈ m.exportForms, form.isDefault = true →
    ∃ d, DefaultDefinition m form d ∧ definitionsOf cx r m "default" = [d].filter (takesEffect cx r m)
  /-- A default export without such a statement has none, unless it is passed on. -/
  listed : ∀ e ∈ m.exports, e.star = false → e.reexportOf = none → e.exported = "default" →
    (∀ form ∈ m.exportForms, form.isDefault = false) → definitionsOf cx r m "default" = []
  nothing : ∀ name, name ∉ ownNames m.exports → definitionsOf cx r m name = []
  /-- An export of everything has an edit. -/
  all : ∀ e ∈ m.exports, e.star = true → ∃ index span, e.reexportOf = some index ∧
    ⟨span, Loader.exportAll ((r.moduleReference? cx index).getD (Script.Writer.braces ""))⟩ ∈ edits cx r m

section ReadFrom

variable {m : SourceModule} {body : List Node} (laid : ReadFrom body m)

include laid
variable {e : ExportName} {form : ExportForm}

theorem filter_exportDefinitions (listed : e ∈ m.exports) (own : e.star = false) :
    (m.exports.filterMap (exportDefinition? cx r m)).filter (·.exported == e.exported) =
      (exportValue? cx r m e).toList.map (.getter e.exported) := by
  have each : ∀ x, (exportDefinition? cx r m x).filter (·.exported == e.exported) =
      if (x.exported == e.exported && !x.star) = true then exportDefinition? cx r m x else none := by
    intro x
    unfold exportDefinition?
    cases star : x.star with
    | true => simp
    | false => cases value : exportValue? cx r m x <;> simp [Option.filter, ExportDefinition.exported]
  rw [filter_filterMap, funext each, ← filterMap_filter, laid.filter_exports listed own]
  cases value : exportValue? cx r m e <;> simp [exportDefinition?, own, value]

theorem assignments_eq (listed : form ∈ m.exportForms) (isDefault : form.isDefault) :
    assignments cx r m = (exportEdits cx r m form).filter (·.assignsDefault) := by
  rw [assignments, filter_flatMap]
  exact laid.flatMap_default (fun _ => filter_exportEdits) listed isDefault

omit laid in
theorem defaultDefinition?_other (other : form.isDefault = false) : defaultDefinition? form = none := by
  cases form with
  | defaultExpression span inner identifier | defaultDeclaration span inner name => cases other
  | _ => rfl

theorem default_getters (listed : form ∈ m.exportForms) (isDefault : form.isDefault) :
    m.exportForms.filterMap defaultDefinition? = (defaultDefinition? form).toList := by
  rw [filterMap_eq_flatMap_toList]
  refine laid.flatMap_default (fun form other => ?_) listed isDefault
  rw [defaultDefinition?_other other]
  rfl

omit laid in
theorem assignsDefault_behind (offset) (value) :
    Edit.assignsDefault (.insertion offset ("\n" ++ Loader.assignDefault ++ value ++ ";")) := by
  have text : ("\n" ++ Loader.assignDefault ++ value ++ ";").toList =
      '\n' :: (Loader.assignDefault.toList ++ (value ++ ";").toList) := by
    simp only [String.toList_append, append_assoc]
    rfl
  have start : Loader.assignDefault.toList = 'e' :: Loader.assignDefault.toList.tail := by decide
  rw [Edit.assignsDefault, Edit.insertion, text, dropWhile_cons_of_pos rfl, isPrefixOf_iff_prefix]
  refine ⟨(value ++ ";").toList, ?_⟩
  rw [start, cons_append, dropWhile_cons_of_neg (by decide)]

omit laid in
theorem defaultExpressionEdits_cases (m) (span inner) (identifier) :
    defaultExpressionEdits m span inner identifier =
        [⟨⟨span.start, inner.start⟩, Loader.assignDefault⟩, ⟨⟨inner.stop, span.stop⟩, ";"⟩] ∨
      ∃ name stop, identifier = some name ∧ declarationEnd? m name = some stop ∧
        defaultExpressionEdits m span inner identifier =
          [.removal span, .insertion stop ("\n" ++ Loader.assignDefault ++ inner.slice m.source ++ ";")] := by
  unfold defaultExpressionEdits
  split
  · exact .inl rfl
  · rename_i stop found
    obtain ⟨name, same, found⟩ := Option.bind_eq_some_iff.mp found
    dsimp only
    split
    · exact .inr ⟨name, stop, same, found, rfl⟩
    · exact .inl rfl

theorem default_definition (cx) (r) (listed : form ∈ m.exportForms)
    (isDefault : form.isDefault) : ∃ d, DefaultDefinition m form d ∧
      m.exportForms.filterMap defaultDefinition? ++ (assignments cx r m).map ExportDefinition.assignment = [d] := by
  rw [default_getters laid listed isDefault, assignments_eq laid listed isDefault]
  cases form with
  | defaultDeclaration span inner name =>
    cases name with
    | some name => exact ⟨_, .declared, rfl⟩
    | none =>
      rw [exportEdits, filter_cons_of_pos (assignsDefault_inPlace _)]
      exact ⟨_, .anonymous, rfl⟩
  | defaultExpression span inner identifier =>
    change ∃ d, _ ∧ _ ++ ((defaultExpressionEdits m span inner identifier).filter _).map _ = _
    rcases defaultExpressionEdits_cases m span inner identifier with inPlace | ⟨name, stop, rfl, ends, moved⟩
    · have head : ";".toList.head? = some ';' := by decide
      have close : Edit.assignsDefault ⟨⟨inner.stop, span.stop⟩, ";"⟩ = false :=
        assignsDefault_of_eq head (by decide) (by decide)
      rw [inPlace, filter_cons_of_pos (assignsDefault_inPlace _), filter_cons_of_neg (eq_false_iff.mp close)]
      exact ⟨_, .inPlace, rfl⟩
    · rw [moved, filter_cons_of_neg (eq_false_iff.mp (assignsDefault_removal span)),
        filter_cons_of_pos (assignsDefault_behind _ _)]
      exact ⟨_, .behind ends, rfl⟩
  | _ => cases isDefault

omit laid in
theorem no_default (cx) (r) (none : ∀ form ∈ m.exportForms, form.isDefault = false) :
    m.exportForms.filterMap defaultDefinition? = [] ∧ assignments cx r m = [] := by
  constructor
  · exact filterMap_eq_nil_iff.mpr fun form listed => defaultDefinition?_other (none form listed)
  · rw [assignments, filter_flatMap]
    exact flatMap_eq_nil_iff.mpr fun form listed => filter_exportEdits (none form listed)

omit laid in
theorem exportDefinitions_nil (missing : name ∉ ownNames m.exports) :
    (m.exports.filterMap (exportDefinition? cx r m)).filter (·.exported == name) = [] := by
  refine filter_eq_nil_iff.mpr fun d mem same => missing ?_
  obtain ⟨e, listed, found⟩ := mem_filterMap.mp mem
  unfold exportDefinition? at found
  split at found
  · cases found
  · rename_i own
    obtain ⟨value, -, rfl⟩ := Option.map_eq_some_iff.mp found
    exact List.mem_map.mpr ⟨e, mem_filter.mpr ⟨listed, by simpa using own⟩, by simpa [ExportDefinition.exported] using same⟩

omit laid in
theorem exported_defaultDefinition (mem : d ∈ m.exportForms.filterMap defaultDefinition?) :
    d.exported = "default" := by
  obtain ⟨form, -, found⟩ := mem_filterMap.mp mem
  unfold defaultDefinition? at found
  split at found <;> cases found
  rfl

omit laid in
theorem candidates_eq (name) : candidates cx r m name =
    (if name = "default" then m.exportForms.filterMap defaultDefinition? else []) ++
      (m.exports.filterMap (exportDefinition? cx r m)).filter (·.exported == name) ++
      (if name = "default" then (assignments cx r m).map ExportDefinition.assignment else []) := by
  rw [candidates, getterDefinitions, filter_append, filter_append]
  congr 1
  · congr 1
    split
    · rename_i same
      refine filter_eq_self.mpr fun d mem => ?_
      simp [exported_defaultDefinition mem, same]
    · rename_i other
      refine filter_eq_nil_iff.mpr fun d mem => ?_
      simp [exported_defaultDefinition mem, Ne.symm other]
  · split
    · rename_i same
      refine filter_eq_self.mpr fun d mem => ?_
      obtain ⟨edit, -, rfl⟩ := List.mem_map.mp mem
      simp [ExportDefinition.exported, same]
    · rename_i other
      refine filter_eq_nil_iff.mpr fun d mem => ?_
      obtain ⟨edit, -, rfl⟩ := List.mem_map.mp mem
      simp [ExportDefinition.exported, Ne.symm other]

theorem candidates_export (listed : e ∈ m.exports) (own : e.star = false) :
    candidates cx r m e.exported =
      (if e.exported = "default" then m.exportForms.filterMap defaultDefinition? else []) ++
        (exportValue? cx r m e).toList.map (.getter e.exported) ++
        (if e.exported = "default" then (assignments cx r m).map ExportDefinition.assignment else []) := by
  rw [candidates_eq, filter_exportDefinitions laid listed own]

theorem unique (listed : e ∈ m.exports) (own : e.star = false) (listed' : e' ∈ m.exports) (own' : e'.star = false)
    (same : e'.exported = e.exported) : e' = e := by
  have found : e' ∈ m.exports.filter (fun x => x.exported == e.exported && !x.star) :=
    mem_filter.mpr ⟨listed', by simp [same, own']⟩
  rw [laid.filter_exports listed own] at found
  exact mem_singleton.mp found

theorem no_default_of_passed (listed : e ∈ m.exports) (own : e.star = false) (from? : e.reexportOf = some index)
    (exported : e.exported = "default") : ∀ form ∈ m.exportForms, form.isDefault = false := by
  intro form among
  refine eq_false_iff.mpr fun isDefault => ?_
  obtain ⟨e', listed', own', exported', here⟩ := laid.default_listed among isDefault
  cases unique laid listed own listed' own' (exported'.trans exported.symm)
  rw [here] at from?
  cases from?

omit laid in
theorem exportValue?_passed (own : e.star = false) (from? : e.reexportOf = some index) :
    exportValue? cx r m e = passedReference? cx r m e index := by
  unfold exportValue? passedReference? exportEntry
  simp only [from?, own, Bool.false_or, Option.bind_some]
  cases found : m.imports[index]? with
  | none => simp
  | some statement => cases whole : statement.namespaceName <;> simp [whole]

theorem definesExports (cx) (r) : DefinesExports cx r m where
  text := by
    rw [GenerationContext.body, getters_eq, Edit.applyAll_applied, List.map_map]
    rfl
  own e listed own here other := by
    rw [definitionsOf, candidates_export laid listed own, if_neg other, if_neg other]
    simp [exportValue?, here, other, takesEffect]
  passed e listed own index from? := by
    have getters : ∀ values : List String, (values.map (.getter e.exported)).filter (takesEffect cx r m) =
        values.map (.getter e.exported) := fun values => by simp [List.filter_map, Function.comp_def, takesEffect]
    rw [definitionsOf, candidates_export laid listed own, exportValue?_passed own from?]
    split
    · rename_i exported
      obtain ⟨none, assigned⟩ := no_default cx r (no_default_of_passed laid listed own from? exported)
      rw [none, assigned, nil_append, map_nil, append_nil, getters]
    · rw [nil_append, append_nil, getters]
  default form among isDefault := by
    obtain ⟨e, listed, own, exported, here⟩ := laid.default_listed among isDefault
    obtain ⟨d, defines, only⟩ := default_definition laid cx r among isDefault
    refine ⟨d, defines, ?_⟩
    rw [← exported, definitionsOf, candidates_export laid listed own, if_pos exported, if_pos exported]
    simp [exportValue?, here, exported, only]
  listed e listed own here exported none := by
    obtain ⟨getters, assigned⟩ := no_default cx r none
    rw [← exported, definitionsOf, candidates_export laid listed own, getters, assigned]
    simp [exportValue?, here, exported]
  nothing name missing := by
    rw [definitionsOf, candidates_eq, exportDefinitions_nil missing]
    split
    · rename_i same
      have none : ∀ form ∈ m.exportForms, form.isDefault = false := by
        intro form among
        refine eq_false_iff.mpr fun isDefault => missing ?_
        obtain ⟨e, listed, own, exported, -⟩ := laid.default_listed among isDefault
        exact List.mem_map.mpr ⟨e, mem_filter.mpr ⟨listed, by simp [own]⟩, exported.trans same.symm⟩
      obtain ⟨getters, assigned⟩ := no_default cx r none
      rw [getters, assigned]
      rfl
    · rfl
  all e listed star := by
    obtain ⟨index, span, from?, among⟩ := laid.sound.stars e listed star
    refine ⟨index, span, from?, ?_⟩
    simp only [edits, mem_append]
    exact .inl (.inl (.inr (mem_flatMap.mpr ⟨_, among, mem_singleton_self _⟩)))

end ReadFrom

end GenerationContext

end ComponentCompiler
