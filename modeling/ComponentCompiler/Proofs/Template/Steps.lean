import ComponentCompiler.Proofs.Collection.SortedMap
import ComponentCompiler.Template.Compile
import Mathlib.Tactic.Tauto

/-!
Steps of a compilation that only look at names (`Light`), and what they ask the registry for
(`Asks`).
-/

namespace ComponentCompiler

open List Option SortedMap Registry

namespace Registry

inductive Offers (r : Registry) : String → Prop where
  | element {d} (registered : d ∈ r.elements.values) : Offers r d.name
  | directive {d} (registered : d ∈ r.directives.values) : Offers r d.name
  | pipe {d} (registered : d ∈ r.services.values) (kind : d.kind = .pipe) : Offers r d.name

variable {r : Registry}

theorem offers_findElement? (found : r.findElement? tag = some d) : r.Offers d.name := by
  obtain ⟨entry, -, here⟩ := bind_eq_some_iff.mp found
  exact .element (mem_values_iff.mpr ⟨entry.name, here⟩)

theorem offers_findDirective? (found : r.findDirective? name = some d) : r.Offers d.name := by
  obtain ⟨entry, -, here⟩ := bind_eq_some_iff.mp found
  exact .directive (mem_values_iff.mpr ⟨entry.name, here⟩)

theorem offers_matchingDirectives (mem : d ∈ r.matchingDirectives target) : r.Offers d.name := by
  obtain ⟨key, -, here⟩ := mem_filterMap.mp mem
  exact .directive (mem_values_iff.mpr ⟨key, here⟩)

theorem offers_findPipe? (found : r.findPipe? name = some d) : r.Offers d.name := by
  have kind := find?_some found
  exact .pipe (mem_of_find?_eq_some found) (by simp_all)

end Registry

def Expression.pipes (e : Expression) : List String := e.filters.flatMap (·.pipe.toList)

def TextPart.pipes : TextPart → List String
  | .literal _ => []
  | .expression e => e.pipes

/-- The names that an element refers to: its component, its directives, and the pipes of its properties, directives and
attributes. -/
def ElementHead.names (head : ElementHead) : List String :=
  head.component.toList ++ head.directives.map (·.directive) ++ head.props.flatMap (·.value.pipes) ++
    (head.directives.filterMap (·.value)).flatMap (·.pipes) ++ (head.attributeBindings.values.flatten).flatMap (·.pipes)

def Placeholder.pipes (p : Placeholder) : List String := p.value.toList.flatMap (·.pipes)

/-- The directive of a placeholder, if it is not one of the two that are built in. -/
def Placeholder.custom (p : Placeholder) : List String := if p.directive = "if" ∨ p.directive = "for" then [] else [p.directive]

def ElementHead.Like (after head : ElementHead) : Prop :=
  after.tag = head.tag ∧ after.component = head.component ∧ after.routed = head.routed

namespace Template

variable {α β : Type} {cx : Context} {x : Compile α} {head : ElementHead} {given : List String}

/-- A step that neither looks at bodies, slots and waiting content nor changes them, and makes no names for bodies. -/
def Light (x : Compile α) : Prop :=
  ∀ (s : State) bodies slots pending counter,
    x.run { s with bodies := bodies, slots := slots, pending := pending, counter := counter } =
      ((x.run s).1, { (x.run s).2 with bodies := bodies, slots := slots, pending := pending, counter := counter })

theorem Light.run (light : Light x) (s) :
    (x.run s).2 =
      { (x.run s).2 with bodies := s.bodies, slots := s.slots, pending := s.pending, counter := s.counter } :=
  congrArg Prod.snd (light s s.bodies s.slots s.pending s.counter)

theorem light_pure (a : α) : Light (pure a : Compile α) := fun _ _ _ _ _ => rfl

/-! ### Asking -/

def State.Has (s : State) (names : List String) : Prop := ∀ name ∈ names, s.providers.contains name = true

/-- Registered providers and reports come on top of those that there are. -/
structure State.Adds (cx : Context) (s s' : State) : Prop where
  offered : ∀ name, s'.providers.contains name = true → s.providers.contains name = true ∨ cx.registry.Offers name
  providers : ∀ name, s.providers.contains name = true → s'.providers.contains name = true
  diagnostics : s.diagnostics ⊆ s'.diagnostics

/-- A light step that asks for registered names only: if the given names are provided, then so are those that its result
needs. -/
structure Asks (cx : Context) (given : List String) (x : Compile α) (needs : α → List String) (P : α → Prop) : Prop where
  light : Light x
  adds : ∀ s : State, s.Adds cx (x.run s).2
  has : ∀ s : State, s.Has given → (x.run s).2.Has (needs (x.run s).1)
  holds : ∀ s : State, P (x.run s).1

theorem asks_pure (known : needs a ⊆ given) (holds : P a) : Asks cx given (pure a) needs P where
  light := light_pure a
  adds _ := ⟨fun _ => .inl, fun _ => id, fun _ => id⟩
  has _ has name mem := has name (known mem)
  holds _ := holds

theorem Asks.bind (first : Asks cx given x needs P) (next : ∀ a, P a → Asks cx (needs a ++ given) (f a) more Q) :
    Asks cx given (x >>= f) more Q where
  light s bodies slots pending counter := by
    have later := (next _ (first.holds s)).light (x.run s).2 bodies slots pending counter
    change (f (x.run _).1).run (x.run _).2 = _
    rw [first.light s bodies slots pending counter]
    exact later
  adds s :=
    have here := first.adds s
    have there := (next _ (first.holds s)).adds (x.run s).2
    ⟨fun name known => (there.offered name known).elim (here.offered name) .inr,
      fun name known => there.providers name (here.providers name known),
      fun _ known => there.diagnostics (here.diagnostics known)⟩
  has s has := (next _ (first.holds s)).has (x.run s).2 fun name mem =>
    (mem_append.mp mem).elim (first.has s has name) fun old => (first.adds s).providers name (has name old)
  holds s := (next _ (first.holds s)).holds (x.run s).2

theorem Asks.mono (asks : Asks cx given x needs P) (less : given ⊆ more) : Asks cx more x needs P :=
  ⟨asks.light, asks.adds, fun s has => asks.has s fun name mem => has name (less mem), asks.holds⟩

theorem asks_report (code) (message) :
    Asks cx given (report cx code message) (fun _ => []) fun _ => True where
  light _ _ _ _ _ := rfl
  adds _ := ⟨fun _ => .inl, fun _ => id, subset_append_left _ _⟩
  has _ _ _ mem := by cases mem
  holds _ := trivial

theorem asks_provide (offers : cx.registry.Offers name) :
    Asks cx given (provide name) (fun _ => [name]) fun _ => True where
  light _ _ _ _ _ := rfl
  adds s := by
    refine ⟨fun other mem => ?_, fun other old => SortedSet.contains_add.mpr (.inr old), fun _ => id⟩
    rcases SortedSet.contains_add.mp mem with rfl | old
    · exact .inr offers
    · exact .inl old
  has s _ other mem := SortedSet.contains_add.mpr (.inl (mem_singleton.mp mem))
  holds _ := trivial

/-! ### Expressions -/

theorem bind_eq_ok {ε : Type} {x : Except ε α} {f : α → Except ε β} (run : (x >>= f) = .ok b) :
    ∃ a, x = .ok a ∧ f a = .ok b := by
  cases x with
  | error e => cases run
  | ok a => exact ⟨a, rfl, run⟩

theorem exists_of_mem_mapM {ε : Type} {f : α → Except ε β} {xs : List α} {ys : List β} (run : xs.mapM f = .ok ys) :
    ∀ y ∈ ys, ∃ x ∈ xs, f x = .ok y := by
  induction xs generalizing ys with
  | nil =>
    cases run
    exact fun _ mem => by cases mem
  | cons x rest ih =>
    rw [mapM_cons] at run
    obtain ⟨y, here, run⟩ := bind_eq_ok run
    obtain ⟨more, later, run⟩ := bind_eq_ok run
    cases run
    refine forall_mem_cons.mpr ⟨⟨x, mem_cons_self, here⟩, fun y mem => ?_⟩
    obtain ⟨x', listed, same⟩ := ih later y mem
    exact ⟨x', mem_cons_of_mem _ listed, same⟩

theorem pipe_compile {text : String} {e : Expression} (compiled : Expression.compile text = .ok e) :
    ∀ f ∈ e.filters, f.pipe = none := by
  unfold Expression.compile at compiled
  dsimp only at compiled
  split at compiled
  · cases compiled
  · split at compiled
    · cases compiled
    · obtain ⟨code, -, compiled⟩ := bind_eq_ok compiled
      obtain ⟨filters, cut, compiled⟩ := bind_eq_ok compiled
      cases compiled
      intro f mem
      obtain ⟨segment, -, pieces⟩ := exists_of_mem_mapM cut f mem
      unfold Expression.Filter.ofPieces at pieces
      split at pieces
      · cases pieces
        rfl
      · obtain ⟨args, -, pieces⟩ := bind_eq_ok pieces
        cases pieces
        rfl

theorem pipe_tokenize {text : String} {bare : Bool} {parts : List TextPart}
    (cut : Interpolation.tokenize text bare = .ok parts) :
    ∀ e, .expression e ∈ parts → ∀ f ∈ e.filters, f.pipe = none := by
  intro e mem
  obtain ⟨segment, -, same⟩ := exists_of_mem_mapM cut _ mem
  cases segment with
  | text chars => cases same
  | inner chars =>
    obtain ⟨e, compiled, same⟩ := bind_eq_ok same
    cases same
    exact pipe_compile compiled

theorem asks_resolveFilters (filters) (fresh : ∀ f ∈ filters, f.pipe = none) :
    Asks cx given (resolveFilters cx filters) (·.flatMap (·.pipe.toList)) fun _ => True := by
  induction filters generalizing given with
  | nil => exact asks_pure (nil_subset _) trivial
  | cons f rest ih =>
    obtain ⟨here, later⟩ := forall_mem_cons.mp fresh
    have filter : Asks cx given (resolveFilter cx f) (·.pipe.toList) fun _ => True := by
      unfold resolveFilter
      split
      · rename_i pipe found
        exact (asks_provide (offers_findPipe? found)).bind fun _ _ => asks_pure (by simp) trivial
      · exact (asks_report _ _).bind fun _ _ => asks_pure (by simp [here]) trivial
    exact filter.bind fun f _ => (ih later).bind fun more _ => asks_pure (by simp) trivial

theorem asks_resolveExpression {e : Expression} (fresh : ∀ f ∈ e.filters, f.pipe = none) :
    Asks cx given (resolveExpression cx e) (·.pipes) fun _ => True :=
  (asks_resolveFilters e.filters fresh).bind fun _ _ => asks_pure (subset_append_left _ _) trivial

theorem asks_resolveParts (parts) (fresh : ∀ e, .expression e ∈ parts → ∀ f ∈ e.filters, f.pipe = none) :
    Asks cx given (resolveParts cx parts) (·.flatMap (·.pipes)) fun _ => True := by
  induction parts generalizing given with
  | nil => exact asks_pure (nil_subset _) trivial
  | cons part rest ih =>
    have later := fun {given} => @ih given fun e mem => fresh e (mem_cons_of_mem _ mem)
    cases part with
    | literal text => exact later.bind fun _ _ => asks_pure (by simp [TextPart.pipes]) trivial
    | expression e =>
      refine (asks_resolveExpression (fresh e mem_cons_self)).bind fun _ _ => later.bind fun _ _ => asks_pure ?_ trivial
      simp [TextPart.pipes]

theorem asks_interpolate (text) (bare) :
    Asks cx given (interpolate cx text bare) (·.flatMap (·.pipes)) fun _ => True := by
  unfold interpolate
  split
  · rename_i cut
    exact asks_resolveParts _ (pipe_tokenize cut)
  · exact (asks_report _ _).bind fun _ _ => asks_pure (nil_subset _) trivial

theorem light_interpolate (text) (bare) : Light (interpolate cx text bare) :=
  (@asks_interpolate cx [] text bare).light

theorem asks_expression? (text) : Asks cx given (expression? cx text) (·.toList.flatMap (·.pipes)) fun _ => True := by
  unfold expression?
  split
  · rename_i compiled
    exact (asks_resolveExpression (pipe_compile compiled)).bind fun _ _ => asks_pure (by simp) trivial
  · exact (asks_report _ _).bind fun _ _ => asks_pure (nil_subset _) trivial

theorem asks_none : Asks cx given (pure (none : Option Expression)) (·.toList.flatMap (·.pipes)) fun _ => True :=
  asks_pure (nil_subset _) trivial

theorem asks_handler? (text) : Asks cx given (handler? cx text) (fun _ => []) fun _ => True := by
  unfold handler?
  split
  · exact asks_pure (nil_subset _) trivial
  · exact (asks_report _ _).bind fun _ _ => asks_pure (nil_subset _) trivial

/-! ### Attributes

What a head says of content and components is not the business of its attributes. -/

def Dresses (cx : Context) (head : ElementHead) (x : Compile ElementHead) : Prop :=
  Asks cx head.names x ElementHead.names (·.Like head)

theorem dresses_pure {after : ElementHead} (names : after.names ⊆ head.names) (like : after.Like head) :
    Dresses cx head (pure after) := asks_pure names like

theorem dresses_same : Dresses cx head (pure head) := dresses_pure (Subset.refl _) ⟨rfl, rfl, rfl⟩

theorem Dresses.trans {x : Compile ElementHead} {f : ElementHead → Compile ElementHead} (first : Dresses cx head x)
    (next : ∀ head, Dresses cx head (f head)) : Dresses cx head (x >>= f) :=
  Asks.bind first fun after like => by
    have later := (next after).mono (subset_append_left _ head.names)
    refine ⟨later.light, later.adds, later.has, fun s => ?_⟩
    obtain ⟨tag, component, routed⟩ := later.holds s
    exact ⟨tag.trans like.1, component.trans like.2.1, routed.trans like.2.2⟩

theorem dresses_addProp (head) (name value) : Dresses cx head (addProp cx head name value) := by
  refine (asks_expression? value).bind fun e _ => ?_
  cases e with
  | none => exact asks_pure (subset_append_right _ _) ⟨rfl, rfl, rfl⟩
  | some e =>
    refine asks_pure (fun name mem => ?_) ⟨rfl, rfl, rfl⟩
    simp only [ElementHead.names, mem_append, flatMap_append, flatMap_cons, flatMap_nil,
      toList_some] at mem ⊢
    tauto

theorem dresses_addEvent (head) (name value) (twoWay) :
    Dresses cx head (addEvent cx head name value twoWay) := by
  refine (asks_handler? value).bind fun e _ => ?_
  cases e <;> exact asks_pure (Subset.refl _) ⟨rfl, rfl, rfl⟩

theorem names_directive (head : ElementHead) (b : DirectiveBinding) : { head with directives := head.directives ++ [b] }.names ⊆
    b.value.toList.flatMap (·.pipes) ++ ([b.directive] ++ head.names) := by
  intro name mem
  have values : (head.directives ++ [b]).filterMap (·.value) = head.directives.filterMap (·.value) ++ b.value.toList := by
    cases value : b.value <;> simp [value]
  simp only [ElementHead.names, values, mem_append, map_append, map_cons, map_nil,
    flatMap_append] at mem ⊢
  tauto

theorem dresses_addDirective (head : ElementHead) (name value : String) :
    Dresses cx head (addDirective cx head name value) := by
  unfold addDirective
  split
  · rename_i d found
    refine (asks_provide (offers_findDirective? found)).bind fun _ _ => ?_
    dsimp only
    split
    · exact asks_none.bind fun e _ => asks_pure (names_directive head ⟨name, d.name, e⟩) ⟨rfl, rfl, rfl⟩
    · exact (asks_expression? value).bind fun e _ => asks_pure (names_directive head ⟨name, d.name, e⟩) ⟨rfl, rfl, rfl⟩
  · exact (asks_report _ _).bind fun _ _ => dresses_same

theorem dresses_addAttribute (head) (entry) : Dresses cx head (addAttribute cx head entry) := by
  unfold addAttribute
  dsimp only
  split
  · exact dresses_same
  · exact dresses_pure (Subset.refl _) ⟨rfl, rfl, rfl⟩
  · exact (dresses_addProp head _ _).trans fun head => dresses_addEvent head _ _ _
  · exact dresses_addEvent head _ _ _
  · exact dresses_addProp head _ _
  · exact dresses_addDirective head _ _
  · split
    · refine (asks_interpolate _ _).bind fun parts _ => asks_pure (fun name mem => ?_) ⟨rfl, rfl, rfl⟩
      have bindings : name ∈ (head.attributeBindings.insert entry.1 parts).values.flatten.flatMap (·.pipes) →
          name ∈ parts.flatMap (·.pipes) ∨ name ∈ head.attributeBindings.values.flatten.flatMap (·.pipes) := by
        simp only [mem_flatMap, mem_flatten]
        rintro ⟨part, ⟨bound, listed, inside⟩, here⟩
        rcases mem_values_insert listed with rfl | old
        · exact .inl ⟨part, inside, here⟩
        · exact .inr ⟨part, ⟨bound, old, inside⟩, here⟩
      simp only [ElementHead.names, mem_append] at mem ⊢
      tauto
    · unfold addStatic
      split
      · exact dresses_pure (Subset.refl _) ⟨rfl, rfl, rfl⟩
      · split <;> exact dresses_pure (Subset.refl _) ⟨rfl, rfl, rfl⟩

theorem dresses_addAttributes (attributes) (head) :
    Dresses cx head (addAttributes cx head attributes) := by
  induction attributes generalizing head with
  | nil => exact dresses_same
  | cons entry rest ih => exact (dresses_addAttribute head entry).trans ih

theorem dresses_applyMatchings (ds : List Definition) (offered : ∀ d ∈ ds, cx.registry.Offers d.name) (head : ElementHead) :
    Dresses cx head (applyMatchings head ds) := by
  induction ds generalizing head with
  | nil => exact dresses_same
  | cons d rest ih =>
    obtain ⟨here, later⟩ := forall_mem_cons.mp offered
    have applied : Dresses cx head (applyMatching head d) :=
      (asks_provide here).bind fun _ _ =>
        asks_pure (names_directive head ⟨d.selector?.getD d.name, d.name, none⟩) ⟨rfl, rfl, rfl⟩
    exact applied.trans (ih later)

theorem asks_startElement (tag) (attributes) :
    Asks cx [] (startElement cx tag attributes) (·.1.names) fun start => start.1.tag = tag ∧ start.1.routed ∧
      ∀ host, start.2 = some host → start.1.component = some host.name ∧ cx.registry.findElement? tag = some host := by
  have dressed : Dresses cx { tag := tag } (addAttributes cx { tag := tag } attributes >>= applySelectorDirectives cx) :=
    (dresses_addAttributes attributes _).trans fun head => dresses_applyMatchings _
      (fun d mem => offers_matchingDirectives (mem_filter.mp mem).1) head
  have split : startElement cx tag attributes =
      (addAttributes cx { tag := tag } attributes >>= applySelectorDirectives cx) >>= findComponent cx := rfl
  rw [split]
  refine Asks.bind dressed fun head like => ?_
  obtain ⟨same, -, routed⟩ := like
  unfold findComponent
  split
  · split
    · rename_i host found
      refine (asks_provide (offers_findElement? found)).bind fun _ _ =>
        asks_pure (fun name mem => ?_) ⟨same, routed, ?_⟩
      · simp only [ElementHead.names, mem_append, toList_some] at mem ⊢
        tauto
      · rintro _ ⟨⟩
        rw [show head.tag = tag from same] at found
        exact ⟨rfl, found⟩
    · exact (asks_report _ _).bind fun _ _ => asks_pure (subset_append_left _ _)
        ⟨same, routed, fun _ none => by cases none⟩
  · exact asks_pure (subset_append_left _ _) ⟨same, routed, fun _ none => by cases none⟩

theorem light_startElement (tag) (attributes) : Light (startElement cx tag attributes) :=
  (asks_startElement tag attributes).light

/-! ### Structural directives -/

def bodyName (directive : String) (number : Nat) : String := "__" ++ directive ++ "_" ++ toString number

def filled (cx : Context) (directive value id : String) : Compile Placeholder :=
  let p : Placeholder := { directive := directive, template := id }
  if directive == "if" then ifPlaceholder cx p value
  else if directive == "for" then forPlaceholder cx p value
  else customPlaceholder cx p value

def isKnown (cx : Context) (directive : String) : Bool :=
  directive == "if" || directive == "for" || (cx.registry.findDirective? directive).isSome

theorem filled_unknown (unknown : isKnown cx directive = false) (value id) :
    filled cx directive value id =
      report cx .unknownDirective ("'*" ++ directive ++ "' is not a registered structural directive") >>=
        fun _ => pure { directive := directive, template := id } := by
  simp only [isKnown, Bool.or_eq_false_iff, isSome_eq_false_iff, isNone_iff_eq_none] at unknown
  simp only [filled, unknown.1.1, unknown.1.2, customPlaceholder, unknown.2]
  rfl

theorem asks_filled (directive value id) : Asks cx given (filled cx directive value id)
    (fun p => (if isKnown cx directive then p.custom else []) ++ p.pipes) (·.template = id) := by
  cases known : isKnown cx directive with
  | false =>
    rw [filled_unknown known]
    exact (asks_report _ _).bind fun _ _ => asks_pure (nil_subset _) rfl
  | true =>
    simp only [if_true]
    unfold filled
    dsimp only
    split
    · rename_i this
      rw [beq_iff_eq.mp this]
      exact (asks_expression? _).bind fun e _ => asks_pure (subset_append_left _ _) rfl
    · split
      · rename_i this
        rw [beq_iff_eq.mp this]
        unfold forPlaceholder
        dsimp only
        split
        · exact (asks_expression? _).bind fun e _ => asks_pure (subset_append_left _ _) rfl
        · exact (asks_report _ _).bind fun _ _ => asks_pure (nil_subset _) rfl
      · unfold customPlaceholder
        split
        · rename_i d found
          have custom (e : Option Expression) : let p : Placeholder := { directive := d.name, template := id, value := e }
              p.custom ++ p.pipes ⊆ e.toList.flatMap (·.pipes) ++ ([d.name] ++ given) := by
            refine append_subset.mpr ⟨fun name mem => mem_append_right _ (mem_append_left _ ?_),
              subset_append_left _ _⟩
            unfold Placeholder.custom at mem
            split at mem
            · cases mem
            · exact mem
          refine (asks_provide (offers_findDirective? found)).bind fun _ _ => ?_
          dsimp only
          split
          · exact asks_none.bind fun e _ => asks_pure (custom e) rfl
          · exact (asks_expression? value).bind fun e _ => asks_pure (custom e) rfl
        · simp_all [isKnown]

theorem wrap_eq (directive value) (node) : wrap cx directive value node =
    (freshBody directive >>= fun id => filled cx directive value id >>= fun p =>
      addBody id [node] >>= fun _ => pure (.placeholder p)) := by
  unfold wrap filled
  refine congrArg (freshBody directive >>= ·) (funext fun id => ?_)
  dsimp only
  split
  · rfl
  · split <;> rfl

theorem wrap_run (directive value : String) (node : TemplateNode) (s : State) :
    let id := bodyName directive s.counter
    let after := (filled cx directive value id).run { s with counter := s.counter + 1 }
    (wrap cx directive value node).run s =
      (.placeholder after.1, { after.2 with bodies := after.2.bodies.insert id [node] }) := by
  rw [wrap_eq]
  rfl

theorem finishTemplate_eq (attributes) (children) :
    finishTemplate cx attributes children =
      match structuralDirective? attributes, reference? attributes with
      | some (directive, value), _ => wrap cx directive value (.fragment children) >>= fun node => pure [node]
      | none, some id => addBody id children >>= fun _ => pure []
      | none, none => pure [.fragment children] := rfl

/-! ### Nodes -/

theorem compileNode_text (cx) (value) (s) : (compileNode cx (.text value)).run s =
    ([.text ((interpolate cx value true).run s).1], ((interpolate cx value true).run s).2) := by
  rw [compileNode]
  rfl

theorem compileNode_template (cx : Context) (isTemplate : (tag == "template"))
    (attributes : List (String × String)) (children : List MarkupNode) (s : State) :
    let made := (compileNodes cx children).run s
    (compileNode cx (.element tag attributes children)).run s = (finishTemplate cx attributes made.1).run made.2 := by
  rw [compileNode, if_pos isTemplate]
  rfl

theorem compileNode_place (cx : Context) (template : (tag == "template") = false) (isPlace : (tag == "place"))
    (attributes : List (String × String)) (children : List MarkupNode) (s : State) :
    let selector := slotSelector? attributes
    let made := (compileNodes cx children).run ((addSlot selector).run s).2
    (compileNode cx (.element tag attributes children)).run s = ([.slot selector made.1], made.2) := by
  rw [compileNode, if_neg (by simp [template]), if_pos isPlace]
  rfl

theorem compileNode_element (cx : Context) (template : (tag == "template") = false) (place : (tag == "place") = false)
    (attributes : List (String × String)) (children : List MarkupNode) (s : State) :
    let start := (startElement cx tag attributes).run s
    let made := (compileNodes cx children).run start.2
    let node := (finishElement cx start.1.1 start.1.2 made.1).run made.2
    let wrapped := (wrapIf cx (structuralDirective? attributes) node.1).run node.2
    (compileNode cx (.element tag attributes children)).run s = ([wrapped.1], wrapped.2) := by
  rw [compileNode, if_neg (by simp [template]), if_neg (by simp [place])]
  rfl

theorem compileNodes_cons (cx : Context) (node : MarkupNode) (rest : List MarkupNode) (s : State) :
    let first := (compileNode cx node).run s
    let more := (compileNodes cx rest).run first.2
    (compileNodes cx (node :: rest)).run s = (first.1 ++ more.1, more.2) := by
  rw [compileNodes]
  rfl

/-! ### Templates compiled before -/

def Context.withOutput (cx : Context) (output : TargetOutput) : Context :=
  { cx with registry := { cx.registry with output := output } }

section

variable (cx) (output : TargetOutput)

theorem resolveFilters_withOutput (filters) :
    resolveFilters (cx.withOutput output) filters = resolveFilters cx filters := by
  induction filters with
  | nil => rfl
  | cons f rest ih =>
    rw [resolveFilters, ih]
    rfl

theorem resolveExpression_withOutput (e) :
    resolveExpression (cx.withOutput output) e = resolveExpression cx e := by
  rw [resolveExpression, resolveFilters_withOutput]
  rfl

theorem resolveParts_withOutput (parts) :
    resolveParts (cx.withOutput output) parts = resolveParts cx parts := by
  induction parts with
  | nil => rfl
  | cons part rest ih =>
    cases part with
    | literal text =>
      rw [resolveParts, ih]
      rfl
    | expression e =>
      rw [resolveParts, resolveExpression_withOutput, ih]
      rfl

theorem interpolate_withOutput (text) (bare) :
    interpolate (cx.withOutput output) text bare = interpolate cx text bare := by
  unfold interpolate
  split
  · exact resolveParts_withOutput cx output _
  · rfl

theorem expression?_withOutput (text) : expression? (cx.withOutput output) text = expression? cx text := by
  unfold expression?
  split
  · rw [resolveExpression_withOutput]
  · rfl

theorem addProp_withOutput (head) (name value) :
    addProp (cx.withOutput output) head name value = addProp cx head name value := by
  unfold addProp
  rw [expression?_withOutput]

theorem addEvent_withOutput (head) (name value) (twoWay) :
    addEvent (cx.withOutput output) head name value twoWay = addEvent cx head name value twoWay := by
  have same : handler? (cx.withOutput output) value = handler? cx value := by
    unfold handler?
    split <;> rfl
  unfold addEvent
  rw [same]

theorem addDirective_withOutput (head) (name value) :
    addDirective (cx.withOutput output) head name value = addDirective cx head name value := by
  unfold addDirective
  rw [expression?_withOutput]
  rfl

theorem addAttribute_withOutput (head) (entry) :
    addAttribute (cx.withOutput output) head entry = addAttribute cx head entry := by
  unfold addAttribute
  simp only [addProp_withOutput, addEvent_withOutput, addDirective_withOutput, interpolate_withOutput]
  rfl

theorem addAttributes_withOutput (head) (attributes) :
    addAttributes (cx.withOutput output) head attributes = addAttributes cx head attributes := by
  induction attributes generalizing head with
  | nil => rfl
  | cons entry rest ih =>
    unfold addAttributes
    rw [addAttribute_withOutput]
    exact congrArg (addAttribute cx head entry >>= ·) (funext ih)

theorem startElement_withOutput (tag) (attributes) :
    startElement (cx.withOutput output) tag attributes = startElement cx tag attributes := by
  unfold startElement
  rw [addAttributes_withOutput]
  rfl

theorem filled_withOutput (directive value id) :
    filled (cx.withOutput output) directive value id = filled cx directive value id := by
  unfold filled
  dsimp only
  split
  · unfold ifPlaceholder
    dsimp only
    rw [expression?_withOutput]
  · split
    · unfold forPlaceholder
      dsimp only
      split
      · rw [expression?_withOutput]
      · rfl
    · unfold customPlaceholder
      rw [expression?_withOutput]
      rfl

theorem wrap_withOutput (directive value) (node) :
    wrap (cx.withOutput output) directive value node = wrap cx directive value node := by
  simp only [wrap_eq, filled_withOutput]

end

end Template

end ComponentCompiler
