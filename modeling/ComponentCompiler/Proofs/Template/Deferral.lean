import ComponentCompiler.Proofs.Template.Growth
import ComponentCompiler.Proofs.Template.References

/-!
Content routed at once and content routed later. Main statement: `compileMarkup_deferred`; where
content is dropped, marks for content queries and reports of view queries may differ.
-/

namespace ComponentCompiler

open TemplateNode MarkupNode List SortedMap

/-! ### Marks for content queries -/

def forget (head : ElementHead) : ElementHead := { head with contentQuery := none }

theorem marking_forget : Marking forget := ⟨fun _ => rfl, fun _ => rfl, fun _ => rfl, fun _ => rfl⟩

theorem forget_markContent (queries) (head) : forget (markContent queries head) = forget head := by
  unfold markContent
  split <;> rfl

namespace TemplateNode

variable {f : ElementHead → ElementHead}

theorem mapHeadsOf_mapHeadsOf (f g : ElementHead → ElementHead) (nodes) :
    mapHeadsOf g (mapHeadsOf f nodes) = mapHeadsOf (g ∘ f) nodes := by
  induction nodes using forestInduction with
  | nil => rfl
  | element head children projected rest inside placed later =>
    have placed := map_congr_left fun p mem => congrArg (Projection.mk p.slot) (placed p mem)
    simp only [mapHeadsOf, mapHeads, inside, later, mapHeadsProjected_eq, List.map_map, Function.comp_def, placed]
  | text | fragment | placeholder | slot => simp only [mapHeadsOf, mapHeads, *]

end TemplateNode

/-- A body as it is compared: whole, or without marks for content queries. -/
def shown (strict : Bool) (nodes : List TemplateNode) : List TemplateNode :=
  if strict then nodes else mapHeadsOf forget nodes

theorem map_look_shown (strict) (nodes) : (shown strict nodes).map look = nodes.map look := by
  cases strict with
  | true => rfl
  | false => exact Template.map_look_mapHeadsOf marking_forget nodes

namespace Template

variable {nodes : List TemplateNode} {head : ElementHead} {entry : PendingProjection} {tag : String}
  {names tags : List String}

/-! ### Two runs side by side -/

section

variable (slots : SortedMap String (List (Option String))) (final : TemplateBodies) (strict : Bool)

def Opens (entry : PendingProjection) : Prop := strict = true → ∀ found, slots.get? entry.host = some found → none ∈ found

/-- One state is another after what waits has been routed, as far as slots are known. -/
structure Mirrors (e f : State) : Prop where
  same : f = { e with bodies := f.bodies, pending := f.pending }
  bodies : (f.bodies.map fun _ => shown strict) = e.bodies.map fun _ nodes => shown strict (routeWaitingOf slots final nodes)
  pending : f.pending = e.pending.filter fun entry => (slots.get? entry.host).isNone

end

variable {slots : SortedMap String (List (Option String))} {final : TemplateBodies} {strict : Bool} {e f : State}

theorem Mirrors.light {α : Type} {x : Compile α} (mirrors : Mirrors slots final strict e f) (light : Light x) :
    (x.run f).1 = (x.run e).1 ∧ Mirrors slots final strict (x.run e).2 (x.run f).2 := by
  have run := light e f.bodies e.slots f.pending e.counter
  have start : { e with bodies := f.bodies, slots := e.slots, pending := f.pending, counter := e.counter } = f :=
    mirrors.same.symm
  rw [start] at run
  have here := light.run e
  have bodies : (x.run e).2.bodies = e.bodies := by rw [here]
  have pending : (x.run e).2.pending = e.pending := by rw [here]
  have counter : (x.run e).2.counter = e.counter := by rw [here]
  have places : (x.run e).2.slots = e.slots := by rw [here]
  rw [run]
  refine ⟨rfl, ?_, ?_, ?_⟩
  · rw [← places, ← counter]
  · rw [bodies]
    exact mirrors.bodies
  · rw [pending]
    exact mirrors.pending

theorem Mirrors.addSlot (mirrors : Mirrors slots final strict e f) (selector) :
    Mirrors slots final strict ((addSlot selector).run e).2 ((addSlot selector).run f).2 := by
  refine ⟨?_, mirrors.bodies, mirrors.pending⟩
  conv => lhs; rw [mirrors.same]
  rfl

theorem routeWaitingOf_singleton (node) :
    routeWaitingOf slots final [node] = [routeWaiting slots final node] := by
  rw [routeWaitingOf, routeWaitingOf]

section

variable (mirrors : Mirrors slots final strict e f)
include mirrors

theorem Mirrors.insert (id) (nodes) :
    Mirrors slots final strict { e with bodies := e.bodies.insert id nodes }
      { f with bodies := f.bodies.insert id (routeWaitingOf slots final nodes) } := by
  refine ⟨?_, ?_, mirrors.pending⟩
  · conv => lhs; rw [mirrors.same]
  · rw [map_insert, mirrors.bodies]
    exact (map_insert e.bodies (fun nodes => shown strict (routeWaitingOf slots final nodes)) id nodes).symm

theorem Mirrors.next :
    f.counter = e.counter ∧
      Mirrors slots final strict { e with counter := e.counter + 1 } { f with counter := f.counter + 1 } := by
  have counter : f.counter = e.counter := by rw [mirrors.same]
  refine ⟨counter, ?_, mirrors.bodies, mirrors.pending⟩
  rw [counter]
  conv => lhs; rw [mirrors.same]

theorem Mirrors.looks (id) :
    (f.bodies.get? id).map (·.map look) = (e.bodies.get? id).map (·.map look) := by
  have here := congrArg (fun bodies : TemplateBodies => (bodies.get? id).map (·.map look)) mirrors.bodies
  simpa only [get?_map, Option.map_map, Function.comp_def, map_look_shown, routeWaitingOf_eq, List.map_map,
    look_routeWaiting] using here

theorem Mirrors.faces : faceIn f.bodies = faceIn e.bodies := by
  refine faceIn_congr mirrors.looks ?_
  have sizes := congrArg size mirrors.bodies
  rwa [size_map, size_map] at sizes

end

/-! ### Content of components -/

theorem waitsWith_hasDefault (awaited : Awaited pending nodes) (opens : ∀ entry ∈ pending, Opens slots true entry) :
    WaitsWithIn (HasDefault slots) nodes := by
  refine WaitsWithIn.mono awaited fun head entered found known => ?_
  obtain ⟨entry, listed, component, -⟩ := entered
  rw [component, Option.bind_some] at known
  exact opens entry listed rfl found known

theorem forget_marked (queries : List Query) (c : Bool) (nodes : List TemplateNode) :
    mapHeadsOf forget (if c then mapHeadsOf (markContent queries) nodes else nodes) = mapHeadsOf forget nodes := by
  split
  · rw [mapHeadsOf_mapHeadsOf]
    exact congrArg (mapHeadsOf · nodes) (funext (forget_markContent queries))
  · rfl

theorem Mirrors.marked (mirrors : Mirrors slots final strict e f) (accounted : e.Accounted (Opens slots strict))
    (awaited : Awaited e.pending content) (queries) :
    Mirrors slots final strict { e with bodies := markedBodies queries content e.bodies }
      { f with bodies := markedBodies queries (routeWaitingOf slots final content) f.bodies } := by
  refine ⟨?_, ?_, mirrors.pending⟩
  · conv => lhs; rw [mirrors.same]
  · have bodies := mirrors.bodies
    dsimp only
    cases strict with
    | false =>
      have routed : ∀ nodes, shown false (routeWaitingOf slots final nodes) = routeWaitingOf slots final (shown false nodes) :=
        fun nodes => (routeWaitingOf_mapHeads marking_forget nodes).symm
      have plain : ∀ c nodes, shown false (if c = true then mapHeadsOf (markContent queries) nodes else nodes) =
          shown false nodes := fun c nodes => forget_marked queries c nodes
      rw [markedBodies, markedBodies, SortedMap.map_map, SortedMap.map_map]
      simp only [routed, plain] at bodies ⊢
      exact bodies
    | true =>
      have whole : f.bodies = e.bodies.map fun _ nodes => routeWaitingOf slots final nodes := by
        have left : (f.bodies.map fun _ => shown true) = f.bodies := SortedMap.map_id _
        rw [← left, bodies]
        rfl
      have roots : ∀ id, id ∈ bodyReferences (routeWaitingOf slots final content) ↔ id ∈ bodyReferences content :=
        mem_references_routeWaiting (waitsWith_hasDefault awaited accounted.entries)
      have steps : ∀ id next, next ∈ referencesOf f.bodies id ↔ next ∈ referencesOf e.bodies id := by
        intro id next
        rw [referencesOf, referencesOf, whole, get?_map]
        cases here : e.bodies.get? id with
        | none => rfl
        | some nodes =>
          exact mem_references_routeWaiting (waitsWith_hasDefault (accounted.bodies id nodes here) accounted.entries) next
      have marks := @contains_referred_congr _ _ _ _ queries roots steps
      rw [show (fun (_ : String) => shown true) = fun _ nodes => nodes from rfl, SortedMap.map_id, markedBodies, markedBodies,
        SortedMap.map_map]
      simp only [marks]
      conv => lhs; rw [whole, SortedMap.map_map]
      refine congrArg (e.bodies.map ·) (funext fun id => funext fun nodes => ?_)
      change _ = routeWaitingOf slots final _
      split
      · exact (routeWaitingOf_mapHeads (marking_markContent queries) nodes).symm
      · rfl

/-- What is compiled before is known later, and only local components get slots in between. -/
structure Ahead (cx : Context) (now later : TargetOutput) (slots : SortedMap String (List (Option String))) : Prop where
  full : ∀ name, (cx.withOutput later).registry.slots? name = slots.get? name
  grown : ∀ name found, (cx.withOutput now).registry.slots? name = some found → slots.get? name = some found
  native : ∀ tag host, cx.registry.findElement? tag = some host → (cx.withOutput now).registry.slots? host.name = none →
    (slots.get? host.name).isSome = true → host.isLocal = true

variable {cx : Context} {now later : TargetOutput}

theorem routeWaiting_routed (routed : head.routed) (found) (bodies)
    (content) :
    routeWaiting slots final (.element head [] (routeContent found bodies content)) =
      .element head [] (routeContent found bodies (routeWaitingOf slots final content)) := by
  simp only [routeWaiting, routeElement, routed, routeWaitingOf, routeWaitingProjected_eq, routeWaitingOf_eq,
    routeContent_map look_routeWaiting]

theorem Mirrors.waits (mirrors : Mirrors slots final strict e f) (unknown : slots.get? entry.host = none) :
    Mirrors slots final strict { e with pending := withEntry e.pending entry } { f with pending := withEntry f.pending entry } := by
  refine ⟨?_, mirrors.bodies, ?_⟩
  · conv => lhs; rw [mirrors.same]
  · rw [filter_withEntry, unknown, ← mirrors.pending]
    rfl

theorem Mirrors.settles (mirrors : Mirrors slots final strict e f) (known : slots.get? entry.host = some found) :
    Mirrors slots final strict { e with pending := withEntry e.pending entry } f := by
  refine ⟨mirrors.same, mirrors.bodies, ?_⟩
  rw [filter_withEntry, known, ← mirrors.pending]
  rfl

theorem routeContent_later (stands : e.Stands) (rooted : Rooted e.bodies content)
    (kept : Keeps (markedBodies queries content e.bodies) final) (places) :
    routeContent places (markedBodies queries content e.bodies)
      (routeWaitingOf slots final (mapHeadsOf (markContent queries) content)) =
    routeContent places final (routeWaitingOf slots final (mapHeadsOf (markContent queries) content)) := by
  have looks := map_look_markedBodies queries content e.bodies
  have still : Rooted e.bodies (routeWaitingOf slots final (mapHeadsOf (markContent queries) content)) := by
    intro node mem id look
    rw [routeWaitingOf_eq, mapHeadsOf_eq, List.map_map] at mem
    obtain ⟨old, here, rfl⟩ := mem_map.mp mem
    refine rooted old here id (look ▸ ?_)
    rw [Function.comp, look_routeWaiting, look_mapHeads (marking_markContent _)]
  have marked : State.Stands { e with bodies := markedBodies queries content e.bodies } := stands_of_looks stands rfl looks
  exact routeContent_congr (faceIn_of_keeps marked kept (still.mono (keeps_of_looks looks))) places

theorem mirrors_projectContent (ahead : Ahead cx now later slots) (mirrors : Mirrors slots final strict e f)
    (stands : e.Stands) (accounted : e.Accounted (Opens slots strict)) {host : Definition}
    (rooted : Rooted e.bodies content) (awaited : Awaited e.pending content) (settled : head.routed)
    (component : head.component = some host.name) (found : cx.registry.findElement? tag = some host)
    (kept : Keeps ((projectContent (cx.withOutput now) head host content).run e).2.bodies final) :
    let first := (projectContent (cx.withOutput now) head host content).run e
    let second := (projectContent (cx.withOutput later) head host (routeWaitingOf slots final content)).run f
    second.1 = routeWaiting slots final first.1 ∧ Mirrors slots final strict first.2 second.2 := by
  have next := mirrors.marked accounted awaited host.contentQueries
  have faces := next.faces
  have commutes := @routeWaitingOf_mapHeads final slots _ (marking_markContent host.contentQueries) content
  rw [(projectContent_result (cx.withOutput now) head host content e).1] at kept
  dsimp only at faces ⊢
  rw [projectContent_run, projectContent_run, ahead.full, ← commutes]
  dsimp only
  have routed : ∀ places, routeContent places
      (markedBodies host.contentQueries (routeWaitingOf slots final content) f.bodies)
      (routeWaitingOf slots final (mapHeadsOf (markContent host.contentQueries) content)) =
      routeContent places (markedBodies host.contentQueries content e.bodies)
        (routeWaitingOf slots final (mapHeadsOf (markContent host.contentQueries) content)) :=
    routeContent_congr fun _ _ => by rw [faces]
  have bind : head.component.bind slots.get? = slots.get? host.name := by rw [component, Option.bind_some]
  cases known : (cx.withOutput now).registry.slots? host.name with
  | some places =>
    rw [ahead.grown _ _ known]
    dsimp only
    rw [routeWaiting_routed settled, routed]
    exact ⟨rfl, next⟩
  | none =>
    cases learned : slots.get? host.name with
    | some places =>
      rw [learned] at bind
      dsimp only
      rw [if_pos (ahead.native tag host found known (by rw [learned]; rfl)), addPending_run, routeWaiting, routeElement, bind]
      refine ⟨?_, next.settles learned⟩
      dsimp only
      rw [routed, routeContent_later stands rooted kept, ← settled]
    | none =>
      rw [learned] at bind
      dsimp only
      split
      · rw [addPending_run, addPending_run, routeWaiting, routeElement, bind]
        exact ⟨rfl, next.waits learned⟩
      · rw [routeWaiting, routeElement, settled, routeWaitingOf, routeWaitingProjected, routeWaitingProjected]
        exact ⟨rfl, next⟩

/-! ### Nodes -/

theorem mirrors_wrap (mirrors : Mirrors slots final strict e f) (directive value : String) (node : TemplateNode) :
    let first := (wrap (cx.withOutput now) directive value node).run e
    let second := (wrap (cx.withOutput later) directive value (routeWaiting slots final node)).run f
    second.1 = routeWaiting slots final first.1 ∧ Mirrors slots final strict first.2 second.2 := by
  obtain ⟨counter, next⟩ := mirrors.next
  have light := (@asks_filled cx [] directive value (bodyName directive e.counter)).light
  obtain ⟨same, after⟩ := next.light light
  rw [wrap_withOutput, wrap_withOutput]
  dsimp only
  rw [wrap_run, wrap_run]
  dsimp only
  rw [counter] at same after ⊢
  refine ⟨?_, ?_⟩
  · rw [routeWaiting, same]
  · rw [← routeWaitingOf_singleton]
    exact after.insert _ _

theorem mirrors_wrapIf (mirrors : Mirrors slots final strict e f) (directive : Option (String × String)) (node : TemplateNode) :
    let first := (wrapIf (cx.withOutput now) directive node).run e
    let second := (wrapIf (cx.withOutput later) directive (routeWaiting slots final node)).run f
    second.1 = routeWaiting slots final first.1 ∧ Mirrors slots final strict first.2 second.2 := by
  cases directive with
  | none => exact ⟨rfl, mirrors⟩
  | some entry => exact mirrors_wrap mirrors entry.1 entry.2 node

theorem mirrors_finishTemplate (mirrors : Mirrors slots final strict e f) (attributes : List (String × String))
    (children : List TemplateNode) :
    let first := (finishTemplate (cx.withOutput now) attributes children).run e
    let second := (finishTemplate (cx.withOutput later) attributes (routeWaitingOf slots final children)).run f
    second.1 = routeWaitingOf slots final first.1 ∧ Mirrors slots final strict first.2 second.2 := by
  have fragment : routeWaiting slots final (.fragment children) = .fragment (routeWaitingOf slots final children) := by
    rw [routeWaiting]
  rw [finishTemplate_eq, finishTemplate_eq]
  cases structuralDirective? attributes with
  | some entry =>
    obtain ⟨same, next⟩ := @mirrors_wrap slots final strict e f cx now later mirrors entry.1 entry.2 (.fragment children)
    rw [fragment] at same next
    refine ⟨?_, next⟩
    exact (congrArg ([·]) same).trans (routeWaitingOf_singleton _).symm
  | none =>
    cases reference? attributes with
    | some id => exact ⟨rfl, mirrors.insert id children⟩
    | none => exact ⟨(congrArg ([·]) fragment).symm.trans (routeWaitingOf_singleton _).symm, mirrors⟩

theorem routeWaitingOf_isEmpty (nodes) : (routeWaitingOf slots final nodes).isEmpty = nodes.isEmpty := by
  cases nodes <;> rfl

theorem mirrors_finishElement (ahead : Ahead cx now later slots) (mirrors : Mirrors slots final strict e f)
    (stands : e.Stands) (accounted : e.Accounted (Opens slots strict)) (rooted : Rooted e.bodies content)
    (awaited : Awaited e.pending content) (settled : head.routed)
    (known : ∀ h, host = some h → head.component = some h.name ∧ cx.registry.findElement? tag = some h)
    (kept : Keeps ((finishElement (cx.withOutput now) head host content).run e).2.bodies final) :
    let first := (finishElement (cx.withOutput now) head host content).run e
    let second := (finishElement (cx.withOutput later) head host (routeWaitingOf slots final content)).run f
    second.1 = routeWaiting slots final first.1 ∧ Mirrors slots final strict first.2 second.2 := by
  have plain : ∀ children, routeWaiting slots final (.element head children []) =
      .element head (routeWaitingOf slots final children) [] := by
    intro children
    rw [routeWaiting, routeElement, settled, routeWaitingProjected]
  cases host with
  | none => exact ⟨(plain content).symm, mirrors⟩
  | some h =>
    obtain ⟨component, found⟩ := known h rfl
    unfold finishElement at kept ⊢
    dsimp only at kept ⊢
    rw [routeWaitingOf_isEmpty]
    cases none : content.isEmpty with
    | true => exact ⟨(plain []).symm, mirrors⟩
    | false =>
      rw [none] at kept
      exact mirrors_projectContent ahead mirrors stands accounted rooted awaited settled component found kept

/-! ### Runs -/

/-- What a forest of markup asks for: plain names for its templates, and default slots where content is written. -/
structure Fit (cx : Context) (slots : SortedMap String (List (Option String))) (strict : Bool) (names tags : List String) :
    Prop where
  names : ∀ id ∈ names, PlainName id
  tags : ∀ tag ∈ tags, ∀ host, cx.registry.findElement? tag = some host →
    strict = true → ∀ found, slots.get? host.name = some found → none ∈ found

theorem Fit.mono (fit : Fit cx slots strict names tags) (less : ∀ id ∈ names', id ∈ names)
    (fewer : ∀ tag ∈ tags', tag ∈ tags) : Fit cx slots strict names' tags' :=
  ⟨fun id mem => fit.names id (less id mem), fun tag mem => fit.tags tag (fewer tag mem)⟩

theorem Fit.inside
    (fit : Fit cx slots strict (bodyNames (.element tag attributes children)) (contentTags (.element tag attributes children))) :
    Fit cx slots strict (bodyNamesOf children) (contentTagsOf children) := by
  refine fit.mono (fun id mem => ?_) fun inner mem => ?_
  · rw [bodyNames]
    exact mem_append_right _ mem
  · by_cases none : children = []
    · rw [none] at mem
      cases mem
    · rw [contentTags_element none]
      exact mem_cons_of_mem _ mem

theorem Fit.enters (fit : Fit cx slots strict names tags) (now : TargetOutput) :
    Enters (cx.withOutput now) (Opens slots strict) tags := fun tag mem host found => fit.tags tag mem host found

mutual

theorem mirrors_compileNode (ahead : Ahead cx now later slots) : ∀ (node : MarkupNode) {e f : State},
    Fit cx slots strict (bodyNames node) (contentTags node) → Mirrors slots final strict e f → e.Stands →
    e.Accounted (Opens slots strict) → Keeps ((compileNode (cx.withOutput now) node).run e).2.bodies final →
    ((compileNode (cx.withOutput later) node).run f).1 =
      routeWaitingOf slots final ((compileNode (cx.withOutput now) node).run e).1 ∧
    Mirrors slots final strict ((compileNode (cx.withOutput now) node).run e).2 ((compileNode (cx.withOutput later) node).run f).2
  | .text value, e, f, _, mirrors, _, _, _ => by
    obtain ⟨same, next⟩ := mirrors.light (@light_interpolate cx value true)
    rw [compileNode_text, compileNode_text, interpolate_withOutput, interpolate_withOutput, same]
    exact ⟨by rw [routeWaitingOf_singleton, routeWaiting], next⟩
  | .element tag attributes children, e, f, fit, mirrors, stands, accounted, kept => by
    cases template : tag == "template" with
    | true =>
      rw [compileNode_template _ template] at kept ⊢
      rw [compileNode_template _ template]
      obtain ⟨standsM, -, -⟩ := @grows_compileNodes (cx.withOutput now) children fit.inside.names e stands
      have plain : (structuralDirective? attributes).isNone → ∀ id ∈ (reference? attributes).toList, PlainName id := by
        intro none id mem
        refine fit.names id ?_
        rw [bodyNames, if_pos (by rw [template, none]; rfl)]
        exact mem_append_left _ mem
      obtain ⟨-, keeps, -⟩ := @grows_finishTemplate (cx.withOutput now) attributes
        ((compileNodes (cx.withOutput now) children).run e).1 plain _ standsM
      obtain ⟨same, next⟩ := mirrors_compileNodes ahead children fit.inside mirrors stands accounted (keeps.trans kept)
      rw [same]
      exact mirrors_finishTemplate next attributes _
    | false =>
      cases place : tag == "place" with
      | true =>
        rw [compileNode_place _ template place] at kept ⊢
        rw [compileNode_place _ template place]
        obtain ⟨same, next⟩ := mirrors_compileNodes ahead children fit.inside (mirrors.addSlot _) stands
          ⟨accounted.bodies, accounted.entries⟩ kept
        refine ⟨?_, next⟩
        rw [same, routeWaitingOf_singleton, routeWaiting]
      | false =>
        rw [compileNode_element _ template place] at kept ⊢
        rw [compileNode_element _ template place]
        have light := @light_startElement cx tag attributes
        have known := (@asks_startElement cx tag attributes).holds e
        obtain ⟨sameS, mirrorsS⟩ := mirrors.light light
        obtain ⟨standsS, -, -⟩ := light.grows e stands
        have accountedS := light.accounted accounted
        simp only [startElement_withOutput] at kept ⊢
        rw [sameS]
        generalize (startElement cx tag attributes).run e = start at *
        generalize ((startElement cx tag attributes).run f).2 = startF at *
        obtain ⟨-, settled, host⟩ := known
        obtain ⟨standsM, -, rootedM⟩ := @grows_compileNodes (cx.withOutput now) children fit.inside.names _ standsS
        obtain ⟨accountedM, -, awaitedM⟩ := accounts_compileNodes children [] (fit.inside.enters now) _ accountedS .nil
        have inside := @mirrors_compileNodes ahead children _ startF fit.inside mirrorsS standsS accountedS
        generalize (compileNodes (cx.withOutput now) children).run start.2 = made at *
        rw [id] at rootedM awaitedM
        obtain ⟨standsN, keepsN, -⟩ := @grows_finishElement (cx.withOutput now) start.1.1 start.1.2 made.1 _ standsM
        have apart := @look_finishElement (cx.withOutput now) start.1.1 start.1.2 made.1 made.2
        obtain ⟨-, keepsW, -⟩ := @grows_wrapIf (cx.withOutput now) (structuralDirective? attributes) _ apart _ standsN
        have keptN := keepsW.trans kept
        obtain ⟨sameM, mirrorsM⟩ := inside (keepsN.trans keptN)
        obtain ⟨sameN, mirrorsN⟩ := mirrors_finishElement ahead mirrorsM standsM accountedM rootedM awaitedM settled host keptN
        obtain ⟨sameW, mirrorsW⟩ := @mirrors_wrapIf _ _ _ _ _ cx now later mirrorsN (structuralDirective? attributes) _
        rw [sameM, sameN]
        refine ⟨?_, mirrorsW⟩
        rw [sameW, routeWaitingOf_singleton]

theorem mirrors_compileNodes (ahead : Ahead cx now later slots) : ∀ (nodes : List MarkupNode) {e f : State},
    Fit cx slots strict (bodyNamesOf nodes) (contentTagsOf nodes) → Mirrors slots final strict e f → e.Stands →
    e.Accounted (Opens slots strict) → Keeps ((compileNodes (cx.withOutput now) nodes).run e).2.bodies final →
    ((compileNodes (cx.withOutput later) nodes).run f).1 =
      routeWaitingOf slots final ((compileNodes (cx.withOutput now) nodes).run e).1 ∧
    Mirrors slots final strict ((compileNodes (cx.withOutput now) nodes).run e).2 ((compileNodes (cx.withOutput later) nodes).run f).2
  | [], e, f, _, mirrors, _, _, _ => by
    rw [compileNodes, compileNodes]
    exact ⟨rfl, mirrors⟩
  | node :: rest, e, f, fit, mirrors, stands, accounted, kept => by
    have here : Fit cx slots strict (bodyNames node) (contentTags node) :=
      fit.mono (fun _ mem => mem_append_left _ mem) fun _ mem => mem_append_left _ mem
    have there : Fit cx slots strict (bodyNamesOf rest) (contentTagsOf rest) :=
      fit.mono (fun _ mem => mem_append_right _ mem) fun _ mem => mem_append_right _ mem
    rw [compileNodes_cons] at kept ⊢
    rw [compileNodes_cons]
    obtain ⟨standsN, -, -⟩ := @grows_compileNode (cx.withOutput now) node here.names e stands
    obtain ⟨accountedN, -, -⟩ := accounts_compileNode node [] (here.enters now) e accounted .nil
    obtain ⟨-, keeps, -⟩ := @grows_compileNodes (cx.withOutput now) rest there.names _ standsN
    obtain ⟨same, next⟩ := mirrors_compileNode ahead node here mirrors stands accounted (keeps.trans kept)
    obtain ⟨same', next'⟩ := mirrors_compileNodes ahead rest there next standsN accountedN kept
    refine ⟨?_, next'⟩
    rw [same, same', routeWaitingOf_eq, routeWaitingOf_eq, routeWaitingOf_eq, map_append]

end

/-! ### Templates -/

theorem unmatched_congr {heads : List ElementHead} (same : ∀ target, Shows target heads ↔ Shows target heads') :
    unmatched owner heads = unmatched owner heads' := by
  have matched : ∀ property, (heads.filterMap (matchQuery? owner.viewQueries)).contains property =
      (heads'.filterMap (matchQuery? owner.viewQueries)).contains property := by
    have half : ∀ {some more : List ElementHead}, (∀ target, Shows target some → Shows target more) → ∀ property,
        property ∈ some.filterMap (matchQuery? owner.viewQueries) → property ∈ more.filterMap (matchQuery? owner.viewQueries) := by
      intro some more shows property mem
      obtain ⟨head, here, query⟩ := mem_filterMap.mp mem
      obtain ⟨head', there, target⟩ := shows head.target ⟨head, here, rfl⟩
      refine mem_filterMap.mpr ⟨head', there, ?_⟩
      rw [matchQuery?, target]
      exact query
    intro property
    rw [Bool.eq_iff_iff, contains_iff_mem, contains_iff_mem]
    exact ⟨half (fun target => (same target).mp) property, half (fun target => (same target).mpr) property⟩
  unfold unmatched
  simp only [matched]

def otherDiagnostics (ds : List Diagnostic) : List Diagnostic := ds.filter fun d => d.code != .queryUnresolved

theorem otherDiagnostics_unmatched (ds) (owner) (heads) :
    otherDiagnostics (ds ++ unmatched owner heads) = otherDiagnostics ds := by
  have none : otherDiagnostics (unmatched owner heads) = [] := by
    refine filter_eq_nil_iff.mpr fun d mem => ?_
    obtain ⟨q, -, rfl⟩ := mem_map.mp mem
    simp [unmatchedQuery]
  rw [otherDiagnostics, filter_append]
  exact (congrArg (otherDiagnostics ds ++ ·) none).trans (append_nil _)

theorem shown_markView (strict) (queries) (nodes) :
    shown strict (mapHeadsOf (markView queries) nodes) = mapHeadsOf (markView queries) (shown strict nodes) := by
  cases strict with
  | true => rfl
  | false =>
    change mapHeadsOf forget _ = mapHeadsOf _ (mapHeadsOf forget nodes)
    rw [mapHeadsOf_mapHeadsOf, mapHeadsOf_mapHeadsOf]
    refine congrArg (mapHeadsOf · nodes) (funext fun head => ?_)
    have same : matchQuery? queries (forget head) = matchQuery? queries head := rfl
    simp only [Function.comp, markView, same]
    split <;> rfl

structure Deferred (slots : SortedMap String (List (Option String))) (strict : Bool) (t u : CompiledTemplate) : Prop where
  element : u.element = t.element
  nodes : u.nodes = routeWaitingOf slots t.bodies t.nodes
  bodies : (u.bodies.map fun _ => shown strict) =
    t.bodies.map fun _ nodes => shown strict (routeWaitingOf slots t.bodies nodes)
  providers : u.providers = t.providers
  places : u.slots = t.slots
  pending : u.pending = t.pending.filter fun entry => (slots.get? entry.host).isNone
  others : otherDiagnostics u.diagnostics = otherDiagnostics t.diagnostics
  diagnostics : strict = true → u.diagnostics = t.diagnostics

theorem shows_heads (mirrors : Mirrors slots final true e f) (accounted : e.Accounted (Opens slots true))
    (awaited : Awaited e.pending nodes) (target) :
    Shows target (headsOf (routeWaitingOf slots final nodes) ++ f.bodies.values.flatMap headsOf) ↔
      Shows target (headsOf nodes ++ e.bodies.values.flatMap headsOf) := by
  have whole : f.bodies = e.bodies.map fun _ nodes => routeWaitingOf slots final nodes := by
    have left : (f.bodies.map fun _ => shown true) = f.bodies := SortedMap.map_id _
    rw [← left, mirrors.bodies]
    rfl
  rw [shows_append, shows_append, showsIn_routeWaiting (waitsWith_hasDefault awaited accounted.entries), shows_flatMap,
    shows_flatMap, whole, values_map]
  refine or_congr_right ?_
  have body : ∀ nodes ∈ e.bodies.values, (Shows target (headsOf (routeWaitingOf slots final nodes)) ↔ Shows target (headsOf nodes)) := by
    intro nodes mem
    obtain ⟨id, here⟩ := mem_values_iff.mp mem
    exact showsIn_routeWaiting (waitsWith_hasDefault (accounted.bodies id nodes here) accounted.entries)
  constructor
  · rintro ⟨_, mem, shows⟩
    obtain ⟨nodes, old, rfl⟩ := mem_map.mp mem
    exact ⟨nodes, old, (body nodes old).mp shows⟩
  · rintro ⟨nodes, old, shows⟩
    exact ⟨_, mem_map_of_mem old, (body nodes old).mpr shows⟩

theorem compileMarkup_deferred (ahead : Ahead cx now later slots)
    (fit : Fit cx slots strict (bodyNamesOf markup) (contentTagsOf markup)) :
    Deferred slots strict (compileMarkup (cx.withOutput now) markup) (compileMarkup (cx.withOutput later) markup) := by
  have start : State.Accounted (Opens slots strict) {} := ⟨fun _ _ found => (by cases found), fun _ mem => by cases mem⟩
  have stands : State.Stands {} := fun _ _ _ found => by cases found
  obtain ⟨accounted, -, awaited⟩ := accounts_compileNodes markup [] (fit.enters now) {} start .nil
  obtain ⟨same, mirrors⟩ := @mirrors_compileNodes slots ((compileNodes (cx.withOutput now) markup).run {}).2.bodies strict cx now later
    ahead markup {} {} fit ⟨rfl, rfl, rfl⟩ stands start (.refl _)
  unfold compileMarkup
  generalize (compileNodes (cx.withOutput now) markup).run {} = first at *
  generalize (compileNodes (cx.withOutput later) markup).run {} = second at *
  obtain ⟨nodes, e⟩ := first
  obtain ⟨nodes', f⟩ := second
  dsimp only [id] at same mirrors accounted awaited ⊢
  have rest := mirrors.same
  have faces : faceIn (e.bodies.map fun _ nodes => mapHeadsOf (markView cx.owner.viewQueries) nodes) = faceIn e.bodies := by
    refine faceIn_congr (fun id => ?_) (size_map _ _)
    rw [get?_map, Option.map_map]
    simp only [Function.comp_def, map_look_mapHeadsOf (marking_markView _)]
  rw [resolveViewQueries_eq, resolveViewQueries_eq]
  refine ⟨rfl, ?_, ?_, ?_, ?_, mirrors.pending, ?_, ?_⟩
  · dsimp only [Context.withOutput]
    rw [routeWaitingOf_congr faces, routeWaitingOf_mapHeads (marking_markView _), same]
  · dsimp only [Context.withOutput]
    rw [SortedMap.map_map, SortedMap.map_map]
    simp only [shown_markView, routeWaitingOf_congr faces, routeWaitingOf_mapHeads (marking_markView _)]
    have marked := congrArg (SortedMap.map · fun _ => mapHeadsOf (markView cx.owner.viewQueries)) mirrors.bodies
    rwa [SortedMap.map_map, SortedMap.map_map] at marked
  · rw [rest]
  · rw [rest]
  · dsimp only
    rw [otherDiagnostics_unmatched, otherDiagnostics_unmatched, rest]
  · rintro rfl
    dsimp only [Context.withOutput, CompiledTemplate.heads]
    rw [same, unmatched_congr (shows_heads mirrors accounted awaited)]
    conv => lhs; rw [rest]

end Template

end ComponentCompiler
