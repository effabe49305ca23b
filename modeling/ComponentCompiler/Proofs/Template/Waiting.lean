import ComponentCompiler.Proofs.Template.Routing
import ComponentCompiler.Proofs.Template.Steps

/-! Content that waits in a compiled template. Main statement: `accounted_compileMarkup`. -/

namespace ComponentCompiler

open List

namespace TemplateNode

variable {P : ElementHead → Prop}

theorem mapHeadsOf_eq_self (same : ∀ h, f h = h) (nodes) : mapHeadsOf f nodes = nodes := by
  induction nodes using forestInduction with
  | nil => rfl
  | element head children projected rest inside placed later =>
    have placed : mapHeadsProjected f projected = projected := by
      rw [mapHeadsProjected_eq]
      exact (map_congr_left fun p mem => congrArg (Projection.mk p.slot) (placed p mem)).trans (List.map_id _)
    rw [mapHeadsOf, mapHeads, same, inside, placed, later]
  | text | fragment | placeholder | slot => simp only [mapHeadsOf, mapHeads, *]

theorem marking_id : Marking id := ⟨fun _ => rfl, fun _ => rfl, fun _ => rfl, fun _ => rfl⟩

/-! ### Elements whose content waits -/

mutual

def WaitsWith (P : ElementHead → Prop) : TemplateNode → Prop
  | .element head children projected =>
    (head.routed = false → projected = [] ∧ P head) ∧ WaitsWithIn P children ∧ WaitsWithAmong P projected
  | .text _ => True
  | .fragment children => WaitsWithIn P children
  | .placeholder _ => True
  | .slot _ fallback => WaitsWithIn P fallback

def WaitsWithIn (P : ElementHead → Prop) : List TemplateNode → Prop
  | [] => True
  | node :: rest => WaitsWith P node ∧ WaitsWithIn P rest

def WaitsWithAmong (P : ElementHead → Prop) : List (Projection TemplateNode) → Prop
  | [] => True
  | ⟨_, nodes⟩ :: rest => WaitsWithIn P nodes ∧ WaitsWithAmong P rest

end

theorem waitsWithIn_iff : WaitsWithIn P nodes ↔ ∀ node ∈ nodes, WaitsWith P node := by
  induction nodes with
  | nil => simp [WaitsWithIn]
  | cons node rest ih => rw [WaitsWithIn, ih, forall_mem_cons]

theorem waitsWithAmong_iff : WaitsWithAmong P projected ↔ ∀ p ∈ projected, WaitsWithIn P p.nodes := by
  induction projected with
  | nil => simp [WaitsWithAmong]
  | cons p rest ih => rw [WaitsWithAmong, ih, forall_mem_cons]

theorem WaitsWithIn.heads : WaitsWithIn P nodes → ∀ head ∈ headsOf nodes, head.routed = false → P head := by
  induction nodes using forestInduction with
  | nil => exact fun _ h mem => by cases mem
  | element head children projected rest inside placed later =>
    rintro ⟨waits, behind⟩ h mem routed
    rw [WaitsWith] at waits
    simp only [headsOf, TemplateNode.heads, headsProjected_eq, mem_append, mem_cons, mem_flatMap] at mem
    rcases mem with (rfl | mem | ⟨p, listed, mem⟩) | mem
    · exact (waits.1 routed).2
    · exact inside waits.2.1 h mem routed
    · exact placed p listed (waitsWithAmong_iff.mp waits.2.2 p listed) h mem routed
    · exact later behind h mem routed
  | text | fragment | placeholder | slot =>
    simp only [WaitsWithIn, WaitsWith, headsOf, TemplateNode.heads, mem_append, not_mem_nil, false_or]
    grind

theorem WaitsWithIn.mapHeads (marking : Marking f) (kept : ∀ head, P head → Q (f head)) :
    WaitsWithIn P nodes → WaitsWithIn Q (mapHeadsOf f nodes) := by
  induction nodes using forestInduction with
  | nil => exact fun _ => trivial
  | element head children projected rest inside placed later =>
    rintro ⟨waits, behind⟩
    rw [WaitsWith] at waits
    rw [mapHeadsOf, TemplateNode.mapHeads, WaitsWithIn, WaitsWith, marking.routed, waitsWithAmong_iff, mapHeadsProjected_eq]
    refine ⟨⟨fun routed => ?_, inside waits.2.1, ?_⟩, later behind⟩
    · obtain ⟨none, holds⟩ := waits.1 routed
      exact ⟨by rw [none]; rfl, kept head holds⟩
    · exact forall_mem_map.mpr fun p mem => placed p mem (waitsWithAmong_iff.mp waits.2.2 p mem)
  | text | fragment | placeholder | slot =>
    simp only [mapHeadsOf, TemplateNode.mapHeads, WaitsWithIn, WaitsWith]
    tauto

theorem WaitsWithIn.mono (waits : WaitsWithIn P nodes) (weaker : ∀ head, P head → Q head) : WaitsWithIn Q nodes := by
  have marked := waits.mapHeads marking_id weaker
  rwa [mapHeadsOf_eq_self (f := id) fun _ => rfl] at marked

end TemplateNode

open TemplateNode

/-! ### Content queries -/

theorem markContent_nil (head) : markContent [] head = head := by
  unfold markContent
  split
  · rename_i unmarked
    have none : head.contentQuery = none := by simpa using unmarked
    have same : matchQuery? [] head = head.contentQuery := none.symm
    rw [same]
  · rfl

/-- The bodies that content refers to, itself or through others, if there is a query to mark them for. -/
def referred (queries : List Query) (content : List TemplateNode) (bodies : TemplateBodies) : SortedSet String :=
  if queries.isEmpty then ∅
  else
    let references := bodyReferences content
    reachableBodies bodies (references.length + (bodies.values.flatMap bodyReferences).length + 1) references ∅

def markedBodies (queries : List Query) (content : List TemplateNode) (bodies : TemplateBodies) : TemplateBodies :=
  bodies.map fun id nodes =>
    if (referred queries content bodies).contains id then mapHeadsOf (markContent queries) nodes else nodes

theorem markQueried_eq (queries) (content) (bodies) :
    markQueried queries content bodies =
      (mapHeadsOf (markContent queries) content, markedBodies queries content bodies) := by
  unfold markQueried markedBodies referred
  split
  · rename_i none
    rw [List.isEmpty_iff.mp none, mapHeadsOf_eq_self markContent_nil]
    have same : ∀ id (nodes : List TemplateNode),
        (if (∅ : SortedSet String).contains id = true then mapHeadsOf (markContent []) nodes else nodes) = nodes :=
      fun _ _ => rfl
    simp only [same, SortedMap.map_id]
  · rfl

theorem get?_markedBodies {id : String} (here : (markedBodies queries content bodies).get? id = some nodes) :
    ∃ before, bodies.get? id = some before ∧ (nodes = mapHeadsOf (markContent queries) before ∨ nodes = before) := by
  rw [markedBodies, SortedMap.get?_map] at here
  obtain ⟨before, found, rfl⟩ := Option.map_eq_some_iff.mp here
  refine ⟨before, found, ?_⟩
  split
  · exact .inl rfl
  · exact .inr rfl

/-! ### What is pending -/

def PendingProjection.IsFor (entry : PendingProjection) (head : ElementHead) : Prop :=
  head.component = some entry.host ∧ head.tag = entry.hostTag

def withEntry (pending : List PendingProjection) (entry : PendingProjection) : List PendingProjection :=
  if pending.contains entry then pending else pending ++ [entry]

theorem mem_withEntry : other ∈ withEntry pending entry ↔ other ∈ pending ∨ other = entry := by
  unfold withEntry
  split
  · rename_i listed
    constructor
    · exact .inl
    · rintro (old | rfl)
      · exact old
      · exact contains_iff_mem.mp listed
  · rw [mem_append, mem_singleton]

theorem filter_withEntry (keep : PendingProjection → Bool) (pending) (entry : PendingProjection) :
    (withEntry pending entry).filter keep =
      if keep entry then withEntry (pending.filter keep) entry else pending.filter keep := by
  have listed : keep entry → (pending.filter keep).contains entry = pending.contains entry := by
    intro kept
    rw [Bool.eq_iff_iff]
    simp [kept]
  unfold withEntry
  by_cases kept : keep entry
  · rw [if_pos kept, listed kept]
    split
    · rfl
    · rw [filter_append, filter_cons_of_pos kept, filter_nil]
  · rw [if_neg kept]
    split
    · rfl
    · rw [filter_append, filter_cons_of_neg kept, filter_nil, append_nil]

def Awaited (pending : List PendingProjection) (nodes : List TemplateNode) : Prop :=
  WaitsWithIn (fun head => ∃ entry ∈ pending, entry.IsFor head) nodes

namespace Awaited

theorem nil : Awaited pending [] := trivial

theorem append (first : Awaited pending nodes) (second : Awaited pending others) : Awaited pending (nodes ++ others) := by
  unfold Awaited at *
  rw [waitsWithIn_iff] at *
  exact forall_mem_append.mpr ⟨first, second⟩

theorem left (both : Awaited pending (nodes ++ others)) : Awaited pending nodes := by
  unfold Awaited at *
  rw [waitsWithIn_iff] at *
  exact (forall_mem_append.mp both).1

theorem right (both : Awaited pending (nodes ++ others)) : Awaited pending others := by
  unfold Awaited at *
  rw [waitsWithIn_iff] at *
  exact (forall_mem_append.mp both).2

theorem mono (awaited : Awaited pending nodes) (grown : pending ⊆ more) : Awaited more nodes :=
  WaitsWithIn.mono awaited fun _ entered => by
    obtain ⟨entry, listed, here⟩ := entered
    exact ⟨entry, grown listed, here⟩

theorem mapHeads (awaited : Awaited pending nodes) (marking : Marking f) : Awaited pending (mapHeadsOf f nodes) :=
  WaitsWithIn.mapHeads marking (fun head entered => by
    obtain ⟨entry, listed, component, tag⟩ := entered
    refine ⟨entry, listed, (marking.component head).trans component, ?_⟩
    exact (congrArg MatchTarget.tag (marking.target head)).trans tag) awaited

theorem element {head : ElementHead} (own : head.routed = false → projected = [] ∧ ∃ entry ∈ pending, entry.IsFor head)
    (inside : Awaited pending children) (placed : ∀ p ∈ projected, Awaited pending p.nodes) :
    Awaited pending [.element head children projected] := by
  rw [Awaited, WaitsWithIn, WaitsWith]
  exact ⟨⟨own, inside, waitsWithAmong_iff.mpr placed⟩, trivial⟩

theorem routeContent (awaited : Awaited pending nodes) :
    ∀ p ∈ routeContent slots bodies nodes, Awaited pending p.nodes := by
  intro p placed
  exact waitsWithIn_iff.mpr fun node inside => waitsWithIn_iff.mp awaited node (mem_routeContent placed inside)

end Awaited

namespace MarkupNode

mutual

def contentTags : MarkupNode → List String
  | .text _ => []
  | .element tag _ children => if children.isEmpty then [] else tag :: contentTagsOf children

def contentTagsOf : List MarkupNode → List String
  | [] => []
  | node :: rest => contentTags node ++ contentTagsOf rest

end

theorem contentTags_element (some : children ≠ []) :
    contentTags (.element tag attributes children) = tag :: contentTagsOf children := by
  rw [contentTags, if_neg]
  rwa [List.isEmpty_iff]

end MarkupNode

open MarkupNode

namespace Template

theorem projectContent_run (cx) (head) (host) (content) (s) :
    (projectContent cx head host content).run s =
      let marked := mapHeadsOf (markContent host.contentQueries) content
      let s' := { s with bodies := markedBodies host.contentQueries content s.bodies }
      match cx.registry.slots? host.name with
      | some slots => (.element head [] (routeContent slots s'.bodies marked), s')
      | none =>
        if host.isLocal then
          (.element { head with routed := false } marked [],
            ((addPending ⟨head.tag, host.name, cx.owner.name, cx.owner.file⟩).run s').2)
        else (.element head [] [⟨none, marked⟩], s') := by
  have marked := markQueried_eq host.contentQueries content s.bodies
  have nodes : mapHeadsOf (markContent host.contentQueries) content = (markQueried host.contentQueries content s.bodies).1 := by
    rw [marked]
  have bodies : markedBodies host.contentQueries content s.bodies = (markQueried host.contentQueries content s.bodies).2 := by
    rw [marked]
  dsimp only
  rw [nodes, bodies]
  unfold projectContent
  cases cx.registry.slots? host.name with
  | some slots => rfl
  | none => cases host.isLocal <;> rfl

theorem addPending_run (entry : PendingProjection) (s) :
    ((addPending entry).run s).2 = { s with pending := withEntry s.pending entry } := by
  change (if s.pending.contains entry then s else _) = _
  unfold withEntry
  split <;> rfl

/-- What is pending has the property and covers all that waits in bodies. -/
structure State.Accounted (P : PendingProjection → Prop) (s : State) : Prop where
  bodies : ∀ id nodes, s.bodies.get? id = some nodes → Awaited s.pending nodes
  entries : ∀ entry ∈ s.pending, P entry

/-- A step that, given content, leaves nothing waiting without an entry, and makes only entries with the property. -/
def Accounts {α : Type} (P : PendingProjection → Prop) (given : List TemplateNode) (x : Compile α)
    (nodes : α → List TemplateNode) : Prop :=
  ∀ s : State, s.Accounted P → Awaited s.pending given →
    (x.run s).2.Accounted P ∧ s.pending ⊆ (x.run s).2.pending ∧ Awaited (x.run s).2.pending (nodes (x.run s).1)

variable {α β : Type} {cx : Context} {P : PendingProjection → Prop}

theorem accounts_pure (here : ∀ pending, Awaited pending given → Awaited pending (nodes a)) :
    Accounts P given (pure a) nodes := fun s before awaited => ⟨before, Subset.refl _, here s.pending awaited⟩

theorem Accounts.bind (first : Accounts P given x nodes) (next : ∀ a, Accounts P (given ++ nodes a) (f a) later) :
    Accounts P given (x >>= f) later := by
  intro s before awaited
  obtain ⟨here, grown, made⟩ := first s before awaited
  obtain ⟨there, grown', made'⟩ := next _ _ here ((awaited.mono grown).append made)
  exact ⟨there, fun _ mem => grown' (grown mem), made'⟩

theorem Light.accounted (light : Light x) {s : State} (before : s.Accounted P) : (x.run s).2.Accounted P := by
  have same := light.run s
  have bodies : (x.run s).2.bodies = s.bodies := by rw [same]
  have pending : (x.run s).2.pending = s.pending := by rw [same]
  exact ⟨by rw [bodies, pending]; exact before.bodies, by rw [pending]; exact before.entries⟩

theorem Accounts.after {f : α → Compile β} {Q : α → Prop} (light : Light x) (known : ∀ s, Q (x.run s).1)
    (next : ∀ a, Q a → Accounts P given (f a) later) : Accounts P given (x >>= f) later := by
  intro s before awaited
  have pending : (x.run s).2.pending = s.pending := by rw [light.run s]
  obtain ⟨there, grown, made⟩ := next _ (known s) _ (light.accounted before) (pending ▸ awaited)
  exact ⟨there, pending ▸ grown, made⟩

/-! ### Steps -/

theorem accounts_addBody (id) (nodes) (here : ∀ pending, Awaited pending given → Awaited pending nodes) :
    Accounts P given (addBody id nodes) fun _ => [] := by
  refine fun s before awaited => ⟨⟨?_, before.entries⟩, Subset.refl _, Awaited.nil⟩
  intro other found mem
  rw [show ((addBody id nodes).run s).2.bodies = s.bodies.insert id nodes from rfl, SortedMap.get?_insert] at mem
  split at mem
  · cases mem
    exact here s.pending awaited
  · exact before.bodies other found mem

theorem accounts_wrap (directive value) (node)
    (here : ∀ pending, Awaited pending given → Awaited pending [node]) :
    Accounts P given (wrap cx directive value node) ([·]) := by
  rw [wrap_eq]
  have fresh : Accounts P given (freshBody directive) fun _ => [] := fun s before _ =>
    ⟨⟨before.bodies, before.entries⟩, Subset.refl _, Awaited.nil⟩
  refine fresh.bind fun id => ?_
  refine .after (Q := fun _ => True) (@asks_filled cx [] directive value id).light (fun _ => trivial) fun p _ => ?_
  refine (accounts_addBody id [node] fun _ both => here _ both.left).bind fun _ => ?_
  exact accounts_pure fun _ _ => ⟨trivial, trivial⟩

theorem accounts_wrapIf (directive) (node)
    (here : ∀ pending, Awaited pending given → Awaited pending [node]) :
    Accounts P given (wrapIf cx directive node) ([·]) := by
  unfold wrapIf
  split
  · exact accounts_wrap _ _ node here
  · exact accounts_pure here

theorem accounts_finishTemplate (attributes) (children)
    (here : ∀ pending, Awaited pending given → Awaited pending children) :
    Accounts P given (finishTemplate cx attributes children) id := by
  have fragment : ∀ pending, Awaited pending given → Awaited pending [.fragment children] := by
    intro pending awaited
    rw [Awaited, WaitsWithIn, WaitsWith]
    exact ⟨here pending awaited, trivial⟩
  rw [finishTemplate_eq]
  split
  · exact (accounts_wrap _ _ _ fragment).bind fun _ => accounts_pure fun _ both => both.right
  · exact (accounts_addBody _ _ here).bind fun _ => accounts_pure fun _ _ => Awaited.nil
  · exact accounts_pure fragment

theorem accounts_projectContent (head : ElementHead) (host : Definition) (content)
    (settled : head.routed) (component : head.component = some host.name)
    (entered : P ⟨head.tag, host.name, cx.owner.name, cx.owner.file⟩)
    (here : ∀ pending, Awaited pending given → Awaited pending content) :
    Accounts P given (projectContent cx head host content) ([·]) := by
  intro s before awaited
  have marked := (here s.pending awaited).mapHeads (marking_markContent host.contentQueries)
  have bodies : ∀ id nodes, (markedBodies host.contentQueries content s.bodies).get? id = some nodes →
      Awaited s.pending nodes := by
    intro id nodes found
    obtain ⟨old, known, rfl | rfl⟩ := get?_markedBodies found
    · exact (before.bodies id old known).mapHeads (marking_markContent _)
    · exact before.bodies id nodes known
  have routed : ∀ (P : Prop), head.routed = false → P := fun _ waits => by
    rw [settled] at waits
    cases waits
  rw [projectContent_run]
  dsimp only
  split
  · exact ⟨⟨bodies, before.entries⟩, Subset.refl _, .element (routed _) .nil marked.routeContent⟩
  · split
    · rw [addPending_run]
      dsimp only
      have grown : s.pending ⊆ withEntry s.pending ⟨head.tag, host.name, cx.owner.name, cx.owner.file⟩ :=
        fun _ mem => mem_withEntry.mpr (.inl mem)
      refine ⟨⟨fun id nodes found => (bodies id nodes found).mono grown, fun entry mem => ?_⟩, grown, ?_⟩
      · rcases mem_withEntry.mp mem with old | rfl
        · exact before.entries entry old
        · exact entered
      · refine .element (fun _ => ⟨rfl, _, mem_withEntry.mpr (.inr rfl), component, rfl⟩) (marked.mono grown) ?_
        exact fun _ mem => by cases mem
    · refine ⟨⟨bodies, before.entries⟩, Subset.refl _, .element (routed _) .nil fun p mem => ?_⟩
      rw [mem_singleton.mp mem]
      exact marked

theorem accounts_finishElement (head : ElementHead) (host) (children)
    (settled : head.routed) (component : ∀ h, host = some h → head.component = some h.name)
    (entered : children ≠ [] → ∀ h, host = some h → P ⟨head.tag, h.name, cx.owner.name, cx.owner.file⟩)
    (here : ∀ pending, Awaited pending given → Awaited pending children) :
    Accounts P given (finishElement cx head host children) ([·]) := by
  have own : ∀ (P : Prop), head.routed = false → P := fun _ waits => by
    rw [settled] at waits
    cases waits
  unfold finishElement
  split
  · split
    · exact accounts_pure fun _ _ => .element (own _) .nil fun _ mem => by cases mem
    · rename_i some
      rw [List.isEmpty_iff] at some
      exact accounts_projectContent head _ children settled (component _ rfl) (entered some _ rfl) here
  · exact accounts_pure fun _ awaited => .element (own _) (here _ awaited) fun _ mem => by cases mem

/-! ### Runs -/

/-- The entries for content of components have the property, as far as content is written in their tags. -/
def Enters (cx : Context) (P : PendingProjection → Prop) (tags : List String) : Prop :=
  ∀ tag ∈ tags, ∀ host, cx.registry.findElement? tag = some host → P ⟨tag, host.name, cx.owner.name, cx.owner.file⟩

mutual

theorem accounts_compileNode : ∀ (node : MarkupNode) (given : List TemplateNode), Enters cx P (contentTags node) →
    Accounts P given (compileNode cx node) id
  | .text value, given, _ => by
    rw [compileNode]
    refine .after (Q := fun _ => True) (light_interpolate value true) (fun _ => trivial) fun _ _ => ?_
    exact accounts_pure fun _ _ => ⟨trivial, trivial⟩
  | .element tag attributes children, given, enters => by
    have inside : Enters cx P (contentTagsOf children) := by
      intro inner mem
      by_cases none : children = []
      · rw [none] at mem
        cases mem
      · exact enters inner (contentTags_element none ▸ mem_cons_of_mem _ mem)
    rw [compileNode]
    split
    · exact (accounts_compileNodes children given inside).bind fun made =>
        accounts_finishTemplate attributes made fun _ both => both.right
    · split
      · have slot : Accounts P given (addSlot (slotSelector? attributes)) fun _ => [] := fun s before _ =>
          ⟨⟨before.bodies, before.entries⟩, Subset.refl _, Awaited.nil⟩
        refine slot.bind fun _ => (accounts_compileNodes children _ inside).bind fun made => accounts_pure ?_
        intro pending both
        rw [id, Awaited, WaitsWithIn, WaitsWith]
        exact ⟨both.right, trivial⟩
      · refine .after (Q := fun start => start.1.tag = tag ∧ start.1.routed ∧ ∀ host, start.2 = some host →
          start.1.component = some host.name ∧ cx.registry.findElement? tag = some host)
          (light_startElement tag attributes) (asks_startElement tag attributes).holds fun start known => ?_
        obtain ⟨same, routed, host⟩ := known
        have wrapped : ∀ made, (made ≠ [] → children ≠ []) → Accounts P (given ++ made) (do
            let node ← finishElement cx start.1 start.2 made
            return [← wrapIf cx (structuralDirective? attributes) node]) id := by
          intro made content
          have entered : made ≠ [] → ∀ h, start.2 = some h →
              P ⟨start.1.tag, h.name, cx.owner.name, cx.owner.file⟩ := by
            intro some h here
            rw [same]
            exact enters tag (contentTags_element (content some) ▸ mem_cons_self) h (host h here).2
          refine (accounts_finishElement start.1 start.2 made routed (fun h here => (host h here).1) entered
            fun _ both => both.right).bind fun node => ?_
          refine (accounts_wrapIf (structuralDirective? attributes) node fun _ both => both.right).bind fun _ => ?_
          exact accounts_pure fun _ both => both.right
        by_cases none : children = []
        · subst none
          intro s before awaited
          exact wrapped [] (fun absurd => (absurd rfl).elim) s before (awaited.append .nil)
        · exact (accounts_compileNodes children given inside).bind fun made => wrapped made fun _ => none

theorem accounts_compileNodes : ∀ (nodes : List MarkupNode) (given : List TemplateNode),
    Enters cx P (contentTagsOf nodes) → Accounts P given (compileNodes cx nodes) id
  | [], given, _ => by
    rw [compileNodes]
    exact accounts_pure fun _ _ => Awaited.nil
  | node :: rest, given, enters => by
    rw [compileNodes]
    refine (accounts_compileNode node given fun tag mem => ?_).bind fun first =>
      (accounts_compileNodes rest _ fun tag mem => ?_).bind fun later => ?_
    · exact enters tag (mem_append_left _ mem)
    · exact enters tag (mem_append_right _ mem)
    · exact accounts_pure fun _ both => both.left.right.append both.right

end

end Template

/-! ### Templates -/

def CompiledTemplate.heads (t : CompiledTemplate) : List ElementHead :=
  headsOf t.nodes ++ t.bodies.values.flatMap headsOf

structure CompiledTemplate.Accounted (P : PendingProjection → Prop) (t : CompiledTemplate) : Prop where
  nodes : Awaited t.pending t.nodes
  bodies : ∀ id nodes, t.bodies.get? id = some nodes → Awaited t.pending nodes
  entries : ∀ entry ∈ t.pending, P entry
  flag : t.hasPending = !t.pending.isEmpty

namespace Template

theorem markView_nil (head) : markView [] head = head := rfl

def unmatched (owner : Definition) (heads : List ElementHead) : List Diagnostic :=
  (owner.viewQueries.filter fun q =>
    !(heads.filterMap (matchQuery? owner.viewQueries)).contains q.property).map (unmatchedQuery owner)

theorem resolveViewQueries_eq (owner) (t) :
    resolveViewQueries owner t = { t with
      nodes := mapHeadsOf (markView owner.viewQueries) t.nodes
      bodies := t.bodies.map fun _ nodes => mapHeadsOf (markView owner.viewQueries) nodes
      diagnostics := t.diagnostics ++ unmatched owner t.heads } := by
  unfold resolveViewQueries unmatched
  dsimp only
  split
  · rename_i none
    rw [List.isEmpty_iff.mp none]
    simp only [mapHeadsOf_eq_self markView_nil, SortedMap.map_id, filter_nil, map_nil, append_nil]
  · rfl

theorem element_compileMarkup (cx) (markup) :
    (compileMarkup cx markup).element = cx.owner.name :=
  congrArg CompiledTemplate.element (resolveViewQueries_eq cx.owner _)

theorem accounted_resolveViewQueries {t : CompiledTemplate} (before : t.Accounted P) :
    (resolveViewQueries owner t).Accounted P := by
  rw [resolveViewQueries_eq]
  refine ⟨before.nodes.mapHeads (marking_markView _), ?_, before.entries, before.flag⟩
  intro id nodes found
  rw [SortedMap.get?_map] at found
  obtain ⟨old, known, rfl⟩ := Option.map_eq_some_iff.mp found
  exact (before.bodies id old known).mapHeads (marking_markView _)

theorem accounted_compileMarkup (enters : Enters cx P (contentTagsOf markup)) :
    (compileMarkup cx markup).Accounted P := by
  have start : State.Accounted P {} := ⟨fun _ _ found => (by cases found), fun _ mem => by cases mem⟩
  obtain ⟨state, -, nodes⟩ := accounts_compileNodes markup [] enters {} start .nil
  exact accounted_resolveViewQueries ⟨nodes, state.bodies, state.entries, rfl⟩

end Template

end ComponentCompiler
