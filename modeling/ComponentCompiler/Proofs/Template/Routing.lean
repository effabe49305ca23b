import ComponentCompiler.Proofs.Collection.SortedMap
import ComponentCompiler.Template.Projection
import Mathlib.Tactic.Tauto

/-!
Routing of content that has waited. A node is looked at only from outside: at the target of an
element, and at the body of a placeholder.
-/

namespace ComponentCompiler

open Option

variable {f : TemplateNode → TemplateNode} {bodies bodies' : TemplateBodies} {content : List TemplateNode}
  {slots : List (Option String)}

namespace TemplateNode

/-! ### Walks over lists -/

theorem mapHeadsOf_eq (f : ElementHead → ElementHead) (nodes) :
    mapHeadsOf f nodes = nodes.map (mapHeads f) := by
  induction nodes with
  | nil => rfl
  | cons node rest ih => rw [mapHeadsOf, ih, List.map_cons]

theorem mapHeadsProjected_eq (f : ElementHead → ElementHead) (projected) :
    mapHeadsProjected f projected = projected.map fun p => ⟨p.slot, mapHeadsOf f p.nodes⟩ := by
  induction projected with
  | nil => rfl
  | cons p rest ih => rw [mapHeadsProjected, ih, List.map_cons]

theorem headsOf_eq (nodes) : headsOf nodes = nodes.flatMap heads := by
  induction nodes with
  | nil => rfl
  | cons node rest ih => rw [headsOf, ih, List.flatMap_cons]

theorem headsProjected_eq (projected) :
    headsProjected projected = projected.flatMap fun p => headsOf p.nodes := by
  induction projected with
  | nil => rfl
  | cons p rest ih => rw [headsProjected, ih, List.flatMap_cons]

theorem placeholdersOf_eq (nodes) : placeholdersOf nodes = nodes.flatMap placeholders := by
  induction nodes with
  | nil => rfl
  | cons node rest ih => rw [placeholdersOf, ih, List.flatMap_cons]

theorem placeholdersProjected_eq (projected) :
    placeholdersProjected projected = projected.flatMap fun p => placeholdersOf p.nodes := by
  induction projected with
  | nil => rfl
  | cons p rest ih => rw [placeholdersProjected, ih, List.flatMap_cons]

section

variable (slots : SortedMap String (List (Option String))) (bodies : TemplateBodies)

theorem routeWaitingOf_eq (nodes) :
    routeWaitingOf slots bodies nodes = nodes.map (routeWaiting slots bodies) := by
  induction nodes with
  | nil => rfl
  | cons node rest ih => rw [routeWaitingOf, ih, List.map_cons]

theorem routeWaitingProjected_eq (projected) :
    routeWaitingProjected slots bodies projected = projected.map fun p => ⟨p.slot, routeWaitingOf slots bodies p.nodes⟩ := by
  induction projected with
  | nil => rfl
  | cons p rest ih => rw [routeWaitingProjected, ih, List.map_cons]

end

/-- Induction over forests: the nodes inside the first one and those after it. -/
@[elab_as_elim]
theorem forestInduction {P : List TemplateNode → Prop} (nodes) (nil : P [])
    (element : ∀ head children projected rest, P children → (∀ p ∈ projected, P p.nodes) → P rest →
      P (.element head children projected :: rest))
    (text : ∀ parts rest, P rest → P (.text parts :: rest))
    (fragment : ∀ children rest, P children → P rest → P (.fragment children :: rest))
    (placeholder : ∀ p rest, P rest → P (.placeholder p :: rest))
    (slot : ∀ selector fallback rest, P fallback → P rest → P (.slot selector fallback :: rest)) : P nodes :=
  @TemplateNode.rec_1 (fun node => ∀ rest, P rest → P (node :: rest)) P (fun projected => ∀ p ∈ projected, P p.nodes) (fun p => P p.nodes)
    (fun head children projected inside placed rest => element head children projected rest inside placed) text
    (fun children inside rest => fragment children rest inside) placeholder
    (fun selector fallback inside rest => slot selector fallback rest inside) nil (fun _ rest first => first rest)
    (fun _ mem => by cases mem) (fun _ _ first rest => List.forall_mem_cons.mpr ⟨first, rest⟩) (fun _ _ all => all) nodes

/-! ### Looks -/

inductive Look where
  | element (target : MatchTarget)
  | placeholder (template : String)
  | other

def look : TemplateNode → Look
  | .element head _ _ => .element head.target
  | .placeholder p => .placeholder p.template
  | _ => .other

end TemplateNode

open TemplateNode

def faceIn (bodies : TemplateBodies) (id : String) : Option MatchTarget :=
  ((bodies.get? id).bind (firstElement? bodies (bodies.size + 1))).map (·.target)

def TemplateNode.Look.face (faces : String → Option MatchTarget) : Look → Option MatchTarget
  | .element target => some target
  | .placeholder id => faces id
  | .other => none

def targetAccepted (target : MatchTarget) : Option String → Bool
  | some selector => (Selector.listOfText selector).any (·.selects target)
  | none => false

def slotFor? (slots : List (Option String)) (target : Option MatchTarget) : Option Nat :=
  (target.bind fun target => slots.findIdx? (targetAccepted target)).or (slots.findIdx? (·.isNone))

theorem slotIndex?_eq (slots) (bodies) (node) :
    slotIndex? slots bodies node = slotFor? slots (node.look.face (faceIn bodies)) := by
  have accepts : ∀ head, slotAccepts head = targetAccepted head.target := fun head => by
    funext slot
    cases slot <;> rfl
  unfold slotIndex? slotFor?
  cases node with
  | element head children projected => simp [routingHead?, look, Look.face, accepts]
  | placeholder p =>
    simp only [routingHead?, look, Look.face, faceIn, accepts]
    cases (bodies.get? p.template).bind (firstElement? bodies (bodies.size + 1)) <;> rfl
  | text | fragment | slot => rfl

def bucket (index : TemplateNode → Option Nat) (content : List TemplateNode) (slot : Option String × Nat) :
    Option (Projection TemplateNode) :=
  let nodes := content.filter (index · == some slot.2)
  if nodes.isEmpty then none else some ⟨slot.1, nodes⟩

theorem routeContent_eq (slots) (bodies) (content) :
    routeContent slots bodies content =
      slots.zipIdx.filterMap (bucket (fun node => slotFor? slots (node.look.face (faceIn bodies))) content) := by
  unfold routeContent
  refine congrArg (slots.zipIdx.filterMap ·) (funext fun slot => ?_)
  have same : ((content.map fun node => (slotIndex? slots bodies node, node)).filter fun e => e.1 == some slot.2).map (·.2) =
      content.filter fun node => slotFor? slots (node.look.face (faceIn bodies)) == some slot.2 := by
    rw [List.filter_map, List.map_map]
    simp [Function.comp_def, slotIndex?_eq]
  dsimp only [bucket]
  rw [← same]
  cases (content.map fun node => (slotIndex? slots bodies node, node)).filter fun e => e.1 == some slot.2 <;> rfl

theorem bucket_map (same : ∀ node, index (f node) = index node) (content : List TemplateNode)
    (slot) :
    bucket index (content.map f) slot = (bucket index content slot).map fun p => ⟨p.slot, p.nodes.map f⟩ := by
  unfold bucket
  simp only [List.filter_map, Function.comp_def, same, List.isEmpty_map]
  split <;> rfl

theorem routeContent_map (same : ∀ node, (f node).look = node.look) (slots)
    (bodies) (content : List TemplateNode) :
    routeContent slots bodies (content.map f) =
      (routeContent slots bodies content).map fun p => ⟨p.slot, p.nodes.map f⟩ := by
  rw [routeContent_eq, routeContent_eq, List.map_filterMap]
  refine congrArg (slots.zipIdx.filterMap ·) (funext fun slot => ?_)
  exact bucket_map (fun node => by rw [same]) content slot

theorem routeContent_congr (same : ∀ node ∈ content, node.look.face (faceIn bodies) = node.look.face (faceIn bodies'))
    (slots) : routeContent slots bodies content = routeContent slots bodies' content := by
  rw [routeContent_eq, routeContent_eq]
  refine congrArg (slots.zipIdx.filterMap ·) (funext fun slot => ?_)
  have kept : (content.filter fun node => slotFor? slots (node.look.face (faceIn bodies)) == some slot.2) =
      content.filter fun node => slotFor? slots (node.look.face (faceIn bodies')) == some slot.2 :=
    List.filter_congr fun node mem => by rw [same node mem]
  simp only [bucket, kept]

theorem mem_routeContent (mem : p ∈ routeContent slots bodies content) (inside : node ∈ p.nodes) :
    node ∈ content := by
  rw [routeContent_eq] at mem
  obtain ⟨slot, -, here⟩ := List.mem_filterMap.mp mem
  unfold bucket at here
  dsimp only at here
  split at here
  · cases here
  · cases here
    exact (List.mem_filter.mp inside).1

theorem exists_mem_routeContent (default : none ∈ slots) (bodies) (mem : node ∈ content) :
    ∃ p ∈ routeContent slots bodies content, node ∈ p.nodes := by
  obtain ⟨i, index⟩ : ∃ i, slotFor? slots (node.look.face (faceIn bodies)) = some i := by
    refine isSome_iff_exists.mp ?_
    have some : (slots.findIdx? (·.isNone)).isSome := by
      rw [List.findIdx?_isSome, List.any_eq_true]
      exact ⟨none, default, rfl⟩
    unfold slotFor?
    rw [isSome_or, some, Bool.or_true]
  have inside : i < slots.length := by
    unfold slotFor? at index
    rcases or_eq_some_iff.mp index with named | ⟨-, last⟩
    · obtain ⟨target, -, found⟩ := bind_eq_some_iff.mp named
      exact (List.findIdx?_eq_some_iff_findIdx_eq.mp found).1
    · exact (List.findIdx?_eq_some_iff_findIdx_eq.mp last).1
  rw [routeContent_eq]
  have placed : node ∈ content.filter fun node => slotFor? slots (node.look.face (faceIn bodies)) == some i :=
    List.mem_filter.mpr ⟨mem, by simp [index]⟩
  refine ⟨⟨slots[i], _⟩, List.mem_filterMap.mpr ⟨(slots[i], i), ?_, ?_⟩, placed⟩
  · exact List.mem_zipIdx_iff_getElem?.mpr (List.getElem?_eq_getElem inside)
  · have some : (content.filter fun node => slotFor? slots (node.look.face (faceIn bodies)) == some i).isEmpty = false := by
      rw [List.isEmpty_eq_false_iff]
      exact List.ne_nil_of_mem placed
    simp [bucket, some]

/-! ### Faces -/

theorem firstElement?_congr (same : ∀ id, (bodies.get? id).map (·.map look) = (bodies'.get? id).map (·.map look))
    (fuel) :
    ∀ {nodes nodes' : List TemplateNode}, nodes.map look = nodes'.map look →
      (firstElement? bodies fuel nodes).map (·.target) = (firstElement? bodies' fuel nodes').map (·.target) := by
  induction fuel with
  | zero => exact fun _ => rfl
  | succ fuel ih =>
    have inside : ∀ id, ((bodies.get? id).bind (firstElement? bodies fuel)).map (·.target) =
        ((bodies'.get? id).bind (firstElement? bodies' fuel)).map (·.target) := by
      intro id
      have here := same id
      cases found : bodies.get? id with
      | none =>
        rw [found] at here
        rw [map_eq_none_iff.mp here.symm]
        rfl
      | some body =>
        rw [found] at here
        obtain ⟨body', found', looks⟩ := map_eq_some_iff.mp here.symm
        rw [found']
        exact ih looks.symm
    intro nodes
    induction nodes with
    | nil =>
      intro nodes' looks
      cases nodes' with
      | nil => rfl
      | cons => cases looks
    | cons node rest more =>
      intro nodes' looks
      cases nodes' with
      | nil => cases looks
      | cons node' rest' =>
        obtain ⟨first, later⟩ := List.cons.inj looks
        have rest := more later
        simp only [firstElement?, List.findSome?_cons] at rest ⊢
        cases node <;> cases node' <;> simp only [look, reduceCtorEq, Look.element.injEq, Look.placeholder.injEq] at first
        case element.element => simp [first]
        case placeholder.placeholder p p' =>
          have both := inside p.template
          dsimp only
          rw [first] at both ⊢
          cases here : (bodies.get? p'.template).bind (firstElement? bodies fuel) <;>
            cases there : (bodies'.get? p'.template).bind (firstElement? bodies' fuel) <;> simp_all
        all_goals exact rest

theorem faceIn_congr (same : ∀ id, (bodies.get? id).map (·.map look) = (bodies'.get? id).map (·.map look))
    (size : bodies.size = bodies'.size) : faceIn bodies = faceIn bodies' := by
  funext id
  have here := same id
  unfold faceIn
  cases found : bodies.get? id with
  | none =>
    rw [found] at here
    rw [map_eq_none_iff.mp here.symm]
    rfl
  | some body =>
    rw [found] at here
    obtain ⟨body', found', looks⟩ := map_eq_some_iff.mp here.symm
    rw [found', size]
    exact firstElement?_congr same _ looks.symm

namespace TemplateNode

variable {slots : SortedMap String (List (Option String))} {f : ElementHead → ElementHead}
variable {h : ElementHead}

theorem look_routeWaiting (node) : (routeWaiting slots bodies node).look = node.look := by
  cases node with
  | element head children projected =>
    rw [routeWaiting, routeElement]
    split <;> rfl
  | text | fragment | placeholder | slot => simp [routeWaiting, look]

theorem routeElement_congr (same : faceIn bodies = faceIn bodies') : routeElement slots bodies = routeElement slots bodies' := by
  funext head children projected
  have content : ∀ found, routeContent found bodies children = routeContent found bodies' children :=
    routeContent_congr fun _ _ => by rw [same]
  simp only [routeElement, content]

theorem routeWaitingOf_congr (same : faceIn bodies = faceIn bodies') (nodes) :
    routeWaitingOf slots bodies nodes = routeWaitingOf slots bodies' nodes := by
  induction nodes using forestInduction with
  | nil => rfl
  | element head children projected rest inside placed later =>
    have placed := List.map_congr_left fun p mem => congrArg (Projection.mk p.slot) (placed p mem)
    simp only [routeWaitingOf, routeWaiting, routeElement_congr same, inside, routeWaitingProjected_eq, placed, later]
  | text | fragment | placeholder | slot => simp only [routeWaitingOf, routeWaiting, *]

/-! ### Marks -/

structure Marking (f : ElementHead → ElementHead) : Prop where
  target : ∀ head, (f head).target = head.target
  component : ∀ head, (f head).component = head.component
  routed : ∀ head, (f head).routed = head.routed
  settles : ∀ head, f { head with routed := true } = { f head with routed := true }

theorem marking_markContent (queries) : Marking (markContent queries) := by
  have same : ∀ head, matchQuery? queries { head with routed := true } = matchQuery? queries head := fun _ => rfl
  constructor <;> intro head <;> simp only [markContent, same] <;> split <;> rfl

theorem marking_markView (queries) : Marking (markView queries) := by
  have same : ∀ head, matchQuery? queries { head with routed := true } = matchQuery? queries head := fun _ => rfl
  constructor <;> intro head <;> simp only [markView, same] <;> split <;> rfl

theorem look_mapHeads (marking : Marking f) (node) : (mapHeads f node).look = node.look := by
  cases node with
  | element head children projected => rw [mapHeads, look, marking.target, look]
  | text | fragment | placeholder | slot => simp [mapHeads, look]

theorem mapHeads_routeElement (marking : Marking f) (head) (children)
    (projected) : mapHeads f (routeElement slots bodies head children projected) =
      routeElement slots bodies (f head) (mapHeadsOf f children) (mapHeadsProjected f projected) := by
  have known : (f head).component.bind slots.get? = head.component.bind slots.get? := by rw [marking.component]
  unfold routeElement
  rw [marking.routed, known]
  split
  · rw [mapHeads, mapHeadsOf, marking.settles, mapHeadsProjected_eq, mapHeadsOf_eq, routeContent_map (look_mapHeads marking)]
    simp only [mapHeadsOf_eq]
  · rw [mapHeads]

theorem routeWaitingOf_mapHeads (marking : Marking f) (nodes) :
    routeWaitingOf slots bodies (mapHeadsOf f nodes) = mapHeadsOf f (routeWaitingOf slots bodies nodes) := by
  induction nodes using forestInduction with
  | nil => rfl
  | element head children projected rest inside placed later =>
    have placed := List.map_congr_left fun p mem => congrArg (Projection.mk p.slot) (placed p mem)
    simp only [mapHeadsOf, mapHeads, routeWaitingOf, routeWaiting, mapHeads_routeElement marking, inside, later,
      routeWaitingProjected_eq, mapHeadsProjected_eq, List.map_map, Function.comp_def, placed]
  | text | fragment | placeholder | slot => simp only [mapHeadsOf, mapHeads, routeWaitingOf, routeWaiting, *]

/-! ### What is left -/

def Stuck (slots : SortedMap String (List (Option String))) (head : ElementHead) : Prop :=
  head.component.bind slots.get? = none

theorem mem_heads_routeContent (mem : head ∈ headsProjected (routeContent found bodies content)) :
    head ∈ headsOf content := by
  rw [headsProjected_eq] at mem
  obtain ⟨p, routed, inside⟩ := List.mem_flatMap.mp mem
  rw [headsOf_eq] at inside ⊢
  obtain ⟨node, placed, here⟩ := List.mem_flatMap.mp inside
  exact List.mem_flatMap.mpr ⟨node, mem_routeContent routed placed, here⟩

theorem mem_headsOf_routeWaiting (waits : h.routed = false) (nodes) :
    h ∈ headsOf (routeWaitingOf slots bodies nodes) → h ∈ headsOf nodes ∧ Stuck slots h := by
  induction nodes using forestInduction with
  | nil => exact fun mem => by cases mem
  | element head children projected rest inside placed later =>
    have placed : h ∈ headsProjected (routeWaitingProjected slots bodies projected) → h ∈ headsProjected projected ∧ Stuck slots h := by
      simp only [headsProjected_eq, routeWaitingProjected_eq, List.flatMap_map, List.mem_flatMap]
      rintro ⟨p, listed, here⟩
      exact (placed p listed here).imp_left fun here => ⟨p, listed, here⟩
    rw [routeWaitingOf, routeWaiting, headsOf, List.mem_append, headsOf, heads, List.cons_append, List.mem_cons, List.mem_append,
      List.mem_append]
    rintro (mem | mem)
    · rw [routeElement] at mem
      split at mem
      · rw [heads, headsOf, List.nil_append] at mem
        rcases List.mem_cons.mp mem with rfl | mem
        · cases waits
        · exact (inside (mem_heads_routeContent mem)).imp_left fun here => .inr (.inl (.inl here))
      · rename_i other
        rw [heads] at mem
        rcases List.mem_cons.mp mem with rfl | mem
        · refine ⟨.inl rfl, ?_⟩
          unfold Stuck
          cases found : h.component.bind slots.get? with
          | none => rfl
          | some found' => exact (other found' waits found).elim
        · rcases List.mem_append.mp mem with mem | mem
          · exact (inside mem).imp_left fun here => .inr (.inl (.inl here))
          · exact (placed mem).imp_left fun here => .inr (.inl (.inr here))
    · exact (later mem).imp_left fun here => .inr (.inr here)
  | text | fragment | placeholder | slot =>
    simp only [routeWaitingOf, routeWaiting, headsOf, heads, List.mem_append, List.not_mem_nil, false_or]
    tauto

theorem routeWaitingOf_of_stuck (nodes) :
    (∀ h ∈ headsOf nodes, h.routed = false → Stuck slots h) → routeWaitingOf slots bodies nodes = nodes := by
  induction nodes using forestInduction with
  | nil => exact fun _ => rfl
  | element head children projected rest inside placed later =>
    intro stuck
    simp only [headsOf, heads, List.forall_mem_append, List.forall_mem_cons] at stuck
    obtain ⟨⟨own, within, among⟩, behind⟩ := stuck
    have placed : routeWaitingProjected slots bodies projected = projected := by
      rw [routeWaitingProjected_eq]
      refine (List.map_congr_left fun p mem => ?_).trans (List.map_id _)
      rw [placed p mem fun h here => among h (by rw [headsProjected_eq]; exact List.mem_flatMap.mpr ⟨p, mem, here⟩)]
      rfl
    rw [routeWaitingOf, routeWaiting, inside within, placed, later behind, routeElement]
    split
    · rename_i waits found
      rw [own waits] at found
      cases found
    · rfl
  | text | fragment | placeholder | slot =>
    intro stuck
    simp only [headsOf, heads, List.forall_mem_append] at stuck
    simp_all [routeWaitingOf, routeWaiting]

end TemplateNode

end ComponentCompiler
