import ComponentCompiler.Proofs.Template.Partition
import ComponentCompiler.Proofs.Template.Waiting
import ComponentCompiler.Template.Emit
import Mathlib.Algebra.Order.Group.Multiset
import Mathlib.Data.List.Flatten

/-!
What a template is made of. Elements, texts and placeholders are made once and then moved, so what
holds of all that has been made holds of all that stands in a template.
-/

namespace ComponentCompiler

open TemplateNode MarkupNode List SortedMap

def ElementHead.unmarked (head : ElementHead) : ElementHead :=
  { head with routed := true, contentQuery := none, viewQuery := none }

inductive Item where
  | element (head : ElementHead)
  | text (parts : List TextPart)
  | placeholder (value : Placeholder)

def Item.placeholder? : Item → Option Placeholder
  | .placeholder p => some p
  | _ => none

def Item.head? : Item → Option ElementHead
  | .element head => some head
  | _ => none

namespace TemplateNode

mutual

def items : TemplateNode → List Item
  | .element head children projected => .element head.unmarked :: (itemsOf children ++ itemsProjected projected)
  | .text parts => [.text parts]
  | .fragment children => itemsOf children
  | .placeholder p => [.placeholder p]
  | .slot _ fallback => itemsOf fallback

def itemsOf : List TemplateNode → List Item
  | [] => []
  | node :: rest => items node ++ itemsOf rest

def itemsProjected : List (Projection TemplateNode) → List Item
  | [] => []
  | ⟨_, nodes⟩ :: rest => itemsOf nodes ++ itemsProjected rest

end

theorem itemsOf_eq (nodes) : itemsOf nodes = nodes.flatMap items := by
  induction nodes with
  | nil => rfl
  | cons node rest ih => rw [itemsOf, ih, flatMap_cons]

theorem itemsProjected_eq (projected) :
    itemsProjected projected = projected.flatMap fun p => itemsOf p.nodes := by
  induction projected with
  | nil => rfl
  | cons p rest ih => rw [itemsProjected, ih, flatMap_cons]

theorem itemsOf_mapHeadsOf (same : ∀ head, (f head).unmarked = head.unmarked) (nodes) :
    itemsOf (mapHeadsOf f nodes) = itemsOf nodes := by
  induction nodes using forestInduction with
  | nil => rfl
  | element head children projected rest inside placed later =>
    simp only [mapHeadsOf, mapHeads, itemsOf, items, same, inside, later, mapHeadsProjected_eq, itemsProjected_eq,
      flatMap_map, flatMap_congr placed]
  | text | fragment | placeholder | slot => simp only [mapHeadsOf, mapHeads, itemsOf, items, *]

theorem placeholdersOf_items (nodes) :
    placeholdersOf nodes = (itemsOf nodes).filterMap Item.placeholder? := by
  induction nodes using forestInduction with
  | nil => rfl
  | element head children projected rest inside placed later =>
    simp only [placeholdersOf, placeholders, itemsOf, items, inside, later, placeholdersProjected_eq, itemsProjected_eq,
      flatMap_congr placed, filterMap_flatMap, filterMap_cons, filterMap_append, Item.placeholder?]
  | text | fragment | placeholder | slot =>
    simp [placeholdersOf, placeholders, itemsOf, items, filterMap_cons, Item.placeholder?, *]

theorem headsOf_items (nodes) :
    (headsOf nodes).map ElementHead.unmarked = (itemsOf nodes).filterMap Item.head? := by
  induction nodes using forestInduction with
  | nil => rfl
  | element head children projected rest inside placed later =>
    simp only [headsOf, heads, itemsOf, items, map_cons, map_append, inside, later, headsProjected_eq, itemsProjected_eq,
      map_flatMap, flatMap_congr placed, filterMap_flatMap, cons_append, filterMap_cons, filterMap_append, Item.head?]
  | text | fragment | placeholder | slot =>
    simp [headsOf, heads, itemsOf, items, filterMap_cons, Item.head?, *]

end TemplateNode

theorem unmarked_markContent (queries) (head) :
    (markContent queries head).unmarked = head.unmarked := by
  unfold markContent
  split <;> rfl

theorem unmarked_markView (queries) (head) : (markView queries head).unmarked = head.unmarked := by
  unfold markView
  split <;> rfl

/-! ### Material -/

def material (nodes : List TemplateNode) : Multiset Item := itemsOf nodes

def bodyMaterial (bodies : TemplateBodies) : Multiset Item := material bodies.values.flatten

theorem material_append (nodes more) : material (nodes ++ more) = material nodes + material more := by
  rw [material, itemsOf_eq, flatMap_append, ← Multiset.coe_add, ← itemsOf_eq, ← itemsOf_eq]
  rfl

theorem material_element (head) (children) (projected) :
    material [.element head children projected] =
      {.element head.unmarked} + (material children + material (projected.flatMap (·.nodes))) := by
  simp only [material, itemsOf, items, itemsProjected_eq, itemsOf_eq, flatMap_assoc, append_nil, Multiset.coe_add,
    ← Multiset.cons_coe, Multiset.singleton_add]

theorem material_fragment (children) : material [.fragment children] = material children :=
  congrArg Multiset.ofList (append_nil _)

theorem material_slot (selector) (fallback) :
    material [.slot selector fallback] = material fallback := congrArg Multiset.ofList (append_nil _)

theorem material_routeContent (slots) (bodies) (content) :
    material ((routeContent slots bodies content).flatMap (·.nodes)) ≤ material content := by
  simp only [material, itemsOf_eq]
  rw [Multiset.coe_eq_coe.mpr ((perm_routeContent slots bodies content).flatMap_right items)]
  exact Multiset.coe_le.mpr (filter_sublist.flatMap items).subperm

theorem bodyMaterial_insert (bodies : TemplateBodies) (id) (nodes) :
    bodyMaterial (bodies.insert id nodes) ≤ material nodes + bodyMaterial bodies := by
  change material ((insertEntry id nodes bodies.entries).map (·.2)).flatten ≤
    material nodes + material (bodies.entries.map (·.2)).flatten
  induction bodies.entries with
  | nil => simp only [insertEntry, map_cons, flatten_cons, material_append]; rfl
  | cons entry rest ih =>
    rw [insertEntry]
    split
    · simp only [map_cons, flatten_cons, material_append]; rfl
    · simp only [map_cons, flatten_cons, material_append]
      exact add_le_add_right (Multiset.le_add_left _ _) _
    · simp only [map_cons, flatten_cons, material_append]
      rw [add_left_comm]
      exact add_le_add_right ih _

theorem bodyMaterial_map (same : ∀ id nodes, itemsOf (f id nodes) = itemsOf nodes) (bodies : TemplateBodies) :
    bodyMaterial (bodies.map f) = bodyMaterial bodies := by
  change material ((bodies.entries.map fun entry => (entry.1, f entry.1 entry.2)).map (·.2)).flatten =
    material (bodies.entries.map (·.2)).flatten
  induction bodies.entries with
  | nil => rfl
  | cons entry rest ih =>
    simp only [map_cons, flatten_cons, material_append] at ih ⊢
    rw [ih, material, same]
    rfl

namespace Template

variable {cx : Context} {R : State → Multiset Item → Prop} {s : State} {m : Multiset Item}

/-- What a compilation keeps true of all that it has made: things are made one by one, and what is moved or dropped
makes no difference. -/
structure Kept (cx : Context) (R : State → Multiset Item → Prop) : Prop where
  fewer : ∀ {s m m'}, R s m → m' ≤ m → R s m'
  moved : ∀ {s m} bodies slots pending, R s m → (∀ id, s.bodies.contains id = true → bodies.contains id = true) →
    R { s with bodies := bodies, slots := slots, pending := pending } m
  text : ∀ {s m} value, R s m →
    let after := (interpolate cx value true).run s
    R after.2 (m + {.text after.1})
  element : ∀ {s m} tag attributes, R s m →
    let after := (startElement cx tag attributes).run s
    R after.2 (m + {.element after.1.1.unmarked})
  placeholder : ∀ {s m} directive value nodes, R s m →
    let id := bodyName directive s.counter
    let after := (filled cx directive value id).run { s with counter := s.counter + 1 }
    R { after.2 with bodies := after.2.bodies.insert id nodes } (m + {.placeholder after.1})

def Holds (R : State → Multiset Item → Prop) (s : State) (hand : Multiset Item) : Prop := R s (hand + bodyMaterial s.bodies)

namespace Kept

variable (kept : Kept cx R)

include kept

theorem addBody (id) (nodes) (holds : Holds R s (hand + material nodes)) :
    Holds R { s with bodies := s.bodies.insert id nodes } hand := by
  have grown := kept.moved (s.bodies.insert id nodes) s.slots s.pending holds fun _ known =>
    SortedMap.contains_insert.mpr (.inr known)
  refine kept.fewer grown ?_
  rw [add_assoc]
  exact add_le_add_right (bodyMaterial_insert s.bodies id nodes) hand

theorem wrap (directive value : String) (node) (holds : Holds R s (hand + material [node])) :
    let after := (wrap cx directive value node).run s
    Holds R after.2 (hand + material [after.1]) := by
  have made := kept.placeholder directive value [node] holds
  have same := (@asks_filled cx [] directive value (bodyName directive s.counter)).light.run { s with counter := s.counter + 1 }
  rw [wrap_run]
  dsimp only at made ⊢
  generalize (filled cx directive value (bodyName directive s.counter)).run { s with counter := s.counter + 1 } =
    after at made same ⊢
  have bodies : after.2.bodies = s.bodies := by rw [same]
  refine kept.fewer made ?_
  rw [bodies]
  calc hand + material [.placeholder after.1] + bodyMaterial (s.bodies.insert (bodyName directive s.counter) [node])
      ≤ hand + material [.placeholder after.1] + (material [node] + bodyMaterial s.bodies) :=
        add_le_add_right (bodyMaterial_insert s.bodies _ [node]) _
    _ = hand + material [node] + bodyMaterial s.bodies + {.placeholder after.1} := by
        change hand + {.placeholder after.1} + (material [node] + bodyMaterial s.bodies) = _
        ac_rfl

theorem finishTemplate (attributes : List (String × String)) (children)
    (holds : Holds R s (hand + material children)) :
    let after := (finishTemplate cx attributes children).run s
    Holds R after.2 (hand + material after.1) := by
  rw [finishTemplate_eq]
  split
  · exact kept.wrap _ _ (.fragment children) (material_fragment children ▸ holds)
  · rename_i id _ _
    have added := kept.addBody id children holds
    rw [← add_zero hand] at added
    exact added
  · rw [← material_fragment] at holds
    exact holds

theorem projectContent (head : ElementHead) (host : Definition) (content)
    (holds : Holds R s (hand + {.element head.unmarked} + material content)) :
    let after := (projectContent cx head host content).run s
    Holds R after.2 (hand + material [after.1]) := by
  have marked : material (mapHeadsOf (markContent host.contentQueries) content) = material content :=
    congrArg Multiset.ofList (itemsOf_mapHeadsOf (unmarked_markContent _) content)
  have bodies : bodyMaterial (markedBodies host.contentQueries content s.bodies) = bodyMaterial s.bodies := by
    refine bodyMaterial_map (fun id nodes => ?_) s.bodies
    split
    · exact itemsOf_mapHeadsOf (unmarked_markContent _) nodes
    · rfl
  -- Whatever becomes of the content, the element holds no more than it.
  have element (pending : List PendingProjection) (head' : ElementHead) (children : List TemplateNode)
      (projected : List (Projection TemplateNode)) (same : head'.unmarked = head.unmarked)
      (less : material children + material (projected.flatMap (·.nodes)) ≤ material content) :
      Holds R { s with bodies := markedBodies host.contentQueries content s.bodies, pending := pending }
        (hand + material [.element head' children projected]) := by
    refine kept.fewer (kept.moved _ s.slots pending holds fun id known => ?_) ?_
    · rwa [markedBodies, SortedMap.contains, get?_map, Option.isSome_map]
    · rw [material_element, same, bodies, ← add_assoc hand]
      exact add_le_add_left (add_le_add_right less _) _
  rw [projectContent_run]
  dsimp only
  split
  · exact element s.pending head [] _ rfl (by rw [← marked]; exact (zero_add _).trans_le (material_routeContent _ _ _))
  · split
    · rw [addPending_run]
      exact element _ _ _ [] rfl (by rw [marked]; exact (add_zero _).le)
    · refine element s.pending head [] _ rfl ?_
      simp only [flatMap_cons, flatMap_nil, append_nil, marked]
      exact (zero_add _).le

theorem finishElement (head : ElementHead) (host : Option Definition) (children)
    (holds : Holds R s (hand + {.element head.unmarked} + material children)) :
    let after := (finishElement cx head host children).run s
    Holds R after.2 (hand + material [after.1]) := by
  have whole : hand + {.element head.unmarked} + material children = hand + material [.element head children []] := by
    have empty : material (([] : List (Projection TemplateNode)).flatMap (·.nodes)) = 0 := rfl
    rw [material_element, add_assoc, empty, add_zero]
  unfold Template.finishElement
  split
  · split
    · rename_i none
      rw [whole, List.isEmpty_iff.mp none] at holds
      exact holds
    · exact kept.projectContent head _ children holds
  · rw [whole] at holds
    exact holds

theorem wrapIf (directive : Option (String × String)) (node) (holds : Holds R s (hand + material [node])) :
    let after := (wrapIf cx directive node).run s
    Holds R after.2 (hand + material [after.1]) := by
  unfold Template.wrapIf
  split
  · exact kept.wrap _ _ node holds
  · exact holds

omit kept in
theorem holds_light {α : Type} {x : Compile α} (light : Light x) (made : Multiset Item)
    (after : ∀ {m}, R s m → R (x.run s).2 (m + made)) (holds : Holds R s hand) : Holds R (x.run s).2 (hand + made) := by
  have bodies : (x.run s).2.bodies = s.bodies := by rw [light.run s]
  have all := after holds
  rw [add_right_comm, ← bodies] at all
  exact all

end Kept

mutual

theorem Kept.compileNode (kept : Kept cx R) : ∀ (node : MarkupNode) {s : State} {hand : Multiset Item}, Holds R s hand →
    let after := (compileNode cx node).run s
    Holds R after.2 (hand + material after.1)
  | .text value, s, hand, holds => by
    rw [compileNode_text]
    exact Kept.holds_light (light_interpolate value true) {.text ((interpolate cx value true).run s).1} (kept.text value) holds
  | .element tag attributes children, s, hand, holds => by
    cases template : tag == "template" with
    | true =>
      rw [compileNode_template cx template]
      exact kept.finishTemplate attributes _ (kept.compileNodes children holds)
    | false =>
      cases place : tag == "place" with
      | true =>
        have slot := kept.moved s.bodies (s.slots ++ [slotSelector? attributes]) s.pending holds fun _ known => known
        rw [compileNode_place cx template place]
        dsimp only
        rw [material_slot]
        exact kept.compileNodes children slot
      | false =>
        rw [compileNode_element cx template place]
        have started := Kept.holds_light (light_startElement tag attributes)
          {.element ((startElement cx tag attributes).run s).1.1.unmarked} (kept.element tag attributes) holds
        have made := kept.compileNodes children started
        exact kept.wrapIf _ _ (kept.finishElement _ _ _ made)

theorem Kept.compileNodes (kept : Kept cx R) : ∀ (nodes : List MarkupNode) {s : State} {hand : Multiset Item}, Holds R s hand →
    let after := (compileNodes cx nodes).run s
    Holds R after.2 (hand + material after.1)
  | [], s, hand, holds => by
    rw [Template.compileNodes]
    rw [← add_zero hand] at holds
    exact holds
  | node :: rest, s, hand, holds => by
    rw [compileNodes_cons]
    dsimp only
    rw [material_append, ← add_assoc]
    exact kept.compileNodes rest (kept.compileNode node holds)

end

end Template

def CompiledTemplate.items (t : CompiledTemplate) : List Item := itemsOf t.forests.flatten

namespace Template

theorem kept_compileMarkup (kept : Kept cx R) (start : R {} 0) (markup : List MarkupNode) :
    let s := ((compileNodes cx markup).run {}).2
    let t := compileMarkup cx markup
    R s t.items ∧ t.providers = s.providers ∧ s.diagnostics ⊆ t.diagnostics ∧
      ∀ id, t.bodies.contains id = s.bodies.contains id := by
  have begun : Holds R {} 0 := start
  have run := kept.compileNodes markup begun
  have whole : compileMarkup cx markup = _ := resolveViewQueries_eq cx.owner _
  dsimp only
  rw [whole]
  refine ⟨?_, rfl, subset_append_left _ _, fun id => ?_⟩
  · have bodies := bodyMaterial_map (fun _ => itemsOf_mapHeadsOf (unmarked_markView cx.owner.viewQueries))
      ((compileNodes cx markup).run {}).2.bodies
    have nodes := itemsOf_mapHeadsOf (unmarked_markView cx.owner.viewQueries) ((compileNodes cx markup).run {}).1
    refine kept.fewer run (le_of_eq ?_)
    change material (_ ++ _) = _
    rw [material_append, zero_add]
    exact congrArg₂ (· + ·) (congrArg Multiset.ofList nodes) bodies
  · rw [SortedMap.contains, get?_map, Option.isSome_map]
    rfl

end Template

end ComponentCompiler
