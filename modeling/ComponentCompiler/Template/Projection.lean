import ComponentCompiler.Selector.Query
import ComponentCompiler.Annotation.Definition
import ComponentCompiler.Template.Basic

/-! Projection of content into slots, and the queries that elements belong to. -/

namespace ComponentCompiler

/-- The first element of a forest, looking through placeholders. The bound counts the bodies that are
entered one inside the other. -/
def firstElement? (bodies : TemplateBodies) : Nat → List TemplateNode → Option ElementHead
  | 0, _ => none
  | fuel + 1, nodes =>
    nodes.findSome? fun
      | .element head _ _ => some head
      | .placeholder p => (bodies.get? p.template).bind (firstElement? bodies fuel)
      | _ => none

def TemplateNode.routingHead? (bodies : TemplateBodies) : TemplateNode → Option ElementHead
  | .element head _ _ => some head
  | .placeholder p => (bodies.get? p.template).bind (firstElement? bodies (bodies.size + 1))
  | _ => none

def slotAccepts (head : ElementHead) : Option String → Bool
  | some selector => (Selector.listOfText selector).any (·.selects head.target)
  | none => false

def slotIndex? (slots : List (Option String)) (bodies : TemplateBodies) (node : TemplateNode) : Option Nat :=
  ((node.routingHead? bodies).bind fun head => slots.findIdx? (slotAccepts head)).or
    (slots.findIdx? (·.isNone))

def routeContent (slots : List (Option String)) (bodies : TemplateBodies) (content : List TemplateNode) :
    List (Projection TemplateNode) :=
  let placed := content.map fun node => (slotIndex? slots bodies node, node)
  slots.zipIdx.filterMap fun (slot, i) =>
    match placed.filter (·.1 == some i) with
    | [] => none
    | nodes => some ⟨slot, nodes.map (·.2)⟩

def routeElement (slots : SortedMap String (List (Option String))) (bodies : TemplateBodies)
    (head : ElementHead) (children : List TemplateNode) (projected : List (Projection TemplateNode)) :
    TemplateNode :=
  match head.routed, head.component.bind slots.get? with
  | false, some found => .element { head with routed := true } [] (routeContent found bodies children)
  | _, _ => .element head children projected

namespace TemplateNode

mutual

def routeWaiting (slots : SortedMap String (List (Option String))) (bodies : TemplateBodies) :
    TemplateNode → TemplateNode
  | .element head children projected =>
    routeElement slots bodies head (routeWaitingOf slots bodies children)
      (routeWaitingProjected slots bodies projected)
  | .text parts => .text parts
  | .fragment children => .fragment (routeWaitingOf slots bodies children)
  | .placeholder p => .placeholder p
  | .slot selector fallback => .slot selector (routeWaitingOf slots bodies fallback)

def routeWaitingOf (slots : SortedMap String (List (Option String))) (bodies : TemplateBodies) :
    List TemplateNode → List TemplateNode
  | [] => []
  | node :: rest => routeWaiting slots bodies node :: routeWaitingOf slots bodies rest

def routeWaitingProjected (slots : SortedMap String (List (Option String))) (bodies : TemplateBodies) :
    List (Projection TemplateNode) → List (Projection TemplateNode)
  | [] => []
  | ⟨selector, nodes⟩ :: rest =>
    ⟨selector, routeWaitingOf slots bodies nodes⟩ :: routeWaitingProjected slots bodies rest

end

end TemplateNode

variable (queries : List Query)

def matchQuery? (head : ElementHead) : Option String :=
  bestQuery? (queries.map fun q => (q.property, q.selector)) head.target

def markContent (head : ElementHead) : ElementHead :=
  if head.contentQuery.isNone then { head with contentQuery := matchQuery? queries head } else head

def markView (head : ElementHead) : ElementHead :=
  match matchQuery? queries head with
  | some property => { head with viewQuery := some property }
  | none => head

def bodyReferences (nodes : List TemplateNode) : List String :=
  (TemplateNode.placeholdersOf nodes).flatMap fun p => p.template :: p.elseTemplate.toList

def reachableBodies (bodies : TemplateBodies) : Nat → List String → SortedSet String → SortedSet String
  | 0, _, seen => seen
  | _, [], seen => seen
  | fuel + 1, id :: rest, seen =>
    if seen.contains id then reachableBodies bodies fuel rest seen
    else
      let found := ((bodies.get? id).map bodyReferences).getD []
      reachableBodies bodies fuel (found ++ rest) (seen.add id)

def markQueried (content : List TemplateNode) (bodies : TemplateBodies) : List TemplateNode × TemplateBodies :=
  if queries.isEmpty then (content, bodies)
  else
    let references := bodyReferences content
    let bound := references.length + (bodies.values.flatMap bodyReferences).length + 1
    let reached := reachableBodies bodies bound references ∅
    let mark := TemplateNode.mapHeadsOf (markContent queries)
    (mark content, bodies.map fun id nodes => if reached.contains id then mark nodes else nodes)

end ComponentCompiler
