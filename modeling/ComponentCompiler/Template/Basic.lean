import ComponentCompiler.Diagnostic.Basic
import ComponentCompiler.Expression.Interpolation
import ComponentCompiler.Selector.Basic

/-!
Compiled templates. What a structural directive wraps stands under its own name among the bodies of
the template, and a placeholder refers to it.
-/

namespace ComponentCompiler

structure PropBinding where
  name : String
  value : Expression
deriving DecidableEq, Repr

structure EventBinding where
  name : String
  handler : Expression
  twoWay : Bool
deriving DecidableEq, Repr

structure DirectiveBinding where
  name : String
  directive : String
  value : Option Expression
deriving DecidableEq, Repr

structure ElementHead where
  tag : String
  component : Option String := none
  reference : Option String := none
  attributes : SortedMap String String := ∅
  /-- Attributes with names that start with `data-`, without that start. -/
  data : SortedMap String String := ∅
  /-- Attributes with names that start with `aria-`, without that start. -/
  aria : SortedMap String String := ∅
  attributeBindings : SortedMap String (List TextPart) := ∅
  props : List PropBinding := []
  events : List EventBinding := []
  directives : List DirectiveBinding := []
  /-- Whether the content stands where it belongs; if not it waits for the component's template. -/
  routed : Bool := true
  contentQuery : Option String := none
  viewQuery : Option String := none

namespace ElementHead

def staticAttributes (head : ElementHead) : SortedMap String String :=
  (head.attributes.insertMany (head.data.toList.map fun (key, value) => ("data-" ++ key, value))).insertMany
    (head.aria.toList.map fun (key, value) => ("aria-" ++ key, value))

def target (head : ElementHead) : MatchTarget where
  tag := head.tag
  reference := head.reference
  attributes := head.staticAttributes
  directives := head.directives.map (·.name)

end ElementHead

/-- Where a structural directive stands; what it wraps is the body named `template`. -/
structure Placeholder where
  directive : String
  template : String
  value : Option Expression := none
  elseTemplate : Option String := none
  item : Option String := none
  index : Option String := none
deriving DecidableEq, Repr

/-- Content that goes to one slot; the slot without a selector is the default one. -/
structure Projection (α : Type) where
  slot : Option String
  nodes : List α

inductive TemplateNode where
  | element (head : ElementHead) (children : List TemplateNode) (projected : List (Projection TemplateNode))
  | text (parts : List TextPart)
  | fragment (children : List TemplateNode)
  | placeholder (value : Placeholder)
  /-- A place where content of the component's user goes, with what stands there without any. -/
  | slot (selector : Option String) (fallback : List TemplateNode)
deriving Inhabited

abbrev TemplateBodies := SortedMap String (List TemplateNode)

/-- Content that waits for the template of the component around it. -/
structure PendingProjection where
  hostTag : String
  host : String
  owner : String
  file : String
deriving DecidableEq, Repr

structure CompiledTemplate where
  element : String := ""
  nodes : List TemplateNode := []
  bodies : TemplateBodies := ∅
  /-- The definitions that the generated code has to reach. -/
  providers : SortedSet String := ∅
  /-- The selectors of the slots, in the order of their places; `none` is a default slot. -/
  slots : List (Option String) := []
  diagnostics : List Diagnostic := []
  pending : List PendingProjection := []
  hasPending : Bool := false

namespace TemplateNode

/-! ### Walks

Content comes in the order: children, then what is projected. Bodies are no part of a forest. -/

mutual

def mapHeads (f : ElementHead → ElementHead) : TemplateNode → TemplateNode
  | .element head children projected =>
    .element (f head) (mapHeadsOf f children) (mapHeadsProjected f projected)
  | .text parts => .text parts
  | .fragment children => .fragment (mapHeadsOf f children)
  | .placeholder p => .placeholder p
  | .slot selector fallback => .slot selector (mapHeadsOf f fallback)

def mapHeadsOf (f : ElementHead → ElementHead) : List TemplateNode → List TemplateNode
  | [] => []
  | node :: rest => mapHeads f node :: mapHeadsOf f rest

def mapHeadsProjected (f : ElementHead → ElementHead) :
    List (Projection TemplateNode) → List (Projection TemplateNode)
  | [] => []
  | ⟨selector, nodes⟩ :: rest => ⟨selector, mapHeadsOf f nodes⟩ :: mapHeadsProjected f rest

end

mutual

def heads : TemplateNode → List ElementHead
  | .element head children projected => head :: (headsOf children ++ headsProjected projected)
  | .text _ => []
  | .fragment children => headsOf children
  | .placeholder _ => []
  | .slot _ fallback => headsOf fallback

def headsOf : List TemplateNode → List ElementHead
  | [] => []
  | node :: rest => heads node ++ headsOf rest

def headsProjected : List (Projection TemplateNode) → List ElementHead
  | [] => []
  | ⟨_, nodes⟩ :: rest => headsOf nodes ++ headsProjected rest

end

mutual

def placeholders : TemplateNode → List Placeholder
  | .element _ children projected => placeholdersOf children ++ placeholdersProjected projected
  | .text _ => []
  | .fragment children => placeholdersOf children
  | .placeholder p => [p]
  | .slot _ fallback => placeholdersOf fallback

def placeholdersOf : List TemplateNode → List Placeholder
  | [] => []
  | node :: rest => placeholders node ++ placeholdersOf rest

def placeholdersProjected : List (Projection TemplateNode) → List Placeholder
  | [] => []
  | ⟨_, nodes⟩ :: rest => placeholdersOf nodes ++ placeholdersProjected rest

end

end TemplateNode

end ComponentCompiler
