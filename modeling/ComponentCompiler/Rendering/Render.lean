import ComponentCompiler.Rendering.Evaluate
import ComponentCompiler.Template.Basic

/-! Templates rendered to HTML with the values of a scope. -/

namespace ComponentCompiler

namespace Rendering

def escape (text : String) : String :=
  Text.replaceAll "\"" "&quot;"
    (Text.replaceAll ">" "&gt;" (Text.replaceAll "<" "&lt;" (Text.replaceAll "&" "&amp;" text)))

def isVoid (tag : String) : Bool :=
  ["area", "base", "br", "col", "embed", "hr", "img", "input", "link", "meta", "source", "track",
    "wbr"].contains tag

def partsText (scope : Scope) (parts : List TextPart) : String :=
  Text.join "" (parts.map fun
    | .literal text => text
    | .expression e => ((Evaluate.eval e.code scope).map (·.display)).getD "")

def attributeText (name value : String) : String :=
  if value.isEmpty then " " ++ name else " " ++ name ++ "=\"" ++ escape value ++ "\""

/-- A property renders as an attribute when its value is neither a list nor an object. -/
def propValue? (scope : Scope) (p : PropBinding) : Option String :=
  match Evaluate.eval p.value.code scope with
  | some (.arr _) | some (.obj _) | none => none
  | some value => some value.display

def attributesOf (scope : Scope) (head : ElementHead) : List (String × String) :=
  head.staticAttributes.toList ++
    head.attributeBindings.toList.map (fun (name, parts) => (name, partsText scope parts)) ++
    head.props.filterMap fun p => (propValue? scope p).map (p.name, ·)

def startTag (scope : Scope) (head : ElementHead) : String :=
  "<" ++ head.tag ++ Text.join "" ((attributesOf scope head).map fun (name, value) => attributeText name value) ++ ">"

def endTag (tag : String) : String := "</" ++ tag ++ ">"

def loopScope (p : Placeholder) (scope : Scope) (item : Json) (index : Nat) : Scope :=
  let scope :=
    match p.item with
    | some name => scope.insert name item
    | none => scope
  match p.index with
  | some name => scope.insert name (.int index)
  | none => scope

def expansions (bodies : TemplateBodies) (p : Placeholder) (scope : Scope) : List (List TemplateNode × Scope) :=
  match bodies.get? p.template with
  | none => []
  | some body =>
    let value := p.value.bind fun e => Evaluate.eval e.code scope
    if p.directive == "if" then
      if value.any (·.truthy) then [(body, scope)]
      else
        match p.elseTemplate.bind bodies.get? with
        | some other => [(other, scope)]
        | none => []
    else if p.directive == "for" then
      match value with
      | some (.arr items) => items.zipIdx.map fun (item, index) => (body, loopScope p scope item index)
      | _ => []
    else [(body, scope)]

variable (bodies : TemplateBodies) in
/-- The text of nodes; none when bodies lead back to themselves without end. -/
def nodesText? (scope : Scope) : List TemplateNode → Option String
  | [] => some ""
  | .element head children projected :: rest => do
    let content ←
      if isVoid head.tag then some (startTag scope head)
      else do
        let content ← binop% nodesText? scope (children ++ projected.flatMap (·.nodes))
        pure (startTag scope head ++ content ++ endTag head.tag)
    let after ← binop% nodesText? scope rest
    return content ++ after
  | .text parts :: rest => do
    let after ← binop% nodesText? scope rest
    return escape (partsText scope parts) ++ after
  | .fragment children :: rest => do
    let content ← binop% nodesText? scope children
    let after ← binop% nodesText? scope rest
    return content ++ after
  | .placeholder p :: rest => do
    let contents ← (expansions bodies p scope).mapM fun (body, scope) => binop% nodesText? scope body
    let after ← binop% nodesText? scope rest
    return Text.join "" contents ++ after
  | .slot _ fallback :: rest => do
    let content ← binop% nodesText? scope fallback
    let after ← binop% nodesText? scope rest
    return content ++ after
partial_fixpoint

end Rendering

namespace CompiledTemplate

def render? (t : CompiledTemplate) (scope : Scope) : Option String := Rendering.nodesText? t.bodies scope t.nodes

def render (t : CompiledTemplate) (scope : Scope) : String := (t.render? scope).getD ""

end CompiledTemplate

end ComponentCompiler
