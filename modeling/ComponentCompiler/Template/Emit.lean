import ComponentCompiler.Template.Basic

/-! Templates as JavaScript: the object literal that the run time reads. -/

namespace ComponentCompiler

open Script (Writer.string Writer.key Writer.list Writer.object)

def optionalMember (key : String) (value : Option String) : List (String × String) :=
  match value with
  | some value => [(key, value)]
  | none => []

def nonemptyMember {α : Type} (key : String) (items : List α) (script : List α → String) : List (String × String) :=
  if items.isEmpty then [] else [(key, script items)]

def textScript (parts : List TextPart) : String :=
  let literals := parts.filterMap fun | .literal text => some text | .expression _ => none
  if literals.length == parts.length then
    Writer.object [("type", "'text'"), ("text", Writer.string (Text.join "" literals))]
  else Writer.object [("type", "'text'"), ("parts", Interpolation.script parts)]

namespace Placeholder

def script (p : Placeholder) : String :=
  Writer.object (
    [("type", "'structural'"), ("directive", Writer.string p.directive),
      ("template", Writer.string p.template)] ++
    optionalMember "value" (p.value.map (·.script)) ++
    optionalMember "else" (p.elseTemplate.map Writer.string) ++
    optionalMember "item" (p.item.map Writer.string) ++
    optionalMember "index" (p.index.map Writer.string))

def references (p : Placeholder) : List String := p.template :: p.elseTemplate.toList

end Placeholder

namespace ElementHead

def attributesScript (entries : List (String × String)) : String :=
  Writer.object (entries.map fun (key, value) => (Writer.key key, Writer.string value))

def eventScript (e : EventBinding) : String :=
  Writer.object (
    [("name", Writer.string e.name), ("handler", e.handler.handlerScript)] ++
    if e.twoWay then [("twoWay", "true")] else [])

def directiveScript (d : DirectiveBinding) : String :=
  Writer.object (
    [("name", Writer.string d.name), ("directive", Writer.string d.directive)] ++
    optionalMember "value" (d.value.map (·.script)))

def members (head : ElementHead) : List (String × String) :=
  [("type", "'element'"), ("name", Writer.string head.tag)] ++
  optionalMember "element" (head.component.map Writer.string) ++
  optionalMember "ref" (head.reference.map Writer.string) ++
  nonemptyMember "attr" head.attributes.toList attributesScript ++
  nonemptyMember "data" head.data.toList attributesScript ++
  nonemptyMember "aria" head.aria.toList attributesScript ++
  nonemptyMember "attrBindings" head.attributeBindings.toList (fun entries =>
    Writer.object (entries.map fun (key, parts) => (Writer.key key, Interpolation.script parts))) ++
  nonemptyMember "props" head.props (fun props =>
    Writer.object (props.map fun p => (Writer.key p.name, p.value.script))) ++
  nonemptyMember "events" head.events (fun events => Writer.list (events.map eventScript)) ++
  nonemptyMember "directives" head.directives (fun ds => Writer.list (ds.map directiveScript)) ++
  optionalMember "contentQuery" (head.contentQuery.map Writer.string) ++
  optionalMember "viewQuery" (head.viewQuery.map Writer.string)

end ElementHead

namespace TemplateNode

mutual

def script : TemplateNode → String
  | .text parts => textScript parts
  | .fragment children =>
    Writer.object [("type", "'fragment'"), ("children", Writer.list (scripts children))]
  | .placeholder p => p.script
  | .slot selector fallback =>
    Writer.object (
      ("type", "'place'") :: optionalMember "selector" (selector.map Writer.string) ++
      nonemptyMember "children" (scripts fallback) Writer.list)
  | .element head children projected =>
    Writer.object (
      head.members ++ nonemptyMember "children" (scripts children) Writer.list ++
      nonemptyMember "projected" (projectedScripts projected) Writer.list)

def scripts : List TemplateNode → List String
  | [] => []
  | node :: rest => script node :: scripts rest

def projectedScripts : List (Projection TemplateNode) → List String
  | [] => []
  | ⟨selector, nodes⟩ :: rest =>
    Writer.object [("slot", (selector.map Writer.string).getD "null"), ("children", Writer.list (scripts nodes))] ::
      projectedScripts rest

end

end TemplateNode

namespace CompiledTemplate

variable (t : CompiledTemplate)

def forests : List (List TemplateNode) := t.nodes :: t.bodies.values

def script : String :=
  Writer.object (
    ("nodes", Writer.list (TemplateNode.scripts t.nodes)) ::
    nonemptyMember "templates" t.bodies.toList (fun bodies =>
      Writer.object (bodies.map fun (id, nodes) => (Writer.key id, Writer.list (TemplateNode.scripts nodes)))))

def missingBody (file id : String) : Diagnostic where
  code := .templateId
  message := "No <template #" ++ id ++ "> in the template of " ++ t.element
  file := file
  identifier := some id
  context := some t.element

def missingBodies (file : String) : List Diagnostic :=
  let references := (t.forests.flatMap TemplateNode.placeholdersOf).flatMap (·.references)
  (references.filter fun id => !t.bodies.contains id).map (t.missingBody file)

end CompiledTemplate

end ComponentCompiler
