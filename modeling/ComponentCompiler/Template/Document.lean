import ComponentCompiler.Template.Basic

/-! Compiled templates as JSON documents. -/

namespace ComponentCompiler

def Filter.document (f : Filter) : Json :=
  .obj [("name", .str f.name), ("pipe", .ofText? f.pipe), ("args", .ofTexts f.args)]

def Expression.document (e : Expression) : Json :=
  .obj [("source", .str e.source), ("code", .str e.code), ("filters", .ofList Filter.document e.filters),
    ("once", .bool e.once)]

def TextPart.document : TextPart → Json
  | .literal text => .obj [("Literal", .str text)]
  | .expression e => .obj [("Expr", e.document)]

def PropBinding.document (p : PropBinding) : Json :=
  .obj [("name", .str p.name), ("value", p.value.document)]

def EventBinding.document (e : EventBinding) : Json :=
  .obj [("name", .str e.name), ("handler", e.handler.document), ("twoWay", .bool e.twoWay)]

def DirectiveBinding.document (d : DirectiveBinding) : Json :=
  .obj [("name", .str d.name), ("directive", .str d.directive), ("value", .ofOption Expression.document d.value)]

def partsDocument (parts : List TextPart) : Json := .ofList TextPart.document parts

namespace ElementHead

def membersBefore (head : ElementHead) : List (String × Json) :=
  [("type", .str "element"), ("tag", .str head.tag), ("element", .ofText? head.component),
    ("refId", .ofText? head.reference), ("attrs", .ofMap .str head.attributes),
    ("data", .ofMap .str head.data), ("aria", .ofMap .str head.aria),
    ("attrBindings", .ofMap partsDocument head.attributeBindings),
    ("props", .ofList PropBinding.document head.props), ("events", .ofList EventBinding.document head.events),
    ("directives", .ofList DirectiveBinding.document head.directives)]

def membersAfter (head : ElementHead) : List (String × Json) :=
  [("routed", .bool head.routed), ("contentQuery", .ofText? head.contentQuery),
    ("viewQuery", .ofText? head.viewQuery)]

end ElementHead

def Placeholder.document (p : Placeholder) : Json :=
  .obj [("type", .str "structuralPlaceholder"), ("directive", .str p.directive), ("template", .str p.template),
    ("value", .ofOption Expression.document p.value), ("elseTemplate", .ofText? p.elseTemplate),
    ("item", .ofText? p.item), ("index", .ofText? p.index)]

namespace TemplateNode

mutual

def document : TemplateNode → Json
  | .element head children projected =>
    .obj (head.membersBefore ++
      [("children", .arr (documentsOf children)), ("projected", .arr (projectionDocuments projected))] ++
      head.membersAfter)
  | .text parts => .obj [("type", .str "text"), ("parts", partsDocument parts)]
  | .fragment children => .obj [("type", .str "fragment"), ("children", .arr (documentsOf children))]
  | .placeholder p => p.document
  | .slot selector fallback =>
    .obj [("type", .str "projectionSlot"), ("selector", .ofText? selector),
      ("fallback", .arr (documentsOf fallback))]

def documentsOf : List TemplateNode → List Json
  | [] => []
  | node :: rest => document node :: documentsOf rest

def projectionDocuments : List (Projection TemplateNode) → List Json
  | [] => []
  | ⟨place, nodes⟩ :: rest =>
    .obj [("slot", .ofText? place), ("nodes", .arr (documentsOf nodes))] :: projectionDocuments rest

end

end TemplateNode

def PendingProjection.document (p : PendingProjection) : Json :=
  .obj [("hostSelector", .str p.hostTag), ("host", .str p.host), ("owner", .str p.owner), ("file", .str p.file)]

def slotsDocument (slots : List (Option String)) : Json := .ofList Json.ofText? slots

namespace CompiledTemplate

def document (t : CompiledTemplate) : Json :=
  let nodes (list : List TemplateNode) : Json := .arr (TemplateNode.documentsOf list)
  .obj [("element", .str t.element), ("nodes", nodes t.nodes), ("templates", .ofMap nodes t.bodies),
    ("providers", .ofNames t.providers), ("slots", slotsDocument t.slots),
    ("errors", .ofList Diagnostic.document t.diagnostics),
    ("pending", .ofList PendingProjection.document t.pending), ("hasPending", .bool t.hasPending)]

end CompiledTemplate

end ComponentCompiler
