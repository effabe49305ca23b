import ComponentCompiler.Annotation.Document
import ComponentCompiler.SourceModule.Basic

/-! Surfaces of source modules as JSON documents. -/

namespace ComponentCompiler

def Span.document (s : Span) : Json := .obj [("start", .ofNat s.start), ("end", .ofNat s.stop)]

def ImportBinding.document (b : ImportBinding) : Json :=
  .obj [("imported", .str b.imported), ("local", .str b.bound)]

def ImportOrigin.text : ImportOrigin → String
  | .used => "Import"
  | .reexported => "ReExport"

def ImportStatement.document (i : ImportStatement) : Json :=
  .obj [("source", .str i.source), ("named", .ofList ImportBinding.document i.named),
    ("defaultLocal", .ofText? i.defaultName), ("namespaceLocal", .ofText? i.namespaceName),
    ("origin", .str i.origin.text), ("span", i.span.document), ("resolved", .null)]

def ExportName.document (e : ExportName) : Json :=
  .obj [("local", .str e.bound), ("exported", .str e.exported), ("reexportOf", .ofOption Json.ofNat e.reexportOf),
    ("star", .bool e.star)]

def ExportForm.document : ExportForm → Json
  | .declaration span start =>
    .obj [("Declaration", .obj [("span", span.document), ("decl_start", .ofNat start)])]
  | .names span => .obj [("Specifiers", .obj [("span", span.document)])]
  | .star span source => .obj [("Star", .obj [("span", span.document), ("import", .ofNat source)])]
  | .defaultExpression span inner name =>
    .obj [("DefaultExpression", .obj [("span", span.document), ("expression", inner.document),
      ("identifier", .ofText? name)])]
  | .defaultDeclaration span inner name =>
    .obj [("DefaultDeclaration", .obj [("span", span.document), ("declaration", inner.document),
      ("name", .ofText? name)])]

def AnnotationBlock.document (b : AnnotationBlock) : Json :=
  .obj [("kind", .str b.kind.keyword), ("name", .str b.name),
    ("properties", PropertyValue.propertiesDocument b.properties), ("callSpan", b.call.document),
    ("implementationSpan", b.implementation.document), ("exported", .bool b.exported)]

def LazyLoad.document (l : LazyLoad) : Json :=
  .obj [("specifier", .str l.specifier), ("span", l.span.document)]

def SourceModule.members (m : SourceModule) : List (String × Json) :=
  [("imports", .ofList ImportStatement.document m.imports), ("exports", .ofList ExportName.document m.exports),
    ("exportStatements", .ofList ExportForm.document m.exportForms),
    ("annotations", .ofList AnnotationBlock.document m.annotations),
    ("lazyLoads", .ofList LazyLoad.document m.lazyLoads), ("declarations", .ofNames m.declarations),
    ("errors", .ofList Diagnostic.document m.diagnostics)]

end ComponentCompiler
