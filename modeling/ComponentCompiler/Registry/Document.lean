import ComponentCompiler.Annotation.Document
import ComponentCompiler.Registry.Basic
import ComponentCompiler.Template.Document

/-! The registry as a JSON document. -/

namespace ComponentCompiler

def PackageImport.document (p : PackageImport) : Json :=
  .obj [("package", .str p.package), ("alias", .str p.identifier), ("global", .str p.global),
    ("version", .ofText? p.version), ("entry", .str p.entry.text), ("exports", .ofNames p.exports),
    ("openExports", .bool p.openExports), ("modules", .ofNames p.modules)]

def Selector.document (s : Selector) : Json :=
  .obj [("tag", .ofText? s.tag), ("ref_id", .ofText? s.reference), ("classes", .ofTexts s.classes),
    ("attrs", .ofList (fun (name, value) => .arr [.str name, .ofText? value]) s.attributes)]

def SelectorEntry.document (e : SelectorEntry) : Json :=
  .obj [("text", .str e.text), ("kind", .str e.kind.keyword), ("name", .str e.name),
    ("selector", e.selector.document)]

def LazyRequest.document (l : LazyRequest) : Json :=
  .obj [("target", .str l.target.text), ("importer", .str l.importer.text)]

def usersDocument (m : SortedMap Path (SortedSet String)) : Json :=
  .obj (m.toList.map fun (path, users) => (path.text, .ofNames users))

namespace Registry

def document (r : Registry) : Json :=
  let definitions (ds : SortedMap String Definition) : Json := .ofList Definition.document ds.values
  .obj [("elements", definitions r.elements), ("directives", definitions r.directives),
    ("services", definitions r.services), ("modules", definitions r.modules),
    ("queries", .ofList SelectorEntry.document r.index),
    ("globalImports", .ofMap PackageImport.document r.packages), ("localCount", .ofNat r.localCount),
    ("externalSlots", .ofMap slotsDocument r.output.externalSlots),
    ("templates", .ofTexts r.output.templates.keys), ("styles", .ofMap .str r.output.styles),
    ("templatePaths", usersDocument r.output.templatePaths), ("stylePaths", usersDocument r.output.stylePaths),
    ("lazy", .ofList LazyRequest.document r.output.lazy)]

end Registry

end ComponentCompiler
