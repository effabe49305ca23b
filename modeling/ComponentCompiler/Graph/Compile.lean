import ComponentCompiler.Graph.Session
import ComponentCompiler.Registry.Metadata
import ComponentCompiler.SourceModule.Extract

/-!
Compilation of the files of a target. Imports are followed in order; files that are loaded on demand
wait until everything else is compiled.
-/

namespace ComponentCompiler

def entryExports (tree : FileTree) (entry : Path) : ExportSurface :=
  match tree.readText entry with
  | .error _ => ⟨∅, true⟩
  | .ok source =>
    match SourceModule.extract source entry.key with
    | .error _ => ⟨∅, true⟩
    | .ok m =>
      ⟨.ofList ((m.exports.filter fun e => !e.star).map (·.exported)), m.exports.any (·.star)⟩

def PackageInfo.loadMetadata (tree : FileTree) (info : PackageInfo) : Option LibraryMetadata := do
  let text ← (tree.readText (← info.metadata)).toOption
  Json.decode? LibraryMetadata.shape LibraryMetadata.ofDocument? text

/-- What a session knows of a package. Exports come from its metadata if they are listed there, else
from its entry file. -/
def PackageInfo.describe (tree : FileTree) (globals : SortedMap String String) (name : String)
    (info : PackageInfo) (metadata : Option LibraryMetadata) : PackageImport :=
  let listed := (metadata.map (·.exports)).getD []
  let surface : ExportSurface := if listed.isEmpty then entryExports tree info.entry else ⟨.ofList listed, false⟩
  { package := name
    identifier := Specifier.identifier name
    global := Specifier.global name globals
    version := info.version
    entry := info.entry
    exports := surface.names
    openExports := surface.isOpen
    modules := .ofList ((metadata.map (·.modules.keys)).getD []) }

def Registry.registerDeclared (r : Registry) (package : String) : Option LibraryMetadata → Registry
  | some m => r.registerMetadata package m
  | none => r

namespace Session

def registerPackage (s : Session) (tree : FileTree) (name : String) : Session :=
  if s.registry.packages.contains name then s
  else
    match s.resolver.package? tree name with
    | none => s
    | some info =>
      let metadata := info.loadMetadata tree
      let registry := s.registry.registerDeclared name metadata
      let described := info.describe tree s.globals name metadata
      { s with registry := { registry with packages := registry.packages.insert name described } }

end Session

end ComponentCompiler

namespace ComponentCompiler.Session

structure Origin where
  parent : Option Nat := none
  lazyRoot : Option Nat := none
  package : Option String := none

abbrev CompileFile := Session → Path → Origin → Session × Nat

variable (s : Session) (r : FileRecord)

def importerKey? : Option String :=
  (r.parent.bind s.graph.get?).map (·.key)

variable (tree : FileTree)

def loadSurface (r : FileRecord) : Except Diagnostic SourceModule :=
  match tree.readText r.path with
  | .error cause =>
    .error
      { code := .importResolution
        message := "Cannot read " ++ r.key ++ ": " ++ cause.message
        file := r.key
        importer := s.importerKey? r }
  | .ok source =>
    match SourceModule.extract source r.key with
    | .ok m => .ok m
    | .error d => .error { d with importer := s.importerKey? r }

def fail (id : Nat) : Session :=
  match s.graph.get? id with
  | none => s
  | some r =>
    { s with registry := (s.registry.deregisterFile r.key).1 }.update id fun r =>
      { r with state := .failed, surface := none, resolved := [], annotations := [], importTargets := [] }

def blockDefinition (m : SourceModule) (block : AnnotationBlock) : Definition where
  name := block.name
  kind := block.kind
  properties := block.properties
  implementation := m.implementation block
  file := r.key
  package := r.package
  exported := block.exported

def registerBlock (id : Nat) (r : FileRecord) (m : SourceModule) (s : Session) (block : AnnotationBlock) : Session :=
  let d := blockDefinition r m block
  let accept (s : Session) : Session :=
    s.update id fun r => { r with annotations := r.annotations ++ [(block.kind, block.name)] }
  if r.package.isSome then accept { s with registry := s.registry.registerExternal d }
  else
    let registration := s.registry.register d
    let s := { s with registry := registration.registry, log := s.log.extend registration.diagnostics }
    if registration.accepted then accept s else s

def begin (id : Nat) (r : FileRecord) (m : SourceModule) : Session :=
  let s := { s with log := s.log.extend m.diagnostics }
  let s := m.annotations.foldl (registerBlock id r m) s
  s.update id fun r =>
    { r with
      surface := some m
      resolved := List.replicate m.imports.length none
      importTargets := List.replicate m.imports.length none }

def unresolvedImport (statement : ImportStatement) : Diagnostic where
  code := .importResolution
  message := "Cannot resolve '" ++ statement.source ++ "' imported by " ++ r.key
  file := r.key
  identifier := some (Text.join ", " statement.requestedNames)
  context := some statement.source
  hints := ["Check the path, the resolve.alias map and the resolve.paths roots."]

def setTarget (id index target : Nat) : Session :=
  s.update id fun r => { r with importTargets := r.importTargets.set index (some target) }

def linkFile (compile : CompileFile) (s : Session) (id index : Nat) (path : Path) (origin : Origin) : Session :=
  let (s, target) := compile s path origin
  (s.setTarget id index target).checkImport id index

def noteImport (r : FileRecord) (index : Nat) (found : ResolvedImport) : Session :=
  let s := s.update r.id fun r => { r with resolved := r.resolved.set index (some found) }
  match found.package? with
  | some name => s.registerPackage tree name
  | none => s

def outsidePackage? (found : ResolvedImport) : Option String :=
  if s.library then found.package? else none

def importOrigin (found : ResolvedImport) : Origin :=
  ⟨some r.id, r.lazyRoot, found.package?.or r.package⟩

def link (compile : CompileFile) (s : Session) (r : FileRecord) (index : Nat) (found : ResolvedImport) : Session :=
  let noted := s.noteImport tree r index found
  match s.outsidePackage? found with
  | some name => noted.checkPackageImport r.id index name
  | none => linkFile compile noted r.id index found.path (importOrigin r found)

/-- Follows imports in order up to one that cannot be resolved; says whether there was none. -/
def followImports (tree : FileTree) (compile : CompileFile) (r : FileRecord) :
    List (ImportStatement × Nat) → Session → Session × Bool
  | [], s => (s, true)
  | (statement, index) :: rest, s =>
    match s.resolver.resolve tree statement.source r.path with
    | none => (s.report (unresolvedImport r statement), false)
    | some found => followImports tree compile r rest (s.link tree compile r index found)

def unresolvedLazy (load : LazyLoad) : Diagnostic where
  code := .importResolution
  message := "Cannot resolve lazy import '" ++ load.specifier ++ "'"
  file := r.key
  identifier := some load.specifier
  context := some load.specifier

def requestLazy (r : FileRecord) (s : Session) (load : LazyLoad) : Session :=
  let add (s : Session) (target : Option Path) : Session :=
    s.update r.id fun r => { r with lazyTargets := r.lazyTargets ++ [target] }
  match s.resolver.resolve tree load.specifier r.path with
  | some found =>
    let target := found.path.clean
    let output := { s.registry.output with lazy := s.registry.output.lazy ++ [⟨target, r.path⟩] }
    add { s with registry := { s.registry with output := output } } (some target)
  | none => add (s.report (unresolvedLazy r load)) none

def finish (r : FileRecord) (m : SourceModule) : Session :=
  let s := m.lazyLoads.foldl (requestLazy tree r) s
  s.update r.id fun r =>
    { r with state := if r.package.isSome then .compiledExternal else .compiled }

def compileRecord (compile : CompileFile) (s : Session) (id : Nat) : Session :=
  match s.graph.get? id with
  | none => s
  | some r =>
    match s.loadSurface tree r with
    | .error d => (s.report d).fail id
    | .ok m =>
      match followImports tree compile r m.imports.zipIdx (s.begin id r m) with
      | (s, true) => s.finish tree r m
      | (s, false) => s.fail id

def enter (path : Path) (origin : Origin) : Session :=
  { s with graph := s.graph.push path origin.parent origin.lazyRoot origin.package }

/-- Compiles a file unless it has been reached before; the bound counts files entered one from the
other. -/
def compileFileWithin (tree : FileTree) : Nat → CompileFile
  | 0, s, _, _ => (s, s.graph.size)
  | fuel + 1, s, path, origin =>
    let path := path.clean
    match s.graph.lookup? path with
    | some id => (s, id)
    | none =>
      let id := s.graph.size
      ((s.enter path origin).compileRecord tree (compileFileWithin tree fuel) id, id)

/-- More than the files of the tree: a file inside the tree has at most two clean paths. -/
def bound : Nat := 2 * tree.entries.size + 3

def compileFile : CompileFile := compileFileWithin tree (bound tree)

def compileLazy (s : Session) (request : LazyRequest) : Session :=
  match s.graph.lookup? request.target with
  | some _ => s
  | none =>
    (compileFile tree s request.target
      ⟨s.graph.lookup? request.importer, some s.graph.size, none⟩).1

/-- Compiles what is loaded on demand from a place in the list on. Chunks may ask for more; the bound
counts rounds over what has been added. -/
def drainFrom (tree : FileTree) : Nat → Nat → Session → Session
  | 0, _, s => s
  | fuel + 1, cursor, s =>
    match s.registry.output.lazy.drop cursor with
    | [] => s
    | waiting => drainFrom tree fuel (cursor + waiting.length) (waiting.foldl (compileLazy tree) s)

def drainLazy (tree : FileTree) : Session := drainFrom tree (bound tree) 0 s

def compileEntry (tree : FileTree) (path : Path) : Session × Nat :=
  let (s, id) := compileFile tree s path {}
  (s.drainLazy tree, id)

def forget (id : Nat) (path : Path) : Session :=
  let registry := (s.registry.deregisterFile path.key).1
  let output := { registry.output with lazy := registry.output.lazy.filter fun e => !(e.importer == path) }
  { s with
    registry := { registry with output := output }
    log := s.log.clearFile path.key
    graph := s.graph.reset id }

def recompile (tree : FileTree) (path : Path) : Option (Session × Nat) :=
  let path := path.clean
  (s.graph.lookup? path).map fun id =>
    let s := (s.forget id path).compileRecord tree (compileFile tree) id
    let s := (s.graph.importersOf id).foldl recheckImports s
    (s.drainLazy tree, id)

end ComponentCompiler.Session
