import ComponentCompiler.Bundle.Application
import ComponentCompiler.Bundle.Library
import ComponentCompiler.Bundle.Minify
import ComponentCompiler.Graph.Compile
import ComponentCompiler.Output.Asset
import ComponentCompiler.Registry.Drain
import ComponentCompiler.Template.Compile
import ComponentCompiler.Wiring.Validate

/-!
Targets: one entry file each, with everything that is compiled from it. A target keeps its session
between builds, so that a change of one file is compiled alone.
-/

namespace ComponentCompiler

def Definition.resourcePath (d : Definition) (url : String) : Path :=
  ((((⟨d.file⟩ : Path).parent?).getD ⟨""⟩).join url).clean

namespace Session

def updateOutput (s : Session) (f : TargetOutput → TargetOutput) : Session :=
  { s with registry := { s.registry with output := f s.registry.output } }

def localElements (s : Session) : List Definition := s.registry.elements.values.filter (·.isLocal)

def addUser (path : Path) (name : String) (m : SortedMap Path (SortedSet String)) :
    SortedMap Path (SortedSet String) :=
  m.upsert path ∅ (SortedSet.add · name)

def templateCodes : List DiagnosticCode :=
  [.templateSource, .unknownElement, .unknownDirective, .pipeUnresolved, .placeUnresolved, .queryUnresolved,
    .expression]

def unreadableTemplate (d : Definition) (url : String) (path : Path) (cause : FileError) : Diagnostic where
  code := .templateSource
  message := "Cannot read template " ++ url ++ " of " ++ d.name ++ ": " ++ cause.message
  file := d.file
  identifier := some d.name
  context := some path.key

variable (files : FileTree)

def templateText (d : Definition) : Option Path × Except Diagnostic String :=
  match d.stringProperty? "template", d.stringProperty? "templateUrl" with
  | some text, _ => (none, .ok text)
  | none, none => (none, .ok "")
  | none, some url =>
    let path := d.resourcePath url
    (some path, (files.readText path).mapError (unreadableTemplate d url path))

def compileTemplate? (assetBase : Option String) (s : Session) (d : Definition) : Option Session :=
  let (path, text) := templateText files d
  let s := path.elim s fun path =>
    s.updateOutput fun o => { o with templatePaths := addUser path d.name o.templatePaths }
  match text with
  | .error e => some (s.report e)
  | .ok markup => do
    let t ← Template.compile? ⟨s.registry, d, assetBase⟩ markup
    let s := { s with log := s.log.extend t.diagnostics }
    return s.updateOutput fun o => { o with templates := o.templates.insert d.name t }

def compileTemplates? (s : Session) (files : FileTree) (assetBase : Option String) : Option Session := do
  let cleared := { s with log := s.log.clearCodes templateCodes }
  let cleared := cleared.updateOutput fun o => { o with templates := ∅, templatePaths := ∅ }
  let s ← s.localElements.foldlM (compileTemplate? files assetBase) cleared
  let drained := s.registry.drain
  return { s with registry := drained.registry, log := s.log.extend drained.diagnostics }

def styleSheets (d : Definition) : List String :=
  let file := (d.stringProperty? "styleUrl").bind fun url => (files.readText (d.resourcePath url)).toOption
  let written :=
    match d.property? "styles" with
    | some (.string css) => [css]
    | some (.array items) => items.filterMap (·.string?)
    | _ => []
  file.toList ++ written

def addStyles (o : TargetOutput) (d : Definition) : TargetOutput :=
  let paths := (d.stringProperty? "styleUrl").elim o.stylePaths fun url =>
    addUser (d.resourcePath url) d.name o.stylePaths
  let sheets := styleSheets files d
  let styles := if sheets.isEmpty then o.styles else o.styles.insert d.name (Text.join "\n" sheets)
  { o with stylePaths := paths, styles := styles }

def loadStyles (s : Session) (files : FileTree) : Session :=
  s.updateOutput fun o => s.localElements.foldl (addStyles files) { o with styles := ∅, stylePaths := ∅ }

end Session

inductive ChangeKind where
  | content
  | style
  | asset
deriving DecidableEq, Repr

structure TargetReport where
  name : String
  files : Nat
  written : List String
  diagnostics : List Diagnostic

structure BuildTarget where
  name : String
  entry : Path
  entryId : Option Nat := none
  session : Session
  outDir : Path
  config : ProjectConfig
  projectRoot : Path
  cache : OutputCache

structure TargetResult where
  outcome : Except BuildError TargetReport
  target : BuildTarget
  files : FileTree

namespace BuildTarget

def cacheName (config : ProjectConfig) (name : String) : String := config.output.folder ++ "-" ++ name

def new (projectRoot : Path) (config : ProjectConfig) (outDir : Path) (files : FileTree) (entry : TargetEntry) :
    BuildTarget × FileTree :=
  let output := OutputState.openCache files (projectRoot.join OutputCache.folder) (cacheName config entry.name)
  let target : BuildTarget :=
    { name := entry.name
      entry := entry.path.clean
      session := .new (.new projectRoot config) config.isLibrary config.output.globals
      outDir := outDir
      config := config
      projectRoot := projectRoot
      cache := output.cache }
  (target, output.files)

variable (t : BuildTarget)

def sourceRoot : Path := t.projectRoot.join t.config.sourceRoot

def report (written : List String) : TargetReport where
  name := t.name
  files := (t.session.graph.records.filter (·.isCompiled)).length
  written := written
  diagnostics := t.session.log.toList

def generationCodes : List DiagnosticCode := [.templateId, .providerNotExported]

def modules : List GeneratedModule :=
  let cx : GenerationContext := ⟨t.session.graph, t.session.registry, t.session.library⟩
  (t.session.graph.records.filter (·.isCompiled)).filterMap (·.generate cx)

def keepModule (s : Session) (m : GeneratedModule) : Session :=
  { s with log := s.log.extend m.diagnostics }.update m.id fun r => { r with output := some m.code }

def keepModules (modules : List GeneratedModule) : BuildTarget :=
  let s := { t.session with log := t.session.log.clearCodes generationCodes }
  { t with session := modules.foldl keepModule s }

def modulesOf (modules : List GeneratedModule) (table : Option Nat) : List GeneratedModule :=
  modules.filter fun m => (t.session.graph.get? m.id).any (·.lazyRoot == table)

variable (files : FileTree)

def sourcePackage? : Option Json :=
  let dir := t.sourceRoot.parent?.getD t.projectRoot
  match files.readText (dir.join LibraryBundle.packageFile) with
  | .error _ => none
  | .ok text => (Json.read text).toOption

def minifiedArtifacts (b : LibraryBundle) : List (String × String) :=
  if t.config.output.minify && t.config.output.patterns.contains .umd then
    let file := t.name ++ "-umd.min.js"
    let path := LibraryBundle.folder ++ "/" ++ file
    match minify? b.umdForm file t.config.output.sourceMap with
    | none => []
    | some script => (path, script.code) :: script.map.toList.map fun map => (path ++ ".map", map)
  else []

def libraryArtifacts (entry : Nat) (modules : List GeneratedModule) : List (String × String) :=
  let output := t.config.output
  let existing := t.sourcePackage? files
  let member? (key : String) : Option String := (existing.bind (·.member? key)).bind (·.string?)
  let package := (member? "name").getD t.name
  let exports := (t.session.exportSurface entry).names
  let b : LibraryBundle :=
    { name := t.name
      global := Specifier.global package output.globals
      table := Loader.table modules
      entry := entry
      exports := exports
      packages := t.session.registry.packages.values }
  let bundles := output.patterns.map fun p => (LibraryBundle.folder ++ "/" ++ b.fileName p, b.text p)
  let metadata := (t.session.registry.metadata package (member? "version") exports).document
  bundles ++ t.minifiedArtifacts b ++
    (if output.generateMeta then [(LibraryBundle.metadataFile, metadata.pretty)] else []) ++
    [(LibraryBundle.packageFile, (b.packageDocument existing package output.patterns output.generateMeta).pretty)]

def sourceText? (name : String) : Option String :=
  (files.readText (t.sourceRoot.join name)).toOption

def bootstrapName : String := t.entry.fileName?.getD "main.js"

def chunkArtifact (modules : List GeneratedModule) (root : Nat) : String × String :=
  let graph := t.session.graph
  let table := Loader.table (t.modulesOf modules (some root))
  (Application.chunkName root, Application.chunk root table (graph.chunkDependencies root))

def sheets : List (String × String) :=
  (t.config.output.styles.filterMap fun name => (t.sourceText? files name).map (name, ·)) ++
    t.session.registry.output.styles.toList

def scripts : List (String × String) :=
  t.config.output.scripts.filterMap fun script =>
    (t.sourceText? files script).map (((⟨script⟩ : Path).fileName?.getD script), ·)

def pageArtifact (scripts : List String) : Except BuildError (List (String × String)) :=
  match t.config.output.view with
  | none => .ok []
  | some view =>
    let name := (⟨view⟩ : Path).fileName?.getD "index.html"
    if files.pathExists (t.outDir.join name) then .ok []
    else
      let path := t.sourceRoot.join view
      match files.readText path with
      | .ok html => .ok [(name, Application.addScripts html scripts)]
      | .error cause => .error (.fileFailure path cause)

def applicationArtifacts (entry : Nat) (modules : List GeneratedModule) :
    Except BuildError (List (String × String)) := do
  let main := Loader.table (t.modulesOf modules none)
  let scripts := t.scripts files
  let page ← t.pageArtifact files (scripts.map (·.1) ++ [Application.stylesFile, t.bootstrapName])
  return [(t.bootstrapName, Application.bootstrap main entry)] ++
    t.session.graph.chunkRoots.map (t.chunkArtifact modules) ++
    [(Application.stylesFile, Application.styleLoader (t.sheets files))] ++ scripts ++ page

def perform (action : Output (List String)) : TargetResult :=
  let (result, output) := action.run ⟨t.cache, files⟩
  let t := { t with cache := output.cache }
  ⟨result.map t.report, t, output.files⟩

def writeOutput (artifacts : List (String × String)) : Output (List String) := do
  let written ← Output.writeAll t.outDir artifacts
  if !t.config.isLibrary then
    discard (Asset.copyAll t.sourceRoot t.outDir t.config.output.assets)
  Output.save
  return written

def finish : TargetResult :=
  match t.entryId with
  | none => t.perform files (do Output.save; return [])
  | some entry =>
    let modules := t.modules
    let t := t.keepModules modules
    let artifacts :=
      if t.config.isLibrary then .ok (t.libraryArtifacts files entry modules)
      else t.applicationArtifacts files entry modules
    match artifacts with
    | .error e => ⟨.error e, t, files⟩
    | .ok artifacts => t.perform files (t.writeOutput artifacts)

def analyze? : Option BuildTarget := do
  let (registry, log) := Wiring.validate t.session.registry t.session.log
  let s := { t.session with registry := registry, log := log }.loadStyles files
  let s ← s.compileTemplates? files t.config.output.assetUrl
  return { t with session := s }

def build? : Option TargetResult :=
  if !files.isFile t.entry then some ⟨.error (.entryUnresolved t.name t.entry.key), t, files⟩
  else do
    let (s, id) := t.session.compileEntry files t.entry
    let t ← { t with session := s, entryId := some id }.analyze? files
    return t.finish files

def owns (path : Path) : ChangeKind → Bool
  | .content => (t.session.graph.lookup? path).isSome || t.session.registry.output.templatePaths.contains path
  | .style =>
    t.session.registry.output.stylePaths.contains path ||
      t.config.output.styles.any fun name => (t.sourceRoot.join name).clean == path
  | .asset => !t.config.isLibrary && path.isBelow t.sourceRoot

def recompile? (path : Path) : ChangeKind → Option TargetResult
  | .content => do
    let s := ((t.session.recompile files path).map (·.1)).getD t.session
    let t ← { t with session := s }.analyze? files
    return t.finish files
  | .style => some ({ t with session := t.session.loadStyles files }.finish files)
  | .asset =>
    some (t.perform files do
      discard (Asset.copyAll t.sourceRoot t.outDir t.config.output.assets)
      Output.save
      return [])

def watched : List Path :=
  t.session.graph.records.map (·.path) ++ t.session.registry.output.templatePaths.keys ++
    t.session.registry.output.stylePaths.keys

end BuildTarget

end ComponentCompiler
