import ComponentCompiler.Files.Glob
import ComponentCompiler.Project.Config

/-! The manifest of a folder, with the projects that are built from it. -/

namespace ComponentCompiler

inductive BuildError where
  | manifestNotFound (path : Path)
  | manifestMalformed (path : Path)
  | unknownProject (name : String)
  | entryUnresolved (project entry : String)
  | entryPattern (pattern : String)
  | fileFailure (path : Path) (cause : FileError)
  | unknownFile (path : Path)
deriving Repr

def BuildError.message : BuildError → String
  | .manifestNotFound path => "project manifest not found: " ++ path.text
  | .manifestMalformed path => "failed to parse project manifest " ++ path.text
  | .unknownProject name => "project \x60" ++ name ++ "\x60 is not defined in the manifest"
  | .entryUnresolved project entry => "project \x60" ++ project ++ "\x60 has no resolvable entry: " ++ entry
  | .entryPattern pattern => "invalid entry pattern \x60" ++ pattern ++ "\x60"
  | .fileFailure path cause => "I/O failure on " ++ path.text ++ ": " ++ cause.message
  | .unknownFile path => "file \x60" ++ path.text ++ "\x60 is not part of any compiled target"

structure Manifest where
  defaultProject : Option String
  projects : SortedMap String ProjectConfig

namespace Manifest

def shape : Shape := .record [("default", .whole), ("projects", .map ProjectConfig.shape)]

def ofDocument? (document : Json) : Option Manifest := do
  let r ← JsonRecord.of? shape document
  return {
    defaultProject := ← r.optional "default" Decoder.string
    projects := ← r.required "projects" (Decoder.map ProjectConfig.ofDocument?) }

def ofText? (text : String) : Option Manifest := Json.decode? shape ofDocument? text

def load (tree : FileTree) (path : Path) : Except BuildError Manifest :=
  if !tree.isFile path then .error (.manifestNotFound path)
  else
    match tree.readText path with
    | .error cause => .error (.fileFailure path cause)
    | .ok text =>
      match ofText? text with
      | some manifest => .ok manifest
      | none => .error (.manifestMalformed path)

def project (m : Manifest) (name : Option String) : Except BuildError (String × ProjectConfig) :=
  match (name.or m.defaultProject).or m.projects.keys.head? with
  | none => .error (.unknownProject "")
  | some name =>
    match m.projects.get? name with
    | some config => .ok (name, config)
    | none => .error (.unknownProject name)

end Manifest

structure TargetEntry where
  name : String
  path : Path

namespace ProjectConfig

def isPattern (text : String) : Bool := text.toList.any fun c => c == '*' || c == '?' || c == '['

def namedEntries (tree : FileTree) (sourceRoot : Path) (name file : String) : Except BuildError (List TargetEntry) :=
  if isPattern file then
    match Glob.paths? tree (sourceRoot.join file).text with
    | some paths => .ok ((paths.filter tree.isFile).map fun path => ⟨path.fileStem?.getD name, path⟩)
    | none => .error (.entryPattern file)
  else .ok [⟨name, sourceRoot.join file⟩]

def entries (c : ProjectConfig) (tree : FileTree) (root : Path) : Except BuildError (List TargetEntry) :=
  let sourceRoot := root.join c.sourceRoot
  match c.output.entryFile with
  | .single file => .ok [⟨(⟨c.output.folder⟩ : Path).fileName?.getD "main", sourceRoot.join file⟩]
  | .named files => do
    let found ← files.toList.mapM fun (name, file) => namedEntries tree sourceRoot name file
    return found.flatten

end ProjectConfig

end ComponentCompiler
