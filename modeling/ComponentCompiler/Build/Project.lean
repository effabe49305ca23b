import ComponentCompiler.Build.Target

/-! Builds of a project: its targets, one after the other. -/

namespace ComponentCompiler

structure BuildReport where
  project : String
  targets : List TargetReport

namespace BuildReport

def diagnosticCount (r : BuildReport) : Nat := (r.targets.flatMap (·.diagnostics)).length

def hasDiagnostics (r : BuildReport) : Bool := 0 < r.diagnosticCount

end BuildReport

structure ProjectBuild where
  project : String
  root : Path
  targets : List BuildTarget

structure ProjectResult where
  outcome : Except BuildError BuildReport
  build : ProjectBuild
  files : FileTree

namespace ProjectBuild

def manifestFile : String := "loom.json"

def prepareTargets (root : Path) (config : ProjectConfig) (outDir : TargetEntry → Path) :
    FileTree → List TargetEntry → List BuildTarget × FileTree
  | files, [] => ([], files)
  | files, entry :: rest =>
    let (target, files) := BuildTarget.new root config (outDir entry) files entry
    let (targets, files) := prepareTargets root config outDir files rest
    (target :: targets, files)

/-- Prepares the targets of a project. One target alone has the output folder; several have a folder
each inside it. -/
def prepare (files : FileTree) (root : Path) (name : String) (config : ProjectConfig) :
    Except BuildError (ProjectBuild × FileTree) := do
  let root := root.clean
  let entries ← config.entries files root
  if entries.isEmpty then throw (.entryUnresolved name config.output.entryFile.display)
  let folder := root.join config.output.folder
  let outDir (entry : TargetEntry) : Path := if entries.length == 1 then folder else folder.join entry.name
  let (targets, files) := prepareTargets root config outDir files entries
  return (⟨name, root, targets⟩, files)

def load (files : FileTree) (root : Path) (name : Option String) : Except BuildError (ProjectBuild × FileTree) := do
  let manifest ← Manifest.load files (root.join manifestFile)
  let (name, config) ← manifest.project name
  prepare files root name config

abbrev TargetAction := BuildTarget → FileTree → Option TargetResult

structure TargetsResult where
  outcome : Except BuildError (List TargetReport)
  targets : List BuildTarget
  files : FileTree

def runTargets (concerned : BuildTarget → Bool) (action : TargetAction) :
    List BuildTarget → FileTree → Option TargetsResult
  | [], files => some ⟨.ok [], [], files⟩
  | t :: rest, files =>
    if concerned t then do
      let result ← action t files
      match result.outcome with
      | .error e => return ⟨.error e, result.target :: rest, result.files⟩
      | .ok report =>
        let others ← runTargets concerned action rest result.files
        return ⟨others.outcome.map (report :: ·), result.target :: others.targets, others.files⟩
    else do
      let others ← runTargets concerned action rest files
      return ⟨others.outcome, t :: others.targets, others.files⟩

def build? (p : ProjectBuild) (files : FileTree) : Option ProjectResult := do
  let result ← runTargets (fun _ => true) BuildTarget.build? p.targets files
  return ⟨result.outcome.map (⟨p.project, ·⟩), { p with targets := result.targets }, result.files⟩

def recompile? (p : ProjectBuild) (files : FileTree) (path : Path) (kind : ChangeKind) : Option ProjectResult := do
  let path := path.clean
  let result ← runTargets (·.owns path kind) (fun t files => t.recompile? files path kind) p.targets files
  let outcome := do
    let reports ← result.outcome
    if reports.isEmpty then throw (.unknownFile path)
    return (⟨p.project, reports⟩ : BuildReport)
  return ⟨outcome, { p with targets := result.targets }, result.files⟩

def watched (p : ProjectBuild) : List Path :=
  SortedSet.toList (.ofList (p.targets.flatMap (·.watched)))

end ProjectBuild

end ComponentCompiler
