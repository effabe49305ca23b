import ComponentCompiler.Output.Cache

/-! Assets: files and folders that are copied to the output as they are. -/

namespace ComponentCompiler

def Path.dropNamed : Nat → List String → List String
  | 0, segments => segments
  | _, [] => []
  | count + 1, segment :: rest =>
    if isTrivial segment then dropNamed (count + 1) rest else dropNamed count rest

def Path.relativeTo? (p dir : Path) : Option String :=
  if !p.isBelow dir then none
  else if dir.components.isEmpty then some p.text
  else
    let below := dropNamed (dir.components.length - dir.lead.toList.length) p.body
    some (Text.join "/" (dropTrivialEnd (below.dropWhile isTrivial)))

namespace Asset

def paths (files : FileTree) (base : Path) : List Path :=
  match files.locate base with
  | .error _ => []
  | .ok location =>
    (files.filesBelow location).map fun (found, _) =>
      match found.drop location.length with
      | [] => base
      | below => base.join (Text.join "/" below)

def copyFile (source target : Path) (path : Path) : Output Bool := do
  match path.relativeTo? source with
  | none => return false
  | some relative =>
    match (← Output.files).read path with
    | .ok content => Output.write (target.join relative) content
    | .error cause => throw (.fileFailure path cause)

def copyFiles (source target : Path) : List Path → Output Nat
  | [] => return 0
  | path :: rest => do
    let isNew ← copyFile source target path
    let count ← copyFiles source target rest
    return if isNew then count + 1 else count

def copyAll (source target : Path) : List String → Output Nat
  | [] => return 0
  | asset :: rest => do
    let first ← copyFiles source target (paths (← Output.files) (source.join asset))
    let others ← copyAll source target rest
    return first + others

end Asset

end ComponentCompiler
