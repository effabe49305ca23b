import ComponentCompiler.Graph.Basic

/-!
The session of a target: its files, its registry and its log, and the names that files export.
-/

namespace ComponentCompiler

structure Session where
  resolver : Resolver
  library : Bool
  globals : SortedMap String String := ∅
  graph : FileGraph := {}
  registry : Registry := {}
  log : DiagnosticLog := .empty

structure ExportSurface where
  names : SortedSet String := ∅
  isOpen : Bool := false

namespace Session

def new (resolver : Resolver) (library : Bool) (globals : SortedMap String String) : Session :=
  { resolver := resolver, library := library, globals := globals }

variable (s : Session)

def report (d : Diagnostic) : Session := { s with log := s.log.push d }

def reportAny : Option Diagnostic → Session
  | none => s
  | some d => s.report d

def update (id : Nat) (f : FileRecord → FileRecord) : Session :=
  { s with graph := s.graph.update id f }

def importedPackage? (r : FileRecord) (index : Nat) : Option PackageImport :=
  ((r.resolved? index).bind (·.package?)).bind s.registry.packages.get?

structure SurfaceWalk where
  visited : List Nat := []
  isOpen : Bool := false

def addExport (r : FileRecord) (enter : SurfaceWalk → Nat → SurfaceWalk × SortedSet String)
    (done : SurfaceWalk × SortedSet String) (e : ExportName) : SurfaceWalk × SortedSet String :=
  let (walk, names) := done
  if !e.star then (walk, names.add e.exported)
  else
    match e.reexportOf with
    | none => done
    | some index =>
      match r.importTarget? index with
      | some target =>
        let (walk, inner) := enter walk target
        (walk, SortedSet.addMany names (SortedSet.toList (inner.erase "default")))
      | none =>
        match s.importedPackage? r index with
        | some p =>
          ({ walk with isOpen := walk.isOpen || p.openExports },
            SortedSet.addMany names ((SortedSet.toList p.exports).filter (· != "default")))
        | none => ({ walk with isOpen := true }, names)

def collectExports (s : Session) : Nat → SurfaceWalk → Nat → SurfaceWalk × SortedSet String
  | 0, walk, _ => (walk, ∅)
  | fuel + 1, walk, id =>
    if walk.visited.contains id then (walk, ∅)
    else
      let walk := { walk with visited := id :: walk.visited }
      match s.graph.get? id with
      | none => ({ walk with isOpen := true }, ∅)
      | some r =>
        match r.surface with
        | none => ({ walk with isOpen := true }, ∅)
        | some m => m.exports.foldl (s.addExport r (s.collectExports fuel)) (walk, ∅)

def exportSurface (id : Nat) : ExportSurface :=
  let (walk, names) := s.collectExports (s.graph.size + 1) {} id
  ⟨names, walk.isOpen⟩

def notExported (importer : FileRecord) (missing : List String) (target : String) : Diagnostic :=
  let names := Text.join ", " missing
  { code := .importNotExported
    message := target ++ " does not export " ++ names
    file := importer.key
    identifier := some names
    context := some target }

/-- What an import asks for and its target does not export, unless the target failed or has names that
are not known. -/
def missingNames (r : FileRecord) (index target : Nat) : List String :=
  if (s.graph.get? target).any (·.state = .failed) then []
  else
    match r.requestedNames index with
    | [] => []
    | requested =>
      let surface := s.exportSurface target
      if surface.isOpen then [] else requested.filter fun name => !surface.names.contains name

variable (importer index : Nat)

def importError? : Option Diagnostic := do
  let r ← s.graph.get? importer
  let target ← r.importTarget? index
  let missing := s.missingNames r index target
  let key := ((s.graph.get? target).map (·.key)).getD ""
  if missing.isEmpty then none else some (notExported r missing key)

def packageError? (package : String) : Option Diagnostic := do
  let r ← s.graph.get? importer
  let p ← s.registry.packages.get? package
  let missing := (r.requestedNames index).filter fun name => !p.exportsName name
  if missing.isEmpty then none else some (notExported r missing package)

def checkImport : Session := s.reportAny (s.importError? importer index)

def checkPackageImport (package : String) : Session :=
  s.reportAny (s.packageError? importer index package)

def recheckImport (importer : Nat) (s : Session) (index : Nat) : Session :=
  match s.graph.get? importer with
  | none => s
  | some r =>
    if (r.importTarget? index).isSome then s.checkImport importer index
    else
      match (r.resolved? index).bind (·.package?) with
      | some package => if s.library then s.checkPackageImport importer index package else s
      | none => s

def recheckImports (importer : Nat) : Session :=
  match s.graph.get? importer with
  | none => s
  | some r =>
    let s := { s with log := s.log.clearFileCodes r.key [.importNotExported] }
    (List.range r.importTargets.length).foldl (recheckImport importer) s

end Session

end ComponentCompiler
