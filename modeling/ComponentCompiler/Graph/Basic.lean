import ComponentCompiler.Registry.Basic
import ComponentCompiler.Resolution.Resolver
import ComponentCompiler.SourceModule.Basic

/-! The graph of the files of a target. A record's number is its place in the list of records. -/

namespace ComponentCompiler

inductive FileState where
  | inProgress
  | compiled
  | compiledExternal
  | failed
deriving DecidableEq, Repr

structure FileRecord where
  id : Nat
  path : Path
  state : FileState := .inProgress
  parent : Option Nat
  /-- The root of the chunk that it belongs to, unless it is in the main table. -/
  lazyRoot : Option Nat
  package : Option String
  surface : Option SourceModule := none
  resolved : List (Option ResolvedImport) := []
  annotations : List (AnnotationKind × String) := []
  /-- The file that each import leads to; packages of a library have none. -/
  importTargets : List (Option Nat) := []
  lazyTargets : List (Option Path) := []
  output : Option String := none

namespace FileRecord

variable (r : FileRecord)

def key : String := r.path.key

def isCompiled : Bool := r.state = .compiled || r.state = .compiledExternal

def importTarget? (index : Nat) : Option Nat := r.importTargets[index]?.join

def resolved? (index : Nat) : Option ResolvedImport := r.resolved[index]?.join

def lazyTarget? (index : Nat) : Option Path := r.lazyTargets[index]?.join

def imports : List ImportStatement := (r.surface.map (·.imports)).getD []

/-- The record of the same file at the same place, before anything is known of the file. -/
def blank : FileRecord where
  id := r.id
  path := r.path
  parent := r.parent
  lazyRoot := r.lazyRoot
  package := r.package

def requestedNames (index : Nat) : List String :=
  (r.imports[index]?.map (·.requestedNames)).getD []

end FileRecord

structure FileGraph where
  records : List FileRecord := []
  index : SortedMap Path Nat := ∅

namespace FileGraph

variable (g : FileGraph)

def size : Nat := g.records.length

def get? (id : Nat) : Option FileRecord := g.records[id]?

def lookup? (path : Path) : Option Nat := g.index.get? path

def push (path : Path) (parent lazyRoot : Option Nat) (package : Option String) : FileGraph where
  records := g.records ++
    [{ id := g.size, path := path, parent := parent, lazyRoot := lazyRoot, package := package }]
  index := g.index.insert path g.size

def update (id : Nat) (f : FileRecord → FileRecord) : FileGraph :=
  { g with records := g.records.modify id f }

def reset (id : Nat) : FileGraph := g.update id (·.blank)

def importersOf (id : Nat) : List Nat :=
  (g.records.filter fun r => r.importTargets.contains (some id)).map (·.id)

def mainFiles : List FileRecord :=
  g.records.filter fun r => r.lazyRoot.isNone && r.isCompiled

def chunkFiles (root : Nat) : List FileRecord :=
  g.records.filter fun r => r.lazyRoot == some root && r.isCompiled

def chunkRoots : List Nat := SortedSet.toList (.ofList (g.records.filterMap (·.lazyRoot)))

def chunkDependencies (root : Nat) : List Nat :=
  let targets := (g.chunkFiles root).flatMap fun r => r.importTargets.reduceOption
  let roots := targets.filterMap fun id => (g.get? id).bind (·.lazyRoot)
  SortedSet.toList (.ofList (roots.filter (· != root)))

end FileGraph

end ComponentCompiler
