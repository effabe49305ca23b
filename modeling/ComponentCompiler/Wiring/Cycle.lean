import ComponentCompiler.Collection.SortedMap
import ComponentCompiler.Text.Basic

/-!
Cycles of a graph of names, found by a depth-first search. A name that the search has left is not
entered again.
-/

namespace ComponentCompiler

abbrev NameGraph := SortedMap String (List String)

namespace NameGraph

def targets (graph : NameGraph) (name : String) : List String := (graph.get? name).getD []

structure Search where
  done : SortedSet String := ∅
  cycles : SortedSet (List String) := ∅

def smallest : List String → Option String
  | [] => none
  | name :: rest =>
    match smallest rest with
    | none => some name
    | some other => if other < name then some other else some name

def normalizeCycle (cycle : List String) : List String :=
  match smallest cycle with
  | none => []
  | some name => cycle.dropWhile (· != name) ++ cycle.takeWhile (· != name)

def follow (enter : Search → String → Search) (path : List String) (search : Search) (next : String) : Search :=
  if path.contains next then
    { search with cycles := search.cycles.add (normalizeCycle (path.dropWhile (· != next))) }
  else if search.done.contains next then search
  else enter search next

/-- Visits a name and everything that can be reached from it; the bound counts names on the path. -/
def visit (graph : NameGraph) : Nat → List String → Search → String → Search
  | 0, _, search, _ => search
  | fuel + 1, path, search, name =>
    let path := path ++ [name]
    let search := (graph.targets name).foldl (follow (visit graph fuel path) path) search
    { search with done := search.done.add name }

def bound (graph : NameGraph) : Nat := graph.values.flatten.length + graph.size + 1

def cycles (graph : NameGraph) : List (List String) :=
  let search := graph.keys.foldl
    (fun (search : Search) name =>
      if search.done.contains name then search else visit graph graph.bound [] search name) {}
  SortedSet.toList search.cycles

def cyclePath (cycle : List String) : String := Text.join " -> " (cycle ++ cycle.take 1)

end NameGraph

end ComponentCompiler
