import ComponentCompiler.Selector.Basic

/-! Queries: which query of a component a node of its template belongs to. -/

namespace ComponentCompiler

/-- How a query's selector matched a node; earlier ranks win. -/
inductive QueryRank where
  | reference
  | tag
  | directive
  | attribute
deriving DecidableEq, Repr

namespace QueryRank

def toNat : QueryRank → Nat
  | .reference => 0
  | .tag => 1
  | .directive => 2
  | .attribute => 3

/-- Ranks a selector against a node: by reference, then tag, then directive, then as a compound
selector. -/
def of? (selector : String) (target : MatchTarget) : Option QueryRank :=
  let selector := Text.trim selector
  let plain := String.ofList (selector.toList.dropWhile (· == '#'))
  if target.reference = some plain then some .reference
  else if Text.startsWith "#" selector then none
  else if Selector.equalIgnoringCase selector target.tag then some .tag
  else if target.directives.contains selector then some .directive
  else if (Selector.listOfText selector).any fun s => s.bareName?.isNone && s.selects target then
    some .attribute
  else none

def better {α : Type} (a b : QueryRank × α) : QueryRank × α := if b.1.toNat < a.1.toNat then b else a

end QueryRank

def bestQuery? (queries : List (String × String)) (target : MatchTarget) : Option String :=
  let ranked := queries.filterMap fun (property, selector) =>
    (QueryRank.of? selector target).map fun rank => (rank, property)
  match ranked with
  | [] => none
  | first :: rest => some (rest.foldl QueryRank.better first).2

end ComponentCompiler
