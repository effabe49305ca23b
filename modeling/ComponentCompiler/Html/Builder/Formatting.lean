import ComponentCompiler.Html.Builder.Basic
import ComponentCompiler.Collection.Sort

/-! Formatting elements that reach over the ends of other elements. -/

namespace ComponentCompiler.Html.Builder

namespace FormatEntry

def id? : FormatEntry → Option NodeId
  | .marker => none
  | .element id _ _ => some id

end FormatEntry

variable (b : Builder)

def activeEntries : List FormatEntry :=
  b.formatting.reverse.takeWhile (· != .marker)

def removeFormatting (id : NodeId) : Builder :=
  { b with formatting := b.formatting.filter fun entry => FormatEntry.id? entry != some id }

def isActive (id : NodeId) : Bool :=
  b.formatting.any fun entry => FormatEntry.id? entry == some id

def replaceFormatting (id : NodeId) (entry : FormatEntry) : Builder :=
  { b with formatting := b.formatting.map fun old => if FormatEntry.id? old == some id then entry else old }

def pushMarker : Builder := { b with formatting := b.formatting ++ [.marker] }

def clearToMarker : Builder :=
  { b with formatting := ((b.formatting.reverse.dropWhile (· != .marker)).drop 1).reverse }

def isMarkerOrOpen : FormatEntry → Bool
  | .marker => true
  | .element id _ _ => b.open'.contains id

def reopen (b : Builder) : List FormatEntry → Builder
  | [] => b
  | .marker :: rest => b.reopen rest
  | .element old name attributes :: rest =>
    let (b, id) := b.insertElement .html name attributes true
    (b.replaceFormatting old (.element id name attributes)).reopen rest

def reconstruct : Builder :=
  b.reopen (b.formatting.reverse.takeWhile fun entry => !b.isMarkerOrOpen entry).reverse

def attributeLe (a b : Attribute) : Bool := a.name < b.name || (a.name == b.name && a.value ≤ b.value)

variable (name : String)

def isAlike (attributes : List Attribute) : FormatEntry → Bool
  | .marker => false
  | .element _ other others =>
    other == name && sortBy attributeLe others == sortBy attributeLe attributes

/-- Opens a formatting element. Of more than three alike the oldest is given up. -/
def openFormatting (attributes : List Attribute) : Builder :=
  let alike := b.activeEntries.filter (isAlike name attributes)
  let b :=
    if 3 ≤ alike.length then
      match alike.getLast? with
      | some (.element id _ _) => b.removeFormatting id
      | _ => b
    else b
  let (b, id) := b.insertElement .html name attributes true
  { b with formatting := b.formatting ++ [.element id name attributes] }

def closeGeneric : Builder :=
  match b.open'.find? fun id => b.isNamed name id || b.isIn specialNames id with
  | none => b
  | some id =>
    if b.isNamed name id then
      let outer := (b.open'.dropWhile (· != id)).drop 1
      { b with open' := outer }
    else b

inductive Bookmark where
  | replace
  | after (id : NodeId)

structure Climb where
  builder : Builder
  stack : List NodeId
  last : NodeId
  bookmark : Bookmark

/-- Climbs from below position `index` up to the formatting element, copying the formatting elements on
the way. -/
def climb (formatting furthest : NodeId) : Nat → Nat → Climb → Climb
  | 0, _, c => c
  | index + 1, count, c =>
    match c.stack[index]? with
    | none => c
    | some id =>
      if id = formatting then c
      else
        let entry := c.builder.formatting.find? fun entry => FormatEntry.id? entry == some id
        match entry with
        | some (.element _ name attributes) =>
          if 3 < count then
            climb formatting furthest index (count + 1)
              { c with builder := c.builder.removeFormatting id, stack := c.stack.eraseIdx index }
          else
            let (document, copy) := c.builder.document.createElement .html name attributes
            let b := { c.builder with document }.replaceFormatting id (.element copy name attributes)
            let bookmark := if c.last = furthest then .after copy else c.bookmark
            let b := { b with document := b.document.append copy c.last }
            climb formatting furthest index (count + 1)
              { builder := b, stack := c.stack.set index copy, last := copy, bookmark }
        | _ => climb formatting furthest index (count + 1) { c with stack := c.stack.eraseIdx index }

def putAfter (id : NodeId) (entry : FormatEntry) : List FormatEntry → List FormatEntry
  | [] => []
  | e :: rest => if FormatEntry.id? e == some id then e :: entry :: rest else e :: putAfter id entry rest

def putInside (outer id : NodeId) : List NodeId → List NodeId
  | [] => []
  | e :: rest => if e = outer then e :: id :: rest else e :: putInside outer id rest

def moveOut (stack : List NodeId) (formattingIndex furthestIndex : Nat)
    (formatting furthest : NodeId) (name : String) (attributes : List Attribute) : Builder :=
  let ancestor := stack.getD (formattingIndex - 1) Document.root
  let c := climb formatting furthest furthestIndex 1 ⟨b, stack, furthest, .replace⟩
  let b := c.builder
  let b := { b with document := b.document.detach c.last, open' := c.stack.reverse }
  let b := b.insertAt (b.placeIn ancestor) c.last
  let (document, copy) := b.document.createElement .html name attributes
  let document := (document.moveChildren furthest copy).append furthest copy
  let entry := FormatEntry.element copy name attributes
  let b := { b with document }
  let b :=
    match c.bookmark with
    | .replace => b.replaceFormatting formatting entry
    | .after id => { b with formatting := putAfter id entry b.formatting }.removeFormatting formatting
  { b with open' := (putInside furthest copy (c.stack.filter (· != formatting))).reverse }

def adoptOnce : Builder × Bool :=
  let isWanted : FormatEntry → Bool
    | .element _ other _ => other == name
    | .marker => false
  match b.activeEntries.find? isWanted with
  | some (.element formatting name attributes) =>
    let stack := b.open'.reverse
    match stack.findIdx? (· == formatting) with
    | none => (b.removeFormatting formatting, false)
    | some formattingIndex =>
      if !b.inScope endsScope (· == formatting) then (b, false)
      else
        match (stack.drop formattingIndex).find? (b.isIn specialNames) with
        | none =>
          ({ b with open' := (stack.take formattingIndex).reverse }.removeFormatting formatting, false)
        | some furthest =>
          let furthestIndex := (stack.findIdx? (· == furthest)).getD 0
          (b.moveOut stack formattingIndex furthestIndex formatting furthest name attributes, true)
  | _ => (b.closeGeneric name, false)

def adoptRounds (name : String) : Nat → Builder → Builder
  | 0, b => b
  | rounds + 1, b =>
    match b.adoptOnce name with
    | (b, true) => adoptRounds name rounds b
    | (b, false) => b

def adopt : Builder :=
  match b.current? with
  | some id =>
    if b.isNamed name id && !b.isActive id then b.pop else adoptRounds name 8 b
  | none => b

def closeActiveLink : Builder :=
  let isLink : FormatEntry → Bool
    | .element _ name _ => name == "a"
    | .marker => false
  match b.activeEntries.find? isLink with
  | some (.element id _ _) => ((b.adopt "a").removeFormatting id).removeOpen id
  | _ => b

end ComponentCompiler.Html.Builder
