import ComponentCompiler.Html.Document

/-!
The state of tree construction: the document, the open elements and the insertion mode. Open
elements are listed innermost first.
-/

namespace ComponentCompiler.Html

inductive Mode where
  | initial
  | beforeHtml
  | beforeHead
  | inHead
  | afterHead
  | inBody
  | text
  | inTable
  | inTableText
  | inCaption
  | inColumnGroup
  | inTableBody
  | inRow
  | inCell
  | inSelect
  | inSelectInTable
  | inTemplate
  | afterBody
  | inFrameset
  | afterFrameset
  | afterAfterBody
  | afterAfterFrameset
deriving DecidableEq, Repr

inductive FormatEntry where
  | marker
  | element (id : NodeId) (name : String) (attributes : List Attribute)
deriving DecidableEq, Repr

structure Builder where
  document : Document := .empty
  mode : Mode := .initial
  returnMode : Mode := .initial
  templateModes : List Mode := []
  pendingText : List (List Char) := []
  oldStyle : Bool := false
  open' : List NodeId := []
  formatting : List FormatEntry := []
  head : Option NodeId := none
  form : Option NodeId := none
  framesetOk : Bool := true
  ignoreLineFeed : Bool := false
  fosterParenting : Bool := false
  content : Content := .data
  contentName : String := ""

inductive Outcome where
  | done
  /-- The token is looked at again under the mode of the state. -/
  | again (token : Token)

def specialNames : List String :=
  ["address", "applet", "area", "article", "aside", "base", "basefont", "bgsound", "blockquote",
    "body", "br", "button", "caption", "center", "col", "colgroup", "dd", "details", "dir", "div",
    "dl", "dt", "embed", "fieldset", "figcaption", "figure", "footer", "form", "frame", "frameset",
    "h1", "h2", "h3", "h4", "h5", "h6", "head", "header", "hgroup", "hr", "html", "iframe", "img",
    "input", "isindex", "li", "link", "listing", "main", "marquee", "menu", "meta", "nav", "noembed",
    "noframes", "noscript", "object", "ol", "p", "param", "plaintext", "pre", "script", "section",
    "select", "source", "style", "summary", "table", "tbody", "td", "template", "textarea", "tfoot",
    "th", "thead", "title", "tr", "track", "ul", "wbr", "xmp"]

def headingNames : List String := ["h1", "h2", "h3", "h4", "h5", "h6"]

def impliedNames : List String := ["dd", "dt", "li", "option", "optgroup", "p", "rb", "rp", "rt", "rtc"]

def thoroughNames : List String :=
  impliedNames ++ ["caption", "colgroup", "tbody", "td", "tfoot", "th", "thead", "tr"]

def tableScopeNames : List String := ["html", "table", "template"]

def tableBodyNames : List String := ["tbody", "tfoot", "thead", "template", "html"]

def tableRowNames : List String := ["tr", "template", "html"]

variable (name : Namespace × String)

def isTextIntegrationPoint : Bool :=
  name.1 == .mathml && ["mi", "mo", "mn", "ms", "mtext"].contains name.2

def isHtmlIntegrationPoint : Bool :=
  name.1 == .svg && ["foreignObject", "desc", "title"].contains name.2

def endsScope : Bool :=
  (name.1 == .html &&
    ["applet", "caption", "html", "table", "td", "th", "marquee", "object", "template"].contains name.2) ||
  isTextIntegrationPoint name || isHtmlIntegrationPoint name

def endsListScope : Bool :=
  endsScope name || (name.1 == .html && (name.2 == "ol" || name.2 == "ul"))

def endsButtonScope : Bool :=
  endsScope name || name == (.html, "button")

def endsTableScope : Bool :=
  name.1 == .html && tableScopeNames.contains name.2

def endsSelectScope : Bool :=
  !(name.1 == .html && (name.2 == "optgroup" || name.2 == "option"))

namespace Builder

variable (b : Builder)

def nameOf (id : NodeId) : Namespace × String :=
  match (b.document.node id).data with
  | .element ns name _ _ => (ns, name)
  | _ => (.html, "")

variable (name : String)

def isNamed (id : NodeId) : Bool := b.nameOf id == (.html, name)

def isIn (names : List String) (id : NodeId) : Bool :=
  (b.nameOf id).1 == .html && names.contains (b.nameOf id).2

def current? : Option NodeId := b.open'.head?

def currentIs (p : NodeId → Bool) : Bool := b.current?.any p

def currentNamed : Bool := b.currentIs (b.isNamed name)

def inScope (ends : Namespace × String → Bool) (p : NodeId → Bool) : Bool :=
  walk b.open'
where
  walk : List NodeId → Bool
    | [] => false
    | id :: rest => p id || (!ends (b.nameOf id) && walk rest)

def inScopeNamed (ends : Namespace × String → Bool) (name : String) : Bool :=
  b.inScope ends (b.isNamed name)

def hasOpen : Bool := b.open'.any (b.isNamed name)

def currentIsForeign : Bool := b.currentIs fun id => (b.nameOf id).1 != .html

def body? : Option NodeId :=
  match b.open'.reverse with
  | _ :: id :: _ => if b.isNamed "body" id then some id else none
  | _ => none

def pop : Builder := { b with open' := b.open'.drop 1 }

def popThrough (p : NodeId → Bool) : Builder :=
  { b with open' := (b.open'.dropWhile fun id => !p id).drop 1 }

def popThroughNamed : Builder := b.popThrough (b.isNamed name)

def popUntil (names : List String) : Builder :=
  { b with open' := b.open'.dropWhile fun id => !b.isIn names id }

def closeImplied (names : List String) : Builder :=
  { b with open' := b.open'.dropWhile (b.isIn names) }

def closeImpliedExcept : Builder :=
  b.closeImplied (impliedNames.filter (· != name))

def removeOpen (id : NodeId) : Builder := { b with open' := b.open'.filter (· != id) }

def closeParagraph : Builder := (b.closeImpliedExcept "p").popThroughNamed "p"

def closeParagraphInButtonScope : Builder :=
  if b.inScopeNamed endsButtonScope "p" then b.closeParagraph else b

inductive Place where
  | lastChild (parent : NodeId)
  /-- Before a table, or at the end of the element around it if the table has no parent. -/
  | beforeTable (table around : NodeId)

def contentsOf (id : NodeId) : NodeId :=
  match (b.document.node id).data with
  | .element _ _ _ (some contents) => contents
  | _ => id

def fosterPlace (b : Builder) : List NodeId → Place
  | [] => .lastChild (b.open'.getLast?.getD Document.root)
  | id :: rest =>
    if b.isNamed "template" id then .lastChild (b.contentsOf id)
    else if b.isNamed "table" id then .beforeTable id (rest.head?.getD Document.root)
    else b.fosterPlace rest

def placeIn (target : NodeId) : Place :=
  if b.fosterParenting && b.isIn ["table", "tbody", "tfoot", "thead", "tr"] target then
    b.fosterPlace b.open'
  else .lastChild (b.contentsOf target)

def place : Place := b.placeIn (b.current?.getD Document.root)

def insertAt (place : Place) (id : NodeId) : Builder :=
  match place with
  | .lastChild parent => { b with document := b.document.append parent id }
  | .beforeTable table around =>
    match (b.document.node table).parent with
    | some parent => { b with document := b.document.insertBefore parent table id }
    | none => { b with document := b.document.append around id }

def insertText (text : String) : Builder :=
  match b.place with
  | .lastChild parent => { b with document := b.document.appendText parent text }
  | .beforeTable table around =>
    match (b.document.node table).parent with
    | some parent => { b with document := b.document.insertTextBefore parent table text }
    | none => { b with document := b.document.appendText around text }

def insertComment : Builder :=
  let (document, id) := b.document.create .comment
  { b with document }.insertAt b.place id

def insertElement (ns : Namespace) (name : String) (attributes : List Attribute) (opens : Bool) : Builder × NodeId :=
  let (document, id) := b.document.createElement ns name attributes
  let b := { b with document }.insertAt b.place id
  (if opens then { b with open' := id :: b.open' } else b, id)

def openElement (attributes : List Attribute) : Builder :=
  (b.insertElement .html name attributes true).1

def voidElement (attributes : List Attribute) : Builder :=
  (b.insertElement .html name attributes false).1

def openText (attributes : List Attribute) (content : Content) : Builder :=
  let b := b.openElement name attributes
  { b with returnMode := b.mode, mode := .text, content, contentName := name }

def modeFor (b : Builder) : List NodeId → Mode
  | [] => .inBody
  | id :: rest =>
    let outermost := rest.isEmpty
    match b.nameOf id with
    | (.html, name) =>
      match name with
      | "select" =>
        match rest.find? fun id => b.isNamed "template" id || b.isNamed "table" id with
        | some id => if b.isNamed "table" id then .inSelectInTable else .inSelect
        | none => .inSelect
      | "td" | "th" => if outermost then b.modeFor rest else .inCell
      | "tr" => .inRow
      | "tbody" | "thead" | "tfoot" => .inTableBody
      | "caption" => .inCaption
      | "colgroup" => .inColumnGroup
      | "table" => .inTable
      | "template" => b.templateModes.headD .inBody
      | "head" => if outermost then b.modeFor rest else .inHead
      | "body" => .inBody
      | "frameset" => .inFrameset
      | "html" => if b.head.isNone then .beforeHead else .afterHead
      | _ => b.modeFor rest
    | _ => b.modeFor rest

def resetMode : Builder := { b with mode := b.modeFor b.open' }

end Builder

end ComponentCompiler.Html
