import ComponentCompiler.Html.Builder.Table
import ComponentCompiler.Html.Tokenizer

/-!
Parsing of HTML documents: the remaining rules, and the loop that feeds tokens to them. Main
definition: `Html.parse`.
-/

namespace ComponentCompiler.Html

def pieceSize : Nat := 4096

def isMark (c : Char) : Bool := c.toNat == 0xFEFF

def dropMark : List Char → List Char
  | [] => []
  | c :: rest => if isMark c then rest else c :: rest

def isShared (offset : Nat) (c : Char) : Bool := pieceSize < offset % pieceSize + c.utf8Size

def dropMarks : Nat → Bool → List Char → List Char
  | _, _, [] => []
  | offset, starts, c :: rest =>
    let shared := isShared offset c
    let stop := offset + c.utf8Size
    let rest := dropMarks stop (shared || stop % pieceSize == 0) rest
    if isMark c && (starts || shared) then rest else c :: rest

namespace Builder

/-! ### Before the body -/

def oldPublicIds : List String :=
  ["-//advasoft ltd//dtd html 3.0 aswedit + extensions//", "-//as//dtd html 3.0 aswedit + extensions//",
    "-//ietf//dtd html 2.0 level 1//", "-//ietf//dtd html 2.0 level 2//",
    "-//ietf//dtd html 2.0 strict level 1//", "-//ietf//dtd html 2.0 strict level 2//",
    "-//ietf//dtd html 2.0 strict//", "-//ietf//dtd html 2.0//", "-//ietf//dtd html 2.1e//",
    "-//ietf//dtd html 3.0//", "-//ietf//dtd html 3.2 final//", "-//ietf//dtd html 3.2//",
    "-//ietf//dtd html 3//", "-//ietf//dtd html level 0//", "-//ietf//dtd html level 1//",
    "-//ietf//dtd html level 2//", "-//ietf//dtd html level 3//",
    "-//ietf//dtd html strict level 0//", "-//ietf//dtd html strict level 1//",
    "-//ietf//dtd html strict level 2//", "-//ietf//dtd html strict level 3//",
    "-//ietf//dtd html strict//", "-//ietf//dtd html//",
    "-//metrius//dtd metrius presentational//",
    "-//microsoft//dtd internet explorer 2.0 html strict//",
    "-//microsoft//dtd internet explorer 2.0 html//",
    "-//microsoft//dtd internet explorer 2.0 tables//",
    "-//microsoft//dtd internet explorer 3.0 html strict//",
    "-//microsoft//dtd internet explorer 3.0 html//",
    "-//microsoft//dtd internet explorer 3.0 tables//", "-//netscape comm. corp.//dtd html//",
    "-//netscape comm. corp.//dtd strict html//", "-//o'reilly and associates//dtd html 2.0//",
    "-//o'reilly and associates//dtd html extended 1.0//",
    "-//o'reilly and associates//dtd html extended relaxed 1.0//",
    "-//softquad software//dtd hotmetal pro 6.0::19990601::extensions to html 4.0//",
    "-//softquad//dtd hotmetal pro 4.0::19971010::extensions to html 4.0//",
    "-//spyglass//dtd html 2.0 extended//", "-//sq//dtd html 2.0 hotmetal + extensions//",
    "-//sun microsystems corp.//dtd hotjava html//",
    "-//sun microsystems corp.//dtd hotjava strict html//", "-//w3c//dtd html 3 1995-03-24//",
    "-//w3c//dtd html 3.2 draft//", "-//w3c//dtd html 3.2 final//", "-//w3c//dtd html 3.2//",
    "-//w3c//dtd html 3.2s draft//", "-//w3c//dtd html 4.0 frameset//",
    "-//w3c//dtd html 4.0 transitional//", "-//w3c//dtd html experimental 19960712//",
    "-//w3c//dtd html experimental 970421//", "-//w3c//dtd w3 html//", "-//w3o//dtd w3 html 3.0//",
    "-//webtechs//dtd mozilla html 2.0//", "-//webtechs//dtd mozilla html//"]

def oldAlonePublicIds : List String :=
  ["-//w3c//dtd html 4.01 frameset//", "-//w3c//dtd html 4.01 transitional//"]

def isOldStyle (d : Doctype) : Bool :=
  let publicId := Text.toAsciiLower (d.publicId.getD "")
  let systemId := Text.toAsciiLower (d.systemId.getD "")
  d.forceOldStyle || d.name != some "html" ||
    ["-//w3o//dtd w3 html strict 3.0//en//", "-/w3c/dtd html 4.0 transitional/en", "html"].contains publicId ||
    Text.endsWith "/ibmxhtml1-transitional.dtd" systemId ||
    oldPublicIds.any (Text.startsWith · publicId) ||
    (d.systemId.isNone && oldAlonePublicIds.any (Text.startsWith · publicId))

variable (b : Builder) (token : Token)

def initial : Step :=
  match token with
  | .text chars => if isBlankText chars then b.done else leave
  | .comment =>
    let (document, id) := b.document.create .comment
    { b with document := document.append Document.root id }.done
  | _ => leave
where
  leave : Step := { b with oldStyle := true }.again .beforeHtml token

def openRoot (attributes : List Attribute) : Builder :=
  let (document, id) := b.document.createElement .html "html" attributes
  { b with document := document.append Document.root id, open' := [id] }

def beforeHtml : Step :=
  match token with
  | .text chars => if isBlankText chars then b.done else leave
  | .comment =>
    let (document, id) := b.document.create .comment
    { b with document := document.append Document.root id }.done
  | .startTag "html" attributes _ => { b.openRoot attributes with mode := .beforeHead }.done
  | .endTag name => if ["head", "body", "html", "br"].contains name then leave else b.done
  | _ => leave
where
  leave : Step := (b.openRoot []).again .beforeHead token

def openHead (attributes : List Attribute) : Builder :=
  let (b, id) := b.insertElement .html "head" attributes true
  { b with head := some id }

def beforeHead : Step :=
  match token with
  | .text chars => if isBlankText chars then b.done else leave
  | .comment => b.insertComment.done
  | .startTag "html" _ _ => b.done
  | .startTag "head" attributes _ => { b.openHead attributes with mode := .inHead }.done
  | .endTag name => if ["head", "body", "html", "br"].contains name then leave else b.done
  | _ => leave
where
  leave : Step := (b.openHead []).again .inHead token

def afterHead : Step :=
  match token with
  | .text chars => if isBlankText chars then (b.appendText chars).done else leave
  | .comment => b.insertComment.done
  | .startTag name attributes _ =>
    match name with
    | "html" => b.done
    | "body" => { b.openElement name attributes with framesetOk := false, mode := .inBody }.done
    | "frameset" => { b.openElement name attributes with mode := .inFrameset }.done
    | "head" => b.done
    | _ =>
      -- What belongs in the head still goes there.
      let head := b.head.getD Document.root
      match { b with open' := head :: b.open' }.headStartTag? name attributes with
      | some b => (b.removeOpen head).done
      | none => leave
  | .endTag name =>
    match name with
    | "template" => b.closeTemplate.done
    | "body" | "html" | "br" => leave
    | _ => b.done
  | _ => leave
where
  leave : Step := (b.openElement "body" []).again .inBody token

/-! ### Text and the end of the document -/

def inText : Step :=
  match token with
  | .text chars => (b.appendText chars).done
  | .eof => { b.pop with content := .data }.again b.returnMode token
  | .endTag _ => { b.pop with content := .data, mode := b.returnMode }.done
  | _ => b.done

def appendCommentTo (parent : NodeId) : Builder :=
  let (document, id) := b.document.create .comment
  { b with document := document.append parent id }

def afterBody : Step :=
  match token with
  | .text chars => if isBlankText chars then b.inBody token else b.again .inBody token
  | .comment => (b.appendCommentTo (b.open'.getLast?.getD Document.root)).done
  | .startTag "html" _ _ => b.done
  | .endTag "html" => { b with mode := .afterAfterBody }.done
  | .eof => b.done
  | token => b.again .inBody token

def inFrameset : Step :=
  match token with
  | .text chars => if isBlankText chars then (b.appendText chars).done else b.done
  | .comment => b.insertComment.done
  | .startTag "frameset" attributes _ => (b.openElement "frameset" attributes).done
  | .startTag "frame" attributes _ => (b.voidElement "frame" attributes).done
  | .startTag "noframes" _ _ => b.inHead token
  | .endTag "frameset" =>
    if b.open'.length == 1 then b.done
    else
      let b := b.pop
      if b.currentNamed "frameset" then b.done else { b with mode := .afterFrameset }.done
  | _ => b.done

def afterFrameset : Step :=
  match token with
  | .text chars => if isBlankText chars then (b.appendText chars).done else b.done
  | .comment => b.insertComment.done
  | .endTag "html" => { b with mode := .afterAfterFrameset }.done
  | .startTag "noframes" _ _ => b.inHead token
  | _ => b.done

def afterAfterBody : Step :=
  match token with
  | .text chars => if isBlankText chars then b.inBody token else b.again .inBody token
  | .comment => (b.appendCommentTo Document.root).done
  | .startTag "html" _ _ => b.done
  | .eof => b.done
  | token => b.again .inBody token

def afterAfterFrameset : Step :=
  match token with
  | .text chars => if isBlankText chars then b.inBody token else b.done
  | .comment => (b.appendCommentTo Document.root).done
  | .startTag "noframes" _ _ => b.inHead token
  | _ => b.done

def step : Step :=
  match b.mode with
  | .initial => b.initial token
  | .beforeHtml => b.beforeHtml token
  | .beforeHead => b.beforeHead token
  | .inHead => b.inHead token
  | .afterHead => b.afterHead token
  | .inBody => b.inBody token
  | .text => b.inText token
  | .inTable => b.inTable token
  | .inTableText => b.inTableText token
  | .inCaption => b.inCaption token
  | .inColumnGroup => b.inColumnGroup token
  | .inTableBody => b.inTableBody token
  | .inRow => b.inRow token
  | .inCell => b.inCell token
  | .inSelect => b.inSelect token
  | .inSelectInTable => b.inSelectInTable token
  | .inTemplate => b.inTemplate token
  | .afterBody => b.afterBody token
  | .inFrameset => b.inFrameset token
  | .afterFrameset => b.afterFrameset token
  | .afterAfterBody => b.afterAfterBody token
  | .afterAfterFrameset => b.afterAfterFrameset token

/-! ### Foreign content -/

def svgNames : List String :=
  ["altGlyph", "altGlyphDef", "altGlyphItem", "animateColor", "animateMotion", "animateTransform",
    "clipPath", "feBlend", "feColorMatrix", "feComponentTransfer", "feComposite",
    "feConvolveMatrix", "feDiffuseLighting", "feDisplacementMap", "feDistantLight",
    "feDropShadow", "feFlood", "feFuncA", "feFuncB", "feFuncG", "feFuncR", "feGaussianBlur",
    "feImage", "feMerge", "feMergeNode", "feMorphology", "feOffset", "fePointLight",
    "feSpecularLighting", "feSpotLight", "feTile", "feTurbulence", "foreignObject", "glyphRef",
    "linearGradient", "radialGradient", "textPath"]

def breakoutNames : List String :=
  ["b", "big", "blockquote", "body", "br", "center", "code", "dd", "div", "dl", "dt", "em", "embed",
    "h1", "h2", "h3", "h4", "h5", "h6", "head", "hr", "i", "img", "li", "listing", "menu", "meta",
    "nobr", "ol", "p", "pre", "ruby", "s", "small", "span", "strong", "strike", "sub", "sup",
    "table", "tt", "u", "ul", "var"]

def holdsHtml (id : NodeId) : Bool :=
  match (b.document.node id).data with
  | .element _ _ attributes _ =>
    attributes.any fun a => a.name == "encoding" &&
      ["text/html", "application/xhtml+xml"].contains (Text.toAsciiLower a.value)
  | _ => false

def isStartTag : Token → Bool
  | .startTag .. => true
  | _ => false

def isCharacters : Token → Bool
  | .text _ => true
  | .null => true
  | _ => false

def isForeign : Bool :=
  match token, b.current? with
  | .eof, _ => false
  | _, none => false
  | token, some id =>
    let name := b.nameOf id
    if name.1 == .html then false
    else if isTextIntegrationPoint name && (isCharacters token || isPlainStart token) then false
    else if isHtmlIntegrationPoint name && (isCharacters token || isStartTag token) then false
    else if name == (.mathml, "annotation-xml") && (isCharacters token || isStartTag token) then
      !(isSvgStart token || b.holdsHtml id)
    else true
where
  isPlainStart : Token → Bool
    | .startTag name _ _ => name != "mglyph" && name != "malignmark"
    | _ => false
  isSvgStart : Token → Bool
    | .startTag "svg" _ _ => true
    | _ => false

def breakOut : Step :=
  let stops (id : NodeId) : Bool :=
    let name := b.nameOf id
    name.1 == .html || isTextIntegrationPoint name || isHtmlIntegrationPoint name
  { b with open' := b.open'.dropWhile fun id => !stops id }.step token

def foreignStartTag (name : String) (attributes : List Attribute) (selfClosing : Bool) : Step :=
  let ns := (b.nameOf (b.current?.getD Document.root)).1
  let name := if ns == .svg then withCase svgNames name else name
  (b.openForeign ns name (adjustAttributes ns attributes) selfClosing).done

def foreignEndTag (b : Builder) (name : String) (token : Token) : Bool → List NodeId → Step
  | _, [] => b.done
  | _, [_] => b.done
  | first, id :: rest =>
    let (ns, other) := b.nameOf id
    if !first && ns == .html then b.step token
    else if Text.toAsciiLower other == name then { b with open' := rest }.done
    else b.foreignEndTag name token false rest

def isFontWithStyle (name : String) (attributes : List Attribute) : Bool :=
  name == "font" && attributes.any fun a => ["color", "face", "size"].contains a.name

def inForeign : Step :=
  match token with
  | .null => (b.appendText [replacement]).done
  | .text chars =>
    let b := if isBlankText chars then b else { b with framesetOk := false }
    (b.appendText chars).done
  | .comment => b.insertComment.done
  | .startTag name attributes selfClosing =>
    if breakoutNames.contains name || isFontWithStyle name attributes then b.breakOut token
    else b.foreignStartTag name attributes selfClosing
  | .endTag name =>
    if name == "br" || name == "p" then b.breakOut token
    else b.foreignEndTag name token true b.open'
  | _ => b.done

/-! ### Tokens -/

def process : Nat → Builder → Token → Builder
  | 0, b, _ => b
  | fuel + 1, b, token =>
    let (b, outcome) := if b.isForeign token then b.inForeign token else b.step token
    match outcome with
    | .done => b
    | .again token => process fuel b token

def withDoctype (d : Doctype) : Builder :=
  if b.mode == .initial then { b with oldStyle := isOldStyle d, mode := .beforeHtml } else b

/-- Takes in a token. A line feed that comes right after the start of preformatted text is left out. -/
def feed : Builder :=
  let ignores := b.ignoreLineFeed
  let b := { b with ignoreLineFeed := false }
  let fuel := 4 * b.open'.length + 64
  match token with
  | .noise => b
  | .doctype d => b.withDoctype d
  | .text ('\n' :: rest) =>
    if ignores then
      if rest.isEmpty then b else process fuel b (.text rest)
    else process fuel b token
  | token => process fuel b token

def closesScript : Bool := b.mode == .text && token == .endTag "script"

def run : Nat → Builder → List Char → Builder
  | 0, b, _ => b
  | fuel + 1, b, text =>
    let (tokens, rest) := Tokenizer.next b.content b.contentName b.currentIsForeign text
    let restarts := tokens.any b.closesScript
    let b := tokens.foldl feed b
    if tokens.contains .eof then b
    else run fuel b (if restarts then dropMark rest else rest)

end Builder

def parse (text : List Char) : Document :=
  let text := Tokenizer.normalizeBreaks (dropMarks 0 true text)
  (Builder.run (2 * text.length + 2) {} text).document

end ComponentCompiler.Html
