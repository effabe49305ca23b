import ComponentCompiler.Html.Builder.Formatting

/-! Rules for tokens in the head, in templates and in the body. -/

namespace ComponentCompiler.Html

abbrev Step := Builder × Outcome

namespace Builder

variable (b : Builder)

def done : Step := (b, .done)

def again (mode : Mode) (token : Token) : Step := ({ b with mode }, .again token)

def isBlankText (chars : List Char) : Bool := chars.all isSpace

def appendText (chars : List Char) : Builder := b.insertText (.ofList chars)

/-! ### Head -/

variable (attributes : List Attribute)

def openTemplate : Builder :=
  let b := (b.openElement "template" attributes).pushMarker
  { b with framesetOk := false, mode := .inTemplate, templateModes := .inTemplate :: b.templateModes }

def closeTemplate : Builder :=
  if b.hasOpen "template" then
    let b := ((b.closeImplied thoroughNames).popThroughNamed "template").clearToMarker
    { b with templateModes := b.templateModes.drop 1 }.resetMode
  else b

variable (name : String) (attributes : List Attribute)

def headStartTag? : Option Builder :=
  match name with
  | "base" | "basefont" | "bgsound" | "link" | "meta" => some (b.voidElement name attributes)
  | "title" => some (b.openText name attributes .escapable)
  | "noframes" | "style" => some (b.openText name attributes .rawText)
  | "script" => some (b.openText name attributes .script)
  | "template" => some (b.openTemplate attributes)
  | _ => none

def inHead (token : Token) : Step :=
  match token with
  | .text chars =>
    if isBlankText chars then (b.appendText chars).done else leave
  | .comment => b.insertComment.done
  | .startTag name attributes _ =>
    match b.headStartTag? name attributes with
    | some b => b.done
    | none =>
      match name with
      | "html" => b.done
      | "noscript" => (b.openText name attributes .rawText).done
      | "head" => b.done
      | _ => leave
  | .endTag name =>
    match name with
    | "head" => { b.pop with mode := .afterHead }.done
    | "body" | "html" | "br" => leave
    | "template" => b.closeTemplate.done
    | _ => b.done
  | _ => leave
where
  leave : Step := b.pop.again .afterHead token

/-! ### Templates -/

def templateEof : Step :=
  if b.hasOpen "template" then
    let b := (b.popThroughNamed "template").clearToMarker
    ({ b with templateModes := b.templateModes.drop 1 }.resetMode, .again .eof)
  else b.done

/-! ### Body -/

def blockNames : List String :=
  ["address", "article", "aside", "blockquote", "center", "details", "dialog", "dir", "div", "dl",
    "fieldset", "figcaption", "figure", "footer", "header", "hgroup", "main", "menu", "nav", "ol",
    "p", "search", "section", "summary", "ul"]

def closableNames : List String :=
  (blockNames.filter (· != "p")) ++ ["button", "listing", "pre"]

def formattingNames : List String :=
  ["b", "big", "code", "em", "font", "i", "s", "small", "strike", "strong", "tt", "u"]

def itemToClose (names : List String) : Option String :=
  walk b.open'
where
  walk : List NodeId → Option String
    | [] => none
    | id :: rest =>
      if b.isIn names id then some (b.nameOf id).2
      else if b.isIn specialNames id && !b.isIn ["address", "div", "p"] id then none
      else walk rest

def openItem : Builder :=
  let b := { b with framesetOk := false }
  let b :=
    match b.itemToClose (if name == "li" then ["li"] else ["dd", "dt"]) with
    | some item => (b.closeImpliedExcept item).popThroughNamed item
    | none => b
  b.closeParagraphInButtonScope.openElement name attributes

def isHiddenInput : Bool :=
  attributes.any fun a => a.name == "type" && Text.toAsciiLower a.value == "hidden"

def voidInBody : Builder :=
  let keeps := name == "input" && isHiddenInput attributes
  let b := b.reconstruct.voidElement name attributes
  if keeps then b else { b with framesetOk := false }

def openSelect : Builder :=
  let inTable := [Mode.inTable, .inCaption, .inTableBody, .inRow, .inCell].contains b.mode
  let b := b.reconstruct.openElement "select" attributes
  { b with framesetOk := false, mode := if inTable then .inSelectInTable else .inSelect }

def openForeign (ns : Namespace) (name : String) (attributes : List Attribute) (selfClosing : Bool) : Builder :=
  (b.insertElement ns name attributes !selfClosing).1

def svgAttributeNames : List String :=
  ["attributeName", "attributeType", "baseFrequency", "baseProfile", "calcMode", "clipPathUnits",
    "diffuseConstant", "edgeMode", "filterUnits", "glyphRef", "gradientTransform", "gradientUnits",
    "kernelMatrix", "kernelUnitLength", "keyPoints", "keySplines", "keyTimes", "lengthAdjust",
    "limitingConeAngle", "markerHeight", "markerUnits", "markerWidth", "maskContentUnits",
    "maskUnits", "numOctaves", "pathLength", "patternContentUnits", "patternTransform",
    "patternUnits", "pointsAtX", "pointsAtY", "pointsAtZ", "preserveAlpha", "preserveAspectRatio",
    "primitiveUnits", "refX", "refY", "repeatCount", "repeatDur", "requiredExtensions",
    "requiredFeatures", "specularConstant", "specularExponent", "spreadMethod", "startOffset",
    "stdDeviation", "stitchTiles", "surfaceScale", "systemLanguage", "tableValues", "targetX",
    "targetY", "textLength", "viewBox", "viewTarget", "xChannelSelector", "yChannelSelector",
    "zoomAndPan"]

def withCase (names : List String) (name : String) : String :=
  (names.find? fun n => Text.toAsciiLower n == name).getD name

def prefixedNames : List (String × String) :=
  [("xlink:actuate", "actuate"), ("xlink:arcrole", "arcrole"), ("xlink:href", "href"), ("xlink:role", "role"),
    ("xlink:show", "show"), ("xlink:title", "title"), ("xlink:type", "type"), ("xml:lang", "lang"),
    ("xml:space", "space"), ("xmlns:xlink", "xlink")]

def foreignName (ns : Namespace) (name : String) : String :=
  let name :=
    match ns with
    | .svg => withCase svgAttributeNames name
    | .mathml => withCase ["definitionURL"] name
    | .html => name
  (prefixedNames.lookup name).getD name

def adjustAttributes (ns : Namespace) (attributes : List Attribute) : List Attribute :=
  attributes.map fun a => { a with name := foreignName ns a.name }

def bodyFormStart : Builder :=
  if b.form.isSome && !b.hasOpen "template" then b
  else
    let b := b.closeParagraphInButtonScope
    let (b, id) := b.insertElement .html "form" attributes true
    if b.hasOpen "template" then b else { b with form := some id }

def bodyFormEnd : Builder :=
  if b.hasOpen "template" then
    if b.inScopeNamed endsScope "form" then (b.closeImplied impliedNames).popThroughNamed "form" else b
  else
    match b.form with
    | none => b
    | some id =>
      let b := { b with form := none }
      if b.inScope endsScope (· == id) then (b.closeImplied impliedNames).removeOpen id else b

def bodyFrameset : Builder :=
  match b.framesetOk, b.body? with
  | true, some body =>
    let b := { b with document := b.document.detach body, open' := (b.open'.reverse.take 1) }
    { b.openElement "frameset" attributes with mode := .inFrameset }
  | _, _ => b

def bodyStartTag (selfClosing : Bool) : Builder :=
  match b.headStartTag? name attributes with
  | some b => b
  | none =>
    if blockNames.contains name then b.closeParagraphInButtonScope.openElement name attributes
    else if headingNames.contains name then
      let b := b.closeParagraphInButtonScope
      let b := if b.currentIs (b.isIn headingNames) then b.pop else b
      b.openElement name attributes
    else if formattingNames.contains name then b.reconstruct.openFormatting name attributes
    else
      match name with
      | "html" => b
      | "body" =>
        if b.body?.isSome && b.open'.length != 1 && !b.hasOpen "template" then
          { b with framesetOk := false }
        else b
      | "frameset" => b.bodyFrameset attributes
      | "pre" | "listing" =>
        let b := b.closeParagraphInButtonScope.openElement name attributes
        { b with ignoreLineFeed := true, framesetOk := false }
      | "form" => b.bodyFormStart attributes
      | "li" | "dd" | "dt" => b.openItem name attributes
      | "plaintext" =>
        { b.closeParagraphInButtonScope.openElement name attributes with content := .plaintext }
      | "button" =>
        let b :=
          if b.inScopeNamed endsScope name then (b.closeImplied impliedNames).popThroughNamed name else b
        { b.reconstruct.openElement name attributes with framesetOk := false }
      | "a" => b.closeActiveLink.reconstruct.openFormatting name attributes
      | "nobr" =>
        let b := b.reconstruct
        let b := if b.inScopeNamed endsScope name then (b.adopt name).reconstruct else b
        b.openFormatting name attributes
      | "applet" | "marquee" | "object" =>
        { (b.reconstruct.openElement name attributes).pushMarker with framesetOk := false }
      | "table" =>
        let b := if b.oldStyle then b else b.closeParagraphInButtonScope
        { b.openElement name attributes with framesetOk := false, mode := .inTable }
      | "area" | "br" | "embed" | "img" | "keygen" | "wbr" | "input" => b.voidInBody name attributes
      | "image" => b.voidInBody "img" attributes
      | "param" | "source" | "track" => b.voidElement name attributes
      | "hr" => { b.closeParagraphInButtonScope.voidElement name attributes with framesetOk := false }
      | "textarea" =>
        { b.openText name attributes .escapable with ignoreLineFeed := true, framesetOk := false }
      | "xmp" =>
        { b.closeParagraphInButtonScope.reconstruct.openText name attributes .rawText with framesetOk := false }
      | "iframe" => { b.openText name attributes .rawText with framesetOk := false }
      | "noembed" | "noscript" => b.openText name attributes .rawText
      | "select" => b.openSelect attributes
      | "optgroup" | "option" =>
        let b := if b.currentNamed "option" then b.pop else b
        b.reconstruct.openElement name attributes
      | "rb" | "rtc" =>
        let b := if b.inScopeNamed endsScope "ruby" then b.closeImplied impliedNames else b
        b.openElement name attributes
      | "rp" | "rt" =>
        let b := if b.inScopeNamed endsScope "ruby" then b.closeImpliedExcept "rtc" else b
        b.openElement name attributes
      | "math" => b.openForeign .mathml name (adjustAttributes .mathml attributes) selfClosing
      | "svg" => b.openForeign .svg name (adjustAttributes .svg attributes) selfClosing
      | "caption" | "col" | "colgroup" | "frame" | "head" | "tbody" | "td" | "tfoot" | "th" | "thead" | "tr" => b
      | _ => b.reconstruct.openElement name attributes

def bodyEndTag : Builder :=
  if closableNames.contains name then
    if b.inScopeNamed endsScope name then (b.closeImplied impliedNames).popThroughNamed name else b
  else if headingNames.contains name then
    if b.inScope endsScope (b.isIn headingNames) then
      let b := b.closeImplied impliedNames
      b.popThrough (b.isIn headingNames)
    else b
  else if formattingNames.contains name || name == "a" || name == "nobr" then b.adopt name
  else
    match name with
    | "template" => b.closeTemplate
    | "body" => if b.inScopeNamed endsScope "body" then { b with mode := .afterBody } else b
    | "form" => b.bodyFormEnd
    | "p" =>
      let b := if b.inScopeNamed endsButtonScope "p" then b else b.openElement "p" []
      b.closeParagraph
    | "li" =>
      if b.inScopeNamed endsListScope name then (b.closeImpliedExcept name).popThroughNamed name else b
    | "dd" | "dt" =>
      if b.inScopeNamed endsScope name then (b.closeImpliedExcept name).popThroughNamed name else b
    | "applet" | "marquee" | "object" =>
      if b.inScopeNamed endsScope name then
        ((b.closeImplied impliedNames).popThroughNamed name).clearToMarker
      else b
    | "br" => b.voidInBody "br" []
    | _ => b.closeGeneric name

def inBody (token : Token) : Step :=
  match token with
  | .null => b.done
  | .text chars =>
    let b := b.reconstruct
    let b := if isBlankText chars then b else { b with framesetOk := false }
    (b.appendText chars).done
  | .comment => b.insertComment.done
  | .startTag name attributes selfClosing => (b.bodyStartTag name attributes selfClosing).done
  | .endTag "html" => if b.inScopeNamed endsScope "body" then b.again .afterBody token else b.done
  | .endTag name => (b.bodyEndTag name).done
  | .eof => if b.templateModes.isEmpty then b.done else b.templateEof
  | .doctype _ | .noise => b.done

def inTemplate (token : Token) : Step :=
  let retry (mode : Mode) : Step :=
    { b with templateModes := mode :: b.templateModes.drop 1 }.again mode token
  match token with
  | .startTag name attributes _ =>
    match b.headStartTag? name attributes with
    | some b => b.done
    | none =>
      match name with
      | "caption" | "colgroup" | "tbody" | "tfoot" | "thead" => retry .inTable
      | "col" => retry .inColumnGroup
      | "tr" => retry .inTableBody
      | "td" | "th" => retry .inRow
      | _ => retry .inBody
  | .endTag "template" => b.closeTemplate.done
  | .endTag _ => b.done
  | .eof => b.templateEof
  | token => b.inBody token

end Builder

end ComponentCompiler.Html
