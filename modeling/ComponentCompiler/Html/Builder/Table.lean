import ComponentCompiler.Html.Builder.Body

/-! Rules for tokens in tables and selects. -/

namespace ComponentCompiler.Html.Builder

variable (b : Builder) (token : Token)

def fosterInBody : Step :=
  let (b, outcome) := { b with fosterParenting := true }.inBody token
  ({ b with fosterParenting := false }, outcome)

def charactersInTable : Step :=
  if b.currentIs (b.isIn ["table", "tbody", "tfoot", "thead", "tr"]) then
    { b with returnMode := b.mode }.again .inTableText token
  else b.fosterInBody token

def flushTableText : Builder :=
  let pending := b.pendingText
  let b := { b with pendingText := [] }
  if pending.all isBlankText then pending.foldl appendText b
  else pending.foldl (fun b chars => (b.fosterInBody (.text chars)).1) b

def inTableText : Step :=
  match token with
  | .null => b.done
  | .text chars => { b with pendingText := b.pendingText ++ [chars] }.done
  | token => b.flushTableText.again b.returnMode token

def tableStartTag (name : String) (attributes : List Attribute) (token : Token) : Step :=
  match name with
  | "caption" =>
    { ((b.popUntil tableScopeNames).pushMarker.openElement name attributes) with mode := .inCaption }.done
  | "colgroup" =>
    { (b.popUntil tableScopeNames).openElement name attributes with mode := .inColumnGroup }.done
  | "col" => ((b.popUntil tableScopeNames).openElement "colgroup" []).again .inColumnGroup token
  | "tbody" | "tfoot" | "thead" =>
    { (b.popUntil tableScopeNames).openElement name attributes with mode := .inTableBody }.done
  | "td" | "th" | "tr" => ((b.popUntil tableScopeNames).openElement "tbody" []).again .inTableBody token
  | "table" =>
    if b.inScopeNamed endsTableScope "table" then
      ((b.popThroughNamed "table").resetMode, .again token)
    else b.done
  | "style" | "script" | "template" => b.inHead token
  | "input" =>
    if isHiddenInput attributes then (b.voidElement name attributes).done else b.fosterInBody token
  | "form" =>
    if b.hasOpen "template" || b.form.isSome then b.done
    else
      let (b, id) := b.insertElement .html name attributes false
      { b with form := some id }.done
  | _ => b.fosterInBody token

def inTable : Step :=
  match token with
  | .null => b.charactersInTable token
  | .text _ => b.charactersInTable token
  | .comment => b.insertComment.done
  | .startTag name attributes _ => b.tableStartTag name attributes token
  | .endTag name =>
    match name with
    | "table" =>
      if b.inScopeNamed endsTableScope name then (b.popThroughNamed name).resetMode.done else b.done
    | "body" | "caption" | "col" | "colgroup" | "html" | "tbody" | "td" | "tfoot" | "th" | "thead" | "tr" =>
      b.done
    | "template" => b.inHead token
    | _ => b.fosterInBody token
  | .eof => b.inBody token
  | .doctype _ | .noise => b.done

def endsCaption : Token → Bool
  | .startTag name _ _ =>
    ["caption", "col", "colgroup", "tbody", "td", "tfoot", "th", "thead", "tr"].contains name
  | .endTag name => name == "table" || name == "caption"
  | _ => false

def inCaption : Step :=
  if endsCaption token then
    if b.inScopeNamed endsTableScope "caption" then
      let b := ((b.closeImplied impliedNames).popThroughNamed "caption").clearToMarker
      match token with
      | .endTag "caption" => { b with mode := .inTable }.done
      | token => b.again .inTable token
    else b.done
  else
    match token with
    | .endTag name =>
      if ["body", "col", "colgroup", "html", "tbody", "td", "tfoot", "th", "thead", "tr"].contains name then
        b.done
      else b.inBody token
    | token => b.inBody token

def inColumnGroup : Step :=
  match token with
  | .text chars => if isBlankText chars then (b.appendText chars).done else leave
  | .comment => b.insertComment.done
  | .startTag "html" _ _ => b.done
  | .startTag "col" attributes _ => (b.voidElement "col" attributes).done
  | .startTag "template" _ _ => b.inHead token
  | .endTag "colgroup" => if b.currentNamed "colgroup" then { b.pop with mode := .inTable }.done else b.done
  | .endTag "col" => b.done
  | .endTag "template" => b.inHead token
  | .eof => b.inBody token
  | _ => leave
where
  leave : Step := if b.currentNamed "colgroup" then b.pop.again .inTable token else b.done

def inTableBody : Step :=
  match token with
  | .startTag name attributes _ =>
    match name with
    | "tr" => { (b.popUntil tableBodyNames).openElement name attributes with mode := .inRow }.done
    | "th" | "td" => ((b.popUntil tableBodyNames).openElement "tr" []).again .inRow token
    | "caption" | "col" | "colgroup" | "tbody" | "tfoot" | "thead" => leave
    | _ => b.inTable token
  | .endTag name =>
    match name with
    | "tbody" | "tfoot" | "thead" =>
      if b.inScopeNamed endsTableScope name then
        { (b.popUntil tableBodyNames).pop with mode := .inTable }.done
      else b.done
    | "table" => leave
    | "body" | "caption" | "col" | "colgroup" | "html" | "td" | "th" | "tr" => b.done
    | _ => b.inTable token
  | token => b.inTable token
where
  leave : Step :=
    if b.inScope endsTableScope (b.isIn ["table", "tbody", "tfoot"]) then
      (b.popUntil tableBodyNames).pop.again .inTable token
    else b.done

def inRow : Step :=
  match token with
  | .startTag name attributes _ =>
    match name with
    | "th" | "td" =>
      { ((b.popUntil tableRowNames).openElement name attributes).pushMarker with mode := .inCell }.done
    | "caption" | "col" | "colgroup" | "tbody" | "tfoot" | "thead" | "tr" => leave
    | _ => b.inTable token
  | .endTag name =>
    match name with
    | "tr" =>
      if b.inScopeNamed endsTableScope "tr" then
        { (b.popUntil tableRowNames).pop with mode := .inTableBody }.done
      else b.done
    | "table" => leave
    | "tbody" | "tfoot" | "thead" => if b.inScopeNamed endsTableScope name then leave else b.done
    | "body" | "caption" | "col" | "colgroup" | "html" | "td" | "th" => b.done
    | _ => b.inTable token
  | token => b.inTable token
where
  leave : Step :=
    if b.inScopeNamed endsTableScope "tr" then (b.popUntil tableRowNames).pop.again .inTableBody token
    else b.done

def closeCell : Builder :=
  let b := b.closeImplied impliedNames
  (b.popThrough (b.isIn ["td", "th"])).clearToMarker

def inCell : Step :=
  match token with
  | .startTag name _ _ =>
    if ["caption", "col", "colgroup", "tbody", "td", "tfoot", "th", "thead", "tr"].contains name then
      if b.inScope endsTableScope (b.isIn ["td", "th"]) then b.closeCell.again .inRow token else b.done
    else b.inBody token
  | .endTag name =>
    match name with
    | "td" | "th" =>
      if b.inScopeNamed endsTableScope name then
        let b := ((b.closeImplied impliedNames).popThroughNamed name).clearToMarker
        { b with mode := .inRow }.done
      else b.done
    | "body" | "caption" | "col" | "colgroup" | "html" => b.done
    | "table" | "tbody" | "tfoot" | "thead" | "tr" =>
      if b.inScopeNamed endsTableScope name then b.closeCell.again .inRow token else b.done
    | _ => b.inBody token
  | token => b.inBody token

def popOption : Builder := if b.currentNamed "option" then b.pop else b

def popGroup : Builder := if b.currentNamed "optgroup" then b.pop else b

def closeGroup : Builder :=
  match b.open' with
  | option :: group :: _ => if b.isNamed "option" option && b.isNamed "optgroup" group then b.pop else b
  | _ => b

def inSelect : Step :=
  match token with
  | .null => b.done
  | .text chars => (b.appendText chars).done
  | .comment => b.insertComment.done
  | .startTag name attributes _ =>
    match name with
    | "option" => (b.popOption.openElement name attributes).done
    | "optgroup" => (b.popOption.popGroup.openElement name attributes).done
    | "hr" => (b.popOption.popGroup.voidElement name attributes).done
    | "select" => closeSelect.done
    | "input" | "keygen" | "textarea" =>
      if b.inScopeNamed endsSelectScope "select" then (closeSelect, .again token) else b.done
    | "script" | "template" => b.inHead token
    | _ => b.done
  | .endTag name =>
    match name with
    | "optgroup" => b.closeGroup.popGroup.done
    | "option" => b.popOption.done
    | "select" => closeSelect.done
    | "template" => b.inHead token
    | _ => b.done
  | .eof => b.inBody token
  | .doctype _ | .noise => b.done
where
  closeSelect : Builder :=
    if b.inScopeNamed endsSelectScope "select" then (b.popThroughNamed "select").resetMode else b

def inSelectInTable : Step :=
  let names := ["caption", "table", "tbody", "tfoot", "thead", "tr", "td", "th"]
  match token with
  | .startTag name _ _ =>
    if names.contains name then ((b.popThroughNamed "select").resetMode, .again token) else b.inSelect token
  | .endTag name =>
    if names.contains name then
      if b.inScopeNamed endsTableScope name then ((b.popThroughNamed "select").resetMode, .again token)
      else b.done
    else b.inSelect token
  | token => b.inSelect token

end ComponentCompiler.Html.Builder
