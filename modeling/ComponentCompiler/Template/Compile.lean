import ComponentCompiler.Markup.Parser
import ComponentCompiler.Registry.Basic
import ComponentCompiler.Template.Projection

/-!
Compilation of markup to templates. The first character of an attribute's name says what it is.
-/

namespace ComponentCompiler.AssetReference

def isAbsolute (url : String) : Bool :=
  url.isEmpty || ["/", "http:", "https:", "data:", "#", "$\x7b"].any (Text.startsWith · url)

def dropHere : List Char → List Char
  | '.' :: '/' :: rest => dropHere rest
  | text => text

def rebase (base : Option String) (url : String) : String :=
  match base with
  | none => url
  | some base =>
    if isAbsolute url then url
    else .ofList ((base.toList.reverse.dropWhile (· == '/')).reverse ++ '/' :: dropHere url.toList)

def isQuote (c : Char) : Bool := c == '"' || c == '\''

def isUrlChar (c : Char) : Bool := !(isQuote c || c == ')')

def leadingQuote : List Char → List Char × List Char
  | c :: rest => if isQuote c then ([c], rest) else ([], c :: rest)
  | [] => ([], [])

structure StyleUrl where
  before : List Char
  url : List Char
  after : List Char
  rest : List Char

def readUrl? (text : List Char) : Option StyleUrl :=
  let (before, text) := leadingQuote text
  let url := text.takeWhile isUrlChar
  let (after, text) := leadingQuote (text.dropWhile isUrlChar)
  match url, text.dropWhile Chars.isBlank with
  | _ :: _, ')' :: rest => some ⟨before, url, after, rest⟩
  | _, _ => none

def readUrlAfter? : List Char → List Char → Option StyleUrl
  | [], text => readUrl? text
  | blank :: blanks, text => (readUrl? text).or (readUrlAfter? blanks (blank :: text))

def styleUrl? (text : List Char) : Option StyleUrl :=
  readUrlAfter? (text.takeWhile Chars.isBlank).reverse (text.dropWhile Chars.isBlank)

def rebaseStyleWithin (base : Option String) : Nat → List Char → List Char
  | _, [] => []
  | 0, text => text
  | fuel + 1, c :: text =>
    match (Chars.dropPrefix? ['u', 'r', 'l', '('] (c :: text)).bind styleUrl? with
    | some found =>
      ['u', 'r', 'l', '('] ++ found.before ++ (rebase base (.ofList found.url)).toList ++ found.after ++
        ')' :: rebaseStyleWithin base fuel found.rest
    | none => c :: rebaseStyleWithin base fuel text

def rebaseStyle (base : Option String) (style : String) : String :=
  .ofList (rebaseStyleWithin base style.length style.toList)

end ComponentCompiler.AssetReference

namespace ComponentCompiler

inductive AttributeForm where
  | structural (directive : String)
  | reference (name : String)
  | twoWay (property : String)
  | event (name : String)
  | property (name : String)
  | directive (name : String)
  | plain
deriving DecidableEq, Repr

namespace AttributeForm

def braced? : List Char → Option String
  | '\x7b' :: rest => if rest.getLast? = some '\x7d' then some (.ofList rest.dropLast) else none
  | _ => none

def ofName (name : String) : AttributeForm :=
  match name.toList with
  | '*' :: rest => .structural (.ofList rest)
  | '#' :: rest => .reference (.ofList rest)
  | '@' :: rest =>
    match braced? rest with
    | some inner => .twoWay inner
    | none => .event (.ofList rest)
  | ':' :: rest => .directive (.ofList rest)
  | chars =>
    match braced? chars with
    | some inner => .property inner
    | none => .plain

end AttributeForm

namespace Template

structure Context where
  registry : Registry
  owner : Definition
  assetBase : Option String

structure State where
  bodies : TemplateBodies := ∅
  providers : SortedSet String := ∅
  slots : List (Option String) := []
  diagnostics : List Diagnostic := []
  pending : List PendingProjection := []
  counter : Nat := 0

abbrev Compile := StateM State

/-! ### Recording -/

variable (cx : Context)

def report (code : DiagnosticCode) (message : String) : Compile Unit :=
  modify fun s =>
    { s with
      diagnostics := s.diagnostics ++
        [{ code := code
           message := message
           file := cx.owner.file
           identifier := some cx.owner.name
           context := some ("template of " ++ cx.owner.name) }] }

def provide (name : String) : Compile Unit := modify fun s => { s with providers := s.providers.add name }

def addBody (id : String) (nodes : List TemplateNode) : Compile Unit :=
  modify fun s => { s with bodies := s.bodies.insert id nodes }

def addSlot (selector : Option String) : Compile Unit :=
  modify fun s => { s with slots := s.slots ++ [selector] }

def addPending (entry : PendingProjection) : Compile Unit :=
  modify fun s => if s.pending.contains entry then s else { s with pending := s.pending ++ [entry] }

def freshBody (directive : String) : Compile String := do
  let s ← get
  set { s with counter := s.counter + 1 }
  return "__" ++ directive ++ "_" ++ toString s.counter

/-! ### Expressions -/

def resolveFilter (f : Filter) : Compile Filter := do
  match cx.registry.findPipe? f.name with
  | some pipe =>
    provide pipe.name
    return { f with pipe := some pipe.name }
  | none =>
    report cx .pipeUnresolved ("No pipe named '" ++ f.name ++ "' is registered")
    return f

def resolveFilters (cx : Context) : List Filter → Compile (List Filter)
  | [] => return []
  | f :: rest => do
    let f ← resolveFilter cx f
    return f :: (← resolveFilters cx rest)

def resolveExpression (e : Expression) : Compile Expression := do
  return { e with filters := ← resolveFilters cx e.filters }

def resolveParts (cx : Context) : List TextPart → Compile (List TextPart)
  | [] => return []
  | .literal text :: rest => return .literal text :: (← resolveParts cx rest)
  | .expression e :: rest => do
    let e ← resolveExpression cx e
    return .expression e :: (← resolveParts cx rest)

def interpolate (text : String) (bare : Bool) : Compile (List TextPart) :=
  match Interpolation.tokenize text bare with
  | .ok parts => resolveParts cx parts
  | .error cause => do
    report cx .expression ("Invalid interpolation '" ++ Text.trim text ++ "': " ++ cause.message)
    return [.literal text]

def expression? (text : String) : Compile (Option Expression) :=
  match Expression.compile text with
  | .ok e => return some (← resolveExpression cx e)
  | .error cause => do
    report cx .expression ("Invalid expression '" ++ Text.trim text ++ "': " ++ cause.message)
    return none

def handler? (text : String) : Compile (Option Expression) :=
  match Expression.compileHandler text with
  | .ok e => return some e
  | .error cause => do
    report cx .expression ("Invalid event handler '" ++ Text.trim text ++ "': " ++ cause.message)
    return none

/-! ### Attributes -/

variable (head : ElementHead) (name value : String)

def addProp : Compile ElementHead := do
  match ← expression? cx value with
  | some e => return { head with props := head.props ++ [⟨name, e⟩] }
  | none => return head

def addEvent (twoWay : Bool) : Compile ElementHead := do
  match ← handler? cx value with
  | some e => return { head with events := head.events ++ [⟨name, e, twoWay⟩] }
  | none => return head

def addDirective : Compile ElementHead :=
  match cx.registry.findDirective? name with
  | some d => do
    provide d.name
    let value ← if Text.isBlank value then pure none else expression? cx value
    return { head with directives := head.directives ++ [⟨name, d.name, value⟩] }
  | none => do
    report cx .unknownDirective ("'" ++ name ++ "' is not a registered directive")
    return head

def addStatic : ElementHead :=
  match Text.dropPrefix? "data-" name with
  | some key => { head with data := head.data.insert key value }
  | none =>
    match Text.dropPrefix? "aria-" name with
    | some key => { head with aria := head.aria.insert key value }
    | none =>
      let value :=
        if name == "src" then AssetReference.rebase cx.assetBase value
        else if name == "style" then AssetReference.rebaseStyle cx.assetBase value
        else value
      { head with attributes := head.attributes.insert name value }

def addAttribute (entry : String × String) : Compile ElementHead :=
  let (name, value) := entry
  match AttributeForm.ofName name with
  | .structural _ => return head
  | .reference reference => return { head with reference := some reference }
  | .twoWay property => do
    let head ← addProp cx head property value
    addEvent cx head (property ++ "Change") (Text.trim value ++ " = $event") true
  | .event event => addEvent cx head event value false
  | .property property => addProp cx head property value
  | .directive directive => addDirective cx head directive value
  | .plain =>
    if Text.contains "$\x7b" value then do
      let parts ← interpolate cx value false
      return { head with attributeBindings := head.attributeBindings.insert name parts }
    else return addStatic cx head name value

def addAttributes (cx : Context) (head : ElementHead) : List (String × String) → Compile ElementHead
  | [] => return head
  | entry :: rest => do
    let head ← addAttribute cx head entry
    addAttributes cx head rest

def applyMatching (d : Definition) : Compile ElementHead := do
  provide d.name
  return { head with directives := head.directives ++ [⟨d.selector?.getD d.name, d.name, none⟩] }

def applyMatchings (head : ElementHead) : List Definition → Compile ElementHead
  | [] => return head
  | d :: rest => do
    let head ← applyMatching head d
    applyMatchings head rest

def applySelectorDirectives : Compile ElementHead :=
  applyMatchings head ((cx.registry.matchingDirectives head.target).filter fun d =>
    !head.directives.any (·.directive == d.name))

def findComponent : Compile (ElementHead × Option Definition) :=
  if Text.containsChar '-' head.tag then
    match cx.registry.findElement? head.tag with
    | some host => do
      provide host.name
      return ({ head with component := some host.name }, some host)
    | none => do
      report cx .unknownElement ("'" ++ head.tag ++ "' is not a registered element")
      return (head, none)
  else return (head, none)

/-! ### Content of components -/

/-- Puts content into a component. Without known slots, that of a package's component goes to the
default slot and that of a local one waits. -/
def projectContent (host : Definition) (content : List TemplateNode) : Compile TemplateNode := do
  let s ← get
  let (content, bodies) := markQueried host.contentQueries content s.bodies
  set { s with bodies := bodies }
  match cx.registry.slots? host.name with
  | some slots => return .element head [] (routeContent slots bodies content)
  | none =>
    if host.isLocal then
      addPending ⟨head.tag, host.name, cx.owner.name, cx.owner.file⟩
      return .element { head with routed := false } content []
    else return .element head [] [⟨none, content⟩]

/-! ### Structural directives -/

def splitAtPattern? (pattern : List Char) : List Char → Option (List Char × List Char)
  | [] => none
  | c :: rest =>
    match Chars.dropPrefix? pattern (c :: rest) with
    | some after => some ([], after)
    | none => (splitAtPattern? pattern rest).map fun (before, after) => (c :: before, after)

def elseClause? (clauses : List String) : Option String :=
  (clauses.filterMap fun clause => (Text.dropPrefix? "else" (Text.trim clause)).map Text.trim).getLast?

def indexClause? (clauses : List String) : Option String :=
  (clauses.filterMap fun clause =>
    (splitAtPattern? " as ".toList (Chars.trim clause.toList)).map fun (_, name) =>
      String.ofList (Chars.trim name)).getLast?

def ifPlaceholder (p : Placeholder) (value : String) : Compile Placeholder := do
  let clauses := Text.splitOn ';' value
  let condition ← expression? cx (clauses.headD "")
  return { p with value := condition, elseTemplate := elseClause? clauses.tail }

def forPlaceholder (p : Placeholder) (value : String) : Compile Placeholder := do
  let clauses := Text.splitOn ';' value
  let head := Chars.trim (clauses.headD "").toList
  let head := (Chars.dropPrefix? "let ".toList head).getD head
  let p := { p with index := indexClause? clauses.tail }
  match splitAtPattern? " of ".toList head with
  | some (item, list) =>
    return { p with item := some (.ofList (Chars.trim item)), value := ← expression? cx (.ofList list) }
  | none =>
    report cx .expression ("*for expects 'item of list', got '" ++ Text.trim value ++ "'")
    return p

def customPlaceholder (p : Placeholder) (value : String) : Compile Placeholder :=
  match cx.registry.findDirective? p.directive with
  | some d => do
    provide d.name
    let value ← if Text.isBlank value then pure none else expression? cx value
    return { p with directive := d.name, value := value }
  | none => do
    report cx .unknownDirective ("'*" ++ p.directive ++ "' is not a registered structural directive")
    return p

def wrap (directive value : String) (node : TemplateNode) : Compile TemplateNode := do
  let id ← freshBody directive
  let p : Placeholder := { directive := directive, template := id }
  let p ←
    if directive == "if" then ifPlaceholder cx p value
    else if directive == "for" then forPlaceholder cx p value
    else customPlaceholder cx p value
  addBody id [node]
  return .placeholder p

def wrapIf (directive : Option (String × String)) (node : TemplateNode) : Compile TemplateNode :=
  match directive with
  | some (name, value) => wrap cx name value node
  | none => return node

/-! ### Nodes -/

variable (attributes : List (String × String))

def structuralDirective? : Option (String × String) :=
  attributes.findSome? fun (name, value) =>
    match AttributeForm.ofName name with
    | .structural directive => some (directive, value)
    | _ => none

def reference? : Option String :=
  attributes.findSome? fun (name, _) =>
    match AttributeForm.ofName name with
    | .reference reference => some reference
    | _ => none

def slotSelector? : Option String :=
  ((attributes.lookup "selector").map Text.trim).filter fun selector => !selector.isEmpty

def finishTemplate (children : List TemplateNode) : Compile (List TemplateNode) :=
  match structuralDirective? attributes, reference? attributes with
  | some (directive, value), _ => return [← wrap cx directive value (.fragment children)]
  | none, some id => do
    addBody id children
    return []
  | none, none => return [.fragment children]

def startElement (tag : String) (attributes : List (String × String)) :
    Compile (ElementHead × Option Definition) := do
  let head ← addAttributes cx { tag := tag } attributes
  let head ← applySelectorDirectives cx head
  findComponent cx head

def finishElement (host : Option Definition) (children : List TemplateNode) : Compile TemplateNode :=
  match host with
  | some host => if children.isEmpty then return .element head [] [] else projectContent cx head host children
  | none => return .element head children []

mutual

def compileNode (cx : Context) : MarkupNode → Compile (List TemplateNode)
  | .text value => do return [.text (← interpolate cx value true)]
  | .element tag attributes children =>
    if tag == "template" then do
      let children ← compileNodes cx children
      finishTemplate cx attributes children
    else if tag == "place" then do
      let selector := slotSelector? attributes
      addSlot selector
      return [.slot selector (← compileNodes cx children)]
    else do
      let (head, host) ← startElement cx tag attributes
      let children ← compileNodes cx children
      let node ← finishElement cx head host children
      return [← wrapIf cx (structuralDirective? attributes) node]

def compileNodes (cx : Context) : List MarkupNode → Compile (List TemplateNode)
  | [] => return []
  | node :: rest => do
    let nodes ← compileNode cx node
    return nodes ++ (← compileNodes cx rest)

end

/-! ### Templates -/

def unmatchedQuery (owner : Definition) (q : Query) : Diagnostic where
  code := .queryUnresolved
  message := "View query '" ++ q.property ++ "' (" ++ q.selector ++ ") matches nothing in the template of " ++
    owner.name
  file := owner.file
  identifier := some q.property

def resolveViewQueries (owner : Definition) (t : CompiledTemplate) : CompiledTemplate :=
  let queries := owner.viewQueries
  if queries.isEmpty then t
  else
    let heads := TemplateNode.headsOf t.nodes ++ t.bodies.values.flatMap TemplateNode.headsOf
    let matched := heads.filterMap (matchQuery? queries)
    { t with
      nodes := TemplateNode.mapHeadsOf (markView queries) t.nodes
      bodies := t.bodies.map fun _ nodes => TemplateNode.mapHeadsOf (markView queries) nodes
      diagnostics := t.diagnostics ++
        (queries.filter fun q => !matched.contains q.property).map (unmatchedQuery owner) }

def compileMarkup (markup : List MarkupNode) : CompiledTemplate :=
  let (nodes, s) := (compileNodes cx markup).run {}
  resolveViewQueries cx.owner
    { element := cx.owner.name
      nodes := nodes
      bodies := s.bodies
      providers := s.providers
      slots := s.slots
      diagnostics := s.diagnostics
      pending := s.pending
      hasPending := !s.pending.isEmpty }

/-- Compiles the text of a template; none when a character outside ASCII stands where only ASCII may. -/
def compile? (markup : String) : Option CompiledTemplate :=
  (Markup.parse? markup).map (compileMarkup cx)

end Template

end ComponentCompiler
