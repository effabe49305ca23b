import ComponentCompiler.Html.Token

/-!
The tokenizer: the next tokens of a text and what follows them. How a text is read depends on the
elements that are open when its turn comes.
-/

namespace ComponentCompiler.Html.Tokenizer

def normalizeBreaks : List Char → List Char
  | [] => []
  | '\r' :: '\n' :: rest => '\n' :: normalizeBreaks rest
  | '\r' :: rest => '\n' :: normalizeBreaks rest
  | c :: rest => c :: normalizeBreaks rest

variable (text : List Char)

def afterAngle : List Char := (text.dropWhile (· != '>')).drop 1

def endsTagName (c : Char) : Bool := isSpace c || c == '/' || c == '>'

def tagName : String :=
  .ofList ((text.takeWhile fun c => !endsTagName c).map fun c => Chars.toAsciiLower (withoutNull c))

def attributeName : List Char × List Char :=
  match text with
  | [] => ([], [])
  | c :: rest =>
    let ends := fun c => endsTagName c || c == '='
    (c :: rest.takeWhile (fun c => !ends c), rest.dropWhile fun c => !ends c)

def quotedValue? (quote : Char) (text : List Char) : Option (List Char × List Char) :=
  Chars.splitOnce? quote text

def attributeValue? : Option (List Char × List Char) :=
  match text.dropWhile isSpace with
  | [] => none
  | '"' :: rest => quotedValue? '"' rest
  | '\'' :: rest => quotedValue? '\'' rest
  | rest =>
    let ends := fun c => isSpace c || c == '>'
    some (rest.takeWhile (fun c => !ends c), rest.dropWhile fun c => !ends c)

def addAttribute (attributes : List Attribute) (name value : List Char) : List Attribute :=
  let name := String.ofList (name.map fun c => Chars.toAsciiLower (withoutNull c))
  if attributes.any (·.name == name) then attributes
  else attributes ++ [⟨name, .ofList (decodeValue value.length value)⟩]

def attributes? : Nat → List Attribute → List Char → Option (List Attribute × Bool × List Char)
  | 0, _, _ => none
  | fuel + 1, done, text =>
    match text.dropWhile isSpace with
    | [] => none
    | '>' :: rest => some (done, false, rest)
    | '/' :: '>' :: rest => some (done, true, rest)
    | '/' :: rest => attributes? fuel done rest
    | rest =>
      let (name, rest) := attributeName rest
      match rest.dropWhile isSpace with
      | '=' :: rest =>
        match attributeValue? rest with
        | none => none
        | some (value, rest) => attributes? fuel (addAttribute done name value) rest
      | rest => attributes? fuel (addAttribute done name []) rest

def tag (isEnd : Bool) (text : List Char) : List Token × List Char :=
  let name := tagName text
  match attributes? (text.length + 1) [] (text.dropWhile fun c => !endsTagName c) with
  | none => ([], [])
  | some (attributes, selfClosing, rest) =>
    ([if isEnd then .endTag name else .startTag name attributes selfClosing], rest)

def afterComment : List Char :=
  match text with
  | '>' :: rest => rest
  | '-' :: '>' :: rest => rest
  | text => search text
where
  search : List Char → List Char
    | [] => []
    | c :: rest =>
      if Chars.startsWith "-->".toList (c :: rest) then rest.drop 2
      else if Chars.startsWith "--!>".toList (c :: rest) then rest.drop 3
      else search rest

def startsWithIgnoringCase (word : String) (text : List Char) : Bool :=
  (text.take word.length).map Chars.toAsciiLower == word.toList

def quotedIdentifier (quote : Char) (text : List Char) : String × Bool × List Char :=
  let inner := text.takeWhile fun c => c != quote && c != '>'
  let rest := text.dropWhile fun c => c != quote && c != '>'
  let identifier := String.ofList (inner.map withoutNull)
  match rest with
  | c :: after => if c = quote then (identifier, true, after) else (identifier, false, rest)
  | [] => (identifier, false, [])

def doctypeSystem (d : Doctype) (text : List Char) : Doctype :=
  match text.dropWhile isSpace with
  | '"' :: rest => close (quotedIdentifier '"' rest)
  | '\'' :: rest => close (quotedIdentifier '\'' rest)
  | _ => { d with forceOldStyle := true }
where
  close (result : String × Bool × List Char) : Doctype :=
    { d with systemId := some result.1, forceOldStyle := !(result.2.1 && result.2.2.contains '>') }

def doctypePublic (d : Doctype) (text : List Char) : Doctype :=
  match text.dropWhile isSpace with
  | '"' :: rest => close (quotedIdentifier '"' rest)
  | '\'' :: rest => close (quotedIdentifier '\'' rest)
  | _ => { d with forceOldStyle := true }
where
  close (result : String × Bool × List Char) : Doctype :=
    let d := { d with publicId := some result.1 }
    if result.2.1 then
      match result.2.2.dropWhile isSpace with
      | '>' :: _ => d
      | [] => { d with forceOldStyle := true }
      | rest => doctypeSystem d rest
    else { d with forceOldStyle := true }

def doctype : Doctype :=
  match text.dropWhile isSpace with
  | [] => { forceOldStyle := true }
  | '>' :: _ => { forceOldStyle := true }
  | rest =>
    let ends := fun c => isSpace c || c == '>'
    let name := (rest.takeWhile fun c => !ends c).map fun c => Chars.toAsciiLower (withoutNull c)
    let d : Doctype := { name := some (.ofList name) }
    match (rest.dropWhile fun c => !ends c).dropWhile isSpace with
    | [] => { d with forceOldStyle := true }
    | '>' :: _ => d
    | rest =>
      if startsWithIgnoringCase "public" rest then doctypePublic d (rest.drop 6)
      else if startsWithIgnoringCase "system" rest then doctypeSystem d (rest.drop 6)
      else { d with forceOldStyle := true }

def cdata : List Char → List Char × List Char
  | [] => ([], [])
  | c :: rest =>
    if Chars.startsWith "]]>".toList (c :: rest) then ([], rest.drop 2)
    else
      let (inner, after) := cdata rest
      (c :: inner, after)

def zeroRun (run : List Char) : List Token :=
  if run.all (·.toNat == 0) then run.map fun _ => .null else [.text run]

def cdataTokens (inner : List Char) : List Token :=
  (inner.splitBy fun a b => (a.toNat == 0) == (b.toNat == 0)).flatMap zeroRun

def plainRun (isSpecial : Char → Bool) (text : List Char) : List Token × List Char :=
  match text with
  | [] => ([], [])
  | c :: _ =>
    let inRun := fun d => !isSpecial d && isSpace d == isSpace c
    ([.text (text.takeWhile inRun)], text.dropWhile inRun)

def textReference : List Token × List Char :=
  match reference? false text with
  | some (chars, rest) =>
    (if endsWithSemicolon text rest then [.text chars] else [.noise, .text chars], rest)
  | none => ([.text ['&']], text)

def atEndTag (name : String) (text : List Char) : Bool :=
  match text with
  | '<' :: '/' :: rest =>
    startsWithIgnoringCase name rest && (rest.drop name.length).head?.any endsTagName
  | _ => false

def rawRun (name : String) (isSpecial : Char → Bool) : List Char → List Char × List Char
  | [] => ([], [])
  | c :: rest =>
    if atEndTag name (c :: rest) || isSpecial c then ([], c :: rest)
    else
      let (run, after) := rawRun name isSpecial rest
      (withoutNull c :: run, after)

inductive ScriptState where
  | plain
  | escaped
  | doubleEscaped
deriving DecidableEq

def opensTag (mark word : String) (text : List Char) : Bool :=
  startsWithIgnoringCase (mark ++ word) text &&
    (text.drop (mark ++ word).length).head?.any endsTagName

def scriptRun (state : ScriptState) : List Char → List Char × List Char
  | [] => ([], [])
  | c :: rest =>
    let text := c :: rest
    if state != .doubleEscaped && opensTag "</" "script" text then ([], text)
    else
      let next : ScriptState :=
        match state with
        | .plain => if Chars.startsWith "<!--".toList text then .escaped else .plain
        | .escaped =>
          if Chars.startsWith "-->".toList text then .plain
          else if opensTag "<" "script" text then .doubleEscaped
          else .escaped
        | .doubleEscaped =>
          if Chars.startsWith "-->".toList text then .plain
          else if opensTag "</" "script" text then .escaped
          else .doubleEscaped
      let (run, after) := scriptRun next rest
      (withoutNull c :: run, after)

def afterOpening (foreign : Bool) (rest : List Char) : List Token × List Char :=
  match rest with
  | '!' :: rest =>
    if Chars.startsWith "--".toList rest then ([.comment], afterComment (rest.drop 2))
    else if startsWithIgnoringCase "doctype" rest then
      ([.doctype (doctype (rest.drop 7))], afterAngle rest)
    else if foreign && Chars.startsWith "[CDATA[".toList rest then
      let (inner, after) := cdata (rest.drop 7)
      (cdataTokens inner, after)
    else ([.comment], afterAngle rest)
  | '?' :: rest => ([.comment], afterAngle rest)
  | '/' :: c :: rest =>
    if Chars.isAsciiLetter c then tag true (c :: rest)
    else if c = '>' then ([.noise], rest)
    else ([.comment], afterAngle (c :: rest))
  | c :: rest =>
    if Chars.isAsciiLetter c then tag false (c :: rest) else ([.text ['<']], c :: rest)
  | [] => ([.text ['<']], [])

def dataToken (foreign : Bool) (text : List Char) : List Token × List Char :=
  match text with
  | [] => ([.eof], [])
  | '<' :: rest => afterOpening foreign rest
  | '&' :: rest => textReference rest
  | c :: rest =>
    if c.toNat = 0 then ([.null], rest)
    else plainRun (fun c => c == '<' || c == '&' || c.toNat == 0) text

def elementToken (name : String) (references : Bool) (text : List Char) : List Token × List Char :=
  match text with
  | [] => ([.eof], [])
  | c :: rest =>
    if atEndTag name text then tag true (text.drop 2)
    else if references && c = '&' then textReference rest
    else
      let (run, after) := rawRun name (fun c => references && c == '&') text
      ([.text run], after)

def scriptToken : List Token × List Char :=
  if text.isEmpty then ([.eof], [])
  else
    match scriptRun .plain text with
    | ([], rest) => tag true (rest.drop 2)
    | (run, rest) => ([.text run], rest)

/-- The next tokens and what follows them. `name` is the element whose text is read, and `foreign` says
that the open element is not one of HTML. -/
def next (content : Content) (name : String) (foreign : Bool) (text : List Char) : List Token × List Char :=
  match content with
  | .data => dataToken foreign text
  | .escapable => elementToken name true text
  | .rawText => elementToken name false text
  | .script => scriptToken text
  | .plaintext => if text.isEmpty then ([.eof], []) else ([.text (text.map withoutNull)], [])

end ComponentCompiler.Html.Tokenizer
