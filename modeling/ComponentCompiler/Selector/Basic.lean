import ComponentCompiler.Collection.SortedMap
import ComponentCompiler.Text.Basic

/-!
Compound selectors such as `tag#ref.class[attr=value]`. A selector is read as an optional tag and a
sequence of parts.
-/

namespace ComponentCompiler

structure Selector where
  tag : Option String := none
  reference : Option String := none
  classes : List String := []
  attributes : List (String × Option String) := []
deriving DecidableEq, Repr

structure MatchTarget where
  tag : String
  reference : Option String
  attributes : SortedMap String String
  directives : List String

namespace Selector

inductive Part where
  | reference (name : List Char)
  | className (name : List Char)
  | attribute (inner : List Char)
deriving DecidableEq, Repr

def startsPart (c : Char) : Bool := c == '#' || c == '.' || c == '['

def isNameChar (c : Char) : Bool := !(startsPart c || c == ']' || c == '=')

/-- The parts of a selector; `inside` brackets all is passed over up to the closing one. -/
def parts (inside : Bool) : List Char → List Part
  | [] => []
  | c :: rest =>
    if inside then parts (c != ']') rest
    else if c = '#' then .reference (rest.takeWhile isNameChar) :: parts false rest
    else if c = '.' then .className (rest.takeWhile isNameChar) :: parts false rest
    else if c = '[' then .attribute (rest.takeWhile (· != ']')) :: parts true rest
    else parts false rest

def isQuote (c : Char) : Bool := c == '"' || c == '\''

def attributeValue (text : List Char) : List Char :=
  (((Chars.trim text).dropWhile isQuote).reverse.dropWhile isQuote).reverse

def attributeOf (inner : List Char) : String × Option String :=
  match Chars.splitOnce? '=' inner with
  | some (name, value) => (.ofList (Chars.trim name), some (.ofList (attributeValue value)))
  | none => (.ofList (Chars.trim inner), none)

/-- The selector of a tag and parts; of several references the last one counts. -/
def ofParts (tag : Option String) (parts : List Part) : Selector where
  tag := tag
  reference := (parts.filterMap fun | .reference name => some (String.ofList name) | _ => none).getLast?
  classes := parts.filterMap fun | .className name => some (.ofList name) | _ => none
  attributes := parts.filterMap fun | .attribute inner => some (attributeOf inner) | _ => none

def ofChars? (text : List Char) : Option Selector :=
  match text with
  | [] => none
  | c :: _ =>
    let tag := if startsPart c then none else some (.ofList (text.takeWhile isNameChar))
    some (ofParts tag (parts false text))

def ofText? (text : String) : Option Selector := ofChars? (Chars.trim text.toList)

def listOfText (text : String) : List Selector :=
  (Chars.splitOn ',' text.toList).filterMap fun piece => ofChars? (Chars.trim piece)

def bareName? (s : Selector) : Option String :=
  if s.reference.isNone && s.classes.isEmpty && s.attributes.isEmpty then s.tag else none

def directiveName? (s : Selector) : Option String :=
  match s with
  | ⟨none, none, [], [(name, none)]⟩ => some name
  | _ => s.bareName?

def equalIgnoringCase (a b : String) : Bool := Text.toAsciiLower a == Text.toAsciiLower b

def words (text : String) : List String :=
  (splitWords text.toList).map .ofList
where
  splitWords : List Char → List (List Char)
    | [] => []
    | c :: rest =>
      if Chars.isBlank c then splitWords rest
      else
        match rest with
        | [] => [[c]]
        | d :: _ =>
          if Chars.isBlank d then [c] :: splitWords rest
          else
            match splitWords rest with
            | [] => [[c]]
            | word :: more => (c :: word) :: more

def hasClass (target : MatchTarget) (name : String) : Bool :=
  ((target.attributes.get? "class").map fun list => (words list).contains name).getD false

def matchesTag (tag : String) (target : MatchTarget) : Bool :=
  tag == "*" || equalIgnoringCase tag target.tag

def matchesAttribute (target : MatchTarget) (wanted : String × Option String) : Bool :=
  match target.attributes.get? wanted.1, wanted.2 with
  | some actual, some expected => actual == expected
  | some _, none => true
  | none, none => target.directives.contains wanted.1
  | none, some _ => false

def selects (s : Selector) (target : MatchTarget) : Bool :=
  s.tag.all (matchesTag · target) && s.reference.all (fun id => target.reference == some id) &&
    s.classes.all (hasClass target) && s.attributes.all (matchesAttribute target)

end Selector

end ComponentCompiler
