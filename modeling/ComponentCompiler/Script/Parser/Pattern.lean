import ComponentCompiler.Script.Parser.Basic

/-!
Patterns: what declarations and parameters bind, and the reading of expressions as the targets of
assignments.
-/

namespace ComponentCompiler.Script

open Parse

variable (parts : Parts) (context : Context)

def propertyKey : Parse Node := do
  let lexeme ← lexeme
  match lexeme.token with
  | .word name =>
    advance
    return .mk (.keyName name) lexeme.span []
  | .string value _ =>
    advance
    return .mk (.literal (.string value)) lexeme.span []
  | .number value =>
    advance
    return .mk (.literal (.number value)) lexeme.span []
  | .bigint =>
    advance
    return .mk (.literal .bigint) lexeme.span []
  | .punct "[" =>
    advance
    let key ← parts.run (.assignment context.withIn)
    expectPunct "]"
    return key
  | _ => unexpected

def patternWithDefault : Parse Node := do
  let start ← here
  let target ← parts.run (.pattern context)
  if ← eatPunct "=" then
    let value ← parts.run (.assignment context.withIn)
    node start .withDefault [target, value]
  else return target

def restElement (close : String) : Parse Node := do
  let start ← here
  expectPunct "..."
  let target ← patternWithDefault parts context
  if let .withDefault := target.label then reportAt .misplacedRest start
  let rest ← node start .rest [target]
  if !(← isPunct close) then reportHere .misplacedRest
  return rest

def arrayPatternElement : Parse Node := do
  if ← isPunct "," then return .mk .hole (← lexeme).span []
  else if ← isPunct "..." then restElement parts context "]"
  else patternWithDefault parts context

def restMember : Parse Node := do
  let rest ← restElement parts context "\x7d"
  match rest.parts with
  | [.mk (.binding _) _ _] => return rest
  | _ =>
    reportAt .misplacedRest rest.span.start
    return rest

def objectPatternMember : Parse Node := do
  let lexeme ← lexeme
  let start := lexeme.span.start
  if lexeme.token == .punct "..." then restMember parts context
  else
    let key ← propertyKey parts context
    if ← eatPunct ":" then
      let value ← patternWithDefault parts context
      node start .patternProperty [key, value]
    else
      match lexeme.token with
      | .word name =>
        let binding := Node.mk (.binding name) lexeme.span []
        if isReserved name then failAt .unexpectedToken start
        if ← eatPunct "=" then
          let value ← parts.run (.assignment context.withIn)
          node start .withDefault [binding, value]
        else return binding
      | _ => unexpected

def bindingPattern : Parse Node := do
  let start ← here
  match ← token with
  | .punct "[" =>
    advance
    let elements ← delimited parts.fuel "]" (arrayPatternElement parts context)
    expectPunct "]"
    node start .arrayPattern elements
  | .punct "\x7b" =>
    advance
    let members ← delimited parts.fuel "\x7d" (objectPatternMember parts context)
    expectPunct "\x7d"
    node start .objectPattern members
  | _ =>
    let (name, span) ← variableName context
    return .mk (.binding name) span []

def isSimpleTarget : Node → Bool
  | .mk (.identifier _) _ _ => true
  | .mk (.member _) _ _ => true
  | .mk (.privateMember _) _ _ => true
  | .mk .index _ _ => true
  | .mk .paren _ [inner] => isSimpleTarget inner
  | _ => false

def simpleTarget (expression : Node) : Parse Node := do
  if isSimpleTarget expression then return expression
  else failAt .invalidTarget expression.span.start

mutual

def toTarget : Node → Parse Node
  | .mk .array span elements => do
    if (← get).trailing.contains span.start then failAt .misplacedRest span.start
    return .mk .arrayPattern span (← toElements elements)
  | .mk .object span members => do
    if (← get).trailing.contains span.start then failAt .misplacedRest span.start
    return .mk .objectPattern span (← toMembers members)
  | other => simpleTarget other

def toTargetWithDefault : Node → Parse Node
  | .mk (.assign "=") span parts => return .mk .withDefault span parts
  | .mk .array span elements => do
    if (← get).trailing.contains span.start then failAt .misplacedRest span.start
    return .mk .arrayPattern span (← toElements elements)
  | .mk .object span members => do
    if (← get).trailing.contains span.start then failAt .misplacedRest span.start
    return .mk .objectPattern span (← toMembers members)
  | other => simpleTarget other

def toElements : List Node → Parse (List Node)
  | [] => return []
  | .mk .hole span parts :: rest => do return .mk .hole span parts :: (← toElements rest)
  | [.mk .spread span [inner]] => do return [.mk .rest span [← toTarget inner]]
  | .mk .spread span _ :: _ => failAt .misplacedRest span.start
  | element :: rest => do
    let target ← toTargetWithDefault element
    return target :: (← toElements rest)

def toMembers : List Node → Parse (List Node)
  | [] => return []
  | [.mk .spread span [inner]] => do return [.mk .rest span [← simpleTarget inner]]
  | .mk .spread span _ :: _ => failAt .misplacedRest span.start
  | .mk .property span [key, value] :: rest => do
    let value ← toTargetWithDefault value
    return .mk .patternProperty span [key, value] :: (← toMembers rest)
  | .mk (.shorthand name) span _ :: rest => do
    return .mk (.identifier name) span [] :: (← toMembers rest)
  | .mk (.initialized name) span [place, value] :: rest => do
    modify fun s => { s with initialized := s.initialized.filter (· != span.start) }
    return .mk .withDefault span [.mk (.identifier name) place.span [], value] :: (← toMembers rest)
  | member :: _ => failAt .invalidTarget member.span.start

end

end ComponentCompiler.Script
