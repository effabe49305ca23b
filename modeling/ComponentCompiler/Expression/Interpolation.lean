import ComponentCompiler.Expression.Basic

/-! Texts with expressions in them. -/

namespace ComponentCompiler

inductive TextPart where
  | literal (text : String)
  | expression (value : Expression)
deriving DecidableEq, Repr

namespace Interpolation

/-- The text up to the brace that closes the innermost of `depth` open ones, and what follows it. Braces
inside quotes do not count. -/
def closeFrom (quote : Option Char) (depth : Nat) : List Char → Option (List Char × List Char)
  | [] => none
  | c :: rest =>
    match quote with
    | some q =>
      if c = '\\' then
        match rest with
        | [] => none
        | escaped :: rest =>
          (closeFrom quote depth rest).map fun (inner, after) => (c :: escaped :: inner, after)
      else
        (closeFrom (if c = q then none else some q) depth rest).map fun (inner, after) =>
          (c :: inner, after)
    | none =>
      if c = '\x7d' && depth = 1 then some ([], rest)
      else
        let depth :=
          if c = '\x7b' then depth + 1 else if c = '\x7d' then depth - 1 else depth
        (closeFrom (if Expression.isQuote c then some c else none) depth rest).map fun (inner, after) =>
          (c :: inner, after)

def closeBrace? (text : List Char) : Option (List Char × List Char) := closeFrom none 1 text

def leading? (bare : Bool) : List Char → Option (List Char × List Char)
  | '$' :: '\x7b' :: rest => closeBrace? rest
  | '\x7b' :: rest => if bare then closeBrace? rest else none
  | _ => none

inductive Segment where
  | text (chars : List Char)
  | inner (chars : List Char)
deriving DecidableEq, Repr

def consText (c : Char) : List Segment → List Segment
  | .text chars :: rest => .text (c :: chars) :: rest
  | segments => .text [c] :: segments

/-- Cuts a text into literals and the insides of expressions; the bound counts characters. -/
def segmentsWithin (bare : Bool) : Nat → List Char → List Segment
  | _, [] => []
  | 0, text => [.text text]
  | fuel + 1, c :: rest =>
    match leading? bare (c :: rest) with
    | some (inner, after) => .inner inner :: segmentsWithin bare fuel after
    | none => consText c (segmentsWithin bare fuel rest)

def segments (bare : Bool) (text : List Char) : List Segment := segmentsWithin bare text.length text

def Segment.part : Segment → Except Expression.Error TextPart
  | .text chars => .ok (.literal (.ofList chars))
  | .inner chars => do return .expression (← Expression.compile (.ofList chars))

def tokenize (text : String) (bare : Bool) : Except Expression.Error (List TextPart) :=
  (segments bare text.toList).mapM Segment.part

def hasExpression (text : String) (bare : Bool) : Bool :=
  match tokenize text bare with
  | .ok parts => parts.any fun | .expression _ => true | .literal _ => false
  | .error _ => true

def script (parts : List TextPart) : String :=
  Script.Writer.list (parts.map fun
    | .literal text => Script.Writer.string text
    | .expression value => value.script)

end Interpolation

end ComponentCompiler
