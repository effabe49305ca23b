import ComponentCompiler.Number.Decimal
import ComponentCompiler.Collection.SortedMap

/-!
JSON documents and their text. Whole numbers and numbers with a fraction or an exponent are
different values and print differently.
-/

namespace ComponentCompiler

inductive Json where
  | null
  | bool (value : Bool)
  | int (value : Int)
  | float (value : Binary64)
  | str (value : String)
  | arr (elements : List Json)
  | obj (members : List (String × Json))
deriving Repr, Inhabited

namespace Json

mutual

def beq : Json → Json → Bool
  | .null, .null => true
  | .bool a, .bool b => a == b
  | .int a, .int b => a == b
  | .float a, .float b => a == b
  | .str a, .str b => a == b
  | .arr a, .arr b => beqElements a b
  | .obj a, .obj b => beqMembers a b
  | _, _ => false

def beqElements : List Json → List Json → Bool
  | [], [] => true
  | a :: as, b :: bs => beq a b && beqElements as bs
  | _, _ => false

def beqMembers : List (String × Json) → List (String × Json) → Bool
  | [], [] => true
  | (k, a) :: as, (l, b) :: bs => k == l && beq a b && beqMembers as bs
  | _, _ => false

end

instance : BEq Json := ⟨beq⟩

def member? (document : Json) (key : String) : Option Json :=
  match document with
  | .obj members => (members.reverse.find? fun entry => entry.1 == key).map (·.2)
  | _ => none

def string? : Json → Option String
  | .str s => some s
  | _ => none

def sortMembers (members : List (String × Json)) : List (String × Json) :=
  (SortedMap.ofList members).toList

mutual

/-- Orders the members of every object by key, the last of a repeated key standing. -/
def canonical : Json → Json
  | .arr elements => .arr (canonicalElements elements)
  | .obj members => .obj (sortMembers (canonicalMembers members))
  | other => other

def canonicalElements : List Json → List Json
  | [] => []
  | e :: rest => canonical e :: canonicalElements rest

def canonicalMembers : List (String × Json) → List (String × Json)
  | [] => []
  | (k, v) :: rest => (k, canonical v) :: canonicalMembers rest

end

def hexDigit (n : Nat) : Char := if n < 10 then Char.ofNat (48 + n) else Char.ofNat (87 + n)

def escapeChar (c : Char) : List Char :=
  match c with
  | '"' => ['\\', '"']
  | '\\' => ['\\', '\\']
  | '\n' => ['\\', 'n']
  | '\r' => ['\\', 'r']
  | '\t' => ['\\', 't']
  | '\x08' => ['\\', 'b']
  | '\x0c' => ['\\', 'f']
  | c =>
    if c.toNat < 32 then ['\\', 'u', '0', '0', hexDigit (c.toNat / 16), hexDigit (c.toNat % 16)]
    else [c]

def quoteChars (text : List Char) : List Char := '"' :: (text.flatMap escapeChar ++ ['"'])

def quote (text : String) : String := .ofList (quoteChars text.toList)

def intText (i : Int) : String := .ofList (if i < 0 then '-' :: Nat.toDigits 10 i.natAbs else Nat.toDigits 10 i.natAbs)

def floatText (f : Binary64) : String := f.scientific?.getD "null"

mutual

def compact : Json → String
  | .null => "null"
  | .bool b => if b then "true" else "false"
  | .int i => intText i
  | .float f => floatText f
  | .str s => quote s
  | .arr elements => "[" ++ compactElements elements ++ "]"
  | .obj members => "\x7b" ++ compactMembers members ++ "\x7d"

def compactElements : List Json → String
  | [] => ""
  | [e] => compact e
  | e :: rest => compact e ++ "," ++ compactElements rest

def compactMembers : List (String × Json) → String
  | [] => ""
  | [(k, v)] => quote k ++ ":" ++ compact v
  | (k, v) :: rest => quote k ++ ":" ++ compact v ++ "," ++ compactMembers rest

end

def indent (depth : Nat) : String := .ofList ('\n' :: List.replicate (2 * depth) ' ')

mutual

def prettyAt (depth : Nat) : Json → String
  | .arr [] => "[]"
  | .arr elements => "[" ++ prettyElements (depth + 1) elements ++ indent depth ++ "]"
  | .obj [] => "\x7b\x7d"
  | .obj members => "\x7b" ++ prettyMembers (depth + 1) members ++ indent depth ++ "\x7d"
  | .null => "null"
  | .bool b => if b then "true" else "false"
  | .int i => intText i
  | .float f => floatText f
  | .str s => quote s

def prettyElements (depth : Nat) : List Json → String
  | [] => ""
  | [e] => indent depth ++ prettyAt depth e
  | e :: rest => indent depth ++ prettyAt depth e ++ "," ++ prettyElements depth rest

def prettyMembers (depth : Nat) : List (String × Json) → String
  | [] => ""
  | [(k, v)] => indent depth ++ quote k ++ ": " ++ prettyAt depth v
  | (k, v) :: rest => indent depth ++ quote k ++ ": " ++ prettyAt depth v ++ "," ++ prettyMembers depth rest

end

def pretty (document : Json) : String := prettyAt 0 document

/-! ### Documents of simple values -/

variable {α : Type}

def ofNat (n : Nat) : Json := .int n

def ofList (encode : α → Json) (list : List α) : Json := .arr (list.map encode)

def ofTexts (texts : List String) : Json := ofList .str texts

def ofOption (encode : α → Json) : Option α → Json
  | some a => encode a
  | none => .null

def ofText? (text : Option String) : Json := ofOption .str text

def ofMap (encode : α → Json) (m : SortedMap String α) : Json :=
  .obj (m.toList.map fun (key, value) => (key, encode value))

def ofNames (names : SortedSet String) : Json := ofTexts (SortedSet.toList names)

end Json

end ComponentCompiler
