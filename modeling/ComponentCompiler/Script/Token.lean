import ComponentCompiler.Script.Tree
import ComponentCompiler.Text.IdentifierRanges

/-! Tokens of JavaScript and the characters they are made of. -/

namespace ComponentCompiler.Script

inductive Fault where
  | unexpectedCharacter
  | unexpectedToken
  | unterminatedComment
  | unterminatedString
  | unterminatedTemplate
  | unterminatedRegex
  | invalidRegexFlags
  | invalidEscape
  | invalidNumber
  | escapedKeyword
  | invalidTarget
  | mixedOperators
  | misplacedStatement
  | missingInitializer
  | misplacedRest
  | illegalName
  | illegalLineBreak
  | illegalOptionalChain
  | duplicateExport
  | tooDeep
deriving DecidableEq, Repr

def Fault.message : Fault → String
  | .unexpectedCharacter => "Invalid character"
  | .unexpectedToken => "Unexpected token"
  | .unterminatedComment => "Unterminated comment"
  | .unterminatedString => "Unterminated string"
  | .unterminatedTemplate => "Unterminated template"
  | .unterminatedRegex => "Unterminated regular expression"
  | .invalidRegexFlags => "Invalid regular expression flags"
  | .invalidEscape => "Invalid escape sequence"
  | .invalidNumber => "Invalid number"
  | .escapedKeyword => "Keywords cannot contain escape characters"
  | .invalidTarget => "Cannot assign to this expression"
  | .mixedOperators => "These operators cannot be mixed without parentheses"
  | .misplacedStatement => "This statement is not allowed here"
  | .missingInitializer => "Missing initializer"
  | .misplacedRest => "A rest element must be last"
  | .illegalName => "This name is not allowed here"
  | .illegalLineBreak => "A line break is not allowed here"
  | .illegalOptionalChain => "An optional chain is not allowed here"
  | .duplicateExport => "Duplicated export"
  | .tooDeep => "The text is nested too deeply"

structure SyntaxError where
  fault : Fault
  offset : Nat
deriving DecidableEq, Repr

/-- Keywords are words like other names; the parser tells them apart by their place. -/
inductive Token where
  | eof
  | word (name : String)
  | privateName (name : String)
  | punct (text : String)
  | number (value : Binary64)
  | bigint
  /-- A string; `whole` when its text has no lone surrogate. -/
  | string (value : String) (whole : Bool)
  /-- The first piece of a template; `opens` when a substitution follows it. -/
  | template (quasi : Quasi) (opens : Bool)
deriving DecidableEq, Repr

structure Lexeme where
  token : Token
  span : Span
  newline : Bool
  escaped : Bool
deriving DecidableEq, Repr

structure Cursor where
  rest : List Char
  offset : Nat
deriving DecidableEq, Repr

namespace Cursor

def skip (cursor : Cursor) (count : Nat) : Cursor :=
  ⟨cursor.rest.drop count, cursor.offset + Chars.byteLength (cursor.rest.take count)⟩

end Cursor

def isLineBreak (c : Char) : Bool :=
  c == '\n' || c == '\r' || c.toNat == 0x2028 || c.toNat == 0x2029

def isSpace (c : Char) : Bool :=
  let n := c.toNat
  n == 0x20 || n == 9 || n == 11 || n == 12 || n == 0x85 || n == 0xA0 || n == 0xFEFF || n == 0x1680 ||
    (0x2000 ≤ n && n ≤ 0x200B) || n == 0x202F || n == 0x205F || n == 0x3000

def isNameStart (c : Char) : Bool :=
  if c.toNat < 128 then Chars.isAsciiLetter c || c == '$' || c == '_'
  else Chars.inRuns false Chars.identifierStart c.toNat

def isNamePart (c : Char) : Bool :=
  if c.toNat < 128 then Chars.isAsciiAlphanumeric c || c == '$' || c == '_'
  else
    c.toNat == 0x200C || c.toNat == 0x200D || Chars.inRuns false Chars.identifierStart c.toNat ||
      Chars.inRuns false Chars.identifierPart c.toNat

def isName (text : String) : Bool :=
  match text.toList with
  | [] => false
  | c :: rest => isNameStart c && rest.all isNamePart

def reservedWords : List String :=
  ["break", "case", "catch", "class", "const", "continue", "debugger", "default", "delete", "do",
    "else", "enum", "export", "extends", "false", "finally", "for", "function", "if", "import",
    "in", "instanceof", "new", "null", "return", "super", "switch", "this", "throw", "true", "try",
    "typeof", "var", "void", "while", "with"]

def isReserved (word : String) : Bool := reservedWords.contains word

def contextualWords : List String :=
  ["abstract", "accessor", "any", "as", "assert", "asserts", "async", "await", "bigint", "boolean",
    "constructor", "declare", "defer", "from", "get", "global", "implements", "infer", "interface",
    "intrinsic", "is", "keyof", "let", "meta", "module", "namespace", "never", "number", "object", "of",
    "out", "override", "package", "private", "protected", "public", "readonly", "require", "satisfies",
    "set", "source", "static", "string", "symbol", "target", "type", "undefined", "unique", "unknown",
    "using", "yield"]

def isKeyword (word : String) : Bool := isReserved word || contextualWords.contains word

def punctuators : List String :=
  [">>>=", "...", "===", "!==", "**=", "<<=", ">>=", ">>>", "&&=", "||=", "??=", "=>", "==", "!=",
    "<=", ">=", "&&", "||", "??", "?.", "++", "--", "+=", "-=", "*=", "/=", "%=", "&=", "|=", "^=",
    "<<", ">>", "**", "\x7b", "\x7d", "(", ")", "[", "]", ";", ",", "<", ">", "+", "-", "*", "/",
    "%", "&", "|", "^", "!", "~", "?", ":", "=", "@", "."]

end ComponentCompiler.Script
