import ComponentCompiler.Number.Binary64
import ComponentCompiler.Text.Basic

/-!
Parse trees of JavaScript modules. A tree is a node with a label, its place in the source and its
parts in source order.
-/

namespace ComponentCompiler.Script

inductive Literal where
  | null
  | bool (value : Bool)
  | number (value : Binary64)
  | bigint
  | string (value : String)
  | regex
deriving DecidableEq, Repr

/-- A piece of a template between substitutions; escapes that mean nothing leave no cooked text. -/
structure Quasi where
  raw : String
  cooked : Option String
deriving DecidableEq, Repr

inductive ImportSpecifier where
  | named (span : Span) (imported : String) (bound : String)
  | default (span : Span) (bound : String)
  | namespace (span : Span) (bound : String)
deriving DecidableEq, Repr

structure ExportSpecifier where
  place : Span
  inner : String
  exported : String
deriving DecidableEq, Repr

inductive Label where
  | identifier (name : String)
  | binding (name : String)
  | literal (value : Literal)
  | this
  | superRef
  | metaProperty
  | template (quasis : List Quasi)
  /-- The tag, then the substituted expressions. -/
  | tagged
  | array
  | hole
  | spread
  | object
  /-- A key, then its value. -/
  | property
  /-- A member that stands for the key and the variable of one name. -/
  | shorthand (name : String)
  /-- A key, then a function. -/
  | method
  /-- A shorthand member with a default, legal only where the object is read as a pattern. -/
  | initialized (name : String)
  | keyName (name : String)
  | keyPrivate (name : String)
  /-- Decorators, then the parameter they stand before. -/
  | decorated
  /-- Parameters, then the body as a block. -/
  | function (name : Option String)
  /-- Parameters, then the body, a block or an expression. -/
  | arrow
  /-- Decorators, the superclass if any with its type arguments, what the class implements, then the
  members. -/
  | classNode (name : Option String)
  | field
  | staticBlock
  /-- What the interface extends, then the members. -/
  | interface
  /-- A key, then parameters. -/
  | signature
  /-- The phrases in which a type names variables. -/
  | type
  | member (name : String)
  | privateMember (name : String)
  | index
  | call
  | new
  | importCall
  | chain
  | unary (operator : String)
  | update (operator : String)
  | binary (operator : String)
  | privateIn (name : String)
  | assign (operator : String)
  | conditional
  | sequence
  | paren
  | yield
  | arrayPattern
  | objectPattern
  /-- A key, then a pattern. -/
  | patternProperty
  /-- A pattern, then its default. -/
  | withDefault
  | rest
  | block
  | empty
  | expression
  | declaration (keyword : String)
  /-- A pattern, then the initial value if any. -/
  | declarator
  | control (keyword : String)
  | labeled
  | importFrom (specifiers : List ImportSpecifier) (source : String)
  | exportList (specifiers : List ExportSpecifier) (source : Option String)
  | exportDeclaration
  | exportAll (name : Option String) (source : String)
  | exportDefault
deriving Inhabited

inductive Node where
  | mk (label : Label) (span : Span) (parts : List Node)

namespace Node

instance : Inhabited Node := ⟨.mk default default []⟩

def label : Node → Label
  | .mk label .. => label

def span : Node → Span
  | .mk _ span _ => span

def parts : Node → List Node
  | .mk _ _ parts => parts

def identifier? (node : Node) : Option String :=
  match node.label with
  | .identifier name => some name
  | _ => none

end Node

/-- A whole module; string statements at its start are set apart. -/
structure Program where
  directives : List Node
  body : List Node

end ComponentCompiler.Script
