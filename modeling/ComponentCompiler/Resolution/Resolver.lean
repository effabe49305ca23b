import ComponentCompiler.Collection.Sort
import ComponentCompiler.Files.Tree
import ComponentCompiler.Project.Config

/-!
Resolution of import specifiers to files: paths, then aliases, the longest first, then packages.
-/

namespace ComponentCompiler.Specifier

def isRelative (specifier : String) : Bool :=
  Text.startsWith "./" specifier || Text.startsWith "../" specifier || Text.startsWith "/" specifier

/-- The package of a specifier and the path inside it; a scope belongs to the name. -/
def splitPackage (specifier : String) : String × Option String :=
  let parts := Text.splitOn '/' specifier
  let count := if Text.startsWith "@" specifier then 2 else 1
  let rest := Text.join "/" (parts.drop count)
  (Text.join "/" (parts.take count), if rest.isEmpty then none else some rest)

def dropScopeMark (package : String) : List Char := package.toList.dropWhile (· == '@')

def identifier (package : String) : String :=
  let chars := (dropScopeMark package).map fun c => if Chars.isAsciiAlphanumeric c then c else '_'
  match chars with
  | [] => "_"
  | c :: _ => .ofList (if Chars.isAsciiDigit c then '_' :: chars else chars)

def wordsOf : List Char → List (List Char)
  | [] => [[]]
  | c :: rest =>
    if Chars.isAsciiAlphanumeric c then
      match wordsOf rest with
      | [] => [[c]]
      | word :: more => (c :: word) :: more
    else [] :: wordsOf rest

def capitalize : List Char → List Char
  | [] => []
  | c :: rest => Chars.toAsciiUpper c :: rest

def camelCase (part : List Char) : List Char :=
  match wordsOf part with
  | [] => []
  | first :: rest => first ++ (rest.map capitalize).flatten

def global (package : String) (overrides : SortedMap String String) : String :=
  match overrides.get? package with
  | some path => path
  | none => .ofList (Chars.join ['.'] ((Chars.splitOn '/' (dropScopeMark package)).map camelCase))

end ComponentCompiler.Specifier

namespace ComponentCompiler

inductive ResolvedImport where
  | relative (path : Path)
  | aliased (path : Path)
  | package (name : String) (path : Path)
deriving Repr

namespace ResolvedImport

def path : ResolvedImport → Path
  | .relative path | .aliased path | .package _ path => path

def package? : ResolvedImport → Option String
  | .package name _ => some name
  | _ => none

end ResolvedImport

structure PackageInfo where
  name : String
  version : Option String
  dir : Path
  entry : Path
  metadata : Option Path
deriving Inhabited

structure PackageDescription where
  name : Option String := none
  version : Option String := none
  module : Option String := none
  main : Option String := none
  metadata : Option String := none

namespace PackageDescription

def shape : Shape := .flat ["name", "version", "module", "main", "metadata"]

def ofDocument? (document : Json) : Option PackageDescription := do
  let r ← JsonRecord.of? shape document
  return {
    name := ← r.optional "name" Decoder.string
    version := ← r.optional "version" Decoder.string
    module := ← r.optional "module" Decoder.string
    main := ← r.optional "main" Decoder.string
    metadata := ← r.optional "metadata" Decoder.string }

def load (tree : FileTree) (path : Path) : PackageDescription :=
  match tree.readText path with
  | .error _ => {}
  | .ok text => (Json.decode? shape ofDocument? text).getD {}

end PackageDescription

structure Resolver where
  sourceRoot : Path
  aliases : List (String × Path)
  roots : List Path

namespace Resolver

def aliasBefore (a b : String × Path) : Bool :=
  b.1.utf8ByteSize < a.1.utf8ByteSize || (a.1.utf8ByteSize == b.1.utf8ByteSize && a.1 ≤ b.1)

def new (projectRoot : Path) (c : ProjectConfig) : Resolver :=
  let sourceRoot := (projectRoot.join c.sourceRoot).clean
  { sourceRoot := sourceRoot
    aliases := sortBy aliasBefore
      (c.resolve.aliases.toList.map fun (key, target) => (key, (sourceRoot.join target).clean))
    roots := c.resolve.paths.map fun path => (projectRoot.join path).clean }

def locateFile (tree : FileTree) (p : Path) : Option Path :=
  [p, ⟨p.text ++ ".js"⟩, ⟨p.text ++ ".mjs"⟩, p.join "index.js", p.join "index.mjs"].find? tree.isFile

def readPackage (tree : FileTree) (dir : Path) (name : String) : Option PackageInfo := do
  let description := PackageDescription.load tree (dir.join "package.json")
  let declared := (description.module.or description.main).bind fun file =>
    locateFile tree (dir.join file).clean
  let entry ← declared.or (locateFile tree (dir.join "index"))
  let metadata := dir.join (description.metadata.getD "metadata.json")
  return {
    name := description.name.getD name
    version := description.version
    dir := dir
    entry := entry
    metadata := if tree.isFile metadata then some metadata else none }

def package? (r : Resolver) (tree : FileTree) (name : String) : Option PackageInfo :=
  ((r.roots.map (·.join name)).find? tree.isDirectory).bind fun dir => readPackage tree dir name

def resolveRelative (r : Resolver) (tree : FileTree) (specifier : String) (importer : Path) : Option ResolvedImport :=
  let base :=
    if Text.startsWith "/" specifier then r.sourceRoot.join (.ofList (specifier.toList.dropWhile (· == '/')))
    else (importer.parent?.getD ⟨"."⟩).join specifier
  (locateFile tree base.clean).map .relative

def aliasTarget? (specifier : String) (entry : String × Path) : Option Path :=
  if specifier == entry.1 then some entry.2
  else (Text.dropPrefix? (entry.1 ++ "/") specifier).map fun rest => (entry.2.join rest).clean

def resolvePackage (r : Resolver) (tree : FileTree) (specifier : String) : Option ResolvedImport := do
  let (name, inside) := Specifier.splitPackage specifier
  let info ← r.package? tree name
  match inside with
  | some path => return .package name (← locateFile tree (info.dir.join path).clean)
  | none => return .package name info.entry

def resolve (r : Resolver) (tree : FileTree) (specifier : String) (importer : Path) : Option ResolvedImport :=
  if Specifier.isRelative specifier then r.resolveRelative tree specifier importer
  else
    match r.aliases.findSome? (aliasTarget? specifier) with
    | some path => (locateFile tree path).map .aliased
    | none => r.resolvePackage tree specifier

end Resolver

end ComponentCompiler
