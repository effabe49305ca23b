import ComponentCompiler.Json.Decode
import ComponentCompiler.Text.Basic
import ComponentCompiler.Text.HiddenRanges

/-! The settings of a project. -/

namespace ComponentCompiler

inductive ProjectType where
  | application
  | library
deriving DecidableEq, Repr

inductive BundlePattern where
  | module
  | umd
deriving DecidableEq, Repr

inductive EntryFile where
  | single (file : String)
  | named (files : SortedMap String String)

structure OutputConfig where
  folder : String := "dist"
  entryFile : EntryFile := .single "main.js"
  view : Option String := none
  styles : List String := []
  scripts : List String := []
  assets : List String := []
  assetUrl : Option String := none
  patterns : List BundlePattern := [.module, .umd]
  generateMeta : Bool := true
  minify : Bool := false
  sourceMap : Bool := false
  globals : SortedMap String String := ∅

structure ResolveConfig where
  paths : List String := ["node_modules"]
  aliases : SortedMap String String := ∅

structure ProjectConfig where
  sourceRoot : String := "src"
  type : ProjectType := .application
  output : OutputConfig := {}
  resolve : ResolveConfig := {}

def ProjectConfig.isLibrary (c : ProjectConfig) : Bool := c.type = .library

namespace ProjectType

def text : ProjectType → String
  | .application => "application"
  | .library => "library"

def ofDocument? : Decoder ProjectType :=
  Decoder.choice ([.application, .library].map fun type => (text type, type))

end ProjectType

namespace BundlePattern

def text : BundlePattern → String
  | .module => "MODULE"
  | .umd => "UMD"

def ofDocument? : Decoder BundlePattern :=
  Decoder.choice ([.module, .umd].map fun pattern => (text pattern, pattern))

end BundlePattern

def EntryFile.ofDocument? : Decoder EntryFile
  | .str file => some (.single file)
  | document => (Decoder.map Decoder.string document).map .named

def OutputConfig.shape : Shape :=
  .flat ["folder", "entryFile", "view", "styles", "scripts", "assets", "assetURL", "patterns", "generateMeta",
    "minify", "sourceMap", "globals"]

def OutputConfig.ofDocument? (document : Json) : Option OutputConfig := do
  let r ← JsonRecord.of? OutputConfig.shape document
  let initial : OutputConfig := {}
  let texts := Decoder.list Decoder.string
  return {
    folder := ← r.withDefault "folder" Decoder.string initial.folder
    entryFile := ← r.withDefault "entryFile" EntryFile.ofDocument? initial.entryFile
    view := ← r.withDefault "view" (Decoder.optional Decoder.string) initial.view
    styles := ← r.withDefault "styles" texts initial.styles
    scripts := ← r.withDefault "scripts" texts initial.scripts
    assets := ← r.withDefault "assets" texts initial.assets
    assetUrl := ← r.withDefault "assetURL" (Decoder.optional Decoder.string) initial.assetUrl
    patterns := ← r.withDefault "patterns" (Decoder.list BundlePattern.ofDocument?) initial.patterns
    generateMeta := ← r.withDefault "generateMeta" Decoder.bool initial.generateMeta
    minify := ← r.withDefault "minify" Decoder.bool initial.minify
    sourceMap := ← r.withDefault "sourceMap" Decoder.bool initial.sourceMap
    globals := ← r.withDefault "globals" (Decoder.map Decoder.string) initial.globals }

def ResolveConfig.shape : Shape := .flat ["paths", "alias"]

def ResolveConfig.ofDocument? (document : Json) : Option ResolveConfig := do
  let r ← JsonRecord.of? ResolveConfig.shape document
  let initial : ResolveConfig := {}
  return {
    paths := ← r.withDefault "paths" (Decoder.list Decoder.string) initial.paths
    aliases := ← r.withDefault "alias" (Decoder.map Decoder.string) initial.aliases }

def ProjectConfig.shape : Shape :=
  .record [("sourceRoot", .whole), ("type", .whole), ("output", OutputConfig.shape),
    ("resolve", ResolveConfig.shape)]

def ProjectConfig.ofDocument? (document : Json) : Option ProjectConfig := do
  let r ← JsonRecord.of? ProjectConfig.shape document
  let initial : ProjectConfig := {}
  return {
    sourceRoot := ← r.withDefault "sourceRoot" Decoder.string initial.sourceRoot
    type := ← r.withDefault "type" ProjectType.ofDocument? initial.type
    output := ← r.withDefault "output" OutputConfig.ofDocument? initial.output
    resolve := ← r.withDefault "resolve" ResolveConfig.ofDocument? initial.resolve }

def EntryFile.document : EntryFile → Json
  | .single file => .str file
  | .named files => .ofMap .str files

def OutputConfig.document (o : OutputConfig) : Json :=
  .obj [("folder", .str o.folder), ("entryFile", o.entryFile.document), ("view", .ofText? o.view),
    ("styles", .ofTexts o.styles), ("scripts", .ofTexts o.scripts), ("assets", .ofTexts o.assets),
    ("assetURL", .ofText? o.assetUrl), ("patterns", .ofTexts (o.patterns.map (·.text))),
    ("generateMeta", .bool o.generateMeta), ("minify", .bool o.minify), ("sourceMap", .bool o.sourceMap),
    ("globals", .ofMap .str o.globals)]

def ProjectConfig.document (c : ProjectConfig) : Json :=
  .obj [("sourceRoot", .str c.sourceRoot), ("type", .str c.type.text), ("output", c.output.document),
    ("resolve", .obj [("paths", .ofTexts c.resolve.paths), ("alias", .ofMap .str c.resolve.aliases)])]

namespace EntryFile

def escapeChar (c : Char) : List Char :=
  match c with
  | '\x00' => ['\\', '0']
  | '\t' => ['\\', 't']
  | '\n' => ['\\', 'n']
  | '\r' => ['\\', 'r']
  | '"' => ['\\', '"']
  | '\\' => ['\\', '\\']
  | c => if Chars.isHidden c then ['\\', 'u', '\x7b'] ++ Nat.toDigits 16 c.toNat ++ ['\x7d'] else [c]

def quoted (text : String) : String := .ofList ('"' :: (text.toList.flatMap escapeChar ++ ['"']))

def display : EntryFile → String
  | .single file => "Single(" ++ quoted file ++ ")"
  | .named files =>
    let entries := files.toList.map fun (name, file) => quoted name ++ ": " ++ quoted file
    "Named(\x7b" ++ Text.join ", " entries ++ "\x7d)"

end EntryFile

end ComponentCompiler
