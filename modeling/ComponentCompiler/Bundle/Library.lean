import ComponentCompiler.Bundle.Loader

/-! Bundles of a library, and the package file that describes them. Packages stay outside. -/

namespace ComponentCompiler

open Script.Writer (braces)

structure LibraryBundle where
  name : String
  global : String
  table : String
  entry : Nat
  exports : SortedSet String
  packages : List PackageImport

namespace LibraryBundle

def folder : String := "bundles"

def metadataFile : String := "metadata.json"

def packageFile : String := "package.json"

variable (b : LibraryBundle)

def fileName : BundlePattern → String
  | .module => b.name ++ "-module.js"
  | .umd => b.name ++ "-umd.js"

def importLine (p : PackageImport) : String :=
  "import * as " ++ p.identifier ++ " from " ++ Script.Writer.string p.package ++ ";\n"

def exportLine (name : String) : String :=
  if name == "default" then "export default __entry['default'];\n"
  else if Script.isName name then "export var " ++ name ++ " = __entry." ++ name ++ ";\n"
  else ""

def moduleForm : String :=
  Text.join "" (b.packages.map importLine) ++ Loader.script b.table ++ "\n" ++ Loader.entryScript b.entry ++
    Text.join "" ((SortedSet.toList b.exports).map exportLine)

def globalAssignment (dotted : String) : String :=
  let names := (Text.splitOn '.' dotted).filter fun name => !name.isEmpty
  let step (count : Nat) : String :=
    let path := "global." ++ Text.join "." (names.take count)
    if count == names.length then path ++ " = " ++ braces "" else path ++ " = " ++ path ++ " || " ++ braces ""
  "(" ++ Text.join ", " ((List.range names.length).map fun index => step (index + 1)) ++ ")"

def parameters : List String := Loader.exports :: b.packages.map (·.identifier)

def requires : List String :=
  Loader.exports :: b.packages.map fun p => "require(" ++ Script.Writer.string p.package ++ ")"

def dependencies : List String :=
  Script.Writer.singleQuoted Loader.exports :: b.packages.map fun p => Script.Writer.string p.package

def globals : List String :=
  globalAssignment b.global :: b.packages.map fun p => "global." ++ p.global

def umdForm : String :=
  "(function (global, factory) " ++
    braces ("\n  typeof exports === 'object' && typeof module !== 'undefined' ? factory(" ++
      Text.join ", " b.requires ++ ") :\n" ++
      "  typeof define === 'function' && define.amd ? define(" ++ Script.Writer.list b.dependencies ++
      ", factory) :\n" ++
      "  (global = typeof globalThis !== 'undefined' ? globalThis : global || self, factory(" ++
      Text.join ", " b.globals ++ "));\n") ++
    ")(this, function (" ++ Text.join ", " b.parameters ++ ") " ++
    braces ("\n'use strict';\n" ++ Loader.script b.table ++ "\n" ++ Loader.entryScript b.entry ++
      "Object.keys(__entry).forEach(function (key) " ++ braces " exports[key] = __entry[key]; " ++ ");\n") ++
    ");\n"

def text : BundlePattern → String
  | .module => b.moduleForm
  | .umd => b.umdForm

def entryMember : BundlePattern → String
  | .module => "module"
  | .umd => "main"

def versionRange (p : PackageImport) : String :=
  match p.version with
  | some version => "^" ++ version
  | none => "*"

def peers : Json → Json
  | .obj members =>
    .obj (b.packages.foldl (fun (m : SortedMap String Json) p => m.insertNew p.package (.str (versionRange p)))
      (.ofList members)).toList
  | other => other

def packageDocument (existing : Option Json) (name : String)
    (patterns : List BundlePattern) (generateMeta : Bool) : Json :=
  let members : SortedMap String Json :=
    match existing.map Json.canonical with
    | some (.obj members) => .ofList members
    | _ => ∅
  let members := members.insertNew "name" (.str name)
  let members := patterns.foldl
    (fun m pattern => m.insert (entryMember pattern) (.str (folder ++ "/" ++ b.fileName pattern))) members
  let members := if generateMeta then members.insert "metadata" (.str metadataFile) else members
  .obj (members.upsert "peerDependencies" (.obj []) b.peers).toList

end LibraryBundle

end ComponentCompiler
