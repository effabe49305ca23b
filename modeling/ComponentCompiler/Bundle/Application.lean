import ComponentCompiler.Bundle.Loader

/-! What an application consists of: the bootstrap script, chunks, the style loader and the page. -/

namespace ComponentCompiler.Application

open Script.Writer (braces)

def stylesFile : String := "styles.js"

def bootstrap (table : String) (entry : Nat) : String :=
  "(function (global) " ++
    braces ("\n'use strict';\n" ++ Loader.script table ++ "\n" ++
      "var current = typeof document !== 'undefined' && document.currentScript;\n" ++
      "if (current && current.src) " ++
      braces ("\n  " ++ Loader.loader ++ ".base = current.src.slice(0, current.src.lastIndexOf('/') + 1);\n") ++
      "\n" ++
      "global." ++ Loader.globalName ++ " = " ++ Loader.loader ++ ";\n" ++
      Loader.module entry ++ ";\n") ++
    ")(typeof window !== 'undefined' ? window : this);\n"

def chunkName (root : Nat) : String := "chunk-" ++ toString root ++ ".js"

def chunk (root : Nat) (table : String) (needed : List Nat) : String :=
  Loader.globalName ++ ".c(" ++ toString root ++ ", " ++ table ++ ", " ++
    Script.Writer.list (needed.map toString) ++ ");\n"

def sheetText (name css : String) : String :=
  "/* " ++ Text.replaceAll "*/" "* /" name ++ " */\n" ++ Text.trim css

def styleLoader (sheets : List (String × String)) : String :=
  let css := Text.join "\n" (sheets.map fun (name, css) => sheetText name css)
  "(function () " ++
    braces ("\n  if (typeof document === 'undefined') return;\n" ++
      "  var style = document.createElement('style');\n" ++
      "  style.setAttribute('data-loom', '');\n" ++
      "  style.textContent = " ++ Script.Writer.string css ++ ";\n" ++
      "  document.head.appendChild(style);\n") ++
    ")();\n"

def cutLast? (test : List Char → Bool) : List Char → Option (List Char × List Char)
  | [] => none
  | c :: rest =>
    match cutLast? test rest with
    | some (before, after) => some (c :: before, after)
    | none => if test (c :: rest) then some ([], c :: rest) else none

def bodyEnd : List Char := "</body>".toList

def isBodyEnd (text : List Char) : Bool := (text.take bodyEnd.length).map Chars.toAsciiLower == bodyEnd

def scriptTag (source : String) : String := "  <script src=\"" ++ source ++ "\"></script>\n"

def addScripts (html : String) (scripts : List String) : String :=
  let tags := Text.join "" (scripts.map scriptTag)
  match cutLast? isBodyEnd html.toList with
  | some (before, after) => .ofList before ++ tags ++ .ofList after
  | none => Text.trimEnd html ++ "\n" ++ tags

end ComponentCompiler.Application
