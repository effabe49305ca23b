import ComponentCompiler.Json.Value

/-! Diagnostics: problems of single files, past which a build continues. -/

namespace ComponentCompiler

inductive DiagnosticCode where
  | malformedScript
  | duplicateDeclaration
  | annotationTarget
  | importResolution
  | importNotExported
  | duplicateRegistration
  | elementSelector
  | dependencyUnresolved
  | circularDependency
  | moduleOwnership
  | moduleUnresolved
  | moduleCircular
  | selectorUnresolved
  | templateSource
  | unknownElement
  | unknownDirective
  | pipeUnresolved
  | placeUnresolved
  | queryUnresolved
  | templateId
  | expression
  | providerNotExported
  | other (text : String)
deriving DecidableEq, Repr

namespace DiagnosticCode

def known : List DiagnosticCode :=
  [.malformedScript, .duplicateDeclaration, .annotationTarget, .importResolution, .importNotExported,
    .duplicateRegistration, .elementSelector, .dependencyUnresolved, .circularDependency,
    .moduleOwnership, .moduleUnresolved, .moduleCircular, .selectorUnresolved, .templateSource,
    .unknownElement, .unknownDirective, .pipeUnresolved, .placeUnresolved, .queryUnresolved,
    .templateId, .expression, .providerNotExported]

def text : DiagnosticCode → String
  | .malformedScript => "E-SYNTAX"
  | .duplicateDeclaration => "E-DUPLICATE-DECLARATION"
  | .annotationTarget => "E-ANNOTATION-TARGET"
  | .importResolution => "E-IMPORT-RESOLUTION"
  | .importNotExported => "E-IMPORT-NOT-EXPORTED"
  | .duplicateRegistration => "E-DUPLICATE-REGISTRATION"
  | .elementSelector => "E-ELEMENT-SELECTOR"
  | .dependencyUnresolved => "E-DI-UNRESOLVED"
  | .circularDependency => "E-CIRCULAR-DEPENDENCY"
  | .moduleOwnership => "E-MODULE-OWNERSHIP"
  | .moduleUnresolved => "E-MODULE-UNRESOLVED"
  | .moduleCircular => "E-MODULE-CIRCULAR"
  | .selectorUnresolved => "E-SELECTOR-UNRESOLVED"
  | .templateSource => "E-TEMPLATE-SOURCE"
  | .unknownElement => "E-UNKNOWN-ELEMENT"
  | .unknownDirective => "E-UNKNOWN-DIRECTIVE"
  | .pipeUnresolved => "E-PIPE-UNRESOLVED"
  | .placeUnresolved => "E-PLACE-UNRESOLVED"
  | .queryUnresolved => "E-QUERY-UNRESOLVED"
  | .templateId => "E-TEMPLATE-ID"
  | .expression => "E-EXPRESSION"
  | .providerNotExported => "E-PROVIDER-NOT-EXPORTED"
  | .other text => text

def ofText (text : String) : DiagnosticCode :=
  (known.find? fun code => code.text == text).getD (.other text)

def guarantee : DiagnosticCode → String
  | .malformedScript => "Every compiled file is syntactically valid JavaScript."
  | .duplicateDeclaration => "Top-level names are declared once per file."
  | .annotationTarget => "Every annotation is attached to a function declaration."
  | .importResolution => "Every import specifier resolves to a file or a package."
  | .importNotExported => "Imported names exist in the target file's exports."
  | .duplicateRegistration => "One name is registered once per annotation kind."
  | .elementSelector => "Element selectors follow the custom-element naming rule."
  | .dependencyUnresolved => "Every injected dependency has a provider."
  | .circularDependency => "Dependency injection graphs are acyclic."
  | .moduleOwnership => "Each service and selector belongs to exactly one module."
  | .moduleUnresolved => "Required modules are registered locally or by a package."
  | .moduleCircular => "Required-module lists are acyclic."
  | .selectorUnresolved => "Module selectors name registered elements or directives."
  | .templateSource => "Element templates are readable."
  | .unknownElement => "Custom tags used in templates are registered elements."
  | .unknownDirective => "Directives used in templates are registered."
  | .pipeUnresolved => "Template filters name registered pipes."
  | .placeUnresolved => "Projected content is routed once the host compiles."
  | .queryUnresolved => "View queries match a node in the element's template."
  | .templateId => "Structural directives reference existing templates."
  | .expression => "Template expressions are valid JavaScript expressions."
  | .providerNotExported => "Template providers are exported by their files."
  | .other _ => "Unknown invariant."

end DiagnosticCode

/-- A problem of one file. A line of zero means that the problem has no place in the file. -/
structure Diagnostic where
  code : DiagnosticCode
  message : String
  file : String
  importer : Option String := none
  identifier : Option String := none
  line : Nat := 0
  column : Nat := 0
  context : Option String := none
  hints : List String := []
deriving DecidableEq, Repr

namespace Diagnostic

def display (d : Diagnostic) : String :=
  let place := if 0 < d.line then ":" ++ toString d.line ++ ":" ++ toString d.column else ""
  let importer :=
    match d.importer with
    | some importer => ", imported by " ++ importer
    | none => ""
  "[" ++ d.code.text ++ "] " ++ d.message ++ " (" ++ d.file ++ place ++ importer ++ ")"

def document (d : Diagnostic) : Json :=
  .obj [("code", .str d.code.text), ("errorType", .str "COMPILER_ERROR"), ("message", .str d.message),
    ("guarantee", .str d.code.guarantee), ("file", .str d.file), ("importer", .ofText? d.importer),
    ("identifier", .ofText? d.identifier), ("line", .ofNat d.line), ("column", .ofNat d.column),
    ("context", .ofText? d.context), ("hints", .ofTexts d.hints)]

end Diagnostic

end ComponentCompiler
