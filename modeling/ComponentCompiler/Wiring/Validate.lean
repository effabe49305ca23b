import ComponentCompiler.Wiring.Ownership

/-!
Validation of a registry: modules, then dependencies, each of which has a provider. Each pass starts from a
log without the codes that it reports.
-/

namespace ComponentCompiler.Wiring

variable (r : Registry)

def providedTokens : List String :=
  builtinTokens ++ r.modules.values.flatMap (·.providedTokens) ++
    r.services.values.filterMap fun d => if d.kind = .provider then d.stringProperty? "name" else none

def isProvided (name : String) : Bool :=
  r.services.contains name || (providedTokens r).contains name

def unresolvedDependency (d : Definition) (dependency : Dependency) : Diagnostic where
  code := .dependencyUnresolved
  message := d.kind.keyword ++ " '" ++ d.name ++ "' depends on '" ++ dependency.name ++
    "', which is not registered or provided"
  file := d.file
  identifier := some dependency.name
  context := some d.name
  hints := ["Register it as a Service, provide it from a Module, or mark it optional with '?'."]

def unresolvedDependencies : List Diagnostic :=
  (r.all.filter fun d => d.isLocal && d.kind != .module).flatMap fun d =>
    (d.dependencies.filter fun dependency => !(isProvided r dependency.name || dependency.isOptional)).map
      (unresolvedDependency d)

def serviceGraph : NameGraph :=
  r.services.map fun _ d => (d.dependencies.map (·.name)).filter r.services.contains

def circularDependency? (cycle : List String) : Option Diagnostic := do
  let first ← r.services.get? (← cycle.head?)
  if first.isLocal then
    some
      { code := .circularDependency
        message := "Circular dependency: " ++ NameGraph.cyclePath cycle
        file := first.file
        identifier := some first.name
        context := some (NameGraph.cyclePath cycle) }
  else none

def dependencyDiagnostics : List Diagnostic :=
  unresolvedDependencies r ++ (serviceGraph r).cycles.filterMap (circularDependency? r)

def codes : List DiagnosticCode :=
  [.dependencyUnresolved, .circularDependency, .moduleOwnership, .moduleUnresolved, .moduleCircular,
    .selectorUnresolved]

def validateModules (log : DiagnosticLog) : Registry × DiagnosticLog :=
  let (r, diagnostics) := assignOwners r
  (r, log.extend diagnostics)

def validateDependencies (log : DiagnosticLog) : DiagnosticLog :=
  log.extend (dependencyDiagnostics r)

def validate (log : DiagnosticLog) : Registry × DiagnosticLog :=
  let (r, log) := validateModules r (log.clearCodes codes)
  (r, validateDependencies r log)

end ComponentCompiler.Wiring
