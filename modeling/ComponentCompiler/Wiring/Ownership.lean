import ComponentCompiler.Registry.Basic
import ComponentCompiler.Wiring.Cycle

/-!
Modules: the services, elements and directives that each owns, and the modules it requires. The
first claim to a definition stands.
-/

namespace ComponentCompiler.Wiring

def clearOwners (ds : SortedMap String Definition) : SortedMap String Definition :=
  ds.map fun _ d => if d.isLocal then { d with module := none } else d

variable (r : Registry)

def cleared : Registry :=
  { r with
    elements := clearOwners r.elements
    directives := clearOwners r.directives
    services := clearOwners r.services }

structure Claims where
  registry : Registry
  diagnostics : List Diagnostic := []

namespace Claims

def report (c : Claims) (d : Diagnostic) : Claims := { c with diagnostics := c.diagnostics ++ [d] }

variable (module : Definition)

def ownershipDiagnostic (label name owner : String) : Diagnostic where
  code := .moduleOwnership
  message := label ++ " '" ++ name ++ "' is already owned by module " ++ owner ++ "; " ++ module.name ++
    " cannot claim it"
  file := module.file
  identifier := some name
  context := some module.name
  hints := ["Declare it in one module and require that module instead."]

def claim (c : Claims) (module : Definition) (kind : AnnotationKind) (label name : String)
    (d : Definition) : Claims :=
  match d.module with
  | some owner => if owner == module.name then c else c.report (ownershipDiagnostic module label name owner)
  | none =>
    let owned := (c.registry.definitions kind).insert name { d with module := some module.name }
    { c with registry := c.registry.withDefinitions kind owned }

def unknownService (service : String) : Diagnostic where
  code := .dependencyUnresolved
  message := "Module " ++ module.name ++ " declares unknown service '" ++ service ++ "'"
  file := module.file
  identifier := some service
  context := some module.name

def claimService (c : Claims) (service : String) : Claims :=
  match c.registry.services.get? service with
  | some d => c.claim module .service "Service" service d
  | none => c.report (unknownService module service)

def selectorTarget? (r : Registry) (entry : String) : Option (AnnotationKind × String) :=
  if r.elements.contains entry then some (.element, entry)
  else if r.directives.contains entry then some (.directive, entry)
  else
    (r.index.find? fun e => e.text == entry || e.selector.bareName? == some entry).map fun e =>
      (e.kind, e.name)

def unknownSelector (entry : String) : Diagnostic where
  code := .selectorUnresolved
  message := "Module " ++ module.name ++ " declares '" ++ entry ++
    "', which is not a registered element or directive"
  file := module.file
  identifier := some entry
  context := some module.name

def claimSelector (c : Claims) (entry : String) : Claims :=
  match selectorTarget? c.registry entry with
  | some (kind, name) =>
    match c.registry.get? kind name with
    | some d => c.claim module kind kind.keyword name d
    | none => c
  | none => c.report (unknownSelector module entry)

def packageModules (r : Registry) : List String :=
  r.packages.values.flatMap fun p => SortedSet.toList p.modules

def unknownModule (required : String) : Diagnostic where
  code := .moduleUnresolved
  message := "Module " ++ module.name ++ " requires unknown module '" ++ required ++ "'"
  file := module.file
  identifier := some required
  context := some module.name

def checkRequired (c : Claims) (required : String) : Claims :=
  if c.registry.modules.contains required || (packageModules c.registry).contains required then c
  else c.report (unknownModule module required)

def addModule (c : Claims) (module : Definition) : Claims :=
  let c := module.serviceNames.foldl (claimService module) c
  let c := (module.names "requiredModules").foldl (checkRequired module) c
  (module.names "selectors").foldl (claimSelector module) c

end Claims

def localModules : List Definition := r.modules.values.filter (·.isLocal)

def moduleGraph : NameGraph :=
  .ofList ((localModules r).map fun m =>
    (m.name, (m.names "requiredModules").filter fun name => (r.modules.get? name).any (·.isLocal)))

def circularModule? (cycle : List String) : Option Diagnostic := do
  let first ← r.modules.get? (← cycle.head?)
  return {
    code := .moduleCircular
    message := "Circular required modules: " ++ NameGraph.cyclePath cycle
    file := first.file
    identifier := some first.name
    context := some (NameGraph.cyclePath cycle) }

def assignOwners : Registry × List Diagnostic :=
  let claims := (localModules (cleared r)).foldl Claims.addModule { registry := cleared r }
  (claims.registry,
    claims.diagnostics ++ (moduleGraph claims.registry).cycles.filterMap (circularModule? claims.registry))

end ComponentCompiler.Wiring
