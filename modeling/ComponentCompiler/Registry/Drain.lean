import ComponentCompiler.Registry.Basic
import ComponentCompiler.Template.Projection

/-!
Content that waited for the template of the component around it, routed once all templates of a
target are compiled.
-/

namespace ComponentCompiler.Registry

def knownSlots (r : Registry) : SortedMap String (List (Option String)) :=
  r.output.externalSlots.insertMany (r.output.templates.toList.map fun (name, t) => (name, t.slots))

def unroutedDiagnostic (entry : PendingProjection) : Diagnostic where
  code := .placeUnresolved
  message := "Content projected into <" ++ entry.hostTag ++ "> cannot be routed: element " ++ entry.host ++
    " has no compiled template"
  file := entry.file
  identifier := some entry.owner

def drainTemplate (slots : SortedMap String (List (Option String))) (t : CompiledTemplate) : CompiledTemplate :=
  if t.pending.isEmpty then t
  else
    { t with
      nodes := TemplateNode.routeWaitingOf slots t.bodies t.nodes
      bodies := t.bodies.map fun _ nodes => TemplateNode.routeWaitingOf slots t.bodies nodes
      pending := []
      hasPending := false }

structure Drained where
  registry : Registry
  resolved : Nat
  diagnostics : List Diagnostic

def drain (r : Registry) : Drained :=
  let slots := r.knownSlots
  let pending := r.output.templates.values.flatMap (·.pending)
  let known (entry : PendingProjection) : Bool := slots.contains entry.host
  { registry :=
      { r with output := { r.output with
          templates := r.output.templates.map fun _ t => drainTemplate slots t } }
    resolved := (pending.filter known).length
    diagnostics := (pending.filter fun entry => !known entry).map unroutedDiagnostic }

end ComponentCompiler.Registry
