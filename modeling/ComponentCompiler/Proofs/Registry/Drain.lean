import ComponentCompiler.Proofs.Diagnostic.Log
import ComponentCompiler.Proofs.Template.Waiting
import ComponentCompiler.Registry.Drain
import Mathlib.Data.List.Nodup

/-!
What waits after everything has been routed: content of components without a template, each with a
report.
-/

namespace ComponentCompiler

open TemplateNode Option SortedMap

namespace CompiledTemplate

def IsCompiled (t : CompiledTemplate) : Prop := ∃ cx markup, Template.compile? cx markup = some t

theorem IsCompiled.accounted {t : CompiledTemplate} (compiled : t.IsCompiled) :
    t.Accounted (·.owner = t.element) := by
  obtain ⟨cx, markup, gives⟩ := compiled
  obtain ⟨nodes, -, rfl⟩ := map_eq_some_iff.mp gives
  exact Template.accounted_compileMarkup fun _ _ _ _ => (Template.element_compileMarkup cx nodes).symm

theorem Accounted.exists_entry {t : CompiledTemplate} (accounted : t.Accounted P) (mem : head ∈ t.heads)
    (waits : head.routed = false) : ∃ entry ∈ t.pending, entry.IsFor head := by
  rcases List.mem_append.mp mem with here | here
  · exact accounted.nodes.heads head here waits
  · obtain ⟨nodes, body, here⟩ := List.mem_flatMap.mp here
    obtain ⟨id, found⟩ := mem_values_iff.mp body
    exact (accounted.bodies id nodes found).heads head here waits

end CompiledTemplate

namespace Registry

variable {r : Registry} {t : CompiledTemplate}

theorem get?_knownSlots (r : Registry) (name) : r.knownSlots.get? name = r.slots? name := by
  have slots : r.knownSlots =
      r.output.externalSlots.insertMany (r.output.templates.map fun _ t => t.slots).entries := rfl
  rw [slots, get?_insertMany, get?_map, slots?]

def pending (r : Registry) : List PendingProjection := r.output.templates.values.flatMap (·.pending)

def routable (r : Registry) (entry : PendingProjection) : Bool := (r.slots? entry.host).isSome

theorem contains_knownSlots (r : Registry) : (fun entry => r.knownSlots.contains entry.host) = r.routable := by
  funext entry
  rw [SortedMap.contains, get?_knownSlots, routable]

theorem resolved_drain (r : Registry) : r.drain.resolved = (r.pending.filter r.routable).length := by
  rw [← contains_knownSlots]
  rfl

theorem diagnostics_drain (r : Registry) :
    r.drain.diagnostics = (r.pending.filter fun entry => !r.routable entry).map unroutedDiagnostic := by
  rw [← contains_knownSlots]
  rfl

theorem pending_drainTemplate (slots) (t) :
    (drainTemplate slots t).pending = [] := by
  unfold drainTemplate
  split
  · exact List.isEmpty_iff.mp ‹_›
  · rfl

theorem element_drainTemplate (slots) (t) :
    (drainTemplate slots t).element = t.element := by
  unfold drainTemplate
  split <;> rfl

theorem slots_drainTemplate (slots) (t) :
    (drainTemplate slots t).slots = t.slots := by
  unfold drainTemplate
  split <;> rfl

theorem hasPending_drainTemplate (accounted : t.Accounted P) : (drainTemplate slots t).hasPending = false := by
  unfold drainTemplate
  split
  · rename_i none
    rw [accounted.flag, none]
    rfl
  · rfl

theorem drainTemplate_of_nil (none : t.pending = []) : drainTemplate slots t = t := by
  rw [drainTemplate, none]
  rfl

theorem mem_heads_drainTemplate (accounted : t.Accounted P) (mem : head ∈ (drainTemplate slots t).heads)
    (waits : head.routed = false) : head ∈ t.heads ∧ Stuck slots head := by
  unfold drainTemplate at mem
  split at mem
  · rename_i none
    obtain ⟨entry, listed, -⟩ := accounted.exists_entry mem waits
    rw [List.isEmpty_iff.mp none] at listed
    cases listed
  · rcases List.mem_append.mp mem with here | here
    · obtain ⟨before, stuck⟩ := mem_headsOf_routeWaiting waits t.nodes here
      exact ⟨List.mem_append_left _ before, stuck⟩
    · dsimp only at here
      rw [values_map] at here
      obtain ⟨_, body, here⟩ := List.mem_flatMap.mp here
      obtain ⟨nodes, old, rfl⟩ := List.mem_map.mp body
      obtain ⟨before, stuck⟩ := mem_headsOf_routeWaiting waits nodes here
      exact ⟨List.mem_append_right _ (List.mem_flatMap.mpr ⟨nodes, old, before⟩), stuck⟩

theorem get?_drain (here : r.drain.registry.output.templates.get? name = some t) :
    ∃ before, r.output.templates.get? name = some before ∧ t = drainTemplate r.knownSlots before := by
  rw [show r.drain.registry.output.templates = r.output.templates.map fun _ t => drainTemplate r.knownSlots t from rfl,
    get?_map] at here
  obtain ⟨before, found, rfl⟩ := map_eq_some_iff.mp here
  exact ⟨before, found, rfl⟩

theorem slots?_drain (r : Registry) (name) : r.drain.registry.slots? name = r.slots? name := by
  unfold slots?
  rw [show r.drain.registry.output.templates = r.output.templates.map fun _ t => drainTemplate r.knownSlots t from rfl,
    get?_map, Option.map_map]
  simp only [Function.comp_def, slots_drainTemplate]
  rfl

theorem pending_drain (r : Registry) : r.drain.registry.pending = [] := by
  refine List.flatMap_eq_nil_iff.mpr fun t mem => ?_
  obtain ⟨name, here⟩ := mem_values_iff.mp mem
  obtain ⟨before, -, rfl⟩ := get?_drain here
  exact pending_drainTemplate _ before

theorem drain_drain (r : Registry) : r.drain.registry.drain = ⟨r.drain.registry, 0, []⟩ := by
  have none := pending_drain r
  have templates : (r.drain.registry.output.templates.map fun _ t => drainTemplate r.drain.registry.knownSlots t) =
      r.drain.registry.output.templates := by
    rw [show r.drain.registry.output.templates = r.output.templates.map fun _ t => drainTemplate r.knownSlots t from rfl,
      SortedMap.map_map]
    simp only [drainTemplate_of_nil (pending_drainTemplate _ _)]
  have registry : r.drain.registry.drain.registry = r.drain.registry := by
    conv => rhs; rw [show r.drain.registry = { r.drain.registry with output := { r.drain.registry.output with
      templates := r.drain.registry.output.templates } } from rfl, ← templates]
    rfl
  have resolved := resolved_drain r.drain.registry
  have diagnostics := diagnostics_drain r.drain.registry
  rw [none] at resolved diagnostics
  cases again : r.drain.registry.drain with
  | mk registry' resolved' diagnostics' =>
    rw [again] at registry resolved diagnostics
    cases registry
    cases resolved
    cases diagnostics
    rfl

/-- After everything that is pending in compiled templates has been routed, no template has anything pending. An element
whose content waits still is one of a component that has neither a template nor slots of a package, and the log says so
for the owner of the template and the component. Each entry is counted or reported, and what is reported stands in the
log once. Routing again changes nothing. -/
theorem drain_leaves_reported (compiled : ∀ name t, r.output.templates.get? name = some t → t.IsCompiled)
    {log : DiagnosticLog} (single : ∀ file, (log.forFile file).Nodup) :
    let after := r.drain.registry
    let log' := log.extend r.drain.diagnostics
    (∀ name t, after.output.templates.get? name = some t → t.pending = [] ∧ t.hasPending = false ∧
      ∀ head ∈ t.heads, head.routed = false → ∃ host, head.component = some host ∧
        after.output.templates.get? host = none ∧ after.output.externalSlots.get? host = none ∧
        ∃ d ∈ log'.forFile d.file, d.code = .placeUnresolved ∧ d.identifier = some t.element ∧
          d.message = "Content projected into <" ++ head.tag ++ "> cannot be routed: element " ++ host ++
            " has no compiled template") ∧
      r.drain.resolved = (r.pending.filter r.routable).length ∧
      r.drain.resolved + r.drain.diagnostics.length = r.pending.length ∧
      (∀ entry ∈ r.pending, r.routable entry = true ∨
        (log'.forFile entry.file).count (unroutedDiagnostic entry) = 1) ∧
      after.drain = ⟨after, 0, []⟩ := by
  intro after log'
  have reported : ∀ entry ∈ r.pending, r.routable entry = false → unroutedDiagnostic entry ∈ log'.forFile entry.file := by
    intro entry listed unknown
    refine DiagnosticLog.mem_forFile_extend.mpr (.inr ⟨?_, rfl⟩)
    rw [diagnostics_drain]
    exact List.mem_map_of_mem (List.mem_filter.mpr ⟨listed, by simp [unknown]⟩)
  refine ⟨fun name t here => ?_, resolved_drain r, ?_, fun entry listed => ?_, drain_drain r⟩
  · obtain ⟨before, found, rfl⟩ := get?_drain here
    have accounted := (compiled name before found).accounted
    refine ⟨pending_drainTemplate _ _, hasPending_drainTemplate accounted, fun head member waits => ?_⟩
    obtain ⟨member, stuck⟩ := mem_heads_drainTemplate accounted member waits
    obtain ⟨entry, own, component, tag⟩ := accounted.exists_entry member waits
    have unknown : r.slots? entry.host = none := by
      rw [Stuck, component, bind_some, get?_knownSlots] at stuck
      exact stuck
    have listed : entry ∈ r.pending := List.mem_flatMap.mpr ⟨before, mem_values_iff.mpr ⟨name, found⟩, own⟩
    have still : after.slots? entry.host = none := (slots?_drain r entry.host).trans unknown
    unfold slots? at still
    obtain ⟨template, external⟩ := or_eq_none_iff.mp still
    refine ⟨entry.host, component, map_eq_none_iff.mp template, external, unroutedDiagnostic entry,
      reported entry listed (by simp [routable, unknown]), rfl, ?_, ?_⟩
    · rw [element_drainTemplate, ← accounted.entries entry own]
      rfl
    · rw [tag]
      rfl
  · rw [resolved_drain, diagnostics_drain, List.length_map, ← List.countP_eq_length_filter, ← List.countP_eq_length_filter]
    rw [List.length_eq_countP_add_countP r.routable]
    simp
  · cases known : r.routable entry with
    | true => exact .inl rfl
    | false =>
      refine .inr (List.count_eq_one_of_mem ?_ (reported entry listed known))
      exact DiagnosticLog.nodup_forFile_extend single _ _

def customElement (name selector : String) : Definition :=
  { name := name, kind := .element, properties := [("selector", .string selector)], file := "/w/" ++ name ++ ".js" }

def cards : Registry :=
  ((Registry.empty.register (customElement "Box" "x-box")).registry.register (customElement "Card" "x-card")).registry

/-- A page with a box in a card, compiled before the card; the box gets no template. -/
def cardPage : Option CompiledTemplate :=
  Template.compile? ⟨cards, customElement "Page" "x-page", none⟩ "<x-card><x-box><p></p></x-box></x-card>"

def cardTemplate : Option CompiledTemplate :=
  Template.compile? ⟨cards, customElement "Card" "x-card", none⟩ "<place></place>"

def waitingCards : Registry :=
  { cards with output :=
      { templates := ((∅ : SortedMap String CompiledTemplate).insert "Page" (cardPage.getD {})).insert "Card"
          (cardTemplate.getD {}) } }

theorem drain_leaves_reported_cards :
    let log := DiagnosticLog.empty.extend waitingCards.drain.diagnostics
    waitingCards.pending.length = 2 ∧ (waitingCards.pending.filter waitingCards.routable).length = 1 ∧
      waitingCards.drain.resolved + waitingCards.drain.diagnostics.length = waitingCards.pending.length ∧
      (∀ entry ∈ waitingCards.pending, waitingCards.routable entry = true ∨
        (log.forFile entry.file).count (unroutedDiagnostic entry) = 1) ∧
      waitingCards.drain.registry.drain = ⟨waitingCards.drain.registry, 0, []⟩ := by
  have run : cardPage.isSome = true ∧ cardTemplate.isSome = true ∧ waitingCards.pending.length = 2 ∧
      (waitingCards.pending.filter waitingCards.routable).length = 1 := by decide +kernel
  obtain ⟨page, card, two, one⟩ := run
  have given : ∀ {compiled : Option CompiledTemplate}, compiled.isSome = true → compiled = some (compiled.getD {}) := by
    intro compiled some
    cases compiled with
    | none => cases some
    | some t => rfl
  have compiled : ∀ name t, waitingCards.output.templates.get? name = some t → t.IsCompiled := by
    intro name t here
    rw [waitingCards, get?_insert, get?_insert] at here
    split at here
    · cases here
      exact ⟨_, _, given card⟩
    · split at here
      · cases here
        exact ⟨_, _, given page⟩
      · cases here
  have single : ∀ file, (DiagnosticLog.empty.forFile file).Nodup := fun _ => List.nodup_nil
  obtain ⟨-, -, sum, entries, again⟩ := drain_leaves_reported compiled single
  exact ⟨two, one, sum, entries, again⟩

end Registry

end ComponentCompiler
