import ComponentCompiler.Proofs.Registry.Drain
import ComponentCompiler.Proofs.Template.Deferral

/-!
The order in which templates are compiled. Main statement: `compileAll?_any_order`; it takes a
component without a default slot to tell orders apart.
-/

namespace ComponentCompiler

open TemplateNode MarkupNode Template List Option SortedMap

structure TemplateJob where
  owner : Definition
  assetBase : Option String
  markup : String

namespace Registry

variable {r a b : Registry} {jobs others : List TemplateJob} {job : TemplateJob}
variable {t u : CompiledTemplate} {slots : SortedMap String (List (Option String))}

def withTemplates (r : Registry) (templates : SortedMap String CompiledTemplate) : Registry :=
  { r with output := { r.output with templates := templates } }

def compileJob? (r : Registry) (job : TemplateJob) : Option Registry :=
  (Template.compile? ⟨r, job.owner, job.assetBase⟩ job.markup).map fun t =>
    r.withTemplates (r.output.templates.insert job.owner.name t)

def compileAll? (r : Registry) (jobs : List TemplateJob) : Option Registry := jobs.foldlM compileJob? r

def jobNames (jobs : List TemplateJob) : List String := jobs.map (·.owner.name)

theorem isSome_compileAll? (r : Registry) (jobs) :
    (r.compileAll? jobs).isSome ↔ ∀ job ∈ jobs, (Markup.parse? job.markup).isSome := by
  induction jobs generalizing r with
  | nil => simp [compileAll?]
  | cons job rest ih =>
    rw [forall_mem_cons, compileAll?, foldlM_cons, compileJob?, Template.compile?]
    cases Markup.parse? job.markup with
    | none => simp
    | some nodes => simpa [compileAll?] using ih _

/-- The registry against which one of several templates is compiled: it has some of the others. -/
structure Stage (r a : Registry) (jobs : List TemplateJob) (templates : SortedMap String CompiledTemplate) : Prop where
  outside : ∀ name, name ∉ jobNames jobs → templates.get? name = r.output.templates.get? name
  inside : ∀ name ∈ jobNames jobs, templates.get? name = r.output.templates.get? name ∨
    templates.get? name = a.output.templates.get? name

def jobContext (r : Registry) (job : TemplateJob) (templates : SortedMap String CompiledTemplate) : Context :=
  (⟨r, job.owner, job.assetBase⟩ : Context).withOutput { r.output with templates := templates }

/-- The registry after several templates have been compiled: those of other elements are as before, and each of these
has been compiled at some stage. -/
structure Compiled (r a : Registry) (jobs : List TemplateJob) : Prop where
  frame : a = r.withTemplates a.output.templates
  outside : ∀ name, name ∉ jobNames jobs → a.output.templates.get? name = r.output.templates.get? name
  made : ∀ job ∈ jobs, ∃ nodes templates, Markup.parse? job.markup = some nodes ∧ Stage r a jobs templates ∧
    a.output.templates.get? job.owner.name = some (compileMarkup (r.jobContext job templates) nodes)

theorem compiled_of_compileAll? (distinct : (jobNames jobs).Nodup) (gives : r.compileAll? jobs = some a) : r.Compiled a jobs := by
  induction jobs generalizing r with
  | nil =>
    cases gives
    exact ⟨rfl, fun _ _ => rfl, fun _ mem => by cases mem⟩
  | cons job rest ih =>
    obtain ⟨apart, distinct⟩ := nodup_cons.mp distinct
    rw [compileAll?, foldlM_cons] at gives
    obtain ⟨next, first, gives⟩ := bind_eq_some_iff.mp gives
    obtain ⟨t, compiled, rfl⟩ := map_eq_some_iff.mp first
    obtain ⟨nodes, parsed, rfl⟩ := map_eq_some_iff.mp compiled
    generalize made : compileMarkup ⟨r, job.owner, job.assetBase⟩ nodes = t at gives
    have later := ih distinct gives
    have put : ∀ name, (r.output.templates.insert job.owner.name t).get? name =
        if name = job.owner.name then some t else r.output.templates.get? name := by
      intro name
      rw [get?_insert]
      simp only [Std.LawfulEqCmp.compare_eq_iff_eq]
    have own : a.output.templates.get? job.owner.name = some t := by
      rw [later.outside _ apart]
      exact (put _).trans (if_pos rfl)
    refine ⟨later.frame, fun name outside => ?_, fun other mem => ?_⟩
    · obtain ⟨differ, outside⟩ := not_or.mp (mt mem_cons.mpr outside)
      rw [later.outside name outside]
      exact (put _).trans (if_neg differ)
    · rcases mem_cons.mp mem with rfl | mem
      · exact ⟨nodes, r.output.templates, parsed, ⟨fun _ _ => rfl, fun _ _ => .inl rfl⟩, own.trans (congrArg some made.symm)⟩
      · obtain ⟨nodes', templates, parsed', stage, here⟩ := later.made other mem
        refine ⟨nodes', templates, parsed', ⟨fun name outside => ?_, fun name inside => ?_⟩, here⟩
        · obtain ⟨differ, outside⟩ := not_or.mp (mt mem_cons.mpr outside)
          rw [stage.outside name outside]
          exact (put _).trans (if_neg differ)
        · by_cases same : name = job.owner.name
          · subst same
            rw [stage.outside _ apart]
            exact .inr ((put _).trans ((if_pos rfl).trans own.symm))
          · have old : templates.get? name = r.output.templates.get? name ∨
                templates.get? name = a.output.templates.get? name := by
              have before := stage.inside name ((mem_cons.mp inside).resolve_left same)
              rwa [show (r.withTemplates (r.output.templates.insert job.owner.name t)).output.templates.get? name =
                r.output.templates.get? name from (put _).trans (if_neg same)] at before
            exact old

/-- What is asked of templates to compile: elements with names of their own that are local and have no slots yet, and no
template named like the body of a directive. -/
structure Admits (r : Registry) (jobs : List TemplateJob) : Prop where
  distinct : (jobNames jobs).Nodup
  fresh : ∀ name ∈ jobNames jobs, r.slots? name = none
  native : ∀ name ∈ jobNames jobs, ∀ tag host, r.findElement? tag = some host → host.name = name → host.isLocal = true
  plain : ∀ job ∈ jobs, ∀ nodes, Markup.parse? job.markup = some nodes → ∀ id ∈ bodyNamesOf nodes, PlainName id

theorem Admits.perm (admits : r.Admits jobs) (perm : jobs.Perm others) : r.Admits others := by
  have names : (jobNames jobs).Perm (jobNames others) := perm.map _
  exact ⟨names.nodup_iff.mp admits.distinct, fun name mem => admits.fresh name (names.mem_iff.mpr mem),
    fun name mem => admits.native name (names.mem_iff.mpr mem), fun job mem => admits.plain job (perm.mem_iff.mpr mem)⟩

theorem slots?_withTemplates (r : Registry) (templates) (name) :
    (r.withTemplates templates).slots? name =
      ((templates.get? name).map (·.slots)).or (r.output.externalSlots.get? name) := rfl

theorem Admits.ahead (admits : r.Admits jobs) (job : TemplateJob) {now later : SortedMap String CompiledTemplate}
    (outside : ∀ name, name ∉ jobNames jobs → now.get? name = later.get? name)
    (inside : ∀ name ∈ jobNames jobs, now.get? name = none ∨ now.get? name = later.get? name) :
    Ahead ⟨r, job.owner, job.assetBase⟩ { r.output with templates := now } { r.output with templates := later }
      (r.withTemplates later).knownSlots := by
  have external : ∀ name ∈ jobNames jobs, r.output.externalSlots.get? name = none := fun name mem =>
    (or_eq_none_iff.mp (admits.fresh name mem)).2
  have either : ∀ name, (r.withTemplates now).slots? name = (r.withTemplates later).slots? name ∨
      name ∈ jobNames jobs ∧ (r.withTemplates now).slots? name = none := by
    intro name
    rw [slots?_withTemplates, slots?_withTemplates]
    by_cases mem : name ∈ jobNames jobs
    · rcases inside name mem with none | same
      · exact .inr ⟨mem, by rw [none, external name mem]; rfl⟩
      · exact .inl (by rw [same])
    · exact .inl (by rw [outside name mem])
  refine ⟨fun name => (get?_knownSlots _ name).symm, fun name found known => ?_, fun tag host here unknown learned => ?_⟩
  · rw [get?_knownSlots]
    rcases either name with same | ⟨-, none⟩
    · exact same ▸ known
    · cases known.symm.trans none
  · rw [get?_knownSlots] at learned
    rcases either host.name with same | ⟨mem, -⟩
    · rw [← same] at learned
      rw [show (r.withTemplates now).slots? host.name = none from unknown] at learned
      cases learned
    · exact admits.native host.name mem tag host here rfl

section

variable (admits : r.Admits jobs) (compiled : r.Compiled a jobs)

include admits

theorem Admits.none_of_mem (mem : name ∈ jobNames jobs) : r.output.templates.get? name = none :=
  map_eq_none_iff.mp (or_eq_none_iff.mp (admits.fresh name mem)).1

include compiled

theorem Compiled.stage_ahead (stage : r.Stage a jobs templates) (job : TemplateJob) :
    Ahead ⟨r, job.owner, job.assetBase⟩ { r.output with templates := templates } a.output a.knownSlots := by
  have final : a = r.withTemplates a.output.templates := compiled.frame
  rw [final]
  refine admits.ahead job (fun name outside => ?_) fun name inside => ?_
  · exact (stage.outside name outside).trans (compiled.outside name outside).symm
  · exact (stage.inside name inside).imp (·.trans (admits.none_of_mem inside)) id

theorem Compiled.slots_made (mem : job ∈ jobs) (parsed : Markup.parse? job.markup = some nodes) :
    ∃ t, a.output.templates.get? job.owner.name = some t ∧
      t.slots = (compileMarkup ⟨r, job.owner, job.assetBase⟩ nodes).slots := by
  obtain ⟨nodes', templates, parsed', stage, here⟩ := compiled.made job mem
  cases parsed.symm.trans parsed'
  refine ⟨_, here, ?_⟩
  have ahead := @Admits.ahead r jobs admits job r.output.templates templates
    (fun name outside => (stage.outside name outside).symm) fun name inside => .inl (admits.none_of_mem inside)
  have fit : Fit ⟨r, job.owner, job.assetBase⟩ (r.withTemplates templates).knownSlots false (bodyNamesOf nodes) (contentTagsOf nodes) :=
    ⟨admits.plain job mem nodes parsed, fun _ _ _ _ absurd => by cases absurd⟩
  exact (compileMarkup_deferred ahead fit).places

end

theorem Compiled.slots?_eq (admits : r.Admits jobs) (perm : jobs.Perm others) (first : r.Compiled a jobs)
    (second : r.Compiled b others) (name) : a.slots? name = b.slots? name := by
  have frame : ∀ {c : Registry}, c = r.withTemplates c.output.templates → c.slots? name =
      ((c.output.templates.get? name).map (·.slots)).or (r.output.externalSlots.get? name) := by
    intro c frame
    conv => lhs; rw [frame]
    rfl
  rw [frame first.frame, frame second.frame]
  have names : (jobNames jobs).Perm (jobNames others) := perm.map _
  by_cases inside : name ∈ jobNames jobs
  · obtain ⟨job, mem, rfl⟩ := List.mem_map.mp inside
    obtain ⟨nodes, -, parsed, -⟩ := first.made job mem
    obtain ⟨t, here, slots⟩ := first.slots_made admits mem parsed
    obtain ⟨u, there, slots'⟩ := second.slots_made (admits.perm perm) (perm.mem_iff.mp mem) parsed
    rw [here, there, map_some, map_some, slots, slots']
  · rw [first.outside name inside, second.outside name (mt names.mem_iff.mpr inside)]

/-! ### Routed templates -/

theorem drainTemplate_eq (accounted : t.Accounted P) (slots) :
    drainTemplate slots t = { t with
      nodes := routeWaitingOf slots t.bodies t.nodes
      bodies := t.bodies.map fun _ nodes => routeWaitingOf slots t.bodies nodes
      pending := []
      hasPending := false } := by
  unfold drainTemplate
  split
  · rename_i none
    have settled : ∀ {nodes}, Awaited t.pending nodes → routeWaitingOf slots t.bodies nodes = nodes := by
      intro nodes awaited
      refine routeWaitingOf_of_stuck nodes fun head mem waits => ?_
      obtain ⟨entry, listed, -⟩ := awaited.heads head mem waits
      rw [List.isEmpty_iff.mp none] at listed
      cases listed
    have bodies : (t.bodies.map fun _ nodes => routeWaitingOf slots t.bodies nodes) = t.bodies := by
      refine ext_get? fun id => ?_
      rw [get?_map]
      cases here : t.bodies.get? id with
      | none => rfl
      | some nodes => exact congrArg some (settled (accounted.bodies id nodes here))
    have flag : t.hasPending = false := by rw [accounted.flag, none]; rfl
    rw [settled accounted.nodes, bodies, ← flag, ← List.isEmpty_iff.mp none]
  · rfl

/-- Templates that agree, but perhaps for the marks of bodies for content queries and for reports of view queries. -/
structure Alike (t u : CompiledTemplate) : Prop where
  element : t.element = u.element
  nodes : t.nodes = u.nodes
  bodies : (t.bodies.map fun _ => mapHeadsOf forget) = u.bodies.map fun _ => mapHeadsOf forget
  providers : t.providers = u.providers
  slots : t.slots = u.slots
  pending : t.pending = u.pending
  hasPending : t.hasPending = u.hasPending
  diagnostics : otherDiagnostics t.diagnostics = otherDiagnostics u.diagnostics

theorem Alike.refl (t) : Alike t t := ⟨rfl, rfl, rfl, rfl, rfl, rfl, rfl, rfl⟩

def routed (u : CompiledTemplate) : CompiledTemplate := { u with pending := [], hasPending := false }

theorem alike_drainTemplate (accounted : t.Accounted P) (deferred : Deferred slots false t u) :
    Alike (drainTemplate slots t) (routed u) := by
  rw [drainTemplate_eq accounted]
  refine ⟨deferred.element.symm, deferred.nodes.symm, ?_, deferred.providers.symm, deferred.places.symm, rfl, rfl,
    deferred.others.symm⟩
  dsimp only
  rw [SortedMap.map_map]
  exact deferred.bodies.symm

theorem drainTemplate_eq_routed (accounted : t.Accounted P) (deferred : Deferred slots true t u) :
    drainTemplate slots t = routed u := by
  have bodies : u.bodies = t.bodies.map fun _ nodes => routeWaitingOf slots t.bodies nodes := by
    have left : (u.bodies.map fun _ => shown true) = u.bodies := SortedMap.map_id _
    rw [← left, deferred.bodies]
    rfl
  rw [drainTemplate_eq accounted, ← deferred.nodes, ← bodies, ← deferred.element, ← deferred.providers, ← deferred.places,
    ← deferred.diagnostics rfl]
  rfl

theorem Alike.of_both (first : Alike t v) (second : Alike u v) : Alike t u :=
  ⟨first.element.trans second.element.symm, first.nodes.trans second.nodes.symm, first.bodies.trans second.bodies.symm,
    first.providers.trans second.providers.symm, first.slots.trans second.slots.symm, first.pending.trans second.pending.symm,
    first.hasPending.trans second.hasPending.symm, first.diagnostics.trans second.diagnostics.symm⟩

/-- Every component that content is written in has a default slot, if it has slots. -/
def Roomy (r a : Registry) (nodes : List MarkupNode) : Prop :=
  ∀ tag ∈ contentTagsOf nodes, ∀ host, r.findElement? tag = some host →
    ∀ slots, a.slots? host.name = some slots → none ∈ slots

theorem Compiled.settled (admits : r.Admits jobs) (compiled : r.Compiled a jobs)
    (full : ∀ name, ({ r with output := later } : Registry).slots? name = a.slots? name) (mem : job ∈ jobs)
    (parsed : Markup.parse? job.markup = some nodes) :
    let u := compileMarkup ((⟨r, job.owner, job.assetBase⟩ : Context).withOutput later) nodes
    ∃ t, a.output.templates.get? job.owner.name = some t ∧
      t.pending.filter (fun entry => (a.slots? entry.host).isNone) = u.pending ∧
      Alike (drainTemplate a.knownSlots t) (routed u) ∧ (r.Roomy a nodes → drainTemplate a.knownSlots t = routed u) := by
  obtain ⟨nodes', templates, parsed', stage, here⟩ := compiled.made job mem
  cases parsed.symm.trans parsed'
  have reached := compiled.stage_ahead admits stage job
  have ahead : Ahead ⟨r, job.owner, job.assetBase⟩ { r.output with templates := templates } later a.knownSlots :=
    ⟨fun name => (full name).trans (get?_knownSlots a name).symm, reached.grown, reached.native⟩
  have names := admits.plain job mem nodes parsed
  have accounted : (compileMarkup (r.jobContext job templates) nodes).Accounted fun _ => True :=
    accounted_compileMarkup fun _ _ _ _ => trivial
  have loose := @compileMarkup_deferred _ false _ _ _ nodes ahead ⟨names, fun _ _ _ _ absurd => by cases absurd⟩
  refine ⟨_, here, ?_, alike_drainTemplate accounted loose, fun roomy => ?_⟩
  · rw [loose.pending]
    simp only [get?_knownSlots]
    rfl
  · refine drainTemplate_eq_routed accounted (compileMarkup_deferred ahead ⟨names, fun tag inside host found _ slots known => ?_⟩)
    rw [get?_knownSlots] at known
    exact roomy tag inside host found slots known

theorem Compiled.registry_drain (compiled : r.Compiled a jobs) :
    a.drain.registry = r.withTemplates (a.output.templates.map fun _ t => drainTemplate a.knownSlots t) := by
  have framed := congrArg (fun c : Registry => c.withTemplates (a.output.templates.map fun _ t => drainTemplate a.knownSlots t))
    compiled.frame
  exact framed

theorem Compiled.templates_drain (compiled : r.Compiled a jobs) (name) :
    a.drain.registry.output.templates.get? name = (a.output.templates.get? name).map (drainTemplate a.knownSlots) := by
  rw [compiled.registry_drain]
  exact get?_map _ _ name

theorem diagnostics_drain_eq (a : Registry) : a.drain.diagnostics = ((a.output.templates.map fun _ t =>
    t.pending.filter fun entry => (a.slots? entry.host).isNone).values.flatten).map unroutedDiagnostic := by
  have keep : (fun entry => !a.routable entry) = fun entry : PendingProjection => (a.slots? entry.host).isNone := by
    funext entry
    rw [routable]
    cases a.slots? entry.host <;> rfl
  rw [diagnostics_drain, keep, pending, filter_flatMap, values_map _ fun t : CompiledTemplate =>
    t.pending.filter fun entry => (a.slots? entry.host).isNone, flatMap_def]

theorem Compiled.get?_both (admits : r.Admits jobs) (perm : jobs.Perm others) (first : r.Compiled a jobs)
    (second : r.Compiled b others) (known : b.knownSlots = a.knownSlots) (name) :
    a.output.templates.get? name = b.output.templates.get? name ∨
      ∃ t u, a.output.templates.get? name = some t ∧ b.output.templates.get? name = some u ∧
        (t.pending.filter fun entry => (a.slots? entry.host).isNone) = (u.pending.filter fun entry => (a.slots? entry.host).isNone) ∧
        Alike (drainTemplate a.knownSlots t) (drainTemplate a.knownSlots u) ∧
        ((∀ job ∈ jobs, ∀ nodes, Markup.parse? job.markup = some nodes → r.Roomy a nodes) →
          drainTemplate a.knownSlots t = drainTemplate a.knownSlots u) := by
  have slots := first.slots?_eq admits perm second
  have names : (jobNames jobs).Perm (jobNames others) := perm.map _
  by_cases inside : name ∈ jobNames jobs
  · obtain ⟨job, mem, rfl⟩ := List.mem_map.mp inside
    obtain ⟨nodes, -, parsed, -⟩ := first.made job mem
    have full : ∀ name, ({ r with output := a.output } : Registry).slots? name = a.slots? name := fun _ => rfl
    obtain ⟨t, here, waits, alike, same⟩ := first.settled admits full mem parsed
    obtain ⟨u, there, waits', alike', same'⟩ := second.settled (admits.perm perm) (fun name => (full name).trans (slots name))
      (perm.mem_iff.mp mem) parsed
    have room : r.Roomy a nodes → r.Roomy b nodes := fun roomy tag content host found places here =>
      roomy tag content host found places ((slots host.name).trans here)
    simp only [← slots] at waits'
    rw [known] at alike' same'
    refine .inr ⟨t, u, here, there, waits.trans waits'.symm, alike.of_both alike', fun roomy => ?_⟩
    have roomy := roomy job mem nodes parsed
    exact (same roomy).trans (same' (room roomy)).symm
  · exact .inl ((first.outside name inside).trans (second.outside name (mt names.mem_iff.mpr inside)).symm)

/-- Templates of local elements with names of their own, compiled in any two orders and then routed: the reports of
content that cannot be routed are the same, and so are the templates, but perhaps for the marks of bodies for content
queries and for reports of view queries. They agree in these too if every component that content is written in has a
default slot. -/
theorem compileAll?_any_order (admits : r.Admits jobs) (perm : jobs.Perm others) (gives : r.compileAll? jobs = some a) :
    ∃ b, r.compileAll? others = some b ∧ b.drain.diagnostics = a.drain.diagnostics ∧
      (∀ name, a.drain.registry.output.templates.get? name = none ∧ b.drain.registry.output.templates.get? name = none ∨
        ∃ t u, a.drain.registry.output.templates.get? name = some t ∧
          b.drain.registry.output.templates.get? name = some u ∧ Alike t u) ∧
      ((∀ job ∈ jobs, ∀ nodes, Markup.parse? job.markup = some nodes → r.Roomy a nodes) →
        b.drain.registry = a.drain.registry) := by
  have parses := (isSome_compileAll? r jobs).mp (by rw [gives]; rfl)
  obtain ⟨b, gives'⟩ := isSome_iff_exists.mp
    ((isSome_compileAll? r others).mpr fun job member => parses job (perm.mem_iff.mpr member))
  have first := compiled_of_compileAll? admits.distinct gives
  have second := compiled_of_compileAll? (admits.perm perm).distinct gives'
  have slots := first.slots?_eq admits perm second
  have known : b.knownSlots = a.knownSlots := ext_get? fun name => by
    rw [get?_knownSlots, get?_knownSlots, slots]
  have both := first.get?_both admits perm second known
  refine ⟨b, gives', ?_, fun name => ?_, fun roomy => ?_⟩
  · rw [diagnostics_drain_eq, diagnostics_drain_eq]
    simp only [← slots]
    refine congrArg (fun m : SortedMap String (List PendingProjection) => (m.values.flatten).map unroutedDiagnostic)
      (ext_get? fun name => ?_)
    rw [get?_map, get?_map]
    rcases both name with same | ⟨t, u, here, there, waits, -⟩
    · rw [same]
    · rw [here, there, map_some, map_some, waits]
  · rw [first.templates_drain, second.templates_drain, known]
    rcases both name with same | ⟨t, u, here, there, -, alike, -⟩
    · rw [same]
      cases b.output.templates.get? name with
      | none => exact .inl ⟨rfl, rfl⟩
      | some t => exact .inr ⟨_, _, rfl, rfl, .refl _⟩
    · exact .inr ⟨_, _, by rw [here]; rfl, by rw [there]; rfl, alike⟩
  · rw [first.registry_drain, second.registry_drain, known]
    refine congrArg r.withTemplates (ext_get? fun name => ?_)
    rw [get?_map, get?_map]
    rcases both name with same | ⟨t, u, here, there, -, -, equal⟩
    · rw [same]
    · rw [here, there, map_some, map_some, equal roomy]

theorem isLocal_of_findElement? (all : r.elements.values.all (·.isLocal))
    (found : r.findElement? tag = some host) : host.isLocal := by
  obtain ⟨entry, -, here⟩ := bind_eq_some_iff.mp found
  exact List.all_eq_true.mp all host (mem_values_iff.mpr ⟨_, here⟩)

def cardJobs : List TemplateJob :=
  [⟨customElement "Page" "x-page", none, "<x-card><x-box><p *if=\"a\"></p></x-box></x-card>"⟩,
    ⟨customElement "Card" "x-card", none, "<place></place>"⟩]

theorem compileAll?_any_order_cards :
    ∃ a b, cards.compileAll? cardJobs = some a ∧ cards.compileAll? cardJobs.reverse = some b ∧
      a.pending.length = 2 ∧ b.pending.length = 1 ∧ b.drain.registry = a.drain.registry := by
  have run : (cards.compileAll? cardJobs).any (fun a => a.pending.length == 2 && cardJobs.all fun job =>
        (Markup.parse? job.markup).any fun nodes => bodyNamesOf nodes == [] && (contentTagsOf nodes).all fun tag =>
          (cards.findElement? tag).all fun host => (a.slots? host.name).all (·.contains none)) = true ∧
      (cards.compileAll? cardJobs.reverse).any (fun b => b.pending.length == 1) = true := by decide +kernel
  obtain ⟨forward, backward⟩ := run
  have admits : cards.Admits cardJobs := by
    refine ⟨by decide, by decide, fun _ _ tag host found _ => isLocal_of_findElement? (by decide) found, ?_⟩
    intro job member nodes parsed id named
    rw [Option.any_eq_true] at forward
    obtain ⟨a, -, checks⟩ := forward
    have checks := List.all_eq_true.mp (Bool.and_eq_true_iff.mp checks).2 job member
    rw [parsed, any_some, Bool.and_eq_true, beq_iff_eq] at checks
    rw [checks.1] at named
    cases named
  obtain ⟨a, gives, checks⟩ := (Option.any_eq_true _ _).mp forward
  obtain ⟨b, gives', single⟩ := (Option.any_eq_true _ _).mp backward
  obtain ⟨two, checks⟩ := Bool.and_eq_true_iff.mp checks
  obtain ⟨b', again, -, -, same⟩ := compileAll?_any_order admits (reverse_perm cardJobs).symm gives
  cases gives'.symm.trans again
  refine ⟨a, b, gives, gives', beq_iff_eq.mp two, beq_iff_eq.mp single, same ?_⟩
  intro job member nodes parsed tag inside host found slots known
  have checks := List.all_eq_true.mp checks job member
  rw [parsed, any_some, Bool.and_eq_true] at checks
  have checks := List.all_eq_true.mp checks.2 tag inside
  rw [found, all_some, known, all_some] at checks
  exact contains_iff_mem.mp checks

/-- A page that asks for the field it has put into a box, and the box, which has no place for it. -/
def fieldPage : Definition :=
  { name := "Page"
    kind := .element
    properties := [("selector", .string "x-page"), ("viewChild", .array [.string "field:#field"])]
    file := "/w/page.js" }

def fieldJobs : List TemplateJob :=
  [⟨fieldPage, none, "<x-box><input #field></x-box>"⟩, ⟨customElement "Box" "x-box", none, "<p></p>"⟩]

def reportedCodes (r : Registry) : List DiagnosticCode :=
  (r.drain.registry.output.templates.values.flatMap (·.diagnostics) ++ r.drain.diagnostics).map (·.code)

/-- Both orders drop the field, but only one of them reports that the query of the page matches nothing. -/
theorem dropped_field_reported_once :
    (cards.compileAll? fieldJobs).map reportedCodes = some [] ∧
      (cards.compileAll? fieldJobs.reverse).map reportedCodes = some [.queryUnresolved] := by
  decide +kernel

end Registry

end ComponentCompiler
