import ComponentCompiler.Proofs.Wiring.Findings

/-!
What earlier passes of validation leave behind: a definition of a package keeps the owner of the
first pass in which it was claimed.
-/

namespace ComponentCompiler.Wiring

open List Option SortedMap Registry

attribute [ext] Registry

open Registry (SameButOwners)

variable {r : Registry} {kind : AnnotationKind} {name : String}

/-! ### Histories -/

inductive Event where
  | register (d : Definition)
  | registerExternal (d : Definition)
  | deregisterFile (file : String)
  | pass

def Event.isPass : Event → Bool
  | .pass => true
  | _ => false

def perform (state : Registry × DiagnosticLog) : Event → Registry × DiagnosticLog
  | .register d => ((state.1.register d).registry, state.2.extend (state.1.register d).diagnostics)
  | .registerExternal d => (state.1.registerExternal d, state.2)
  | .deregisterFile file => ((state.1.deregisterFile file).1, state.2)
  | .pass => validate state.1 state.2

def run (events : List Event) : Registry × DiagnosticLog :=
  events.foldl perform ({}, .empty)

def changes (events : List Event) : List Event :=
  events.filter (!·.isPass)

/-- The registries at the passes of a history, as the changes alone make them. -/
def met : Registry → List Event → List Registry
  | _, [] => []
  | r, .pass :: events => r :: met r events
  | r, event :: events => met (perform (r, .empty) event).1 events

/-- The first claim to a definition of a package that a pass over one of the registries finds. -/
def firstClaim? (registries : List Registry) (kind : AnnotationKind) (name : String) : Option String :=
  registries.findSome? fun r =>
    if (r.get? kind name).any (!·.isLocal) then claimant? r kind name else none

variable {bare state : Registry × DiagnosticLog} {seen : List Registry} {event : Event}

theorem run_append_pass (events) : run (events ++ [.pass]) = validate (run events).1 (run events).2 := by
  rw [run, foldl_append]
  rfl

theorem met_append_pass (events) :
    ∀ state : Registry × DiagnosticLog,
      met state.1 (events ++ [.pass]) = met state.1 events ++ [((changes events).foldl perform state).1] := by
  induction events with
  | nil =>
    intro state
    rfl
  | cons event events ih =>
    intro state
    cases event with
    | pass => exact congrArg (state.1 :: ·) (ih state)
    | register d => exact ih (perform state (.register d))
    | registerExternal d => exact ih (perform state (.registerExternal d))
    | deregisterFile file => exact ih (perform state (.deregisterFile file))

theorem firstClaim?_append (registries) (r : Registry) (here : r.get? kind name = some d)
    (packaged : d.isLocal = false) :
    firstClaim? (registries ++ [r]) kind name = (firstClaim? registries kind name).or (claimant? r kind name) := by
  simp [firstClaim?, findSome?_append, here, packaged]

/-- What a history leaves, in terms of what its changes leave and of the registries its passes met. -/
structure Follows (seen : List Registry) (bare state : Registry × DiagnosticLog) : Prop where
  coherent : bare.1.Coherent
  same : SameButOwners bare.1 state.1
  modules : state.1.modules = bare.1.modules
  owner : ∀ {kind name d d'}, bare.1.get? kind name = some d → state.1.get? kind name = some d' →
    d.isLocal = false → d'.module = d.module.or (firstClaim? seen kind name)
  -- A package's definition is never removed, so no later one finds the claims to it.
  lasting : ∀ {past kind name d}, past ∈ seen → past.get? kind name = some d → d.isLocal = false →
    ∃ d, bare.1.get? kind name = some d ∧ d.isLocal = false
  log : state.2.clearCodes codes = bare.2.clearCodes codes

theorem get?_cleared (r) (kind) (name) :
    (cleared r).get? kind name =
      (r.get? kind name).map fun d => if kind.table ≠ .module ∧ d.isLocal then d.unowned else d := by
  have table : ∀ ds : SortedMap String Definition, (clearOwners ds).get? name =
      (ds.get? name).map fun d => if d.isLocal then d.unowned else d := by
    intro ds
    rw [clearOwners, get?_map]
    rfl
  cases kind with
  | module => simp [AnnotationKind.table, cleared, Registry.get?, definitions]
  | _ =>
    simp only [AnnotationKind.table, ne_eq, reduceCtorEq, not_false_eq_true, true_and]
    exact table _

theorem claimant?_congr (same : SameButOwners r r') (modules : r'.modules = r.modules) (kind)
    (name) : claimant? r' kind name = claimant? r kind name := by
  have each : claimBy? r' kind name = claimBy? r kind name := by
    funext m
    rw [claimBy?, claimBy?, claimTargets_congr same]
  rw [claimant?, claimant?, localModules, localModules, modules, each]

namespace Follows

section

variable (follows : Follows seen bare state)
include follows

theorem firstClaim?_of_absent (absent : bare.1.get? kind name = none) :
    firstClaim? seen kind name = none := by
  rw [firstClaim?, findSome?_eq_none_iff]
  intro past met
  rw [if_neg]
  intro packaged
  cases here : past.get? kind name with
  | none =>
    rw [here] at packaged
    cases packaged
  | some d =>
    rw [here, any_some, Bool.not_eq_true'] at packaged
    obtain ⟨d, still, -⟩ := follows.lasting met here packaged
    rw [absent] at still
    cases still

theorem registerExternal (d) (log log' : DiagnosticLog)
    (logs : log'.clearCodes codes = log.clearCodes codes) :
    Follows seen (bare.1.registerExternal d, log) (state.1.registerExternal d, log') where
  coherent := follows.coherent.registerExternal d
  same := follows.same.registerExternal d
  modules := by
    apply ext_get?
    intro name
    have before : state.1.get? .module name = bare.1.get? .module name := congrArg (·.get? name) follows.modules
    have after : (state.1.registerExternal d).get? .module name = (bare.1.registerExternal d).get? .module name := by
      rw [get?_registerExternal, get?_registerExternal, before]
    exact after
  owner {kind name e e'} here here' packaged := by
    rw [get?_registerExternal] at here here'
    split at here
    · rename_i named
      rw [if_pos named] at here'
      have some := follows.same.isSome_get? kind name
      cases before : bare.1.get? kind name with
      | none =>
        have before' : state.1.get? kind name = none := by
          rw [before] at some
          simpa using some
        rw [before, getD_none] at here
        rw [before', getD_none] at here'
        cases here
        cases here'
        rw [follows.firstClaim?_of_absent before, or_none]
      | some old =>
        rw [before, isSome_some] at some
        obtain ⟨old', before'⟩ := isSome_iff_exists.mp some
        rw [before, getD_some] at here
        rw [before', getD_some] at here'
        cases here
        cases here'
        exact follows.owner before before' packaged
    · rename_i other
      rw [if_neg other] at here'
      exact follows.owner here here' packaged
  lasting {past kind name e} met here packaged := by
    obtain ⟨old, before, held⟩ := follows.lasting met here packaged
    refine ⟨old, ?_, held⟩
    rw [get?_registerExternal, before]
    split <;> rfl
  log := logs

theorem deregisterFile (file) :
    Follows seen ((bare.1.deregisterFile file).1, bare.2) ((state.1.deregisterFile file).1, state.2) where
  coherent := follows.coherent.deregisterFile file
  same := follows.same.deregisterFile file
  modules := by
    apply ext_get?
    intro name
    have before : state.1.get? .module name = bare.1.get? .module name := congrArg (·.get? name) follows.modules
    have after : (state.1.deregisterFile file).1.get? .module name = (bare.1.deregisterFile file).1.get? .module name := by
      rw [get?_deregisterFile, get?_deregisterFile, before]
    exact after
  owner {kind name e e'} here here' packaged := by
    rw [get?_deregisterFile, filter_eq_some_iff] at here here'
    exact follows.owner here.1 here'.1 packaged
  lasting {past kind name e} met here packaged := by
    obtain ⟨old, before, held⟩ := follows.lasting met here packaged
    refine ⟨old, ?_, held⟩
    rw [get?_deregisterFile, before, filter_some, held]
    rfl
  log := follows.log

theorem get?_pass (kind) (name) :
    (assignOwners state.1).1.get? kind name =
      ((cleared state.1).get? kind name).map (·.ownedBy (claimant? bare.1 kind name)) := by
  rw [get?_assignOwners, claimant?_congr follows.same follows.modules]

theorem pass : Follows (seen ++ [bare.1]) bare (validate state.1 state.2) := by
  have coherent := follows.same.coherent follows.coherent
  rw [validate_eq coherent]
  refine ⟨follows.coherent, follows.same.trans (sameButOwners_assignOwners state.1),
    (modules_assignOwners coherent).trans follows.modules, ?_, ?_, ?_⟩
  · intro kind name d d' here here' packaged
    rw [follows.get?_pass, get?_cleared] at here'
    obtain ⟨e, before, packaged'⟩ : ∃ e, state.1.get? kind name = some e ∧ e.isLocal = false := by
      obtain ⟨e, before, unowned⟩ := follows.same.symm.get? here
      have isLocal : d.isLocal = e.isLocal := congrArg (·.isLocal) unowned
      exact ⟨e, before, isLocal.symm.trans packaged⟩
    rw [before, map_some, map_some, packaged', if_neg (by simp)] at here'
    cases here'
    rw [firstClaim?_append seen bare.1 here packaged, ← Option.or_assoc, ← follows.owner here before packaged]
    rfl
  · intro past kind name d met here packaged
    rcases mem_append.mp met with met | met
    · exact follows.lasting met here packaged
    · rw [mem_singleton.mp met] at here
      exact ⟨d, here, packaged⟩
  · rw [← follows.log]
    apply DiagnosticLog.clearCodes_congr
    intro file
    rw [DiagnosticLog.without_forFile_extend fun d => code_of_mem_findings, ← DiagnosticLog.forFile_clearCodes,
      DiagnosticLog.forFile_clearCodes_clearCodes, DiagnosticLog.forFile_clearCodes]

theorem change (quiet : event.isPass = false) :
    Follows seen (perform bare event) (perform state event) := by
  cases event with
  | pass => cases quiet
  | registerExternal d => exact follows.registerExternal d bare.2 state.2 follows.log
  | deregisterFile file => exact follows.deregisterFile file
  | register d =>
    have registered := follows.registerExternal d (bare.2.extend (bare.1.register d).diagnostics)
      (state.2.extend (state.1.register d).diagnostics)
    rw [← registry_register, ← registry_register] at registered
    apply registered
    rw [follows.same.diagnostics_register]
    exact DiagnosticLog.clearCodes_extend_congr follows.log _

end

theorem foldl (events) (follows : Follows seen bare state) :
    Follows (seen ++ met bare.1 events) ((changes events).foldl perform bare) (events.foldl perform state) := by
  induction events generalizing seen bare state with
  | nil => simpa [met, changes] using follows
  | cons event events ih =>
    cases event with
    | pass =>
      have next := ih follows.pass
      rw [append_assoc] at next
      exact next
    | register d => exact ih (follows.change rfl : Follows seen (perform bare (.register d)) _)
    | registerExternal d => exact ih (follows.change rfl : Follows seen (perform bare (.registerExternal d)) _)
    | deregisterFile file => exact ih (follows.change rfl : Follows seen (perform bare (.deregisterFile file)) _)

theorem run (events) : Follows (met {} events) (run (changes events)) (run events) := by
  have start : Follows [] ({}, .empty) ({}, .empty) := by
    refine ⟨coherent_empty, .refl _, rfl, ?_, ?_, rfl⟩
    · intro kind name d d' here
      cases kind <;> cases here
    · intro past kind name d met
      cases met
  exact start.foldl events

end Follows

/-! ### What a history leaves -/

/-- The definition with the owner that a pass gives it: a package's definition keeps the one it has. -/
def stamped (own package : Option String) (d : Definition) : Definition :=
  { d with module := if d.isLocal then own else d.module.or package }

theorem Follows.refl (coherent : bare.1.Coherent) : Follows [] bare bare where
  coherent := coherent
  same := .refl _
  modules := rfl
  owner here here' _ := by
    rw [here] at here'
    cases here'
    simp [firstClaim?]
  lasting past := by cases past
  log := rfl

theorem Follows.get?_stamped (follows : Follows seen bare state) (table : kind.table ≠ .module) (name) :
    (validate state.1 state.2).1.get? kind name = (bare.1.get? kind name).map
      (stamped (claimant? bare.1 kind name) (firstClaim? (seen ++ [bare.1]) kind name)) := by
  have passed : (validate state.1 state.2).1.get? kind name = (assignOwners state.1).1.get? kind name := rfl
  rw [passed, follows.get?_pass, get?_cleared]
  cases here : bare.1.get? kind name with
  | none =>
    have absent := follows.same.isSome_get? kind name
    rw [here, isSome_none, isSome_eq_false_iff, isNone_iff_eq_none] at absent
    rw [absent]
    rfl
  | some d =>
    obtain ⟨d', here', unowned⟩ := follows.same.symm.get? here
    have isLocal : d.isLocal = d'.isLocal := congrArg (·.isLocal) unowned
    have fields : ∀ owner, ({ d' with module := owner } : Definition) = { d with module := owner } := by
      intro owner
      exact congrArg (fun e : Definition => { e with module := owner }) unowned.symm
    rw [here', map_some, map_some, map_some, stamped, ← fields, isLocal]
    cases held : d'.isLocal with
    | true => simp [table, Definition.ownedBy, Definition.unowned]
    | false =>
      have packaged : d.isLocal = false := isLocal.trans held
      rw [firstClaim?_append seen bare.1 here packaged, ← Option.or_assoc, ← follows.owner here here' packaged]
      simp [Definition.ownedBy]

theorem get?_validate (coherent : bare.1.Coherent) (table : kind.table ≠ .module) (name) :
    (validate bare.1 bare.2).1.get? kind name = (bare.1.get? kind name).map
      (stamped (claimant? bare.1 kind name) (claimant? bare.1 kind name)) := by
  rw [(Follows.refl coherent).get?_stamped table]
  cases here : bare.1.get? kind name with
  | none => rfl
  | some d =>
    rw [map_some, map_some]
    cases isLocal : d.isLocal with
    | true => simp [stamped, isLocal]
    | false =>
      rw [firstClaim?_append [] bare.1 here isLocal]
      rfl

section

variable (follows : Follows seen bare state)
include follows

theorem Follows.modules_validate :
    (validate state.1 state.2).1.modules = (validate bare.1 bare.2).1.modules :=
  calc (validate state.1 state.2).1.modules
    _ = state.1.modules := modules_assignOwners (follows.same.coherent follows.coherent)
    _ = bare.1.modules := follows.modules
    _ = (validate bare.1 bare.2).1.modules := (modules_assignOwners follows.coherent).symm

theorem Follows.sameLocally :
    SameLocally (validate bare.1 bare.2).1 (validate state.1 state.2).1 where
  same := (sameButOwners_validate ..).symm.trans (follows.same.trans (sameButOwners_validate ..))
  modules := follows.modules_validate
  own {kind name d} here isLocal := by
    by_cases table : kind.table = .module
    · have listed : ∀ r : Registry, r.get? kind name = r.get? .module name := fun r => get?_of_table_eq table
      rw [listed] at here ⊢
      exact (congrArg (·.get? name) follows.modules_validate).trans here
    · rw [get?_validate follows.coherent table] at here
      obtain ⟨e, before, rfl⟩ := map_eq_some_iff.mp here
      have isLocal : e.isLocal := isLocal
      rw [follows.get?_stamped table, before, map_some, stamped, stamped, isLocal]
      rfl

theorem Follows.log_validate :
    (validate state.1 state.2).2 = (bare.2.clearCodes codes).extend (findings (validate state.1 state.2).1) := by
  rw [validate_eq (follows.same.coherent follows.coherent), follows.log]

/-- A pass gives what it would give without earlier passes if and only if each package's definition has got the owner
it would get now. -/
theorem Follows.validate_eq_iff :
    validate state.1 state.2 = validate bare.1 bare.2 ↔
      ∀ kind name d, kind.table ≠ .module → bare.1.get? kind name = some d → d.isLocal = false → d.module = none →
        firstClaim? (seen ++ [bare.1]) kind name = claimant? bare.1 kind name := by
  constructor
  · intro equal kind name d table here packaged free
    have owned := follows.get?_stamped table name
    rw [equal, get?_validate follows.coherent table, here, map_some, map_some] at owned
    have owners := congrArg Definition.module (some.inj owned)
    simp only [stamped, packaged, free, none_or] at owners
    exact owners.symm
  · intro agree
    have each : ∀ kind, kind.table ≠ .module → ∀ name,
        (validate state.1 state.2).1.get? kind name = (validate bare.1 bare.2).1.get? kind name := by
      intro kind table name
      rw [follows.get?_stamped table, get?_validate follows.coherent table]
      cases here : bare.1.get? kind name with
      | none => rfl
      | some d =>
        rw [map_some, map_some, stamped, stamped]
        cases packaged : d.isLocal with
        | true => rfl
        | false =>
          cases held : d.module with
          | some owner => simp
          | none => rw [agree kind name d table here packaged held]
    have same := follows.sameLocally.same
    have elements := ext_get? (each .element (by decide))
    have directives := ext_get? (each .directive (by decide))
    have services := ext_get? (each .service (by decide))
    have registries : (validate state.1 state.2).1 = (validate bare.1 bare.2).1 :=
      Registry.ext elements directives services follows.modules_validate same.index same.packages same.output
    apply Prod.ext registries
    rw [follows.log_validate, (Follows.refl follows.coherent).log_validate, registries]

theorem Follows.mem_log_validate (other : ¬AboutPackage bare.1 e) (file) :
    e ∈ (validate state.1 state.2).2.forFile file ↔ e ∈ (validate bare.1 bare.2).2.forFile file := by
  have agree := follows.sameLocally
  have other' : ∀ {r}, SameButOwners bare.1 r → ¬AboutPackage r e := by
    rintro r same ⟨m, kind, name, d, owner, here, packaged, rfl⟩
    obtain ⟨old, before, unowned⟩ := same.get? here
    have isLocal : d.isLocal = old.isLocal := congrArg (·.isLocal) unowned
    exact other ⟨m, kind, name, old, owner, before, isLocal.symm.trans packaged, rfl⟩
  have found : e ∈ findings (validate state.1 state.2).1 ↔ e ∈ findings (validate bare.1 bare.2).1 := by
    constructor
    · intro mem
      exact (agree.findings mem).resolve_right (other' (follows.same.trans (sameButOwners_validate ..)))
    · intro mem
      exact (agree.symm.findings mem).resolve_right (other' (sameButOwners_validate ..))
  rw [follows.log_validate, (Follows.refl follows.coherent).log_validate, DiagnosticLog.mem_forFile_extend,
    DiagnosticLog.mem_forFile_extend, found]

end

/-- What a history that ends with a pass leaves, against what its changes and one pass leave. Passes before the last one
show in the owners of package definitions: such a definition has the first claim that a pass found, not the present one.
They show in the diagnostics on claims to these definitions, and nowhere else. -/
theorem passes_leave_package_owners (events : List Event) :
    (∀ kind name, kind.table ≠ .module →
      (run (events ++ [.pass])).1.get? kind name = ((run (changes events)).1.get? kind name).map
        (stamped (claimant? (run (changes events)).1 kind name) (firstClaim? (met {} (events ++ [.pass])) kind name)) ∧
      (run (changes events ++ [.pass])).1.get? kind name = ((run (changes events)).1.get? kind name).map
        (stamped (claimant? (run (changes events)).1 kind name) (claimant? (run (changes events)).1 kind name))) ∧
    (∀ e file, ¬AboutPackage (run (changes events)).1 e →
      (e ∈ (run (events ++ [.pass])).2.forFile file ↔ e ∈ (run (changes events ++ [.pass])).2.forFile file)) ∧
    (run (events ++ [.pass]) = run (changes events ++ [.pass]) ↔
      ∀ kind name d, kind.table ≠ .module → (run (changes events)).1.get? kind name = some d → d.isLocal = false →
        d.module = none → firstClaim? (met {} (events ++ [.pass])) kind name =
          claimant? (run (changes events)).1 kind name) := by
  have follows := Follows.run events
  have seen : met {} (events ++ [.pass]) = met {} events ++ [(run (changes events)).1] :=
    met_append_pass events ({}, .empty)
  rw [run_append_pass, run_append_pass, seen]
  refine ⟨fun kind name table => ⟨?_, ?_⟩, fun e file other => ?_, ?_⟩
  · exact follows.get?_stamped table name
  · exact get?_validate follows.coherent table name
  · exact follows.mem_log_validate other file
  · exact follows.validate_eq_iff

/-- A module's claim to a service of a package, found by a pass before the module is gone. -/
def supersededClaim : List Event :=
  [.registerExternal { name := "Api", kind := .service, properties := [], file := "kit", package := some "kit" },
    .register { name := "AModule", kind := .module, properties := [("services", .array [.identifier "Api"])], file := "/w/a.js" },
    .pass, .deregisterFile "/w/a.js",
    .register { name := "BModule", kind := .module, properties := [("services", .array [.identifier "Api"])], file := "/w/b.js" }]

/-- The service of the package stays with the module that is gone, and the module that lists it now is refused. -/
theorem owner_outlives_module :
    ((run (supersededClaim ++ [.pass])).1.get? .service "Api").bind (·.module) = some "AModule" ∧
    (run (supersededClaim ++ [.pass])).1.get? .module "AModule" = none ∧
    (run (supersededClaim ++ [.pass])).2.toList.map (·.code) = [.moduleOwnership] ∧
    ((run (changes supersededClaim ++ [.pass])).1.get? .service "Api").bind (·.module) = some "BModule" ∧
    (run (changes supersededClaim ++ [.pass])).2.toList = [] := by
  decide

end ComponentCompiler.Wiring
