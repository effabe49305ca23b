import ComponentCompiler.Proofs.Wiring.Ownership
import Mathlib.Data.List.Basic

/-! What a pass over the modules comes to. What it reports can be read off the owners in the end. -/

namespace ComponentCompiler

open List Option Registry

def Definition.ownedBy (d : Definition) (owner : Option String) : Definition := { d with module := d.module.or owner }

@[simp]
theorem Definition.ownedBy_none (d : Definition) : d.ownedBy none = d := by
  simp [ownedBy]

@[simp]
theorem Definition.ownedBy_ownedBy (d : Definition) (first second) :
    (d.ownedBy first).ownedBy second = d.ownedBy (first.or second) := by
  simp [ownedBy, Option.or_assoc]

namespace Registry

variable {r r' : Registry} {owner : AnnotationKind → String → Option String}

/-- The second registry is the first one with owners given to definitions that had none. -/
structure Owned (owner : AnnotationKind → String → Option String) (r r' : Registry) : Prop where
  get? : ∀ kind name, r'.get? kind name = (r.get? kind name).map (·.ownedBy (owner kind name))
  index : r'.index = r.index
  packages : r'.packages = r.packages
  output : r'.output = r.output

theorem Owned.refl (r) : Owned (fun _ _ => none) r r where
  get? kind name := by simp
  index := rfl
  packages := rfl
  output := rfl

theorem Owned.trans (first : Owned owner r r') (second : Owned owner' r' r'') :
    Owned (fun kind name => (owner kind name).or (owner' kind name)) r r'' where
  get? kind name := by
    rw [second.get?, first.get?, Option.map_map]
    congr 1
    funext d
    exact d.ownedBy_ownedBy _ _
  index := second.index.trans first.index
  packages := second.packages.trans first.packages
  output := second.output.trans first.output

theorem Owned.sameButOwners (owned : Owned owner r r') : SameButOwners r r' where
  definitions kind name := by
    rw [owned.get?, Option.map_map]
    rfl
  index := owned.index
  packages := owned.packages
  output := owned.output

end Registry

namespace Wiring

open Registry (SameButOwners Owned)

/-! ### Claims -/

/-- What a module claims: the services, elements and directives that it lists, each with the table it stands in. -/
def claimTargets (r : Registry) (m : Definition) : List (AnnotationKind × String) :=
  m.serviceNames.map (AnnotationKind.service, ·) ++
    (m.names "selectors").filterMap fun entry =>
      (Claims.selectorTarget? r entry).map fun target => (target.1.table, target.2)

def claimBy? (r : Registry) (kind : AnnotationKind) (name : String) (m : Definition) : Option String :=
  if (kind.table, name) ∈ claimTargets r m then some m.name else none

def claimant? (r : Registry) (kind : AnnotationKind) (name : String) : Option String :=
  (localModules r).findSome? (claimBy? r kind name)

/-! ### Findings -/

/-- What is reported of a definition that a module claims and another module owns. -/
def foreign? (m : Definition) (label name : String) (d : Definition) : Option Diagnostic :=
  match d.module with
  | some owner => if owner == m.name then none else some (Claims.ownershipDiagnostic m label name owner)
  | none => none

def serviceFinding? (r : Registry) (m : Definition) (service : String) : Option Diagnostic :=
  match r.get? .service service with
  | some d => foreign? m "Service" service d
  | none => some (Claims.unknownService m service)

def requiredFinding? (r : Registry) (m : Definition) (required : String) : Option Diagnostic :=
  if r.modules.contains required || (Claims.packageModules r).contains required then none
  else some (Claims.unknownModule m required)

def selectorFinding? (r : Registry) (m : Definition) (entry : String) : Option Diagnostic :=
  match Claims.selectorTarget? r entry with
  | some target => (r.get? target.1 target.2).bind (foreign? m target.1.keyword target.2)
  | none => some (Claims.unknownSelector m entry)

/-- What is wrong with a module, given the owners of definitions. -/
def moduleFindings (r : Registry) (m : Definition) : List Diagnostic :=
  m.serviceNames.filterMap (serviceFinding? r m) ++ (m.names "requiredModules").filterMap (requiredFinding? r m) ++
    (m.names "selectors").filterMap (selectorFinding? r m)

theorem foreign?_ownedBy {d : Definition} (owned : d.module.isSome) (m) (label name)
    (owner) : foreign? m label name (d.ownedBy owner) = foreign? m label name d := by
  obtain ⟨held, some⟩ := isSome_iff_exists.mp owned
  simp [foreign?, Definition.ownedBy, some]

theorem selectorTarget?_congr (same : SameButOwners r r') (entry) :
    Claims.selectorTarget? r' entry = Claims.selectorTarget? r entry := by
  have elements : r'.elements.contains entry = r.elements.contains entry := same.isSome_get? .element entry
  have directives : r'.directives.contains entry = r.directives.contains entry := same.isSome_get? .directive entry
  rw [Claims.selectorTarget?, Claims.selectorTarget?, elements, directives, same.index]

theorem claimTargets_congr (same : SameButOwners r r') (m) : claimTargets r' m = claimTargets r m := by
  simp only [claimTargets, selectorTarget?_congr same]

theorem requiredFinding?_congr (same : SameButOwners r r') (m) (required) :
    requiredFinding? r' m required = requiredFinding? r m required := by
  have modules : r'.modules.contains required = r.modules.contains required := same.isSome_get? .module required
  rw [requiredFinding?, requiredFinding?, modules, Claims.packageModules, Claims.packageModules, same.packages]

/-! ### Steps of a pass -/

/-- The second state is the first one after claims: definitions without an owner have got one, and what has been
reported is what is found with these owners, and with those that are given later on. -/
structure Effect (owner : AnnotationKind → String → Option String) (found : Registry → List Diagnostic)
    (c c' : Claims) : Prop where
  owned : Owned owner c.registry c'.registry
  diagnostics : ∀ {given later}, Owned given c'.registry later → c'.diagnostics = c.diagnostics ++ found later

namespace Effect

theorem nothing (c) : Effect (fun _ _ => none) (fun _ => []) c c := ⟨.refl _, fun _ => by simp⟩

theorem trans (first : Effect owner found c c') (second : Effect owner' found' c' c'') :
    Effect (fun kind name => (owner kind name).or (owner' kind name)) (fun r => found r ++ found' r) c c'' where
  owned := first.owned.trans second.owned
  diagnostics owned := by
    rw [second.diagnostics owned, first.diagnostics (second.owned.trans owned), append_assoc]

theorem congr (effect : Effect owner found c c') (owners : ∀ kind name, owner kind name = owner' kind name)
    (findings : ∀ r, found r = found' r) : Effect owner' found' c c' := by
  have sameOwners : owner = owner' := by
    funext kind name
    exact owners kind name
  have sameFindings : found = found' := funext findings
  exact sameOwners ▸ sameFindings ▸ effect

theorem foldl {α : Type} {f : Claims → α → Claims} {owner : α → AnnotationKind → String → Option String}
    {found : Registry → α → List Diagnostic}
    (step : ∀ c a, SameButOwners r c.registry → Effect (owner a) (found · a) c (f c a)) (items : List α) (c : Claims)
    (same : SameButOwners r c.registry) :
    Effect (fun kind name => items.findSome? (owner · kind name)) (fun r => items.flatMap (found r)) c
      (items.foldl f c) := by
  induction items generalizing c with
  | nil => exact nothing c
  | cons a rest ih =>
    have here := step c a same
    refine (here.trans (ih (f c a) (same.trans here.owned.sameButOwners))).congr (fun kind name => ?_) fun r => rfl
    rw [findSome?_cons]
    cases owner a kind name <;> rfl

end Effect

namespace Claims

variable {c : Claims}

theorem get?_claim (m) (label) (here : c.registry.get? kind name = some d)
    (other) (name') :
    (c.claim m kind label name d).registry.get? other name' =
      (c.registry.get? other name').map
        (·.ownedBy (if (other.table, name') = (kind.table, name) then some m.name else none)) := by
  have given : ∀ owned : Option String, (c.registry.get? other name').map
      (·.ownedBy (if (other.table, name') = (kind.table, name) then owned else none)) =
        if (other.table, name') = (kind.table, name) then some (d.ownedBy owned) else c.registry.get? other name' := by
    intro owned
    split
    · rename_i same
      obtain ⟨table, rfl⟩ := Prod.mk.inj same
      rw [get?_of_table_eq table, here, map_some]
    · simp
  rw [given]
  unfold claim
  split
  · -- the definition has an owner, and keeps it
    rename_i owner held
    have kept : d.ownedBy (some m.name) = d := by
      rw [Definition.ownedBy, held, some_or, ← held]
    have unchanged : (if (other.table, name') = (kind.table, name) then some (d.ownedBy (some m.name))
        else c.registry.get? other name') = c.registry.get? other name' := by
      split
      · rename_i same
        obtain ⟨table, rfl⟩ := Prod.mk.inj same
        rw [get?_of_table_eq table, here, kept]
      · rfl
    rw [unchanged]
    split <;> rfl
  · rename_i free
    rw [get?, definitions_withDefinitions]
    by_cases table : other.table = kind.table
    · rw [if_pos table, SortedMap.get?_insert]
      by_cases same : name' = name
      · subst same
        simp [table, Definition.ownedBy, free]
      · have elsewhere : c.registry.get? kind name' = c.registry.get? other name' :=
          get?_of_table_eq table.symm
        simp only [table, Prod.mk.injEq, same, and_false, if_false, ← elsewhere, Std.LawfulEqCmp.compare_eq_iff_eq]
        rfl
    · simp [table, get?]

theorem diagnostics_claim (m) (label) :
    (c.claim m kind label name d).diagnostics =
      c.diagnostics ++ (foreign? m label name (d.ownedBy (some m.name))).toList := by
  unfold claim foreign? Definition.ownedBy
  cases d.module with
  | none => simp
  | some owner =>
    simp only [some_or]
    split <;> simp [report]

theorem effect_claim (m : Definition) (label) (here : c.registry.get? kind name = some d) :
    Effect (fun other name' => if (other.table, name') = (kind.table, name) then some m.name else none)
      (fun r => ((r.get? kind name).bind (foreign? m label name)).toList) c (c.claim m kind label name d) where
  owned := by
    refine ⟨get?_claim m label here, ?_, ?_, ?_⟩
    all_goals
      unfold claim
      split
      · split <;> rfl
      · cases kind <;> rfl
  diagnostics {given later} owned := by
    have last := owned.get? kind name
    rw [get?_claim m label here, here, if_pos rfl, map_some, map_some] at last
    have held : (d.ownedBy (some m.name)).module.isSome := by simp [Definition.ownedBy]
    rw [diagnostics_claim, last, bind_some, foreign?_ownedBy held]

theorem effect_report (finding) (c) :
    Effect (fun _ _ => none) (fun _ => [finding]) c (c.report finding) := ⟨.refl _, fun _ => rfl⟩

theorem effect_claimService (m : Definition) (c) (service) :
    Effect (fun kind name => if (kind.table, name) = (.service, service) then some m.name else none)
      (fun r => (serviceFinding? r m service).toList) c (claimService m c service) := by
  unfold claimService
  split
  · rename_i d here
    have here : c.registry.get? .service service = some d := here
    have claimed := effect_claim m "Service" here
    refine ⟨claimed.owned, fun {given later} owned => ?_⟩
    rw [claimed.diagnostics owned, serviceFinding?, (claimed.owned.trans owned).get?, here]
    rfl
  · rename_i absent
    have absent : c.registry.get? .service service = none := absent
    refine ⟨⟨fun kind name => ?_, rfl, rfl, rfl⟩, fun {given later} owned => ?_⟩
    · split
      · rename_i same
        obtain ⟨table, rfl⟩ := Prod.mk.inj same
        have absent : c.registry.get? kind name = none := (get?_of_table_eq table).trans absent
        rw [absent]
        exact absent
      · exact (effect_report (unknownService m service) c).owned.get? kind name
    · have unchanged : (c.report (unknownService m service)).registry.get? .service service = none := absent
      rw [serviceFinding?, owned.get?, unchanged]
      rfl

theorem effect_checkRequired (m) (c) (required) :
    Effect (fun _ _ => none) (fun r => (requiredFinding? r m required).toList) c (checkRequired m c required) := by
  have registry : (checkRequired m c required).registry = c.registry := by
    unfold checkRequired
    split <;> rfl
  refine ⟨registry ▸ .refl _, fun {given later} owned => ?_⟩
  rw [requiredFinding?_congr (registry ▸ owned.sameButOwners)]
  unfold checkRequired requiredFinding?
  split <;> simp [report]

theorem effect_claimSelector (m : Definition) (c : Claims) (entry) (same : SameButOwners r c.registry) :
    Effect
      (fun kind name => if (selectorTarget? r entry).map (fun target => (target.1.table, target.2)) =
        some (kind.table, name) then some m.name else none)
      (fun r => (selectorFinding? r m entry).toList) c (claimSelector m c entry) := by
  have target : ∀ {later}, SameButOwners c.registry later → selectorTarget? later entry = selectorTarget? r entry :=
    fun later => selectorTarget?_congr (same.trans later) entry
  unfold claimSelector
  rw [target (.refl _)]
  cases found : selectorTarget? r entry with
  | none =>
    refine ⟨by simpa using (effect_report (unknownSelector m entry) c).owned, fun {given later} owned => ?_⟩
    rw [selectorFinding?, target owned.sameButOwners, found]
    rfl
  | some place =>
    obtain ⟨kind, name⟩ := place
    have owners : ∀ other name', (if (some (kind, name)).map (fun target => (target.1.table, target.2)) =
        some (AnnotationKind.table other, name') then some m.name else none) =
          if (other.table, name') = (kind.table, name) then some m.name else none := by
      intro other name'
      rw [map_some]
      simp only [some.injEq]
      exact if_congr eq_comm rfl rfl
    have findings : ∀ {later}, SameButOwners c.registry later → (selectorFinding? later m entry).toList =
        ((later.get? kind name).bind (foreign? m kind.keyword name)).toList := by
      intro later same
      rw [selectorFinding?, target same, found]
    dsimp only
    cases here : c.registry.get? kind name with
    | some d =>
      have claimed := effect_claim m kind.keyword here
      simp only [owners]
      refine ⟨claimed.owned, fun {given later} owned => ?_⟩
      rw [findings (claimed.owned.trans owned).sameButOwners]
      exact claimed.diagnostics owned
    | none =>
      dsimp only
      refine ⟨⟨fun other name' => ?_, rfl, rfl, rfl⟩, fun {given later} owned => ?_⟩
      · rw [owners]
        split
        · rename_i same
          obtain ⟨table, rfl⟩ := Prod.mk.inj same
          rw [get?_of_table_eq table, here]
          rfl
        · simp
      · rw [findings owned.sameButOwners, owned.get?, here]
        simp

theorem findSome?_const (items : List α) (test : α → Prop) [DecidablePred test] (owner : String) :
    items.findSome? (fun a => if test a then some owner else none) =
      if ∃ a ∈ items, test a then some owner else none := by
  induction items with
  | nil => simp
  | cons a rest ih =>
    rw [findSome?_cons]
    by_cases here : test a
    · simp [here]
    · simp [here, ih]

theorem effect_addModule (m : Definition) (c : Claims) (same : SameButOwners r c.registry) :
    Effect (fun kind name => claimBy? r kind name m) (fun r => moduleFindings r m) c (c.addModule m) := by
  have services := Effect.foldl (r := r) (fun c a _ => effect_claimService m c a) m.serviceNames c same
  have same₁ := same.trans services.owned.sameButOwners
  have required := Effect.foldl (r := r) (fun c a _ => effect_checkRequired m c a) (m.names "requiredModules") _ same₁
  have same₂ := same₁.trans required.owned.sameButOwners
  have selectors := Effect.foldl (r := r) (fun c a same => effect_claimSelector m c a same) (m.names "selectors") _ same₂
  refine ((services.trans required).trans selectors).congr (fun kind name => ?_) fun r => ?_
  · rw [findSome?_const, findSome?_const, findSome?_eq_none_iff.mpr fun _ _ => rfl, or_none, claimBy?]
    simp only [claimTargets, mem_append, List.mem_map, mem_filterMap]
    by_cases listed : ∃ a ∈ m.serviceNames, (kind.table, name) = (AnnotationKind.service, a)
    · have claimed : ∃ a ∈ m.serviceNames, (AnnotationKind.service, a) = (kind.table, name) := by
        simpa only [eq_comm] using listed
      rw [if_pos listed, if_pos (Or.inl claimed)]
      rfl
    · have unclaimed : ¬∃ a ∈ m.serviceNames, (AnnotationKind.service, a) = (kind.table, name) := by
        simpa only [eq_comm] using listed
      rw [if_neg listed, none_or]
      exact if_congr (by simp only [unclaimed, false_or]) rfl rfl
  · simp only [moduleFindings, filterMap_eq_flatMap_toList]

end Claims

/-! ### A whole pass -/

theorem effect_modules (r) :
    Effect (claimant? r) (fun later => (localModules r).flatMap (moduleFindings later)) ⟨cleared r, []⟩
      ((localModules r).foldl Claims.addModule ⟨cleared r, []⟩) :=
  Effect.foldl (r := r) (fun c m same => Claims.effect_addModule m c same) (localModules r) ⟨cleared r, []⟩
    (sameButOwners_cleared r)

theorem get?_assignOwners (r) (kind) (name) :
    (assignOwners r).1.get? kind name = ((cleared r).get? kind name).map (·.ownedBy (claimant? r kind name)) :=
  (effect_modules r).owned.get? kind name

theorem sameButOwners_assignOwners (r) : SameButOwners r (assignOwners r).1 :=
  (sameButOwners_cleared r).trans (effect_modules r).owned.sameButOwners

theorem sameButOwners_validate (r) (log) : SameButOwners r (validate r log).1 :=
  sameButOwners_assignOwners r

theorem diagnostics_assignOwners (r) :
    (assignOwners r).2 = (localModules r).flatMap (moduleFindings (assignOwners r).1) ++
      (moduleGraph (assignOwners r).1).cycles.filterMap (circularModule? (assignOwners r).1) := by
  have reported := (effect_modules r).diagnostics (.refl _)
  rw [nil_append] at reported
  exact congrArg (· ++ _) reported

end Wiring

end ComponentCompiler
