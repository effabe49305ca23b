import ComponentCompiler.Proofs.Wiring.Passes

/-! Who owns a local definition, and which claims to it are refused. -/

namespace ComponentCompiler

open List Option

theorem DiagnosticLog.count_forFile_extend {log : DiagnosticLog} (single : (log.forFile file).count e ≤ 1)
    (ds) : ((log.extend ds).forFile file).count e ≤ 1 := by
  induction ds generalizing log with
  | nil => exact single
  | cons d rest ih =>
    refine @ih (log.push d) ?_
    rw [forFile_push]
    split
    · rename_i added
      rw [count_append]
      by_cases same : d = e
      · rw [count_eq_zero_of_not_mem (same ▸ added.2)]
        simp [same]
      · simpa [count_cons, same] using single
    · exact single

namespace Wiring

variable {r : Registry} {kind : AnnotationKind} {name : String}
variable {m : Definition} {e : Diagnostic} {kind' : AnnotationKind}

/-- A module lists a service by its name, an element or a directive by an entry that resolves to it. -/
def ClaimedBy (r : Registry) (kind : AnnotationKind) (name : String) (m : Definition) : Prop :=
  if kind.table = .service then name ∈ m.serviceNames
  else ∃ entry ∈ m.names "selectors", Claims.selectorTarget? r entry = some (kind, name)

theorem table_eq_self (other : kind.table ≠ .service) : kind.table = kind := by
  cases kind <;> first | rfl | exact absurd rfl other

theorem table_of_isSelectable (selectable : kind.isSelectable) : kind.table = kind ∧ kind ≠ .service := by
  cases kind <;> first | exact ⟨rfl, by decide⟩ | cases selectable

theorem mem_claimTargets (coherent : r.Coherent) :
    (kind.table, name) ∈ claimTargets r m ↔ ClaimedBy r kind name m := by
  have targets : ∀ entry place, Claims.selectorTarget? r entry = some place → place.1.table = place.1 ∧ place.1 ≠ .service :=
    fun entry place found => table_of_isSelectable (isSelectable_of_selectorTarget? coherent found)
  simp only [claimTargets, ClaimedBy, mem_append, List.mem_map, mem_filterMap, map_eq_some_iff,
    Prod.mk.injEq]
  by_cases service : kind.table = .service
  · rw [if_pos service, service]
    constructor
    · rintro (⟨_, listed, -, rfl⟩ | ⟨entry, -, place, found, table, -⟩)
      · exact listed
      · exact absurd ((targets entry place found).1.symm.trans table) (targets entry place found).2
    · exact fun listed => .inl ⟨name, listed, rfl, rfl⟩
  · rw [if_neg service, table_eq_self service]
    constructor
    · rintro (⟨_, -, here, -⟩ | ⟨entry, listed, place, found, table, rfl⟩)
      · exact absurd (here ▸ rfl) service
      · rw [(targets entry place found).1] at table
        exact ⟨entry, listed, table ▸ found⟩
    · rintro ⟨entry, listed, found⟩
      exact .inr ⟨entry, listed, _, found, (targets entry _ found).1, rfl⟩

theorem pairwise_localModules (coherent : r.Coherent) : (localModules r).Pairwise fun a b => a.name < b.name := by
  refine Pairwise.filter _ (pairwise_map.mpr (r.modules.sorted.imp_of_mem fun {a b} here there less => ?_))
  have own : ∀ entry ∈ r.modules.entries, entry.2.name = entry.1 := by
    intro entry mem
    have here : r.get? .module entry.1 = some entry.2 := SortedMap.get?_eq_some_iff.mpr mem
    exact (coherent.own here).2
  rw [own a here, own b there]
  exact compareOfLessAndEq_eq_lt.mp less

theorem claimBy?_eq_some_iff (coherent : r.Coherent) :
    claimBy? r kind name m = some o ↔ ClaimedBy r kind name m ∧ m.name = o := by
  rw [claimBy?, ite_none_right_eq_some, mem_claimTargets coherent, some.injEq]

theorem claimant?_eq_some_iff (coherent : r.Coherent) : claimant? r kind name = some o ↔
    (∃ m ∈ localModules r, ClaimedBy r kind name m ∧ m.name = o) ∧
      ∀ m ∈ localModules r, ClaimedBy r kind name m → o ≤ m.name := by
  have least : ∀ {o}, claimant? r kind name = some o →
      (∃ m ∈ localModules r, ClaimedBy r kind name m ∧ m.name = o) ∧
        ∀ m ∈ localModules r, ClaimedBy r kind name m → o ≤ m.name := by
    intro o found
    obtain ⟨before, m, after, split, here, none⟩ := findSome?_eq_some_iff.mp found
    have ordered := pairwise_localModules coherent
    rw [split] at ordered ⊢
    obtain ⟨claimed, named⟩ := (claimBy?_eq_some_iff coherent).mp here
    refine ⟨⟨m, by simp, claimed, named⟩, fun m' mem claimed' => ?_⟩
    rcases mem_append.mp mem with earlier | rest
    · have some := (claimBy?_eq_some_iff coherent).mpr ⟨claimed', rfl⟩
      rw [none m' earlier] at some
      cases some
    · rcases mem_cons.mp rest with rfl | later
      · exact named ▸ String.le_refl _
      · have less := (pairwise_cons.mp (pairwise_append.mp ordered).2.1).1 m' later
        exact named ▸ String.not_lt.mp (String.lt_asymm less)
  refine ⟨least, ?_⟩
  rintro ⟨⟨m, mem, claimed, rfl⟩, below⟩
  obtain ⟨o, found⟩ : ∃ o, claimant? r kind name = some o := by
    refine ne_none_iff_exists'.mp fun none => ?_
    have unclaimed := findSome?_eq_none_iff.mp none m mem
    rw [(claimBy?_eq_some_iff coherent).mpr ⟨claimed, rfl⟩] at unclaimed
    cases unclaimed
  obtain ⟨⟨m', mem', claimed', named⟩, below'⟩ := least found
  rw [found, String.le_antisymm (below' m mem claimed) (named ▸ below m' mem' claimed')]

/-- The diagnostic is about a claim of the module to a definition: as a service, an element or a directive, which is the
first word of its message. -/
def IsAbout (m : Definition) (kind : AnnotationKind) (name : String) (e : Diagnostic) : Prop :=
  e.code = .moduleOwnership ∧ e.identifier = some name ∧ e.context = some m.name ∧
    ∃ text, e.message = kind.table.keyword ++ " '" ++ text

theorem foreign?_eq_some_iff : foreign? m label name d = some e ↔
    ∃ o, d.module = some o ∧ o ≠ m.name ∧ Claims.ownershipDiagnostic m label name o = e := by
  unfold foreign?
  cases d.module with
  | none => simp
  | some owner => simp

theorem mem_moduleFindings (coherent : r.Coherent) (code : e.code = .moduleOwnership) : e ∈ moduleFindings r m ↔
      ∃ place ∈ claimTargets r m, ∃ d, r.get? place.1 place.2 = some d ∧ foreign? m place.1.keyword place.2 d = some e := by
  simp only [moduleFindings, claimTargets, mem_append, mem_filterMap, List.mem_map, map_eq_some_iff]
  constructor
  · rintro ((⟨service, listed, found⟩ | ⟨required, -, found⟩) | ⟨entry, listed, found⟩)
    · unfold serviceFinding? at found
      split at found
      · rename_i d here
        exact ⟨_, .inl ⟨service, listed, rfl⟩, d, here, found⟩
      · cases found
        cases code
    · unfold requiredFinding? at found
      split at found <;> cases found
      cases code
    · unfold selectorFinding? at found
      split at found
      · rename_i place target
        obtain ⟨d, here, found⟩ := bind_eq_some_iff.mp found
        have table := (table_of_isSelectable (isSelectable_of_selectorTarget? coherent target)).1
        exact ⟨place, .inr ⟨entry, listed, place, target, by rw [table]⟩, d, here, found⟩
      · cases found
        cases code
  · rintro ⟨_, ⟨service, listed, rfl⟩ | ⟨entry, listed, place, target, rfl⟩, d, here, found⟩
    · refine .inl (.inl ⟨service, listed, ?_⟩)
      rw [serviceFinding?, here]
      exact found
    · rw [(table_of_isSelectable (isSelectable_of_selectorTarget? coherent target)).1] at here found
      refine .inr ⟨entry, listed, ?_⟩
      rw [selectorFinding?, target]
      exact bind_eq_some_iff.mpr ⟨d, here, found⟩

theorem keyword_injective (same : kind.keyword ++ " '" ++ s = kind'.keyword ++ " '" ++ t) : kind = kind' := by
  have chars := congrArg String.toList same
  cases kind <;> cases kind' <;> first | rfl | simp [AnnotationKind.keyword] at chars

theorem isAbout_ownershipDiagnostic :
    IsAbout m kind name (Claims.ownershipDiagnostic m' kind'.keyword name' o) ↔
      kind' = kind.table ∧ name' = name ∧ m'.name = m.name := by
  have message : (Claims.ownershipDiagnostic m' kind'.keyword name' o).message = kind'.keyword ++ " '" ++
      (name' ++ "' is already owned by module " ++ o ++ "; " ++ m'.name ++ " cannot claim it") := by
    simp only [Claims.ownershipDiagnostic, String.append_assoc]
  constructor
  · rintro ⟨-, named, context, text, same⟩
    exact ⟨keyword_injective (message.symm.trans same), some.inj named, some.inj context⟩
  · rintro ⟨rfl, rfl, context⟩
    exact ⟨rfl, rfl, congrArg some context, _, message⟩

theorem eq_of_mem_localModules (coherent : r.Coherent) (here : m ∈ localModules r) (there : m' ∈ localModules r)
    (named : m'.name = m.name) : m' = m := by
  have get : ∀ m ∈ localModules r, r.get? .module m.name = some m := by
    intro m mem
    obtain ⟨key, found⟩ := SortedMap.mem_values_iff.mp (mem_filter.mp mem).1
    have found : r.get? .module key = some m := found
    rwa [(coherent.own found).2]
  exact some.inj ((get m' there).symm.trans (named ▸ get m here))

theorem get?_assignOwners_local (table : kind.table ≠ .module) (here : r.get? kind name = some d)
    (isLocal : d.isLocal) :
    (assignOwners r).1.get? kind name = some { d with module := claimant? r kind name } := by
  rw [get?_assignOwners, get?_cleared, here, map_some, if_pos ⟨table, isLocal⟩]
  rfl

theorem isAbout_assignOwners (coherent : r.Coherent) (table : kind.table ≠ .module) (here : r.get? kind name = some d)
    (isLocal : d.isLocal) (mem : m ∈ localModules r) :
    e ∈ (assignOwners r).2 ∧ IsAbout m kind name e ↔ ClaimedBy r kind name m ∧
      ∃ o, claimant? r kind name = some o ∧ o ≠ m.name ∧ e = Claims.ownershipDiagnostic m kind.table.keyword name o := by
  have same := sameButOwners_assignOwners r
  have owned : (assignOwners r).1.get? kind.table name = some { d with module := claimant? r kind name } := by
    rw [Registry.get?_of_table_eq (show kind.table.table = kind.table by cases kind <;> rfl)]
    exact get?_assignOwners_local table here isLocal
  rw [diagnostics_assignOwners, mem_append, mem_flatMap]
  constructor
  · rintro ⟨⟨m', mem', found⟩ | circular, about⟩
    · obtain ⟨place, claimed, d', there, foreign⟩ := (mem_moduleFindings (same.coherent coherent) about.1).mp found
      obtain ⟨o, owns, other, rfl⟩ := foreign?_eq_some_iff.mp foreign
      obtain ⟨tables, rfl, named⟩ := isAbout_ownershipDiagnostic.mp about
      cases eq_of_mem_localModules coherent mem mem' named
      rw [tables, owned] at there
      cases there
      rw [claimTargets_congr same, show place = (kind.table, place.2) from Prod.ext tables rfl,
        mem_claimTargets coherent] at claimed
      exact ⟨claimed, o, owns, other, by rw [tables]⟩
    · -- a circle of modules is reported under another code
      obtain ⟨cycle, -, found⟩ := mem_filterMap.mp circular
      obtain ⟨first, -, found⟩ := bind_eq_some_iff.mp found
      obtain ⟨head, -, found⟩ := bind_eq_some_iff.mp found
      cases found
      cases about.1
  · rintro ⟨claimed, o, owns, other, rfl⟩
    refine ⟨.inl ⟨m, mem, (mem_moduleFindings (same.coherent coherent) rfl).mpr ⟨(kind.table, name), ?_, _, owned, ?_⟩⟩,
      isAbout_ownershipDiagnostic.mpr ⟨rfl, rfl, rfl⟩⟩
    · rw [claimTargets_congr same]
      exact (mem_claimTargets coherent).mpr claimed
    · exact foreign?_eq_some_iff.mpr ⟨o, owns, other, rfl⟩

/-- A pass over the modules, on a log without diagnostics of its kind. Each local definition gets as its owner the module
with the smallest name among the local ones that claim it, and none if no module does. The log has a diagnostic about a
module's claim to it exactly if the module claims it and does not own it. This one stands in the module's file, once, and
names the owner. -/
theorem validateModules_owns_exclusively (coherent : r.Coherent) {log : DiagnosticLog}
    (clean : ∀ file, ∀ e ∈ log.forFile file, e.code ∉ codes) :
    let after := validateModules r log
    ∀ kind name d, kind.table ≠ .module → r.get? kind name = some d → d.isLocal = true →
      ∃ owner, after.1.get? kind name = some { d with module := owner } ∧
        (owner = none ↔ ∀ m ∈ localModules r, ¬ClaimedBy r kind name m) ∧
        (∀ o, owner = some o ↔ (∃ m ∈ localModules r, ClaimedBy r kind name m ∧ m.name = o) ∧
          ∀ m ∈ localModules r, ClaimedBy r kind name m → o ≤ m.name) ∧
        ∀ m ∈ localModules r, ∀ file e,
          (e ∈ after.2.forFile file ∧ IsAbout m kind name e ↔ ClaimedBy r kind name m ∧ file = m.file ∧
            ∃ o, owner = some o ∧ o ≠ m.name ∧ e = Claims.ownershipDiagnostic m kind.table.keyword name o) ∧
          (e ∈ after.2.forFile file → IsAbout m kind name e → (after.2.forFile file).count e = 1) := by
  intro after kind name d table here isLocal
  have log' : after.2 = log.extend (assignOwners r).2 := rfl
  have fresh : ∀ {file e m}, IsAbout m kind name e → e ∉ log.forFile file := by
    intro file e m about member
    exact clean file e member (by rw [about.1]; decide)
  refine ⟨_, get?_assignOwners_local table here isLocal, ?_, fun o => claimant?_eq_some_iff coherent,
    fun m member file e => ⟨?_, fun reported about => ?_⟩⟩
  · rw [claimant?, findSome?_eq_none_iff]
    simp only [claimBy?, mem_claimTargets coherent, ite_eq_right_iff, reduceCtorEq, imp_false]
  · have reports := isAbout_assignOwners coherent table here isLocal member (e := e)
    rw [log', DiagnosticLog.mem_forFile_extend]
    constructor
    · rintro ⟨before | ⟨found, rfl⟩, about⟩
      · exact absurd before (fresh about)
      · obtain ⟨claimed, o, owns, other, rfl⟩ := reports.mp ⟨found, about⟩
        exact ⟨claimed, rfl, o, owns, other, rfl⟩
    · rintro ⟨claimed, rfl, o, owns, other, rfl⟩
      obtain ⟨found, about⟩ := reports.mpr ⟨claimed, o, owns, other, rfl⟩
      exact ⟨.inr ⟨found, rfl⟩, about⟩
  · have none : (log.forFile file).count e ≤ 1 := by
      rw [count_eq_zero_of_not_mem (fresh about)]
      exact Nat.zero_le 1
    exact Nat.le_antisymm (DiagnosticLog.count_forFile_extend none _) (count_pos_iff.mpr reported)

def api : Definition := { name := "Api", kind := .service, file := "/w/api.js", properties := [] }

def apiModule (name file : String) : Definition :=
  { name, kind := .module, file, properties := [("services", .array [.string "Api"])] }

def sharedApi : Registry :=
  ((Registry.empty.registerExternal api).registerExternal (apiModule "B" "/w/b.js")).registerExternal
    (apiModule "A" "/w/a.js")

theorem shared_api_owned_once :
    sharedApi.Coherent ∧ (∀ file, ∀ e ∈ DiagnosticLog.empty.forFile file, e.code ∉ codes) ∧
      (validateModules sharedApi .empty).1.get? .service "Api" = some { api with module := some "A" } ∧
      ((validateModules sharedApi .empty).2.forFile "/w/b.js").count
        (Claims.ownershipDiagnostic (apiModule "B" "/w/b.js") "Service" "Api" "A") = 1 := by
  have coherent : sharedApi.Coherent :=
    ((Registry.coherent_empty.registerExternal _).registerExternal _).registerExternal _
  have clean : ∀ file, ∀ e ∈ DiagnosticLog.empty.forFile file, e.code ∉ codes := by
    intro file e member
    cases member
  have modules : localModules sharedApi = [apiModule "A" "/w/a.js", apiModule "B" "/w/b.js"] := rfl
  have claimed : ∀ name file, ClaimedBy sharedApi .service "Api" (apiModule name file) :=
    fun _ _ => mem_singleton_self "Api"
  obtain ⟨owner, stamped, -, least, reports⟩ :=
    validateModules_owns_exclusively coherent clean .service "Api" api (by decide) rfl rfl
  have first : owner = some "A" := by
    refine (least "A").mpr ⟨⟨_, by rw [modules]; exact mem_cons_self, claimed _ _, rfl⟩, ?_⟩
    simp [modules, apiModule]
  obtain ⟨reported, single⟩ := reports (apiModule "B" "/w/b.js") (by simp [modules]) "/w/b.js"
    (Claims.ownershipDiagnostic (apiModule "B" "/w/b.js") "Service" "Api" "A")
  obtain ⟨member, about⟩ := reported.mpr ⟨claimed _ _, rfl, "A", first, by decide, rfl⟩
  exact ⟨coherent, clean, first ▸ stamped, single member about⟩

end Wiring

end ComponentCompiler
