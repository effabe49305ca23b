import ComponentCompiler.Proofs.Build.Providers
import ComponentCompiler.Proofs.Graph.Registration
import ComponentCompiler.Proofs.Module.Exports

/-!
The names that a file offers to others, and the modules that define them. Main statement:
`edits_provide_exports`.
-/

namespace ComponentCompiler.Session

open GenerationContext

variable {s : Session} {r : FileRecord} {m : SourceModule} {name : String}

def PassesAll (s : Session) (x y : Nat) : Prop :=
  ∃ r m span, s.graph.get? x = some r ∧ r.surface = some m ∧
    ⟨span, Loader.exportAll (Loader.module y)⟩ ∈ edits s.context r m

/-- How a name that a file offers comes to the exports of its module. -/
inductive Provides (s : Session) (r : FileRecord) (m : SourceModule) (name : String) : Prop
  | defined {d : ExportDefinition} (once : definitionsOf s.context r m name = [d])
  /-- The module passes on all exports of a package that has it. -/
  | package {index : Nat} {span : Span} (has : s.PackageHas r index name)
      (passes : ⟨span, Loader.exportAll ((r.packageAlias? s.context index).getD (Script.Writer.braces ""))⟩ ∈
        edits s.context r m)
  /-- It is passed on from an import that there is no reference for, and not defined. -/
  | unresolved {e : ExportName} {index : Nat} (listed : e ∈ m.exports) (exported : e.exported = name)
      (passed : e.reexportOf = some index) (missing : r.moduleReference? s.context index = none)
      (undefined : definitionsOf s.context r m name = [])
  /-- It is the default export, but only named so in a list of the file's own names, and not defined. -/
  | unstated (default : name = "default") (listed : ∃ e ∈ m.exports, e.exported = name ∧ e.reexportOf = none)
      (unstated : ∀ form ∈ m.exportForms, form.isDefault = false) (undefined : definitionsOf s.context r m name = [])
  /-- It is the default export, and an earlier edit reaches over the one that assigns it. -/
  | covered {form : ExportForm} {d : ExportDefinition} (default : name = "default") (listed : form ∈ m.exportForms)
      (assigns : DefaultDefinition m form d) (covered : takesEffect s.context r m d = false)

theorem passedReference?_eq_none (missing : passedReference? cx r m e index = none) :
    r.moduleReference? cx index = none := by
  unfold passedReference? at missing
  split at missing
  · unfold FileRecord.memberReference? at missing
    unfold FileRecord.moduleReference?
    split at missing
    · cases missing
    · exact Option.map_eq_none_iff.mp missing
  · exact missing

theorem provides_own (defines : DefinesExports s.context r m) (own : name ∈ ownNames m.exports) :
    Provides s r m name := by
  obtain ⟨e, among, rfl⟩ := List.mem_map.mp own
  obtain ⟨listed, star⟩ := List.mem_filter.mp among
  have star : e.star = false := by simpa using star
  cases passed : e.reexportOf with
  | some index =>
    have getter := defines.passed e listed star index passed
    cases reference : passedReference? s.context r m e index with
    | some value =>
      rw [reference] at getter
      exact .defined getter
    | none =>
      rw [reference] at getter
      exact .unresolved listed rfl passed (passedReference?_eq_none reference) getter
  | none =>
    by_cases default : e.exported = "default"
    · by_cases stated : ∃ form ∈ m.exportForms, form.isDefault
      · obtain ⟨form, listed, isDefault⟩ := stated
        obtain ⟨d, made, once⟩ := defines.default form listed isDefault
        cases effective : takesEffect s.context r m d with
        | true =>
          rw [List.filter_cons_of_pos effective] at once
          exact .defined (default ▸ once)
        | false => exact .covered default listed made effective
      · have unstated : ∀ form ∈ m.exportForms, form.isDefault = false := by simpa using stated
        have undefined := defines.listed e listed star passed default unstated
        exact .unstated default ⟨e, listed, rfl, passed⟩ unstated (default ▸ undefined)
    · exact .defined (defines.own e listed star passed default)

theorem star_edit (defines : DefinesExports s.context r m) (among : index ∈ starImports m.exports) :
    ∃ span, ⟨span, Loader.exportAll ((r.moduleReference? s.context index).getD (Script.Writer.braces ""))⟩ ∈
      edits s.context r m := by
  obtain ⟨e, listed, through⟩ := List.mem_filterMap.mp among
  split at through
  · rename_i star
    obtain ⟨index', span, passed, takes⟩ := defines.all e listed star
    cases through.symm.trans passed
    exact ⟨span, takes⟩
  · cases through

theorem provides_package (defines : DefinesExports s.context r m) (among : index ∈ starImports m.exports)
    (has : s.PackageHas r index name) : Provides s r m name := by
  obtain ⟨span, takes⟩ := star_edit defines among
  rw [FileRecord.moduleReference?, has.1] at takes
  exact .package has takes

theorem passesAll_of_starStep (defines : ∀ r ∈ s.graph.records, ∀ m, r.surface = some m → DefinesExports s.context r m)
    (step : s.graph.StarStep x y) : s.PassesAll x y := by
  obtain ⟨r, held, index, among, leads⟩ := step
  cases surface : r.surface with
  | none => simp [FileRecord.exports, starImports, surface] at among
  | some m =>
    rw [exports_of_surface surface] at among
    obtain ⟨span, takes⟩ := star_edit (defines r (FileGraph.mem_records_iff.mpr ⟨x, held⟩) m surface) among
    rw [FileRecord.moduleReference?, leads] at takes
    exact ⟨r, m, span, held, surface, takes⟩

theorem provides_of_offers (defines : ∀ r ∈ s.graph.records, ∀ m, r.surface = some m → DefinesExports s.context r m)
    (offers : s.Offers x name) : ∃ r m, s.graph.get? x = some r ∧ r.surface = some m ∧ Provides s r m name := by
  obtain ⟨r, held, named⟩ := offers
  cases surface : r.surface with
  | none => simp [FileRecord.exports, ownNames, starImports, surface] at named
  | some m =>
    rw [exports_of_surface surface] at named
    have here := defines r (FileGraph.mem_records_iff.mpr ⟨x, held⟩) m surface
    refine ⟨r, m, held, surface, ?_⟩
    rcases named with own | ⟨index, among, has⟩
    · exact provides_own here own
    · exact provides_package here among has

end ComponentCompiler.Session
