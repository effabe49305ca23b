import ComponentCompiler.Graph.Compile
import ComponentCompiler.Proofs.Diagnostic.Log
import ComponentCompiler.Proofs.Graph.Records

/-!
What no operation of a compilation takes back: files, paths, requests, packages and diagnostics.
-/

namespace ComponentCompiler

open FileGraph

namespace Registry

variable (r : Registry)

theorem store_frame (d) :
    (r.store d).output = r.output ∧ (r.store d).packages = r.packages := by
  unfold store withDefinitions
  cases d.kind <;> exact ⟨rfl, rfl⟩

theorem register_frame (d) :
    (r.register d).registry.output = r.output ∧ (r.register d).registry.packages = r.packages := by
  unfold register
  split
  · exact ⟨rfl, rfl⟩
  · exact store_frame r d

theorem registerExternal_frame (d) :
    (r.registerExternal d).output = r.output ∧ (r.registerExternal d).packages = r.packages := by
  unfold registerExternal
  split
  · exact ⟨rfl, rfl⟩
  · exact store_frame r d

theorem registerMetadataEntry_frame (package) (r) (entry) :
    (registerMetadataEntry package r entry).output.lazy = r.output.lazy ∧
      (registerMetadataEntry package r entry).packages = r.packages := by
  unfold registerMetadataEntry
  simp only [registerExternal_frame]
  split <;> exact ⟨rfl, rfl⟩

theorem registerMetadata_frame (package) (m) :
    (r.registerMetadata package m).output.lazy = r.output.lazy ∧
      (r.registerMetadata package m).packages = r.packages := by
  unfold registerMetadata
  induction m.entries generalizing r with
  | nil => exact ⟨rfl, rfl⟩
  | cons entry rest ih =>
    obtain ⟨lazy, packages⟩ := registerMetadataEntry_frame package r entry
    exact ⟨(ih _).1.trans lazy, (ih _).2.trans packages⟩

theorem registerDeclared_frame (package) (metadata) :
    (r.registerDeclared package metadata).output.lazy = r.output.lazy ∧
      (r.registerDeclared package metadata).packages = r.packages := by
  cases metadata with
  | none => exact ⟨rfl, rfl⟩
  | some m => exact registerMetadata_frame r package m

end Registry

namespace Session

abbrev requests (s : Session) : List LazyRequest := s.registry.output.lazy

/-- The later session has the files of the earlier one at their places, and its packages. The log may have lost
errors. -/
structure Continues (c s : Session) : Prop where
  resolver : s.resolver = c.resolver
  library : s.library = c.library
  place : ∀ {i r}, c.graph.get? i = some r → ∃ r', s.graph.get? i = some r' ∧ r'.blank = r.blank
  lookup : ∀ {p i}, c.graph.lookup? p = some i → s.graph.lookup? p = some i
  packages : ∀ {name p}, c.registry.packages.get? name = some p → s.registry.packages.get? name = some p

structure Grows (s s' : Session) : Prop extends Continues s s' where
  requests : s.requests <+: s'.requests
  log : ∀ {file d}, d ∈ s.log.forFile file → d ∈ s'.log.forFile file
  coherent : s.graph.Coherent → s'.graph.Coherent

namespace Continues

theorem trans (first : Continues c c') (second : Continues c' s) : Continues c s where
  resolver := second.resolver.trans first.resolver
  library := second.library.trans first.library
  place held := by
    obtain ⟨r', middle, same⟩ := first.place held
    obtain ⟨r'', last, same'⟩ := second.place middle
    exact ⟨r'', last, same'.trans same⟩
  lookup known := second.lookup (first.lookup known)
  packages known := second.packages (first.packages known)

variable {c s : Session} (onwards : Continues c s)
include onwards

theorem blank_eq (before : c.graph.get? i = some a) (last : s.graph.get? i = some r) : r.blank = a.blank := by
  obtain ⟨r', last', same⟩ := onwards.place before
  cases last.symm.trans last'
  exact same

theorem contains_package (known : c.registry.packages.contains name) : s.registry.packages.contains name := by
  obtain ⟨p, described⟩ := Option.isSome_iff_exists.mp known
  exact Option.isSome_iff_exists.mpr ⟨p, onwards.packages described⟩

end Continues

namespace Grows

theorem refl (s) : Grows s s where
  resolver := rfl
  library := rfl
  place h := ⟨_, h, rfl⟩
  lookup h := h
  requests := List.prefix_refl _
  packages h := h
  log h := h
  coherent h := h

theorem trans (first : Grows s t) (second : Grows t u) : Grows s u where
  toContinues := first.toContinues.trans second.toContinues
  requests := first.requests.trans second.requests
  log h := second.log (first.log h)
  coherent h := second.coherent (first.coherent h)

theorem size_le (grows : Grows s s') : s.graph.size ≤ s'.graph.size := by
  rcases Nat.eq_zero_or_pos s.graph.size with empty | filled
  · omega
  · obtain ⟨r, last⟩ := get?_of_lt (show s.graph.size - 1 < s.graph.size by omega)
    obtain ⟨r', kept, -⟩ := grows.place last
    have := get?_eq_some_lt kept
    omega

theorem isSome_lookup (grows : Grows s s') (known : (s.graph.lookup? p).isSome) : (s'.graph.lookup? p).isSome := by
  obtain ⟨i, found⟩ := Option.isSome_iff_exists.mp known
  rw [grows.lookup found]
  rfl

end Grows

variable {s : Session}

theorem grows_report (d) : Grows s (s.report d) :=
  { Grows.refl s with log := fun h => DiagnosticLog.mem_forFile_push.mpr (.inl h) }

theorem grows_extend (ds) : Grows s { s with log := s.log.extend ds } :=
  { Grows.refl s with log := fun h => DiagnosticLog.mem_forFile_extend.mpr (.inl h) }

theorem grows_registry {registry : Registry} (output : registry.output.lazy = s.requests)
    (packages : registry.packages = s.registry.packages) : Grows s { s with registry := registry } :=
  { Grows.refl s with
    requests := ⟨[], (List.append_nil _).trans output.symm⟩
    packages := fun h => by rw [packages]; exact h }

theorem grows_update (kept : ∀ r, (f r).blank = r.blank) (id) : Grows s (s.update id f) :=
  { Grows.refl s with
    place := fun held => get?_update_of_get? kept held
    coherent := fun coherent => coherent.update kept }

theorem grows_enter {path : Path} (clean : path.clean = path) (new : s.graph.lookup? path = none)
    (origin) : Grows s (s.enter path origin) :=
  { Grows.refl s with
    place := fun held => ⟨_, get?_push_of_some held, rfl⟩
    lookup := by
      intro p i known
      have other : p.components ≠ path.components := by
        intro same
        have equal : s.graph.lookup? p = s.graph.lookup? path := by
          have congr : compare p path = .eq := Path.compare_eq_iff.mpr same
          rw [lookup?, lookup?, SortedMap.get?, SortedMap.get?]
          simp only [Std.TransCmp.congr_left congr]
        rw [equal, new] at known
        cases known
      rw [enter, lookup?_push, if_neg other]
      exact known
    coherent := fun coherent => coherent.push clean new }

theorem grows_setTarget (id index target) : Grows s (s.setTarget id index target) := by
  unfold setTarget
  exact grows_update (fun _ => by rfl) id

theorem grows_reportAny (d) : Grows s (s.reportAny d) := by
  cases d with
  | none => exact .refl s
  | some d => exact grows_report d

theorem grows_checkImport (importer index) : Grows s (s.checkImport importer index) := grows_reportAny _

theorem grows_checkPackageImport (importer index) (package) :
    Grows s (s.checkPackageImport importer index package) := grows_reportAny _

theorem grows_registerPackage (tree) (name) : Grows s (s.registerPackage tree name) := by
  unfold registerPackage
  split
  · exact .refl s
  · rename_i unknown
    split
    · exact .refl s
    · rename_i info _
      dsimp only
      obtain ⟨lazy, packages⟩ := Registry.registerDeclared_frame s.registry name (info.loadMetadata tree)
      refine { Grows.refl s with requests := ⟨[], (List.append_nil _).trans lazy.symm⟩, packages := ?_ }
      intro other p known
      have different : compare other name ≠ .eq := by
        intro same
        have : other = name := by simpa using same
        subst this
        simp [SortedMap.contains, known] at unknown
      refine (SortedMap.get?_insert _ _ _ _).trans ?_
      rw [if_neg different, packages]
      exact known

theorem grows_noteImport (tree) (r) (index) (found) :
    Grows s (s.noteImport tree r index found) := by
  have noted : Grows s (s.update r.id fun r => { r with resolved := r.resolved.set index (some found) }) :=
    grows_update (fun _ => by rfl) r.id
  unfold noteImport
  dsimp only
  split
  · exact noted.trans (grows_registerPackage tree _)
  · exact noted

theorem grows_outside (tree) (r) (index) (found) (name) :
    Grows s ((s.noteImport tree r index found).checkPackageImport r.id index name) :=
  (grows_noteImport tree r index found).trans (grows_checkPackageImport r.id index name)

theorem grows_linked (id index target) : Grows s ((s.setTarget id index target).checkImport id index) :=
  (grows_setTarget id index target).trans (grows_checkImport id index)

theorem grows_fail (id) : Grows s (s.fail id) := by
  unfold fail
  split
  · exact .refl s
  · rename_i r _
    have removed : Grows s { s with registry := (s.registry.deregisterFile r.key).1 } := grows_registry rfl rfl
    exact removed.trans (grows_update (fun _ => by rfl) id)

theorem grows_registerBlock (id) (r) (m) (block) :
    Grows s (registerBlock id r m s block) := by
  unfold registerBlock
  dsimp only
  split
  · have frame := Registry.registerExternal_frame s.registry (blockDefinition r m block)
    exact (grows_registry (congrArg TargetOutput.lazy frame.1) frame.2).trans (grows_update (fun _ => by rfl) id)
  · have frame := Registry.register_frame s.registry (blockDefinition r m block)
    have registered := (grows_registry (s := s) (congrArg TargetOutput.lazy frame.1) frame.2).trans
      (grows_extend (s.registry.register (blockDefinition r m block)).diagnostics)
    split
    · exact registered.trans (grows_update (fun _ => by rfl) id)
    · exact registered

theorem grows_foldl {α : Type} {f : Session → α → Session} (step : ∀ s a, Grows s (f s a)) (s)
    (items : List α) : Grows s (items.foldl f s) := by
  induction items generalizing s with
  | nil => exact .refl s
  | cons item rest ih => exact (step s item).trans (ih _)

theorem grows_begin (id) (r) (m) : Grows s (s.begin id r m) := by
  unfold begin
  exact ((grows_extend m.diagnostics).trans
    (grows_foldl (fun _ block => grows_registerBlock id r m block) _ _)).trans (grows_update (fun _ => by rfl) id)

theorem grows_requestLazy (tree) (r) (load : LazyLoad) :
    Grows s (requestLazy tree r s load) := by
  unfold requestLazy
  dsimp only
  split
  · rename_i found _
    have requested : Grows s { s with registry := { s.registry with output := { s.registry.output with
        lazy := s.registry.output.lazy ++ [⟨found.path.clean, r.path⟩] } } } :=
      { Grows.refl s with requests := List.prefix_append _ _ }
    exact requested.trans (grows_update (fun _ => by rfl) r.id)
  · exact (grows_report _).trans (grows_update (fun _ => by rfl) r.id)

theorem grows_finish (tree) (r) (m) : Grows s (s.finish tree r m) := by
  unfold finish
  exact (grows_foldl (fun _ load => grows_requestLazy tree r load) _ _).trans (grows_update (fun _ => by rfl) r.id)

end Session

end ComponentCompiler
