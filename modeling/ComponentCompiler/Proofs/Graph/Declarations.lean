import ComponentCompiler.Proofs.Graph.Outcome
import ComponentCompiler.Proofs.Registry.Contents

/-!
What the annotated functions of a file and the descriptions of packages bring into a session.
-/

namespace ComponentCompiler

open List

namespace Registry

variable {r : Registry}

theorem of_get?_registerDeclared {metadata : Option LibraryMetadata}
    (here : (r.registerDeclared package metadata).get? kind name = some d) :
    r.get? kind name = some d ∨
      ∃ m, metadata = some m ∧ ∃ entry ∈ m.entries, d = externalDefinition package entry.1 entry.2 := by
  cases metadata with
  | none => exact .inl here
  | some m =>
    rcases of_get?_registerMetadata here with before | added
    · exact .inl before
    · exact .inr ⟨m, rfl, added⟩

theorem Coherent.registerDeclared (coherent : r.Coherent) (package) (metadata) :
    (r.registerDeclared package metadata).Coherent := by
  cases metadata with
  | none => exact coherent
  | some m => exact coherent.registerMetadata package m

end Registry

namespace Session

variable {s : Session} {a r : FileRecord} {m : SourceModule} {d : Definition} {id : Nat}
variable {name : String}

def Declares (r : FileRecord) (m : SourceModule) (d : Definition) : Prop :=
  ∃ block ∈ m.annotations, d = blockDefinition r m block

theorem Declares.of_blank_eq (declared : Declares r m d) (same : a.blank = r.blank) : Declares a m d := by
  obtain ⟨block, mem, rfl⟩ := declared
  obtain ⟨-, path, -, -, package⟩ := FileRecord.blank_eq_iff.mp same
  exact ⟨block, mem, by simp [blockDefinition, FileRecord.key, path, package]⟩

theorem Declares.frame (declared : Declares r m d) : d.file = r.key ∧ d.package = r.package := by
  obtain ⟨block, -, rfl⟩ := declared
  exact ⟨rfl, rfl⟩

/-! ### Registration of a file -/

theorem registry_registerBlock (id) (r) (m) (s) (block) :
    (registerBlock id r m s block).registry = s.registry.registerExternal (blockDefinition r m block) := by
  unfold registerBlock
  dsimp only
  split
  · rfl
  · rw [← Registry.registry_register]
    split <;> rfl

theorem graph_registerBlock (id) (r) (m) (s) (block) :
    (registerBlock id r m s block).graph = s.graph.update id fun r' =>
      { r' with
        annotations := r'.annotations ++
          if r.package.isSome || (s.registry.get? block.kind block.name).isNone then [(block.kind, block.name)]
          else [] } := by
  unfold registerBlock
  dsimp only
  rw [Registry.accepted_register]
  change (if _ then _ else if (s.registry.get? block.kind block.name).isNone then _ else _ : Session).graph = _
  cases r.package.isSome with
  | true => rfl
  | false =>
    cases (s.registry.get? block.kind block.name).isNone with
    | true => rfl
    | false => simp [FileGraph.update_id]

theorem registerBlocks_listed (blocks : List AnnotationBlock) (held : s.graph.get? id = some a) :
    ∃ annotations, (blocks.foldl (registerBlock id r m) s).graph.get? id = some { a with annotations := annotations } ∧
      a.annotations ⊆ annotations ∧
      ∀ {kind name d}, (blocks.foldl (registerBlock id r m) s).registry.get? kind name = some d →
        s.registry.get? kind name = some d ∨
          (∃ block ∈ blocks, d = blockDefinition r m block) ∧ (d.kind, d.name) ∈ annotations := by
  induction blocks generalizing s a with
  | nil => exact ⟨a.annotations, held, Subset.refl _, .inl⟩
  | cons block rest ih =>
    have own := congrArg (·.get? id) (graph_registerBlock id r m s block)
    rw [FileGraph.get?_update_self, held, Option.map_some] at own
    obtain ⟨annotations, last, kept, new⟩ := ih own
    refine ⟨annotations, last, fun _ mem => kept (mem_append_left _ mem), ?_⟩
    intro kind name d here
    rcases new here with before | ⟨⟨later, mem, same⟩, listed⟩
    · rw [registry_registerBlock] at before
      rcases Registry.of_get?_registerExternal before with old | ⟨free, rfl⟩
      · exact .inl old
      · refine .inr ⟨⟨block, mem_cons_self, rfl⟩, kept (mem_append_right _ ?_)⟩
        have free : s.registry.get? block.kind block.name = none := free
        simp [free, blockDefinition]
    · exact .inr ⟨⟨later, mem_cons_of_mem _ mem, same⟩, listed⟩

theorem begin_listed (held : s.graph.get? id = some a) (r) (m) :
    ∃ annotations, (s.begin id r m).graph.get? id = some
        { a with
          annotations := annotations
          surface := some m
          resolved := replicate m.imports.length none
          importTargets := replicate m.imports.length none } ∧
      ∀ {kind name d}, (s.begin id r m).registry.get? kind name = some d →
        s.registry.get? kind name = some d ∨ Declares r m d ∧ (d.kind, d.name) ∈ annotations := by
  obtain ⟨annotations, own, -, new⟩ := registerBlocks_listed (r := r) (m := m) m.annotations
    (s := { s with log := s.log.extend m.diagnostics }) held
  refine ⟨annotations, ?_, new⟩
  unfold begin Session.update
  dsimp only
  rw [FileGraph.get?_update_self, own]
  rfl

theorem coherent_begin (coherent : s.registry.Coherent) (id) (r) (m) :
    (s.begin id r m).registry.Coherent := by
  have step (blocks : List AnnotationBlock) : ∀ s : Session, s.registry.Coherent →
      (blocks.foldl (registerBlock id r m) s).registry.Coherent := by
    induction blocks with
    | nil => exact fun _ coherent => coherent
    | cons block rest ih =>
      intro s coherent
      refine ih _ ?_
      rw [registry_registerBlock]
      exact coherent.registerExternal _
  exact step m.annotations { s with log := s.log.extend m.diagnostics } coherent

theorem Settled.of_surface (settled : Settled tree s r) (surface : r.surface = some m) :
    r.isCompiled ∧ tree.surface? r.path = some m := by
  cases settled.outcome with
  | failed _ record =>
    rw [record] at surface
    cases surface
  | @compiled m' loaded _ record _ =>
    have same : r.surface = some m' := congrArg FileRecord.surface record
    have state : r.state = if r.package.isSome then .compiledExternal else .compiled :=
      congrArg FileRecord.state record
    cases surface.symm.trans same
    refine ⟨?_, loaded⟩
    rw [FileRecord.isCompiled, state]
    cases r.package.isSome <;> rfl

/-! ### What stays -/

/-- A record that still has what the earlier record tells of the definitions of its file. -/
structure Retains (earlier r : FileRecord) : Prop where
  blank : r.blank = earlier.blank
  surface : earlier.surface.isSome → r.surface = earlier.surface
  annotations : earlier.annotations ⊆ r.annotations
  failed : earlier.state = .failed → r.state = .failed

theorem Retains.refl (r) : Retains r r := ⟨rfl, fun _ => rfl, Subset.refl _, id⟩

theorem registry_fail (held : s.graph.get? id = some a) :
    (s.fail id).registry = (s.registry.deregisterFile a.key).1 := by
  unfold fail
  rw [held]
  rfl

/-! ### Packages -/

/-- Files of a package are compiled only into an application, when the package is known. -/
def Admits (s : Session) (package : Option String) : Prop :=
  ∀ name, package = some name → s.library = false ∧ s.registry.packages.contains name = true

theorem Grows.admits (grows : Grows s s') (admits : s.Admits package) : s'.Admits package := by
  intro name same
  obtain ⟨application, known⟩ := admits name same
  exact ⟨grows.library.trans application, grows.contains_package known⟩

theorem contains_registerPackage (found : s.resolver.package? tree name = some info) :
    (s.registerPackage tree name).registry.packages.contains name := by
  unfold Session.registerPackage
  split
  · assumption
  · rw [found]
    exact SortedMap.contains_insert.mpr (.inl rfl)

theorem contains_noteImport (resolved : s.resolver.resolve tree specifier path = some found)
    (package : found.package? = some name) (r) (index) :
    (s.noteImport tree r index found).registry.packages.contains name := by
  obtain ⟨info, known⟩ := Resolver.package?_of_resolve resolved package
  unfold Session.noteImport
  rw [package]
  exact contains_registerPackage known

theorem admits_importOrigin (resolved : s.resolver.resolve tree specifier path = some found)
    (inside : s.outsidePackage? found = none) (admits : s.Admits r.package) :
    (s.noteImport tree r index found).Admits (importOrigin r found).package := by
  have noted := grows_noteImport (s := s) tree r index found
  intro name same
  cases package : found.package? with
  | none =>
    rw [importOrigin, package] at same
    exact noted.admits admits name same
  | some other =>
    rw [importOrigin, package] at same
    cases same
    refine ⟨?_, contains_noteImport resolved package r index⟩
    rw [noted.library]
    exact Bool.eq_false_iff.mpr fun library => by simp [outsidePackage?, library, package] at inside

end Session

end ComponentCompiler
