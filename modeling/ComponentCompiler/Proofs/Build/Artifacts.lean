import ComponentCompiler.Build.Project
import ComponentCompiler.Proofs.Output.Names

/-! The artifacts of a target, and what a build of it may write. -/

namespace ComponentCompiler.BuildTarget

open Path FileTree List

variable {t t' : BuildTarget} {files : FileTree} {entry : Nat}
variable {modules : List GeneratedModule}

def compiled? (t : BuildTarget) (files : FileTree) : Option BuildTarget :=
  let result := t.session.compileEntry files t.entry
  { t with session := result.1, entryId := some result.2 }.analyze? files

def generated (t : BuildTarget) : BuildTarget := t.keepModules t.modules

def artifacts (t : BuildTarget) (files : FileTree) (entry : Nat) : Except BuildError (List (String × String)) :=
  if t.config.isLibrary then .ok (t.generated.libraryArtifacts files entry t.modules)
  else t.generated.applicationArtifacts files entry t.modules

structure SameTarget (t t' : BuildTarget) : Prop where
  name : t'.name = t.name
  entry : t'.entry = t.entry
  outDir : t'.outDir = t.outDir
  config : t'.config = t.config
  projectRoot : t'.projectRoot = t.projectRoot
  cache : t'.cache = t.cache

theorem sameTarget_analyze? (h : t.analyze? files = some t') : SameTarget t t' ∧ t'.entryId = t.entryId := by
  unfold analyze? at h
  obtain ⟨s, -, result⟩ := Option.bind_eq_some_iff.mp h
  cases result
  exact ⟨⟨rfl, rfl, rfl, rfl, rfl, rfl⟩, rfl⟩

theorem sameTarget_compiled? (h : t.compiled? files = some t') :
    SameTarget t t' ∧ t'.entryId = some (t.session.compileEntry files t.entry).2 := by
  obtain ⟨same, started⟩ := sameTarget_analyze? h
  exact ⟨⟨same.name, same.entry, same.outDir, same.config, same.projectRoot, same.cache⟩, started⟩

theorem build?_of_missing (missing : files.isFile t.entry = false) :
    t.build? files = some ⟨.error (.entryUnresolved t.name t.entry.key), t, files⟩ := by
  simp [build?, missing]

theorem build?_of_isFile (held : files.isFile t.entry) :
    t.build? files = (t.compiled? files).map (·.finish files) := by
  unfold build? compiled?
  rw [held]
  simp only [Bool.not_true, Bool.false_eq_true, if_false]
  rw [Option.map_eq_bind]
  rfl

theorem finish_of_error (started : t.entryId = some entry) (failed : t.artifacts files entry = .error e) :
    t.finish files = ⟨.error e, t.generated, files⟩ := by
  unfold finish
  rw [started]
  dsimp only
  split
  · rename_i failed'
    cases failed.symm.trans failed'
    rfl
  · rename_i listed
    cases failed.symm.trans listed

theorem finish_of_ok (started : t.entryId = some entry) (listed : t.artifacts files entry = .ok list) :
    t.finish files = t.generated.perform files (t.generated.writeOutput list) := by
  unfold finish
  rw [started]
  dsimp only
  split
  · rename_i failed
    cases listed.symm.trans failed
  · rename_i listed'
    cases listed.symm.trans listed'
    rfl

theorem isInner_library (named : IsInner t.name) (plain : IsSegment more) (long : 2 < more.toList.length) :
    IsInner (LibraryBundle.folder ++ "/" ++ (t.name ++ more)) := by
  apply isInner_extend _ named plain long
  refine ⟨?_, rfl, by decide⟩
  unfold IsSegment
  decide

theorem isInner_minifiedArtifacts (named : IsInner t.name) (mem : artifact ∈ t.minifiedArtifacts b) :
    IsInner artifact.1 := by
  unfold minifiedArtifacts at mem
  split at mem
  · dsimp only at mem
    split at mem
    · cases mem
    · rcases mem_cons.mp mem with rfl | map
      · apply isInner_library named
        · unfold IsSegment
          decide
        · decide
      · obtain ⟨text, -, rfl⟩ := mem_map.mp map
        have longer : t.name ++ "-umd.min.js" ++ ".map" = t.name ++ "-umd.min.js.map" := by
          rw [String.append_assoc]
          rfl
        show IsInner (LibraryBundle.folder ++ "/" ++ (t.name ++ "-umd.min.js") ++ ".map")
        rw [String.append_assoc, longer]
        apply isInner_library named
        · unfold IsSegment
          decide
        · decide
  · cases mem

theorem isInner_libraryArtifacts (named : IsInner t.name) (mem : artifact ∈ t.libraryArtifacts files entry modules) :
    IsInner artifact.1 := by
  unfold libraryArtifacts at mem
  simp only [mem_append] at mem
  rcases mem with ((bundle | minified) | metadata) | package
  · obtain ⟨pattern, -, rfl⟩ := mem_map.mp bundle
    cases pattern with
    | module =>
      apply isInner_library named
      · unfold IsSegment
        decide
      · decide
    | umd =>
      apply isInner_library named
      · unfold IsSegment
        decide
      · decide
  · exact isInner_minifiedArtifacts named minified
  · split at metadata
    · rw [mem_singleton.mp metadata]
      show IsInner LibraryBundle.metadataFile
      decide
    · cases metadata
  · rw [mem_singleton.mp package]
    show IsInner LibraryBundle.packageFile
    decide

theorem isName_chunkName (root) : IsName (Application.chunkName root) := by
  have digits : (toString root).toList = Nat.toDigits 10 root := by
    rw [Nat.toString_eq_repr, Nat.repr_eq_ofList_toDigits, String.toList_ofList]
  have chars : (Application.chunkName root).toList = 'c' :: ("hunk-".toList ++ Nat.toDigits 10 root ++ ".js".toList) := by
    rw [Application.chunkName, String.toList_append, String.toList_append, digits]
    rfl
  have different : ∀ text : String, text.toList.head? ≠ some 'c' → Application.chunkName root ≠ text := by
    intro text start same
    rw [← same, chars] at start
    exact start rfl
  refine ⟨?_, ?_, different ".." (by decide)⟩
  · rw [IsSegment, chars, mem_cons, mem_append, mem_append]
    rintro (first | (start | digit) | ending)
    · exact absurd first (by decide)
    · exact absurd start (by decide)
    · have isDigit := Nat.isDigit_of_mem_toDigits (by decide) (by decide) digit
      exact absurd isDigit (by decide)
    · exact absurd ending (by decide)
  · have empty := different "" (by decide)
    have dot := different "." (by decide)
    simp [isTrivial, empty, dot]

theorem isInner_pageArtifact {scripts : List String} (h : t.pageArtifact files scripts = .ok list) :
    ∀ artifact ∈ list, IsInner artifact.1 := by
  intro artifact mem
  unfold pageArtifact at h
  split at h
  · cases h
    cases mem
  · dsimp only at h
    split at h
    · cases h
      cases mem
    · split at h
      · cases h
        rw [mem_singleton.mp mem]
        exact isInner_getD _ (by decide)
      · cases h

theorem contained_applicationArtifacts (h : t.applicationArtifacts files entry modules = .ok list) :
    ∀ artifact ∈ list, Contained t.outDir artifact.1 := by
  unfold applicationArtifacts at h
  dsimp only at h
  cases page : t.pageArtifact files ((t.scripts files).map (·.1) ++ [Application.stylesFile, t.bootstrapName]) with
  | error e =>
    rw [page] at h
    cases h
  | ok pages =>
    rw [page] at h
    cases h
    intro artifact mem
    simp only [mem_append] at mem
    rcases mem with (((main | chunk) | styles) | script) | page'
    · rw [mem_singleton.mp main]
      exact (isInner_getD t.entry (by decide)).contained _
    · obtain ⟨root, -, rfl⟩ := mem_map.mp chunk
      exact (isName_chunkName root).isInner.contained _
    · rw [mem_singleton.mp styles]
      have inner : IsInner Application.stylesFile := by decide
      exact inner.contained _
    · obtain ⟨text, -, found⟩ := mem_filterMap.mp script
      obtain ⟨code, -, rfl⟩ := Option.map_eq_some_iff.mp found
      exact contained_fileName? t.outDir text
    · exact (isInner_pageArtifact page artifact page').contained _

theorem contained_artifacts (named : IsInner t.name) (h : t.artifacts files entry = .ok list) :
    ∀ artifact ∈ list, Contained t.outDir artifact.1 := by
  unfold artifacts at h
  split at h
  · cases h
    exact fun artifact mem => (isInner_libraryArtifacts (t := t.generated) named mem).contained _
  · exact contained_applicationArtifacts (t := t.generated) h

theorem keeps_writeOutput
    (write : ∀ artifact ∈ list, Output.Keeps holds (Output.write (t.outDir.join artifact.1) (.text artifact.2)))
    (copy : ∀ s, holds s → ∀ asset ∈ t.config.output.assets, ∀ path ∈ Asset.paths s.files (t.sourceRoot.join asset), Asset.KeepsCopy holds t.sourceRoot t.outDir path)
    (save : Output.Keeps holds Output.save) : Output.Keeps holds (t.writeOutput list) := by
  unfold writeOutput
  apply Output.Keeps.bind (Output.Keeps.writeAll write)
  intro written
  have rest : Output.Keeps holds (do Output.save; return written) := save.bind fun _ => .pure _
  split
  · exact Output.Keeps.bind (Output.Keeps.map _ (Asset.keeps_copyAll copy)) fun _ => rest
  · exact rest

/-- The locations that are the target's: its output folder with all that is below it, and its cache file. -/
def owned (t : BuildTarget) : List Location := [t.outDir.location, t.cache.path.location]

/-- A path that leads to something of the target's, if it is one that can be written to. -/
def Within (t : BuildTarget) (p : Path) : Prop := Writable p → ∃ own ∈ t.owned, own <+: p.location

theorem SameTarget.within (same : SameTarget t t') : t'.Within p ↔ t.Within p := by
  unfold Within owned
  rw [same.outDir, same.cache]

theorem within_of_contained {name : String} (contained : Contained t.outDir name) : t.Within (t.outDir.join name) :=
  fun writable => ⟨_, mem_cons_self, contained writable⟩

theorem within_cache (t : BuildTarget) : t.Within t.cache.path :=
  fun _ => ⟨_, mem_cons_of_mem _ mem_cons_self, prefix_refl _⟩

theorem rewritten_perform (names : ∀ artifact ∈ list, Contained t.outDir artifact.1)
    (assets : ∀ asset ∈ t.config.output.assets, IsInner asset) (plain : files.Named) :
    Rewritten t.Within files (t.perform files (t.writeOutput list)).files := by
  have kept : Output.Keeps (Output.Confined t.Within files t.cache.path) (t.writeOutput list) := by
    apply keeps_writeOutput
    · exact fun artifact mem => Output.keeps_confined_write (within_of_contained (names artifact mem)) _
    · intro s confined asset mem path found _ _ relative content below _
      have inner := Asset.isInner_of_mem_paths (confined.2.named plain) (assets asset mem) found below
      exact Output.keeps_confined_write (within_of_contained (inner.contained _)) content
    · exact Output.keeps_confined_save t.within_cache
  exact (kept ⟨t.cache, files⟩ ⟨rfl, .refl⟩).2

theorem rewritten_build? (named : IsInner t.name) (assets : ∀ asset ∈ t.config.output.assets, IsInner asset)
    (plain : files.Named) (h : t.build? files = some result) : Rewritten t.Within files result.files := by
  cases held : files.isFile t.entry with
  | false =>
    rw [build?_of_missing held] at h
    cases h
    exact .refl
  | true =>
    rw [build?_of_isFile held] at h
    obtain ⟨compiled, reached, rfl⟩ := Option.map_eq_some_iff.mp h
    obtain ⟨same, started⟩ := sameTarget_compiled? reached
    cases listed : compiled.artifacts files (t.session.compileEntry files t.entry).2 with
    | error e =>
      rw [finish_of_error started listed]
      exact .refl
    | ok list =>
      rw [finish_of_ok started listed]
      have names := contained_artifacts (same.name.symm ▸ named) listed
      have written := rewritten_perform (t := compiled.generated) names (same.config.symm ▸ assets) plain
      exact written.mono fun p within => same.within.mp within

end ComponentCompiler.BuildTarget
