import ComponentCompiler.Proofs.Build.Artifacts
import Mathlib.Data.List.Forall2

/-!
Targets of one project, and what keeps them apart: a folder is named by the segments of the target's
name, a cache file by an encoding that does not tell separators from underscores.
-/

namespace ComponentCompiler

open Path FileTree List

/-! ### Cache files -/

namespace OutputCache

theorem fileName_append_inj (before) :
    fileName (before ++ name) = fileName (before ++ other) ↔ fileName name = fileName other := by
  rw [← String.toList_inj, ← String.toList_inj, toList_fileName, toList_fileName, toList_fileName, toList_fileName,
    String.toList_append, String.toList_append, map_append, map_append, append_assoc, append_assoc,
    append_right_inj]

theorem fileName_congr (different : fileName name ≠ fileName other) : name ≠ other :=
  fun same => different (congrArg fileName same)

end OutputCache

/-! ### Preparation -/

namespace BuildTarget

variable {t u : BuildTarget}

/-- No location of the one is a location of the other, or above it. -/
def Apart (t u : BuildTarget) : Prop := ∀ own ∈ t.owned, ∀ other ∈ u.owned, ¬ own <+: other ∧ ¬ other <+: own

def Changed (tree tree' : FileTree) (location : Location) : Prop :=
  ∃ content, ¬ (tree'.item? location = some (.file content) ↔ tree.item? location = some (.file content))

theorem owned_of_changed {files : FileTree} {location : Location} (named : IsInner t.name)
    (assets : ∀ asset ∈ t.config.output.assets, IsInner asset) (plain : files.Named) (h : t.build? files = some result)
    (changed : Changed files result.files location) : ∃ own ∈ t.owned, own <+: location := by
  obtain ⟨content, changed⟩ := changed
  by_contra outside
  apply changed
  apply (rewritten_build? named assets plain h).item?_file
  rintro p within writable rfl
  exact outside (within writable)

structure PreparedFrom (root : Path) (config : ProjectConfig) (outDir : TargetEntry → Path) (entry : TargetEntry)
    (t : BuildTarget) : Prop where
  name : t.name = entry.name
  folder : t.outDir = outDir entry
  settings : t.config = config
  cache : t.cache.path = (root.join OutputCache.folder).join (OutputCache.fileName (cacheName config entry.name))

end BuildTarget

namespace ProjectBuild

open BuildTarget

variable {files files' : FileTree} {root : Path} {config : ProjectConfig} {outDir : TargetEntry → Path}
variable {entries : List TargetEntry} {targets : List BuildTarget}

theorem prepareTargets_cons (entry : TargetEntry) (rest) :
    (prepareTargets root config outDir files (entry :: rest)).1 =
      (BuildTarget.new root config (outDir entry) files entry).1 ::
        (prepareTargets root config outDir (BuildTarget.new root config (outDir entry) files entry).2 rest).1 := by
  rw [prepareTargets]

theorem preparedFrom_new (entry : TargetEntry) :
    PreparedFrom root config outDir entry (BuildTarget.new root config (outDir entry) files entry).1 := by
  have cache := OutputState.path_openCache files (root.join OutputCache.folder) (cacheName config entry.name)
  unfold BuildTarget.new
  generalize OutputState.openCache files (root.join OutputCache.folder) (cacheName config entry.name) = output at cache
  exact ⟨rfl, rfl, rfl, cache⟩

theorem prepareTargets_forall₂ (entries) (files) :
    Forall₂ (PreparedFrom root config outDir) entries (prepareTargets root config outDir files entries).1 := by
  induction entries generalizing files with
  | nil => exact .nil
  | cons entry rest ih =>
    rw [prepareTargets_cons]
    exact .cons (preparedFrom_new entry) (ih _)

theorem exists_preparedFrom (prepared : Forall₂ (PreparedFrom root config outDir) entries targets)
    (mem : t ∈ targets) : ∃ entry, PreparedFrom root config outDir entry t := by
  induction prepared with
  | nil => cases mem
  | cons first _ ih =>
    rcases mem_cons.mp mem with rfl | later
    · exact ⟨_, first⟩
    · exact ih later

theorem map_name_of_prepared (prepared : Forall₂ (PreparedFrom root config outDir) entries targets) :
    targets.map (·.name) = entries.map (·.name) := by
  induction prepared with
  | nil => rfl
  | cons first _ ih => rw [map_cons, map_cons, first.name, ih]

def outputFolder (root : Path) (config : ProjectConfig) : Path := root.clean.join config.output.folder

def cacheFolder (root : Path) : Path := root.clean.join OutputCache.folder

theorem prepare_ok {name : String} (h : prepare files root name config = .ok (build, files')) :
    ∃ entries, config.entries files root.clean = .ok entries ∧
      Forall₂ (PreparedFrom root.clean config fun entry =>
        if entries.length == 1 then outputFolder root config else (outputFolder root config).join entry.name)
        entries build.targets := by
  unfold prepare at h
  dsimp only at h
  cases found : config.entries files root.clean with
  | error e =>
    rw [found] at h
    cases h
  | ok entries =>
    rw [found] at h
    refine ⟨entries, rfl, ?_⟩
    dsimp only [bind, Except.bind] at h
    split at h
    · cases h
    · cases h
      exact prepareTargets_forall₂ entries files

structure Placed (root : Path) (config : ProjectConfig) (t : BuildTarget) : Prop where
  settings : t.config = config
  outDir : t.outDir = (outputFolder root config).join t.name
  cache : t.cache.path = (cacheFolder root).join (OutputCache.fileName (config.output.folder ++ "-" ++ t.name))

variable {name : String} {build : ProjectBuild}

theorem pairwise_of_placed (h : prepare files root name config = .ok (build, files'))
    (each : ∀ t ∈ build.targets, ∀ u ∈ build.targets, Placed root config t → Placed root config u → related t u) :
    build.targets.Pairwise related := by
  obtain ⟨entries, -, prepared⟩ := prepare_ok h
  by_cases single : entries.length = 1
  · have one : build.targets.length = 1 := prepared.length_eq ▸ single
    obtain ⟨t, alone⟩ := length_eq_one_iff.mp one
    rw [alone]
    exact pairwise_singleton _ _
  · have placed : ∀ t ∈ build.targets, Placed root config t := by
      intro t mem
      obtain ⟨entry, origin⟩ := exists_preparedFrom prepared mem
      refine ⟨origin.settings, ?_, ?_⟩
      · rw [origin.folder, origin.name, beq_false_of_ne single, if_neg Bool.false_ne_true]
      · rw [origin.cache, origin.name]
        rfl
    exact pairwise_of_forall_mem_list fun t mem u other =>
      each t mem u other (placed t mem) (placed u other)

section

theorem Placed.outDir_iff (first : Placed root config t) (second : Placed root config u) (inner : IsInner t.name)
    (inner' : IsInner u.name) : t.outDir.location = u.outDir.location ↔ names t.name = names u.name := by
  rw [first.outDir, second.outDir, location_inner _ inner, location_inner _ inner', append_right_inj]

theorem Placed.location_cache (placed : Placed root config t) :
    t.cache.path.location =
      (cacheFolder root).location ++ [OutputCache.fileName (config.output.folder ++ "-" ++ t.name)] := by
  have plain := OutputCache.isName_fileName (config.output.folder ++ "-" ++ t.name)
  rw [placed.cache, location_inner _ plain.isInner, names_of_isName plain]

theorem Placed.cache_iff (first : Placed root config t) (second : Placed root config u) :
    t.cache.path.location = u.cache.path.location ↔ OutputCache.fileName t.name = OutputCache.fileName u.name := by
  rw [first.location_cache, second.location_cache, append_right_inj, singleton_inj,
    OutputCache.fileName_append_inj]

theorem Placed.apart_iff (first : Placed root config t) (second : Placed root config u) (plain : IsName t.name)
    (plain' : IsName u.name) (above : ¬ (outputFolder root config).location <+: (cacheFolder root).location)
    (below : ¬ (cacheFolder root).location <+: (outputFolder root config).location) :
    Apart t u ↔ OutputCache.fileName t.name ≠ OutputCache.fileName u.name := by
  have folder : ∀ {t}, Placed root config t → IsName t.name →
      t.outDir.location = (outputFolder root config).location ++ [t.name] := by
    intro t placed plain
    rw [placed.outDir, location_inner _ plain.isInner, names_of_isName plain]
  have beside : ∀ {common : Location} {a b : String}, common ++ [a] <+: common ++ [b] → a = b := by
    intro common a b inside
    simpa using (prefix_append_right_inj common).mp inside
  have across : ∀ {common other : Location} {a b : String}, ¬ common <+: other → ¬ common ++ [a] <+: other ++ [b] := by
    intro common other a b outside inside
    rcases prefix_concat_iff.mp inside with same | shorter
    · exact outside ((append_inj' same rfl).1 ▸ prefix_refl _)
    · exact outside ((prefix_append _ _).trans shorter)
  constructor
  · intro apart same
    have cache := (first.cache_iff second).mpr same
    exact (apart _ (mem_cons_of_mem _ mem_cons_self) _ (mem_cons_of_mem _ mem_cons_self)).1
      (cache ▸ prefix_refl _)
  · intro different own mine other theirs
    simp only [owned, mem_cons, not_mem_nil, or_false] at mine theirs
    rcases mine with rfl | rfl <;> rcases theirs with rfl | rfl
    · rw [folder first plain, folder second plain']
      exact ⟨fun inside => OutputCache.fileName_congr different (beside inside),
        fun inside => OutputCache.fileName_congr different (beside inside).symm⟩
    · rw [folder first plain, second.location_cache]
      exact ⟨across above, across below⟩
    · rw [first.location_cache, folder second plain']
      exact ⟨across below, across above⟩
    · rw [first.location_cache, second.location_cache]
      refine ⟨fun inside => different ?_, fun inside => different ?_⟩
      · exact (OutputCache.fileName_append_inj _).mp (beside inside)
      · exact ((OutputCache.fileName_append_inj _).mp (beside inside)).symm

theorem Placed.writes_apart (first : Placed root config t) (second : Placed root config u) (inner : IsInner t.name)
    (inner' : IsInner u.name) (assets : ∀ asset ∈ config.output.assets, IsInner asset) (apart : Apart t u)
    {tree tree' : FileTree} (plain : tree.Named) (plain' : tree'.Named) (built : t.build? tree = some result)
    (built' : u.build? tree' = some result') {location : Location} (changed : Changed tree result.files location) :
    ¬ Changed tree' result'.files location := by
  intro changed'
  obtain ⟨own, mine, inside⟩ := owned_of_changed inner (first.settings ▸ assets) plain built changed
  obtain ⟨other, theirs, inside'⟩ := owned_of_changed inner' (second.settings ▸ assets) plain' built' changed'
  obtain ⟨outside, outside'⟩ := apart own mine other theirs
  rcases prefix_or_prefix_of_prefix inside inside' with below | below
  · exact outside below
  · exact outside' below

end

/-! ### Names -/

theorem mapM_namedEntries {sourceRoot : Path} {entries : List (String × String)}
    (plain : ∀ entry ∈ entries, ProjectConfig.isPattern entry.2 = false) :
    entries.mapM (fun entry => ProjectConfig.namedEntries files sourceRoot entry.1 entry.2) =
      .ok (entries.map fun entry => [⟨entry.1, sourceRoot.join entry.2⟩]) := by
  induction entries with
  | nil => rfl
  | cons entry rest ih =>
    have single : ProjectConfig.namedEntries files sourceRoot entry.1 entry.2 =
        .ok [⟨entry.1, sourceRoot.join entry.2⟩] := by
      rw [ProjectConfig.namedEntries, plain entry mem_cons_self, if_neg Bool.false_ne_true]
    rw [mapM_cons, single, ih fun other mem => plain other (mem_cons_of_mem _ mem)]
    rfl

theorem nodup_names_of_plain_entries (h : prepare files root name config = .ok (build, files'))
    {entries : SortedMap String String} (named : config.output.entryFile = .named entries)
    (plain : ∀ file ∈ entries.values, ProjectConfig.isPattern file = false) : (build.targets.map (·.name)).Nodup := by
  obtain ⟨found, listed, prepared⟩ := prepare_ok h
  have each : ∀ entry ∈ entries.toList, ProjectConfig.isPattern entry.2 = false := fun entry mem =>
    plain entry.2 (mem_map_of_mem mem)
  rw [ProjectConfig.entries, named] at listed
  dsimp only at listed
  rw [mapM_namedEntries each] at listed
  have keys : found.map (·.name) = entries.keys := by
    rw [← Except.ok.inj listed, ← flatMap_def, map_flatMap]
    exact flatMap_pure_eq_map (·.1) entries.entries
  rw [map_name_of_prepared prepared, keys, SortedMap.keys, Nodup, pairwise_map]
  apply entries.sorted.imp
  intro a b less same
  rw [same, Std.ReflOrd.compare_self] at less
  cases less

/-! ### Isolation -/

/-- The cache files of two targets are one just if their names are encoded alike, and the output folders just if the names
have the same segments. Where no location of the one is at or below a location of the other, no file is written by both,
whatever trees they are built in: this holds of single-segment names just if their encodings differ. Without patterns no
two names are equal. -/
theorem targets_apart_as_named (prepared : prepare files root name config = .ok (build, files')) :
    (build.targets.Pairwise fun t u =>
      (t.cache.path.location = u.cache.path.location ↔ OutputCache.fileName t.name = OutputCache.fileName u.name) ∧
      (IsInner t.name → IsInner u.name →
        (t.outDir.location = u.outDir.location ↔ names t.name = names u.name) ∧
        ((∀ asset ∈ config.output.assets, IsInner asset) → Apart t u → ∀ tree tree' result result' location,
          tree.Named → tree'.Named → t.build? tree = some result → u.build? tree' = some result' →
          Changed tree result.files location → ¬ Changed tree' result'.files location))) ∧
    ((∀ t ∈ build.targets, IsName t.name) → ¬ (outputFolder root config).location <+: (cacheFolder root).location →
      ¬ (cacheFolder root).location <+: (outputFolder root config).location →
      (build.targets.Pairwise Apart ↔ (build.targets.map fun t => OutputCache.fileName t.name).Nodup)) ∧
    (∀ entries, config.output.entryFile = .named entries →
      (∀ file ∈ entries.values, ProjectConfig.isPattern file = false) → (build.targets.map (·.name)).Nodup) := by
  refine ⟨?_, ?_, fun entries named plain => nodup_names_of_plain_entries prepared named plain⟩
  · apply pairwise_of_placed prepared
    intro t _ u _ first second
    refine ⟨first.cache_iff second, fun inner inner' => ⟨first.outDir_iff second inner inner', ?_⟩⟩
    intro assets apart tree tree' result result' location plain plain' built built' changed
    exact first.writes_apart second inner inner' assets apart plain plain' built built' changed
  · intro plain above below
    have iff : build.targets.Pairwise fun t u =>
        Apart t u ↔ OutputCache.fileName t.name ≠ OutputCache.fileName u.name := by
      apply pairwise_of_placed prepared
      intro t member u other first second
      exact first.apart_iff second (plain t member) (plain u other) above below
    rw [Nodup, pairwise_map]
    constructor
    · intro apart
      exact (iff.and apart).imp fun both => both.1.mp both.2
    · intro different
      exact (iff.and different).imp fun both => both.1.mpr both.2

def twoEntries : SortedMap String String := .ofList [("admin", "admin.js"), ("site", "site.js")]

def twoTargets : ProjectConfig where
  output := { entryFile := .named twoEntries }

theorem named_targets_apart : ∃ build files', prepare {} ⟨"/w"⟩ "pages" twoTargets = .ok (build, files') ∧
    build.targets.length = 2 ∧ build.targets.Pairwise Apart := by
  have named : (prepare {} ⟨"/w"⟩ "pages" twoTargets).toOption.map (fun found => found.1.targets.map (·.name)) =
      some ["admin", "site"] := by decide +kernel
  cases prepared : prepare {} ⟨"/w"⟩ "pages" twoTargets with
  | error e =>
    rw [prepared] at named
    cases named
  | ok found =>
    obtain ⟨build, files'⟩ := found
    rw [prepared] at named
    have names : build.targets.map (·.name) = ["admin", "site"] := Option.some.inj named
    have plain : ∀ t ∈ build.targets, IsName t.name := by
      intro t member
      have listed : t.name ∈ build.targets.map (·.name) := mem_map_of_mem member
      rw [names, mem_cons, mem_singleton] at listed
      rcases listed with same | same
      all_goals
        rw [same]
        refine ⟨?_, rfl, by decide⟩
        unfold IsSegment
        decide
    have files : (build.targets.map fun t => OutputCache.fileName t.name) = ["admin.json", "site.json"] := by
      show build.targets.map (OutputCache.fileName ∘ (·.name)) = _
      rw [← List.map_map, names]
      decide
    have iff := (targets_apart_as_named prepared).2.1 plain (by decide) (by decide)
    refine ⟨build, files', rfl, ?_, iff.mpr ?_⟩
    · rw [← length_map (·.name), names]
      rfl
    · rw [files]
      decide

/-- Files of one name in two directories, found by one pattern. -/
def twoPages : FileTree :=
  ⟨.ofList [(["w"], .directory), (["w", "src"], .directory), (["w", "src", "pages"], .directory),
    (["w", "src", "pages", "a"], .directory), (["w", "src", "pages", "a", "index.js"], .file (.text "")),
    (["w", "src", "pages", "b"], .directory), (["w", "src", "pages", "b", "index.js"], .file (.text ""))]⟩

def patternTargets : ProjectConfig where
  output := { entryFile := .named (.ofList [("pages", "pages/*/index.js")]) }

/-- Both have the name of the file, and so one output folder and one cache file. -/
theorem stem_shared_by_targets :
    (prepare twoPages ⟨"/w"⟩ "site" patternTargets).toOption.map
      (fun found => found.1.targets.map fun t => (t.entry.text, t.outDir.text, t.cache.path.text)) =
      some [("/w/src/pages/a/index.js", "/w/dist/index", "/w/.loom/cache/dist-index.json"),
        ("/w/src/pages/b/index.js", "/w/dist/index", "/w/.loom/cache/dist-index.json")] := by
  decide +kernel

end ProjectBuild
end ComponentCompiler
