import ComponentCompiler.Files.Tree
import ComponentCompiler.Proofs.Files.Path

/-!
The clean paths of what a tree holds. Each location has two, since a parent step above the root
leads nowhere else.
-/

namespace ComponentCompiler

open List

namespace Path

def locationComponents (above : Bool) (location : Location) : List PathComponent :=
  [.root] ++ (if above then [.up] else []) ++ location.map .name

def ofLocation (above : Bool) (location : Location) : Path := ofComponents (locationComponents above location)

end Path

namespace FileTree

open Path
variable {tree : FileTree} {location next : Location} {segment : String}

theorem step_clean (above) (h : tree.step location segment = .ok next) :
    ∃ above', (named [segment]).foldl cleanStep (locationComponents above location) =
      locationComponents above' next := by
  rw [step] at h
  split at h
  · cases h
  · split at h
    · rename_i trivial
      cases h
      exact ⟨above, by simp [named, trivial]⟩
    · rename_i nontrivial
      have single : named [segment] = [componentOf segment] := by simp [named, nontrivial]
      rw [single, foldl_cons, foldl_nil]
      split at h
      · rename_i up
        have same : segment = ".." := by simpa using up
        cases h
        subst same
        change ∃ above', stepUp _ = _
        rcases eq_nil_or_concat location with rfl | ⟨before, name, rfl⟩
        · cases above
          · exact ⟨true, rfl⟩
          · exact ⟨false, rfl⟩
        · refine ⟨above, ?_⟩
          rw [locationComponents, concat_eq_append, map_append, ← append_assoc,
            map_singleton, stepUp_append_name, dropLast_concat]
          rfl
      · rename_i notUp
        have name : componentOf segment = .name segment := by
          rw [componentOf, if_neg notUp]
        split at h
        · cases h
        · split at h
          · cases h
            exact ⟨above, by simp [name, cleanStep, locationComponents]⟩
          · cases h

theorem follow_clean (above) (h : tree.follow location segments = .ok final) :
    ∃ above', (named segments).foldl cleanStep (locationComponents above location) =
      locationComponents above' final := by
  induction segments generalizing location above with
  | nil =>
    cases h
    exact ⟨above, rfl⟩
  | cons segment rest ih =>
    rw [follow] at h
    cases taken : tree.step location segment with
    | error cause => rw [taken] at h; cases h
    | ok next =>
      rw [taken] at h
      obtain ⟨above₁, first⟩ := step_clean above taken
      obtain ⟨above₂, later⟩ := ih above₁ h
      refine ⟨above₂, ?_⟩
      have split : named (segment :: rest) = named [segment] ++ named rest := by
        simp only [named, ← map_append, ← filter_append, singleton_append]
      rw [split, foldl_append, first, later]

theorem locate_clean (h : tree.locate p = .ok location) : ∃ above, p.clean = ofLocation above location := by
  rw [locate] at h
  cases split : segments? p with
  | error cause => rw [split] at h; cases h
  | ok segments =>
    rw [split] at h
    rw [segments?] at split
    split at split
    · cases split
    · split at split
      · rename_i absolute
        cases split
        obtain ⟨above, final⟩ := follow_clean false h
        refine ⟨above, ?_⟩
        have lead : p.lead = some .root := by rw [lead, if_pos absolute]
        rw [clean, ofLocation, ← final, components, cleanComponents, lead]
        rfl
      · cases split

def cleanPaths (tree : FileTree) : List Path :=
  tree.entries.keys.flatMap fun location => [ofLocation false location, ofLocation true location]

theorem length_cleanPaths (tree : FileTree) : tree.cleanPaths.length = 2 * tree.entries.size := by
  have constant : ∀ locations : List Location,
      (locations.flatMap fun location => [ofLocation false location, ofLocation true location]).length =
        2 * locations.length := by
    intro locations
    induction locations with
    | nil => rfl
    | cons location rest ih =>
      rw [flatMap_cons, length_append, ih, length_cons]
      simp only [length_cons, length_nil]
      omega
  rw [cleanPaths, constant, SortedMap.keys, length_map]
  rfl

theorem isFile_location (h : tree.isFile p) :
    ∃ location content, tree.locate p = .ok location ∧ tree.item? location = some (.file content) := by
  rw [isFile, lookup] at h
  cases found : tree.locate p with
  | error cause => simp [found, bind, Except.bind] at h
  | ok location =>
    rw [found] at h
    cases held : tree.item? location with
    | none => simp [held, bind, Except.bind] at h
    | some entry =>
      cases entry with
      | file content => exact ⟨location, content, rfl, held⟩
      | directory => simp [held, bind, Except.bind] at h

theorem mem_cleanPaths_of_isFile (h : tree.isFile p) : p.clean ∈ tree.cleanPaths := by
  obtain ⟨location, content, found, held⟩ := isFile_location h
  have key : location ∈ tree.entries.keys := by
    unfold item? at held
    split at held
    · cases held
    · obtain ⟨entry, located, -⟩ := Option.map_eq_some_iff.mp held
      have equal := find?_some located
      have same : location = entry.1 := by simpa using equal
      exact mem_map.mpr ⟨entry, mem_of_find?_eq_some located, same.symm⟩
  obtain ⟨above, same⟩ := locate_clean found
  rw [cleanPaths, mem_flatMap]
  exact ⟨location, key, by cases above <;> simp [same]⟩

end FileTree

end ComponentCompiler
