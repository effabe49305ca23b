import ComponentCompiler.Proofs.Collection.SortedMap
import ComponentCompiler.Proofs.Files.Parent

/-!
What changes of a tree do: directories are made on the way of a path (`Grown`), a file is written at
its end (`writeDeep_ok`), and nothing else changes (`item?_writeDeep`).
-/

namespace ComponentCompiler.FileTree

open List

open Path

variable {tree tree' : FileTree} {p : Path}
variable {location : Location}

/-! ### One entry -/

theorem item?_put (inside : location ≠ []) (entry : FileEntry) (other) :
    (tree.put location entry).item? other = if other = location then some entry else tree.item? other := by
  unfold item? put
  by_cases root : other.isEmpty
  · have different : other ≠ location := by
      rw [List.isEmpty_iff.mp root]
      exact inside.symm
    rw [if_pos root, if_pos root, if_neg different]
  · rw [if_neg root, if_neg root, SortedMap.get?_insert]
    simp

theorem dropSeparators_append (segments) :
    ∃ after, segments = dropSeparators segments ++ after ∧ ∀ segment ∈ after, segment = "" := by
  refine ⟨segments.rtakeWhile (·.isEmpty), rdropWhile_append_rtakeWhile.symm, fun segment mem => ?_⟩
  have empty : segment.isEmpty := mem_rtakeWhile_imp mem
  simpa using empty

theorem dropSeparators_concat (concat : dropSeparators segments = before ++ [name]) : name ≠ "" := by
  simpa using not_of_rdropWhile (p := (·.isEmpty)) concat

theorem newPlace_ok (h : tree.newPlace p = .ok (some (dir, name))) :
    ∃ before after, segments? p = .ok p.body ∧ p.body = before ++ name :: after ∧ (∀ segment ∈ after, segment = "") ∧
      tree.follow [] before = .ok dir ∧ tree.hasDirectory dir ∧ isTrivial name = false ∧ name ≠ ".." ∧
      p.location = dir ++ [name] := by
  unfold newPlace at h
  cases split : segments? p with
  | error cause =>
    rw [split] at h
    cases h
  | ok segments =>
    obtain rfl := (segments?_ok split).2
    obtain ⟨after, body, separators⟩ := dropSeparators_append p.body
    rw [split] at h
    simp only [bind, Except.bind] at h
    rcases eq_nil_or_concat (dropSeparators p.body) with none | ⟨before, last, concat⟩
    · rw [none] at h
      cases h
    · rw [concat_eq_append] at concat
      simp only [concat, getLast?_concat, dropLast_concat] at h
      cases reached : tree.follow [] before with
      | error cause =>
        rw [reached] at h
        cases h
      | ok found =>
        rw [reached] at h
        dsimp only at h
        split at h
        · cases h
        · rename_i directory
          split at h
          · cases h
          · rename_i plain
            cases h
            simp only [Bool.or_eq_true, beq_iff_eq, not_or] at plain
            have filled := dropSeparators_concat concat
            have nontrivial : isTrivial name = false := by simp [isTrivial, filled, plain.1]
            have whole : p.body = before ++ name :: after := by
              rw [concat, append_assoc] at body
              exact body
            refine ⟨before, after, rfl, whole, separators, reached, by simpa using directory, nontrivial, plain.2, ?_⟩
            rw [location, whole, foldl_append, foldl_cons, ← follow_advance reached,
              advance_name nontrivial plain.2, foldl_advance_trivial]
            intro segment mem
            rw [separators segment mem]
            rfl

theorem makeDirectory_ok (h : tree.makeDirectory p = .ok tree') :
    p.location ≠ [] ∧ tree.item? p.location = none ∧ tree' = tree.put p.location .directory := by
  unfold makeDirectory at h
  cases place : tree.newPlace p with
  | error cause =>
    rw [place] at h
    cases h
  | ok found =>
    rw [place] at h
    cases found with
    | none => cases h
    | some found =>
      obtain ⟨dir, name⟩ := found
      obtain ⟨_, _, -, -, -, -, -, -, -, location⟩ := newPlace_ok place
      simp only [bind, Except.bind] at h
      rw [← location] at h
      split at h
      · cases h
      · split at h
        · cases h
        · rename_i absent
          cases h
          exact ⟨by simp [location], by simpa using absent, rfl⟩

/-! ### Directories -/

/-- The second tree is the first one with directories made at some of the locations, where nothing was. -/
def Grown (way : List Location) (tree tree' : FileTree) : Prop :=
  ∀ location, tree'.item? location = tree.item? location ∨
    location ∈ way ∧ tree.item? location = none ∧ tree'.item? location = some .directory

namespace Grown

variable {way : List Location}

theorem refl (way) (tree) : Grown way tree tree := fun _ => .inl rfl

theorem trans (first : Grown way tree tree') (second : Grown way tree' tree'') : Grown way tree tree'' := by
  intro location
  rcases first location with same | ⟨mem, absent, made⟩
  · rcases second location with same' | ⟨mem, absent, made⟩
    · exact .inl (same'.trans same)
    · exact .inr ⟨mem, same ▸ absent, made⟩
  · rcases second location with same' | ⟨-, absent', -⟩
    · exact .inr ⟨mem, absent, same'.trans made⟩
    · rw [made] at absent'
      cases absent'

theorem mono (grown : Grown way tree tree') (inside : ∀ location ∈ way, location ∈ way') : Grown way' tree tree' := by
  intro location
  rcases grown location with same | ⟨mem, made⟩
  · exact .inl same
  · exact .inr ⟨inside location mem, made⟩

theorem kept (grown : Grown way tree tree') {location : Location} (held : tree.item? location = some entry) :
    tree'.item? location = some entry := by
  rcases grown location with same | ⟨-, absent, -⟩
  · exact same.trans held
  · rw [held] at absent
    cases absent

theorem item?_file (grown : Grown way tree tree') (location) (content) :
    tree'.item? location = some (.file content) ↔ tree.item? location = some (.file content) := by
  constructor
  · intro held
    rcases grown location with same | ⟨-, -, made⟩
    · exact same ▸ held
    · rw [made] at held
      cases held
  · exact grown.kept

end Grown

theorem grown_makeDirectory (h : tree.makeDirectory p = .ok tree') : Grown p.way tree tree' := by
  obtain ⟨inside, absent, rfl⟩ := makeDirectory_ok h
  intro location
  rw [item?_put inside]
  split
  · rename_i same
    exact .inr ⟨same ▸ p.location_mem_way, same ▸ absent, rfl⟩
  · exact .inl rfl

theorem grown_ensureDirectory (tree) (p : Path) : Grown p.way tree (tree.ensureDirectory p).2 := by
  unfold ensureDirectory
  split
  · rename_i made
    exact grown_makeDirectory made
  · exact .refl _ _

/-! A relative path leads nowhere, and nothing is made for it. -/

theorem ensureDirectory_relative (relative : p.isAbsolute = false) : (tree.ensureDirectory p).2 = tree := by
  have absent : ∀ segments, segments? p ≠ .ok segments := by
    intro segments split
    have absolute := (segments?_ok split).1
    rw [relative] at absolute
    cases absolute
  unfold ensureDirectory
  split
  · rename_i made
    unfold makeDirectory newPlace at made
    cases split : segments? p with
    | error cause =>
      rw [split] at made
      cases made
    | ok segments => exact (absent segments split).elim
  · rfl

theorem makeDirectoriesWithin_relative (fuel) (tree) (relative : p.isAbsolute = false) :
    (makeDirectoriesWithin fuel tree p).2 = tree := by
  induction fuel generalizing tree p with
  | zero => exact ensureDirectory_relative relative
  | succ fuel ih =>
    unfold makeDirectoriesWithin
    split
    · rfl
    · split
      · rename_i parent _ above
        have unchanged := ih tree (isAbsolute_parent relative above)
        split
        · rename_i result
          rw [result] at unchanged
          rw [ensureDirectory_relative relative]
          exact unchanged
        · exact unchanged
      · exact ensureDirectory_relative relative

theorem grown_makeDirectoriesWithin (fuel) (tree) (p : Path) :
    Grown p.way tree (makeDirectoriesWithin fuel tree p).2 := by
  induction fuel generalizing tree p with
  | zero => exact grown_ensureDirectory tree p
  | succ fuel ih =>
    cases absolute : p.isAbsolute with
    | false =>
      rw [makeDirectoriesWithin_relative _ tree absolute]
      exact .refl _ _
    | true =>
      unfold makeDirectoriesWithin
      split
      · exact .refl _ _
      · split
        · rename_i parent _ above
          have grown := (ih tree parent).mono fun _ => way_parent absolute above
          split
          · rename_i result
            rw [result] at grown
            exact grown.trans (grown_ensureDirectory _ p)
          · exact grown
        · exact grown_ensureDirectory tree p

theorem grown_makeParents (tree) (p : Path) : Grown p.way tree (tree.makeParents p).2 := by
  unfold makeParents
  split
  · exact .refl _ _
  · rename_i parent above
    cases absolute : p.isAbsolute with
    | true => exact (grown_makeDirectoriesWithin _ tree parent).mono fun _ => way_parent absolute above
    | false =>
      have unchanged := makeDirectoriesWithin_relative parent.components.length tree
        (isAbsolute_parent absolute above)
      dsimp only [makeDirectories]
      rw [unchanged]
      exact .refl _ _

/-! ### Files -/

theorem extends_put (inside : location ≠ []) (free : tree.hasDirectory location = false) (content) :
    Extends tree (tree.put location (.file content)) where
  directory {other} held := by
    rw [item?_put inside]
    split
    · rename_i same
      rw [hasDirectory, ← same, held] at free
      cases free
    · exact held
  file {other content'} held := by
    rw [item?_put inside]
    split
    · exact ⟨content, rfl⟩
    · exact ⟨content', held⟩

theorem newPlace_of_write (h : tree.write p content = .ok tree') : ∃ place, tree.newPlace p = .ok (some place) := by
  unfold write at h
  cases place : tree.newPlace p with
  | error cause =>
    rw [place] at h
    cases h
  | ok found =>
    cases found with
    | none =>
      rw [place] at h
      cases h
    | some found => exact ⟨found, rfl⟩

theorem write_ok (h : tree.write p content = .ok tree') :
    p.location ≠ [] ∧ tree.hasDirectory p.location = false ∧ tree' = tree.put p.location (.file content) ∧
      tree'.lookup p = .ok (.file content) := by
  obtain ⟨⟨dir, name⟩, place⟩ := newPlace_of_write h
  obtain ⟨before, after, segments, body, separators, reached, directory, nontrivial, notUp, location⟩ :=
    newPlace_ok place
  have inside : p.location ≠ [] := by simp [location]
  rw [write, place] at h
  simp only [bind, Except.bind] at h
  rw [← location] at h
  split at h
  · cases h
  · rename_i plain
    split at h
    · cases h
    · rename_i short
      split at h
      · cases h
      · rename_i free
        cases h
        have free : tree.hasDirectory p.location = false := by simpa using free
        refine ⟨inside, free, rfl, ?_⟩
        have extend := extends_put inside free content
        have held : (tree.put p.location (.file content)).item? p.location = some (.file content) := by
          rw [item?_put inside, if_pos rfl]
        have last : after = [] := by
          rcases eq_nil_or_concat after with none | ⟨more, empty, concat⟩
          · exact none
          · rw [concat_eq_append] at concat
            have empty := separators empty (by rw [concat]; simp)
            rw [concat, empty, ← cons_append, ← append_assoc] at body
            rw [endsWith_separator (segments?_ok segments).1 body] at plain
            cases plain rfl
        rw [lookup_eq_ok]
        refine ⟨?_, held⟩
        rw [locate, segments]
        change FileTree.follow _ [] p.body = _
        rw [body, last, follow_append_ok, ← follow_advance reached]
        refine ⟨extend.follow reached, ?_⟩
        rw [follow, step, extend.hasDirectory directory, nontrivial]
        simp only [Bool.not_true, Bool.false_eq_true, if_false, beq_iff_eq, notUp, short, ← location, held,
          Option.isSome_some, if_true, follow]
        rfl

theorem writeDeep_ok (h : tree.writeDeep p content = (.ok (), tree')) :
    ∃ middle, Grown p.way tree middle ∧ p.location ≠ [] ∧ middle.hasDirectory p.location = false ∧
      tree' = middle.put p.location (.file content) ∧ tree'.lookup p = .ok (.file content) := by
  have grown := grown_makeParents tree p
  unfold writeDeep at h
  split at h
  · rename_i middle made
    rw [made] at grown
    split at h
    · rename_i written
      cases h
      exact ⟨middle, grown, write_ok written⟩
    · cases h
  · rename_i failed
    rw [h] at failed
    cases failed () tree' rfl

theorem grown_writeDeep_error {failure : FileFailure} (h : tree.writeDeep p content = (.error failure, tree')) :
    Grown p.way tree tree' := by
  have grown := grown_makeParents tree p
  unfold writeDeep at h
  split at h
  · rename_i middle made
    rw [made] at grown
    split at h
    · cases h
    · cases h
      exact grown
  · rw [h] at grown
    exact grown

theorem item?_writeDeep (apart : location ∈ p.way → tree.item? location = some .directory) :
    (tree.writeDeep p content).2.item? location = tree.item? location := by
  have grown : ∀ {middle}, Grown p.way tree middle → middle.item? location = tree.item? location := by
    intro middle grown
    rcases grown location with same | ⟨mem, absent, -⟩
    · exact same
    · rw [apart mem] at absent
      cases absent
  cases h : tree.writeDeep p content with
  | mk result tree' =>
    cases result with
    | error failure => exact grown (grown_writeDeep_error h)
    | ok done =>
      obtain ⟨middle, made, inside, free, rfl, -⟩ := writeDeep_ok h
      rw [item?_put inside, if_neg, grown made]
      rintro rfl
      have directory := made.kept (apart p.location_mem_way)
      rw [hasDirectory, directory] at free
      cases free

theorem item?_writeDeep_file (other : location ≠ p.location) {held : FileContent} :
    (tree.writeDeep p content).2.item? location = some (.file held) ↔ tree.item? location = some (.file held) := by
  cases h : tree.writeDeep p content with
  | mk result tree' =>
    cases result with
    | error failure => exact (grown_writeDeep_error h).item?_file location held
    | ok done =>
      obtain ⟨middle, made, inside, free, rfl, -⟩ := writeDeep_ok h
      rw [item?_put inside, if_neg other]
      exact made.item?_file location held

/-! ### Removal -/

theorem item?_removeLocation (tree : FileTree) (location other) :
    (tree.removeLocation location).item? other =
      if other ≠ [] ∧ location <+: other then none else tree.item? other := by
  unfold item? removeLocation
  by_cases root : other = []
  · simp [root]
  · have held : other.isEmpty = false := by simpa using root
    rw [held]
    simp only [Bool.false_eq_true, if_false, SortedMap.get?_filter, ne_eq, root, not_false_eq_true, true_and]
    by_cases inside : location <+: other
    · rw [if_pos inside, isPrefixOf_iff_prefix.mpr inside]
      cases tree.entries.get? other <;> rfl
    · have outside : isPrefixOf location other = false := by
        rw [← Bool.not_eq_true, isPrefixOf_iff_prefix]
        exact inside
      rw [if_neg inside, outside]
      cases tree.entries.get? other <;> rfl

theorem item?_remove (h : (tree.remove p).item? location = some entry) : tree.item? location = some entry := by
  unfold remove at h
  split at h
  · rw [item?_removeLocation] at h
    split at h
    · cases h
    · exact h
  · exact h

end ComponentCompiler.FileTree
