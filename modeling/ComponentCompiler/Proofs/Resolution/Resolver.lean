import ComponentCompiler.Proofs.Files.Location
import ComponentCompiler.Resolution.Resolver

/-!
What resolution finds is a file of the tree, and what it finds in a package comes from a package
that is there.
-/

namespace ComponentCompiler.Resolver

open Option

variable {r : Resolver}

theorem locateFile_isFile {p found : Path} (h : locateFile tree p = some found) :
    tree.isFile found := List.find?_some h

theorem resolveRelative_isFile (h : r.resolveRelative tree specifier importer = some found) :
    tree.isFile found.path := by
  unfold resolveRelative at h
  obtain ⟨_, located, same⟩ := map_eq_some_iff.mp h
  subst same
  exact locateFile_isFile located

theorem readPackage_isFile (h : readPackage tree dir name = some info) : tree.isFile info.entry := by
  unfold readPackage at h
  obtain ⟨entry, chosen, same⟩ := bind_eq_some_iff.mp h
  simp only [pure_def, some.injEq] at same
  subst same
  rcases or_eq_some_iff.mp chosen with declared | ⟨-, default⟩
  · obtain ⟨_, _, located⟩ := bind_eq_some_iff.mp declared
    exact locateFile_isFile located
  · exact locateFile_isFile default

theorem package?_isFile (h : r.package? tree name = some info) : tree.isFile info.entry := by
  obtain ⟨_, _, read⟩ := bind_eq_some_iff.mp h
  exact readPackage_isFile read

theorem resolvePackage_isFile (h : r.resolvePackage tree specifier = some found) : tree.isFile found.path := by
  unfold resolvePackage at h
  obtain ⟨info, package, h⟩ := bind_eq_some_iff.mp h
  split at h
  · obtain ⟨path, located, same⟩ := bind_eq_some_iff.mp h
    cases same
    exact locateFile_isFile located
  · cases h
    exact package?_isFile package

section

variable (h : r.resolve tree specifier importer = some found)
include h

theorem resolve_isFile : tree.isFile found.path := by
  unfold resolve at h
  split at h
  · exact resolveRelative_isFile h
  · split at h
    · obtain ⟨_, located, same⟩ := map_eq_some_iff.mp h
      subst same
      exact locateFile_isFile located
    · exact resolvePackage_isFile h

theorem package?_of_resolve (package : found.package? = some name) :
    ∃ info, r.package? tree name = some info := by
  unfold resolve at h
  split at h
  · unfold resolveRelative at h
    obtain ⟨_, _, same⟩ := map_eq_some_iff.mp h
    subst same
    cases package
  · split at h
    · obtain ⟨_, _, same⟩ := map_eq_some_iff.mp h
      subst same
      cases package
    · unfold resolvePackage at h
      generalize Specifier.splitPackage specifier = parts at h
      obtain ⟨other, inside⟩ := parts
      obtain ⟨info, known, h⟩ := bind_eq_some_iff.mp h
      cases inside with
      | some path =>
        obtain ⟨_, _, same⟩ := bind_eq_some_iff.mp h
        cases same
        cases package
        exact ⟨info, known⟩
      | none =>
        cases h
        cases package
        exact ⟨info, known⟩

theorem resolve_mem_cleanPaths :
    found.path.clean ∈ tree.cleanPaths := FileTree.mem_cleanPaths_of_isFile (resolve_isFile h)

end

end ComponentCompiler.Resolver
