import ComponentCompiler.Output.Cache
import ComponentCompiler.Proofs.Files.Change
import ComponentCompiler.Proofs.Json.Reading

/-! What one action on the output does. -/

namespace ComponentCompiler

namespace OutputCache

theorem digestsOfText?_document (cache : OutputCache) : digestsOfText? cache.document.pretty = some cache.digests := by
  have document : cache.document = .obj [("hashes", .obj (Json.textMembers cache.digests.entries))] := rfl
  have decoded : ∀ entries : List (String × String),
      (Json.textMembers entries).mapM (fun entry => (Decoder.string entry.2).map (entry.1, ·)) = some entries := by
    intro entries
    induction entries with
    | nil => rfl
    | cons entry rest ih =>
      rw [Json.textMembers, List.map_cons, List.mapM_cons]
      rw [Json.textMembers] at ih
      rw [ih]
      rfl
  have digests : Decoder.map Decoder.string (.obj (Json.textMembers cache.digests.entries)) = some cache.digests := by
    rw [Decoder.map]
    simp only [decoded, Option.bind_eq_bind, Option.bind_some, SortedMap.ofList_entries]
    rfl
  have read : Json.readAs shape (Json.pretty (.obj [("hashes", .obj (Json.textMembers cache.digests.entries))])) = _ :=
    Json.readAs_textObject "hashes" cache.digests.entries
  rw [digestsOfText?, Json.decode?, document, read]
  exact digests

end OutputCache

namespace OutputState

variable {s : OutputState}

theorem put_ok (h : s.put path content = (.ok (), s')) :
    s'.cache = s.cache ∧ s.files.writeDeep path content = (.ok (), s'.files) := by
  unfold put at h
  cases written : s.files.writeDeep path content with
  | mk result files =>
    rw [written] at h
    cases result with
    | error failure => cases h
    | ok done =>
      cases h
      exact ⟨rfl, rfl⟩

theorem put_error (h : s.put path content = (.error e, s')) :
    s'.cache = s.cache ∧ ∃ failure, s.files.writeDeep path content = (.error failure, s'.files) := by
  unfold put at h
  cases written : s.files.writeDeep path content with
  | mk result files =>
    rw [written] at h
    cases result with
    | error failure =>
      cases h
      exact ⟨rfl, failure, rfl⟩
    | ok done => cases h

theorem write_ok_true (h : s.write path content = (.ok true, s')) :
    s'.cache = { s.cache with digests := s.cache.digests.insert path.text (Sha256.digest content.bytes) } ∧
      s.files.writeDeep path content = (.ok (), s'.files) := by
  unfold write at h
  dsimp only at h
  split at h
  · cases h
  · cases placed : s.put path content with
    | mk result middle =>
      rw [placed] at h
      cases result with
      | error cause => cases h
      | ok done =>
        cases h
        obtain ⟨cache, written⟩ := put_ok placed
        exact ⟨by rw [record, cache], written⟩

theorem write_ok_false (h : s.write path content = (.ok false, s')) :
    s' = s ∧ s.isCurrent path (Sha256.digest content.bytes) := by
  unfold write at h
  dsimp only at h
  split at h
  · rename_i current
    cases h
    exact ⟨rfl, current⟩
  · cases placed : s.put path content with
    | mk result middle =>
      rw [placed] at h
      cases result <;> cases h

theorem write_error (h : s.write path content = (.error e, s')) :
    s'.cache = s.cache ∧ ∃ failure, s.files.writeDeep path content = (.error failure, s'.files) := by
  unfold write at h
  dsimp only at h
  split at h
  · cases h
  · cases placed : s.put path content with
    | mk result middle =>
      rw [placed] at h
      cases result with
      | error cause =>
        cases h
        exact put_error placed
      | ok done => cases h

theorem isCurrent_iff :
    s.isCurrent path digest ↔ s.files.isFile path ∧ s.cache.digests.get? path.text = some digest := by
  simp [isCurrent]

theorem path_openCache (files) (dir) (target) :
    (openCache files dir target).cache.path = dir.join (OutputCache.fileName target) := by
  unfold openCache
  generalize dir.join (OutputCache.fileName target) = path
  dsimp only
  split
  · rfl
  · split <;> rfl

theorem files_openCache (files) (dir) (target) :
    (openCache files dir target).files = files ∨
      (openCache files dir target).files = files.remove (dir.join (OutputCache.fileName target)) := by
  unfold openCache
  dsimp only
  split
  · exact .inl rfl
  · split
    · exact .inl rfl
    · right
      dsimp only

theorem get?_openCache {files : FileTree} (known : (openCache files dir target).cache.digests.get? key = some digest) :
    ∃ text digests, files.readText (dir.join (OutputCache.fileName target)) = .ok text ∧
      OutputCache.digestsOfText? text = some digests ∧ digests.get? key = some digest := by
  have unknown : (∅ : SortedMap String String).get? key ≠ some digest := by
    rw [SortedMap.get?_empty]
    exact Option.some_ne_none digest |>.symm
  unfold openCache at known
  dsimp only at known
  split at known
  · exact (unknown known).elim
  · rename_i text read
    split at known
    · rename_i digests decoded
      exact ⟨text, digests, read, decoded, known⟩
    · exact (unknown known).elim

end OutputState

end ComponentCompiler
