import ComponentCompiler.Collection.SortedMap

/-!
What a sorted map holds after a change, by `get?`, and what a sorted set holds, by `contains`.
-/

namespace ComponentCompiler

open List Option SortedMap

universe u v w

namespace SortedMap

variable {κ : Type u} {α : Type v} [Ord κ]
variable {entries : List (κ × α)} {key : κ} {value : α} {m : SortedMap κ α}

@[simp]
theorem get?_empty (key : κ) : (∅ : SortedMap κ α).get? key = none := rfl

theorem find?_insertEntry [Std.TransOrd κ] (key : κ) (value : α) (entries) (other : κ) :
    ((insertEntry key value entries).find? fun entry => compare other entry.1 == .eq).map (·.2) =
      if compare other key = .eq then some value
      else (entries.find? fun entry => compare other entry.1 == .eq).map (·.2) := by
  induction entries with
  | nil => by_cases same : compare other key = .eq <;> simp [insertEntry, same]
  | cons head rest ih =>
    rw [insertEntry]
    split
    · by_cases same : compare other key = .eq <;> simp [same, find?_cons]
    · rename_i equal
      have congr : compare other key = compare other head.1 := Std.TransCmp.congr_right equal
      by_cases same : compare other head.1 = .eq <;> simp [congr, same]
    · rename_i greater
      by_cases same : compare other head.1 = .eq
      · have apart : compare other key ≠ .eq := by
          intro equal
          rw [Std.TransCmp.congr_left (Std.OrientedCmp.eq_symm equal), same] at greater
          cases greater
        simp [same, apart]
      · simpa [find?_cons, same] using ih

theorem get?_insert [Std.TransOrd κ] (m : SortedMap κ α) (key other : κ) (value : α) :
    (m.insert key value).get? other = if compare other key = .eq then some value else m.get? other :=
  find?_insertEntry key value m.entries other

theorem find?_eq_some_iff [Std.LawfulEqOrd κ] (sorted : entries.Pairwise fun a b => compare a.1 b.1 = .lt) :
    (entries.find? fun entry => compare key entry.1 == .eq).map (·.2) = some value ↔ (key, value) ∈ entries := by
  induction entries with
  | nil => simp
  | cons head rest ih =>
    obtain ⟨below, sorted⟩ := pairwise_cons.mp sorted
    rw [find?_cons, mem_cons]
    by_cases same : key = head.1
    · subst same
      have later : (head.1, value) ∉ rest := fun mem => by simpa using below _ mem
      simp [later, Prod.ext_iff, eq_comm]
    · have first : (key, value) ≠ head := fun equal => same (congrArg Prod.fst equal)
      have apart : (compare key head.1 == .eq) = false := by simpa using same
      simpa [apart, first] using ih sorted

theorem get?_eq_some_iff [Std.LawfulEqOrd κ] :
    m.get? key = some value ↔ (key, value) ∈ m.entries := find?_eq_some_iff m.sorted

theorem mem_values_iff [Std.LawfulEqOrd κ] : value ∈ m.values ↔ ∃ key, m.get? key = some value := by
  simp only [values, List.mem_map, get?_eq_some_iff]
  constructor
  · rintro ⟨entry, mem, rfl⟩
    exact ⟨entry.1, mem⟩
  · rintro ⟨key, mem⟩
    exact ⟨(key, value), mem, rfl⟩

theorem get?_filter [Std.LawfulEqOrd κ] (m : SortedMap κ α) (keep : κ → α → Bool) (key : κ) :
    (m.filter keep).get? key = (m.get? key).filter (keep key) := by
  ext value
  rw [filter_eq_some_iff, get?_eq_some_iff, get?_eq_some_iff, filter, mem_filter]

theorem get?_erase [Std.LawfulEqOrd κ] (m : SortedMap κ α) (key other : κ) [DecidableEq κ] :
    (m.erase key).get? other = if other = key then none else m.get? other := by
  have kept : (compare key other != .eq) = !decide (other = key) := by
    rw [Bool.eq_iff_iff, bne_iff_ne, Ne, Std.LawfulEqCmp.compare_eq_iff_eq, eq_comm]
    simp
  rw [erase, get?_filter, kept]
  by_cases same : other = key <;> cases m.get? other <;> simp [same]

theorem get?_map (m : SortedMap κ α) (f : κ → α → β) (key : κ) [Std.LawfulEqOrd κ] :
    (m.map f).get? key = (m.get? key).map (f key) := by
  ext value
  simp only [get?_eq_some_iff, map, List.mem_map, map_eq_some_iff, Prod.ext_iff]
  constructor
  · rintro ⟨entry, mem, rfl, rfl⟩
    exact ⟨entry.2, mem, rfl⟩
  · rintro ⟨old, mem, rfl⟩
    exact ⟨(key, old), mem, rfl, rfl⟩

theorem eq_of_mem_iff [Std.TransOrd κ] {xs ys : List (κ × α)} (sorted : xs.Pairwise fun a b => compare a.1 b.1 = .lt)
    (sorted' : ys.Pairwise fun a b => compare a.1 b.1 = .lt) (same : ∀ entry, entry ∈ xs ↔ entry ∈ ys) : xs = ys := by
  have apart : ∀ {a : κ}, compare a a ≠ .lt := fun {a} less => by
    have equal : compare a a = .eq := Std.ReflCmp.compare_self
    cases equal.symm.trans less
  induction xs generalizing ys with
  | nil =>
    cases ys with
    | nil => rfl
    | cons y ys => cases (same y).mpr mem_cons_self
  | cons x xs ih =>
    cases ys with
    | nil => cases (same x).mp mem_cons_self
    | cons y ys =>
      obtain ⟨above, sorted⟩ := pairwise_cons.mp sorted
      obtain ⟨above', rest'⟩ := pairwise_cons.mp sorted'
      have first : x = y := by
        rcases mem_cons.mp ((same x).mp mem_cons_self) with equal | later
        · exact equal
        · rcases mem_cons.mp ((same y).mpr mem_cons_self) with equal | later'
          · exact equal.symm
          · exact (apart (Std.TransCmp.lt_trans (above y later') (above' x later))).elim
      subst first
      refine congrArg (x :: ·) (ih sorted rest' fun entry => ⟨fun mem => ?_, fun mem => ?_⟩)
      · rcases mem_cons.mp ((same entry).mp (mem_cons_of_mem _ mem)) with rfl | later
        · exact (apart (above _ mem)).elim
        · exact later
      · rcases mem_cons.mp ((same entry).mpr (mem_cons_of_mem _ mem)) with rfl | later
        · exact (apart (above' _ mem)).elim
        · exact later

theorem ext_get? [Std.TransOrd κ] [Std.LawfulEqOrd κ] {other : SortedMap κ α}
    (same : ∀ key, m.get? key = other.get? key) : m = other := by
  ext1
  refine eq_of_mem_iff m.sorted other.sorted fun entry => ?_
  rw [← Prod.eta entry, ← get?_eq_some_iff, ← get?_eq_some_iff, same]

theorem map_id (m : SortedMap κ α) : (m.map fun _ value => value) = m := by
  ext1
  exact List.map_id _

theorem map_map (m : SortedMap κ α) (f : κ → α → β) (g : κ → β → γ) :
    (m.map f).map g = m.map fun key value => g key (f key value) := by
  ext1
  exact List.map_map

theorem size_map (m : SortedMap κ α) (f : κ → α → β) : (m.map f).size = m.size := length_map _

theorem values_map (m : SortedMap κ α) (f : α → β) : (m.map fun _ => f).values = m.values.map f := by
  simp [values, map, Function.comp_def]

theorem map_insert [Std.TransOrd κ] (m : SortedMap κ α) (f : α → β) (key : κ) (value : α) :
    ((m.insert key value).map fun _ => f) = (m.map fun _ => f).insert key (f value) := by
  ext1
  change (insertEntry key value m.entries).map _ = insertEntry key (f value) (m.entries.map _)
  induction m.entries with
  | nil => rfl
  | cons head rest ih =>
    simp only [insertEntry, map_cons]
    split
    · rfl
    · rfl
    · rw [map_cons, ih]

theorem find?_insertMany [Std.TransOrd κ] [Std.LawfulEqOrd κ]
    (sorted : entries.Pairwise fun a b => compare a.1 b.1 = .lt) (m : SortedMap κ α) (key : κ) :
    (m.insertMany entries).get? key =
      ((entries.find? fun entry => compare key entry.1 == .eq).map (·.2)).or (m.get? key) := by
  induction entries generalizing m with
  | nil => rfl
  | cons head rest ih =>
    obtain ⟨below, sorted⟩ := pairwise_cons.mp sorted
    have next : m.insertMany (head :: rest) = (m.insert head.1 head.2).insertMany rest := rfl
    rw [next, ih sorted, get?_insert, find?_cons]
    by_cases same : compare key head.1 = .eq
    · have later : rest.find? (fun entry => compare key entry.1 == .eq) = none := by
        rw [find?_eq_none]
        intro entry mem equal
        have less := below entry mem
        rw [← Std.TransCmp.congr_left same, beq_iff_eq.mp equal] at less
        cases less
      simp [same, later]
    · have apart : (compare key head.1 == .eq) = false := by simpa using same
      simp [same, apart]

theorem get?_insertMany [Std.TransOrd κ] [Std.LawfulEqOrd κ] (m others : SortedMap κ α) (key : κ) :
    (m.insertMany others.entries).get? key = (others.get? key).or (m.get? key) := find?_insertMany others.sorted m key

theorem ofList_entries [Std.TransOrd κ] [Std.LawfulEqOrd κ] (m : SortedMap κ α) : ofList m.entries = m := by
  apply ext_get?
  intro key
  have inserted : (ofList m.entries).get? key = (m.get? key).or none := get?_insertMany empty m key
  rw [inserted, or_none]

theorem mem_values_insert [Std.TransOrd κ] [Std.LawfulEqOrd κ] (mem : other ∈ (m.insert key value).values) :
    other = value ∨ other ∈ m.values := by
  obtain ⟨found, here⟩ := mem_values_iff.mp mem
  rw [get?_insert] at here
  split at here
  · exact .inl (some.inj here).symm
  · exact .inr (mem_values_iff.mpr ⟨found, here⟩)

theorem mem_keys_iff [Std.LawfulEqOrd κ] : key ∈ m.keys ↔ m.contains key := by
  simp only [keys, contains, get?, isSome_map, find?_isSome, List.mem_map, beq_iff_eq,
    Std.LawfulEqCmp.compare_eq_iff_eq]
  constructor
  · rintro ⟨entry, mem, rfl⟩
    exact ⟨entry, mem, rfl⟩
  · rintro ⟨entry, mem, rfl⟩
    exact ⟨entry, mem, rfl⟩

@[simp]
theorem contains_empty (key : κ) : (∅ : SortedMap κ α).contains key = false := rfl

theorem contains_insert [Std.TransOrd κ] [Std.LawfulEqOrd κ] :
    (m.insert key value).contains other ↔ other = key ∨ m.contains other := by
  rw [contains, get?_insert, contains]
  by_cases same : other = key <;> simp [same]

theorem contains_filter_key [Std.LawfulEqOrd κ] {keep : κ → Bool} :
    (m.filter fun other _ => keep other).contains key ↔ m.contains key ∧ keep key := by
  simp only [← mem_keys_iff, keys, filter, List.mem_map, mem_filter]
  constructor
  · rintro ⟨entry, ⟨mem, kept⟩, rfl⟩
    exact ⟨⟨entry, mem, rfl⟩, kept⟩
  · rintro ⟨⟨entry, mem, rfl⟩, kept⟩
    exact ⟨entry, ⟨mem, kept⟩, rfl⟩

theorem contains_erase [Std.LawfulEqOrd κ] :
    (m.erase key).contains other ↔ m.contains other ∧ other ≠ key := by
  rw [erase, contains_filter_key, bne_iff_ne, Ne, Std.LawfulEqCmp.compare_eq_iff_eq, Ne, eq_comm (a := key)]

end SortedMap

namespace SortedSet

variable {κ : Type u} [Ord κ] [Std.LawfulEqOrd κ] {s : SortedSet κ} {key : κ}
variable {keys : List κ}

theorem mem_toList : key ∈ toList s ↔ s.contains key := mem_keys_iff

theorem nodup_toList (s : SortedSet κ) : (toList s).Nodup := by
  refine pairwise_map.mpr (s.sorted.imp ?_)
  intro a b less same
  have equal : compare a.1 b.1 = .eq := Std.LawfulEqCmp.compare_eq_iff_eq.mpr same
  rw [less] at equal
  cases equal

variable [Std.TransOrd κ]

theorem ext_contains {other : SortedSet κ} (same : ∀ key, s.contains key ↔ other.contains key) :
    s = other := by
  refine ext_get? fun key => ?_
  have same := same key
  simp only [SortedMap.contains] at same
  cases here : get? s key <;> cases there : get? other key <;> simp [here, there] at same ⊢

theorem contains_add : (s.add key).contains other ↔ other = key ∨ s.contains other :=
  SortedMap.contains_insert

theorem contains_addMany : (addMany s keys).contains key ↔ key ∈ keys ∨ s.contains key := by
  unfold addMany
  induction keys generalizing s with
  | nil => simp
  | cons first rest ih =>
    rw [foldl_cons, ih, contains_add, mem_cons]
    constructor
    · rintro (later | here | before)
      · exact .inl (.inr later)
      · exact .inl (.inl here)
      · exact .inr before
    · rintro ((here | later) | before)
      · exact .inr (.inl here)
      · exact .inl later
      · exact .inr (.inr before)

theorem mem_toList_ofList : key ∈ toList (ofList keys) ↔ key ∈ keys := by
  rw [mem_toList, ofList, contains_addMany]
  simp

end SortedSet

end ComponentCompiler
