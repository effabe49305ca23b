import ComponentCompiler.Graph.Basic
import ComponentCompiler.Proofs.Collection.SortedMap
import ComponentCompiler.Proofs.Files.Path

/-! The records and the index of a file graph after a change. -/

namespace ComponentCompiler

open List Option

variable {index : Nat}

theorem countP_lt_countP {α : Type} {p q : α → Bool} {items : List α} (imp : ∀ a ∈ items, p a → q a)
    {a : α} (mem : a ∈ items) (here : q a) (gone : p a = false) :
    items.countP p < items.countP q := by
  obtain ⟨before, after, rfl⟩ := append_of_mem mem
  have first := countP_mono_left fun b inside => imp b (mem_append_left _ inside)
  have second := countP_mono_left fun b inside =>
    imp b (mem_append_right _ (mem_cons_of_mem _ inside))
  simp only [countP_append, countP_cons, here, gone]
  simp only [reduceIte, Bool.false_eq_true]
  omega

theorem FileRecord.blank_eq_iff {a b : FileRecord} : a.blank = b.blank ↔
    a.id = b.id ∧ a.path = b.path ∧ a.parent = b.parent ∧ a.lazyRoot = b.lazyRoot ∧ a.package = b.package := by
  simp [blank]

theorem FileRecord.importTarget?_eq_some_iff {r : FileRecord} :
    r.importTarget? index = some target ↔ r.importTargets[index]? = some (some target) := join_eq_some_iff

theorem FileRecord.lt_of_importTarget? {r : FileRecord} (leads : r.importTarget? index = some target) :
    index < r.importTargets.length :=
  (List.getElem?_eq_some_iff.mp (importTarget?_eq_some_iff.mp leads)).1

namespace FileGraph

variable {i : Nat} {r : FileRecord}

theorem get?_eq_some_lt {g : FileGraph} (h : g.get? i = some r) : i < g.size :=
  (List.getElem?_eq_some_iff.mp h).1

theorem get?_of_lt {g : FileGraph} (h : i < g.size) : ∃ r, g.get? i = some r :=
  ⟨g.records[i], getElem?_eq_getElem h⟩

theorem mem_records_iff {g : FileGraph} : r ∈ g.records ↔ ∃ i, g.get? i = some r :=
  mem_iff_getElem?

def newRecord (g : FileGraph) (path : Path) (parent lazyRoot : Option Nat) (package : Option String) : FileRecord where
  id := g.size
  path := path
  parent := parent
  lazyRoot := lazyRoot
  package := package

variable {g : FileGraph} {path : Path}

@[simp]
theorem size_push : (g.push path parent lazyRoot package).size = g.size + 1 := by
  simp [size, push]

theorem get?_push (i) : (g.push path parent lazyRoot package).get? i =
    if i = g.size then some (g.newRecord path parent lazyRoot package) else g.get? i := by
  rw [get?, push]
  by_cases last : i = g.size
  · simp [last, size, newRecord]
  · rw [if_neg last, get?, getElem?_append]
    split
    · rfl
    · rename_i outside
      have past : g.size < i := by simp only [size] at last ⊢; omega
      have none : g.records[i]? = none := List.getElem?_eq_none_iff.mpr (by simp only [size] at past; omega)
      rw [none, List.getElem?_eq_none_iff]
      simp only [size] at past
      simp only [length_cons, length_nil]
      omega

theorem get?_push_self : (g.push path parent lazyRoot package).get? g.size =
    some (g.newRecord path parent lazyRoot package) := by
  rw [get?_push, if_pos rfl]

theorem get?_push_of_some (h : g.get? i = some r) : (g.push path parent lazyRoot package).get? i = some r := by
  have inside := get?_eq_some_lt h
  rw [get?_push, if_neg (by omega), h]

theorem lookup?_push (p) : (g.push path parent lazyRoot package).lookup? p =
    if p.components = path.components then some g.size else g.lookup? p := by
  simp only [lookup?, push, SortedMap.get?_insert, Path.compare_eq_iff]

variable {id : Nat}

@[simp]
theorem size_update : (g.update id f).size = g.size := by
  simp [size, update]

theorem get?_update (i) : (g.update id f).get? i = if i = id then (g.get? i).map f else g.get? i := by
  rw [get?, update, getElem?_modify, get?]
  by_cases same : i = id
  · subst same
    cases g.records[i]? <;> simp
  · have other : id ≠ i := Ne.symm same
    cases g.records[i]? <;> simp [same, other]

theorem get?_update_self : (g.update id f).get? id = (g.get? id).map f := by
  rw [get?_update, if_pos rfl]

theorem get?_update_of_ne (other : i ≠ id) : (g.update id f).get? i = g.get? i := by
  rw [get?_update, if_neg other]

@[simp]
theorem lookup?_update (p) : (g.update id f).lookup? p = g.lookup? p := rfl

theorem update_update : (g.update id f).update id h = g.update id (h ∘ f) := by
  simp [update, modify_modify_eq]

theorem update_id : g.update id (fun r => r) = g := by
  have same : g.records.modify id (fun r => r) = g.records := modify_id id g.records
  simp [update, same]

theorem blank_get?_update (g : FileGraph) (id) (kept : ∀ r, (f r).blank = r.blank) (i) :
    ((g.update id f).get? i).map (·.blank) = (g.get? i).map (·.blank) := by
  rw [get?_update]
  split
  · simp [Function.comp_def, kept]
  · rfl

theorem get?_of_get?_update (kept : ∀ r, (f r).blank = r.blank) (held : (g.update id f).get? i = some r) :
    ∃ old, g.get? i = some old ∧ r.blank = old.blank := by
  have places := blank_get?_update g id kept i
  rw [held] at places
  obtain ⟨old, before, same⟩ := map_eq_some_iff.mp places.symm
  exact ⟨old, before, same.symm⟩

theorem get?_update_of_get? (kept : ∀ r, (f r).blank = r.blank) (before : g.get? i = some old) :
    ∃ r, (g.update id f).get? i = some r ∧ r.blank = old.blank := by
  have places := blank_get?_update g id kept i
  rw [before] at places
  exact map_eq_some_iff.mp places

structure Coherent (g : FileGraph) : Prop where
  ids : ∀ {i r}, g.get? i = some r → r.id = i
  clean : ∀ {i r}, g.get? i = some r → r.path.clean = r.path
  index : ∀ {p i}, g.lookup? p = some i ↔ ∃ r, g.get? i = some r ∧ r.path.components = p.components

theorem coherent_empty : Coherent {} where
  ids h := by cases h
  clean h := by cases h
  index := by
    intro p i
    constructor
    · intro h; cases h
    · rintro ⟨r, h, -⟩; cases h

section

variable (coherent : g.Coherent)
include coherent

theorem Coherent.lookup?_lt (h : g.lookup? p = some i) : i < g.size := by
  obtain ⟨r, held, -⟩ := coherent.index.mp h
  exact get?_eq_some_lt held

theorem Coherent.lookup?_path (h : g.get? i = some r) :
    g.lookup? r.path = some i := coherent.index.mpr ⟨r, h, rfl⟩

theorem Coherent.get?_of_lookup? {p : Path} (clean : p.clean = p) (h : g.lookup? p = some i) :
    ∃ r, g.get? i = some r ∧ r.path = p := by
  obtain ⟨r, held, same⟩ := coherent.index.mp h
  refine ⟨r, held, ?_⟩
  have equal : r.path.clean.components = p.clean.components := by rwa [coherent.clean held, clean]
  have cleaned := Path.clean_eq_clean equal
  rwa [coherent.clean held, clean] at cleaned

theorem Coherent.eq_of_components_eq (first : g.get? i = some r) (second : g.get? j = some r')
    (same : r.path.components = r'.path.components) : i = j := by
  have known := coherent.lookup?_path second
  rw [coherent.index.mpr ⟨r, first, same⟩] at known
  exact some.inj known

theorem Coherent.nodup_paths : (g.records.map (·.path)).Nodup := by
  rw [Nodup, pairwise_map, pairwise_iff_getElem]
  intro i j first second before same
  have := coherent.eq_of_components_eq (getElem?_eq_getElem first) (getElem?_eq_getElem second)
    (congrArg Path.components same)
  omega

theorem Coherent.push (clean : path.clean = path) (new : g.lookup? path = none) :
    (g.push path parent lazyRoot package).Coherent where
  ids := by
    intro i r held
    rw [get?_push] at held
    split at held
    · rename_i last
      cases held
      exact last.symm
    · exact coherent.ids held
  clean := by
    intro i r held
    rw [get?_push] at held
    split at held
    · cases held
      exact clean
    · exact coherent.clean held
  index := by
    intro p i
    rw [lookup?_push, get?_push]
    by_cases here : p.components = path.components
    · rw [if_pos here]
      by_cases last : i = g.size
      · subst last
        simp [newRecord, here]
      · rw [if_neg last]
        constructor
        · intro same
          exact absurd (some.inj same).symm last
        · rintro ⟨r, held, same⟩
          have known := coherent.index.mpr ⟨r, held, same.trans here⟩
          rw [new] at known
          cases known
    · rw [if_neg here]
      by_cases last : i = g.size
      · subst last
        rw [if_pos rfl]
        constructor
        · intro known
          exact absurd (coherent.lookup?_lt known) (Nat.lt_irrefl _)
        · rintro ⟨r, held, same⟩
          cases held
          exact absurd same.symm here
      · rw [if_neg last]
        exact coherent.index

theorem Coherent.update (kept : ∀ r, (f r).blank = r.blank) :
    (g.update id f).Coherent := by
  refine ⟨?_, ?_, ?_⟩
  · intro i r held
    obtain ⟨old, before, same⟩ := get?_of_get?_update kept held
    exact (FileRecord.blank_eq_iff.mp same).1.trans (coherent.ids before)
  · intro i r held
    obtain ⟨old, before, same⟩ := get?_of_get?_update kept held
    rw [(FileRecord.blank_eq_iff.mp same).2.1]
    exact coherent.clean before
  · intro p i
    rw [lookup?_update, coherent.index]
    constructor
    · rintro ⟨old, before, path⟩
      obtain ⟨r, held, same⟩ := get?_update_of_get? kept before
      exact ⟨r, held, by rwa [(FileRecord.blank_eq_iff.mp same).2.1]⟩
    · rintro ⟨r, held, path⟩
      obtain ⟨old, before, same⟩ := get?_of_get?_update kept held
      exact ⟨old, before, by rwa [← (FileRecord.blank_eq_iff.mp same).2.1]⟩

end

end FileGraph

end ComponentCompiler
