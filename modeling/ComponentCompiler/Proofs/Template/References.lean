import ComponentCompiler.Proofs.Template.Material

/-! What content refers to, before and after it is routed. -/

namespace ComponentCompiler

open TemplateNode List
open SortedSet (contains_add)

def referencesOf (bodies : TemplateBodies) (id : String) : List String := ((bodies.get? id).map bodyReferences).getD []

inductive Reaches (bodies : TemplateBodies) (ids : List String) : String → Prop where
  | root {id : String} : id ∈ ids → Reaches bodies ids id
  | step {id next : String} : Reaches bodies ids id → next ∈ referencesOf bodies id → Reaches bodies ids next

theorem Reaches.mono {id : String} (reaches : Reaches bodies ids id) (roots : ∀ id ∈ ids, id ∈ ids')
    (steps : ∀ id next, next ∈ referencesOf bodies id → next ∈ referencesOf bodies' id) : Reaches bodies' ids' id := by
  induction reaches with
  | root mem => exact .root (roots _ mem)
  | step _ mem ih => exact .step ih (steps _ _ mem)

section

variable {bodies : TemplateBodies}

theorem reaches_of_contains {seen : SortedSet String} (work : ∀ id ∈ ids, Reaches bodies root id)
    (done : ∀ id, seen.contains id → Reaches bodies root id) {id : String}
    (found : (reachableBodies bodies fuel ids seen).contains id) : Reaches bodies root id := by
  induction fuel generalizing ids seen with
  | zero => exact done id found
  | succ fuel ih =>
    cases ids with
    | nil => exact done id found
    | cons first rest =>
      obtain ⟨here, later⟩ := forall_mem_cons.mp work
      rw [reachableBodies] at found
      split at found
      · exact ih later done found
      · refine ih (forall_mem_append.mpr ⟨fun next mem => .step here mem, later⟩) ?_ found
        intro other mem
        rcases contains_add.mp mem with rfl | old
        · exact here
        · exact done other old

def unseenReferences (seen : SortedSet String) : List (String × List TemplateNode) → Nat
  | [] => 0
  | entry :: rest => (if seen.contains entry.1 then 0 else (bodyReferences entry.2).length) + unseenReferences seen rest

theorem unseenReferences_empty (entries) :
    unseenReferences ∅ entries = ((entries.map (·.2)).flatMap bodyReferences).length := by
  induction entries with
  | nil => rfl
  | cons entry rest ih =>
    rw [unseenReferences, if_neg (fun known => by cases known), ih, map_cons, flatMap_cons, length_append]

theorem unseenReferences_add_le (seen : SortedSet String) (id) (entries) :
    unseenReferences (seen.add id) entries ≤ unseenReferences seen entries := by
  induction entries with
  | nil => exact Nat.le_refl _
  | cons entry rest ih =>
    simp only [unseenReferences] at ih ⊢
    have head : (if (seen.add id).contains entry.1 then 0 else (bodyReferences entry.2).length) ≤
        if seen.contains entry.1 then 0 else (bodyReferences entry.2).length := by
      by_cases known : seen.contains entry.1
      · simp [known, contains_add.mpr (.inr known)]
      · rw [if_neg known]
        split <;> omega
    omega

theorem unseenReferences_add {seen : SortedSet String} {id : String} (unseen : seen.contains id = false)
    (entries) :
    unseenReferences (seen.add id) entries + (((entries.find? fun entry => compare id entry.1 == .eq).map
      fun entry => bodyReferences entry.2).getD []).length ≤ unseenReferences seen entries := by
  induction entries with
  | nil => exact Nat.le_refl _
  | cons entry rest ih =>
    rw [find?_cons]
    by_cases same : id = entry.1
    · have later := unseenReferences_add_le seen id rest
      simp only [unseenReferences] at later ⊢
      rw [if_pos (contains_add.mpr (.inl same.symm)), if_neg (by simp [← same, unseen])]
      simp only [same, Std.ReflCmp.compare_self, beq_self_eq_true, Option.map_some, Option.getD_some] at later ⊢
      omega
    · have apart : (compare id entry.1 == .eq) = false := by simpa using same
      have kept : (seen.add id).contains entry.1 = seen.contains entry.1 := by
        rw [Bool.eq_iff_iff, contains_add]
        simp [Ne.symm same]
      simp only [unseenReferences, kept, apart] at ih ⊢
      omega

theorem closed_reachableBodies {fuel : Nat} {ids : List String} {seen : SortedSet String}
    (enough : ids.length + unseenReferences seen bodies.entries < fuel)
    (open' : ∀ id, seen.contains id → ∀ next ∈ referencesOf bodies id, seen.contains next ∨ next ∈ ids) :
    let found := reachableBodies bodies fuel ids seen
    (∀ id, seen.contains id → found.contains id) ∧ (∀ id ∈ ids, found.contains id) ∧
      ∀ id, found.contains id → ∀ next ∈ referencesOf bodies id, found.contains next := by
  induction fuel generalizing ids seen with
  | zero => omega
  | succ fuel ih =>
    cases ids with
    | nil =>
      refine ⟨fun _ known => known, fun _ mem => (by cases mem), fun id known next mem => ?_⟩
      rcases open' id known next mem with seen | none
      · exact seen
      · cases none
    | cons first rest =>
      rw [length_cons] at enough
      rw [reachableBodies]
      dsimp only
      split
      · rename_i known
        obtain ⟨old, work, closed⟩ := @ih rest seen (by omega) fun id here next mem => by
          rcases open' id here next mem with seen | listed
          · exact .inl seen
          · rcases mem_cons.mp listed with rfl | listed
            · exact .inl known
            · exact .inr listed
        refine ⟨old, ?_, closed⟩
        exact forall_mem_cons.mpr ⟨old first known, work⟩
      · rename_i unknown
        have less := unseenReferences_add (by simpa using unknown) bodies.entries
        have same : (((bodies.entries.find? fun entry => compare first entry.1 == .eq).map
            fun entry => bodyReferences entry.2).getD []) = referencesOf bodies first := by
          rw [referencesOf, SortedMap.get?, Option.map_map]
          rfl
        rw [same] at less
        obtain ⟨old, work, closed⟩ := @ih (referencesOf bodies first ++ rest) (seen.add first)
          (by rw [length_append]; omega) fun id here next mem => by
            rcases contains_add.mp here with rfl | here
            · exact .inr (mem_append_left _ mem)
            · rcases open' id here next mem with seen | listed
              · exact .inl (contains_add.mpr (.inr seen))
              · rcases mem_cons.mp listed with rfl | listed
                · exact .inl (contains_add.mpr (.inl rfl))
                · exact .inr (mem_append_right _ listed)
        refine ⟨fun id here => old id (contains_add.mpr (.inr here)), ?_, closed⟩
        refine forall_mem_cons.mpr ⟨old first (contains_add.mpr (.inl rfl)), fun id mem => ?_⟩
        exact work id (mem_append_right _ mem)

end

theorem contains_reachableBodies_iff {bodies : TemplateBodies} {ids : List String} {fuel : Nat}
    (enough : ids.length + (bodies.values.flatMap bodyReferences).length < fuel) {id : String} :
    (reachableBodies bodies fuel ids ∅).contains id ↔ Reaches bodies ids id := by
  have all : unseenReferences ∅ bodies.entries = (bodies.values.flatMap bodyReferences).length :=
    unseenReferences_empty bodies.entries
  obtain ⟨-, roots, closed⟩ := @closed_reachableBodies bodies fuel ids ∅ (all ▸ enough) fun _ known => by cases known
  constructor
  · exact reaches_of_contains (fun _ mem => .root mem) fun _ known => by cases known
  · intro reaches
    induction reaches with
    | root mem => exact roots _ mem
    | step _ mem ih => exact closed _ ih _ mem

theorem contains_referred_congr (roots : ∀ id, id ∈ bodyReferences content ↔ id ∈ bodyReferences content')
    (steps : ∀ id next, next ∈ referencesOf bodies id ↔ next ∈ referencesOf bodies' id) (id) :
    (referred queries content bodies).contains id = (referred queries content' bodies').contains id := by
  unfold referred
  split
  · rfl
  · rw [Bool.eq_iff_iff, contains_reachableBodies_iff (Nat.lt_succ_self _), contains_reachableBodies_iff (Nat.lt_succ_self _)]
    exact ⟨fun here => here.mono (fun _ => (roots _).mp) fun _ _ => (steps _ _).mp,
      fun here => here.mono (fun _ => (roots _).mpr) fun _ _ => (steps _ _).mpr⟩

namespace TemplateNode

variable {slots : SortedMap String (List (Option String))}

/-- An element whose content has a default slot to go to, if slots are known. -/
def HasDefault (slots : SortedMap String (List (Option String))) (head : ElementHead) : Prop :=
  ∀ found, head.component.bind slots.get? = some found → none ∈ found

theorem mem_items_routeContent (default : none ∈ found) :
    item ∈ itemsProjected (routeContent found bodies content) ↔ item ∈ itemsOf content := by
  simp only [itemsProjected_eq, itemsOf_eq, mem_flatMap]
  constructor
  · rintro ⟨q, placed, node, inside, here⟩
    exact ⟨node, mem_routeContent placed inside, here⟩
  · rintro ⟨node, mem, here⟩
    obtain ⟨q, placed, inside⟩ := exists_mem_routeContent default bodies mem
    exact ⟨q, placed, node, inside, here⟩

theorem mem_itemsOf_routeWaiting : WaitsWithIn (HasDefault slots) nodes →
    (item ∈ itemsOf (routeWaitingOf slots bodies nodes) ↔ item ∈ itemsOf nodes) := by
  induction nodes using forestInduction with
  | nil => exact fun _ => .rfl
  | element head children projected rest inside placed later =>
    rintro ⟨waits, behind⟩
    rw [WaitsWith, waitsWithAmong_iff] at waits
    obtain ⟨own, within, among⟩ := waits
    simp only [routeWaitingOf, routeWaiting, routeElement, itemsOf, items, mem_append, mem_cons, later behind]
    refine or_congr_left ?_
    split
    · rename_i routed found
      obtain ⟨none, default⟩ := own routed
      rw [items, mem_cons, mem_append, mem_items_routeContent (default _ found), none, inside within]
      simp [itemsOf, itemsProjected, ElementHead.unmarked]
    · rw [items, mem_cons, mem_append, inside within, itemsProjected_eq, itemsProjected_eq, routeWaitingProjected_eq,
        flatMap_map, mem_flatMap, mem_flatMap]
      exact or_congr_right (or_congr_right (exists_congr fun q => and_congr_right fun mem =>
        placed q mem (among q mem)))
  | text | fragment | placeholder | slot =>
    simp only [WaitsWithIn, WaitsWith, routeWaitingOf, routeWaiting, itemsOf, items, mem_append]
    grind

theorem mem_references_routeWaiting (waits : WaitsWithIn (HasDefault slots) nodes) (id) :
    id ∈ bodyReferences (routeWaitingOf slots bodies nodes) ↔ id ∈ bodyReferences nodes := by
  simp only [bodyReferences, placeholdersOf_items, mem_flatMap, mem_filterMap, mem_itemsOf_routeWaiting waits]

def Shows (target : MatchTarget) (heads : List ElementHead) : Prop := ∃ head ∈ heads, head.target = target

theorem shows_append {heads : List ElementHead} :
    Shows target (heads ++ more) ↔ Shows target heads ∨ Shows target more := by
  simp [Shows, or_and_right, exists_or]

theorem shows_flatMap {α : Type} {target : MatchTarget} {xs : List α} {f : α → List ElementHead} :
    Shows target (xs.flatMap f) ↔ ∃ x ∈ xs, Shows target (f x) := by
  simp only [Shows, mem_flatMap]
  constructor
  · rintro ⟨head, ⟨x, mem, here⟩, same⟩
    exact ⟨x, mem, head, here, same⟩
  · rintro ⟨x, mem, head, here, same⟩
    exact ⟨head, ⟨x, mem, here⟩, same⟩

theorem shows_iff_items :
    Shows target (headsOf nodes) ↔ ∃ head ∈ (itemsOf nodes).filterMap Item.head?, head.target = target := by
  rw [← headsOf_items]
  simp only [Shows, mem_map, exists_exists_and_eq_and]
  rfl

theorem showsIn_routeWaiting (waits : WaitsWithIn (HasDefault slots) nodes) :
    Shows target (headsOf (routeWaitingOf slots bodies nodes)) ↔ Shows target (headsOf nodes) := by
  simp only [shows_iff_items, mem_filterMap, mem_itemsOf_routeWaiting waits]

end TemplateNode

end ComponentCompiler
