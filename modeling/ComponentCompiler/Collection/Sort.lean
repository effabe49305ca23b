/-!
Stable sorting by insertion. Main statements: the result is a permutation of the list
(`sortBy_perm`) and is ordered (`pairwise_sortBy`).
-/

namespace ComponentCompiler

universe u

variable {α : Type u}

def insertBy (le : α → α → Bool) (a : α) : List α → List α
  | [] => [a]
  | b :: rest => if le a b then a :: b :: rest else b :: insertBy le a rest

def sortBy (le : α → α → Bool) : List α → List α
  | [] => []
  | a :: rest => insertBy le a (sortBy le rest)

theorem insertBy_perm (le : α → α → Bool) (a : α) (list : List α) : (insertBy le a list).Perm (a :: list) := by
  induction list with
  | nil => exact .refl _
  | cons b rest ih =>
    unfold insertBy
    split
    · exact .refl _
    · exact (ih.cons b).trans (.swap a b rest)

theorem sortBy_perm (le : α → α → Bool) (list : List α) : (sortBy le list).Perm list := by
  induction list with
  | nil => exact .refl _
  | cons a rest ih => exact (insertBy_perm le a _).trans (ih.cons a)

theorem pairwise_insertBy {le : α → α → Bool} (total : ∀ a b, le a b = false → le b a = true)
    (trans : ∀ a b c, le a b = true → le b c = true → le a c = true) {a : α} {list : List α}
    (h : list.Pairwise fun a b => le a b = true) :
    (insertBy le a list).Pairwise fun a b => le a b = true := by
  induction list with
  | nil => simp [insertBy]
  | cons b rest ih =>
    obtain ⟨head, tail⟩ := List.pairwise_cons.1 h
    unfold insertBy
    split
    · rename_i ab
      refine List.pairwise_cons.2 ⟨fun c mem => ?_, h⟩
      rcases List.mem_cons.1 mem with rfl | mem
      · exact ab
      · exact trans _ _ _ ab (head c mem)
    · rename_i ab
      refine List.pairwise_cons.2 ⟨fun c mem => ?_, ih tail⟩
      rcases List.mem_cons.1 ((insertBy_perm le a rest).mem_iff.1 mem) with rfl | mem
      · exact total _ _ (by simpa using ab)
      · exact head c mem

theorem pairwise_sortBy {le : α → α → Bool} (total : ∀ a b, le a b = false → le b a = true)
    (trans : ∀ a b c, le a b = true → le b c = true → le a c = true) (list : List α) :
    (sortBy le list).Pairwise fun a b => le a b = true := by
  induction list with
  | nil => exact .nil
  | cons a rest ih => exact pairwise_insertBy total trans ih

theorem sortBy_of_pairwise {le : α → α → Bool} {list : List α} (h : list.Pairwise fun a b => le a b = true) :
    sortBy le list = list := by
  induction h with
  | nil => rfl
  | @cons a list first _ ih =>
    rw [sortBy, ih]
    cases list with
    | nil => rfl
    | cons b rest => rw [insertBy, if_pos (first b List.mem_cons_self)]

end ComponentCompiler
