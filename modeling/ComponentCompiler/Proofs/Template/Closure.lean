import ComponentCompiler.Proofs.Template.Growth
import ComponentCompiler.Proofs.Template.Material

/-! The bodies that placeholders stand for. Main statement: `compileMarkup_closes_references`. -/

namespace ComponentCompiler

open TemplateNode List

def Item.body? (item : Item) : Option String := item.placeholder?.map (·.template)

namespace CompiledTemplate

def placeholders (t : CompiledTemplate) : List Placeholder := t.forests.flatMap placeholdersOf

theorem placeholders_eq (t : CompiledTemplate) : t.placeholders = t.items.filterMap Item.placeholder? := by
  rw [placeholders, items, ← placeholdersOf_items, placeholdersOf_eq, ← flatMap_id, flatMap_assoc]
  exact flatMap_congr fun nodes _ => placeholdersOf_eq nodes

end CompiledTemplate

namespace Template

/-- Each placeholder has a body under a number of its own. -/
structure Apart (s : State) (m : Multiset Item) : Prop where
  numbered : ∀ id ∈ m.filterMap Item.body?, (∃ directive n, id = bodyName directive n ∧ n < s.counter) ∧
    s.bodies.contains id = true
  apart : (m.filterMap Item.body?).Nodup

theorem Apart.light {α : Type} {x : Compile α} (apart : Apart s m) (light : Light x) (other : Item.body? item = none) :
    Apart (x.run s).2 (m + {item}) := by
  have same : (m + {item}).filterMap Item.body? = m.filterMap Item.body? := by
    rw [add_comm, Multiset.singleton_add, Multiset.filterMap_cons_none _ _ other]
  constructor
  · rw [same, light.run s]
    exact apart.numbered
  · rw [same]
    exact apart.apart

theorem kept_apart (cx) : Kept cx Apart where
  fewer apart less :=
    have less := Multiset.filterMap_le_filterMap Item.body? less
    ⟨fun id mem => apart.numbered id (Multiset.mem_of_le less mem), Multiset.nodup_of_le less apart.apart⟩
  moved _ _ _ apart grown :=
    ⟨fun id mem => ⟨(apart.numbered id mem).1, grown id (apart.numbered id mem).2⟩, apart.apart⟩
  text value apart := apart.light (light_interpolate value true) rfl
  element tag attributes apart := apart.light (light_startElement tag attributes) rfl
  placeholder {s m} directive value nodes apart := by
    have fills := @asks_filled cx [] directive value (bodyName directive s.counter)
    have same := fills.light.run { s with counter := s.counter + 1 }
    have template := fills.holds { s with counter := s.counter + 1 }
    dsimp only
    generalize (filled cx directive value (bodyName directive s.counter)).run { s with counter := s.counter + 1 } =
      after at same template ⊢
    have ids : (m + {.placeholder after.1}).filterMap Item.body? = bodyName directive s.counter ::ₘ m.filterMap Item.body? := by
      have body : Item.body? (.placeholder after.1) = some (bodyName directive s.counter) := congrArg some template
      rw [add_comm, Multiset.singleton_add, Multiset.filterMap_cons_some _ _ _ body]
    refine ⟨fun id mem => ?_, ?_⟩
    · rw [ids] at mem
      rw [same]
      rcases Multiset.mem_cons.mp mem with rfl | old
      · exact ⟨⟨directive, s.counter, rfl, Nat.lt_succ_self _⟩, SortedMap.contains_insert.mpr (.inl rfl)⟩
      · obtain ⟨⟨other, n, name, below⟩, known⟩ := apart.numbered id old
        exact ⟨⟨other, n, name, Nat.lt_succ_of_lt below⟩, SortedMap.contains_insert.mpr (.inr known)⟩
    · -- Numbers given before are below the counter.
      rw [ids]
      refine Multiset.nodup_cons.mpr ⟨fun old => ?_, apart.apart⟩
      obtain ⟨⟨other, n, name, below⟩, -⟩ := apart.numbered _ old
      rw [bodyName_inj name] at below
      exact Nat.lt_irrefl _ below

end Template

theorem CompiledTemplate.missingBodies_eq {t : CompiledTemplate}
    (closed : ∀ p ∈ t.placeholders, t.bodies.contains p.template) (file) :
    t.missingBodies file = t.placeholders.filterMap fun p =>
      (p.elseTemplate.filter fun id => !t.bodies.contains id).map (t.missingBody file) := by
  change ((t.placeholders.flatMap (·.references)).filter fun id => !t.bodies.contains id).map (t.missingBody file) = _
  revert closed
  induction t.placeholders with
  | nil => exact fun _ => rfl
  | cons p rest ih =>
    intro closed
    obtain ⟨here, later⟩ := forall_mem_cons.mp closed
    rw [flatMap_cons, filter_append, map_append, ih later, filterMap_cons, Placeholder.references,
      filter_cons_of_neg (by simp [here])]
    cases p.elseTemplate with
    | none => rfl
    | some id => cases known : t.bodies.contains id <;> simp [Option.filter, known]

/-- Wherever it stands, in the nodes, the bodies, the content of elements and slots, each placeholder has a body and shares
it with no other. The reports on missing bodies are those on the `else` clauses, one for each that names none. -/
theorem Template.compileMarkup_closes_references (cx : Context) (markup : List MarkupNode) :
    let t := compileMarkup cx markup
    (∀ p ∈ t.placeholders, t.bodies.contains p.template = true) ∧ (t.placeholders.map (·.template)).Nodup ∧
      ∀ file, t.missingBodies file = t.placeholders.filterMap fun p =>
        (p.elseTemplate.filter fun id => !t.bodies.contains id).map (t.missingBody file) := by
  obtain ⟨apart, -, -, bodies⟩ := kept_compileMarkup (kept_apart cx)
    ⟨fun _ member => (by cases member), Multiset.nodup_zero⟩ markup
  have ids : (compileMarkup cx markup).placeholders.map (·.template) =
      (compileMarkup cx markup).items.filterMap Item.body? := by
    rw [CompiledTemplate.placeholders_eq, map_filterMap]
    rfl
  have closed : ∀ p ∈ (compileMarkup cx markup).placeholders, (compileMarkup cx markup).bodies.contains p.template = true := by
    intro p member
    rw [bodies]
    refine (apart.numbered p.template ?_).2
    change p.template ∈ (compileMarkup cx markup).items.filterMap Item.body?
    rw [← ids]
    exact mem_map_of_mem member
  refine ⟨closed, ?_, CompiledTemplate.missingBodies_eq closed⟩
  rw [ids]
  exact apart.apart

end ComponentCompiler
