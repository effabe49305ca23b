import ComponentCompiler.Proofs.Registry.Contents
import ComponentCompiler.Proofs.Template.Closure

/-!
The providers of a template. Main statement: `compileMarkup_provides`, the names that a compiled
template refers to are provided, and the provided names registered.
-/

namespace ComponentCompiler

open List

namespace Registry

def provider? (r : Registry) (name : String) : Option Definition :=
  ((r.elements.get? name).or (r.directives.get? name)).or (r.services.get? name)

variable {r : Registry}

theorem Coherent.provider?_of_offers (coherent : r.Coherent) (offers : r.Offers name) : (r.provider? name).isSome := by
  have known (kind : AnnotationKind) {d : Definition} (registered : d ∈ (r.definitions kind).values) :
      (r.definitions kind).get? d.name = some d := by
    obtain ⟨key, here⟩ := SortedMap.mem_values_iff.mp registered
    have here : r.get? kind key = some d := here
    rw [(coherent.own here).2]
    exact here
  unfold provider?
  cases offers with
  | element registered => simp [show r.elements.get? _ = _ from known .element registered]
  | @directive d registered =>
    cases r.elements.get? d.name <;> simp [show r.directives.get? _ = _ from known .directive registered]
  | @pipe d registered =>
    cases r.elements.get? d.name <;> cases r.directives.get? d.name <;>
      simp [show r.services.get? _ = _ from known .service registered]

end Registry

/-- The names that something in a template refers to, directives of placeholders apart. -/
def Item.names : Item → List String
  | .element head => head.names
  | .text parts => parts.flatMap (·.pipes)
  | .placeholder p => p.pipes

theorem ElementHead.names_unmarked (head : ElementHead) : head.unmarked.names = head.names := rfl

namespace Template

variable {cx : Context}

theorem has_nil (s : State) : s.Has [] := fun _ mem => by cases mem

theorem filled_provides (directive value id : String) (s : State) :
    let after := (filled cx directive value id).run s
    after.2.Has after.1.pipes ∧ ((∀ d ∈ after.2.diagnostics, d.code ≠ .unknownDirective) → after.2.Has after.1.custom) := by
  have has := (@asks_filled cx [] directive value id).has s (has_nil s)
  refine ⟨fun name mem => has name (mem_append_right _ mem), fun silent => ?_⟩
  cases known : isKnown cx directive with
  | true =>
    rw [known] at has
    exact fun name mem => has name (mem_append_left _ mem)
  | false =>
    rw [filled_unknown known] at silent
    exact absurd rfl (silent _ (mem_append_right _ (mem_singleton.mpr rfl)))

/-- What compilation keeps: whatever is referred to is provided, unless a directive is reported, and whatever is provided is
registered. -/
structure Provided (cx : Context) (s : State) (m : Multiset Item) : Prop where
  named : ∀ item ∈ m, s.Has item.names
  placed : (∀ d ∈ s.diagnostics, d.code ≠ .unknownDirective) → ∀ p, .placeholder p ∈ m → s.Has p.custom
  offered : ∀ name, s.providers.contains name = true → cx.registry.Offers name

theorem provided_start : Provided cx {} 0 :=
  ⟨fun _ mem => (by cases mem), fun _ _ mem => (by cases mem), fun _ none => (by cases none)⟩

theorem Provided.add (provided : Provided cx s m) (adds : s.Adds cx s') (item : Item) (has : s'.Has item.names)
    (placed : (∀ d ∈ s'.diagnostics, d.code ≠ .unknownDirective) → ∀ p, item = .placeholder p → s'.Has p.custom) :
    Provided cx s' (m + {item}) where
  named other mem := by
    rcases Multiset.mem_add.mp mem with old | new
    · exact fun name here => adds.providers name (provided.named other old name here)
    · rw [Multiset.mem_singleton.mp new]
      exact has
  placed silent p mem := by
    rcases Multiset.mem_add.mp mem with old | new
    · have before := provided.placed (fun d here => silent d (adds.diagnostics here)) p old
      exact fun name here => adds.providers name (before name here)
    · exact placed silent p (Multiset.mem_singleton.mp new).symm
  offered name here := (adds.offered name here).elim (provided.offered name) id

theorem kept_provided (cx) : Kept cx (Provided cx) where
  fewer provided less :=
    ⟨fun item mem => provided.named item (Multiset.mem_of_le less mem),
      fun silent p mem => provided.placed silent p (Multiset.mem_of_le less mem), provided.offered⟩
  moved _ _ _ provided _ := ⟨provided.named, provided.placed, provided.offered⟩
  text {s m} value provided := by
    have asks := @asks_interpolate cx [] value true
    exact provided.add (asks.adds s) _ (asks.has s (has_nil s)) fun _ p same => by cases same
  element {s m} tag attributes provided := by
    have asks := @asks_startElement cx tag attributes
    refine provided.add (asks.adds s) (.element _) ?_ fun _ p same => by cases same
    rw [Item.names, ElementHead.names_unmarked]
    exact asks.has s (has_nil s)
  placeholder {s m} directive value nodes provided := by
    obtain ⟨pipes, custom⟩ := @filled_provides cx directive value
      (bodyName directive s.counter) { s with counter := s.counter + 1 }
    have adds := (@asks_filled cx [] directive value (bodyName directive s.counter)).adds { s with counter := s.counter + 1 }
    -- Neither the counter nor the body that is put away matters to providers and reports.
    have adds : s.Adds cx _ := ⟨adds.offered, adds.providers, adds.diagnostics⟩
    have filled := provided.add adds (.placeholder _) pipes fun silent p same => (by cases same; exact custom silent)
    exact ⟨filled.named, filled.placed, filled.offered⟩

/-- Whatever a template refers to is provided, wherever in the nodes and bodies it stands: the components and directives of
elements, the pipes of all expressions and, unless an unknown one is reported, the directives of placeholders. Whatever is
provided is a registered element, directive or pipe. -/
theorem compileMarkup_provides (cx : Context) (markup : List MarkupNode) :
    let t := compileMarkup cx markup
    (∀ item ∈ t.items, ∀ name ∈ item.names, t.providers.contains name = true) ∧
      ((∀ d ∈ t.diagnostics, d.code ≠ .unknownDirective) → ∀ p ∈ t.placeholders, p.directive ≠ "if" → p.directive ≠ "for" →
        t.providers.contains p.directive = true) ∧
      ∀ name, t.providers.contains name = true → cx.registry.Offers name := by
  obtain ⟨provided, providers, diagnostics, -⟩ := kept_compileMarkup (kept_provided cx) provided_start markup
  dsimp only
  rw [providers]
  refine ⟨provided.named, fun silent p member other another => ?_, provided.offered⟩
  rw [CompiledTemplate.placeholders_eq] at member
  obtain ⟨item, listed, same⟩ := mem_filterMap.mp member
  cases item with
  | element | text => cases same
  | placeholder p' =>
    cases same
    refine provided.placed (fun d here => silent d (diagnostics here)) p listed p.directive ?_
    rw [Placeholder.custom, if_neg (by simp [other, another])]
    exact mem_singleton.mpr rfl

theorem isSome_provider?_of_compileMarkup (coherent : cx.registry.Coherent)
    (asked : (compileMarkup cx markup).providers.contains name) : (cx.registry.provider? name).isSome := by
  obtain ⟨provided, providers, -⟩ := kept_compileMarkup (kept_provided cx) provided_start markup
  rw [providers] at asked
  exact coherent.provider?_of_offers (provided.offered name asked)

end Template

end ComponentCompiler
