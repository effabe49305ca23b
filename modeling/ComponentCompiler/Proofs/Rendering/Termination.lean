import ComponentCompiler.Proofs.Rendering.Steps
import ComponentCompiler.Proofs.Template.Routing
import ComponentCompiler.Template.Compile
import Mathlib.Data.Fintype.Card
import Mathlib.Data.Set.Finite.List

/-!
Rendering comes to an end if no body leads back to itself. Main statement: `render?_ends`. A body can lead
back to itself through `else` clauses: `render?_mutual_else`.
-/

namespace ComponentCompiler

open List Option

namespace Rendering

open TemplateNode

variable {bodies : TemplateBodies} {scope : Scope}

/-! ### Forests -/

theorem exists_of_mem_expansions (mem : part ∈ expansions bodies p scope) :
    ∃ id ∈ p.template :: p.elseTemplate.toList, bodies.get? id = some part.1 := by
  rw [expansions] at mem
  split at mem
  · contradiction
  · rename_i body found
    have first : ∃ id ∈ p.template :: p.elseTemplate.toList, bodies.get? id = some body := ⟨_, mem_cons_self, found⟩
    dsimp only at mem
    split at mem
    · split at mem
      · rwa [mem_singleton.mp mem]
      · split at mem
        · rename_i other isElse
          obtain ⟨id, named, found⟩ := bind_eq_some_iff.mp isElse
          rw [mem_singleton.mp mem]
          exact ⟨id, by simp [named], found⟩
        · contradiction
    · split at mem
      · split at mem
        · obtain ⟨item, -, rfl⟩ := List.mem_map.mp mem
          exact first
        · contradiction
      · rwa [mem_singleton.mp mem]

def BodiesEnd (bodies : TemplateBodies) (ids : List String) : Prop :=
  ∀ id ∈ ids, ∀ body, bodies.get? id = some body → ∀ scope, (nodesText? bodies scope body).isSome

theorem BodiesEnd.fewer (ends : BodiesEnd bodies ids) (fewer : ∀ id ∈ ids', id ∈ ids) :
    BodiesEnd bodies ids' := fun id mem => ends id (fewer id mem)

theorem isSome_of_bodiesEnd (ends : BodiesEnd bodies (bodyReferences nodes)) (scope) :
    (nodesText? bodies scope nodes).isSome := by
  rw [isSome_nodesText?_iff]
  induction nodes using forestInduction with
  | nil => exact forall_mem_nil _
  | element head children projected rest inside placed later =>
    simp only [bodyReferences, placeholdersOf, placeholders, flatMap_append, placeholdersProjected_eq, flatMap_assoc] at ends
    refine forall_mem_cons.mpr ⟨fun part mem => ?_, later (ends.fewer fun _ => mem_append_right _)⟩
    rw [contents] at mem
    split at mem
    · contradiction
    · rw [mem_singleton.mp mem, isSome_nodesText?_iff, forall_mem_append, forall_mem_flatMap]
      refine ⟨inside (ends.fewer fun _ => mem_append_left _ ∘ mem_append_left _), fun p has => placed p has ?_⟩
      exact ends.fewer fun id named => mem_append_left _ (mem_append_right _ (mem_flatMap.mpr ⟨p, has, named⟩))
  | text parts rest later => exact forall_mem_cons.mpr ⟨forall_mem_nil _, later ends⟩
  | fragment children rest inside later | slot _ children rest inside later =>
    simp only [bodyReferences, placeholdersOf, placeholders, flatMap_append] at ends
    refine forall_mem_cons.mpr ⟨?_, later (ends.fewer fun _ => mem_append_right _)⟩
    exact forall_mem_singleton.mpr (isSome_nodesText?_iff.mpr (inside (ends.fewer fun _ => mem_append_left _)))
  | placeholder p rest later =>
    simp only [bodyReferences, placeholdersOf, placeholders, flatMap_append, flatMap_singleton] at ends
    refine forall_mem_cons.mpr ⟨fun part mem => ?_, later (ends.fewer fun _ => mem_append_right _)⟩
    obtain ⟨id, named, found⟩ := exists_of_mem_expansions mem
    exact ends id (mem_append_left _ named) part.1 found part.2

/-! ### Bodies -/

def Leads (bodies : TemplateBodies) (id next : String) : Prop :=
  ∃ body, bodies.get? id = some body ∧ next ∈ bodyReferences body

open Relation in
theorem bodiesEnd_of_acyclic
    (acyclic : ∀ first ∈ ids, ∀ id, ReflTransGen (Leads bodies) first id → ¬ TransGen (Leads bodies) id id) :
    BodiesEnd bodies ids := by
  let Reached (id : String) : Prop := bodies.contains id ∧ ∃ first ∈ ids, ReflTransGen (Leads bodies) first id
  have finite : Finite { id // Reached id } := by
    refine Set.Finite.subset (finite_toSet bodies.keys) fun id reached => ?_
    exact SortedMap.mem_keys_iff.mpr reached.1
  let below (id other : { id // Reached id }) : Prop := TransGen (Leads bodies) other.1 id.1
  have wf : WellFounded below := by
    have : IsTrans { id // Reached id } below := ⟨fun _ _ _ first second => second.trans first⟩
    have : Std.Irrefl below := ⟨fun id cycle => by
      obtain ⟨first, mem, reached⟩ := id.2.2
      exact acyclic first mem id.1 reached cycle⟩
    exact Finite.wellFounded_of_trans_of_irrefl below
  have each (id : { id // Reached id }) : ∀ body, bodies.get? id.1 = some body → ∀ scope, (nodesText? bodies scope body).isSome := by
    induction id using wf.induction with
    | _ id ih =>
      intro body found scope
      refine isSome_of_bodiesEnd (fun next named body' found' => ?_) scope
      have leads : Leads bodies id.1 next := ⟨body, found, named⟩
      obtain ⟨first, mem, reached⟩ := id.2.2
      exact ih ⟨next, isSome_of_mem found', first, mem, reached.tail leads⟩ (.single leads) body' found'
  intro id mem body found
  exact each ⟨id, isSome_of_mem found, id, mem, .refl⟩ body found

theorem acyclic_of_rank (rank : String → Nat)
    (lower : bodies.toList.all fun entry => (bodyReferences entry.2).all fun next => rank next < rank entry.1) (id) :
    ¬ Relation.TransGen (Leads bodies) id id := by
  have leads (id next : String) (leads : Leads bodies id next) : rank next < rank id := by
    obtain ⟨body, found, named⟩ := leads
    have each := List.all_eq_true.mp lower (id, body) (SortedMap.get?_eq_some_iff.mp found)
    exact of_decide_eq_true (List.all_eq_true.mp each next named)
  have falls (id next : String) (way : Relation.TransGen (Leads bodies) id next) : rank next < rank id := by
    induction way with
    | single step => exact leads _ _ step
    | tail _ step ih => exact Nat.lt_trans (leads _ _ step) ih
  exact fun cycle => Nat.lt_irrefl _ (falls id id cycle)

/-- There is no end where each of some renderings begins with another one of them. -/
theorem nodesText?_eq_none (Among : Scope → List TemplateNode → Prop)
    (onward : ∀ scope nodes, Among scope nodes → ∃ node ∈ nodes.head?, ∃ part ∈ contents bodies scope node, Among part.2 part.1)
    (among : Among scope nodes) : nodesText? bodies scope nodes = none := by
  rw [eq_none_iff_forall_ne_some]
  intro html ends
  refine nodesText?_induction (P := fun scope nodes _ => ¬ Among scope nodes) (fun scope among => ?_) ?_ ends among
  · obtain ⟨node, none, -⟩ := onward scope [] among
    contradiction
  intro scope node rest inner after inside _ among
  obtain ⟨_, first, part, mem, among⟩ := onward scope (node :: rest) among
  obtain rfl := some.inj first
  have others := (forall₂_and_left _ _).mp (inside.imp fun _ _ other => And.intro other trivial)
  exact others.1 part mem among

end Rendering

open Rendering

open Relation in
/-- A template is rendered to the end, with any scope, if no body that its nodes lead to leads back to itself. -/
theorem CompiledTemplate.render?_ends (t : CompiledTemplate)
    (acyclic : ∀ first ∈ bodyReferences t.nodes, ∀ id, ReflTransGen (Rendering.Leads t.bodies) first id → ¬ TransGen (Rendering.Leads t.bodies) id id)
    (scope : Scope) : ∃ html, t.render? scope = some html :=
  isSome_iff_exists.mp (isSome_of_bodiesEnd (bodiesEnd_of_acyclic acyclic) scope)

def pageContext : Template.Context where
  registry := {}
  owner := { kind := .element, name := "Page", file := "/w/page.js", properties := [] }
  assetBase := none

def entryList : String :=
  "<li *for=\"entry of entries\"><b *if=\"entry; else dash\"></b></li><template #dash><hr></template>"

def entryRank (id : String) : Nat := if id = "__for_1" then 1 else 0

theorem render?_ends_entryList : ∃ t, Template.compile? pageContext entryList = some t ∧ t.diagnostics = [] ∧
    ∀ scope, ∃ html, t.render? scope = some html := by
  have compiles : (Template.compile? pageContext entryList).any (fun t => t.diagnostics.isEmpty &&
      t.bodies.toList.all fun entry => (bodyReferences entry.2).all fun next => entryRank next < entryRank entry.1) = true := by
    decide +kernel
  obtain ⟨t, compiled, holds⟩ := (Option.any_eq_true _ _).mp compiles
  simp only [Bool.and_eq_true, List.isEmpty_iff] at holds
  exact ⟨t, compiled, holds.1, fun scope => t.render?_ends (fun _ _ id _ => acyclic_of_rank entryRank holds.2 id) scope⟩

/-! ### A template that leads back to itself -/

def mutualElse : String := "<p *if=\"a; else t\"></p><template #t><p *if=\"a; else t\"></p></template>"

/-- A condition on a member that may not be there, with a body for that case. -/
def fallsBack (bodies : TemplateBodies) (id : String) : List TemplateNode → Bool
  | .placeholder p :: _ =>
    p.directive == "if" && p.value.map (·.code) == some "ctx.a" && p.elseTemplate == some id && bodies.contains p.template
  | _ => false

theorem eval_unbound : Evaluate.eval "ctx.a" ∅ = none := by
  have text : Evaluate.normalize "ctx.a".toList = ['a'] := by decide
  have literal : Evaluate.stringLiteral? ['a'] = some none := by decide
  have number : Binary64.ofChars? ['a'] = none := by decide
  have path : Evaluate.path? ['a'] = some (some (['a'], [])) := by
    have bytes : Chars.bytes ['a'] = [97] := by decide
    have cuts : Chars.slice? 0 1 ['a'] = some ['a'] ∧ Chars.slice? 1 1 ['a'] = some [] := by decide
    rw [Evaluate.path?, bytes, show Evaluate.nameSize [97] = 1 by decide, if_pos (by decide)]
    simp only [cuts, length_singleton, bind_eq_bind, bind_some]
    rw [Evaluate.segments?]
    rfl
  rw [Evaluate.eval, Evaluate.value?, text]
  simp only [literal, number, path]
  rfl

theorem contents_fallsBack {id : String} (falls : fallsBack bodies id nodes) (found : bodies.get? id = some body) :
    ∃ node ∈ nodes.head?, (body, ∅) ∈ contents bodies ∅ node := by
  rw [fallsBack.eq_def] at falls
  split at falls
  · rename_i p rest
    simp only [Bool.and_eq_true, beq_iff_eq] at falls
    obtain ⟨⟨⟨directive, value⟩, other⟩, known⟩ := falls
    obtain ⟨shown, here⟩ := isSome_iff_exists.mp known
    obtain ⟨e, asked, code⟩ := map_eq_some_iff.mp value
    have unknown : Evaluate.eval e.code ∅ = none := code ▸ eval_unbound
    exact ⟨_, rfl, by simp [contents, expansions, here, directive, asked, unknown, other, found]⟩
  · contradiction

/-- A body whose `else` clause names itself is accepted, and without the member that it asks for there is no end. -/
theorem render?_mutual_else : ∃ t, Template.compile? pageContext mutualElse = some t ∧ t.diagnostics = [] ∧ t.render? ∅ = none := by
  have compiles : (Template.compile? pageContext mutualElse).any (fun t => t.diagnostics.isEmpty && fallsBack t.bodies "t" t.nodes &&
      (t.bodies.get? "t").any (fallsBack t.bodies "t")) = true := by
    decide +kernel
  obtain ⟨t, compiled, holds⟩ := (Option.any_eq_true _ _).mp compiles
  simp only [Bool.and_eq_true, List.isEmpty_iff] at holds
  obtain ⟨⟨silent, begins⟩, again⟩ := holds
  obtain ⟨body, found, again⟩ := (Option.any_eq_true _ _).mp again
  refine ⟨t, compiled, silent, nodesText?_eq_none (fun scope nodes => scope = ∅ ∧ fallsBack t.bodies "t" nodes) ?_ ⟨rfl, begins⟩⟩
  rintro _ nodes ⟨rfl, falls⟩
  obtain ⟨node, first, member⟩ := contents_fallsBack falls found
  exact ⟨node, first, (body, ∅), member, rfl, again⟩

end ComponentCompiler
