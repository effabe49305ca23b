import ComponentCompiler.Proofs.Template.Routing
import Mathlib.Data.List.Perm.Subperm

/-!
Where content goes. Main statement: `routeContent_partitions`, routing is a stable partition of the
content by the slots of its component.
-/

namespace ComponentCompiler

open TemplateNode List Option

/-- The search for the first element of a forest ends with the answer, after at most so many bodies one inside the
other. -/
inductive Leads (bodies : TemplateBodies) : Nat → List TemplateNode → Option ElementHead → Prop where
  | nil {n} : Leads bodies n [] none
  | element {n head children projected rest} : Leads bodies n (.element head children projected :: rest) (some head)
  | enter {n p rest body head} (found : bodies.get? p.template = some body) (inside : Leads bodies n body (some head)) :
      Leads bodies (n + 1) (.placeholder p :: rest) (some head)
  | leave {n p rest body answer} (found : bodies.get? p.template = some body) (inside : Leads bodies n body none)
      (later : Leads bodies (n + 1) rest answer) : Leads bodies (n + 1) (.placeholder p :: rest) answer
  | missing {n p rest answer} (absent : bodies.get? p.template = none) (later : Leads bodies n rest answer) :
      Leads bodies n (.placeholder p :: rest) answer
  | other {n node rest answer} (plain : node.look = .other) (later : Leads bodies n rest answer) :
      Leads bodies n (node :: rest) answer

variable {bodies : TemplateBodies} {content : List TemplateNode} {node : TemplateNode} {slots : List (Option String)}
  {element other : Option ElementHead} {n : Nat}

theorem Leads.succ (leads : Leads bodies n nodes element) : Leads bodies (n + 1) nodes element := by
  induction leads with
  | nil => exact .nil
  | element => exact .element
  | enter found _ ih => exact .enter found ih
  | leave found _ _ ih ih' => exact .leave found ih ih'
  | missing absent _ ih => exact .missing absent ih
  | other plain _ ih => exact .other plain ih

theorem Leads.mono (leads : Leads bodies n nodes element) (le : n ≤ m) : Leads bodies m nodes element := by
  induction le with
  | refl => exact leads
  | step _ ih => exact ih.succ

theorem Leads.firstElement? (leads : Leads bodies n nodes element) : firstElement? bodies (n + 1) nodes = element := by
  induction leads with
  | nil | element => rfl
  | enter found _ ih =>
    simp only [ComponentCompiler.firstElement?, findSome?_cons, found, bind_some] at ih ⊢
    rw [ih]
  | leave found _ _ ih ih' =>
    simp only [ComponentCompiler.firstElement?, findSome?_cons, found, bind_some] at ih ih' ⊢
    rw [ih, ih']
  | missing absent _ ih =>
    simp only [ComponentCompiler.firstElement?, findSome?_cons, absent, bind_none] at ih ⊢
    exact ih
  | @other _ node _ _ plain _ ih =>
    simp only [ComponentCompiler.firstElement?, findSome?_cons] at ih ⊢
    cases node with
    | element | placeholder => cases plain
    | text | fragment | slot => exact ih

def Settles (bodies : TemplateBodies) (n : Nat) (id : String) : Prop :=
  ∃ body element, bodies.get? id = some body ∧ Leads bodies n body element

theorem Leads.unique (leads : Leads bodies n nodes element) (again : Leads bodies m nodes other) :
    element = other := by
  have first := (leads.mono (Nat.le_max_left n m)).firstElement?
  exact first.symm.trans (again.mono (Nat.le_max_right n m)).firstElement?

theorem Leads.pred (full : ∀ id, Settles bodies (n + 1) id → Settles bodies n id)
    (leads : Leads bodies (n + 2) nodes element) : Leads bodies (n + 1) nodes element := by
  have inner {id : String} {body : List TemplateNode} {answer : Option ElementHead} (found : bodies.get? id = some body)
      (inside : Leads bodies (n + 1) body answer) : Leads bodies n body answer := by
    obtain ⟨body', answer', found', settled⟩ := full id ⟨body, answer, found, inside⟩
    cases found.symm.trans found'
    rwa [inside.unique settled]
  generalize deep : n + 2 = m at leads
  induction leads with
  | nil => exact .nil
  | element => exact .element
  | enter found inside =>
    cases deep
    exact .enter found (inner found inside)
  | leave found inside _ _ ih =>
    cases deep
    exact .leave found (inner found inside) (ih rfl)
  | missing absent _ ih => exact .missing absent (ih deep)
  | other plain _ ih => exact .other plain (ih deep)

theorem Settles.mono {id : String} (settles : Settles bodies n id) (le : n ≤ m) : Settles bodies m id := by
  obtain ⟨body, answer, found, leads⟩ := settles
  exact ⟨body, answer, found, leads.mono le⟩

theorem exists_settles {id : String} (settles : Settles bodies (n + 1) id) (late : ¬Settles bodies n id) :
    ∃ ids : List String, ids.Nodup ∧ ids.length = n + 1 ∧ ∀ id ∈ ids, Settles bodies (n + 1) id := by
  induction n generalizing id with
  | zero => exact ⟨[id], pairwise_singleton _ _, rfl, forall_mem_singleton.mpr settles⟩
  | succ n ih =>
    -- Were no body settled just one step earlier, the search for `id` would be over by then.
    have needed : ∃ id', Settles bodies (n + 1) id' ∧ ¬Settles bodies n id' := by
      by_contra none
      have full : ∀ id', Settles bodies (n + 1) id' → Settles bodies n id' :=
        fun id' here => by_contra fun there => none ⟨id', here, there⟩
      obtain ⟨body, answer, found, leads⟩ := settles
      exact late ⟨body, answer, found, leads.pred full⟩
    obtain ⟨id', here, there⟩ := needed
    obtain ⟨ids, nodup, length, all⟩ := ih here there
    refine ⟨id :: ids, nodup_cons.mpr ⟨fun mem => late (all id mem), nodup⟩, by rw [length_cons, length], ?_⟩
    exact forall_mem_cons.mpr ⟨settles, fun other mem => (all other mem).mono (Nat.le_succ _)⟩

theorem Settles.size {id : String} (settles : Settles bodies n id) : Settles bodies bodies.size id := by
  induction n with
  | zero => exact settles.mono (Nat.zero_le _)
  | succ n ih =>
    by_cases early : Settles bodies n id
    · exact ih early
    · -- The search has gone through more different bodies than there are, or within their number.
      obtain ⟨ids, nodup, length, all⟩ := exists_settles settles early
      have known : ids ⊆ bodies.keys := fun id mem => by
        obtain ⟨body, -, found, -⟩ := all id mem
        exact SortedMap.mem_keys_iff.mpr (by rw [SortedMap.contains, found]; rfl)
      have few := (subperm_of_subset nodup known).length_le
      rw [length, SortedMap.keys, length_map] at few
      exact settles.mono few

/-- The element that decides where a node goes: its own, or the first one of the body that it stands for. -/
inductive Decides (bodies : TemplateBodies) : TemplateNode → Option ElementHead → Prop where
  | element {head children projected} : Decides bodies (.element head children projected) (some head)
  | body {p body answer m} (found : bodies.get? p.template = some body) (leads : Leads bodies m body answer) :
      Decides bodies (.placeholder p) answer
  | missing {p} (absent : bodies.get? p.template = none) : Decides bodies (.placeholder p) none
  | other {x} (plain : x.look = .other) : Decides bodies x none

/-- A slot has a selector, and one of its alternatives matches the element. -/
def Takes (slots : List (Option String)) (element : Option ElementHead) (i : Nat) : Prop :=
  ∃ text head, slots[i]? = some (some text) ∧ element = some head ∧
    ∃ selector ∈ Selector.listOfText text, selector.selects head.target = true

/-- The slot for an element: the first one that takes it, else the first default slot, else none. -/
inductive Goes (slots : List (Option String)) (element : Option ElementHead) : Option Nat → Prop where
  | named {i} (here : Takes slots element i) (first : ∀ j < i, ¬Takes slots element j) : Goes slots element (some i)
  | default {i} (unnamed : ∀ j, ¬Takes slots element j) (here : slots[i]? = some none)
      (first : ∀ j < i, slots[j]? ≠ some none) : Goes slots element (some i)
  | dropped (unnamed : ∀ j, ¬Takes slots element j) (closed : none ∉ slots) : Goes slots element none

theorem Decides.routingHead? (decides : Decides bodies node element) : node.routingHead? bodies = element := by
  cases decides with
  | element => rfl
  | body found leads =>
    obtain ⟨body, answer, found', settled⟩ := Settles.size ⟨_, _, found, leads⟩
    cases found.symm.trans found'
    rw [TemplateNode.routingHead?, found, bind_some, settled.firstElement?, leads.unique settled]
  | missing absent => rw [TemplateNode.routingHead?, absent, bind_none]
  | other plain =>
    cases node with
    | element | placeholder => cases plain
    | text | fragment | slot => rfl

theorem takes_iff : Takes slots element i ↔
    ∃ slot head, slots[i]? = some slot ∧ element = some head ∧ slotAccepts head slot := by
  constructor
  · rintro ⟨text, head, here, same, selector, mem, matched⟩
    exact ⟨some text, head, here, same, List.any_eq_true.mpr ⟨selector, mem, matched⟩⟩
  · rintro ⟨slot, head, here, same, accepted⟩
    cases slot with
    | none => cases accepted
    | some text => exact ⟨text, head, here, same, List.any_eq_true.mp accepted⟩

theorem goes_slotIndex? (decides : Decides bodies node element) : Goes slots element (slotIndex? slots bodies node) := by
  unfold slotIndex?
  rw [decides.routingHead?]
  cases named : element.bind fun head => slots.findIdx? (slotAccepts head) with
  | some i =>
    obtain ⟨head, rfl, found⟩ := bind_eq_some_iff.mp named
    obtain ⟨inside, here, first⟩ := findIdx?_eq_some_iff_getElem.mp found
    refine .named (takes_iff.mpr ⟨slots[i], head, getElem?_eq_getElem inside, rfl, here⟩) fun j before taken => ?_
    obtain ⟨slot, _, there, ⟨⟩, accepted⟩ := takes_iff.mp taken
    obtain ⟨_, rfl⟩ := List.getElem?_eq_some_iff.mp there
    exact first j before accepted
  | none =>
    have unnamed : ∀ j, ¬Takes slots element j := by
      intro j taken
      obtain ⟨slot, head, there, rfl, accepted⟩ := takes_iff.mp taken
      have refused := findIdx?_eq_none_iff.mp named slot (mem_of_getElem? there)
      exact Bool.false_ne_true (refused.symm.trans accepted)
    rw [none_or]
    cases found : slots.findIdx? (·.isNone) with
    | none => exact .dropped unnamed fun mem => by cases findIdx?_eq_none_iff.mp found none mem
    | some i =>
      obtain ⟨inside, here, first⟩ := findIdx?_eq_some_iff_getElem.mp found
      refine .default unnamed ?_ fun j before there => ?_
      · rw [getElem?_eq_getElem inside, isNone_iff_eq_none.mp here]
      · obtain ⟨_, same⟩ := List.getElem?_eq_some_iff.mp there
        exact first j before (by rw [same]; rfl)

theorem Goes.lt (goes : Goes slots element (some i)) : i < slots.length := by
  cases goes with
  | named here =>
    obtain ⟨_, _, here, -⟩ := here
    exact (List.getElem?_eq_some_iff.mp here).1
  | default _ here => exact (List.getElem?_eq_some_iff.mp here).1

/-- Content parted by slots: the slot of each node, the nonempty buckets in the order of the slots, each in the order of
the content, and in all just what has a slot, as often as it stands in the content. -/
structure Parts (slots : List (Option String)) (bodies : TemplateBodies) (content : List TemplateNode)
    (place : TemplateNode → Option Nat) (routed : List (Projection TemplateNode)) : Prop where
  places : ∀ node ∈ content, ∃ element, Decides bodies node element ∧ Goes slots element (place node)
  buckets : routed = slots.zipIdx.filterMap (bucket place content)
  kept : (routed.flatMap (·.nodes)).Perm (content.filter fun node => (place node).isSome)

theorem flatMap_nodes_buckets (place : TemplateNode → Option Nat) (content)
    (numbered : List (Option String × Nat)) : ((numbered.filterMap (bucket place content)).flatMap (·.nodes)) =
      (numbered.map (·.2)).flatMap fun i => content.filter (place · == some i) := by
  induction numbered with
  | nil => rfl
  | cons slot rest ih =>
    rw [filterMap_cons, map_cons, flatMap_cons, ← ih, bucket]
    cases content.filter (place · == some slot.2) <;> rfl

theorem perm_flatMap_filter (place : TemplateNode → Option Nat) (content : List TemplateNode) {numbers : List Nat}
    (nodup : numbers.Nodup) : (numbers.flatMap fun i => content.filter (place · == some i)).Perm
      (content.filter fun node => (place node).any numbers.contains) := by
  induction numbers with
  | nil =>
    have dropped : ∀ node ∈ content, ¬(place node).any [].contains := fun node _ => by cases place node <;> simp
    rw [filter_eq_nil_iff.mpr dropped]
    rfl
  | cons i rest ih =>
    obtain ⟨fresh, nodup⟩ := nodup_cons.mp nodup
    rw [flatMap_cons]
    refine ((ih nodup).append_left _).trans ?_
    refine .trans (.of_eq ?_) (filter_append_perm (place · == some i) _)
    rw [List.filter_filter, List.filter_filter]
    congr 1 <;> refine filter_congr fun node _ => ?_ <;> cases place node with
    | none => rfl
    | some j => by_cases same : j = i <;> simp_all

theorem routeContent_eq_buckets (slots) (bodies) (content) :
    routeContent slots bodies content = slots.zipIdx.filterMap (bucket (slotIndex? slots bodies) content) := by
  rw [routeContent_eq, funext (slotIndex?_eq slots bodies)]

theorem perm_routeContent (slots) (bodies) (content) :
    ((routeContent slots bodies content).flatMap (·.nodes)).Perm
      (content.filter fun node => (slotIndex? slots bodies node).any (range' 0 slots.length).contains) := by
  rw [routeContent_eq_buckets, flatMap_nodes_buckets, zipIdx_map_snd]
  exact perm_flatMap_filter _ content nodup_range'

/-- Where the search for the element of each node ends, routing parts the content by the slots that the elements go to. -/
theorem routeContent_partitions (slots : List (Option String)) (bodies : TemplateBodies) (content : List TemplateNode)
    (ends : ∀ node ∈ content, ∃ element, Decides bodies node element) :
    ∃ place, Parts slots bodies content place (routeContent slots bodies content) := by
  have places : ∀ node ∈ content, ∃ element, Decides bodies node element ∧
      Goes slots element (slotIndex? slots bodies node) := by
    intro node member
    obtain ⟨element, decides⟩ := ends node member
    exact ⟨element, decides, goes_slotIndex? decides⟩
  refine ⟨slotIndex? slots bodies, places, routeContent_eq_buckets slots bodies content, ?_⟩
  refine (perm_routeContent slots bodies content).trans (.of_eq (filter_congr fun node member => ?_))
  obtain ⟨element, -, goes⟩ := places node member
  cases place : slotIndex? slots bodies node with
  | none => rfl
  | some i =>
    rw [place] at goes
    simpa using goes.lt

/-- A placeholder inside the body of another one, a text, and a selector that is given twice. -/
theorem nested_placeholders_routed : ∃ place,
    let wrapped (id : String) : TemplateNode := .placeholder { directive := "if", template := id }
    let bodies := SortedMap.ofList [("a", [wrapped "b"]), ("b", [.element { tag := "h2" } [] []])]
    let content := [.text [], wrapped "a", wrapped "none", .element { tag := "h2" } [] []]
    let slots := [some "h1, h2", none, some "h2"]
    Parts slots bodies content place (routeContent slots bodies content) := by
  refine routeContent_partitions _ _ _ fun node member => ?_
  simp only [mem_cons, not_mem_nil, or_false] at member
  rcases member with rfl | rfl | rfl | rfl
  · exact ⟨none, .other rfl⟩
  · exact ⟨_, .body rfl (.enter rfl .element (n := 0))⟩
  · exact ⟨none, .missing rfl⟩
  · exact ⟨_, .element⟩

end ComponentCompiler
