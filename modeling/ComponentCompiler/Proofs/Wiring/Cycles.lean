import ComponentCompiler.Proofs.Collection.SortedMap
import ComponentCompiler.Wiring.Cycle
import Mathlib.Data.List.Chain
import Mathlib.Data.List.Perm.Subperm
import Mathlib.Data.List.Rotate
import Mathlib.Logic.Relation

/-!
The cycles that a search of a graph reports. An edge of a name that the search has left leads to
another such name or back to its path, and then a cycle with this edge has been reported
(`Explored.closed`).
-/

namespace ComponentCompiler.NameGraph

open List
open SortedSet (contains_add mem_toList)

variable {g : NameGraph} {x y name : String} {c walk path : List String} {s s' : Search}
variable {next : String} {fuel : Nat} {e : String × String}

/-! ### Cycles -/

def Edge (g : NameGraph) (x y : String) : Prop := y ∈ g.targets x

/-- The steps around a cycle: from each name to the next one, and from the last to the first. -/
def links (c : List String) : List (String × String) := c.zip (c.rotate 1)

def IsClosed (g : NameGraph) (c : List String) : Prop := ∀ e ∈ links c, g.Edge e.1 e.2

structure IsCycle (g : NameGraph) (c : List String) : Prop where
  nonempty : c ≠ []
  nodup : c.Nodup
  closed : g.IsClosed c

def StartsSmallest (c : List String) : Prop := ∀ first ∈ c.head?, ∀ x ∈ c, first ≤ x

theorem links_rotate (c : List String) (n) : links (c.rotate n) = (links c).rotate n := by
  have turned := zipWith_rotate_distrib Prod.mk c (c.rotate 1) n (length_rotate c 1).symm
  rw [rotate_rotate, Nat.add_comm, ← rotate_rotate] at turned
  exact turned.symm

theorem links_cons (x) (rest) :
    links (x :: rest) = (x :: (rest ++ [x])).zip (rest ++ [x]) := by
  have around : (x :: rest).rotate 1 = rest ++ [x] := by simp
  have cut := @List.zip_append _ _ (x :: rest) [x] (rest ++ [x]) [] (by simp)
  rw [append_nil, zip_nil_right, append_nil] at cut
  rw [links, around]
  exact cut.symm

theorem exists_first_link (x) (rest) : ∃ y ∈ x :: rest, (x, y) ∈ links (x :: rest) := by
  rw [links_cons]
  cases rest with
  | nil => exact ⟨x, mem_cons_self, mem_cons_self⟩
  | cons y rest => exact ⟨y, by simp, mem_cons_self⟩

theorem IsClosed.rotate (closed : g.IsClosed c) (n) : g.IsClosed (c.rotate n) := by
  intro e mem
  rw [links_rotate, mem_rotate] at mem
  exact closed e mem

theorem IsCycle.rotate (cycle : g.IsCycle c) (n) : g.IsCycle (c.rotate n) where
  nonempty := by simpa using cycle.nonempty
  nodup := nodup_rotate.mpr cycle.nodup
  closed := cycle.closed.rotate n

theorem exists_rotate (mem : x ∈ c) : ∃ n rest, c.rotate n = x :: rest := by
  obtain ⟨before, after, rfl⟩ := append_of_mem mem
  exact ⟨before.length, after ++ before, rotate_append_length_eq before (x :: after)⟩

theorem exists_link {P : String → Prop} {names : List String} (mem : y ∈ names) (lost : ¬P y) (x) :
    ∃ e ∈ (x :: names).zip names, (e.1 = x ∨ P e.1) ∧ ¬P e.2 := by
  induction names generalizing x with
  | nil => cases mem
  | cons next rest ih =>
    by_cases kept : P next
    · have later : y ∈ rest := (mem_cons.mp mem).resolve_left fun same => lost (same ▸ kept)
      obtain ⟨e, step, before, after⟩ := ih later next
      refine ⟨e, mem_cons_of_mem _ step, .inr ?_, after⟩
      rcases before with same | holds
      · exact same ▸ kept
      · exact holds
    · exact ⟨(x, next), mem_cons_self, .inl rfl, kept⟩

theorem IsClosed.reaches (closed : g.IsClosed c) (start : x ∈ c) (stop : y ∈ c) :
    Relation.ReflTransGen g.Edge x y := by
  obtain ⟨n, rest, turned⟩ := exists_rotate start
  have closed := turned ▸ closed.rotate n
  have mem : y ∈ rest ++ [x] := by
    have mem : y ∈ c.rotate n := mem_rotate.mpr stop
    rw [turned] at mem
    simpa [or_comm] using mem
  by_contra lost
  obtain ⟨e, step, before, after⟩ := exists_link (P := Relation.ReflTransGen g.Edge x) mem lost x
  have edge := closed e (by rwa [links_cons])
  refine after (.tail ?_ edge)
  rcases before with same | reached
  · rw [same]
  · exact reached

theorem exists_walk (returns : Relation.TransGen g.Edge x y) :
    ∃ rest, ∀ e ∈ (x :: (rest ++ [y])).zip (rest ++ [y]), g.Edge e.1 e.2 := by
  induction returns using Relation.TransGen.head_induction_on with
  | single edge => exact ⟨[], by simpa using edge⟩
  | @head x next edge _ ih =>
    obtain ⟨rest, edges⟩ := ih
    refine ⟨next :: rest, fun e mem => ?_⟩
    rcases mem_cons.mp mem with rfl | later
    · exact edge
    · exact edges e later

/-! ### The normal form -/

theorem smallest_cons (x) (rest) :
    ∃ m ∈ x :: rest, smallest (x :: rest) = some m ∧ ∀ y ∈ x :: rest, m ≤ y := by
  induction rest generalizing x with
  | nil => exact ⟨x, mem_cons_self, rfl, by simp⟩
  | cons next rest ih =>
    obtain ⟨m, mem, found, least⟩ := ih next
    by_cases less : m < x
    · refine ⟨m, mem_cons_of_mem _ mem, by rw [smallest, found]; simp [less], ?_⟩
      exact forall_mem_cons.mpr ⟨String.not_lt.mp (String.lt_asymm less), least⟩
    · refine ⟨x, mem_cons_self, by rw [smallest, found]; simp [less], ?_⟩
      exact forall_mem_cons.mpr ⟨String.le_refl x, fun y later => String.le_trans (String.not_lt.mp less) (least y later)⟩

theorem dropWhile_ne (mem : x ∈ c) : ∃ rest, c.dropWhile (· != x) = x :: rest := by
  induction c with
  | nil => cases mem
  | cons name rest ih =>
    by_cases same : name = x
    · exact ⟨rest, by simp [same]⟩
    · obtain ⟨after, found⟩ := ih ((mem_cons.mp mem).resolve_left (Ne.symm same))
      exact ⟨after, by simpa [dropWhile_cons, same] using found⟩

theorem normalizeCycle_rotate (nonempty : c ≠ []) :
    (∃ n, normalizeCycle c = c.rotate n) ∧ StartsSmallest (normalizeCycle c) := by
  have least : ∃ m ∈ c, smallest c = some m ∧ ∀ y ∈ c, m ≤ y := by
    obtain ⟨first, rest, rfl⟩ := exists_cons_of_ne_nil nonempty
    exact smallest_cons first rest
  obtain ⟨m, mem, found, least⟩ := least
  have form : normalizeCycle c = c.dropWhile (· != m) ++ c.takeWhile (· != m) := by
    rw [normalizeCycle, found]
  have turned : normalizeCycle c = c.rotate (c.takeWhile (· != m)).length := by
    have around := rotate_append_length_eq (c.takeWhile (· != m)) (c.dropWhile (· != m))
    rw [List.takeWhile_append_dropWhile] at around
    rw [form, around]
  refine ⟨⟨_, turned⟩, fun start here x inside => ?_⟩
  obtain ⟨rest, dropped⟩ := dropWhile_ne mem
  rw [form, dropped] at here
  cases here
  exact least x (by simpa [turned] using inside)

theorem StartsSmallest.eq_of_isRotated (first : StartsSmallest c) (second : StartsSmallest path) (nodup : c.Nodup)
    (turned : c ~r path) : c = path := by
  obtain ⟨n, rfl⟩ := turned
  cases c with
  | nil => simp
  | cons x rest =>
    obtain ⟨n, inside, turned⟩ : ∃ k < (x :: rest).length, (x :: rest).rotate n = (x :: rest).rotate k :=
      ⟨_, Nat.mod_lt _ (Nat.succ_pos _), (rotate_mod _ _).symm⟩
    rw [turned] at second ⊢
    obtain ⟨start, here⟩ : ∃ y, (x :: rest)[n]? = some y := ⟨_, getElem?_eq_getElem inside⟩
    have below := second start (by rw [head?_rotate inside, here]; rfl) x (by simp)
    have above := first x rfl start (mem_of_getElem? here)
    rw [String.le_antisymm below above] at here
    have : n = 0 := (getElem?_inj inside nodup).mp (by rw [here]; rfl)
    rw [this, rotate_zero]

/-! ### Paths -/

def names (g : NameGraph) : List String := g.keys ++ g.values.flatten

theorem mem_names_of_edge (edge : g.Edge x y) : x ∈ g.keys ∧ y ∈ g.names := by
  unfold Edge targets at edge
  cases here : g.get? x with
  | none =>
    rw [here] at edge
    cases edge
  | some ys =>
    rw [here] at edge
    refine ⟨SortedMap.mem_keys_iff.mpr (by rw [SortedMap.contains, here]; rfl), mem_append_right _ ?_⟩
    exact mem_flatten.mpr ⟨ys, SortedMap.mem_values_iff.mpr ⟨x, here⟩, edge⟩

/-- A way through the graph that goes to no name twice. -/
structure IsPath (g : NameGraph) (path : List String) : Prop where
  chain : path.IsChain g.Edge
  nodup : path.Nodup
  inside : path ⊆ g.names

theorem IsPath.extend (isPath : g.IsPath (path ++ [name])) (edge : g.Edge name next) (off : next ∉ path ++ [name]) :
    g.IsPath (path ++ [name] ++ [next]) where
  chain := by
    refine isPath.chain.append (.singleton next) fun last here first start => ?_
    rw [getLast?_concat] at here
    cases here
    cases start
    exact edge
  nodup := by
    refine nodup_append.mpr ⟨isPath.nodup, pairwise_singleton _ _, ?_⟩
    rintro x mem _ here rfl
    exact off (mem_singleton.mp here ▸ mem)
  inside := append_subset.mpr ⟨isPath.inside, by simpa using (mem_names_of_edge edge).2⟩

theorem IsPath.bound_pos (isPath : g.IsPath (path ++ [name])) (enough : g.names.length ≤ fuel + path.length) :
    0 < fuel := by
  have short := (subperm_of_subset isPath.nodup isPath.inside).length_le
  rw [List.length_append, List.length_singleton] at short
  omega

theorem edge_of_mem_zip {names : List String} (chain : (x :: names).IsChain g.Edge)
    (mem : e ∈ (x :: names).zip names) : g.Edge e.1 e.2 := by
  induction names generalizing x with
  | nil => cases mem
  | cons next rest ih =>
    obtain ⟨edge, chain⟩ := isChain_cons_cons.mp chain
    rcases mem_cons.mp mem with rfl | later
    · exact edge
    · exact ih chain later

theorem IsPath.isCycle (isPath : g.IsPath (path ++ [name])) (edge : g.Edge name next) (back : next ∈ path ++ [name]) :
    g.IsCycle ((path ++ [name]).dropWhile (· != next)) ∧
      (name, next) ∈ links ((path ++ [name]).dropWhile (· != next)) := by
  obtain ⟨rest, dropped⟩ := dropWhile_ne back
  rw [dropped]
  have part : next :: rest <:+ path ++ [name] := dropped ▸ dropWhile_suffix _
  obtain ⟨inner, ending, -⟩ := (suffix_concat_iff.mp part).resolve_left (cons_ne_nil _ _)
  have around : (next :: (rest ++ [next])).IsChain g.Edge := by
    rw [← cons_append]
    refine (isPath.chain.suffix part).append (.singleton next) fun last here first start => ?_
    rw [ending, getLast?_concat] at here
    cases here
    cases start
    exact edge
  refine ⟨⟨cons_ne_nil _ _, isPath.nodup.sublist part.sublist, fun e mem => ?_⟩, ?_⟩
  · rw [links_cons] at mem
    exact edge_of_mem_zip around mem
  · have turned := rotate_append_length_eq inner [name]
    rw [← ending] at turned
    rw [← mem_rotate (n := inner.length), ← links_rotate, turned, singleton_append, links_cons, ← ending]
    exact mem_cons_self

/-! ### Steps of the search -/

def Search.Reports (s : Search) (e : String × String) : Prop := ∃ c, s.cycles.contains c = true ∧ e ∈ links c

/-- The step leads to a name that the search has left, or back to its path, and then a cycle with it is reported. -/
def Search.Settles (s : Search) (path : List String) (e : String × String) : Prop :=
  s.done.contains e.2 = true ∨ e.2 ∈ path ∧ s.Reports e

/-- The second search has left and reported all that the first one has. -/
structure Search.Extends (s s' : Search) : Prop where
  done : ∀ {x}, s.done.contains x = true → s'.done.contains x = true
  cycles : ∀ {c}, s.cycles.contains c = true → s'.cycles.contains c = true

structure Explored (g : NameGraph) (path : List String) (s : Search) : Prop where
  sound : ∀ {c}, s.cycles.contains c = true → g.IsCycle c ∧ StartsSmallest c
  apart : ∀ x ∈ path, s.done.contains x = false
  closed : ∀ {x y}, s.done.contains x = true → g.Edge x y → s.Settles path (x, y)
  met : ∀ {walk x}, g.IsClosed walk → x ∈ walk → s.done.contains x = true → ∃ e ∈ links walk, s.Reports e

theorem Search.Reports.mono (reports : s.Reports e) (later : s.Extends s') : s'.Reports e := by
  obtain ⟨c, reported, mem⟩ := reports
  exact ⟨c, later.cycles reported, mem⟩

theorem Search.Settles.mono (settles : s.Settles path e) (later : s.Extends s') : s'.Settles path e := by
  rcases settles with left | ⟨back, reports⟩
  · exact .inl (later.done left)
  · exact .inr ⟨back, reports.mono later⟩

theorem Search.Extends.refl (s : Search) : s.Extends s := ⟨id, id⟩

theorem Search.Extends.trans (first : s.Extends s') (second : s'.Extends s'') : s.Extends s'' :=
  ⟨fun left => second.done (first.done left), fun reported => second.cycles (first.cycles reported)⟩

theorem Search.extends_report (s : Search) (c) : s.Extends { s with cycles := s.cycles.add c } :=
  ⟨id, fun reported => contains_add.mpr (.inr reported)⟩

theorem Search.extends_leave (s : Search) (name) : s.Extends { s with done := s.done.add name } :=
  ⟨fun left => contains_add.mpr (.inr left), id⟩

theorem Explored.report (explored : g.Explored path s) (cycle : g.IsCycle c) :
    g.Explored path { s with cycles := s.cycles.add (normalizeCycle c) } where
  sound {c'} reported := by
    rcases contains_add.mp reported with rfl | old
    · obtain ⟨⟨n, turned⟩, smallest⟩ := normalizeCycle_rotate cycle.nonempty
      exact ⟨turned ▸ cycle.rotate n, smallest⟩
    · exact explored.sound old
  apart := explored.apart
  closed left edge := (explored.closed left edge).mono (s.extends_report _)
  met closed mem left := by
    obtain ⟨e, step, reports⟩ := explored.met closed mem left
    exact ⟨e, step, reports.mono (s.extends_report _)⟩

theorem Explored.enter (explored : g.Explored path s) (fresh : s.done.contains name = false) :
    g.Explored (path ++ [name]) s where
  sound := explored.sound
  apart x mem := by
    rcases mem_append.mp mem with old | new
    · exact explored.apart x old
    · rwa [mem_singleton.mp new]
  closed left edge := (explored.closed left edge).imp_right (And.imp_left (mem_append_left _))
  met := explored.met

theorem Explored.leave (explored : g.Explored (path ++ [name]) s) (isPath : g.IsPath (path ++ [name]))
    (settled : ∀ y, g.Edge name y → s.Settles (path ++ [name]) (name, y)) :
    g.Explored path { s with done := s.done.add name } where
  sound := explored.sound
  apart x mem := by
    refine Bool.eq_false_iff.mpr fun left => ?_
    rcases contains_add.mp left with rfl | old
    · exact (nodup_append.mp isPath.nodup).2.2 x mem x (by simp) rfl
    · rw [explored.apart x (mem_append_left _ mem)] at old
      cases old
  closed {x y} left edge := by
    have settles : s.Settles (path ++ [name]) (x, y) := by
      rcases contains_add.mp left with rfl | old
      · exact settled y edge
      · exact explored.closed old edge
    rcases settles with old | ⟨back, reports⟩
    · exact .inl (contains_add.mpr (.inr old))
    · rcases mem_append.mp back with back | here
      · exact .inr ⟨back, reports⟩
      · exact .inl (contains_add.mpr (.inl (mem_singleton.mp here)))
  met {walk x} closed mem left := by
    rcases contains_add.mp left with rfl | old
    · -- from the name the walk leads to names that are left, until a step goes back to the path
      obtain ⟨n, rest, turned⟩ := exists_rotate mem
      have here : s.done.contains x = false := explored.apart x (by simp)
      have returns : x ∈ rest ++ [x] := by simp
      obtain ⟨e, step, before, after⟩ :=
        exists_link (P := fun y => s.done.contains y) returns (by simp [here]) x
      have step : e ∈ links walk := by
        rwa [← mem_rotate (n := n), ← links_rotate, turned, links_cons]
      have edge := closed e step
      have settles : s.Settles (path ++ [x]) e := by
        rcases before with same | left
        · rw [same] at edge
          exact same ▸ settled e.2 edge
        · exact explored.closed left edge
      rcases settles with left | ⟨-, reports⟩
      · exact absurd left after
      · exact ⟨e, step, reports⟩
    · exact explored.met closed mem old

/-! ### Visits -/

structure Visited (g : NameGraph) (path : List String) (s s' : Search) (name : String) : Prop where
  explored : g.Explored path s'
  later : s.Extends s'
  left : s'.done.contains name = true

section Follow

variable {enter : Search → String → Search} (isPath : g.IsPath (path ++ [name]))
  (visits : ∀ {s next}, g.Edge name next → g.Explored (path ++ [name]) s → next ∉ path ++ [name] →
    s.done.contains next = false → g.Visited (path ++ [name]) s (enter s next) next)
include isPath visits

theorem explored_follow (explored : g.Explored (path ++ [name]) s) (edge : g.Edge name next) :
    g.Explored (path ++ [name]) (follow enter (path ++ [name]) s next) ∧
      s.Extends (follow enter (path ++ [name]) s next) ∧
      (follow enter (path ++ [name]) s next).Settles (path ++ [name]) (name, next) := by
  unfold follow
  split
  · rename_i back
    have back : next ∈ path ++ [name] := by simpa using back
    obtain ⟨cycle, closing⟩ := isPath.isCycle edge back
    obtain ⟨⟨n, turned⟩, -⟩ := normalizeCycle_rotate cycle.nonempty
    refine ⟨explored.report cycle, s.extends_report _, .inr ⟨back, _, contains_add.mpr (.inl rfl), ?_⟩⟩
    rwa [turned, links_rotate, mem_rotate]
  · rename_i off
    split
    · rename_i left
      exact ⟨explored, .refl s, .inl left⟩
    · rename_i fresh
      have visited := visits edge explored (by simpa using off) (by simpa using fresh)
      exact ⟨visited.explored, visited.later, .inl visited.left⟩

theorem explored_foldl_follow (listed : nexts ⊆ g.targets name) (explored : g.Explored (path ++ [name]) s) :
    let s' := nexts.foldl (follow enter (path ++ [name])) s
    g.Explored (path ++ [name]) s' ∧ s.Extends s' ∧ ∀ y ∈ nexts, s'.Settles (path ++ [name]) (name, y) := by
  induction nexts generalizing s with
  | nil => exact ⟨explored, .refl s, by simp⟩
  | cons next rest ih =>
    obtain ⟨edge, listed⟩ := cons_subset.mp listed
    obtain ⟨explored, later, settles⟩ := explored_follow isPath visits explored edge
    obtain ⟨explored, later', settled⟩ := ih listed explored
    exact ⟨explored, later.trans later', forall_mem_cons.mpr ⟨settles.mono later', settled⟩⟩

end Follow

theorem visited_visit (enough : g.names.length ≤ fuel + path.length) (isPath : g.IsPath (path ++ [name]))
    (explored : g.Explored path s) (fresh : s.done.contains name = false) :
    g.Visited path s (visit g fuel path s name) name := by
  induction fuel generalizing path s name with
  | zero => exact absurd (isPath.bound_pos enough) (Nat.lt_irrefl 0)
  | succ fuel ih =>
    have fewer : g.names.length ≤ fuel + (path ++ [name]).length := by
      rw [List.length_append, List.length_singleton]
      omega
    obtain ⟨explored, later, settled⟩ := explored_foldl_follow isPath
      (fun edge explored off fresh => ih fewer (isPath.extend edge off) explored fresh) (Subset.refl _)
      (explored.enter fresh)
    rw [visit]
    exact ⟨explored.leave isPath settled, later.trans (Search.extends_leave _ _), contains_add.mpr (.inl rfl)⟩

theorem visit_succ (enough : g.names.length ≤ fuel + path.length) (isPath : g.IsPath (path ++ [name])) (s) :
    visit g (fuel + 1) path s name = visit g fuel path s name := by
  induction fuel generalizing path s name with
  | zero => exact absurd (isPath.bound_pos enough) (Nat.lt_irrefl 0)
  | succ fuel ih =>
    have fewer : g.names.length ≤ fuel + (path ++ [name]).length := by
      rw [List.length_append, List.length_singleton]
      omega
    have same : ∀ s, ∀ next ∈ g.targets name, follow (visit g (fuel + 1) (path ++ [name])) (path ++ [name]) s next =
        follow (visit g fuel (path ++ [name])) (path ++ [name]) s next := by
      intro s next edge
      unfold follow
      split
      · rfl
      · rename_i off
        rw [ih fewer (isPath.extend edge (by simpa using off))]
    rw [visit, visit, foldl_ext _ _ _ same]

/-! ### The whole search -/

theorem isPath_singleton (inside : name ∈ g.names) : g.IsPath ([] ++ [name]) where
  chain := .singleton name
  nodup := pairwise_singleton _ name
  inside := by simpa using inside

theorem length_names_le (g : NameGraph) : g.names.length ≤ g.bound + ([] : List String).length := by
  have keys : g.keys.length = g.size := List.length_map _
  rw [names, List.length_append, bound, keys, length_nil]
  omega

theorem visit_of_bound_le (enough : g.bound ≤ fuel) (inside : name ∈ g.names) (s) :
    visit g fuel [] s name = visit g g.bound [] s name := by
  induction fuel, enough using Nat.le_induction with
  | base => rfl
  | succ fuel enough ih =>
    rw [visit_succ (Nat.le_trans g.length_names_le (Nat.add_le_add_right enough _)) (isPath_singleton inside), ih]

theorem exists_explored (g : NameGraph) : ∃ s : Search, g.Explored [] s ∧
    (∀ x ∈ g.keys, s.done.contains x) ∧ g.cycles = SortedSet.toList s.cycles := by
  have all : ∀ (keys : List String) (s : Search), keys ⊆ g.keys → g.Explored [] s →
      let s' := keys.foldl (fun (s : Search) name =>
        if s.done.contains name then s else visit g g.bound [] s name) s
      g.Explored [] s' ∧ s.Extends s' ∧ ∀ x ∈ keys, s'.done.contains x := by
    intro keys
    induction keys with
    | nil => exact fun s _ explored => ⟨explored, .refl s, by simp⟩
    | cons name rest ih =>
      intro s listed explored
      obtain ⟨inside, listed⟩ := cons_subset.mp listed
      have visited : g.Visited [] s (if s.done.contains name then s else visit g g.bound [] s name) name := by
        split
        · rename_i left
          exact ⟨explored, .refl s, left⟩
        · rename_i fresh
          exact visited_visit g.length_names_le (isPath_singleton (mem_append_left _ inside)) explored
            (by simpa using fresh)
      obtain ⟨explored, later, left⟩ := ih _ listed visited.explored
      exact ⟨explored, visited.later.trans later, forall_mem_cons.mpr ⟨later.done visited.left, left⟩⟩
  have start : g.Explored [] {} := by
    constructor
    · intro c reported
      cases reported
    · simp
    · intro x y left
      cases left
    · intro walk x _ _ left
      cases left
  obtain ⟨explored, -, left⟩ := all g.keys {} (Subset.refl _) start
  exact ⟨_, explored, left, rfl⟩

theorem sound_of_mem_cycles (reported : c ∈ g.cycles) : g.IsCycle c ∧ StartsSmallest c := by
  obtain ⟨s, explored, -, cycles⟩ := g.exists_explored
  rw [cycles, mem_toList] at reported
  exact explored.sound reported

/-- A walk that returns to its start has a step of a reported cycle. -/
theorem exists_mem_cycles_of_isClosed (nonempty : walk ≠ []) (closed : g.IsClosed walk) :
    ∃ c ∈ g.cycles, ∃ e ∈ links walk, e ∈ links c := by
  obtain ⟨s, explored, left, cycles⟩ := g.exists_explored
  obtain ⟨x, rest, rfl⟩ := exists_cons_of_ne_nil nonempty
  obtain ⟨y, -, first⟩ := exists_first_link x rest
  obtain ⟨e, step, c, reported, mem⟩ :=
    explored.met closed mem_cons_self (left x (mem_names_of_edge (closed _ first)).1)
  exact ⟨c, by rwa [cycles, mem_toList], e, step, mem⟩

theorem nodup_cycles (g : NameGraph) : g.cycles.Nodup := by
  obtain ⟨s, -, -, cycles⟩ := g.exists_explored
  rw [cycles]
  exact SortedSet.nodup_toList s.cycles

def Connected (g : NameGraph) (x y : String) : Prop :=
  Relation.ReflTransGen g.Edge x y ∧ Relation.ReflTransGen g.Edge y x

theorem exists_mem_cycles_connected (returns : Relation.TransGen g.Edge x x) :
    ∃ c ∈ g.cycles, ∀ y ∈ c, g.Connected x y := by
  obtain ⟨rest, edges⟩ := exists_walk returns
  have closed : g.IsClosed (x :: rest) := by rwa [IsClosed, links_cons]
  obtain ⟨c, reported, e, step, mem⟩ := exists_mem_cycles_of_isClosed (cons_ne_nil _ _) closed
  have start : x ∈ x :: rest := mem_cons_self
  have onWalk : e.1 ∈ x :: rest := (of_mem_zip step).1
  have onCycle : e.1 ∈ c := (of_mem_zip mem).1
  have around := (sound_of_mem_cycles reported).1.closed
  refine ⟨c, reported, fun y here => ⟨?_, ?_⟩⟩
  · exact (closed.reaches start onWalk).trans (around.reaches onCycle here)
  · exact (around.reaches here onCycle).trans (closed.reaches onWalk start)

theorem IsCycle.returns (cycle : g.IsCycle c) : ∃ x, Relation.TransGen g.Edge x x := by
  obtain ⟨x, rest, rfl⟩ := exists_cons_of_ne_nil cycle.nonempty
  obtain ⟨y, inside, first⟩ := exists_first_link x rest
  have edge : g.Edge x y := cycle.closed (x, y) first
  exact ⟨x, .head' edge (cycle.closed.reaches inside mem_cons_self)⟩

/-- The search ends by itself, and more of its bound changes nothing. It reports simple cycles, each in the rotation that
starts at its smallest name and in one rotation only. Each strongly connected part of the graph that has a cycle has a
reported one, so that nothing is reported exactly if the graph has no cycle. -/
theorem cycles_cover_components (g : NameGraph) :
    (∀ fuel ≥ g.bound, ∀ name ∈ g.keys, ∀ s, visit g fuel [] s name = visit g g.bound [] s name) ∧
      (∀ c ∈ g.cycles, g.IsCycle c ∧ StartsSmallest c) ∧
      g.cycles.Pairwise (fun c d => ¬c ~r d) ∧
      (∀ x, Relation.TransGen g.Edge x x → ∃ c ∈ g.cycles, ∀ y ∈ c, g.Connected x y) ∧
      (g.cycles = [] ↔ ∀ x, ¬Relation.TransGen g.Edge x x) := by
  refine ⟨fun fuel enough name key s => visit_of_bound_le enough (mem_append_left _ key) s,
    fun c => sound_of_mem_cycles, ?_, fun x => exists_mem_cycles_connected, fun none x returns => ?_, fun acyclic => ?_⟩
  · refine g.nodup_cycles.pairwise_of_forall_ne fun c reported d reported' differ turned => differ ?_
    have here := sound_of_mem_cycles reported
    exact here.2.eq_of_isRotated (sound_of_mem_cycles reported').2 here.1.nodup turned
  · obtain ⟨c, reported, -⟩ := exists_mem_cycles_connected returns
    rw [none] at reported
    cases reported
  · refine eq_nil_iff_forall_not_mem.mpr fun c reported => ?_
    obtain ⟨x, returns⟩ := (sound_of_mem_cycles reported).1.returns
    exact acyclic x returns

/-- The search reports simple cycles, each once. It does not report all of them, but each has an edge of a reported one:
without the edges of reported cycles the graph has no cycle. A cycle that has no edge in common with another is
reported. -/
theorem cycles_share_edges (g : NameGraph) :
    g.cycles.Nodup ∧ (∀ c ∈ g.cycles, g.IsCycle c ∧ StartsSmallest c) ∧
      (∀ c, g.IsCycle c → ∃ d ∈ g.cycles, ∃ e ∈ links c, e ∈ links d) ∧
      (∀ c, g.IsCycle c → StartsSmallest c →
        (∀ d, g.IsCycle d → StartsSmallest d → (∃ e ∈ links c, e ∈ links d) → d = c) → c ∈ g.cycles) ∧
      (∀ g' : NameGraph, (∀ x y, g'.Edge x y → g.Edge x y ∧ ∀ c ∈ g.cycles, (x, y) ∉ links c) → g'.cycles = []) := by
  have shares : ∀ c, g.IsCycle c → ∃ d ∈ g.cycles, ∃ e ∈ links c, e ∈ links d :=
    fun c cycle => exists_mem_cycles_of_isClosed cycle.nonempty cycle.closed
  refine ⟨g.nodup_cycles, fun c => sound_of_mem_cycles, shares, fun c cycle _ alone => ?_, fun g' mended => ?_⟩
  · obtain ⟨d, reported, common⟩ := shares c cycle
    obtain ⟨cycle', smallest⟩ := sound_of_mem_cycles reported
    exact alone d cycle' smallest common ▸ reported
  · refine eq_nil_iff_forall_not_mem.mpr fun c reported => ?_
    have cycle := (sound_of_mem_cycles reported).1
    obtain ⟨d, reported', e, step, step'⟩ :=
      shares c ⟨cycle.nonempty, cycle.nodup, fun e step => (mended _ _ (cycle.closed e step)).1⟩
    exact (mended _ _ (cycle.closed e step)).2 d reported' step'

def chorded : NameGraph := .ofList [("A", ["B", "C"]), ("B", ["C"]), ("C", ["A"])]

/-- When the search looks at the step from `A` to `C`, it has left `C`: the cycle of these two is not reported. It comes to
light when the step from `A` to `B` is gone. -/
theorem chord_hides_cycle :
    chorded.IsCycle ["A", "C"] ∧ StartsSmallest ["A", "C"] ∧ chorded.cycles = [["A", "B", "C"]] ∧
      NameGraph.cycles (chorded.insert "A" ["C"]) = [["A", "C"]] := by
  refine ⟨⟨cons_ne_nil _ _, by decide, ?_⟩, ?_, by decide, by decide⟩
  · unfold IsClosed Edge
    decide
  · unfold StartsSmallest
    decide

end ComponentCompiler.NameGraph
