import ComponentCompiler.Proofs.Graph.Records
import ComponentCompiler.Graph.Session
import Mathlib.Logic.Relation

/-!
The names that a file exports, through any chain of star re-exports. Main statements:
`contains_exportSurface` and `isOpen_exportSurface`.
-/

namespace ComponentCompiler

open List

def starImports (exports : List ExportName) : List Nat :=
  exports.filterMap fun e => if e.star then e.reexportOf else none

def ownNames (exports : List ExportName) : List String :=
  (exports.filter fun e => !e.star).map (·.exported)

def FileRecord.exports (r : FileRecord) : List ExportName := (r.surface.map (·.exports)).getD []

def FileGraph.StarStep (g : FileGraph) (x y : Nat) : Prop :=
  ∃ r, g.get? x = some r ∧ ∃ index ∈ starImports r.exports, r.importTarget? index = some y

abbrev FileGraph.StarReaches (g : FileGraph) : Nat → Nat → Prop := Relation.ReflTransGen g.StarStep

namespace Session

variable {s : Session}
variable {r : FileRecord} {enter : SurfaceWalk → Nat → SurfaceWalk × SortedSet String} {e : ExportName}
  {id index : Nat} {new : List Nat} {walk : SurfaceWalk}

def Owns (s : Session) (x : Nat) (name : String) : Prop :=
  ∃ r, s.graph.get? x = some r ∧ name ∈ ownNames r.exports

def PackageHas (s : Session) (r : FileRecord) (index : Nat) (name : String) : Prop :=
  r.importTarget? index = none ∧ ∃ p, s.importedPackage? r index = some p ∧ p.exports.contains name = true

def Offers (s : Session) (x : Nat) (name : String) : Prop :=
  ∃ r, s.graph.get? x = some r ∧
    (name ∈ ownNames r.exports ∨ ∃ index ∈ starImports r.exports, s.PackageHas r index name)

def OpenStar (s : Session) (r : FileRecord) (index : Nat) : Prop :=
  r.importTarget? index = none ∧ ∀ p, s.importedPackage? r index = some p → p.openExports = true

def Opens (s : Session) (x : Nat) : Prop :=
  ∀ r, s.graph.get? x = some r → r.surface = none ∨ ∃ index ∈ starImports r.exports, s.OpenStar r index

/-! ### One export -/

/-- What a walk has done: the files it has been to since, whether names are unknown, and the names. -/
structure Walked (s : Session) (id : Nat) (before : SurfaceWalk) (after : SurfaceWalk × SortedSet String)
    (new : List Nat) : Prop where
  visited : after.1.visited = new ++ before.visited
  start : id ∈ after.1.visited
  reached : ∀ x ∈ new, s.graph.StarReaches id x
  closed : ∀ x ∈ new, ∀ y, s.graph.StarStep x y → y ∈ after.1.visited
  isOpen : after.1.isOpen = true ↔ before.isOpen = true ∨ ∃ x ∈ new, s.Opens x
  names : ∀ n, after.2.contains n = true ↔ ∃ x ∈ new, (x = id ∧ s.Owns x n) ∨ (n ≠ "default" ∧ s.Offers x n)

structure Added (s : Session) (r : FileRecord) (exports : List ExportName)
    (before after : SurfaceWalk × SortedSet String) (new : List Nat) : Prop where
  visited : after.1.visited = new ++ before.1.visited
  targets : ∀ index ∈ starImports exports, ∀ {y}, r.importTarget? index = some y → y ∈ after.1.visited
  reached : ∀ x ∈ new, ∃ index ∈ starImports exports, ∃ y, r.importTarget? index = some y ∧ s.graph.StarReaches y x
  closed : ∀ x ∈ new, ∀ y, s.graph.StarStep x y → y ∈ after.1.visited
  isOpen : after.1.isOpen = true ↔ before.1.isOpen = true ∨ (∃ index ∈ starImports exports, s.OpenStar r index) ∨
    ∃ x ∈ new, s.Opens x
  names : ∀ n, after.2.contains n = true ↔ before.2.contains n = true ∨ n ∈ ownNames exports ∨
    n ≠ "default" ∧ ((∃ index ∈ starImports exports, s.PackageHas r index n) ∨ ∃ x ∈ new, s.Offers x n)

theorem added_own (own : e.star = false) (done) :
    Added s r [e] done (s.addExport r enter done e) [] := by
  have stars : starImports [e] = [] := by simp [starImports, own]
  have names : ownNames [e] = [e.exported] := by simp [ownNames, own]
  have step : s.addExport r enter done e = (done.1, done.2.add e.exported) := by simp [addExport, own]
  rw [step]
  constructor
  · rfl
  · simp [stars]
  · simp
  · simp
  · simp [stars]
  · intro n
    rw [SortedSet.contains_add]
    simp [stars, names, or_comm]

theorem added_nothing (star : e.star) (lost : e.reexportOf = none) (done) :
    Added s r [e] done (s.addExport r enter done e) [] := by
  have stars : starImports [e] = [] := by simp [starImports, star, lost]
  have names : ownNames [e] = [] := by simp [ownNames, star]
  have step : s.addExport r enter done e = done := by simp [addExport, star, lost]
  rw [step]
  constructor <;> simp [stars, names]

theorem added_package (star : e.star) (through : e.reexportOf = some index)
    (outside : r.importTarget? index = none) (done) :
    Added s r [e] done (s.addExport r enter done e) [] := by
  have stars : starImports [e] = [index] := by simp [starImports, star, through]
  have names : ownNames [e] = [] := by simp [ownNames, star]
  cases package : s.importedPackage? r index with
  | none =>
    have step : s.addExport r enter done e = ({ done.1 with isOpen := true }, done.2) := by
      simp [addExport, star, through, outside, package]
    rw [step]
    constructor <;> simp [stars, names, outside, package, OpenStar, PackageHas]
  | some p =>
    have step : s.addExport r enter done e = ({ done.1 with isOpen := done.1.isOpen || p.openExports },
        SortedSet.addMany done.2 ((SortedSet.toList p.exports).filter (· != "default"))) := by
      simp [addExport, star, through, outside, package]
    rw [step]
    constructor
    · rfl
    · simp [stars, outside]
    · simp
    · simp
    · simp [stars, outside, package, OpenStar]
    · intro n
      rw [SortedSet.contains_addMany, mem_filter, SortedSet.mem_toList]
      simp [stars, names, outside, package, PackageHas, or_comm, and_comm]

theorem added_target {done : SurfaceWalk × SortedSet String} (star : e.star)
    (through : e.reexportOf = some index) (leads : r.importTarget? index = some y)
    (walked : Walked s y done.1 (enter done.1 y) new) : Added s r [e] done (s.addExport r enter done e) new := by
  have stars : starImports [e] = [index] := by simp [starImports, star, through]
  have names : ownNames [e] = [] := by simp [ownNames, star]
  have step : s.addExport r enter done e = ((enter done.1 y).1,
      SortedSet.addMany done.2 (SortedSet.toList ((enter done.1 y).2.erase "default"))) := by
    simp [addExport, star, through, leads]
  rw [step]
  constructor
  · exact walked.visited
  · intro other mem y' leads'
    rw [stars, mem_singleton] at mem
    rw [mem, leads] at leads'
    cases leads'
    exact walked.start
  · intro x mem
    exact ⟨index, by simp [stars], y, leads, walked.reached x mem⟩
  · exact walked.closed
  · rw [walked.isOpen]
    simp [stars, OpenStar, leads]
  · intro n
    rw [SortedSet.contains_addMany, SortedSet.mem_toList, SortedMap.contains_erase, walked.names]
    rw [stars, names]
    constructor
    · rintro (⟨⟨x, mem, ⟨-, r', held, own⟩ | ⟨-, offers⟩⟩, other⟩ | before)
      · exact .inr (.inr ⟨other, .inr ⟨x, mem, r', held, .inl own⟩⟩)
      · exact .inr (.inr ⟨other, .inr ⟨x, mem, offers⟩⟩)
      · exact .inl before
    · rintro (before | nothing | ⟨other, ⟨index', here, outside, -⟩ | ⟨x, mem, offers⟩⟩)
      · exact .inr before
      · cases nothing
      · rw [mem_singleton.mp here, leads] at outside
        cases outside
      · exact .inl ⟨⟨x, mem, .inr ⟨other, offers⟩⟩, other⟩

theorem starImports_append (first second) :
    starImports (first ++ second) = starImports first ++ starImports second := filterMap_append

theorem ownNames_append (first second) :
    ownNames (first ++ second) = ownNames first ++ ownNames second := by
  simp [ownNames]

theorem Added.append (first : Added s r exports a b new) (second : Added s r exports' b c new') :
    Added s r (exports ++ exports') a c (new' ++ new) := by
  have later : ∀ {x}, x ∈ b.1.visited → x ∈ c.1.visited := by
    intro x mem
    rw [second.visited]
    exact mem_append_right _ mem
  constructor
  · rw [second.visited, first.visited, append_assoc]
  · intro index mem y leads
    rw [starImports_append] at mem
    rcases mem_append.mp mem with here | there
    · exact later (first.targets index here leads)
    · exact second.targets index there leads
  · intro x mem
    rw [starImports_append]
    rcases mem_append.mp mem with there | here
    · obtain ⟨index, inside, found⟩ := second.reached x there
      exact ⟨index, mem_append_right _ inside, found⟩
    · obtain ⟨index, inside, found⟩ := first.reached x here
      exact ⟨index, mem_append_left _ inside, found⟩
  · intro x mem y step
    rcases mem_append.mp mem with there | here
    · exact second.closed x there y step
    · exact later (first.closed x here y step)
  · rw [second.isOpen, first.isOpen, starImports_append]
    simp only [mem_append, or_and_right, exists_or]
    grind
  · intro n
    rw [second.names, first.names, starImports_append, ownNames_append]
    simp only [mem_append, or_and_right, exists_or]
    grind

/-! ### The walk -/

def unvisited (g : FileGraph) (walk : SurfaceWalk) : Nat :=
  (range g.size).countP fun x => !walk.visited.contains x

theorem unvisited_append {before after : SurfaceWalk} (visited : after.visited = new ++ before.visited) :
    unvisited g after ≤ unvisited g before := by
  apply countP_mono_left
  intro x _ fresh
  rw [visited] at fresh
  simp at fresh ⊢
  exact fresh.2

theorem unvisited_cons {g : FileGraph} (inside : id < g.size) (fresh : walk.visited.contains id = false) :
    unvisited g { walk with visited := id :: walk.visited } < unvisited g walk := by
  refine countP_lt_countP ?_ (mem_range.mpr inside) (by simpa using fresh) (by simp)
  intro x _ apart
  simp at apart ⊢
  exact apart.2

def Walks (s : Session) (fuel : Nat) : Prop :=
  ∀ walk id, unvisited s.graph walk < fuel → ∃ new, Walked s id walk (s.collectExports fuel walk id) new

theorem foldl_addExport (walks : Walks s fuel) (exports) (done : SurfaceWalk × SortedSet String)
    (left : unvisited s.graph done.1 < fuel) :
    ∃ new, Added s r exports done (exports.foldl (s.addExport r (s.collectExports fuel)) done) new := by
  induction exports generalizing done with
  | nil => exact ⟨[], by constructor <;> simp [starImports, ownNames]⟩
  | cons e rest ih =>
    have here : ∃ new, Added s r [e] done (s.addExport r (s.collectExports fuel) done e) new := by
      cases star : e.star with
      | false => exact ⟨[], added_own star done⟩
      | true =>
        cases through : e.reexportOf with
        | none => exact ⟨[], added_nothing star through done⟩
        | some index =>
          cases leads : r.importTarget? index with
          | none => exact ⟨[], added_package star through leads done⟩
          | some y =>
            obtain ⟨new, walked⟩ := walks done.1 y left
            exact ⟨new, added_target star through leads walked⟩
    obtain ⟨new, added⟩ := here
    obtain ⟨new', added'⟩ := ih _ (Nat.lt_of_le_of_lt (unvisited_append added.visited) left)
    exact ⟨_, added.append added'⟩

theorem exports_of_surface (surface : r.surface = some m) : r.exports = m.exports := by
  simp [FileRecord.exports, surface]

theorem Added.walked {after : SurfaceWalk × SortedSet String} (held : s.graph.get? id = some r) (surface : r.surface = some m)
    (added : Added s r m.exports ({ walk with visited := id :: walk.visited }, ∅) after new) :
    Walked s id walk after (new ++ [id]) := by
  have exports := exports_of_surface surface
  have opens : s.Opens id ↔ ∃ index ∈ starImports m.exports, s.OpenStar r index := by
    simp [Opens, held, surface, exports]
  have offers : ∀ n, s.Offers id n ↔ n ∈ ownNames m.exports ∨ ∃ index ∈ starImports m.exports, s.PackageHas r index n := by
    simp [Offers, held, exports]
  have owns : ∀ n, s.Owns id n ↔ n ∈ ownNames m.exports := by
    simp [Owns, held, exports]
  constructor
  · simp [added.visited]
  · simp [added.visited]
  · intro x mem
    rcases mem_append.mp mem with later | here
    · obtain ⟨index, inside, y, leads, reaches⟩ := added.reached x later
      exact .head ⟨r, held, index, by rwa [exports], leads⟩ reaches
    · rw [mem_singleton.mp here]
  · intro x mem y step
    rcases mem_append.mp mem with later | here
    · exact added.closed x later y step
    · rw [mem_singleton.mp here] at step
      obtain ⟨r', held', index, inside, leads⟩ := step
      cases held.symm.trans held'
      exact added.targets index (by rwa [exports] at inside) leads
  · rw [added.isOpen, ← opens]
    simp only [mem_append, mem_singleton, or_and_right, exists_or, exists_eq_left]
    grind
  · intro n
    rw [added.names]
    constructor
    · rintro (nothing | own | ⟨other, package | ⟨x, mem, passed⟩⟩)
      · cases nothing
      · exact ⟨id, by simp, .inl ⟨rfl, (owns n).mpr own⟩⟩
      · exact ⟨id, by simp, .inr ⟨other, (offers n).mpr (.inr package)⟩⟩
      · exact ⟨x, mem_append_left _ mem, .inr ⟨other, passed⟩⟩
    · rintro ⟨x, mem, ⟨rfl, own⟩ | ⟨other, passed⟩⟩
      · exact .inr (.inl ((owns n).mp own))
      · rcases mem_append.mp mem with later | here
        · exact .inr (.inr ⟨other, .inr ⟨x, later, passed⟩⟩)
        · rw [mem_singleton.mp here, offers] at passed
          exact .inr (passed.imp_right fun package => ⟨other, .inl package⟩)

theorem walked_unknown (unknown : ∀ r, s.graph.get? id = some r → r.surface = none) :
    Walked s id walk ({ visited := id :: walk.visited, isOpen := true }, ∅) [id] := by
  have exports : ∀ {r}, s.graph.get? id = some r → r.exports = [] := by
    intro r held
    simp [FileRecord.exports, unknown r held]
  constructor
  · rfl
  · exact mem_cons_self
  · intro x here
    rw [mem_singleton.mp here]
  · intro x here y step
    rw [mem_singleton.mp here] at step
    obtain ⟨r, held, index, inside, -⟩ := step
    simp [exports held, starImports] at inside
  · have opens : s.Opens id := fun r held => .inl (unknown r held)
    simp [opens]
  · intro n
    constructor
    · intro nothing
      cases nothing
    · rintro ⟨x, here, ⟨-, r, held, own⟩ | ⟨-, r, held, own | ⟨index, inside, -⟩⟩⟩ <;>
        rw [mem_singleton.mp here] at held <;> simp_all [exports held, ownNames, starImports]

theorem collectExports_walks (s) (fuel) : Walks s fuel := by
  induction fuel with
  | zero => exact fun _ _ left => absurd left (Nat.not_lt_zero _)
  | succ fuel ih =>
    intro walk id left
    rw [collectExports]
    split
    · rename_i seen
      exact ⟨[], rfl, by simpa using seen, by simp, by simp, by simp, by simp⟩
    · rename_i fresh
      dsimp only
      split
      · rename_i missing
        exact ⟨[id], walked_unknown (by simp [missing])⟩
      · rename_i r held
        split
        · rename_i unread
          exact ⟨[id], walked_unknown (by simp [held, unread])⟩
        · rename_i m surface
          have fewer := unvisited_cons (FileGraph.get?_eq_some_lt held) (by simpa using fresh)
          obtain ⟨new, added⟩ := foldl_addExport ih m.exports
            ({ walk with visited := id :: walk.visited }, ∅) (Nat.lt_of_lt_of_le fewer (Nat.le_of_lt_succ left))
          exact ⟨_, added.walked held surface⟩

/-! ### The surface -/

theorem collectExports_walked {bound : Nat} (enough : s.graph.size < bound) (id) :
    ∃ new, Walked s id {} (s.collectExports bound {} id) new ∧ ∀ x, x ∈ new ↔ s.graph.StarReaches id x := by
  have left : unvisited s.graph {} ≤ s.graph.size := by
    have := countP_le_length (p := fun x => !({} : SurfaceWalk).visited.contains x) (l := range s.graph.size)
    rwa [length_range] at this
  obtain ⟨new, walked⟩ := collectExports_walks s bound {} id (Nat.lt_of_le_of_lt left enough)
  have visited : (s.collectExports bound {} id).1.visited = new := by simpa using walked.visited
  refine ⟨new, walked, fun x => ⟨walked.reached x, ?_⟩⟩
  intro reaches
  induction reaches with
  | refl => exact visited ▸ walked.start
  | tail _ step ih => exact visited ▸ walked.closed _ ih _ step

theorem contains_collectExports {bound : Nat} (enough : s.graph.size < bound) (id) (n) :
    (s.collectExports bound {} id).2.contains n ↔
      s.Owns id n ∨ n ≠ "default" ∧ ∃ x, s.graph.StarReaches id x ∧ s.Offers x n := by
  obtain ⟨new, walked, reached⟩ := collectExports_walked enough id
  rw [walked.names]
  simp only [reached]
  constructor
  · rintro ⟨x, reaches, ⟨rfl, own⟩ | ⟨other, offers⟩⟩
    · exact .inl own
    · exact .inr ⟨other, x, reaches, offers⟩
  · rintro (own | ⟨other, x, reaches, offers⟩)
    · exact ⟨id, .refl, .inl ⟨rfl, own⟩⟩
    · exact ⟨x, reaches, .inr ⟨other, offers⟩⟩

theorem isOpen_collectExports {bound : Nat} (enough : s.graph.size < bound) (id) :
    (s.collectExports bound {} id).1.isOpen ↔ ∃ x, s.graph.StarReaches id x ∧ s.Opens x := by
  obtain ⟨new, walked, reached⟩ := collectExports_walked enough id
  rw [walked.isOpen]
  simp [reached]

/-- The names of a surface: the file's own, and from files it reaches through star re-exports all that they own or
take from packages, less the default export. -/
theorem contains_exportSurface (s : Session) (id) (n) :
    (s.exportSurface id).names.contains n ↔
      s.Owns id n ∨ n ≠ "default" ∧ ∃ x, s.graph.StarReaches id x ∧ s.Offers x n :=
  contains_collectExports (Nat.lt_succ_self _) id n

theorem isOpen_exportSurface (s : Session) (id) :
    (s.exportSurface id).isOpen ↔ ∃ x, s.graph.StarReaches id x ∧ s.Opens x :=
  isOpen_collectExports (Nat.lt_succ_self _) id

theorem collectExports_of_size_lt {bound : Nat} (enough : s.graph.size < bound) (id) :
    s.exportSurface id = ⟨(s.collectExports bound {} id).2, (s.collectExports bound {} id).1.isOpen⟩ := by
  have names : (s.exportSurface id).names = (s.collectExports bound {} id).2 := SortedSet.ext_contains fun n =>
    (contains_exportSurface s id n).trans (contains_collectExports enough id n).symm
  have isOpen : (s.exportSurface id).isOpen = (s.collectExports bound {} id).1.isOpen :=
    Bool.eq_iff_iff.mpr ((isOpen_exportSurface s id).trans (isOpen_collectExports enough id).symm)
  rw [← names, ← isOpen]

/-- The surface of a file has its own names; of each file that one or more star re-exports lead to, the own names but the
default; and of each known package that one of these files re-exports, the names but the default. It is open exactly if
one of these files has not been read, or re-exports what is neither a file nor a known package, or a package that has more
names than are known. The walk that finds it ends by itself, not at its bound. -/
theorem exportSurface_exact (s : Session) (id : Nat) :
    (∀ bound > s.graph.size,
      s.exportSurface id = ⟨(s.collectExports bound {} id).2, (s.collectExports bound {} id).1.isOpen⟩) ∧
    (∀ n, (s.exportSurface id).names.contains n = true ↔ s.Owns id n ∨ n ≠ "default" ∧
      ((∃ x, Relation.TransGen s.graph.StarStep id x ∧ s.Owns x n) ∨
        ∃ x r, s.graph.StarReaches id x ∧ s.graph.get? x = some r ∧
          ∃ index ∈ starImports r.exports, s.PackageHas r index n)) ∧
    ((s.exportSurface id).isOpen = true ↔ ∃ x, s.graph.StarReaches id x ∧
        ∀ r, s.graph.get? x = some r → r.surface = none ∨ ∃ index ∈ starImports r.exports,
          r.importTarget? index = none ∧ (s.importedPackage? r index = none ∨
            ∃ p, s.importedPackage? r index = some p ∧ p.openExports = true)) := by
  refine ⟨fun bound enough => collectExports_of_size_lt enough id, fun n => ?_, ?_⟩
  · rw [contains_exportSurface]
    constructor
    · rintro (own | ⟨other, x, reaches, r, present, own | package⟩)
      · exact .inl own
      · rcases Relation.reflTransGen_iff_eq_or_transGen.mp reaches with rfl | further
        · exact .inl ⟨r, present, own⟩
        · exact .inr ⟨other, .inl ⟨x, further, r, present, own⟩⟩
      · exact .inr ⟨other, .inr ⟨x, r, reaches, present, package⟩⟩
    · rintro (own | ⟨other, ⟨x, further, r, present, own⟩ | ⟨x, r, reaches, present, package⟩⟩)
      · exact .inl own
      · exact .inr ⟨other, x, further.to_reflTransGen, r, present, .inl own⟩
      · exact .inr ⟨other, x, reaches, r, present, .inr package⟩
  · have openStar : ∀ r index, s.OpenStar r index ↔ r.importTarget? index = none ∧
        (s.importedPackage? r index = none ∨ ∃ p, s.importedPackage? r index = some p ∧ p.openExports = true) := by
      intro r index
      cases package : s.importedPackage? r index <;> simp [OpenStar, package]
    simp only [isOpen_exportSurface, Opens, openStar]

end Session

end ComponentCompiler
