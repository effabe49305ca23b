import ComponentCompiler.Output.Asset
import ComponentCompiler.Proofs.Files.Change
import Mathlib.Logic.Function.Iterate

/-! Joined paths. A relative path leads on from where its directory leads (`location_join`). -/

namespace ComponentCompiler

open List String

namespace Chars

theorem splitOn_append_separator (sep) (text rest) :
    splitOn sep (text ++ sep :: rest) = splitOn sep text ++ splitOn sep rest := by
  induction text with
  | nil => simp [splitOn]
  | cons c text ih =>
    rw [cons_append, splitOn, splitOn]
    split
    · rw [ih]
      rfl
    · obtain ⟨first, more, pieces⟩ := exists_cons_of_ne_nil (splitOn_ne_nil sep text)
      rw [ih, pieces]
      rfl

theorem splitOn_extend (absent : sep ∉ more) (text) :
    ∃ before last, splitOn sep text = before ++ [last] ∧ splitOn sep (text ++ more) = before ++ [last ++ more] := by
  induction text with
  | nil => exact ⟨[], [], rfl, splitOn_of_not_mem absent⟩
  | cons c text ih =>
    obtain ⟨before, last, pieces, extended⟩ := ih
    rw [cons_append, splitOn, splitOn, pieces, extended]
    split
    · exact ⟨[] :: before, last, rfl, rfl⟩
    · cases before with
      | nil => exact ⟨[], c :: last, rfl, rfl⟩
      | cons first before => exact ⟨(c :: first) :: before, last, rfl, rfl⟩

end Chars

namespace Text

theorem splitOn_append_separator (text rest) :
    splitOn '/' (text ++ "/" ++ rest) = splitOn '/' text ++ splitOn '/' rest := by
  have slash : "/".toList = ['/'] := rfl
  rw [splitOn, toList_append, toList_append, slash, List.append_assoc, singleton_append,
    Chars.splitOn_append_separator, map_append]
  rfl

theorem mem_splitOn_extend {more segment : String} (absent : '/' ∉ more.toList) (mem : segment ∈ splitOn '/' (text ++ more)) :
    segment ∈ splitOn '/' text ∨ ∃ before, segment = before ++ more := by
  obtain ⟨before, last, pieces, extended⟩ := Chars.splitOn_extend absent text.toList
  rw [splitOn, toList_append, extended, map_append, mem_append] at mem
  rcases mem with inside | final
  · left
    rw [splitOn, pieces, map_append, mem_append]
    exact .inl inside
  · right
    refine ⟨.ofList last, ?_⟩
    rw [map_singleton, mem_singleton] at final
    rw [final, ofList_append, ofList_toList]

theorem endsWith_slash (h : endsWith "/" text) : ∃ before, text = before ++ "/" := by
  have slash : "/".toList.reverse = ['/'] := rfl
  rw [endsWith, slash, Chars.startsWith] at h
  cases reversed : text.toList.reverse with
  | nil =>
    rw [reversed] at h
    cases h
  | cons c rest =>
    rw [reversed] at h
    have same : c = '/' := by
      by_contra different
      simp [Chars.dropPrefix?, Ne.symm different] at h
    refine ⟨.ofList rest.reverse, ?_⟩
    apply toList_injective
    rw [toList_append, toList_ofList, ← reverse_reverse text.toList, reversed, same,
      reverse_cons]
    rfl

end Text

namespace Path

variable {dir : Path} {relative : String}
variable {segments : List String}

def names (text : String) : List String := (Text.splitOn '/' text).filter fun segment => !isTrivial segment

def IsInner (relative : String) : Prop :=
  (⟨relative⟩ : Path).isAbsolute = false ∧ ".." ∉ Text.splitOn '/' relative

instance (relative : String) : Decidable (IsInner relative) :=
  inferInstanceAs (Decidable ((⟨relative⟩ : Path).isAbsolute = false ∧ ".." ∉ Text.splitOn '/' relative))

/-! ### Where a joined path leads -/

theorem location_eq (p : Path) : p.location = (Text.splitOn '/' p.text).foldl advance [] := by
  cases absolute : p.isAbsolute with
  | true =>
    obtain ⟨rest, chars⟩ := isAbsolute_eq_true.mp absolute
    have pieces : Text.splitOn '/' p.text = "" :: (Text.splitOn '/' p.text).drop 1 := by
      rw [Text.splitOn, chars]
      simp [Chars.splitOn]
    rw [location, body, lead, if_pos absolute, pieces]
    rfl
  | false =>
    rcases lead_relative absolute with ⟨-, pieces⟩ | ⟨-, pieces⟩
    · rw [pieces, location]
    · rw [pieces, location]
      rfl

theorem splitOn_join (dir : Path) (inside : (⟨relative⟩ : Path).isAbsolute = false) :
    ∃ segments, Text.splitOn '/' (dir.join relative).text = segments ++ Text.splitOn '/' relative ∧
      (Text.splitOn '/' dir.text = segments ∨ Text.splitOn '/' dir.text = segments ++ [""]) := by
  rw [join, inside, if_neg Bool.false_ne_true]
  split
  · rename_i ending
    rcases Bool.or_eq_true .. ▸ ending with empty | ends
    · have none : dir.text = "" := by simpa using empty
      refine ⟨[], ?_, .inr ?_⟩
      · rw [none, empty_append]
        rfl
      · rw [none]
        rfl
    · obtain ⟨before, text⟩ := Text.endsWith_slash ends
      refine ⟨Text.splitOn '/' before, ?_, .inr ?_⟩
      · rw [text]
        exact Text.splitOn_append_separator before relative
      · rw [text, ← append_empty (s := before ++ "/"), Text.splitOn_append_separator]
        rfl
  · exact ⟨_, Text.splitOn_append_separator dir.text relative, .inl rfl⟩

theorem location_join (dir : Path) (inside : (⟨relative⟩ : Path).isAbsolute = false) :
    (dir.join relative).location = (Text.splitOn '/' relative).foldl advance dir.location := by
  obtain ⟨segments, joined, whole⟩ := splitOn_join dir inside
  rw [location_eq, joined, foldl_append, location_eq dir]
  rcases whole with same | ended
  · rw [same]
  · rw [ended, foldl_append]
    rfl

theorem foldl_advance_names (down : ".." ∉ segments) (location) :
    segments.foldl advance location = location ++ segments.filter fun segment => !isTrivial segment := by
  induction segments generalizing location with
  | nil => simp
  | cons segment rest ih =>
    rw [mem_cons, not_or] at down
    rw [foldl_cons, ih down.2]
    cases trivial : isTrivial segment with
    | true => simp [advance_trivial trivial, trivial]
    | false => simp [advance_name trivial (Ne.symm down.1), trivial]

theorem location_inner (dir : Path) (inner : IsInner relative) :
    (dir.join relative).location = dir.location ++ names relative := by
  rw [location_join dir inner.1, foldl_advance_names inner.2]
  rfl

theorem isAbsolute_join (dir : Path) (inside : (⟨relative⟩ : Path).isAbsolute = false) :
    (dir.join relative).isAbsolute = dir.isAbsolute := by
  cases chars : dir.text.toList with
  | nil =>
    have empty : dir.text = "" := by simpa using chars
    have same : dir.join relative = ⟨relative⟩ := by simp [join, inside, empty]
    have none : dir.isAbsolute = false := by
      rw [isAbsolute, empty]
      rfl
    rw [same, inside, none]
  | cons c more =>
    have begins : ∃ rest, (dir.join relative).text.toList = c :: rest := by
      rw [join, inside, if_neg Bool.false_ne_true]
      split
      · exact ⟨_, by rw [toList_append, chars, cons_append]⟩
      · exact ⟨_, by rw [String.append_assoc, toList_append, chars, cons_append]⟩
    obtain ⟨rest, text⟩ := begins
    rw [Bool.eq_iff_iff, isAbsolute_eq_true, isAbsolute_eq_true, text, chars]
    simp

theorem splitOn_absolute {p : Path} (absolute : p.isAbsolute) :
    Text.splitOn '/' p.text = "" :: p.body ∧ p.body ≠ [] := by
  obtain ⟨rest, chars⟩ := isAbsolute_eq_true.mp absolute
  have pieces : Text.splitOn '/' p.text = "" :: (Chars.splitOn '/' rest).map .ofList := by
    rw [Text.splitOn, chars, Chars.splitOn, if_pos rfl]
    rfl
  have body : p.body = (Chars.splitOn '/' rest).map .ofList := by
    rw [body, lead, if_pos absolute, pieces]
    rfl
  refine ⟨body ▸ pieces, ?_⟩
  rw [body, ne_eq, map_eq_nil_iff]
  exact Chars.splitOn_ne_nil _ _

theorem body_join (absolute : dir.isAbsolute) (inside : (⟨relative⟩ : Path).isAbsolute = false) :
    (dir.join relative).isAbsolute ∧ ∃ segments, (dir.join relative).body = segments ++ Text.splitOn '/' relative ∧
      (dir.body = segments ∨ dir.body = segments ++ [""]) := by
  obtain ⟨pieces, some⟩ := splitOn_absolute absolute
  obtain ⟨segments, joined, whole⟩ := splitOn_join dir inside
  rw [pieces] at whole
  have above : ∃ rest, segments = "" :: rest ∧ (dir.body = rest ∨ dir.body = rest ++ [""]) := by
    cases segments with
    | nil =>
      rcases whole with none | one
      · cases none
      · exact absurd (cons.inj one).2 some
    | cons first rest =>
      rcases whole with same | ended
      · exact ⟨rest, by rw [(cons.inj same).1], .inl (cons.inj same).2⟩
      · exact ⟨rest, by rw [(cons.inj ended).1], .inr (cons.inj ended).2⟩
  obtain ⟨rest, rfl, inner⟩ := above
  have isAbsolute : (dir.join relative).isAbsolute := (isAbsolute_join dir inside).trans absolute
  refine ⟨isAbsolute, rest, ?_, inner⟩
  rw [(splitOn_absolute isAbsolute).1] at joined
  exact (cons.inj joined).2

/-! ### Inner paths -/

theorem IsName.isInner (plain : IsName name) : IsInner name := by
  have pieces : Text.splitOn '/' name = [name] := by
    rw [Text.splitOn, Chars.splitOn_of_not_mem plain.1, map_singleton, ofList_toList]
  constructor
  · rw [Bool.eq_false_iff, ne_eq, isAbsolute_eq_true]
    rintro ⟨rest, chars⟩
    apply plain.1
    rw [chars]
    exact mem_cons_self
  · rw [pieces, mem_singleton]
    exact plain.2.2.symm

theorem names_of_isName (plain : IsName name) : names name = [name] := by
  have pieces : Text.splitOn '/' name = [name] := by
    rw [Text.splitOn, Chars.splitOn_of_not_mem plain.1, map_singleton, ofList_toList]
  simp [names, pieces, plain.2.1]

theorem isInner_textJoin (plain : ∀ segment ∈ segments, IsSegment segment) (down : ".." ∉ segments)
    (first : ∀ segment, segments.head? = some segment → isTrivial segment = false) :
    IsInner (Text.join "/" segments) := by
  cases segments with
  | nil => decide
  | cons segment rest =>
    have pieces := splitOn_textJoin plain (by simp)
    refine ⟨?_, by rwa [pieces]⟩
    have nontrivial := first segment rfl
    rw [Bool.eq_false_iff, ne_eq, isAbsolute_eq_true]
    rintro ⟨more, chars⟩
    rw [Text.splitOn, chars] at pieces
    have empty : segment = "" := by
      simp only [Chars.splitOn, if_true, map_cons, cons.injEq] at pieces
      exact pieces.1.symm
    rw [empty] at nontrivial
    cases nontrivial

/-! ### Seen from a directory -/

theorem dropNamed_zero (segments) : dropNamed 0 segments = segments := by
  cases segments <;> rfl

theorem dropNamed_suffix (count) (segments) : dropNamed count segments <:+ segments := by
  induction segments generalizing count with
  | nil => cases count <;> exact suffix_refl _
  | cons segment rest ih =>
    cases count with
    | zero => exact dropNamed_zero (segment :: rest) ▸ suffix_refl _
    | succ count =>
      rw [dropNamed]
      split
      · exact (ih _).trans (suffix_cons _ _)
      · exact (ih _).trans (suffix_cons _ _)

theorem not_mem_dropNamed (above : List String) (down : ".." ∉ below) :
    ".." ∉ dropNamed (above.filter fun segment => !isTrivial segment).length (above ++ below) := by
  induction above with
  | nil =>
    rw [filter_nil, length_nil, dropNamed_zero]
    exact down
  | cons segment rest ih =>
    cases trivial : isTrivial segment with
    | true =>
      have same : (segment :: rest).filter (fun segment => !isTrivial segment) =
          rest.filter fun segment => !isTrivial segment := by simp [trivial]
      rw [same]
      cases count : (rest.filter fun segment => !isTrivial segment).length with
      | zero =>
        rw [count, dropNamed_zero] at ih
        rw [cons_append, dropNamed_zero, mem_cons, not_or]
        refine ⟨?_, ih⟩
        intro up
        rw [← up] at trivial
        cases trivial
      | succ count' =>
        rw [count] at ih
        rw [cons_append, dropNamed, if_pos trivial]
        exact ih
    | false =>
      have more : ((segment :: rest).filter fun segment => !isTrivial segment).length =
          (rest.filter fun segment => !isTrivial segment).length + 1 := by simp [trivial]
      rw [more, cons_append, dropNamed, trivial]
      exact ih

theorem isInner_relativeTo? {p : Path} (absolute : dir.isAbsolute)
    (whole : dir.body = above ∨ dir.body = above ++ [""]) (split : p.body = above ++ below) (down : ".." ∉ below)
    (h : p.relativeTo? dir = some relative) : IsInner relative := by
  have lead : dir.lead = some .root := by rw [lead, if_pos absolute]
  have count : dir.components.length - dir.lead.toList.length =
      (above.filter fun segment => !isTrivial segment).length := by
    rcases whole with same | ended
    · simp [components, same]
    · simp [components, ended, isTrivial]
  have some : dir.components.isEmpty = false := by simp [components, lead]
  unfold relativeTo? at h
  split at h
  · cases h
  · rw [some, if_neg Bool.false_ne_true] at h
    rw [← Option.some.inj h, count, split]
    have dropped := not_mem_dropNamed above down
    generalize inside : dropNamed (above.filter fun segment => !isTrivial segment).length (above ++ below) = segments
      at dropped
    have plain : ∀ segment ∈ segments, IsSegment segment := by
      intro segment mem
      have suffix := dropNamed_suffix (above.filter fun segment => !isTrivial segment).length (above ++ below)
      rw [inside, ← split] at suffix
      exact isSegment_of_mem_body (suffix.subset mem)
    obtain ⟨after, ends, -⟩ := dropTrivialEnd_append (segments.dropWhile isTrivial)
    have kept : ∀ segment ∈ dropTrivialEnd (segments.dropWhile isTrivial), segment ∈ segments := by
      intro segment mem
      apply (dropWhile_suffix isTrivial).subset
      rw [ends]
      exact mem_append_left _ mem
    apply isInner_textJoin
    · exact fun segment mem => plain segment (kept segment mem)
    · exact fun mem => dropped (kept _ mem)
    · intro segment first
      cases whole : dropTrivialEnd (segments.dropWhile isTrivial) with
      | nil =>
        rw [whole] at first
        cases first
      | cons head rest =>
        rw [whole] at first ends
        cases first
        have begins := head?_dropWhile_not isTrivial segments
        rw [ends] at begins
        simpa using begins

/-! ### Cleaned before and after -/

section

variable {p : Path} {cs : List PathComponent}

/-- How many directories above its start a path leads. -/
def climb : List PathComponent → Nat
  | [] => 0
  | .up :: rest => climb rest + 1
  | .name _ :: rest => climb rest - 1
  | _ :: rest => climb rest

theorem foldl_cleanStep (inside : .root ∉ cs) :
    ∃ names : List String, ∀ done, cs.foldl cleanStep done = stepUp^[climb cs] done ++ names.map .name := by
  induction cs with
  | nil => exact ⟨[], fun _ => (append_nil _).symm⟩
  | cons c rest ih =>
    obtain ⟨names, leads⟩ := ih fun mem => inside (mem_cons_of_mem c mem)
    cases c with
    | root => exact absurd mem_cons_self inside
    | here | up => exact ⟨names, fun _ => leads _⟩
    | name text =>
      -- a name stays exactly if no later `..` takes it back
      cases above : climb rest with
      | zero => exact ⟨text :: names, fun done => by simp [cleanStep, leads, climb, above]⟩
      | succ n =>
        refine ⟨names, fun done => ?_⟩
        rw [foldl_cons, leads, above, Function.iterate_succ_apply, climb, above]
        exact congrArg (stepUp^[n] · ++ _) (stepUp_append_name done text)

/-- Only the last of several leading `..` can stay: the next one takes it back. -/
theorem iterate_stepUp_nil (n) : stepUp^[n] [] = replicate (n % 2) .up := by
  induction n with
  | zero => rfl
  | succ n ih =>
    rw [Function.iterate_succ_apply', ih]
    rcases Nat.mod_two_eq_zero_or_one n with even | odd
    · rw [even, show (n + 1) % 2 = 1 by omega]
      rfl
    · rw [odd, show (n + 1) % 2 = 0 by omega]
      rfl

theorem foldl_cleanStep_up (n) (done) : (replicate n PathComponent.up).foldl cleanStep done = stepUp^[n] done := by
  induction n generalizing done with
  | zero => rfl
  | succ n ih => exact ih (stepUp done)

theorem length_iterate_stepUp (below : n < cs.length) : (stepUp^[n] cs).length = cs.length - n := by
  induction n with
  | zero => rfl
  | succ n ih =>
    rw [Function.iterate_succ_apply']
    have before := ih (by omega)
    obtain ⟨c, d, rest, shape⟩ : ∃ c d rest, stepUp^[n] cs = c :: d :: rest := by
      cases done : stepUp^[n] cs with
      | nil => simp [done] at before; omega
      | cons c rest => cases rest <;> simp_all; omega
    rw [shape] at before ⊢
    have last : stepUp (c :: d :: rest) = (c :: d :: rest).dropLast := by cases c <;> rfl
    rw [last, length_dropLast, before]
    omega

theorem components_relative (inside : p.isAbsolute = false) :
    .root ∉ p.components ∧ ∀ done, p.components.foldl cleanStep done = (named (Text.splitOn '/' p.text)).foldl cleanStep done := by
  have other : ∀ segments, .root ∉ named segments := by
    intro segments mem
    obtain ⟨segment, -, same⟩ := mem_map.mp mem
    unfold componentOf at same
    split at same <;> cases same
  rcases lead_relative inside with ⟨lead, pieces⟩ | ⟨lead, pieces⟩
  · rw [components, lead, pieces]
    exact ⟨other p.body, fun _ => rfl⟩
  · rw [components, lead, pieces]
    exact ⟨fun mem => (mem_cons.mp mem).elim (by rintro ⟨⟩) (other p.body), fun _ => rfl⟩

theorem cleanComponents_join (absolute : dir.isAbsolute) (inside : p.isAbsolute = false) :
    cleanComponents (dir.join p.text).components = p.components.foldl cleanStep dir.clean.components := by
  obtain ⟨joined, segments, body, whole⟩ := body_join absolute inside
  have same : named dir.body = named segments := by
    rcases whole with same | ended
    · rw [same]
    · rw [ended]
      simp [named, isTrivial]
  have rooted : ∀ {q : Path}, q.isAbsolute → q.components = .root :: named q.body := by
    intro q absolute
    rw [components, lead, if_pos absolute]
    rfl
  rw [components_clean, (components_relative inside).2, rooted joined, rooted absolute, body, same, named, filter_append,
    map_append]
  exact foldl_append (l := .root :: named segments) ..

theorem isAbsolute_clean (inside : p.isAbsolute = false) : p.clean.isAbsolute = false := by
  obtain ⟨names, leads⟩ := foldl_cleanStep (components_relative inside).1
  have clean := components_clean p
  rw [cleanComponents, leads, iterate_stepUp_nil] at clean
  rw [Bool.eq_false_iff]
  intro absolute
  have root : .root ∈ p.clean.components := by
    rw [components, lead, if_pos absolute]
    exact mem_cons_self
  simp [clean] at root

/-- From a directory, a path leads to the same place before and after it is cleaned exactly if it leads at most one directory
above its start. -/
theorem clean_join_clean (absolute : dir.isAbsolute = true) (inside : p.isAbsolute = false)
    (below : climb p.components < dir.clean.components.length) :
    (clean (dir.join p.clean.text) = clean (dir.join p.text) ↔ climb p.components ≤ 1) ∧
      ∀ q : Path, q.clean.clean = q.clean := by
  refine ⟨?_, clean_clean⟩
  obtain ⟨names, leads⟩ := foldl_cleanStep (components_relative inside).1
  have after : (clean (dir.join p.text)).components =
      stepUp^[climb p.components] dir.clean.components ++ names.map .name := by
    rw [components_clean, cleanComponents_join absolute inside, leads]
  have before : (clean (dir.join p.clean.text)).components =
      stepUp^[climb p.components % 2] dir.clean.components ++ names.map .name := by
    rw [components_clean, cleanComponents_join absolute (isAbsolute_clean inside), components_clean p, cleanComponents,
      leads, iterate_stepUp_nil, foldl_append, foldl_cleanStep_up, foldl_cleanStep_names]
  constructor
  · intro same
    have length := congrArg (·.components.length) same
    simp only [before, after, List.length_append] at length
    rw [length_iterate_stepUp below, length_iterate_stepUp (by omega)] at length
    omega
  · intro near
    rw [Nat.mod_eq_of_lt (by omega)] at before
    exact clean_eq_clean (before.trans after.symm)

theorem clean_join_clean_sibling :
    clean (join ⟨"/w/app"⟩ (clean ⟨"./../lib//a/../b.js"⟩).text) = clean (join ⟨"/w/app"⟩ "./../lib//a/../b.js") :=
  (@clean_join_clean ⟨"/w/app"⟩ ⟨"./../lib//a/../b.js"⟩ (by decide) (by decide) (by decide)).1.mpr (by decide)

/-- Of two leading `..` the second takes back the first, and the path leads to another place. -/
theorem clean_loses_leading_ups :
    clean (join ⟨"/w/app/ui"⟩ "../../b.js") = ⟨"/w/b.js"⟩ ∧ clean ⟨"../../b.js"⟩ = ⟨"b.js"⟩ ∧
      clean (join ⟨"/w/app/ui"⟩ (clean ⟨"../../b.js"⟩).text) = ⟨"/w/app/ui/b.js"⟩ := by
  refine ⟨rfl, rfl, rfl⟩

end

end Path

/-! ### Assets -/

namespace FileTree

variable {location : Location}

def Named (tree : FileTree) : Prop :=
  ∀ location, (tree.item? location).isSome → ∀ name ∈ location, Path.IsName name

variable {tree : FileTree}

theorem mem_filesBelow :
    (found, content) ∈ tree.filesBelow location ↔
      tree.entries.get? found = some (.file content) ∧ location <+: found := by
  rw [filesBelow, mem_filterMap, SortedMap.get?_eq_some_iff]
  constructor
  · rintro ⟨⟨other, entry⟩, mem, chosen⟩
    cases entry with
    | directory => cases chosen
    | file held =>
      dsimp only at chosen
      split at chosen
      · rename_i below
        cases chosen
        exact ⟨mem, isPrefixOf_iff_prefix.mp below⟩
      · cases chosen
  · rintro ⟨mem, below⟩
    refine ⟨(found, .file content), mem, ?_⟩
    dsimp only
    rw [if_pos ( isPrefixOf_iff_prefix.mpr below)]

theorem Named.filesBelow (named : tree.Named) (mem : (found, content) ∈ tree.filesBelow location) :
    ∀ name ∈ found, Path.IsName name := by
  apply named found
  unfold item?
  split
  · rfl
  · rw [(mem_filesBelow.mp mem).1]
    rfl

end FileTree

namespace Asset

open Path

variable {tree : FileTree} {source : Path} {relative : String}

theorem mem_paths (mem : path ∈ paths tree base) :
    base.isAbsolute ∧ ∃ location found content, tree.locate base = .ok location ∧
      (found, content) ∈ tree.filesBelow location ∧
      (path = base ∨ path = base.join (Text.join "/" (found.drop location.length))) := by
  unfold paths at mem
  split at mem
  · cases mem
  · rename_i location located
    obtain ⟨⟨found, content⟩, listed, rfl⟩ := mem_map.mp mem
    refine ⟨?_, location, found, content, located, listed, ?_⟩
    · cases split : FileTree.segments? base with
      | error cause =>
        rw [FileTree.locate, split] at located
        cases located
      | ok segments => exact (FileTree.segments?_ok split).1
    · dsimp only
      split
      · exact .inl rfl
      · exact .inr rfl

theorem body_of_mem_paths (named : tree.Named) (inner : IsInner asset) (mem : path ∈ paths tree (source.join asset)) :
    source.isAbsolute ∧ ∃ above below, path.body = above ++ below ∧ ".." ∉ below ∧
      (source.body = above ∨ source.body = above ++ [""]) := by
  obtain ⟨isAbsolute, location, found, content, -, listed, place⟩ := mem_paths mem
  have absolute : source.isAbsolute := (isAbsolute_join source inner.1).symm.trans isAbsolute
  obtain ⟨-, above, body, whole⟩ := body_join absolute inner.1
  refine ⟨absolute, above, ?_⟩
  rcases place with rfl | rfl
  · exact ⟨_, body, inner.2, whole⟩
  · have plain : ∀ name ∈ found.drop location.length, IsName name := fun name mem =>
      named.filesBelow listed name (mem_of_mem_drop mem)
    have innerNames : IsInner (Text.join "/" (found.drop location.length)) := by
      apply isInner_textJoin
      · exact fun name mem => (plain name mem).1
      · exact fun mem => (plain _ mem).2.2 rfl
      · exact fun name first => (plain name (mem_of_head? first)).2.1
    obtain ⟨-, segments, longer, ending⟩ := body_join isAbsolute innerNames.1
    rw [body] at ending
    rcases ending with same | ended
    · refine ⟨_, by rw [longer, ← same, List.append_assoc], ?_, whole⟩
      rw [mem_append, not_or]
      exact ⟨inner.2, innerNames.2⟩
    · obtain ⟨before, last, pieces, -⟩ := Chars.splitOn_extend (not_mem_nil (a := '/')) asset.toList
      have split : Text.splitOn '/' asset = before.map .ofList ++ [.ofList last] := by
        rw [Text.splitOn, pieces, map_append]
        rfl
      rw [split, ← List.append_assoc] at ended
      have parts := append_inj' ended rfl
      refine ⟨_, by rw [longer, ← parts.1, List.append_assoc], ?_, whole⟩
      rw [mem_append, not_or]
      refine ⟨fun mem => inner.2 ?_, innerNames.2⟩
      rw [split]
      exact mem_append_left _ mem

theorem isInner_of_mem_paths (named : tree.Named) (inner : IsInner asset)
    (mem : path ∈ paths tree (source.join asset)) (h : path.relativeTo? source = some relative) :
    IsInner relative := by
  obtain ⟨absolute, above, below, body, down, whole⟩ := body_of_mem_paths named inner mem
  exact isInner_relativeTo? absolute whole body down h

end Asset
end ComponentCompiler
