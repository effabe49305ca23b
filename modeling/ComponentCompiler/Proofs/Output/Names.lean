import ComponentCompiler.Proofs.Output.Writes

/-!
Names below an output folder. Either the name stays inside the folder, or no file can be written
there (`Contained`).
-/

namespace ComponentCompiler

open List

namespace Path

open FileTree

variable {p dir : Path} {name : String}

theorem isName_of_fileName? (h : p.fileName? = some name) : IsName name := by
  unfold fileName? at h
  split at h
  · rename_i text last
    cases h
    have mem := mem_of_getLast? last
    rw [components, mem_append] at mem
    rcases mem with lead | inside
    · unfold Path.lead at lead
      split at lead
      · simp at lead
      · split at lead
        · simp at lead
        · simp at lead
    · obtain ⟨segment, kept, same⟩ := mem_map.mp inside
      obtain ⟨mem, nontrivial⟩ := mem_filter.mp kept
      unfold componentOf at same
      split at same
      · cases same
      · rename_i notUp
        cases same
        exact ⟨isSegment_of_mem_body mem, by simpa using nontrivial, by simpa using notUp⟩
  · cases h

theorem getLast?_components (filled : named (Text.splitOn '/' p.text) ≠ []) :
    p.components.getLast? = (named (Text.splitOn '/' p.text)).getLast? := by
  have same : named (Text.splitOn '/' p.text) = named p.body := by
    cases absolute : p.isAbsolute with
    | true =>
      rw [(splitOn_absolute absolute).1]
      rfl
    | false =>
      rcases lead_relative absolute with ⟨-, pieces⟩ | ⟨-, pieces⟩
      · rw [pieces]
      · rw [pieces]
        rfl
  rw [same] at filled ⊢
  exact getLast?_append_of_ne_nil _ filled

theorem fileName?_join (dir : Path) (inside : (⟨relative⟩ : Path).isAbsolute = false)
    (filled : named (Text.splitOn '/' relative) ≠ []) : (dir.join relative).fileName? = (⟨relative⟩ : Path).fileName? := by
  obtain ⟨segments, joined, -⟩ := splitOn_join dir inside
  have split : named (Text.splitOn '/' (dir.join relative).text) = named segments ++ named (Text.splitOn '/' relative) := by
    rw [joined, named, filter_append, map_append]
    rfl
  have last : (dir.join relative).components.getLast? = (⟨relative⟩ : Path).components.getLast? := by
    rw [getLast?_components (p := ⟨relative⟩) filled, getLast?_components (by rw [split]; simp [filled]), split]
    exact getLast?_append_of_ne_nil _ filled
  rw [fileName?, fileName?, last]

theorem fileName?_of_writable (writable : Writable p) : ∃ name, p.fileName? = some name := by
  obtain ⟨tree, content, tree', written⟩ := writable
  obtain ⟨⟨dir, name⟩, place⟩ := newPlace_of_write written
  obtain ⟨before, after, -, body, empty, -, -, nontrivial, notUp, -⟩ := newPlace_ok place
  refine ⟨name, ?_⟩
  have none : named after = [] := by
    have trivial : (after.filter fun segment => !isTrivial segment) = [] := by
      rw [filter_eq_nil_iff]
      intro segment mem
      rw [empty segment mem]
      decide
    rw [named, trivial]
    rfl
  have last : named p.body = named before ++ [.name name] := by
    have one : named [name] = [.name name] := by simp [named, nontrivial, componentOf, notUp]
    have split : p.body = before ++ ([name] ++ after) := body
    rw [split, named, filter_append, filter_append, map_append, map_append]
    change named before ++ (named [name] ++ named after) = _
    rw [none, one, append_nil]
  have components : p.components = p.lead.toList ++ named p.body := rfl
  rw [fileName?, components, last, ← append_assoc, getLast?_concat]

/-- A name that leads to a place inside the folder, if it is one that can be written to. -/
def Contained (dir : Path) (name : String) : Prop := Writable (dir.join name) → dir.location <+: (dir.join name).location

theorem IsInner.contained (inner : IsInner name) (dir) : Contained dir name := by
  intro _
  rw [location_inner dir inner]
  exact prefix_append _ _

theorem contained_fileName? (dir) (text) : Contained dir ((⟨text⟩ : Path).fileName?.getD text) := by
  cases found : (⟨text⟩ : Path).fileName? with
  | some name => exact (isName_of_fileName? found).isInner.contained dir
  | none =>
    intro writable
    obtain ⟨name, last⟩ := fileName?_of_writable writable
    rw [Option.getD_none] at last ⊢
    cases absolute : (⟨text⟩ : Path).isAbsolute with
    | true =>
      rw [join, if_pos absolute, found] at last
      cases last
    | false =>
      by_cases none : named (Text.splitOn '/' text) = []
      · have down : ".." ∉ Text.splitOn '/' text := by
          intro mem
          have kept : componentOf ".." ∈ named (Text.splitOn '/' text) :=
            mem_map_of_mem (mem_filter.mpr ⟨mem, rfl⟩)
          rw [none] at kept
          cases kept
        rw [location_inner dir ⟨absolute, down⟩]
        exact prefix_append _ _
      · rw [fileName?_join dir absolute none, found] at last
        cases last

theorem isInner_getD (p : Path) (inner : IsInner other) : IsInner (p.fileName?.getD other) := by
  cases found : p.fileName? with
  | none => exact inner
  | some name => exact (isName_of_fileName? found).isInner

theorem isInner_extend (first : IsName folder) (inner : IsInner name) (plain : IsSegment more)
    (long : 2 < more.toList.length) : IsInner (folder ++ "/" ++ (name ++ more)) := by
  have pieces : Text.splitOn '/' (folder ++ "/" ++ (name ++ more)) = folder :: Text.splitOn '/' (name ++ more) := by
    rw [Text.splitOn_append_separator, Text.splitOn, Chars.splitOn_of_not_mem first.1, map_singleton,
      String.ofList_toList, singleton_append]
  constructor
  · rw [Bool.eq_false_iff, ne_eq, isAbsolute_eq_true]
    rintro ⟨rest, chars⟩
    rw [Text.splitOn, chars] at pieces
    have empty : folder = "" := by
      simp only [Chars.splitOn, if_true, map_cons, cons.injEq] at pieces
      exact pieces.1.symm
    have nontrivial := first.2.1
    rw [empty] at nontrivial
    cases nontrivial
  · rw [pieces, mem_cons, not_or]
    refine ⟨first.2.2.symm, ?_⟩
    intro mem
    rcases Text.mem_splitOn_extend plain mem with inside | ⟨before, same⟩
    · exact inner.2 inside
    · have length := congrArg (·.toList.length) same
      simp only [String.toList_append, length_append] at length
      have two : "..".toList.length = 2 := rfl
      omega

end Path

namespace OutputCache

open Path

theorem toList_fileName (target) :
    (fileName target).toList =
      target.toList.map (fun c => if c == '/' || c == '\\' || c == ':' then '_' else c) ++ ".json".toList := by
  rw [fileName, String.toList_append, String.toList_ofList]

theorem isName_fileName (target) : IsName (fileName target) := by
  have long : 5 ≤ (fileName target).toList.length := by
    rw [toList_fileName, length_append]
    exact Nat.le_add_left _ _
  have different : ∀ text : String, text.toList.length < 5 → fileName target ≠ text := by
    intro text short same
    rw [same] at long
    omega
  refine ⟨?_, ?_, different ".." (by decide)⟩
  · rw [IsSegment, toList_fileName, mem_append, mem_map]
    rintro (⟨c, -, same⟩ | ending)
    · split at same
      · exact absurd same (by decide)
      · rename_i plain
        simp [same] at plain
    · exact absurd ending (by decide)
  · have empty := different "" (by decide)
    have dot := different "." (by decide)
    simp [isTrivial, empty, dot]

end OutputCache

end ComponentCompiler
