import ComponentCompiler.Files.Path

/-! The normal form of paths. Main statements: `components_clean` and `clean_clean`. -/

namespace ComponentCompiler

open List

namespace Chars

theorem splitOn_of_not_mem (absent : sep ∉ text) : splitOn sep text = [text] := by
  induction text with
  | nil => rfl
  | cons c rest ih =>
    have different : c ≠ sep := fun same => absent (by simp [same])
    have tail : sep ∉ rest := fun mem => absent (mem_cons_of_mem _ mem)
    simp [splitOn, different, ih tail]

theorem splitOn_append (absent : sep ∉ piece) (rest) :
    splitOn sep (piece ++ sep :: rest) = piece :: splitOn sep rest := by
  induction piece with
  | nil => simp [splitOn]
  | cons c piece ih =>
    have different : c ≠ sep := fun same => absent (by simp [same])
    have tail : sep ∉ piece := fun mem => absent (mem_cons_of_mem _ mem)
    simp [splitOn, different, ih tail]

theorem splitOn_join (absent : ∀ piece ∈ pieces, sep ∉ piece) (some : pieces ≠ []) :
    splitOn sep (join [sep] pieces) = pieces := by
  induction pieces with
  | nil => exact absurd rfl some
  | cons piece more ih =>
    have here := absent piece mem_cons_self
    cases more with
    | nil => exact splitOn_of_not_mem here
    | cons next more =>
      have tail := ih (fun p mem => absent p (mem_cons_of_mem _ mem)) (by simp)
      rw [join, append_assoc, singleton_append, splitOn_append here, tail]
      simp

theorem not_mem_of_mem_splitOn (mem : piece ∈ splitOn sep text) : sep ∉ piece := by
  induction text generalizing piece with
  | nil =>
    rw [splitOn, mem_singleton] at mem
    simp [mem]
  | cons c rest ih =>
    rw [splitOn] at mem
    split at mem
    · rcases mem_cons.mp mem with same | later
      · simp [same]
      · exact ih later
    · rename_i different
      obtain ⟨first, more, pieces⟩ := exists_cons_of_ne_nil (splitOn_ne_nil sep rest)
      rw [pieces] at mem ih
      rcases mem_cons.mp mem with same | later
      · have clear := ih mem_cons_self
        subst same
        simp [Ne.symm different, clear]
      · exact ih (mem_cons_of_mem _ later)

end Chars

namespace Path

variable {segments : List String} {segment : String} {cs : List PathComponent} {p q : Path}

def IsSegment (segment : String) : Prop := '/' ∉ segment.toList

def IsName (segment : String) : Prop := IsSegment segment ∧ isTrivial segment = false ∧ segment ≠ ".."

def IsClean (cs : List PathComponent) : Prop :=
  ∃ lead ∈ [[], [PathComponent.root], [.up], [.root, .up]], ∃ names : List String,
    (∀ name ∈ names, IsName name) ∧ cs = lead ++ names.map .name

/-! ### Texts of components -/

theorem splitOn_textJoin (plain : ∀ segment ∈ segments, IsSegment segment) (some : segments ≠ []) :
    Text.splitOn '/' (Text.join "/" segments) = segments := by
  have pieces : ∀ piece ∈ segments.map (·.toList), '/' ∉ piece := by
    simpa [IsSegment] using plain
  have slash : "/".toList = ['/'] := rfl
  rw [Text.splitOn, Text.join, String.toList_ofList, slash, Chars.splitOn_join pieces (by simpa using some)]
  simp

def named (segments : List String) : List PathComponent :=
  (segments.filter fun segment => !isTrivial segment).map componentOf

theorem body_root (plain : ∀ segment ∈ segments, IsSegment segment) :
    (⟨"/" ++ Text.join "/" segments⟩ : Path).isAbsolute ∧
      (⟨"/" ++ Text.join "/" segments⟩ : Path).body = if segments = [] then [""] else segments := by
  have absolute : (⟨"/" ++ Text.join "/" segments⟩ : Path).isAbsolute := by
    simp [isAbsolute, Text.startsWith, Chars.startsWith, Chars.dropPrefix?]
  have split : Text.splitOn '/' ("/" ++ Text.join "/" segments) =
      "" :: Text.splitOn '/' (Text.join "/" segments) := by
    simp [Text.splitOn, Chars.splitOn]
  refine ⟨absolute, ?_⟩
  rw [body, lead, if_pos absolute]
  simp only [split, drop_succ_cons, drop_zero]
  split
  · rename_i none
    rw [none]
    rfl
  · rename_i some
    exact splitOn_textJoin plain some

theorem components_root (plain : ∀ segment ∈ segments, IsSegment segment) :
    (⟨"/" ++ Text.join "/" segments⟩ : Path).components = .root :: named segments := by
  obtain ⟨absolute, body⟩ := body_root plain
  rw [components, lead, if_pos absolute, body]
  cases segments <;> rfl

theorem components_join (plain : ∀ segment ∈ segments, IsSegment segment)
    (head : ∀ segment, segments.head? = some segment → isTrivial segment = false) :
    (⟨Text.join "/" segments⟩ : Path).components = named segments := by
  cases segments with
  | nil => rfl
  | cons segment rest =>
    have nontrivial := head segment rfl
    have split := splitOn_textJoin plain (by simp)
    have relative : (⟨Text.join "/" (segment :: rest)⟩ : Path).isAbsolute = false := by
      have clear : '/' ∉ segment.toList := plain segment mem_cons_self
      have filled : segment.toList ≠ [] := by
        intro empty
        have : segment = "" := by simpa using empty
        simp [isTrivial, this] at nontrivial
      obtain ⟨c, more, chars⟩ := exists_cons_of_ne_nil filled
      rw [chars] at clear
      have different : '/' ≠ c := fun same => clear (same ▸ mem_cons_self)
      cases rest <;>
        simp [isAbsolute, Text.startsWith, Text.join, Chars.join, Chars.startsWith, Chars.dropPrefix?, chars,
          different]
    have noLead : (⟨Text.join "/" (segment :: rest)⟩ : Path).lead = none := by
      have notDot : segment ≠ "." := by
        intro same
        simp [isTrivial, same] at nontrivial
      simp [lead, relative, split, notDot]
    rw [components, body, noLead]
    simp [split, named]

/-! ### Cleaning -/

theorem componentOf_name (name : IsName segment) : componentOf segment = .name segment := by
  simp [componentOf, name.2.2]

theorem named_names {names : List String} (plain : ∀ name ∈ names, IsName name) :
    named names = names.map .name := by
  have kept : (names.filter fun segment => !isTrivial segment) = names := by
    rw [filter_eq_self]
    intro name mem
    simp [(plain name mem).2.1]
  rw [named, kept]
  exact map_congr_left fun name mem => componentOf_name (plain name mem)

theorem isSegment_up : IsSegment ".." := by
  rw [IsSegment]
  decide

theorem text_up : PathComponent.up.text = ".." := rfl

theorem components_ofComponents (clean : IsClean cs) : (ofComponents cs).components = cs := by
  obtain ⟨lead, allowed, names, plain, rfl⟩ := clean
  have segments : ∀ name ∈ names, IsSegment name := fun name mem => (plain name mem).1
  have texts : (names.map PathComponent.name).map (·.text) = names := by
    simp [Function.comp_def, PathComponent.text]
  have withUp : ∀ segment ∈ ".." :: names, IsSegment segment := by
    intro segment mem
    rcases mem_cons.mp mem with rfl | mem
    · exact isSegment_up
    · exact segments segment mem
  have namedUp : named (".." :: names) = .up :: names.map .name := by
    rw [← named_names plain]
    simp [named, isTrivial, componentOf]
  simp only [mem_cons, not_mem_nil, or_false] at allowed
  rcases allowed with rfl | rfl | rfl | rfl
  · cases names with
    | nil => rfl
    | cons name rest =>
      have shape : ofComponents ([] ++ (name :: rest).map .name) = ⟨Text.join "/" (name :: rest)⟩ := by
        change (⟨Text.join "/" (((name :: rest).map PathComponent.name).map (·.text))⟩ : Path) = _
        rw [texts]
      rw [shape, components_join segments, named_names plain, nil_append]
      intro segment head
      rw [head?_cons, Option.some.injEq] at head
      exact head ▸ (plain name mem_cons_self).2.1
  · have shape : ofComponents ([.root] ++ names.map .name) = ⟨"/" ++ Text.join "/" names⟩ := by
      simp only [ofComponents, singleton_append, texts]
    rw [shape, components_root segments, named_names plain, singleton_append]
  · have shape : ofComponents ([.up] ++ names.map .name) = ⟨Text.join "/" (".." :: names)⟩ := by
      simp only [ofComponents, singleton_append, map_cons, texts, text_up]
    rw [shape, components_join withUp, namedUp, singleton_append]
    intro segment head
    rw [head?_cons, Option.some.injEq] at head
    subst head
    decide
  · have shape : ofComponents ([.root, .up] ++ names.map .name) = ⟨"/" ++ Text.join "/" (".." :: names)⟩ := by
      simp only [ofComponents, cons_append, nil_append, map_cons, texts, text_up]
    rw [shape, components_root withUp, namedUp, cons_append, singleton_append]

theorem stepUp_append_name (cs) (name) :
    stepUp (cs ++ [PathComponent.name name]) = cs := by
  have last : stepUp (cs ++ [.name name]) = (cs ++ [PathComponent.name name]).dropLast := by
    cases cs with
    | nil => rfl
    | cons c rest => cases c <;> cases rest <;> rfl
  rw [last, dropLast_concat]

theorem isClean_stepUp (clean : IsClean cs) : IsClean (stepUp cs) := by
  obtain ⟨lead, allowed, names, plain, rfl⟩ := clean
  rcases eq_nil_or_concat names with rfl | ⟨before, name, rfl⟩
  · simp only [map_nil, append_nil]
    simp only [mem_cons, not_mem_nil, or_false] at allowed
    rcases allowed with rfl | rfl | rfl | rfl
    · exact ⟨[.up], by simp, [], by simp, rfl⟩
    · exact ⟨[.root, .up], by simp, [], by simp, rfl⟩
    · exact ⟨[], by simp, [], by simp, rfl⟩
    · exact ⟨[.root], by simp, [], by simp, rfl⟩
  · rw [concat_eq_append, map_append, ← append_assoc, map_singleton, stepUp_append_name]
    exact ⟨lead, allowed, before, fun n mem => plain n (by simp [mem]), rfl⟩

theorem isClean_cleanStep (clean : IsClean cs) (plain : IsSegment segment) (nontrivial : isTrivial segment = false) :
    IsClean (cleanStep cs (componentOf segment)) := by
  by_cases up : segment = ".."
  · subst up
    exact isClean_stepUp clean
  · have name : IsName segment := ⟨plain, nontrivial, up⟩
    obtain ⟨lead, allowed, names, rest, rfl⟩ := clean
    rw [componentOf_name name]
    refine ⟨lead, allowed, names ++ [segment], ?_, by simp [cleanStep]⟩
    intro other mem
    rcases mem_append.mp mem with mem | mem
    · exact rest other mem
    · rw [mem_singleton.mp mem]
      exact name

theorem isClean_foldl (clean : IsClean cs) (plain : ∀ segment ∈ segments, IsSegment segment) :
    IsClean ((named segments).foldl cleanStep cs) := by
  induction segments generalizing cs with
  | nil => exact clean
  | cons segment rest ih =>
    have later : ∀ segment ∈ rest, IsSegment segment := fun s mem => plain s (mem_cons_of_mem _ mem)
    cases nontrivial : isTrivial segment with
    | true => simpa [named, nontrivial] using ih clean later
    | false =>
      have step := isClean_cleanStep clean (plain segment mem_cons_self) nontrivial
      simpa [named, nontrivial] using ih step later

theorem isSegment_of_mem_splitOn {text : String} (mem : segment ∈ Text.splitOn '/' text) : IsSegment segment := by
  obtain ⟨piece, inside, rfl⟩ := mem_map.mp mem
  simpa [IsSegment] using Chars.not_mem_of_mem_splitOn inside

theorem isSegment_of_mem_body (mem : segment ∈ p.body) : IsSegment segment := by
  rw [body] at mem
  split at mem
  · exact isSegment_of_mem_splitOn (mem_of_mem_drop mem)
  · exact isSegment_of_mem_splitOn mem

theorem isClean_lead (p : Path) : IsClean (cleanComponents p.lead.toList) := by
  rw [lead]
  split
  · exact ⟨[.root], by simp, [], by simp, rfl⟩
  · split <;> exact ⟨[], by simp, [], by simp, rfl⟩

theorem isClean_cleanComponents (p : Path) : IsClean (cleanComponents p.components) := by
  have split : cleanComponents p.components = (named p.body).foldl cleanStep (cleanComponents p.lead.toList) := by
    rw [components, cleanComponents, foldl_append]
    rfl
  rw [split]
  exact isClean_foldl (isClean_lead p) fun _ mem => isSegment_of_mem_body mem

theorem components_clean (p : Path) : p.clean.components = cleanComponents p.components :=
  components_ofComponents (isClean_cleanComponents p)

theorem foldl_cleanStep_names (lead) (names : List String) :
    (names.map PathComponent.name).foldl cleanStep lead = lead ++ names.map .name := by
  induction names generalizing lead with
  | nil => simp
  | cons name rest ih => simp [cleanStep, ih]

theorem cleanComponents_of_isClean (clean : IsClean cs) : cleanComponents cs = cs := by
  obtain ⟨lead, allowed, names, -, rfl⟩ := clean
  rw [cleanComponents, foldl_append, foldl_cleanStep_names]
  congr 1
  simp only [mem_cons, not_mem_nil, or_false] at allowed
  rcases allowed with rfl | rfl | rfl | rfl <;> rfl

@[simp]
theorem clean_clean (p : Path) : p.clean.clean = p.clean := by
  rw [clean, components_clean, cleanComponents_of_isClean (isClean_cleanComponents p)]
  rfl

/-! ### Comparison -/

instance : Std.LawfulEqOrd PathComponent where
  eq_of_compare {a b} h := by
    have parts := compareLex_eq_eq.mp h
    have rank : a.rank = b.rank := Nat.compare_eq_eq.mp parts.1
    have text : a.text = b.text := Std.LawfulEqCmp.eq_of_compare parts.2
    cases a <;> cases b <;> simp_all [PathComponent.rank, PathComponent.text]

theorem compare_eq_iff : compare p q = .eq ↔ p.components = q.components := by
  have same : compare p q = compare p.components q.components := rfl
  rw [same, Std.compare_eq_iff_eq]

theorem beq_iff : (p == q) ↔ p.components = q.components := by
  change (p.components == q.components) ↔ _
  exact beq_iff_eq

theorem clean_eq_clean (same : p.clean.components = q.clean.components) : p.clean = q.clean := by
  rw [components_clean, components_clean] at same
  rw [clean, clean, same]

end Path

end ComponentCompiler
