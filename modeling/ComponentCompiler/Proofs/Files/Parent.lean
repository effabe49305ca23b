import ComponentCompiler.Proofs.Files.Way
import Mathlib.Data.List.DropRight

/-! Parents of paths: the way of a parent is the first part of the path's way. -/

namespace ComponentCompiler

open List Chars

namespace Chars

theorem join_cons_cons (separator piece next) (pieces) :
    join separator (piece :: next :: pieces) = piece ++ separator ++ join separator (next :: pieces) := rfl

theorem join_prefix (start : pieces <+: more) : join separator pieces <+: join separator more := by
  induction pieces generalizing more with
  | nil => exact nil_prefix
  | cons piece pieces ih =>
    obtain ⟨rest, rfl⟩ := start
    cases pieces with
    | nil =>
      cases rest with
      | nil => exact prefix_refl _
      | cons next rest =>
        rw [singleton_append, join_cons_cons, append_assoc]
        exact prefix_append _ _
    | cons next pieces =>
      rw [cons_append, cons_append, join_cons_cons, join_cons_cons]
      exact (prefix_append_right_inj _).mpr (ih ⟨rest, rfl⟩)

theorem join_concat (separator) (some : pieces ≠ []) (piece) :
    join separator (pieces ++ [piece]) = join separator pieces ++ separator ++ piece := by
  induction pieces with
  | nil => exact absurd rfl some
  | cons first rest ih =>
    cases rest with
    | nil => rfl
    | cons next rest =>
      have tail := ih (by simp)
      rw [cons_append] at tail
      rw [cons_append, cons_append, join_cons_cons, tail, join_cons_cons]
      simp only [append_assoc]

end Chars

namespace Path

variable {p : Path}

theorem isAbsolute_eq_true : p.isAbsolute ↔ ∃ rest, p.text.toList = '/' :: rest := by
  have slash : "/".toList = ['/'] := rfl
  rw [isAbsolute, Text.startsWith, slash, Chars.startsWith]
  cases p.text.toList with
  | nil => simp [Chars.dropPrefix?]
  | cons c rest =>
    simp only [Chars.dropPrefix?, cons.injEq, exists_and_left, exists_eq', and_true]
    by_cases same : c = '/'
    · simp [same]
    · simp [same, Ne.symm same]

theorem dropTrivialEnd_append (segments) :
    ∃ after, segments = dropTrivialEnd segments ++ after ∧ ∀ segment ∈ after, isTrivial segment :=
  ⟨segments.rtakeWhile isTrivial, rdropWhile_append_rtakeWhile.symm,
    fun _ mem => mem_rtakeWhile_imp mem⟩

theorem not_of_rdropWhile {p : String → Bool} {segments : List String} (concat : segments.rdropWhile p = before ++ [name]) : p name = false := by
  have last := rdropWhile_last_not p segments (by simp [concat])
  simpa [concat] using last

theorem dropTrivialEnd_concat (concat : dropTrivialEnd segments = before ++ [name]) : isTrivial name = false :=
  not_of_rdropWhile concat

theorem parent?_body (absolute : p.isAbsolute) (h : p.parent? = some q) :
    q.isAbsolute ∧ ∃ segments before name after, p.body = segments ++ before ++ name :: after ∧
      isTrivial name = false ∧ (∀ segment ∈ before, isTrivial segment) ∧
      (∀ segment ∈ after, isTrivial segment) ∧ q.body = if segments = [] then [""] else segments := by
  have lead : p.lead = some .root := by rw [lead, if_pos absolute]
  obtain ⟨after, body, trivialAfter⟩ := dropTrivialEnd_append p.body
  unfold parent? at h
  split at h
  · rw [lead] at h
    cases h
  · rename_i nonempty
    obtain ⟨named, name, concat⟩ := (eq_nil_or_concat (dropTrivialEnd p.body)).resolve_left nonempty
    rw [concat_eq_append] at concat
    obtain ⟨before, inner, trivialBefore⟩ := dropTrivialEnd_append named
    have plain : ∀ segment ∈ dropTrivialEnd named, IsSegment segment := by
      intro segment mem
      apply isSegment_of_mem_body (p := p)
      rw [body, concat, inner]
      simp [mem]
    rw [lead, concat, dropLast_concat, assemble] at h
    cases h
    obtain ⟨absolute', body'⟩ := body_root plain
    refine ⟨absolute', dropTrivialEnd named, before, name, after, ?_, dropTrivialEnd_concat concat, trivialBefore,
      trivialAfter, body'⟩
    rw [← inner, append_cons, ← concat]
    exact body

theorem mem_way_of_body (body : p.body = if segments = [] then [""] else segments) (passed) :
    passed ∈ p.way ↔ passed ∈ wayFrom [] segments := by
  rw [way, body]
  split
  · rename_i none
    rw [none]
    simp [wayFrom, advance, isTrivial]
  · rfl

theorem way_parent (absolute : p.isAbsolute) (h : p.parent? = some q) (mem : passed ∈ q.way) :
    passed ∈ p.way := by
  obtain ⟨-, segments, before, name, after, body, -, -, -, body'⟩ := parent?_body absolute h
  rw [mem_way_of_body body'] at mem
  rw [way, body, append_assoc, wayFrom_append]
  exact .inl mem

theorem endsWith_separator (absolute : p.isAbsolute) (body : p.body = segments ++ [""]) :
    Text.endsWith "/" p.text := by
  have pieces : ∃ first, Text.splitOn '/' p.text = first :: (segments ++ [""]) := by
    rw [Path.body, lead, if_pos absolute] at body
    cases split : Text.splitOn '/' p.text with
    | nil =>
      rw [split] at body
      simp at body
    | cons first more =>
      rw [split] at body
      exact ⟨first, congrArg (first :: ·) body⟩
  obtain ⟨first, pieces⟩ := pieces
  have chars : Chars.splitOn '/' p.text.toList = (first :: segments).map (·.toList) ++ [[]] := by
    have texts := congrArg (map (·.toList)) pieces
    simpa [Text.splitOn, Function.comp_def] using texts
  have text : p.text.toList = Chars.join ['/'] ((first :: segments).map (·.toList)) ++ ['/'] := by
    rw [← join_splitOn '/' p.text.toList, chars, join_concat _ (by simp), append_nil]
  have slash : "/".toList.reverse = ['/'] := rfl
  rw [Text.endsWith, text, slash, reverse_append]
  simp [Chars.startsWith, Chars.dropPrefix?]

theorem lead_relative (relative : p.isAbsolute = false) :
    p.lead = none ∧ Text.splitOn '/' p.text = p.body ∨ p.lead = some .here ∧ Text.splitOn '/' p.text = "." :: p.body := by
  have lead : p.lead = if (Text.splitOn '/' p.text).head? == some "." then some .here else none := by
    rw [lead, relative]
    rfl
  split at lead
  · rename_i dot
    refine .inr ⟨lead, ?_⟩
    rw [body, lead]
    cases pieces : Text.splitOn '/' p.text with
    | nil =>
      rw [pieces] at dot
      cases dot
    | cons first more =>
      rw [pieces] at dot
      have same : first = "." := by simpa using dot
      rw [same]
      rfl
  · refine .inl ⟨lead, ?_⟩
    rw [body, lead]

theorem text_parent_prefix (h : p.parent? = some q) : q.text.toList <+: p.text.toList := by
  have joined : ∀ segments : List String, (Text.join "/" segments).toList = Chars.join ['/'] (segments.map (·.toList)) := by
    intro segments
    rw [Text.join, String.toList_ofList]
    rfl
  have text : p.text.toList = Chars.join ['/'] ((Text.splitOn '/' p.text).map (·.toList)) := by
    have chars : (Text.splitOn '/' p.text).map (·.toList) = Chars.splitOn '/' p.text.toList := by
      simp [Text.splitOn]
    rw [chars, join_splitOn]
  unfold parent? at h
  split at h
  · split at h
    · cases h
      exact nil_prefix
    · cases h
  · obtain ⟨after, body, -⟩ := dropTrivialEnd_append p.body
    obtain ⟨before, inner, -⟩ := dropTrivialEnd_append (dropTrivialEnd p.body).dropLast
    have inside : dropTrivialEnd (dropTrivialEnd p.body).dropLast <+: p.body := by
      have first : dropTrivialEnd (dropTrivialEnd p.body).dropLast <+: (dropTrivialEnd p.body).dropLast :=
        ⟨before, inner.symm⟩
      exact (first.trans ( dropLast_prefix _)).trans ⟨after, body.symm⟩
    cases absolute : p.isAbsolute with
    | true =>
      obtain ⟨rest, chars⟩ := isAbsolute_eq_true.mp absolute
      have pieces : Text.splitOn '/' p.text = "" :: p.body := by
        rw [Path.body, lead, if_pos absolute, Text.splitOn, chars]
        simp [Chars.splitOn]
      have root : ∀ segments, assemble (some .root) segments = ⟨"/" ++ Text.join "/" segments⟩ := fun _ => rfl
      have slash : "/".toList = ['/'] := rfl
      rw [lead, if_pos absolute] at h
      rw [← Option.some.inj h, root, String.toList_append, joined, slash]
      cases segments : dropTrivialEnd (dropTrivialEnd p.body).dropLast with
      | nil =>
        rw [chars]
        exact ⟨rest, rfl⟩
      | cons first more =>
        rw [segments] at inside
        have longer : ("" :: first :: more).map (·.toList) <+: ("" :: p.body).map (·.toList) :=
          IsPrefix.map _ ((prefix_cons_inj "").mpr inside)
        rw [text, pieces]
        exact join_prefix longer
    | false =>
      rw [text]
      rcases lead_relative absolute with ⟨lead, pieces⟩ | ⟨lead, pieces⟩
      · rw [lead] at h
        rw [← Option.some.inj h, pieces, assemble, joined]
        exact join_prefix (inside.map _)
      · rw [lead] at h
        have dot : ∀ segments, assemble (some .here) segments = ⟨Text.join "/" ("." :: segments)⟩ := fun _ => rfl
        rw [← Option.some.inj h, pieces, dot, joined]
        exact join_prefix (IsPrefix.map _ ((prefix_cons_inj _).mpr inside))

theorem isAbsolute_parent (relative : p.isAbsolute = false) (h : p.parent? = some q) : q.isAbsolute = false := by
  cases absolute : q.isAbsolute with
  | false => rfl
  | true =>
    obtain ⟨rest, chars⟩ := isAbsolute_eq_true.mp absolute
    obtain ⟨more, whole⟩ := text_parent_prefix h
    have absolute' : p.isAbsolute := isAbsolute_eq_true.mpr ⟨rest ++ more, by rw [← whole, chars]; rfl⟩
    rw [absolute'] at relative
    cases relative

end Path

end ComponentCompiler
