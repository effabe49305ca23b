import Mathlib.Data.List.Forall2
import ComponentCompiler.Bundle.Library
import ComponentCompiler.Graph.Compile
import ComponentCompiler.Proofs.Files.Path
import ComponentCompiler.Proofs.Text.Bytes

/-!
The names that packages have in the bundles of a library. Main statement:
`package_names_in_bundles`, which names bundles can bind.
-/

namespace ComponentCompiler

open List Chars String

namespace Chars

theorem alphanumeric_in_names (plain : isAsciiAlphanumeric c) :
    Script.isNamePart c ∧ Script.isNameStart c = isAsciiLetter c ∧ isAsciiDigit c = !isAsciiLetter c := by
  have low := isAscii_of_alphanumeric plain
  revert plain
  exact ascii_cases c low (by decide)

theorem alphanumeric_toAsciiUpper (plain : isAsciiAlphanumeric c) :
    isAsciiAlphanumeric (toAsciiUpper c) ∧ isAsciiLetter (toAsciiUpper c) = isAsciiLetter c := by
  have low := isAscii_of_alphanumeric plain
  revert plain
  exact ascii_cases c low (by decide)

theorem alphanumeric_of_letter (letter : isAsciiLetter c) : isAsciiAlphanumeric c := by
  rw [isAsciiAlphanumeric, letter, Bool.true_or]

end Chars

namespace Specifier

variable {package other : String}
variable {c : Char}

/-! ### Identifiers -/

def flat (c : Char) : Char := if isAsciiAlphanumeric c then c else '_'

/-- The name of a package as it is flattened: without the scope mark, and behind a mark that is no digit. -/
def padded (package : String) : List Char :=
  match dropScopeMark package with
  | [] => ['_']
  | c :: rest => if isAsciiDigit c then '_' :: c :: rest else c :: rest

theorem alphanumeric_flat (c) : isAsciiAlphanumeric (flat c) = isAsciiAlphanumeric c := by
  unfold flat
  split
  · rfl
  · rename_i mark
    rw [Bool.eq_false_iff.mpr mark]
    decide

theorem isAsciiDigit_flat (c) : isAsciiDigit (flat c) = isAsciiDigit c := by
  unfold flat
  split
  · rfl
  · rename_i mark
    simp only [isAsciiAlphanumeric, Bool.or_eq_true, not_or, Bool.not_eq_true] at mark
    rw [mark.2]
    decide

theorem toList_identifier (package) : (identifier package).toList = (padded package).map flat := by
  unfold identifier padded
  cases dropScopeMark package with
  | nil => decide
  | cons c rest =>
    change (ofList (if isAsciiDigit (flat c) then '_' :: (c :: rest).map flat
      else (c :: rest).map flat)).toList = _
    rw [isAsciiDigit_flat, toList_ofList]
    dsimp only
    split <;> rfl

def Alike (a b : Char) : Prop :=
  a = b ∨ isAsciiAlphanumeric a = false ∧ isAsciiAlphanumeric b = false

/-- Packages that identifiers do not tell apart: their names differ in characters that are neither letters nor digits. -/
def Confusable (package other : String) : Prop := Forall₂ Alike (padded package) (padded other)

theorem flat_eq_flat_iff : flat a = flat b ↔ Alike a b := by
  constructor
  · intro same
    have plain : isAsciiAlphanumeric a = isAsciiAlphanumeric b := by
      rw [← alphanumeric_flat a, same, alphanumeric_flat]
    cases letter : isAsciiAlphanumeric a with
    | false => exact .inr ⟨letter, plain ▸ letter⟩
    | true =>
      rw [flat, flat, if_pos letter, if_pos (plain ▸ letter)] at same
      exact .inl same
  · rintro (rfl | ⟨left, right⟩)
    · rfl
    · simp [flat, left, right]

theorem identifier_eq_iff : identifier package = identifier other ↔ Confusable package other := by
  rw [← toList_inj, toList_identifier, toList_identifier, Confusable, ← forall₂_eq_eq_eq,
    forall₂_map_left_iff, forall₂_map_right_iff]
  simp only [flat_eq_flat_iff]

theorem isNamePart_flat (c) : Script.isNamePart (flat c) := by
  unfold flat
  split
  · exact (alphanumeric_in_names ‹_›).1
  · decide

theorem isNameStart_flat (other : isAsciiDigit c = false) : Script.isNameStart (flat c) := by
  unfold flat
  split
  · rename_i plain
    rw [(alphanumeric_in_names plain).2.1]
    simpa [isAsciiAlphanumeric, other] using plain
  · decide

theorem isName_identifier (package) : Script.isName (identifier package) := by
  obtain ⟨c, rest, start, letters⟩ : ∃ c rest, isAsciiDigit c = false ∧ padded package = c :: rest := by
    unfold padded
    split
    · exact ⟨_, _, by decide, rfl⟩
    · split
      · exact ⟨_, _, by decide, rfl⟩
      · rename_i other
        exact ⟨_, _, Bool.eq_false_iff.mpr other, rfl⟩
  unfold Script.isName
  rw [toList_identifier, letters, map_cons]
  simp [isNameStart_flat start, isNamePart_flat]

theorem padded_of_letter (letter : isAsciiLetter c) :
    padded package = c :: rest ↔ dropScopeMark package = c :: rest := by
  have alone : '_' ≠ c := by
    rintro rfl
    exact absurd letter (by decide)
  have digit : isAsciiDigit c = false := by
    rw [(alphanumeric_in_names (alphanumeric_of_letter letter)).2.2, letter]
    rfl
  unfold padded
  cases dropScopeMark package with
  | nil => simp [alone]
  | cons d more =>
    dsimp only
    split
    · rename_i start
      have other : d ≠ c := by
        rintro rfl
        exact Bool.false_ne_true (digit ▸ start)
      simp [alone, other]
    · rfl

theorem identifier_eq_word (letters : ∀ d ∈ c :: word, isAsciiLetter d) :
    (identifier package).toList = c :: word ↔ dropScopeMark package = c :: word := by
  have kept : ∀ {d}, flat d ∈ c :: word → flat d = d := by
    intro d mem
    have letter := letters _ mem
    unfold flat at letter ⊢
    split
    · rfl
    · rename_i mark
      rw [if_neg mark] at letter
      exact absurd letter (by decide)
  have flattened : ∀ d ∈ c :: word, flat d = d := fun d mem =>
    if_pos (alphanumeric_of_letter (letters d mem))
  rw [toList_identifier, ← padded_of_letter (letters c mem_cons_self)]
  constructor
  · intro same
    have unchanged : (padded package).map flat = (padded package).map id :=
      map_congr_left fun d mem => kept (same ▸ mem_map_of_mem mem)
    rw [← same, unchanged, List.map_id]
  · intro same
    rw [same, map_congr_left flattened, map_id']

/-! ### Paths among the globals -/

theorem alphanumeric_of_mem_wordsOf (mem : word ∈ wordsOf text) :
    ∀ c ∈ word, isAsciiAlphanumeric c := by
  induction text generalizing word with
  | nil =>
    rw [wordsOf, mem_singleton] at mem
    simp [mem]
  | cons c rest ih =>
    rw [wordsOf] at mem
    split at mem
    · rename_i plain
      split at mem
      · rename_i none
        rw [mem_singleton] at mem
        simp [mem, plain]
      · rename_i first more words
        rw [words] at ih
        rcases mem_cons.mp mem with rfl | later
        · exact forall_mem_cons.mpr ⟨plain, ih mem_cons_self⟩
        · exact ih (mem_cons_of_mem _ later)
    · rcases mem_cons.mp mem with rfl | later
      · simp
      · exact ih later

theorem alphanumeric_capitalize (plain : ∀ c ∈ word, isAsciiAlphanumeric c) :
    ∀ c ∈ capitalize word, isAsciiAlphanumeric c := by
  cases word with
  | nil => exact plain
  | cons c rest =>
    obtain ⟨first, more⟩ := forall_mem_cons.mp plain
    exact forall_mem_cons.mpr ⟨(alphanumeric_toAsciiUpper first).1, more⟩

theorem alphanumeric_camelCase (part) : ∀ c ∈ camelCase part, isAsciiAlphanumeric c := by
  have words : ∀ word ∈ wordsOf part, ∀ c ∈ word, isAsciiAlphanumeric c := fun _ =>
    alphanumeric_of_mem_wordsOf
  unfold camelCase
  split
  · simp
  · rename_i first rest split
    rw [split] at words
    intro c mem
    rcases mem_append.mp mem with here | later
    · exact words _ mem_cons_self c here
    · obtain ⟨_, capital, inside⟩ := mem_flatten.mp later
      obtain ⟨word, listed, rfl⟩ := mem_map.mp capital
      exact alphanumeric_capitalize (words word (mem_cons_of_mem _ listed)) c inside

def startsWithLetter (text : List Char) : Bool :=
  (text.find? isAsciiAlphanumeric).any isAsciiLetter

theorem head?_capitalized (text) :
    ((wordsOf text).map capitalize).flatten.head? =
      (text.find? isAsciiAlphanumeric).map toAsciiUpper := by
  induction text with
  | nil => rfl
  | cons c rest ih =>
    rw [wordsOf, find?_cons]
    cases isAsciiAlphanumeric c with
    | false => exact ih
    | true => cases wordsOf rest <;> rfl

theorem head?_camelCase (part) :
    (camelCase part).head?.any isAsciiLetter = startsWithLetter part := by
  unfold camelCase startsWithLetter
  cases part with
  | nil => rfl
  | cons c rest =>
    rw [wordsOf, find?_cons]
    cases isAsciiAlphanumeric c with
    | true => cases wordsOf rest <;> rfl
    | false =>
      -- the part starts with a mark, so that its first word is capitalized, which keeps letters and digits apart
      change (((wordsOf rest).map capitalize).flatten).head?.any _ = _
      rw [head?_capitalized]
      cases found : rest.find? isAsciiAlphanumeric with
      | none => rfl
      | some d => exact (alphanumeric_toAsciiUpper (find?_some found)).2

theorem isName_camelCase (part) : Script.isName (.ofList (camelCase part)) = startsWithLetter part := by
  rw [← head?_camelCase, Script.isName, toList_ofList]
  cases letters : camelCase part with
  | nil => rfl
  | cons c rest =>
    have plain := alphanumeric_camelCase part
    rw [letters] at plain
    obtain ⟨first, more⟩ := forall_mem_cons.mp plain
    have parts : rest.all Script.isNamePart :=
      all_eq_true.mpr fun d mem => (alphanumeric_in_names (more d mem)).1
    simp [(alphanumeric_in_names first).2.1, parts]

theorem splitOn_global (package) :
    Text.splitOn '.' (global package ∅) =
      (Chars.splitOn '/' (dropScopeMark package)).map fun part => .ofList (camelCase part) := by
  have undotted : ∀ piece ∈ (Chars.splitOn '/' (dropScopeMark package)).map camelCase, '.' ∉ piece := by
    intro piece mem dotted
    obtain ⟨part, -, rfl⟩ := mem_map.mp mem
    exact absurd (alphanumeric_camelCase part '.' dotted) (by decide)
  have some := Chars.splitOn_ne_nil '/' (dropScopeMark package)
  have path : (global package ∅).toList =
      Chars.join ['.'] ((Chars.splitOn '/' (dropScopeMark package)).map camelCase) := toList_ofList
  rw [Text.splitOn, path, splitOn_join undotted (by simpa using some), List.map_map]
  rfl

end Specifier

namespace LibraryBundle

open Specifier

def unbindableWords : List String := Script.reservedWords ++ Script.strictWords ++ ["arguments", "eval", "let"]

def isBindable (name : String) : Bool := Script.isName name && !unbindableWords.contains name

theorem letters_of_mem_unbindableWords (mem : word ∈ Loader.exports :: unbindableWords) :
    word.toList ≠ [] ∧ ∀ c ∈ word.toList, isAsciiLetter c := by
  have all : ((Loader.exports :: unbindableWords).all fun word =>
      !word.toList.isEmpty && word.toList.all isAsciiLetter) := by rfl
  simpa using all_eq_true.mp all word mem

theorem identifier_eq_unbindable (mem : word ∈ Loader.exports :: unbindableWords) (package) :
    identifier package = word ↔ .ofList (dropScopeMark package) = word := by
  obtain ⟨some, letters⟩ := letters_of_mem_unbindableWords mem
  obtain ⟨c, rest, spelled⟩ := exists_cons_of_ne_nil some
  rw [← toList_inj, ← toList_inj, toList_ofList]
  rw [spelled] at letters ⊢
  exact identifier_eq_word letters

theorem isBindable_identifier (package) :
    isBindable (identifier package) = !unbindableWords.contains (.ofList (dropScopeMark package)) := by
  rw [isBindable, isName_identifier, Bool.true_and]
  congr 1
  rw [Bool.eq_iff_iff, contains_iff_mem, contains_iff_mem]
  constructor
  · intro mem
    rwa [(identifier_eq_unbindable (mem_cons_of_mem _ mem) package).mp rfl]
  · intro mem
    rwa [(identifier_eq_unbindable (mem_cons_of_mem _ mem) package).mpr rfl]

/-- The packages of a bundle are bound to names. The names are distinct exactly if no two packages differ only in
characters that are neither letters nor digits, and the parameters of the universal form if, further, no package is
called `exports`. A name can be bound unless the package is called like a word of the language, and a path among the
globals is made of names exactly if in each part of the name of its package a letter comes before all digits. -/
theorem package_names_in_bundles (b : LibraryBundle)
    (described : ∀ p ∈ b.packages, ∃ tree info metadata, p = PackageInfo.describe tree ∅ p.package info metadata) :
    ((b.packages.map (·.identifier)).Nodup ↔ b.packages.Pairwise fun p q => ¬Confusable p.package q.package) ∧
      (b.parameters.Nodup ↔ (b.packages.Pairwise fun p q => ¬Confusable p.package q.package) ∧
        ∀ p ∈ b.packages, ofList (dropScopeMark p.package) ≠ Loader.exports) ∧
      ∀ p ∈ b.packages, Script.isName p.identifier = true ∧
        isBindable p.identifier = !unbindableWords.contains (.ofList (dropScopeMark p.package)) ∧
        (Text.splitOn '.' p.global).all Script.isName =
          (Chars.splitOn '/' (dropScopeMark p.package)).all startsWithLetter := by
  have named : ∀ p ∈ b.packages, p.identifier = identifier p.package ∧ p.global = Specifier.global p.package ∅ := by
    intro p member
    obtain ⟨tree, info, metadata, same⟩ := described p member
    rw [same]
    exact ⟨rfl, rfl⟩
  have apart : (b.packages.map (·.identifier)).Nodup ↔
      b.packages.Pairwise fun p q => ¬Confusable p.package q.package := by
    rw [Nodup, pairwise_map]
    refine Pairwise.iff_of_mem fun {p q} left right => ?_
    rw [Ne, (named p left).1, (named q right).1, identifier_eq_iff]
  refine ⟨apart, ?_, fun p member => ?_⟩
  · rw [parameters, nodup_cons, apart, and_comm, mem_map, not_exists]
    refine and_congr_right fun _ => forall_congr' fun p => ?_
    rw [not_and]
    refine forall_congr' fun member => not_congr ?_
    rw [(named p member).1, identifier_eq_unbindable mem_cons_self]
  · rw [(named p member).1, (named p member).2, splitOn_global, all_map]
    refine ⟨isName_identifier p.package, isBindable_identifier p.package, ?_⟩
    congr 1
    funext part
    exact isName_camelCase part

def bundleOf (packages : List String) : LibraryBundle where
  name := "kit"
  global := "kit"
  table := ""
  entry := 0
  exports := ∅
  packages := packages.map fun name => PackageInfo.describe default ∅ name default (some { name, exports := [name] })

theorem described_bundleOf (packages) : ∀ p ∈ (bundleOf packages).packages,
    ∃ tree info metadata, p = PackageInfo.describe tree ∅ p.package info metadata := by
  intro p mem
  obtain ⟨name, -, rfl⟩ := mem_map.mp mem
  exact ⟨_, _, _, rfl⟩

theorem scoped_package_names :
    (bundleOf ["@ui/date-picker", "d3"]).parameters = ["exports", "ui_date_picker", "d3"] ∧
      ¬Confusable "@ui/date-picker" "d3" ∧
      ∀ p ∈ (bundleOf ["@ui/date-picker", "d3"]).packages, isBindable p.identifier = true ∧
        (Text.splitOn '.' p.global).all Script.isName = true := by
  have names := package_names_in_bundles (bundleOf ["@ui/date-picker", "d3"]) (described_bundleOf _)
  refine ⟨by decide, ?_, ?_⟩
  · exact (pairwise_cons.mp (names.1.mp (by decide))).1 _ mem_cons_self
  · intro p member
    rw [(names.2.2 p member).2.1, (names.2.2 p member).2.2]
    revert p member
    decide

/-- Packages that a bundle cannot bind: two under one name, one under a reserved word, one under the name of the first
parameter, and one at a path that starts with a digit. -/
theorem unbindable_packages :
    identifier "a-b" = identifier "a_b" ∧
      isBindable (identifier "class") = false ∧
      (bundleOf ["exports"]).parameters = ["exports", "exports"] ∧
      Specifier.global "3d-lib" ∅ = "3dLib" ∧ Script.isName "3dLib" = false := by
  decide

end LibraryBundle

end ComponentCompiler
