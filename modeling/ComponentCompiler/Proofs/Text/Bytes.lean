import ComponentCompiler.Text.Chars

/-!
Which offsets are cuts. Main statements: `exists_slice?`, a text can be sliced between any two cuts, and
`splits_at_ascii`, the offset of a byte that is an ASCII character is a cut, and so is the offset behind it.
-/

namespace ComponentCompiler.Chars

open List String

variable {before after text : List Char} {c : Char} {offset : Nat}

theorem byteLength_append (a b) : byteLength (a ++ b) = byteLength a + byteLength b := by
  induction a with
  | nil => simp [byteLength]
  | cons c rest ih => simp only [cons_append, byteLength, ih, Nat.add_assoc]

theorem byteLength_cons (c) (rest) :
    ∃ bytes, byteLength (c :: rest) = bytes + 1 ∧ bytes + 1 - c.utf8Size = byteLength rest := by
  have := c.utf8Size_pos
  exact ⟨c.utf8Size + byteLength rest - 1, by rw [byteLength]; omega, by omega⟩

theorem length_bytes (text) : (bytes text).length = byteLength text := by
  induction text with
  | nil => rfl
  | cons c rest ih =>
    rw [bytes, flatMap_cons, List.length_append, length_utf8EncodeChar, byteLength, ← ih, bytes]

theorem byteLength_le_of_sublist {a b : List Char} (sub : a.Sublist b) : byteLength a ≤ byteLength b := by
  induction sub with
  | slnil => exact Nat.le_refl _
  | cons c _ ih =>
    rw [byteLength]
    omega
  | cons_cons c _ ih =>
    rw [byteLength, byteLength]
    omega

/-! ### Cuts and slices -/

theorem cutAt?_append (before after) : cutAt? (byteLength before) (before ++ after) = some (before, after) := by
  induction before with
  | nil => cases after <;> rfl
  | cons c rest ih =>
    obtain ⟨bytes, size, less⟩ := byteLength_cons c rest
    rw [size, cons_append, cutAt?, if_pos (by rw [byteLength] at size; omega), less, ih]
    rfl

theorem slice?_append (before inside after) :
    slice? (byteLength before) (byteLength before + byteLength inside) (before ++ inside ++ after) = some inside := by
  rw [slice?, ← byteLength_append, cutAt?_append]
  simp [cutAt?_append]

/-- An offset at which a character of the text begins, or at which the text ends. -/
def IsCut (offset : Nat) (text : List Char) : Prop := ∃ before after, text = before ++ after ∧ byteLength before = offset

theorem isCut_zero (text) : IsCut 0 text := ⟨[], text, rfl, rfl⟩

theorem IsCut.le (cut : IsCut offset text) : offset ≤ byteLength text := by
  obtain ⟨before, after, rfl, rfl⟩ := cut
  rw [byteLength_append]
  omega

theorem isCut_byteLength (text) : IsCut (byteLength text) text := ⟨text, [], by simp, rfl⟩

theorem exists_slice? (first : IsCut start text) (last : IsCut stop text) (le : start ≤ stop) :
    ∃ inside, slice? start stop text = some inside ∧ byteLength inside = stop - start := by
  obtain ⟨before, rest, rfl, rfl⟩ := first
  obtain ⟨upTo, after, same, rfl⟩ := last
  obtain ⟨inside, rfl, rfl⟩ | ⟨past, rfl, rfl⟩ := append_eq_append_iff.mp same
  · refine ⟨inside, ?_, by rw [byteLength_append]; omega⟩
    rw [← List.append_assoc, byteLength_append, slice?_append]
  · -- the second cut cannot stand before the first, so nothing is between them
    have none : byteLength past = 0 := by
      rw [byteLength_append] at le
      omega
    cases past with
    | nil =>
      refine ⟨[], ?_, by simp [byteLength]⟩
      simpa [byteLength] using slice?_append upTo [] rest
    | cons c past =>
      rw [byteLength] at none
      have := c.utf8Size_pos
      omega

/-! ### Bytes that are characters -/

def isAscii (c : Char) : Bool := c.toNat < 128

theorem isAscii_of_alphanumeric (plain : isAsciiAlphanumeric c) : c.toNat < 128 := by
  simp only [isAsciiAlphanumeric, isAsciiLetter, isAsciiDigit, Bool.or_eq_true, Bool.and_eq_true, decide_eq_true_eq,
    Char.le_def, UInt32.le_iff_toNat_le] at plain
  have last : 'z'.val.toNat = 122 ∧ 'Z'.val.toNat = 90 ∧ '9'.val.toNat = 57 := by decide
  rw [last.1, last.2.1, last.2.2] at plain
  change c.val.toNat < 128
  omega

@[elab_as_elim]
theorem ascii_cases {P : Char → Prop} (c) (low : c.toNat < 128) (all : ∀ n < 128, P (.ofNat n)) : P c :=
  c.ofNat_toNat ▸ all c.toNat low

theorem utf8Size_of_isAscii (ascii : isAscii c) : c.utf8Size = 1 := by
  rw [Char.utf8Size_eq_one_iff, UInt32.le_iff_toNat_le]
  have small : c.toNat < 128 := of_decide_eq_true ascii
  exact Nat.le_of_lt_succ small

theorem utf8EncodeChar_of_isAscii (ascii : isAscii c) : ∃ b, utf8EncodeChar c = [b] ∧ Char.ofUInt8 b = c := by
  have small : c.val.toNat < 128 := of_decide_eq_true ascii
  refine ⟨.ofNat c.val.toNat, ?_, ?_⟩
  · rw [utf8EncodeChar]
    exact if_pos (Nat.le_of_lt_succ small)
  · apply Char.ext
    apply UInt32.toNat.inj
    show (UInt8.ofNat c.val.toNat).toNat = c.val.toNat
    exact Nat.mod_eq_of_lt (by omega)

/-- No byte of another character is an ASCII character. -/
theorem isAscii_of_mem_utf8EncodeChar (other : isAscii c = false) (mem : b ∈ utf8EncodeChar c) :
    isAscii (.ofUInt8 b) = false := by
  have toNat_ofUInt8 (b : UInt8) : (Char.ofUInt8 b).toNat = b.toNat := rfl
  have large : ¬ c.val.toNat ≤ 127 := fun le => of_decide_eq_false other (Nat.lt_succ_of_le le)
  revert b
  rw [utf8EncodeChar]
  simp only [if_neg large]
  split
  · simp [isAscii, toNat_ofUInt8]
    omega
  · split
    · simp [isAscii, toNat_ofUInt8]
      omega
    · simp [isAscii, toNat_ofUInt8]
      omega

theorem splits_at_ascii (found : (bytes text)[i]? = some b) (ascii : isAscii (.ofUInt8 b)) :
    ∃ before after, text = before ++ .ofUInt8 b :: after ∧ byteLength before = i := by
  induction text generalizing i with
  | nil => simp [bytes] at found
  | cons c rest ih =>
    rw [bytes, flatMap_cons, getElem?_append] at found
    split at found
    · rename_i inside
      by_cases single : isAscii c
      · obtain ⟨_, single, rfl⟩ := utf8EncodeChar_of_isAscii single
        rw [single] at found inside
        obtain rfl : i = 0 := by simpa using inside
        obtain rfl := Option.some.inj found
        exact ⟨[], rest, rfl, rfl⟩
      · rw [isAscii_of_mem_utf8EncodeChar (Bool.not_eq_true _ ▸ single) (mem_of_getElem? found)] at ascii
        contradiction
    · rename_i behind
      rw [length_utf8EncodeChar] at found behind
      obtain ⟨before, after, rfl, length⟩ := ih found
      exact ⟨c :: before, after, rfl, by rw [byteLength]; omega⟩

/-! ### Texts by their bytes -/

/-- A text as a scan of its bytes sees it, with one character for each byte. -/
def view (text : List Char) : List Char := (bytes text).map .ofUInt8

theorem view_ascii (ascii : isAscii c) (rest) : view (c :: rest) = c :: view rest := by
  obtain ⟨b, single, rfl⟩ := utf8EncodeChar_of_isAscii ascii
  simp [view, bytes, single]

theorem length_view (text) : (view text).length = byteLength text := by
  rw [view, List.length_map, length_bytes]

theorem view_append (before after) : view (before ++ after) = view before ++ view after := by
  simp [view, bytes]

theorem view_eq_nil : view text = [] ↔ text = [] := by
  refine ⟨fun empty => ?_, fun empty => by rw [empty]; rfl⟩
  have size := congrArg List.length empty
  rw [length_view] at size
  cases text with
  | nil => rfl
  | cons c rest => exact absurd size (by simp [byteLength, Nat.ne_of_gt c.utf8Size_pos])

/-- An ASCII character among the bytes of a text is a character of the text. -/
theorem view_eq_append (ascii : isAscii c) : view text = before ++ c :: after ↔
    ∃ behind ahead, text = behind ++ c :: ahead ∧ view behind = before ∧ view ahead = after := by
  constructor
  · intro shape
    have found : (view text)[before.length]? = some c := by simp [shape]
    rw [view, getElem?_map, Option.map_eq_some_iff] at found
    obtain ⟨b, found, rfl⟩ := found
    obtain ⟨behind, ahead, rfl, size⟩ := splits_at_ascii found ascii
    rw [view_append, view_ascii ascii] at shape
    obtain ⟨first, last⟩ := append_inj shape (by rw [length_view, size])
    exact ⟨behind, ahead, rfl, first, (cons.inj last).2⟩
  · rintro ⟨behind, ahead, rfl, rfl, rfl⟩
    rw [view_append, view_ascii ascii]

end ComponentCompiler.Chars
