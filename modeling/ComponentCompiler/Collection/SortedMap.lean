/-!
Finite maps kept as a list of entries with strictly increasing keys, so that two maps with the same
entries are equal.
-/

namespace ComponentCompiler

universe u v w

structure SortedMap (κ : Type u) (α : Type v) [Ord κ] where
  entries : List (κ × α)
  sorted : entries.Pairwise fun a b => compare a.1 b.1 = .lt

namespace SortedMap

variable {κ : Type u} {α : Type v} {β : Type w} [Ord κ]

def empty : SortedMap κ α := ⟨[], .nil⟩

instance : EmptyCollection (SortedMap κ α) := ⟨empty⟩

instance : Inhabited (SortedMap κ α) := ⟨empty⟩

instance [BEq κ] [BEq α] : BEq (SortedMap κ α) := ⟨fun a b => a.entries == b.entries⟩

variable (m : SortedMap κ α)

def toList : List (κ × α) := m.entries

def keys : List κ := m.entries.map (·.1)

def values : List α := m.entries.map (·.2)

def size : Nat := m.entries.length

def isEmpty : Bool := m.entries.isEmpty

def get? (key : κ) : Option α :=
  (m.entries.find? fun entry => compare key entry.1 == .eq).map (·.2)

def contains (key : κ) : Bool := (m.get? key).isSome

@[ext]
theorem ext {a b : SortedMap κ α} (h : a.entries = b.entries) : a = b := by
  cases a; cases b; simp_all

def insertEntry (key : κ) (value : α) : List (κ × α) → List (κ × α)
  | [] => [(key, value)]
  | entry :: rest =>
    match compare key entry.1 with
    | .lt => (key, value) :: entry :: rest
    | .eq => (entry.1, value) :: rest
    | .gt => entry :: insertEntry key value rest

theorem mem_insertEntry {key : κ} {value : α} {entries : List (κ × α)} {entry : κ × α}
    (h : entry ∈ insertEntry key value entries) :
    entry.1 = key ∨ ∃ old ∈ entries, old.1 = entry.1 := by
  induction entries with
  | nil => left; simp [insertEntry] at h; rw [h]
  | cons head rest ih =>
    rw [insertEntry] at h
    split at h
    · rcases List.mem_cons.mp h with h | h
      · left; rw [h]
      · exact .inr ⟨entry, h, rfl⟩
    · rcases List.mem_cons.mp h with h | h
      · exact .inr ⟨head, List.mem_cons_self, by rw [h]⟩
      · exact .inr ⟨entry, List.mem_cons_of_mem _ h, rfl⟩
    · rcases List.mem_cons.mp h with h | h
      · exact .inr ⟨head, List.mem_cons_self, by rw [h]⟩
      · rcases ih h with same | ⟨old, member, same⟩
        · exact .inl same
        · exact .inr ⟨old, List.mem_cons_of_mem _ member, same⟩

theorem insertEntry_sorted [Std.TransOrd κ] (key : κ) (value : α) {entries : List (κ × α)}
    (h : entries.Pairwise fun a b => compare a.1 b.1 = .lt) :
    (insertEntry key value entries).Pairwise fun a b => compare a.1 b.1 = .lt := by
  induction entries with
  | nil => simp [insertEntry]
  | cons head rest ih =>
    have ⟨below, tail⟩ := List.pairwise_cons.mp h
    rw [insertEntry]
    split
    · rename_i less
      refine List.pairwise_cons.mpr ⟨fun entry member => ?_, h⟩
      rcases List.mem_cons.mp member with same | member
      · rw [same]; exact less
      · exact Std.TransCmp.lt_trans less (below entry member)
    · exact List.pairwise_cons.mpr ⟨below, tail⟩
    · rename_i greater
      refine List.pairwise_cons.mpr ⟨fun entry member => ?_, ih tail⟩
      rcases mem_insertEntry member with same | ⟨old, inside, same⟩
      · rw [same]; exact Std.OrientedCmp.lt_of_gt greater
      · rw [← same]; exact below old inside

def insert [Std.TransOrd κ] (m : SortedMap κ α) (key : κ) (value : α) : SortedMap κ α :=
  ⟨insertEntry key value m.entries, insertEntry_sorted key value m.sorted⟩

def filter (keep : κ → α → Bool) : SortedMap κ α :=
  ⟨m.entries.filter fun entry => keep entry.1 entry.2, m.sorted.filter _⟩

def erase (key : κ) : SortedMap κ α :=
  m.filter fun other _ => compare key other != .eq

def map (f : κ → α → β) : SortedMap κ β :=
  ⟨m.entries.map fun entry => (entry.1, f entry.1 entry.2), by
    rw [List.pairwise_map]; exact m.sorted⟩

def upsert [Std.TransOrd κ] (m : SortedMap κ α) (key : κ) (initial : α) (f : α → α) : SortedMap κ α :=
  m.insert key (f ((m.get? key).getD initial))

def insertNew [Std.TransOrd κ] (m : SortedMap κ α) (key : κ) (value : α) : SortedMap κ α :=
  if m.contains key then m else m.insert key value

def insertMany [Std.TransOrd κ] (m : SortedMap κ α) (entries : List (κ × α)) : SortedMap κ α :=
  entries.foldl (fun acc entry => acc.insert entry.1 entry.2) m

def ofList [Std.TransOrd κ] (entries : List (κ × α)) : SortedMap κ α :=
  empty.insertMany entries

end SortedMap

abbrev SortedSet (κ : Type u) [Ord κ] := SortedMap κ Unit

namespace SortedSet

variable {κ : Type u} [Ord κ]

def toList (s : SortedSet κ) : List κ := s.keys

def add [Std.TransOrd κ] (s : SortedSet κ) (key : κ) : SortedSet κ := s.insert key ()

def addMany [Std.TransOrd κ] (s : SortedSet κ) (keys : List κ) : SortedSet κ :=
  keys.foldl add s

def ofList [Std.TransOrd κ] (keys : List κ) : SortedSet κ := addMany ∅ keys

end SortedSet

end ComponentCompiler
