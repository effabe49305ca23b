import ComponentCompiler.Proofs.Registry.Contents

/-! The selector index of a registry. Main statement: `changes_keep_index`. -/

namespace ComponentCompiler

open List Option Bool

namespace Selector

theorem bareName?_eq_some_iff {s : Selector} : s.bareName? = some name ↔ s = { tag := some name } := by
  obtain ⟨tag, reference, classes, attributes⟩ := s
  unfold bareName?
  cases reference <;> cases classes <;> cases attributes <;> simp

end Selector

namespace Registry

variable {r : Registry} {d : Definition} {kind : AnnotationKind} {name : String}

/-! ### Entries of one definition -/

def standsFor (kind : AnnotationKind) (name : String) (entry : SelectorEntry) : Bool :=
  entry.kind = kind && entry.name = name

def listed (r : Registry) (kind : AnnotationKind) (name : String) : List SelectorEntry :=
  r.index.filter (standsFor kind name)

def alternatives (r : Registry) (kind : AnnotationKind) (name : String) : List SelectorEntry :=
  match (r.get? kind name).bind (·.selector?) with
  | some text => if kind.isSelectable then (Selector.listOfText text).map (⟨text, ·, kind, name⟩) else []
  | none => []

theorem isSelectable_of_table_eq {other : AnnotationKind} (same : kind.table = other.table) :
    kind.isSelectable = other.isSelectable := by
  cases kind <;> cases other <;> first | rfl | cases same

theorem isSelectable_of_kind_ne {other : AnnotationKind} (same : kind.table = other.table) (differ : kind ≠ other) :
    kind.isSelectable = false := by
  cases kind <;> cases other <;> first | rfl | exact absurd rfl differ | cases same

theorem filter_indexEntries (d) (kind) (name) :
    (indexEntries d).filter (standsFor kind name) =
      if kind = d.kind ∧ name = d.name then indexEntries d else [] := by
  split
  · rename_i same
    refine filter_eq_self.mpr fun entry mem => ?_
    obtain ⟨kind', name'⟩ := indexEntries_of mem
    simp [standsFor, kind', name', same]
  · rename_i other
    refine filter_eq_nil_iff.mpr fun entry mem stands => other ?_
    obtain ⟨kind', name'⟩ := indexEntries_of mem
    simp only [standsFor, and_eq_true, decide_eq_true_eq] at stands
    exact ⟨stands.1.symm.trans kind', stands.2.symm.trans name'⟩

theorem alternatives_of_get? (here : r.get? kind name = some d) (table : d.kind.table = kind.table) (own : d.name = name) :
    r.alternatives kind name = indexEntries d := by
  subst own
  unfold alternatives indexEntries
  rw [here, bind_some, isSelectable_of_table_eq table]
  cases d.selector? with
  | none => simp
  | some text =>
    by_cases kinds : kind = d.kind
    · rw [kinds]
    · simp [isSelectable_of_kind_ne table.symm kinds]

theorem alternatives_of_free (free : r.get? kind name = none) : r.alternatives kind name = [] := by
  rw [alternatives, free]
  rfl

/-! ### Changes -/

inductive Change where
  | register (d : Definition)
  | registerExternal (d : Definition)
  | registerMetadata (package : String) (m : LibraryMetadata)
  | deregisterFile (file : String)

def change (r : Registry) : Change → Registry
  | .register d => (r.register d).registry
  | .registerExternal d => r.registerExternal d
  | .registerMetadata package m => r.registerMetadata package m
  | .deregisterFile file => (r.deregisterFile file).1

structure Indexed (r : Registry) : Prop where
  coherent : r.Coherent
  listed : ∀ kind name, r.listed kind name = r.alternatives kind name

theorem indexed_empty : Indexed {} where
  coherent := coherent_empty
  listed kind name := by cases kind <;> rfl

theorem Indexed.of_eq {r' : Registry} (indexed : r.Indexed) (same : ∀ kind name, r'.get? kind name = r.get? kind name)
    (index : r'.index = r.index) : r'.Indexed where
  coherent := indexed.coherent.of_eq same index
  listed kind name := by
    rw [Registry.listed, index, alternatives, same]
    exact indexed.listed kind name

theorem listed_store (r : Registry) (d) (kind) (name) :
    (r.store d).listed kind name =
      r.listed kind name ++ if kind = d.kind ∧ name = d.name then indexEntries d else [] := by
  rw [← filter_indexEntries]
  exact filter_append ..

theorem Indexed.registerExternal (indexed : r.Indexed) (d) : (r.registerExternal d).Indexed := by
  refine ⟨indexed.coherent.registerExternal d, fun kind name => ?_⟩
  unfold Registry.registerExternal
  split
  · exact indexed.listed kind name
  · rename_i free
    have free : r.get? d.kind d.name = none := by simpa using free
    rw [listed_store, indexed.listed]
    by_cases same : kind.table = d.kind.table ∧ name = d.name
    · -- nothing was listed under a name that is free
      have stored : (r.store d).get? kind name = some d := by rw [get?_store, if_pos same]
      rw [alternatives_of_free (by rw [get?_of_table_eq same.1, same.2, free]), nil_append,
        alternatives_of_get? stored same.1.symm same.2.symm]
      by_cases kinds : kind = d.kind
      · rw [if_pos ⟨kinds, same.2⟩]
      · simp [indexEntries, isSelectable_of_kind_ne same.1.symm (Ne.symm kinds), kinds]
    · have other : ¬(kind = d.kind ∧ name = d.name) := fun both => same ⟨by rw [both.1], both.2⟩
      rw [if_neg other, append_nil, alternatives, alternatives, get?_store, if_neg same]

theorem Indexed.registerMetadata (indexed : r.Indexed) (package) (m) : (r.registerMetadata package m).Indexed :=
  registerMetadata_induct indexed (fun r output _ known => (known.of_eq (get?_withOutput r output) rfl).registerExternal _)
    package m

theorem listed_deregisterFile (r : Registry) (file) (kind) (name) :
    (r.deregisterFile file).1.listed kind name =
      if (kind, name) ∈ (r.deregisterFile file).2 then [] else r.listed kind name := by
  have kept : (r.deregisterFile file).1.index =
      r.index.filter fun entry => !(r.deregisterFile file).2.contains (entry.kind, entry.name) := rfl
  rw [listed, kept, List.filter_filter, listed]
  -- the entries of one kind and name go or stay together
  have together : ∀ entry : SelectorEntry, standsFor kind name entry →
      (r.deregisterFile file).2.contains (entry.kind, entry.name) = (r.deregisterFile file).2.contains (kind, name) := by
    intro entry stands
    simp only [standsFor, and_eq_true, decide_eq_true_eq] at stands
    rw [stands.1, stands.2]
  split
  · rename_i gone
    refine filter_eq_nil_iff.mpr fun entry _ both => ?_
    rw [and_eq_true, not_eq_true'] at both
    rw [together entry both.1] at both
    simp [gone] at both
  · rename_i stays
    refine filter_congr fun entry _ => ?_
    cases stands : standsFor kind name entry with
    | false => rfl
    | true =>
      rw [together entry stands]
      simpa using stays

theorem Indexed.deregisterFile (indexed : r.Indexed) (file) : (r.deregisterFile file).1.Indexed := by
  refine ⟨indexed.coherent.deregisterFile file, fun kind name => ?_⟩
  rw [listed_deregisterFile, indexed.listed]
  cases here : r.get? kind name with
  | none =>
    have after : (r.deregisterFile file).1.get? kind name = none := by rw [get?_deregisterFile, here]; rfl
    rw [alternatives_of_free here, alternatives_of_free after, ite_self]
  | some d =>
    obtain ⟨table, own⟩ := indexed.coherent.own here
    have removed : (kind, name) ∈ (r.deregisterFile file).2 ↔ _ := indexed.coherent.mem_removed
    by_cases gone : (d.isLocal && d.file == file)
    · have after : (r.deregisterFile file).1.get? kind name = none := by
        rw [get?_deregisterFile, here, filter_some, gone]
        rfl
      rw [alternatives_of_free after]
      split
      · rfl
      · -- a definition that goes under another kind had no selector to list
        rename_i stays
        have kinds : d.kind ≠ kind := fun same => stays (removed.mpr ⟨d, here, same, gone⟩)
        rw [alternatives_of_get? here table own]
        simp [indexEntries, isSelectable_of_kind_ne table kinds]
    · have after : (r.deregisterFile file).1.get? kind name = some d := by
        rw [get?_deregisterFile, here, filter_some, if_pos (by rw [not_eq_true', eq_false_iff]; exact gone)]
      have stays : (kind, name) ∉ (r.deregisterFile file).2 := by
        rw [removed]
        rintro ⟨d', here', -, gone'⟩
        cases here.symm.trans here'
        exact gone gone'
      rw [if_neg stays, alternatives_of_get? here table own, alternatives_of_get? after table own]

theorem Indexed.change (indexed : r.Indexed) (c : Change) : (r.change c).Indexed := by
  cases c with
  | register d =>
    rw [Registry.change, registry_register]
    exact indexed.registerExternal d
  | registerExternal d => exact indexed.registerExternal d
  | registerMetadata package m => exact indexed.registerMetadata package m
  | deregisterFile file => exact indexed.deregisterFile file

theorem indexed_changes (changes : List Change) : (changes.foldl change {}).Indexed := by
  have all : ∀ r : Registry, r.Indexed → (changes.foldl change r).Indexed := by
    induction changes with
    | nil => exact fun _ indexed => indexed
    | cons c rest ih => exact fun r indexed => ih (r.change c) (indexed.change c)
  exact all {} indexed_empty

/-! ### Lookup and refusal -/

theorem Coherent.isSome_findElement? (coherent : r.Coherent) : (r.findElement? tag).isSome ↔
    ∃ name d text, r.elements.get? name = some d ∧ d.selector? = some text ∧
      ({ tag := some tag } : Selector) ∈ Selector.listOfText text := by
  constructor
  · intro found
    obtain ⟨d, found⟩ := isSome_iff_exists.mp found
    obtain ⟨entry, first, here⟩ := bind_eq_some_iff.mp found
    have isElement := find?_some first
    simp only [and_eq_true, decide_eq_true_eq, beq_iff_eq, Selector.bareName?_eq_some_iff] at isElement
    obtain ⟨d', here', listed⟩ := coherent.index.mp (mem_of_find?_eq_some first)
    rw [isElement.1] at here'
    cases here.symm.trans here'
    unfold indexEntries at listed
    split at listed
    · split at listed
      · rename_i text selector
        obtain ⟨alternative, mem, rfl⟩ := List.mem_map.mp listed
        exact ⟨_, d, text, here, selector, isElement.2 ▸ mem⟩
      · cases listed
    · cases listed
  · rintro ⟨name, d, text, here, selector, mem⟩
    have here : r.get? .element name = some d := here
    obtain ⟨table, own⟩ := coherent.own here
    have kind : d.kind = .element := Decidable.byContradiction fun differ => by
      cases isSelectable_of_kind_ne table.symm (Ne.symm differ)
    have listed : (⟨text, { tag := some tag }, .element, name⟩ : SelectorEntry) ∈ r.index := by
      refine coherent.index.mpr ⟨d, here, ?_⟩
      rw [indexEntries, kind, selector]
      exact List.mem_map.mpr ⟨_, mem, by rw [own]⟩
    have some : (r.index.find? fun entry => entry.kind = .element && entry.selector.bareName? == some tag).isSome := by
      rw [find?_isSome]
      exact ⟨_, listed, by simp [Selector.bareName?]⟩
    obtain ⟨entry, first⟩ := isSome_iff_exists.mp some
    -- the first entry of the tag belongs to a registered element, too
    have isElement := find?_some first
    simp only [and_eq_true, decide_eq_true_eq] at isElement
    obtain ⟨d', here', -⟩ := coherent.index.mp (mem_of_find?_eq_some first)
    rw [isElement.1] at here'
    rw [findElement?, first, Option.bind_some, show r.elements.get? entry.name = Option.some d' from here']
    rfl

theorem registerExternal_of_taken (taken : (r.get? d.kind d.name).isSome) : r.registerExternal d = r := by
  rw [registerExternal, if_pos taken]

/-- The slots that packages declare, with those of an entry of their metadata. -/
def declaredSlots (r : Registry) (entry : String × MetadataEntry) : SortedMap String (List (Option String)) :=
  if entry.2.kind = .element && !entry.2.slots.isEmpty then r.output.externalSlots.insert entry.1 entry.2.slots
  else r.output.externalSlots

theorem registerMetadataEntry_of_taken {entry : String × MetadataEntry}
    (taken : (r.get? entry.2.kind entry.1).isSome) (package) :
    registerMetadataEntry package r entry =
      { r with output := { r.output with externalSlots := r.declaredSlots entry } } := by
  unfold registerMetadataEntry declaredSlots
  split
  · refine registerExternal_of_taken ?_
    rw [get?_withOutput]
    exact taken
  · exact registerExternal_of_taken taken

/-- In a registry that has been changed in any way, each definition stands under its own name among those of its kind.
For each kind and name the index lists the alternatives of the selector that is registered, in their order and once
each, and nothing else. A tag has an element exactly if it is an alternative of the selector of a registered element.
A registration that is refused changes nothing; a refused entry of a package's metadata leaves all but the slots that
packages declare. -/
theorem changes_keep_index (changes : List Change) :
    let r := changes.foldl change {}
    (∀ kind name d, r.get? kind name = some d → d.kind.table = kind.table ∧ d.name = name) ∧
      (∀ kind name, r.listed kind name = r.alternatives kind name) ∧
      (∀ tag, (r.findElement? tag).isSome = true ↔ ∃ name d text, r.elements.get? name = some d ∧
        d.selector? = some text ∧ ({ tag := some tag } : Selector) ∈ Selector.listOfText text) ∧
      (∀ d, (r.register d).accepted = false → (r.register d).registry = r) ∧
      (∀ d, (r.get? d.kind d.name).isSome = true → r.registerExternal d = r) ∧
      (∀ package entry, (r.get? entry.2.kind entry.1).isSome = true → registerMetadataEntry package r entry =
        { r with output := { r.output with externalSlots := r.declaredSlots entry } }) := by
  intro r
  have indexed := indexed_changes changes
  refine ⟨fun kind name d here => indexed.coherent.own here, indexed.listed,
    fun tag => indexed.coherent.isSome_findElement?, fun d refused => ?_, fun d => registerExternal_of_taken,
    fun package entry taken => registerMetadataEntry_of_taken taken package⟩
  rw [accepted_register] at refused
  rw [registry_register]
  exact registerExternal_of_taken (by simpa using refused)

def localCard : Definition :=
  { name := "Card", kind := .element, properties := [("selector", .string "x-card")], file := "/w/card.js" }

def cardMetadata : LibraryMetadata :=
  { name := "kit"
    elements := .ofList [("Card", { kind := .element, slots := [some "header"] })] }

/-- The element of the package is refused, since the name is taken; its slots are set all the same, and content of the
local element is routed by them. -/
theorem refused_element_sets_slots :
    let r := (Registry.empty.register localCard).registry
    let after := r.registerMetadata "kit" cardMetadata
    after.get? .element "Card" = some localCard ∧ after.index = r.index ∧
      r.slots? "Card" = none ∧ after.slots? "Card" = some [some "header"] := by
  refine ⟨rfl, rfl, rfl, rfl⟩

end Registry

end ComponentCompiler
