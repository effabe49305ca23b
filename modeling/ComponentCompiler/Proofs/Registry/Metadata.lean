import ComponentCompiler.Proofs.Registry.Contents
import ComponentCompiler.Proofs.Template.Waiting

/-!
What the users of a library see of its definitions. They do not tell an element without slots from
one whose slots are not known.
-/

namespace ComponentCompiler

open List Option Bool SortedMap Registry

def AnnotationKind.listing : AnnotationKind → AnnotationKind
  | .provider => .service
  | kind => kind

theorem AnnotationKind.table_eq_of_listing_eq {kind other : AnnotationKind} (same : kind.listing = other.listing) :
    kind.table = other.table := by
  cases kind <;> cases other <;> first | rfl | cases same

namespace LibraryMetadata

variable {m : LibraryMetadata}

def entriesOf (m : LibraryMetadata) : AnnotationKind → SortedMap String MetadataEntry
  | .element => m.elements
  | .directive => m.directives
  | .module => m.modules
  | .pipe => m.pipes
  | .service | .provider => m.services

theorem mem_entries {name : String} :
    (name, entry) ∈ m.entries ↔ ∃ kind, (m.entriesOf kind).get? name = some entry := by
  simp only [entries, SortedMap.toList, mem_append, ← get?_eq_some_iff]
  constructor
  · rintro ((((here | here) | here) | here) | here)
    · exact ⟨.module, here⟩
    · exact ⟨.service, here⟩
    · exact ⟨.pipe, here⟩
    · exact ⟨.element, here⟩
    · exact ⟨.directive, here⟩
  · rintro ⟨kind, here⟩
    cases kind with
    | module => exact .inl (.inl (.inl (.inl here)))
    | service | provider => exact .inl (.inl (.inl (.inr here)))
    | pipe => exact .inl (.inl (.inr here))
    | element => exact .inl (.inr here)
    | directive => exact .inr here

theorem get?_entriesOf_nothing (library) (version) (exports)
    (kind) (name) :
    (({ name := library, version, exports } : LibraryMetadata).entriesOf kind).get? name = none := by
  cases kind <;> rfl

theorem entriesOf_add (m : LibraryMetadata) (name) (entry : MetadataEntry) (kind) :
    (m.add name entry).entriesOf kind =
      if kind.listing = entry.kind.listing then (m.entriesOf kind).insert name entry else m.entriesOf kind := by
  unfold add
  cases entry.kind <;> cases kind <;> rfl

end LibraryMetadata

namespace Registry

variable {r : Registry} {d : Definition} {kind : AnnotationKind} {name : String}

/-! ### What a library lists -/

def publishes (exports : SortedSet String) (d : Definition) : Bool := d.isLocal && exports.contains d.name

def published (package : String) (d : Definition) : Definition :=
  { d with
    properties := d.properties.filter fun (key, _) => !isPrivateProperty key
    implementation := ""
    file := package
    package := some package
    exported := true }

theorem Coherent.eq_of_names (coherent : r.Coherent) (mem : d ∈ r.all) (other : e ∈ r.all)
    (table : d.kind.table = e.kind.table) (same : d.name = e.name) : d = e := by
  obtain ⟨_, _, here⟩ := mem_all.mp mem
  obtain ⟨_, _, here'⟩ := mem_all.mp other
  obtain ⟨own, rfl⟩ := coherent.own here
  obtain ⟨own', rfl⟩ := coherent.own here'
  rw [get?_of_table_eq own.symm] at here
  rw [get?_of_table_eq (own'.symm.trans table.symm), ← same, here] at here'
  exact some.inj here'

theorem get?_foldr_add (r : Registry) (ds : List Definition) (m : LibraryMetadata) :
    ((ds.foldr (fun d m => m.add d.name (r.metadataEntry d)) m).entriesOf kind).get? name =
      ((ds.find? fun d => kind.listing = d.kind.listing && name = d.name).map r.metadataEntry).or
        ((m.entriesOf kind).get? name) := by
  induction ds with
  | nil => rfl
  | cons d rest ih =>
    rw [foldr_cons, LibraryMetadata.entriesOf_add, show (r.metadataEntry d).kind = d.kind from rfl]
    by_cases listing : kind.listing = d.kind.listing
    · rw [if_pos listing, get?_insert, ih]
      by_cases same : name = d.name <;> simp [listing, same]
    · rw [if_neg listing, ih]
      simp [listing]

theorem find?_eq_some_of_unique {α : Type} {p : α → Bool} {xs : List α} {x : α} (mem : x ∈ xs) (holds : p x)
    (only : ∀ y ∈ xs, p y → y = x) : xs.find? p = some x := by
  cases found : xs.find? p with
  | none => exact absurd holds (find?_eq_none.mp found x mem)
  | some y => rw [only y (mem_of_find?_eq_some found) (find?_some found)]

theorem Coherent.mem_metadata (coherent : r.Coherent) (library : String) (version : Option String)
    {entry : MetadataEntry} :
    (name, entry) ∈ (r.metadata library version exports).entries ↔
      ∃ d ∈ r.all, publishes exports d ∧ d.name = name ∧ r.metadataEntry d = entry := by
  have kept {d : Definition} : d ∈ (r.all.filter fun d => d.isLocal && exports.contains d.name).reverse ↔
      d ∈ r.all ∧ publishes exports d := by
    rw [mem_reverse, mem_filter, publishes]
  simp only [LibraryMetadata.mem_entries, metadata, foldl_eq_foldr_reverse, get?_foldr_add,
    LibraryMetadata.get?_entriesOf_nothing, or_none, map_eq_some_iff]
  constructor
  · rintro ⟨kind, d, found, listed⟩
    obtain ⟨mem, exported⟩ := kept.mp (mem_of_find?_eq_some found)
    have here := find?_some found
    simp only [and_eq_true, decide_eq_true_eq] at here
    exact ⟨d, mem, exported, here.2.symm, listed⟩
  · rintro ⟨d, mem, exported, rfl, listed⟩
    refine ⟨d.kind, d, find?_eq_some_of_unique (kept.mpr ⟨mem, exported⟩) (by simp) ?_, listed⟩
    -- kinds that are listed together share their names, so that nothing else is added under this one
    intro e mem' same
    simp only [and_eq_true, decide_eq_true_eq] at same
    exact coherent.eq_of_names (kept.mp mem').1 mem (AnnotationKind.table_eq_of_listing_eq same.1).symm same.2.symm

/-! ### What a user takes over -/

theorem get?_foldl_registerMetadataEntry (package) (entries : List (String × MetadataEntry)) (r) :
    (entries.foldl (registerMetadataEntry package) r).get? kind name =
      (r.get? kind name).or ((entries.find? fun entry => kind.table = entry.2.kind.table && name = entry.1).map
        fun entry => externalDefinition package entry.1 entry.2) := by
  induction entries generalizing r with
  | nil => simp
  | cons entry rest ih =>
    obtain ⟨output, step⟩ := registerMetadataEntry_eq package r entry
    have table : (externalDefinition package entry.1 entry.2).kind = entry.2.kind := rfl
    have own : (externalDefinition package entry.1 entry.2).name = entry.1 := rfl
    rw [foldl_cons, ih, step, get?_registerExternal, get?_withOutput, table, own]
    by_cases here : kind.table = entry.2.kind.table ∧ name = entry.1
    · cases taken : r.get? kind name <;> simp [here]
    · rw [if_neg here, find?_cons_of_neg (by simpa using here)]

theorem Coherent.get?_published (coherent : r.Coherent) (c : Registry) (library package)
    (version) (exports) (kind) (name) :
    (c.registerMetadata package (r.metadata library version exports)).get? kind name =
      (c.get? kind name).or (((r.get? kind name).filter (publishes exports)).map (published package)) := by
  rw [Registry.registerMetadata, get?_foldl_registerMetadataEntry]
  congr 1
  ext seen
  simp only [map_eq_some_iff, filter_eq_some_iff]
  constructor
  · rintro ⟨⟨n, entry⟩, found, rfl⟩
    have here := find?_some found
    simp only [and_eq_true, decide_eq_true_eq] at here
    obtain ⟨d, mem, listed, rfl, rfl⟩ := (coherent.mem_metadata library version).mp (mem_of_find?_eq_some found)
    obtain ⟨_, _, held⟩ := mem_all.mp mem
    obtain ⟨own, rfl⟩ := coherent.own held
    refine ⟨d, ⟨?_, listed⟩, rfl⟩
    rw [here.2, get?_of_table_eq (here.1.trans own), held]
  · rintro ⟨d, ⟨held, listed⟩, rfl⟩
    obtain ⟨table, rfl⟩ := coherent.own held
    have mem := mem_all.mpr ⟨_, _, held⟩
    refine ⟨(d.name, r.metadataEntry d), find?_eq_some_of_unique
      ((coherent.mem_metadata library version).mpr ⟨d, mem, listed, rfl, rfl⟩) ?_ ?_, rfl⟩
    · simp [metadataEntry, table]
    · rintro ⟨n, entry⟩ listed' same
      simp only [and_eq_true, decide_eq_true_eq] at same
      obtain ⟨e, mem', -, rfl, rfl⟩ := (coherent.mem_metadata library version).mp listed'
      rw [coherent.eq_of_names mem mem' (table.trans same.1) same.2]

theorem values_filter (ds : SortedMap String Definition) (keep : Definition → Bool) :
    (ds.filter fun _ d => keep d).values = ds.values.filter keep := by
  simp only [values, SortedMap.filter, List.filter_map]
  rfl

/-- A registry without definitions that takes over the metadata of a library holds the local definitions that the
library exports, each once and in the order of the library, and nothing else. Their names, kinds, owning modules and
properties are as they were but for the properties that give a template or styles. -/
theorem metadata_round_trip (coherent : r.Coherent) (library package : String) (version : Option String)
    (exports : SortedSet String) :
    (empty.registerMetadata package (r.metadata library version exports)).all =
      (r.all.filter (publishes exports)).map (published package) := by
  have table (kind : AnnotationKind) :
      ((empty.registerMetadata package (r.metadata library version exports)).definitions kind).values =
        ((r.definitions kind).values.filter (publishes exports)).map (published package) := by
    rw [← values_filter, ← values_map]
    congr 1
    apply ext_get?
    intro name
    have empty : empty.get? kind name = none := by cases kind <;> rfl
    rw [get?_map, get?_filter]
    have seen := coherent.get?_published Registry.empty library package version exports kind name
    rw [empty, none_or] at seen
    exact seen
  have elements := table .element
  have directives := table .directive
  have services := table .service
  have modules := table .module
  simp only [definitions] at elements directives services modules
  simp only [all, elements, directives, services, modules, filter_append, map_append]

def packagedCard : Definition where
  name := "Card"
  kind := .element
  file := "/w/card.js"
  module := some "CardModule"
  properties := [("selector", .string "x-card"), ("template", .string "<p></p>"), ("props", .array [])]

def cardLibrary : Registry :=
  ((empty.registerExternal packagedCard).registerExternal
    { name := "Upper", kind := .pipe, file := "/w/card.js", properties := [] }).registerExternal
    { name := "Api", kind := .service, file := "/w/api.js", properties := [] }

theorem coherent_cardLibrary : cardLibrary.Coherent :=
  ((coherent_empty.registerExternal _).registerExternal _).registerExternal _

theorem card_library_round_trip :
    cardLibrary.Coherent ∧
      (empty.registerMetadata "kit" (cardLibrary.metadata "kit" none (.ofList ["Card", "Upper"]))).all =
        (cardLibrary.all.filter (publishes (.ofList ["Card", "Upper"]))).map (published "kit") ∧
      ((cardLibrary.all.filter (publishes (.ofList ["Card", "Upper"]))).map (published "kit")).map
        (fun d => (d.name, d.module, d.properties.map (·.1))) =
        [("Card", some "CardModule", ["selector", "props"]), ("Upper", none, [])] :=
  ⟨coherent_cardLibrary, metadata_round_trip coherent_cardLibrary "kit" "kit" none _, by decide⟩

/-! ### Slots -/

theorem property?_published (package) (d) (key) (shown : isPrivateProperty key = false) :
    (published package d).property? key = d.property? key := by
  simp only [Definition.property?, published]
  induction d.properties with
  | nil => rfl
  | cons entry rest ih =>
    obtain ⟨other, value⟩ := entry
    by_cases same : key = other
    · subst same
      simp [shown]
    · have apart : (key == other) = false := beq_false_of_ne same
      cases hidden : isPrivateProperty other <;> simp [hidden, apart, lookup_cons, ih]

theorem contentQueries_published (package) (d) :
    (published package d).contentQueries = d.contentQueries := by
  have single := property?_published package d "contentChild" (by decide)
  have many := property?_published package d "contentChildren" (by decide)
  simp only [Definition.contentQueries, Definition.queries, Definition.names, Definition.items, single, many]

theorem output_registerExternal (r : Registry) (d) : (r.registerExternal d).output = r.output := by
  unfold registerExternal store withDefinitions
  split
  · rfl
  · cases d.kind <;> rfl

theorem templates_registerMetadataEntry (package) (r) (entry) :
    (registerMetadataEntry package r entry).output.templates = r.output.templates := by
  unfold registerMetadataEntry
  rw [output_registerExternal]
  split <;> rfl

theorem templates_registerMetadata (r : Registry) (package) (m) :
    (r.registerMetadata package m).output.templates = r.output.templates := by
  unfold registerMetadata
  induction m.entries generalizing r with
  | nil => rfl
  | cons entry rest ih => rw [foldl_cons, ih, templates_registerMetadataEntry]

def isEntryOf (name : String) (entry : String × MetadataEntry) : Bool := entry.2.kind = .element && entry.1 == name

theorem get?_externalSlots_step (package) (r) (entry) (name) :
    (registerMetadataEntry package r entry).output.externalSlots.get? name =
      if isEntryOf name entry ∧ entry.2.slots ≠ [] then some entry.2.slots
      else r.output.externalSlots.get? name := by
  unfold registerMetadataEntry isEntryOf
  rw [output_registerExternal]
  by_cases declared : entry.2.kind = .element ∧ entry.2.slots ≠ []
  · rw [if_pos (by simpa using declared), get?_insert]
    by_cases same : entry.1 = name
    · simp [declared, same]
    · simp [same, Ne.symm same]
  · rw [if_neg (by simpa using declared), if_neg]
    rintro ⟨here, some⟩
    simp only [and_eq_true, decide_eq_true_eq] at here
    exact declared ⟨here.1, some⟩

theorem get?_externalSlots (package) {entries : List (String × MetadataEntry)} {slots : List (Option String)}
    (agree : ∀ entry ∈ entries, isEntryOf name entry → entry.2.slots = slots) (r) :
    (entries.foldl (registerMetadataEntry package) r).output.externalSlots.get? name =
      if entries.any (isEntryOf name) ∧ slots ≠ [] then some slots else r.output.externalSlots.get? name := by
  induction entries generalizing r with
  | nil => simp
  | cons entry rest ih =>
    rw [foldl_cons, ih fun later mem => agree later (mem_cons_of_mem _ mem), get?_externalSlots_step,
      any_cons]
    cases here : isEntryOf name entry with
    | false =>
      rw [Bool.false_or]
      simp
    | true =>
      rw [agree entry mem_cons_self here]
      by_cases none : slots = [] <;> simp [none]

theorem Coherent.slots?_published (coherent : r.Coherent) (held : r.get? .element name = some d)
    (listed : publishes exports d) (compiled : r.output.templates.get? name = some t) {c : Registry}
    (unknown : c.slots? name = none) (library package) (version) :
    (c.registerMetadata package (r.metadata library version exports)).slots? name =
      if t.slots = [] then none else some t.slots := by
  obtain ⟨table, rfl⟩ := coherent.own held
  have element : d.kind = .element := by
    cases kind : d.kind <;> rw [kind] at table <;> first | rfl | cases table
  have entry : (r.metadataEntry d).slots = t.slots := by simp [metadataEntry, compiled]
  have mem := (coherent.mem_metadata library version).mpr ⟨d, mem_all.mpr ⟨_, _, held⟩, listed, rfl, rfl⟩
  have agree : ∀ entry ∈ (r.metadata library version exports).entries,
      isEntryOf d.name entry → entry.2.slots = t.slots := by
    rintro ⟨n, found⟩ mem' same
    simp only [isEntryOf, and_eq_true, decide_eq_true_eq, beq_iff_eq] at same
    obtain ⟨e, held', -, rfl, rfl⟩ := (coherent.mem_metadata library version).mp mem'
    have table' : e.kind.table = d.kind.table := by rw [show e.kind = .element from same.1, element]
    rw [coherent.eq_of_names held' (mem_all.mpr ⟨_, _, held⟩) table' same.2, entry]
  obtain ⟨fresh, undeclared⟩ := or_eq_none_iff.mp unknown
  rw [slots?, templates_registerMetadata, fresh, none_or, Registry.registerMetadata,
    get?_externalSlots package agree, undeclared]
  by_cases none : t.slots = []
  · simp [none]
  · have found : (r.metadata library version exports).entries.any (isEntryOf d.name) :=
      List.any_eq_true.mpr ⟨_, mem, by simp [isEntryOf, metadataEntry, element]⟩
    rw [if_pos ⟨found, none⟩, if_neg none]

/-- Content of an element is routed in the same way by the library that declares the element and by its users, if the
element has slots. If it has none, the library drops the content; its users take the slots for unknown and put the
content in the default slot. -/
theorem packaged_projection (coherent : r.Coherent) (held : r.get? .element name = some d)
    {exports : SortedSet String} (listed : publishes exports d = true) {t : CompiledTemplate}
    (compiled : r.output.templates.get? name = some t) {c : Registry} (free : c.get? .element name = none)
    (unknown : c.slots? name = none) (library package : String) (version : Option String) :
    let user := c.registerMetadata package (r.metadata library version exports)
    user.get? .element name = some (published package d) ∧
      r.slots? name = some t.slots ∧
      user.slots? name = (if t.slots = [] then none else some t.slots) ∧
      ∀ (cx : Template.Context) (head : ElementHead) (content : List TemplateNode) (s : Template.State),
        let own := (Template.projectContent { cx with registry := r } head d content).run s
        let away := (Template.projectContent { cx with registry := user } head (published package d) content).run s
        if t.slots = [] then
          own.1 = .element head [] [] ∧ away.2 = own.2 ∧
            away.1 = .element head [] [⟨none, TemplateNode.mapHeadsOf (markContent d.contentQueries) content⟩]
        else away = own := by
  intro user
  have seen : user.get? .element name = some (published package d) := by
    rw [coherent.get?_published, free, none_or, held, filter_some, if_pos listed, map_some]
  have own : r.slots? name = some t.slots := by rw [slots?, compiled, map_some, some_or]
  have away : user.slots? name = if t.slots = [] then none else some t.slots :=
    coherent.slots?_published held listed compiled unknown library package version
  obtain ⟨-, rfl⟩ := coherent.own held
  refine ⟨seen, own, away, fun cx head content s => ?_⟩
  have same : (published package d).name = d.name := rfl
  have packaged : (published package d).isLocal = false := rfl
  simp only [Template.projectContent_run, contentQueries_published, same, packaged, own, away]
  by_cases none : t.slots = []
  · simp [none, routeContent]
  · simp [none]

def cardLibraryWith (slots : List (Option String)) : Registry :=
  { cardLibrary with output := { templates := .ofList [("Card", { slots := slots })] } }

theorem coherent_cardLibraryWith (slots) : (cardLibraryWith slots).Coherent :=
  coherent_cardLibrary.of_eq (fun _ _ => get?_withOutput _ _ _ _) rfl

theorem card_header_projected :
    let r := cardLibraryWith [some "header"]
    let user := empty.registerMetadata "kit" (r.metadata "kit" none (.ofList ["Card"]))
    user.slots? "Card" = some [some "header"] ∧
      ∀ (cx : Template.Context) (head : ElementHead) (content : List TemplateNode) (s : Template.State),
        (Template.projectContent { cx with registry := user } head (published "kit" packagedCard) content).run s =
          (Template.projectContent { cx with registry := r } head packagedCard content).run s := by
  have listed : publishes (.ofList ["Card"]) packagedCard = true := by decide
  have held : (cardLibraryWith [some "header"]).get? .element "Card" = some packagedCard := rfl
  have seen := packaged_projection (coherent_cardLibraryWith [some "header"]) held listed rfl (c := empty)
    rfl rfl "kit" "kit" none
  exact ⟨seen.2.2.1, seen.2.2.2⟩

/-- The card has no slot. The library knows this, its users do not. -/
theorem card_without_slots_differs :
    let r := cardLibraryWith []
    r.slots? "Card" = some [] ∧
      (empty.registerMetadata "kit" (r.metadata "kit" none (.ofList ["Card"]))).slots? "Card" = none :=
  ⟨rfl, rfl⟩

end Registry

end ComponentCompiler
