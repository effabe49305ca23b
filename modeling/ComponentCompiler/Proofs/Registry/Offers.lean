import ComponentCompiler.Proofs.Registry.Index

/-!
Definitions that are registered one after another. The first of a kind and name is kept (`first_offer_wins`), and the
removal of a file takes back what was registered of it (`deregisterFile_restores`).
-/

namespace ComponentCompiler.Registry

open List SortedMap

variable {r : Registry} {d : Definition} {ds : List Definition} {kind : AnnotationKind} {name file : String}

def isFor (kind : AnnotationKind) (name : String) (d : Definition) : Bool := d.kind.table = kind.table && d.name = name

theorem isFor_eq_true : isFor kind name d ↔ kind.table = d.kind.table ∧ name = d.name := by
  rw [isFor, Bool.and_eq_true, decide_eq_true_eq, decide_eq_true_eq, @eq_comm _ kind.table, @eq_comm _ name]

def registerAll (r : Registry) (ds : List Definition) : Registry := ds.foldl (fun r d => (r.register d).registry) r

theorem registerAll_cons (r : Registry) (d ds) : r.registerAll (d :: ds) = (r.registerExternal d).registerAll ds := by
  rw [← registry_register]
  rfl

theorem get?_registerAll (r : Registry) (ds kind name) :
    (r.registerAll ds).get? kind name = (r.get? kind name).or (ds.find? (isFor kind name)) := by
  induction ds generalizing r with
  | nil => exact (Option.or_none).symm
  | cons d rest ih =>
    rw [registerAll_cons, ih, get?_registerExternal, find?_cons]
    by_cases here : kind.table = d.kind.table ∧ name = d.name
    · rw [if_pos here, isFor_eq_true.mpr here]
      cases r.get? kind name <;> rfl
    · rw [if_neg here, Bool.eq_false_iff.mpr (mt isFor_eq_true.mp here)]

theorem Coherent.registerAll (coherent : r.Coherent) (ds) : (r.registerAll ds).Coherent := by
  induction ds generalizing r with
  | nil => exact coherent
  | cons d rest ih =>
    rw [registerAll_cons]
    exact ih (coherent.registerExternal d)

/-! ### Local and packaged definitions -/

inductive Offer where
  | own (d : Definition)
  | packaged (d : Definition)

def Offer.definition : Offer → Definition
  | own d | packaged d => d

def offer (r : Registry) : Offer → Registry
  | .own d => (r.register d).registry
  | .packaged d => r.registerExternal d

theorem get?_offers (offers : List Offer) (kind name) : (offers.foldl offer empty).get? kind name =
    (offers.find? (isFor kind name ·.definition)).map (·.definition) := by
  have same : offer = fun r o => (r.register o.definition).registry := by
    funext r o
    cases o with
    | own d => rfl
    | packaged d => exact (registry_register r d).symm
  have free : empty.get? kind name = none := by cases kind <;> rfl
  have whole : offers.foldl offer empty = empty.registerAll (offers.map (·.definition)) := by
    rw [registerAll, foldl_map, same]
  rw [whole, get?_registerAll, free, Option.none_or, find?_map]
  rfl

/-- Of the definitions of a kind and name, local and packaged ones in any order, the registry holds the one that was offered
first. A local definition is refused as a duplicate exactly if one was offered before it, local or packaged. -/
theorem first_offer_wins (offers : List Offer) :
    let r := offers.foldl offer empty
    let first kind name := offers.find? (isFor kind name ·.definition)
    (∀ kind name, r.get? kind name = (first kind name).map (·.definition)) ∧
      ∀ d, r.register d = (first d.kind d.name).elim ⟨r.store d, true, (selectorDiagnostic? d).toList⟩ fun o =>
        ⟨r, false, [duplicateDiagnostic d o.definition]⟩ := by
  refine ⟨get?_offers offers, fun d => ?_⟩
  dsimp only
  rw [register, get?_offers]
  cases offers.find? (isFor d.kind d.name ·.definition) <;> rfl

def kitCard : Definition := { localCard with file := "kit", package := some "kit" }

/-- A package that is reached before the local file keeps its definition, and the local one is refused. -/
theorem packaged_refuses_own :
    (empty.registerExternal kitCard).get? .element "Card" = some kitCard ∧
      ((empty.registerExternal kitCard).register localCard).accepted = false ∧
      ((empty.register localCard).registry.registerExternal kitCard).get? .element "Card" = some localCard := by
  refine ⟨rfl, rfl, rfl⟩

/-! ### Removal of a file -/

/-- The definitions of a list that are accepted when they are registered in turn. -/
def admitted (r : Registry) : List Definition → List Definition
  | [] => []
  | d :: rest => (if (r.register d).accepted then [d] else []) ++ admitted (r.register d).registry rest

theorem mem_admitted : d ∈ admitted r ds ↔ r.get? d.kind d.name = none ∧ ds.find? (isFor d.kind d.name) = some d := by
  induction ds generalizing r with
  | nil => simp [admitted]
  | cons first rest ih =>
    rw [admitted, mem_append, ih, registry_register, get?_registerExternal, find?_cons, accepted_register]
    by_cases here : d.kind.table = first.kind.table ∧ d.name = first.name
    · rw [if_pos here, isFor_eq_true.mpr here, get?_of_table_eq here.1, here.2]
      cases r.get? first.kind first.name <;> simp [eq_comm]
    · have other : d ≠ first := fun same => here ⟨by rw [same], by rw [same]⟩
      rw [if_neg here, Bool.eq_false_iff.mpr (mt isFor_eq_true.mp here)]
      split <;> simp [other]

theorem index_registerAll (r : Registry) (ds) :
    (r.registerAll ds).index = r.index ++ (admitted r ds).flatMap indexEntries := by
  induction ds generalizing r with
  | nil => exact (append_nil _).symm
  | cons d rest ih =>
    rw [registerAll_cons, ih, admitted, registry_register, accepted_register, registerExternal]
    cases r.get? d.kind d.name <;> simp [store]

/-- The place of the map that holds the definitions of a kind. -/
def mapOrder (kind : AnnotationKind) : Nat := [AnnotationKind.element, .directive, .service, .module].idxOf kind.table

def Before (a b : AnnotationKind × String) : Prop :=
  mapOrder a.1 < mapOrder b.1 ∨ mapOrder a.1 = mapOrder b.1 ∧ compare a.2 b.2 = .lt

theorem Coherent.pairwise_removed (coherent : r.Coherent) (file) : (r.deregisterFile file).2.Pairwise Before := by
  have grouped : (r.deregisterFile file).2 =
      [AnnotationKind.element, .directive, .service, .module].flatMap fun kind => declaredIn file (r.definitions kind) := by
    simp [Registry.deregisterFile, definitions]
  have place : ∀ {kind p}, p ∈ declaredIn file (r.definitions kind) → mapOrder p.1 = mapOrder kind := by
    intro kind p mem
    obtain ⟨d, here, same, -⟩ := mem_declaredIn.mp mem
    rw [← same, mapOrder, (coherent.own here).1, mapOrder]
  rw [grouped, pairwise_flatMap]
  constructor
  · intro kind _
    have sorted : (declaredIn file (r.definitions kind)).Pairwise fun a b => compare a.2 b.2 = .lt :=
      pairwise_map.mpr ((r.definitions kind).sorted.filter _)
    exact sorted.imp_of_mem fun first second less => .inr ⟨(place first).trans (place second).symm, less⟩
  · have order : [AnnotationKind.element, .directive, .service, .module].Pairwise (mapOrder · < mapOrder ·) := by decide
    exact order.imp fun less a first b second => .inl (by rwa [place first, place second])

section

variable (foreign : ∀ d ∈ r.all, d.isLocal = true → d.file ≠ file) (own : ∀ d ∈ ds, d.isLocal = true ∧ d.file = file)
include foreign

theorem stays_of_get? (here : r.get? kind name = some d) : (d.isLocal && d.file == file) = false := by
  have elsewhere := foreign d (mem_all.mpr ⟨kind, name, here⟩)
  cases isLocal : d.isLocal <;> simp_all

include own

theorem definitions_restored (kind) : ((r.registerAll ds).deregisterFile file).1.definitions kind = r.definitions kind := by
  refine ext_get? fun name => ?_
  change get? _ kind name = get? r kind name
  rw [get?_deregisterFile, get?_registerAll]
  cases here : r.get? kind name with
  | some d =>
    rw [Option.some_or, Option.filter_some, stays_of_get? foreign here]
    rfl
  | none =>
    cases found : ds.find? (isFor kind name) with
    | none => rfl
    | some d => simp [own d (mem_of_find?_eq_some found)]

theorem Coherent.mem_removed_iff (coherent : r.Coherent) : (kind, name) ∈ ((r.registerAll ds).deregisterFile file).2 ↔
    ∃ d ∈ admitted r ds, d.kind = kind ∧ d.name = name := by
  have filled := coherent.registerAll ds
  rw [filled.mem_removed]
  constructor
  · rintro ⟨d, here, rfl, left⟩
    obtain rfl := (filled.own here).2
    rw [get?_registerAll, Option.or_eq_some_iff] at here
    rcases here with before | ⟨free, found⟩
    · rw [stays_of_get? foreign before] at left
      cases left
    · exact ⟨d, mem_admitted.mpr ⟨free, found⟩, rfl, rfl⟩
  · rintro ⟨d, mem, rfl, rfl⟩
    obtain ⟨free, found⟩ := mem_admitted.mp mem
    refine ⟨d, ?_, rfl, by simp [own d (mem_of_find?_eq_some found)]⟩
    rw [get?_registerAll, free, found]
    rfl

theorem Coherent.index_restored (coherent : r.Coherent) : ((r.registerAll ds).deregisterFile file).1.index = r.index := by
  change (r.registerAll ds).index.filter
    (fun entry => !((r.registerAll ds).deregisterFile file).2.contains (entry.kind, entry.name)) = r.index
  rw [index_registerAll, filter_append, filter_eq_self.mpr, filter_eq_nil_iff.mpr, append_nil]
  · intro entry mem
    obtain ⟨d, accepted, listed⟩ := mem_flatMap.mp mem
    obtain ⟨kind, name⟩ := indexEntries_of listed
    simpa using (coherent.mem_removed_iff foreign own).mpr ⟨d, accepted, kind.symm, name.symm⟩
  · intro entry mem
    obtain ⟨d, here, -⟩ := coherent.index.mp mem
    have stays : (entry.kind, entry.name) ∉ ((r.registerAll ds).deregisterFile file).2 := by
      rw [coherent.mem_removed_iff foreign own]
      -- an accepted definition has a kind and name that were free
      rintro ⟨d', accepted, kind, name⟩
      rw [← kind, ← name, (mem_admitted.mp accepted).1] at here
      cases here
    simpa using stays

end

/-- Local definitions of a file that had none before are taken back with the file: the maps and the index are as they
were, and what is returned are the kinds and names of those that were accepted, by map and name. -/
theorem deregisterFile_restores (coherent : r.Coherent) (foreign : ∀ d ∈ r.all, d.isLocal = true → d.file ≠ file)
    (own : ∀ d ∈ ds, d.isLocal = true ∧ d.file = file) :
    let after := (r.registerAll ds).deregisterFile file
    after.1.elements = r.elements ∧ after.1.directives = r.directives ∧ after.1.services = r.services ∧
      after.1.modules = r.modules ∧ after.1.index = r.index ∧
      (∀ kind name, (kind, name) ∈ after.2 ↔ ∃ d ∈ admitted r ds, d.kind = kind ∧ d.name = name) ∧
      after.2.Pairwise Before := by
  have maps := definitions_restored foreign own
  exact ⟨maps .element, maps .directive, maps .service, maps .module, coherent.index_restored foreign own,
    fun _ _ => coherent.mem_removed_iff foreign own, (coherent.registerAll ds).pairwise_removed file⟩

theorem deregisterFile_restores_packaged :
    let r := empty.registerExternal kitCard
    let after := r.registerAll [localCard, { localCard with kind := .pipe }, localCard]
    (after.deregisterFile "/w/card.js").1.index = r.index :=
  (deregisterFile_restores (coherent_empty.registerExternal kitCard) (by decide) (by decide)).2.2.2.2.1

end ComponentCompiler.Registry
