import ComponentCompiler.Proofs.Graph.Arena
import ComponentCompiler.Proofs.Graph.ExportSurface
import ComponentCompiler.Proofs.Graph.ImportErrors
import ComponentCompiler.Proofs.Graph.Trace

/-!
Imports of names that do not exist. Main statement: `compileEntry_checks_imports`; when an import is
checked, its target may still be waiting for some of its star re-exports.
-/

namespace ComponentCompiler

open Option

theorem FileRecord.requestedNames_of_surface {r a : FileRecord} (same : r.surface = a.surface) (k) :
    r.requestedNames k = a.requestedNames k := by
  rw [requestedNames, requestedNames, imports, imports, same]

structure FileRecord.Extends (r a : FileRecord) : Prop where
  place : r.blank = a.blank
  surface : r.surface = a.surface
  resolved : ∀ {k found}, a.resolved? k = some found → r.resolved? k = some found
  target : ∀ {k t}, a.importTarget? k = some t → r.importTarget? k = some t

theorem FileRecord.Extends.key {r : FileRecord} (more : r.Extends a) : r.key = a.key := by
  rw [FileRecord.key, FileRecord.key, (blank_eq_iff.mp more.place).2.1]

namespace Session

variable {tree : FileTree} {c s : Session} {a r : FileRecord} {t x index : Nat}
variable {target : FileRecord}

/-- The import has been followed, to a file or to a known package that is not compiled. -/
def Followed (s : Session) (r : FileRecord) (index : Nat) : Prop :=
  (r.importTarget? index).isSome ∨ s.library = true ∧ (s.importedPackage? r index).isSome

def StarsFollowed (s : Session) (t : Nat) : Prop :=
  ∀ x r, s.graph.StarReaches t x → s.graph.get? x = some r → ∀ index ∈ starImports r.exports, s.Followed r index

/-- A file leads to a star re-export of a package that is about to be compiled, and the description of the package
lists all names. -/
def StarPending (s : Session) (t : Nat) : Prop :=
  s.library = false ∧ ∃ x r index p, s.graph.StarReaches t x ∧ s.graph.get? x = some r ∧
    index ∈ starImports r.exports ∧ r.importTarget? index = none ∧ s.importedPackage? r index = some p ∧
    p.openExports = false

def absentNames (s : Session) (r : FileRecord) (index t : Nat) : List String :=
  (r.requestedNames index).filter fun name => !(s.exportSurface t).names.contains name

/-! ### Records at a check and at the end -/

theorem Outcome.slots (outcome : Outcome tree s r) (surface : r.surface = some m) :
    tree.surface? r.path = some m ∧ ¬Fault s.resolver tree r.path ∧
      ∀ {k statement}, m.imports[k]? = some statement →
        r.resolved? k = s.resolver.resolve tree statement.source r.path ∧
          r.importTarget? k = importSlot tree s r.path statement := by
  cases outcome with
  | failed _ record => cases surface.symm.trans (congrArg FileRecord.surface record)
  | @compiled m' loaded resolves record _ =>
    cases surface.symm.trans (congrArg FileRecord.surface record)
    refine ⟨loaded, Fault.not_of_resolves loaded resolves, fun there => ⟨?_, ?_⟩⟩
    · rw [FileRecord.resolved?, congrArg FileRecord.resolved record]
      simp [there]
    · rw [FileRecord.importTarget?, congrArg FileRecord.importTargets record]
      simp [there]

theorem Truthful.extends (truthful : Truthful tree c none) (grows : Grows c s) (held : c.graph.get? x = some a)
    (last : s.graph.get? x = some r) (settled : Settled tree s r) (surface : r.surface = some m) :
    r.Extends a ∧ a.state ≠ .failed := by
  have place := grows.blank_eq held last
  obtain ⟨loaded, sound, slots⟩ := settled.outcome.slots surface
  have tentative := (truthful.tentative held).mono grows
  have path : r.path = a.path := (FileRecord.blank_eq_iff.mp place).2.1
  rw [path] at loaded sound slots
  have fine : a.state ≠ .failed := fun broken => sound (tentative.failed broken)
  obtain ⟨m', read⟩ := isSome_iff_exists.mp ((truthful.read held (by simp)).resolve_left fine)
  cases loaded.symm.trans (tentative.surface read)
  refine ⟨⟨place, surface.trans read.symm, ?_, ?_⟩, fine⟩
  · intro k found filled
    obtain ⟨m', statement, read', there, resolves⟩ := tentative.resolved filled
    cases read.symm.trans read'
    rw [(slots there).1, resolves]
  · intro k t filled
    obtain ⟨m', statement, read', there, slot⟩ := tentative.target filled
    cases read.symm.trans read'
    rw [(slots there).2, slot]

theorem importedPackage?_of_extends (more : r.Extends a) (grows : Grows c s)
    (known : c.importedPackage? a index = some p) : s.importedPackage? r index = some p := by
  simp only [importedPackage?, bind_eq_some_iff] at known ⊢
  obtain ⟨name, ⟨found, resolved, package⟩, described⟩ := known
  exact ⟨name, ⟨found, more.resolved resolved, package⟩, grows.packages described⟩

/-! ### Surfaces that are final -/

structure SameExports (c s : Session) (x : Nat) (a r : FileRecord) : Prop where
  before : c.graph.get? x = some a
  last : s.graph.get? x = some r
  surface : r.surface = a.surface
  target : ∀ index ∈ starImports a.exports, r.importTarget? index = a.importTarget? index
  package : ∀ index ∈ starImports a.exports, a.importTarget? index = none →
    s.importedPackage? r index = c.importedPackage? a index

namespace SameExports

section

variable (same : SameExports c s x a r)
include same

theorem exports : r.exports = a.exports := by
  rw [FileRecord.exports, FileRecord.exports, same.surface]

theorem starStep_iff : s.graph.StarStep x y ↔ c.graph.StarStep x y := by
  simp only [FileGraph.StarStep, same.before, same.last, some.injEq, exists_eq_left', same.exports]
  refine exists_congr fun index => and_congr_right fun star => ?_
  rw [same.target index star]

theorem owns_iff : s.Owns x n ↔ c.Owns x n := by
  simp only [Owns, same.before, same.last, some.injEq, exists_eq_left', same.exports]

theorem packageHas_iff (star : index ∈ starImports a.exports) :
    s.PackageHas r index n ↔ c.PackageHas a index n := by
  rw [PackageHas, PackageHas, same.target index star]
  refine and_congr_right fun outside => ?_
  rw [same.package index star outside]

theorem openStar_iff (star : index ∈ starImports a.exports) :
    s.OpenStar r index ↔ c.OpenStar a index := by
  rw [OpenStar, OpenStar, same.target index star]
  refine and_congr_right fun outside => ?_
  rw [same.package index star outside]

theorem offers_iff : s.Offers x n ↔ c.Offers x n := by
  simp only [Offers, same.before, same.last, some.injEq, exists_eq_left', same.exports]
  refine or_congr_right (exists_congr fun index => and_congr_right fun star => ?_)
  exact same.packageHas_iff star

theorem opens_iff : s.Opens x ↔ c.Opens x := by
  simp only [Opens, same.before, same.last, some.injEq, forall_eq', same.exports, same.surface]
  refine or_congr_right (exists_congr fun index => and_congr_right fun star => ?_)
  exact same.openStar_iff star

theorem symm : SameExports s c x r a where
  before := same.last
  last := same.before
  surface := same.surface.symm
  target index star := (same.target index (same.exports ▸ star)).symm
  package index star outside := by
    have here := same.exports ▸ star
    exact (same.package index here (same.target index here ▸ outside)).symm

end

end SameExports

/-- A file exports the same names in two sessions, and if some are not known in one then neither in the other. -/
structure SameSurface (c s : Session) (t : Nat) : Prop where
  isOpen : (c.exportSurface t).isOpen = (s.exportSurface t).isOpen
  names : ∀ n, (c.exportSurface t).names.contains n = (s.exportSurface t).names.contains n

theorem SameSurface.absentNames (same : SameSurface c s t) : c.absentNames r index t = s.absentNames r index t := by
  simp only [Session.absentNames, same.names]

theorem sameSurface (same : ∀ x, c.graph.StarReaches t x → ∃ a r, SameExports c s x a r) : SameSurface c s t := by
  -- each file on the way is the same, so the next step from it is a step in both sessions
  have reaches : ∀ {x}, s.graph.StarReaches t x ↔ c.graph.StarReaches t x := by
    refine fun {x} => ⟨fun reached => ?_, fun reached => ?_⟩
    · induction reached with
      | refl => exact .refl
      | tail _ step ih =>
        obtain ⟨a, r, here⟩ := same _ ih
        exact ih.tail (here.starStep_iff.mp step)
    · induction reached with
      | refl => exact .refl
      | tail before step ih =>
        obtain ⟨a, r, here⟩ := same _ before
        exact ih.tail (here.starStep_iff.mpr step)
  constructor
  · rw [Bool.eq_iff_iff, isOpen_exportSurface, isOpen_exportSurface]
    refine exists_congr fun x => ?_
    rw [reaches]
    refine and_congr_right fun reached => ?_
    obtain ⟨a, r, here⟩ := same x reached
    exact here.opens_iff.symm
  · intro n
    obtain ⟨a, r, here⟩ := same t .refl
    rw [Bool.eq_iff_iff, contains_exportSurface, contains_exportSurface, here.owns_iff]
    refine or_congr_right (and_congr_right fun _ => exists_congr fun x => ?_)
    rw [reaches]
    refine and_congr_right fun reached => ?_
    obtain ⟨a, r, here⟩ := same x reached
    exact here.offers_iff.symm

theorem exists_surface_of_not_opens (closed : ¬s.Opens x) :
    ∃ r m, s.graph.get? x = some r ∧ r.surface = some m := by
  rw [Opens, Classical.not_forall] at closed
  obtain ⟨r, closed⟩ := closed
  rw [Classical.not_imp, not_or] at closed
  obtain ⟨m, surface⟩ := ne_none_iff_exists'.mp closed.2.1
  exact ⟨r, m, closed.1, surface⟩

theorem Truthful.target_present (truthful : Truthful tree c none) (coherent : c.graph.Coherent)
    (held : c.graph.get? x = some a) (leads : a.importTarget? index = some t) :
    ∃ b, c.graph.get? t = some b := by
  obtain ⟨_, statement, _, _, slot⟩ := (truthful.tentative held).target leads
  obtain ⟨p, _, known⟩ := bind_eq_some_iff.mp slot
  exact FileGraph.get?_of_lt (coherent.lookup?_lt known)

section

variable (truthful : Truthful tree c none) (coherent : c.graph.Coherent) (grows : Grows c s)
  (settled : SettledFrom tree 0 s)

include truthful grows settled

theorem importTarget?_of_package (held : c.graph.get? x = some a) (last : s.graph.get? x = some r)
    (surface : r.surface = some m) (library : c.library) (known : c.importedPackage? a index = some p) :
    r.importTarget? index = none := by
  obtain ⟨more, -⟩ := truthful.extends grows held last (settled x r (Nat.zero_le _) last) surface
  simp only [importedPackage?, bind_eq_some_iff] at known
  obtain ⟨name, ⟨found, resolved, package⟩, -⟩ := known
  obtain ⟨m', statement, read, there, resolves⟩ := (truthful.tentative held).resolved resolved
  cases surface.symm.trans (more.surface.trans read)
  have slot := ((settled x r (Nat.zero_le _) last).outcome.slots surface).2.2 there
  have path : r.path = a.path := (FileRecord.blank_eq_iff.mp more.place).2.1
  rw [slot.2, path]
  have outside : c.outsidePackage? found = some name := by rw [outsidePackage?, library, if_pos rfl, package]
  exact grows.importSlot_eq_none resolves outside

theorem sameExports (followed : ∀ index ∈ starImports a.exports, c.Followed a index) (closed : ¬s.Opens x)
    (held : c.graph.get? x = some a) : ∃ r, SameExports c s x a r := by
  obtain ⟨r, m, last, surface⟩ := exists_surface_of_not_opens closed
  obtain ⟨more, -⟩ := truthful.extends grows held last (settled x r (Nat.zero_le _) last) surface
  refine ⟨r, held, last, more.surface, ?_, ?_⟩
  · intro index star
    cases leads : a.importTarget? index with
    | some y => exact more.target leads
    | none =>
      -- Only a package of a library is followed without a target, and it never gets one.
      rcases followed index star with linked | ⟨library, known⟩
      · rw [leads] at linked
        cases linked
      · obtain ⟨p, known⟩ := isSome_iff_exists.mp known
        exact importTarget?_of_package truthful grows settled held last surface library known
  · intro index star outside
    rcases followed index star with linked | ⟨-, known⟩
    · rw [outside] at linked
      cases linked
    · obtain ⟨p, known⟩ := isSome_iff_exists.mp known
      rw [known, importedPackage?_of_extends more grows known]

include coherent

theorem starReaches_final (followed : c.StarsFollowed t) (closed : ∀ x, s.graph.StarReaches t x → ¬s.Opens x)
    (target : ∃ b, c.graph.get? t = some b) (reached : c.graph.StarReaches t x) :
    s.graph.StarReaches t x ∧ ∃ a r, SameExports c s x a r := by
  have final : ∀ {y b}, c.graph.StarReaches t y → s.graph.StarReaches t y → c.graph.get? y = some b →
      ∃ r, SameExports c s y b r := fun here there held =>
    sameExports truthful grows settled (followed _ _ here held) (closed _ there) held
  -- Each file on the way is final, so the next step from it is a step at the end too.
  induction reached with
  | refl =>
    obtain ⟨b, held⟩ := target
    exact ⟨.refl, b, final .refl .refl held⟩
  | @tail y z before step ih =>
    obtain ⟨there, a, r, same⟩ := ih
    have after := there.tail (same.starStep_iff.mpr step)
    obtain ⟨a', held, index, _, leads⟩ := step
    obtain ⟨b, target⟩ := truthful.target_present coherent held leads
    exact ⟨after, b, final (before.tail ⟨a', held, index, ‹_›, leads⟩) after target⟩

theorem exportSurface_final (followed : c.StarsFollowed t) (closed : (s.exportSurface t).isOpen = false)
    (target : ∃ b, c.graph.get? t = some b) : SameSurface c s t := by
  have known : ∀ x, s.graph.StarReaches t x → ¬s.Opens x := by
    intro x reached unknown
    rw [(isOpen_exportSurface s t).mpr ⟨x, reached, unknown⟩] at closed
    cases closed
  exact sameSurface fun x reached =>
    (starReaches_final truthful coherent grows settled followed known target reached).2

end

/-! ### What a check reports -/

theorem importError?_eq (held : c.graph.get? i = some a) (leads : a.importTarget? index = some t)
    (target : c.graph.get? t = some b) :
    c.importError? i index = if (c.missingNames a index t).isEmpty then none
      else some (notExported a (c.missingNames a index t) b.key) := by
  simp [importError?, held, leads, target]

theorem missingNames_of_isOpen (unknown : (c.exportSurface t).isOpen) : c.missingNames a index t = [] := by
  unfold missingNames
  split
  · rfl
  · split
    · rfl
    · dsimp only
      rw [if_pos unknown]

theorem missingNames_of_closed (target : c.graph.get? t = some b) (fine : b.state ≠ .failed)
    (closed : (c.exportSurface t).isOpen = false) : c.missingNames a index t = c.absentNames a index t := by
  unfold missingNames absentNames
  rw [if_neg (by simp [target, fine])]
  split
  · rename_i nothing
    rw [nothing]
    rfl
  · dsimp only
    rw [if_neg (by simp [closed])]

theorem isOpen_or_starPending (unfollowed : ¬s.StarsFollowed t) :
    (s.exportSurface t).isOpen ∨ s.StarPending t := by
  simp only [StarsFollowed, Classical.not_forall, Followed, not_or, not_and] at unfollowed
  obtain ⟨x, r, reached, held, index, star, unlinked, unknown⟩ := unfollowed
  have outside : r.importTarget? index = none := by simpa using unlinked
  have opens : s.OpenStar r index → (s.exportSurface t).isOpen := by
    intro unknown
    refine (isOpen_exportSurface s t).mpr ⟨x, reached, fun r' held' => ?_⟩
    cases held.symm.trans held'
    exact .inr ⟨index, star, unknown⟩
  cases known : s.importedPackage? r index with
  | none => exact .inl (opens ⟨outside, fun p described => by cases known.symm.trans described⟩)
  | some p =>
    cases whole : p.openExports with
    | true =>
      refine .inl (opens ⟨outside, fun p' described => ?_⟩)
      cases known.symm.trans described
      exact whole
    | false =>
      refine .inr ⟨?_, x, r, index, p, reached, held, star, outside, known, whole⟩
      simpa [known] using unknown

theorem importError?_of_closed (truthful : Truthful tree c none) (coherent : c.graph.Coherent) (grows : Grows c s)
    (settled : SettledFrom tree 0 s) (closed : (c.exportSurface t).isOpen = false) (held : c.graph.get? i = some a)
    (last : s.graph.get? i = some r) (surface : r.surface = some m) (leads : a.importTarget? index = some t)
    (there : s.graph.get? t = some target) (read : target.surface = some m') :
    c.importError? i index = if (c.absentNames r index t).isEmpty then none
      else some (notExported r (c.absentNames r index t) target.key) := by
  obtain ⟨b, here⟩ := truthful.target_present coherent held leads
  obtain ⟨more, -⟩ := truthful.extends grows held last (settled i r (Nat.zero_le _) last) surface
  obtain ⟨more', fine⟩ := truthful.extends grows here there (settled t target (Nat.zero_le _) there) read
  have same : c.missingNames a index t = c.absentNames r index t := by
    rw [missingNames_of_closed here fine closed, absentNames, absentNames,
      FileRecord.requestedNames_of_surface more.surface]
  rw [importError?_eq held leads here, same, notExported, notExported, more.key, more'.key]

theorem Check.Traced.reports {check : Check} (traced : check.Traced tree s₀ s own) (coherent : s₀.graph.Coherent)
    (truthful : Truthful tree check.session none) (settled : SettledFrom tree 0 s) (file : check.package = none)
    (last : s.graph.get? check.importer = some r) (surface : r.surface = some m)
    (leads : r.importTarget? check.index = some t) (there : s.graph.get? t = some target)
    (read : target.surface = some m') (closed : (s.exportSurface t).isOpen = false) :
    (check.session.StarsFollowed t → check.error? =
      if (s.absentNames r check.index t).isEmpty then none
      else some (notExported r (s.absentNames r check.index t) target.key)) ∧
    (¬check.session.StarsFollowed t → check.error? = none ∨ check.session.StarPending t ∧
      check.error? = some (notExported r (check.session.absentNames r check.index t) target.key)) := by
  have after := traced.after
  obtain ⟨a, held, linked⟩ := traced.sound
  obtain ⟨_, _, t', -, -, -, -, leads'⟩ := linked file
  obtain ⟨more, -⟩ := truthful.extends after held last (settled _ r (Nat.zero_le _) last) surface
  cases leads.symm.trans (more.target leads')
  have coherent := traced.before.coherent coherent
  obtain ⟨b, here⟩ := truthful.target_present coherent held leads'
  have error : check.error? = check.session.importError? check.importer check.index := by rw [Check.error?, file]
  have closedError := fun known =>
    error.trans (importError?_of_closed truthful coherent after settled known held last surface leads' there read)
  constructor
  · intro followed
    have same := exportSurface_final truthful coherent after settled followed closed ⟨b, here⟩
    rw [closedError (same.isOpen.trans closed), same.absentNames]
  · intro unfollowed
    cases known : (check.session.exportSurface t).isOpen with
    | true =>
      rw [error, importError?_eq held leads' here, missingNames_of_isOpen known]
      exact .inl rfl
    | false =>
      have pending := (isOpen_or_starPending unfollowed).resolve_left (by simp [known])
      rw [closedError known]
      split
      · exact .inl rfl
      · exact .inr ⟨pending, rfl⟩

theorem truthful_new (resolver) (library) (globals) (tree) :
    Truthful tree (new resolver library globals) none where
  tentative held := by cases held
  read held := by cases held

/-- After a build of a new session, the log has the import errors that the checks of imports have reported, and every
link from one compiled file to another has been checked. If all names that the target exports are known, then the
check has reported those among the requested names that the target does not export, in the order of the request,
provided that the star re-exports that the target leads to had been followed by then. Otherwise it has reported
nothing, or what is missing when the description of a package stands for the files of the package. -/
theorem compileEntry_checks_imports (resolver : Resolver) (library : Bool) (globals : SortedMap String String)
    (tree : FileTree) (entry : Path) :
    let built := (new resolver library globals).compileEntry tree entry
    let s := built.1
    ∃ checks, Builds tree entry (new resolver library globals) built.2 checks s ∧
      (∀ d, d.code = .importNotExported →
        (d ∈ s.log.forFile d.file ↔ ∃ check ∈ checks, check.error? = some d)) ∧
      ∀ i r index t target, s.graph.get? i = some r → r.isCompiled → r.importTarget? index = some t →
        s.graph.get? t = some target → target.isCompiled → (s.exportSurface t).isOpen = false →
        (∃ check ∈ checks, check.About i index) ∧
        ∀ check ∈ checks, check.About i index →
          (check.session.StarsFollowed t → check.error? =
            if (s.absentNames r index t).isEmpty then none
            else some (notExported r (s.absentNames r index t) target.key)) ∧
          (¬check.session.StarsFollowed t → check.error? = none ∨ check.session.StarPending t ∧
            check.error? = some (notExported r (check.session.absentNames r index t) target.key)) := by
  intro built s
  obtain ⟨checks, builds⟩ := compileEntry_builds (requested_new resolver library globals tree) entry
  have coherent := coherent_new resolver library globals
  have settled := builds.settles coherent fun _ _ _ present => by cases present
  have truthful := builds.truthful coherent (truthful_new resolver library globals tree)
  have read : ∀ {i r}, s.graph.get? i = some r → r.isCompiled → ∃ m, r.surface = some m := by
    intro i r present compiled
    have shaped := (settled i r (Nat.zero_le _) present).shaped (builds.grows.coherent coherent)
    obtain ⟨m, surface, -⟩ := shaped.compiled compiled
    exact ⟨m, surface⟩
  refine ⟨checks, builds, ?_, ?_⟩
  · intro d code
    rw [builds.mem_importErrors code]
    exact ⟨fun reported => (reported.resolve_left (fun old => by cases old)).2, fun reported => .inr ⟨rfl, reported⟩⟩
  · intro i r index t target last compiled leads there compiled' closed
    obtain ⟨m, surface⟩ := read last compiled
    obtain ⟨m', surface'⟩ := read there compiled'
    have unlinked : ¬(new resolver library globals).Linked i index := by
      rintro ⟨_, _, present, -⟩
      cases present
    refine ⟨(builds.checked ⟨r, t, last, leads⟩).resolve_left unlinked, ?_⟩
    rintro check member ⟨rfl, rfl, file⟩
    exact (builds.traced.2 check member).reports coherent (truthful check member) settled file last surface leads there
      surface' closed

/-- `a.js` imports from `b.js` before it re-exports `c.js`, and `b.js` imports a name from `a.js` that neither has. -/
def lateStarTree : FileTree where
  entries := .ofList
    [(["w"], .directory),
      (["w", "a.js"], .file (.text "import \x7bx\x7d from './b.js';\nexport * from './c.js';\n")),
      (["w", "b.js"], .file (.text "import \x7bnope\x7d from './a.js';\nexport const x = 1;\n")),
      (["w", "c.js"], .file (.text "export const y = 1;\n"))]

/-- The import closes a circle. When it is checked, the star re-export of its target has not been followed; at the
end all names are known and the one it asks for is not among them, and the log is empty. -/
theorem late_star_hides_missing_name :
    let s := ((new ⟨⟨"/w"⟩, [], []⟩ false ∅).compileEntry lateStarTree ⟨"/w/a.js"⟩).1
    (∀ r ∈ s.graph.records, r.isCompiled) ∧
      ((s.graph.get? 1).map fun r => (r.key, r.importTarget? 0, s.absentNames r 0 0)) =
        some ("/w/b.js", some 0, ["nope"]) ∧
      (s.exportSurface 0).isOpen = false ∧ s.log.isEmpty := by
  decide +kernel

end Session

end ComponentCompiler
