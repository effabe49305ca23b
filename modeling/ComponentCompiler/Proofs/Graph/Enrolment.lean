import ComponentCompiler.Proofs.Graph.Ledger

/-! The steps of a compilation that take in a file or take one back; both keep a `Ledger`. -/

namespace ComponentCompiler.Session

open List FileGraph Registry

variable {past : Past} {s s' : Session} {a r : FileRecord} {block : AnnotationBlock} {d winner : Definition} {id : Nat}

/-! ### Taking in a file -/

theorem get?_registerBlocks_of_some (blocks : List AnnotationBlock) {s : Session}
    (held : s.registry.get? kind name = some d) :
    (blocks.foldl (registerBlock id r m) s).registry.get? kind name = some d := by
  induction blocks generalizing s with
  | nil => exact held
  | cons block rest ih =>
    apply ih
    rw [registry_registerBlock]
    exact get?_registerExternal_of_some held _

theorem log_registerBlock (id) (m) (s) (block)
    (unpackaged : r.package = none) : (registerBlock id r m s block).log =
      s.log.extend (s.registry.register (blockDefinition r m block)).diagnostics := by
  unfold registerBlock
  rw [unpackaged, Option.isSome_none, if_neg Bool.false_ne_true]
  dsimp only
  split <;> rfl

theorem mem_log_registerBlock {e : Diagnostic} (unpackaged : r.package = none) (code : e.code = .duplicateRegistration) :
    e ∈ (registerBlock id r m s block).log.forFile file ↔ e ∈ s.log.forFile file ∨
      file = r.key ∧ ∃ winner, s.registry.get? block.kind block.name = some winner ∧
        e = duplicateDiagnostic (blockDefinition r m block) winner := by
  rw [log_registerBlock id m s block unpackaged, DiagnosticLog.mem_forFile_extend,
    mem_diagnostics_register code]
  refine or_congr_right ⟨?_, ?_⟩
  · rintro ⟨⟨winner, held, rfl⟩, rfl⟩
    exact ⟨rfl, winner, held, rfl⟩
  · rintro ⟨rfl, winner, held, rfl⟩
    exact ⟨⟨winner, held, rfl⟩, rfl⟩

theorem registerBlocks_refusals (id : Nat) (m : SourceModule) {blocks : List AnnotationBlock}
    (nodup : (blocks.map (·.name)).Nodup) (unpackaged : r.package = none) (s : Session) :
    let s' := blocks.foldl (registerBlock id r m) s
    (∀ block ∈ blocks, s'.registry.get? block.kind block.name = some (blockDefinition r m block) ∨
      ∃ winner, s.registry.get? block.kind block.name = some winner ∧
        duplicateDiagnostic (blockDefinition r m block) winner ∈ s'.log.forFile r.key) ∧
    ∀ {file d}, d ∈ s'.log.forFile file → d.code = .duplicateRegistration → d ∈ s.log.forFile file ∨
      file = r.key ∧ ∃ block ∈ blocks, ∃ winner, s.registry.get? block.kind block.name = some winner ∧
        d = duplicateDiagnostic (blockDefinition r m block) winner := by
  induction blocks generalizing s with
  | nil => exact ⟨fun _ mem => absurd mem not_mem_nil, fun logged _ => .inl logged⟩
  | cons first rest ih =>
    obtain ⟨new, nodup⟩ := nodup_cons.mp nodup
    obtain ⟨enrolled, refusals⟩ := ih nodup (registerBlock id r m s first)
    have before {block : AnnotationBlock} (mem : block ∈ rest) {d : Definition}
        (held : (registerBlock id r m s first).registry.get? block.kind block.name = some d) :
        s.registry.get? block.kind block.name = some d := by
      rwa [registry_registerBlock, get?_registerExternal, if_neg] at held
      rintro ⟨-, same⟩
      exact new (mem_map.mpr ⟨block, mem, same⟩)
    have grows := grows_foldl (f := registerBlock id r m) (fun _ block => grows_registerBlock id r m block)
      (registerBlock id r m s first) rest
    refine ⟨?_, ?_⟩
    · intro block mem
      rcases mem_cons.mp mem with rfl | later
      · cases held : s.registry.get? block.kind block.name with
        | none =>
          refine .inl (get?_registerBlocks_of_some rest ?_)
          rw [registry_registerBlock, get?_registerExternal, if_pos ⟨rfl, rfl⟩, held]
          rfl
        | some winner =>
          exact .inr ⟨winner, rfl,
            grows.log ((mem_log_registerBlock unpackaged rfl).mpr (.inr ⟨rfl, winner, held, rfl⟩))⟩
      · refine (enrolled block later).imp_right ?_
        rintro ⟨winner, held, logged⟩
        exact ⟨winner, before later held, logged⟩
    · intro file d logged code
      rcases refusals logged code with early | ⟨here, block, later, winner, held, same⟩
      · rcases (mem_log_registerBlock unpackaged code).mp early with old | ⟨here, winner, held, same⟩
        · exact .inl old
        · exact .inr ⟨here, first, mem_cons_self, winner, held, same⟩
      · exact .inr ⟨here, block, mem_cons_of_mem _ later, winner, before later held, same⟩

theorem nodup_of_loadSurface (loaded : s.loadSurface tree r = .ok m) : (m.annotations.map (·.name)).Nodup := by
  unfold loadSurface at loaded
  split at loaded
  · cases loaded
  · split at loaded
    · rename_i extracted
      cases loaded
      exact SourceModule.nodup_annotations_of_extract extracted
    · cases loaded

theorem log_registerBlocks_of_package (blocks : List AnnotationBlock) (packaged : r.package.isSome) (s) :
    (blocks.foldl (registerBlock id r m) s).log = s.log := by
  induction blocks generalizing s with
  | nil => rfl
  | cons block rest ih =>
    rw [foldl_cons, ih, registerBlock]
    dsimp only
    rw [if_pos packaged]
    rfl

theorem carries_begin (present : s.graph.get? id = some r) (blank : r = r.blank) (m) :
    Carries s (s.begin id r m) where
  retains {q} mem := by
    obtain ⟨i, there⟩ := mem_records_iff.mp mem
    by_cases same : i = id
    · subst same
      cases present.symm.trans there
      obtain ⟨annotations, own, -⟩ := begin_listed present r m
      refine ⟨_, mem_records_iff.mpr ⟨i, own⟩, rfl, ?_, ?_, ?_⟩ <;> rw [blank] <;> simp [FileRecord.blank]
    · exact ⟨q, mem_records_iff.mpr ⟨i, by rwa [get?_begin_of_ne same]⟩, .refl q⟩
  kept held := get?_registerBlocks_of_some m.annotations held
  log _ := (grows_begin id r m).log

theorem Backed.local_file (backed : Backed past s d) (unpackaged : d.package = none) : ∃ r ∈ s.graph.records,
    ∃ m, r.surface = some m ∧ Declares r m d ∧ (d.kind, d.name) ∈ r.annotations := by
  cases backed with
  | file mem surface declared listed => exact ⟨_, mem, _, surface, declared, listed⟩
  | former _ package _ _ declared =>
    rw [← declared.frame.2, unpackaged] at package
    cases package
  | metadata _ described =>
    obtain ⟨_, _, _, _, _, _, _, same⟩ := described
    rw [same] at unpackaged
    cases unpackaged

theorem eq_of_id_eq (coherent : s.graph.Coherent) (held : s.graph.get? id = some a) (mem : r ∈ s.graph.records)
    (same : r.id = a.id) : r = a := by
  obtain ⟨i, there⟩ := mem_records_iff.mp mem
  rw [coherent.ids there, coherent.ids held] at same
  subst same
  exact Option.some.inj (there.symm.trans held)

theorem Ledger.refused (ledger : Ledger past s) (coherent : s.graph.Coherent) (present : s.graph.get? id = some r)
    (blank : r = r.blank) (held : s.registry.get? block.kind block.name = some winner) (carries : Carries s s')
    (same : a.blank = r.blank)
    (logged : duplicateDiagnostic (blockDefinition r m block) winner ∈ s'.log.forFile r.key) :
    Refused past s' a m block winner := by
  obtain ⟨-, -, key, -⟩ := blank_frame same
  have rival := ledger.coherent.own held
  exact
    { logged := by rwa [blockDefinition_of_blank_eq same, key]
      rival := rival
      apart := by
        intro unpackaged file
        obtain ⟨q, mem, m', surface, declared, -⟩ := (ledger.backed held).local_file unpackaged
        have other : q.id ≠ r.id := by
          intro ids
          cases eq_of_id_eq coherent present mem ids
          rw [blank] at surface
          cases surface
        have shares : s.SharesKey r := ⟨q, mem, other, by rw [← declared.frame.1, file, key]⟩
        exact shares.mono carries same
      stands := .inl (carries.kept (by rw [get?_of_table_eq rival.1, rival.2, held])) }

theorem mem_log_begin (loaded : s.loadSurface tree r = .ok m) (logged : e ∈ (s.begin id r m).log.forFile file)
    (code : e.code = .duplicateRegistration) :
    e ∈ s.log.forFile file ∨ r.package = none ∧ file = r.key ∧ ∃ block ∈ m.annotations, ∃ winner,
      s.registry.get? block.kind block.name = some winner ∧
        e = duplicateDiagnostic (blockDefinition r m block) winner := by
  have logged : e ∈ (m.annotations.foldl (registerBlock id r m) { s with log := s.log.extend m.diagnostics }).log.forFile
    file := logged
  have early (here : e ∈ (s.log.extend m.diagnostics).forFile file) : e ∈ s.log.forFile file := by
    rcases DiagnosticLog.mem_forFile_extend.mp here with old | ⟨mem, -⟩
    · exact old
    · rw [code_of_loadSurface loaded e mem] at code
      cases code
  cases package : r.package with
  | some name =>
    rw [log_registerBlocks_of_package m.annotations (by rw [package]; rfl)] at logged
    exact .inl (early logged)
  | none =>
    rcases (registerBlocks_refusals id m (nodup_of_loadSurface loaded) package _).2 logged code with old | new
    · exact .inl (early old)
    · exact .inr ⟨rfl, new⟩

theorem Ledger.begin (ledger : Ledger past s) (coherent : s.graph.Coherent) (reading : tree ∈ past.trees)
    (present : s.graph.get? id = some r) (blank : r = r.blank) (loaded : s.loadSurface tree r = .ok m) :
    Ledger past (s.begin id r m) := by
  obtain ⟨annotations, own, new⟩ := begin_listed present r m
  have carries := carries_begin present blank m
  have inside := mem_records_iff.mpr ⟨id, own⟩
  have admits := ledger.admitted (mem_records_iff.mpr ⟨id, present⟩)
  have grows := grows_begin (s := s) id r m
  -- the records are that of the file and those that were there
  have split {r' : FileRecord} (mem : r' ∈ (s.begin id r m).graph.records) :
      r' ∈ s.graph.records ∨ r'.blank = r.blank ∧ r'.surface = some m := by
    obtain ⟨i, there⟩ := mem_records_iff.mp mem
    by_cases same : i = id
    · subst same
      cases own.symm.trans there
      exact .inr ⟨rfl, rfl⟩
    · exact .inl (mem_records_iff.mpr ⟨i, by rwa [get?_begin_of_ne same] at there⟩)
  refine
    { coherent := coherent_begin ledger.coherent id r m
      read := fun {r' m'} mem surface => ?_
      blocks := fun {r' m' block} mem surface unpackaged listed => ?_
      backed := fun {kind name d} here => ?_
      refusals := fun {file d} logged code => ?_
      admitted := fun {r'} mem => ?_
      known := fun {kind name d package} here packaged => ?_ }
  · rcases split mem with before | ⟨same, read⟩
    · exact ledger.read before surface
    · cases read.symm.trans surface
      exact ⟨tree, reading, by rw [(blank_frame same).2.1, surface?_of_loadSurface loaded]⟩
  · rcases split mem with before | ⟨same, read⟩
    · exact (ledger.blocks before surface unpackaged listed).mono carries rfl
    · cases read.symm.trans surface
      obtain ⟨enrolled, -⟩ := registerBlocks_refusals id m (nodup_of_loadSurface loaded)
        ((blank_frame same).2.2.2.symm.trans unpackaged) { s with log := s.log.extend m.diagnostics }
      rcases enrolled block listed with held | ⟨winner, held, logged⟩
      · exact .registered (by rw [blockDefinition_of_blank_eq same]; exact held)
      · exact .refused (ledger.refused coherent present blank held carries same logged)
  · rcases new here with before | ⟨declared, listed⟩
    · exact (ledger.backed before).mono carries grows.resolver
    · exact .file inside rfl (declared.of_blank_eq rfl) listed
  · rcases mem_log_begin loaded logged code with before | ⟨unpackaged, rfl, block, listed, winner, held, rfl⟩
    · exact (ledger.refusals before code).mono carries
    · exact ⟨_, inside, rfl, unpackaged, m, block, winner, listed, .inl rfl, rfl,
        ledger.refused coherent present blank held carries rfl logged⟩
  · refine grows.admits ?_
    rcases split mem with before | ⟨same, -⟩
    · exact ledger.admitted before
    · rwa [(blank_frame same).2.2.2]
  · rcases new here with before | ⟨declared, -⟩
    · exact grows.contains_package (ledger.known before packaged)
    · exact grows.contains_package (admits package (declared.frame.2.symm.trans packaged)).2

/-! ### Taking a file back -/

/-- The record `a` of a file gives way to `b`, which has no surface, and the local definitions of the file go. The
refusals of the file go too, unless it has failed. -/
structure Withdraws (s s' : Session) (a b : FileRecord) : Prop where
  blank : b.blank = a.blank
  surface : b.surface = none
  member : a ∈ s.graph.records
  own : ∀ {r}, r ∈ s.graph.records → r.id = a.id → r = a
  records : ∀ {r}, r ∈ s'.graph.records ↔ r = b ∨ r ∈ s.graph.records ∧ r.id ≠ a.id
  coherent : s.registry.Coherent → s'.registry.Coherent
  registry : ∀ kind name, s'.registry.get? kind name = (s.registry.deregisterFile a.key).1.get? kind name
  log : ∀ {file d}, d ∈ s'.log.forFile file ↔ d ∈ s.log.forFile file ∧ (b.state = .failed ∨ file ≠ a.key)
  resolver : s'.resolver = s.resolver
  admits : ∀ {package}, s.Admits package → s'.Admits package
  packages : s'.registry.packages = s.registry.packages

/-- The history has the removal of this file: it has failed, or it is compiled again after what is in the log. -/
def Past.Removes (past : Past) (s : Session) (b : FileRecord) : Prop :=
  b.state = .failed ∨ past.Edited b.key ∧ ∀ {refusal winner}, refusal ∈ s.log.forFile refusal.file →
    winner.file = b.key → past.Outdates refusal winner

section

variable {b : FileRecord} (withdraws : Withdraws s s' a b)

include withdraws

theorem Withdraws.record (mem : r ∈ s.graph.records) :
    ∃ r' ∈ s'.graph.records, r'.blank = r.blank ∧ (r.id = a.id ∧ r = a ∧ r' = b ∨ r.id ≠ a.id ∧ r' = r) := by
  by_cases same : r.id = a.id
  · cases withdraws.own mem same
    exact ⟨b, withdraws.records.mpr (.inl rfl), withdraws.blank, .inl ⟨rfl, rfl, rfl⟩⟩
  · exact ⟨r, withdraws.records.mpr (.inr ⟨mem, same⟩), rfl, .inr ⟨same, rfl⟩⟩

theorem Withdraws.held (held : s.registry.get? winner.kind winner.name = some winner) :
    s'.registry.get? winner.kind winner.name = some winner ∨ winner.package = none ∧ winner.file = a.key := by
  rw [withdraws.registry, get?_deregisterFile, held, Option.filter_some]
  split
  · exact .inl rfl
  · rename_i removed
    simpa [Definition.isLocal] using removed

theorem SharesKey.withdraw (shares : s.SharesKey r) : s'.SharesKey r := by
  obtain ⟨q, mem, other, key⟩ := shares
  obtain ⟨q', mem', same, -⟩ := withdraws.record mem
  obtain ⟨ids, -, keys, -⟩ := blank_frame same
  exact ⟨q', mem', by rwa [ids], keys.trans key⟩

theorem Stands.withdraw (stands : Stands past s refusal winner) (logged : refusal ∈ s.log.forFile refusal.file)
    (removes : past.Removes s b) : Stands past s' refusal winner := by
  have key := (blank_frame withdraws.blank).2.2.1
  have gone (unpackaged : winner.package = none) (file : winner.file = a.key) : Stands past s' refusal winner := by
    rcases removes with failed | ⟨-, outdates⟩
    · exact .inr ⟨unpackaged, .inl ⟨b, withdraws.records.mpr (.inl rfl), key.trans file.symm, failed⟩⟩
    · exact .inr ⟨unpackaged, .inr (outdates logged (file.trans key.symm))⟩
  rcases stands with held | ⟨unpackaged, ⟨q, mem, file, failed⟩ | outdated⟩
  · rcases withdraws.held held with kept | ⟨unpackaged, file⟩
    · exact .inl kept
    · exact gone unpackaged file
  · obtain ⟨q', mem', -, ⟨-, rfl, -⟩ | ⟨-, rfl⟩⟩ := withdraws.record mem
    · exact gone unpackaged file.symm
    · exact .inr ⟨unpackaged, .inl ⟨q', mem', file, failed⟩⟩
  · exact .inr ⟨unpackaged, .inr outdated⟩

theorem Refused.withdraw {r' : FileRecord} (refused : Refused past s r m block winner) (removes : past.Removes s b)
    (same : r'.blank = r.blank) (kept : b.state = .failed ∨ r.key ≠ a.key) : Refused past s' r' m block winner := by
  obtain ⟨ids, -, key, -⟩ := blank_frame same
  have definition := blockDefinition_of_blank_eq same m block
  exact
    { logged := by rw [definition, key]; exact withdraws.log.mpr ⟨refused.logged, kept⟩
      rival := refused.rival
      apart := by
        intro unpackaged file
        obtain ⟨q, mem, other, keys⟩ := (refused.apart unpackaged (file.trans key)).withdraw withdraws
        exact ⟨q, mem, by rwa [ids], keys.trans key.symm⟩
      stands := by rw [definition]; exact refused.stands.withdraw withdraws refused.logged removes }

theorem Enrolled.withdraw (enrolled : Enrolled past s r m block) (removes : past.Removes s b) (other : r.id ≠ a.id) :
    Enrolled past s' r m block := by
  obtain ⟨ids, -, keys, -⟩ := blank_frame withdraws.blank
  by_cases same : r.key = a.key
  · refine .shared ⟨b, withdraws.records.mpr (.inl rfl), ?_, keys.trans same.symm⟩
    rw [ids]
    exact other.symm
  · cases enrolled with
    | registered held =>
      have kept := withdraws.held (show s.registry.get? (blockDefinition r m block).kind _ = some _ from held)
      rcases kept with kept | ⟨-, file⟩
      · exact .registered kept
      · exact absurd file same
    | refused refused => exact .refused (refused.withdraw withdraws removes rfl (.inr same))
    | shared shares => exact .shared (shares.withdraw withdraws)

theorem Backed.withdraw (backed : Backed past s d) (ledger : Ledger past s) (removes : past.Removes s b)
    (apart : d.package = none → d.file ≠ a.key) : Backed past s' d := by
  have former {r t m} (mem : r ∈ s.graph.records) (package : r.package.isSome) (read : t ∈ past.trees)
      (loaded : t.surface? r.path = some m) (declared : Declares r m d)
      (gone : r.id = a.id ∨ r.state = .failed ∨ past.Edited r.key) : Backed past s' d := by
    obtain ⟨r', mem', same, state⟩ := withdraws.record mem
    obtain ⟨-, path, key, packages⟩ := blank_frame same
    refine .former mem' (by rwa [packages]) read (by rwa [path]) (declared.of_blank_eq same) ?_
    rcases state with ⟨-, -, rfl⟩ | ⟨other, rfl⟩
    · exact removes.imp_right And.left
    · exact gone.resolve_left other
  cases backed with
  | @file r m mem surface declared listed =>
    by_cases same : r.id = a.id
    · cases package : r.package with
      | none =>
        cases withdraws.own mem same
        exact absurd declared.frame.1 (apart (declared.frame.2.trans package))
      | some name =>
        obtain ⟨t, read, loaded⟩ := ledger.read mem surface
        exact former mem (by rw [package]; rfl) read loaded declared (.inl same)
    · exact .file (withdraws.records.mpr (.inr ⟨mem, same⟩)) surface declared listed
  | former mem package read loaded declared gone => exact former mem package read loaded declared (.inr gone)
  | metadata read described => exact .metadata read (by rwa [withdraws.resolver])

theorem Explained.withdraw (explained : Explained past s file refusal) (ledger : Ledger past s)
    (removes : past.Removes s b) (kept : b.state = .failed ∨ file ≠ a.key) : Explained past s' file refusal := by
  obtain ⟨r, mem, rfl, unpackaged, m, block, winner, listed, last, same, refused⟩ := explained
  obtain ⟨r', mem', blank, state⟩ := withdraws.record mem
  obtain ⟨-, path, key, packages⟩ := blank_frame blank
  refine ⟨r', mem', key, packages.trans unpackaged, m, block, winner, listed, ?_, ?_,
    refused.withdraw withdraws removes blank kept⟩
  · rcases state with ⟨-, rfl, rfl⟩ | ⟨-, rfl⟩
    · refine .inr ⟨kept.resolve_right fun other => other rfl, ?_⟩
      rw [path]
      rcases last with surface | ⟨-, read⟩
      · exact ledger.read mem surface
      · exact read
    · exact last
  · rw [same, blockDefinition_of_blank_eq blank]

theorem Ledger.withdraw (ledger : Ledger past s) (removes : past.Removes s b) : Ledger past s' := by
  -- a record with a surface is not that of the file
  have other {r m} (mem : r ∈ s'.graph.records) (surface : r.surface = some m) :
      r ∈ s.graph.records ∧ r.id ≠ a.id := by
    rcases withdraws.records.mp mem with rfl | old
    · rw [withdraws.surface] at surface
      cases surface
    · exact old
  exact
    { coherent := withdraws.coherent ledger.coherent
      read := fun mem surface => ledger.read (other mem surface).1 surface
      blocks := fun mem surface unpackaged listed =>
        (ledger.blocks (other mem surface).1 surface unpackaged listed).withdraw withdraws removes
          (other mem surface).2
      backed := by
        intro kind name d here
        rw [withdraws.registry] at here
        obtain ⟨before, apart⟩ := of_get?_deregisterFile here
        exact (ledger.backed before).withdraw withdraws ledger removes apart
      refusals := by
        intro file d logged code
        obtain ⟨before, kept⟩ := withdraws.log.mp logged
        exact (ledger.refusals before code).withdraw withdraws ledger removes kept
      admitted := by
        intro r mem
        refine withdraws.admits ?_
        rcases withdraws.records.mp mem with rfl | ⟨old, -⟩
        · rw [(blank_frame withdraws.blank).2.2.2]
          exact ledger.admitted withdraws.member
        · exact ledger.admitted old
      known := by
        intro kind name d package here packaged
        rw [withdraws.registry] at here
        rw [withdraws.packages]
        exact ledger.known (of_get?_deregisterFile here).1 packaged }

end

theorem mem_records_iff_of_own (coherent : s.graph.Coherent) (held : s.graph.get? id = some a)
    (own : s'.graph.get? id = some b) (others : ∀ {i}, i ≠ id → s'.graph.get? i = s.graph.get? i) :
    r ∈ s'.graph.records ↔ r = b ∨ r ∈ s.graph.records ∧ r.id ≠ a.id := by
  constructor
  · intro mem
    obtain ⟨i, there⟩ := mem_records_iff.mp mem
    by_cases same : i = id
    · subst same
      exact .inl (Option.some.inj (there.symm.trans own))
    · rw [others same] at there
      refine .inr ⟨mem_records_iff.mpr ⟨i, there⟩, ?_⟩
      rwa [coherent.ids there, coherent.ids held]
  · rintro (rfl | ⟨mem, other⟩)
    · exact mem_records_iff.mpr ⟨id, own⟩
    · obtain ⟨i, there⟩ := mem_records_iff.mp mem
      rw [coherent.ids there, coherent.ids held] at other
      exact mem_records_iff.mpr ⟨i, by rwa [others other]⟩

theorem withdraws_fail (coherent : s.graph.Coherent) (held : s.graph.get? id = some a) : Withdraws s (s.fail id) a
    { a with state := .failed, surface := none, resolved := [], annotations := [], importTargets := [] } where
  blank := rfl
  surface := rfl
  member := mem_records_iff.mpr ⟨id, held⟩
  own := eq_of_id_eq coherent held
  records := mem_records_iff_of_own coherent held (fail_own held) get?_fail_of_ne
  coherent coherent := by
    rw [registry_fail held]
    exact coherent.deregisterFile a.key
  registry _ _ := by rw [registry_fail held]
  log := by rw [log_fail]; simp
  resolver := (grows_fail id).resolver
  admits := (grows_fail id).admits
  packages := by rw [registry_fail held]; rfl

theorem withdraws_forget (coherent : s.graph.Coherent) (held : s.graph.get? id = some a) :
    Withdraws s (s.forget id a.path) a a.blank where
  blank := rfl
  surface := rfl
  member := mem_records_iff.mpr ⟨id, held⟩
  own := eq_of_id_eq coherent held
  records := by
    refine mem_records_iff_of_own coherent held ?_ fun other => by rw [get?_forget, if_neg other]
    rw [get?_forget, if_pos rfl, held]
    rfl
  coherent coherent := (coherent.deregisterFile a.key).of_eq (fun _ _ => get?_withOutput ..) rfl
  registry _ _ := get?_withOutput ..
  log {file d} := by
    have state : a.blank.state ≠ .failed := by simp [FileRecord.blank]
    rw [show (s.forget id a.path).log = s.log.clearFile a.key from rfl, DiagnosticLog.forFile_clearFile]
    by_cases same : file = a.key <;> simp [same, state]
  resolver := rfl
  admits admits := admits
  packages := rfl

/-! ### Runs -/

def Task.Fresh (s : Session) : Task → Prop
  | .file _ origin _ => s.Admits origin.package
  | .record id => ∀ r, s.graph.get? id = some r → r = r.blank
  | .imports r .. => s.Admits r.package

theorem Runs.ledger (run : Runs tree task s checks s') (coherent : s.graph.Coherent) (reading : tree ∈ past.trees)
    (fresh : task.Fresh s) (ledger : Ledger past s) : Ledger past s' := by
  induction run with
  | visited => exact ledger
  | @entered s _ path origin _ new _ ih =>
    refine ih ((grows_enter (Path.clean_clean path) new origin).coherent coherent) ?_
      (ledger.advance reading (advances_enter path.clean fresh))
    intro r held
    cases (get?_enter s path.clean origin).symm.trans held
    rfl
  | @unread s id r d held failed =>
    have other : d.code ≠ .duplicateRegistration := by
      have fatal := code_mem_fatalCodes failed
      intro code
      simp [code, fatalCodes] at fatal
    have reported : Ledger past (s.report d) := ledger.advance reading (advances_report other)
    exact reported.withdraw (withdraws_fail coherent held) (.inl rfl)
  | @stopped s s₁ id r m _ held loaded run ih =>
    have begun := grows_begin (s := s) id r m
    have admits := begun.admits (ledger.admitted (mem_records_iff.mpr ⟨id, held⟩))
    obtain ⟨_, _, _, own⟩ := run.begun_own coherent held
    have followed := ih (begun.coherent coherent) admits (ledger.begin coherent reading held (fresh r held) loaded)
    exact followed.withdraw (withdraws_fail (run.grows.coherent (begun.coherent coherent)) own) (.inl rfl)
  | @finished s s₁ id r m _ held loaded run ih =>
    have begun := grows_begin (s := s) id r m
    have admits := begun.admits (ledger.admitted (mem_records_iff.mpr ⟨id, held⟩))
    obtain ⟨_, _, _, own⟩ := run.begun_own coherent held
    cases coherent.ids held
    have followed := ih (begun.coherent coherent) admits (ledger.begin coherent reading held (fresh r held) loaded)
    refine followed.advance reading (advances_finish own ?_ m)
    rw [fresh r held]
    simp [FileRecord.blank]
  | followed => exact ledger
  | unresolved => exact ledger.advance reading (advances_report (by simp [unresolvedImport]))
  | @outside s _ r _ index _ _ found name _ _ _ _ ih =>
    have grows := grows_outside (s := s) tree r index found name
    exact ih (grows.coherent coherent) (grows.admits fresh) (ledger.advance reading (advances_outside r index found name))
  | @linked s s₁ _ r _ index _ _ found target _ _ resolved inside run _ file ih =>
    have noted := grows_noteImport (s := s) tree r index found
    have grows := (noted.trans run.grows).trans (grows_linked r.id index target)
    have reached := file (noted.coherent coherent) (admits_importOrigin resolved inside fresh)
      (ledger.advance reading (advances_noteImport r index found))
    exact ih (grows.coherent coherent) (grows.admits fresh) (reached.advance reading (advances_linked r.id index target))

theorem Drains.ledger (drains : Drains tree cursor s checks s') (coherent : s.graph.Coherent)
    (reading : tree ∈ past.trees) (ledger : Ledger past s) : Ledger past s' :=
  drains.invariant coherent ledger fun run coherent => run.ledger coherent reading fun _ same => by cases same

theorem ledger_new (resolver) (library) (globals) (past) :
    Ledger past (new resolver library globals) where
  coherent := Registry.coherent_empty
  read mem := absurd mem not_mem_nil
  blocks mem := absurd mem not_mem_nil
  backed {kind _ _} here := by cases kind <;> cases here
  refusals logged := by cases logged
  admitted mem := absurd mem not_mem_nil
  known {kind _ _ _} here := by cases kind <;> cases here

theorem Builds.ledger {resolver : Resolver} {library : Bool} {globals : SortedMap String String}
    (builds : Builds tree entry (new resolver library globals) id checks s) (edits) :
    Ledger ⟨tree, s, edits⟩ s := by
  have fresh := coherent_new resolver library globals
  have reading : tree ∈ (⟨tree, s, edits⟩ : Past).trees := mem_cons_self
  obtain ⟨run, drains⟩ := builds
  exact drains.ledger (run.grows.coherent fresh) reading
    (run.ledger fresh reading (fun _ same => by cases same) (ledger_new resolver library globals _))

end ComponentCompiler.Session
