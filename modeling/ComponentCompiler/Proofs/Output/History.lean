import ComponentCompiler.Proofs.Output.Cache

/-!
What files hold after a history of the output. The cache compares a content with the digest that it
has for a path, not with the file.
-/

namespace ComponentCompiler.OutputState

open List
open FileTree (item?_remove lookup_eq_ok readText_eq_ok writeDeep_ok item?_put read_eq_ok)

/-- An action on the output of a target. Opening the cache anew abandons what was not kept. -/
inductive Event where
  | reopen
  | write (path : Path) (content : FileContent)
  | save
  | delete (path : Path)

namespace Event

def written? : Event → Option (Path × FileContent)
  | .write path content => some (path, content)
  | _ => none

end Event

/-- What an observer of the output notes: what was written where, and what of it no cache file has. -/
structure Ledger where
  last : String → Option FileContent := fun _ => none
  unsaved : List String := []
  abandoned : List String := []

namespace Ledger

variable (l : Ledger)

def wrote (path : Path) (content : FileContent) : Ledger where
  last text := if text = path.text then some content else l.last text
  unsaved := path.text :: l.unsaved
  abandoned := l.abandoned.filter (· != path.text)

def kept : Ledger := { l with unsaved := [] }

def reopened : Ledger := { l with unsaved := [], abandoned := l.unsaved ++ l.abandoned }

def note (s : OutputState) : Event → Ledger
  | .reopen => l.reopened
  | .write path content => if (s.write path content).1.toOption = some true then l.wrote path content else l
  | .save => if s.save.1.toOption.isSome then l.kept else l
  | .delete _ => l

theorem note_write (s) (path) (content) :
    l.note s (.write path content) =
      if (s.write path content).1.toOption = some true then l.wrote path content else l := rfl

theorem note_save (s) :
    l.note s .save = if s.save.1.toOption.isSome then l.kept else l := rfl

end Ledger

def perform (dir : Path) (target : String) (s : OutputState) : Event → OutputState
  | .reopen => openCache s.files dir target
  | .write path content => (s.write path content).2
  | .save => s.save.2
  | .delete path => { s with files := s.files.remove path }

theorem perform_reopen (dir) (target) (s) :
    perform dir target s .reopen = openCache s.files dir target := rfl

def next (dir : Path) (target : String) (state : OutputState × Ledger) (event : Event) : OutputState × Ledger :=
  (perform dir target state.1 event, state.2.note state.1 event)

def run (files : FileTree) (dir : Path) (target : String) (events : List Event) : OutputState × Ledger :=
  events.foldl (next dir target) (openCache files dir target, {})

/-! ### What is known -/

/-- A digest is that of a content written to the path: of the last one, unless the path is a stale one. -/
def Ledger.Knows (l : Ledger) (contents : List FileContent) (stale : List String) (key digest : String) : Prop :=
  (l.last key).isSome = true ∧ ∃ content ∈ contents, digest = Sha256.digest content.bytes ∧
    (key ∉ stale → l.last key = some content)

structure Tracks (paths : List Path) (contents : List FileContent) (place : Path) (s : OutputState) (l : Ledger) : Prop where
  path : s.cache.path = place
  disk : ∀ {p content held}, p ∈ paths → l.last p.text = some content →
    s.files.item? p.location = some (.file held) → held = content
  memory : ∀ {key digest}, s.cache.digests.get? key = some digest → l.Knows contents l.abandoned key digest
  -- a cache file knows nothing of the writes since it was kept
  kept : ∀ {text}, s.files.item? place.location = some (.file (.text text)) →
    ∃ digests, OutputCache.digestsOfText? text = some digests ∧
      ∀ {key digest}, digests.get? key = some digest → l.Knows contents (l.unsaved ++ l.abandoned) key digest

/-- The paths lead to different files, none of which is the cache file. -/
structure Separate (paths : List Path) (place : Path) : Prop where
  addressed : ∀ p ∈ paths, ∀ q ∈ paths, p.location = q.location → p.text = q.text
  apart : ∀ p ∈ paths, p.location ≠ place.location

namespace Tracks

variable {dir path : Path}

section

variable (tracks : Tracks paths contents place s l)
include tracks

theorem of_files (files : FileTree)
    (fewer : ∀ {location held}, files.item? location = some (.file held) →
      s.files.item? location = some (.file held)) : Tracks paths contents place { s with files := files } l where
  path := tracks.path
  disk mem last held := tracks.disk mem last (fewer held)
  memory known := tracks.memory known
  kept held := tracks.kept (fewer held)

theorem delete (path) :
    Tracks paths contents place { s with files := s.files.remove path } l :=
  tracks.of_files _ item?_remove

theorem reopen (here : place = dir.join (OutputCache.fileName target)) :
    Tracks paths contents place (openCache s.files dir target) l.reopened := by
  rw [here] at tracks ⊢
  have fewer : ∀ {location held}, (openCache s.files dir target).files.item? location = some (.file held) →
      s.files.item? location = some (.file held) := by
    intro location held here
    rcases files_openCache s.files dir target with same | removed
    · rw [same] at here
      exact here
    · rw [removed] at here
      exact item?_remove here
  refine ⟨path_openCache .., fun mem last held => tracks.disk mem last (fewer held), ?_, ?_⟩
  · intro key digest known
    obtain ⟨text, digests, read, decoded, known⟩ := get?_openCache known
    have held := (lookup_eq_ok.mp (readText_eq_ok.mp read)).2
    obtain ⟨digests', decoded', knows⟩ := tracks.kept held
    rw [decoded, Option.some.injEq] at decoded'
    subst decoded'
    exact knows known
  · intro text held
    exact tracks.kept (fewer held)

section

variable (separate : Separate paths place)
include separate

theorem written (mem : path ∈ paths)
    (used : content ∈ contents) (h : s.write path content = (.ok true, s')) :
    Tracks paths contents place s' (l.wrote path content) := by
  obtain ⟨cache, placed⟩ := write_ok_true h
  have elsewhere : ∀ {location held}, location ≠ path.location →
      s'.files.item? location = some (.file held) → s.files.item? location = some (.file held) := by
    intro location held other here
    have files : s'.files = (s.files.writeDeep path content).2 := by rw [placed]
    rw [files] at here
    exact (FileTree.item?_writeDeep_file other).mp here
  refine ⟨by rw [cache]; exact tracks.path, ?_, ?_, ?_⟩
  · intro p noted held inside last here
    dsimp only [Ledger.wrote] at last
    split at last
    · rename_i same
      cases last
      obtain ⟨middle, -, apart, -, files, -⟩ := writeDeep_ok placed
      have location : p.location = path.location := by
        obtain ⟨text⟩ := p
        obtain ⟨text'⟩ := path
        exact congrArg (fun text => Path.location ⟨text⟩) same
      rw [files, location, item?_put apart, if_pos rfl] at here
      cases here
      rfl
    · rename_i different
      have other : p.location ≠ path.location := fun same => different (separate.addressed p inside path mem same)
      exact tracks.disk inside last (elsewhere other here)
  · intro key digest known
    rw [cache] at known
    dsimp only at known
    rw [SortedMap.get?_insert] at known
    by_cases same : key = path.text
    · rw [if_pos (by simpa using same)] at known
      cases known
      exact ⟨by simp [Ledger.wrote, same], content, used, rfl, fun _ => by simp [Ledger.wrote, same]⟩
    · rw [if_neg (by simpa using same)] at known
      obtain ⟨noted, old, listed, digest, last⟩ := tracks.memory known
      refine ⟨by simpa [Ledger.wrote, same] using noted, old, listed, digest, fun current => ?_⟩
      have current : key ∉ l.abandoned := fun abandoned => current (mem_filter.mpr ⟨abandoned, by simpa using same⟩)
      simpa [Ledger.wrote, same] using last current
  · intro text held
    obtain ⟨digests, decoded, knows⟩ := tracks.kept (elsewhere (separate.apart path mem).symm held)
    refine ⟨digests, decoded, fun {key digest} known => ?_⟩
    obtain ⟨noted, old, listed, digest, last⟩ := knows known
    by_cases same : key = path.text
    · exact ⟨by simp [Ledger.wrote, same], old, listed, digest, fun current => (current (by simp [Ledger.wrote, same])).elim⟩
    · refine ⟨by simpa [Ledger.wrote, same] using noted, old, listed, digest, fun current => ?_⟩
      have current : key ∉ l.unsaved ++ l.abandoned := by
        intro stale
        apply current
        rcases mem_append.mp stale with unsaved | abandoned
        · exact mem_append_left _ (mem_cons_of_mem _ unsaved)
        · exact mem_append_right _ (mem_filter.mpr ⟨abandoned, by simpa using same⟩)
      simpa [Ledger.wrote, same] using last current

theorem write (mem : path ∈ paths)
    (used : content ∈ contents) :
    Tracks paths contents place (s.write path content).2 (l.note s (.write path content)) := by
  rw [Ledger.note_write]
  cases h : s.write path content with
  | mk result s' =>
    cases result with
    | error e =>
      obtain ⟨cache, failure, failed⟩ := write_error h
      have same := tracks.of_files s'.files fun {location held} =>
        ((FileTree.grown_writeDeep_error failed).item?_file location held).mp
      rw [← cache] at same
      exact same
    | ok isNew =>
      cases isNew with
      | false =>
        obtain ⟨rfl, -⟩ := write_ok_false h
        exact tracks
      | true => exact tracks.written separate mem used h

theorem save :
    Tracks paths contents place s.save.2 (l.note s .save) := by
  rw [Ledger.note_save]
  cases h : s.save with
  | mk result s' =>
    cases result with
    | error e =>
      obtain ⟨cache, failure, failed⟩ := put_error h
      have same := tracks.of_files s'.files fun {location held} =>
        ((FileTree.grown_writeDeep_error failed).item?_file location held).mp
      rw [← cache] at same
      exact same
    | ok done =>
      obtain ⟨cache, placed⟩ := put_ok h
      rw [tracks.path] at placed
      have files : s'.files = (s.files.writeDeep place (.text s.cache.document.pretty)).2 := by rw [placed]
      refine ⟨by rw [cache]; exact tracks.path, ?_, ?_, ?_⟩
      · intro p noted held inside last here
        rw [files] at here
        exact tracks.disk inside last ((FileTree.item?_writeDeep_file (separate.apart p inside)).mp here)
      · intro key digest known
        rw [cache] at known
        exact tracks.memory known
      · intro text held
        obtain ⟨middle, -, apart, -, put, -⟩ := writeDeep_ok placed
        rw [put, item?_put apart, if_pos rfl] at held
        cases held
        refine ⟨s.cache.digests, OutputCache.digestsOfText?_document s.cache, fun known => ?_⟩
        exact tracks.memory known

theorem perform
    (here : place = dir.join (OutputCache.fileName target)) {event : Event}
    (known : ∀ path content, event.written? = some (path, content) → path ∈ paths ∧ content ∈ contents) :
    Tracks paths contents place (perform dir target s event) (l.note s event) := by
  cases event with
  | reopen =>
    rw [perform_reopen]
    exact tracks.reopen here
  | write path content =>
    obtain ⟨mem, used⟩ := known path content rfl
    exact tracks.write separate mem used
  | save => exact tracks.save separate
  | delete path => exact tracks.delete path

end

end

theorem foldl (separate : Separate paths place) (here : place = dir.join (OutputCache.fileName target))
    (events : List Event) (tracks : Tracks paths contents place s l)
    (known : ∀ event ∈ events, ∀ path content, event.written? = some (path, content) →
      path ∈ paths ∧ content ∈ contents) :
    Tracks paths contents place (events.foldl (next dir target) (s, l)).1 (events.foldl (next dir target) (s, l)).2 := by
  induction events generalizing s l with
  | nil => exact tracks
  | cons event events ih =>
    rw [foldl_cons, next]
    apply ih
    · exact tracks.perform separate here (known event mem_cons_self)
    · intro later mem
      exact known later (mem_cons_of_mem _ mem)

theorem start {files : FileTree} (here : place = dir.join (OutputCache.fileName target))
    (fresh : ∀ content, files.item? place.location ≠ some (.file content)) :
    Tracks paths contents place (openCache files dir target) {} := by
  rw [here] at fresh ⊢
  refine ⟨path_openCache .., ?_, ?_, ?_⟩
  · intro p content held mem last
    cases last
  · intro key digest known
    obtain ⟨text, _, read, -⟩ := get?_openCache known
    exact (fresh _ (lookup_eq_ok.mp (readText_eq_ok.mp read)).2).elim
  · intro text held
    rcases files_openCache files dir target with same | removed
    · rw [same] at held
      exact (fresh _ held).elim
    · rw [removed] at held
      exact (fresh _ (item?_remove held)).elim

end Tracks

/-! ### What files hold -/

def writes (events : List Event) : List (Path × FileContent) := events.filterMap Event.written?

theorem tracks_run {files : FileTree} {dir : Path} (here : place = dir.join (OutputCache.fileName target))
    (fresh : ∀ content, files.item? place.location ≠ some (.file content)) (separate : Separate paths place)
    (known : ∀ write ∈ writes events, write.1 ∈ paths ∧ write.2 ∈ contents) :
    Tracks paths contents place (run files dir target events).1 (run files dir target events).2 := by
  have start : Tracks paths contents place (openCache files dir target) {} := .start here fresh
  rw [run]
  apply Tracks.foldl separate here events start
  intro event mem path content written
  exact known (path, content) (mem_filterMap.mpr ⟨event, mem, written⟩)

/-- What a file holds when it has been written to, or passed over.

A history is any sequence of writes, deletions, saves and openings of the cache over a tree that had no cache file. Each
file is written to by one path, and digests tell the contents apart. A write that reports success leaves the file with the
content that was written to it last. This is the content given, if the file was written now, and in any case unless the
last write was made with a cache that was abandoned. -/
theorem write_holds_unless_abandoned (files : FileTree) (dir : Path) (target : String) (events : List Event) (path : Path)
    (content : FileContent) (isNew : Bool)
    (fresh : ∀ held, files.item? (dir.join (OutputCache.fileName target)).location ≠ some (.file held))
    (addressed : ∀ p ∈ path :: (writes events).map (·.1), ∀ q ∈ path :: (writes events).map (·.1),
      p.location = q.location → p.text = q.text)
    (apart : ∀ p ∈ path :: (writes events).map (·.1), p.location ≠ (dir.join (OutputCache.fileName target)).location)
    (injective : ∀ c ∈ content :: (writes events).map (·.2), ∀ c' ∈ content :: (writes events).map (·.2),
      Sha256.digest c.bytes = Sha256.digest c'.bytes → c.bytes = c'.bytes)
    (done : ((run files dir target events).1.write path content).1 = .ok isNew) :
    ∃ held, ((run files dir target events).1.write path content).2.files.read path = .ok held ∧
      (run files dir target (events ++ [.write path content])).2.last path.text = some held ∧
      (isNew = true → held = content) ∧
      (path.text ∉ (run files dir target events).2.abandoned → held.bytes = content.bytes) := by
  have separate : Separate (path :: (writes events).map (·.1)) (dir.join (OutputCache.fileName target)) := ⟨addressed, apart⟩
  have known : ∀ write ∈ writes events, write.1 ∈ path :: (writes events).map (·.1) ∧
      write.2 ∈ content :: (writes events).map (·.2) := by
    intro write member
    exact ⟨mem_cons_of_mem _ (mem_map_of_mem member), mem_cons_of_mem _ (mem_map_of_mem member)⟩
  have tracks := tracks_run rfl fresh separate known
  have after : (run files dir target (events ++ [.write path content])).2 =
      (run files dir target events).2.note (run files dir target events).1 (.write path content) := by
    rw [run, foldl_append]
    rfl
  rw [after, Ledger.note_write]
  generalize (run files dir target events).1 = s at *
  generalize (run files dir target events).2 = l at *
  cases h : s.write path content with
  | mk result s' =>
    rw [h] at done
    cases done
    cases isNew with
    | true =>
      obtain ⟨-, placed⟩ := write_ok_true h
      obtain ⟨_, -, -, -, -, found⟩ := writeDeep_ok placed
      exact ⟨content, read_eq_ok.mpr found, if_pos rfl, fun _ => rfl, fun _ => rfl⟩
    | false =>
      obtain ⟨rfl, current⟩ := write_ok_false h
      obtain ⟨file, known⟩ := isCurrent_iff.mp current
      obtain ⟨held, found⟩ := FileTree.isFile_eq_true.mp file
      obtain ⟨noted, old, listed, digest, last⟩ := tracks.memory known
      obtain ⟨latest, noted⟩ := Option.isSome_iff_exists.mp noted
      have same := tracks.disk mem_cons_self noted (lookup_eq_ok.mp found).2
      have unchanged : l.last path.text = some held := by rw [noted, same]
      refine ⟨held, read_eq_ok.mpr found, unchanged, Bool.noConfusion, fun current => ?_⟩
      rw [last current, Option.some.injEq] at noted
      rw [same, ← noted]
      exact (injective content mem_cons_self old listed digest).symm

/-! ### Two histories of one file -/

def mainFile : Path := ⟨"/w/dist/main.js"⟩

def cacheFolder : Path := ⟨"/w/cache"⟩

def keptWrite : List Event := [.write mainFile (.text "a"), .save, .reopen]

/-- The file that was written is passed over when the same content is written again. -/
theorem kept_write_passed_over :
    ∃ held, ((run {} cacheFolder "app" keptWrite).1.write mainFile (.text "a")).2.files.read mainFile = .ok held ∧
      (run {} cacheFolder "app" (keptWrite ++ [.write mainFile (.text "a")])).2.last mainFile.text = some held ∧
      (false = true → held = .text "a") ∧
      (mainFile.text ∉ (run {} cacheFolder "app" keptWrite).2.abandoned → held.bytes = (FileContent.text "a").bytes) := by
  have written : writes keptWrite = [(mainFile, .text "a")] := rfl
  have place : (FileTree.item? {} (cacheFolder.join (OutputCache.fileName "app")).location).isNone = true := by decide
  have away : mainFile.location ≠ (cacheFolder.join (OutputCache.fileName "app")).location := by decide
  have passed : ((run {} cacheFolder "app" keptWrite).1.write mainFile (.text "a")).1.toOption = some false := by
    decide +kernel
  apply write_holds_unless_abandoned {} cacheFolder "app" keptWrite mainFile (.text "a") false
  · intro held found
    rw [found] at place
    cases place
  · rw [written]
    simp
  · rw [written]
    simpa using away
  · rw [written]
    simp
  · cases result : ((run {} cacheFolder "app" keptWrite).1.write mainFile (.text "a")).1 with
    | error e =>
      rw [result] at passed
      cases passed
    | ok isNew =>
      rw [result] at passed
      cases passed
      rfl

/-- A second write with a cache that is then opened anew without being kept. -/
def abandonedWrite : List Event :=
  [.write mainFile (.text "a"), .save, .write mainFile (.text "b"), .reopen]

/-- Writing the first content again succeeds and leaves the second one in the file. -/
theorem write_keeps_file_of_abandoned :
    ((run {} cacheFolder "app" abandonedWrite).1.write mainFile (.text "a")).1.toOption = some false ∧
    (((run {} cacheFolder "app" abandonedWrite).1.write mainFile (.text "a")).2.files.readText mainFile).toOption =
      some "b" := by
  decide +kernel

end ComponentCompiler.OutputState
