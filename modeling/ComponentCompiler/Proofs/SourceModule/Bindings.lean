import ComponentCompiler.Proofs.SourceModule.Extract
import Mathlib.Data.List.Perm.Basic

/-!
The names that a module binds at its top level and the names that it exports. Main statement:
`extract_takes_plain_names`.
-/

namespace ComponentCompiler

open List

namespace Script

def declaratorPatternNames : Node → List String
  | .mk .declarator _ (.mk (.binding _) _ _ :: _) => []
  | declarator => boundNames declarator

def patternNames : Node → List String
  | .mk (.declaration _) _ declarators => declarators.flatMap declaratorPatternNames
  | .mk (.function _) _ _ => []
  | .mk (.classNode _) _ _ => []
  | phrase => boundNames phrase

def exportedPatternNames : Node → List String
  | .mk .exportDeclaration _ [inner] => patternNames inner
  | _ => []

def topLevelPatternNames : Node → List String
  | .mk .exportDeclaration _ [inner] => patternNames inner
  | statement => patternNames statement

namespace Program

variable (program : Program)

def names (declared : Node → List String) : List String :=
  program.body.flatMap (topLevelNames declared)

def patternNames : List String := program.body.flatMap topLevelPatternNames

def exports (declared : Node → List String) : List ExportEntry :=
  program.body.flatMap (exportEntries declared)

def exportedPatternNames : List String := program.body.flatMap Script.exportedPatternNames

end Program

end Script

namespace SourceModule

open Script

theorem declaredNames_declaration (keyword) (span) (declarators) :
    declaredNames (.mk (.declaration keyword) span declarators) = declarators.filterMap plainName? := rfl

theorem boundNamesOf_eq_flatMap (nodes) : boundNamesOf nodes = nodes.flatMap boundNames := by
  induction nodes with
  | nil => rfl
  | cons node rest ih => rw [boundNamesOf, ih, flatMap_cons]

theorem boundNames_declarator (declarator) :
    boundNames declarator = (plainName? declarator).toList ++ declaratorPatternNames declarator := by
  unfold plainName?
  split
  · simp [boundNames, declaratorPatternNames]
  · rename_i pattern
    rw [declaratorPatternNames]
    · rfl
    · exact pattern

theorem boundNames_perm (phrase) : (boundNames phrase).Perm (declaredNames phrase ++ patternNames phrase) := by
  obtain ⟨label, span, parts⟩ := phrase
  cases label with
  | declaration keyword =>
    rw [boundNames, boundNamesOf_eq_flatMap, declaredNames_declaration, filterMap_eq_flatMap_toList,
      funext boundNames_declarator]
    exact (flatMap_append_perm ..).symm
  | function name | classNode name => cases name <;> simp [boundNames, declaredNames, patternNames]
  | _ => exact Perm.refl _

theorem topLevelNames_perm (statement) : (topLevelNames boundNames statement).Perm
    (topLevelNames declaredNames statement ++ topLevelPatternNames statement) := by
  obtain ⟨label, span, parts⟩ := statement
  cases label with
  | importFrom specifiers source => exact Perm.of_eq (append_nil _).symm
  | exportDeclaration =>
    match parts with
    | [inner] => exact boundNames_perm inner
    | [] | _ :: _ :: _ => exact Perm.refl _
  | exportDefault =>
    match parts with
    | [value] => exact Perm.of_eq (append_nil _).symm
    | [] | _ :: _ :: _ => exact Perm.refl _
  | _ => exact boundNames_perm _

theorem exportEntries_perm (statement) : (exportEntries boundNames statement).Perm
    (exportEntries declaredNames statement ++ (exportedPatternNames statement).map .own) := by
  obtain ⟨label, span, parts⟩ := statement
  cases label with
  | exportDeclaration =>
    match parts with
    | [inner] =>
      have both := (boundNames_perm inner).map ExportEntry.own
      rwa [map_append] at both
    | [] | _ :: _ :: _ => exact Perm.refl _
  | exportDefault =>
    match parts with
    | [] | [_] | _ :: _ :: _ => exact Perm.refl _
  | _ => exact Perm.of_eq (append_nil _).symm

theorem names_perm (program : Program) :
    (program.names boundNames).Perm (program.names declaredNames ++ program.patternNames) :=
  (Perm.flatMap_left _ fun statement _ => topLevelNames_perm statement).trans (flatMap_append_perm ..).symm

theorem exports_perm (program : Program) : (program.exports boundNames).Perm
    (program.exports declaredNames ++ program.exportedPatternNames.map .own) := by
  rw [Program.exportedPatternNames, map_flatMap]
  exact (Perm.flatMap_left _ fun statement _ => exportEntries_perm statement).trans
    (flatMap_append_perm ..).symm

/-- Of a module that can be parsed, extraction takes in the names that are bound outside patterns and the exports
other than those of declared patterns, in the order of the source. It fails exactly if one of these names is bound
twice, and names it. All names and exports that are missing are those of patterns. -/
theorem extract_takes_plain_names {source : String} {program : Program} (parsed : parseModule source = .ok program)
    (file : String) :
    (match extract source file with
    | .ok m => (program.names declaredNames).Nodup ∧
        (∀ name, m.declarations.contains name = true ↔ name ∈ program.names declaredNames) ∧
        m.entries = program.exports declaredNames
    | .error d => d.code = .duplicateDeclaration ∧ d.file = file ∧
        ∃ name, d.identifier = some name ∧ Duplicate name (program.names declaredNames)) ∧
    (program.names boundNames).Perm (program.names declaredNames ++ program.patternNames) ∧
    (program.exports boundNames).Perm (program.exports declaredNames ++ program.exportedPatternNames.map .own) := by
  refine ⟨?_, names_perm program, exports_perm program⟩
  have all := adds_extract parsed file
  revert all
  cases extract source file with
  | error d =>
    rintro ⟨code, same, name, identifier, ⟨declared, -⟩ | twice⟩
    · exact absurd declared (not_declares_empty source file name)
    · exact ⟨code, same, name, identifier, twice⟩
  | ok m =>
    intro all
    refine ⟨all.nodup, fun name => ?_, all.entries (sound_empty source file)⟩
    rw [show m.declarations.contains name = true ↔ _ from all.declares name]
    exact or_iff_right (not_declares_empty source file name)

def mixedSource : String := "export function open() {}\nlet count = 0;\nexport const { close } = open;\n"

theorem mixed_names_taken : ∃ program, parseModule mixedSource = .ok program ∧
    (match extract mixedSource "m.js" with
    | .ok m => (program.names declaredNames).Nodup ∧
        (∀ name, m.declarations.contains name = true ↔ name ∈ program.names declaredNames) ∧
        m.entries = program.exports declaredNames
    | .error d => d.code = .duplicateDeclaration ∧ d.file = "m.js" ∧
        ∃ name, d.identifier = some name ∧ Duplicate name (program.names declaredNames)) ∧
    (program.names boundNames).Perm (program.names declaredNames ++ program.patternNames) ∧
    (program.exports boundNames).Perm (program.exports declaredNames ++ program.exportedPatternNames.map .own) := by
  have accepted : (parseModule mixedSource).isOk = true := by decide +kernel
  cases parsed : parseModule mixedSource with
  | error cause =>
    rw [parsed] at accepted
    cases accepted
  | ok program => exact ⟨program, rfl, extract_takes_plain_names parsed "m.js"⟩

/-- An exported pattern binds and exports a name, and nothing of it is in the surface. -/
theorem exported_pattern_passed_over :
    (parseModule "export const { d } = y;\n").toOption.map (fun program =>
        (program.names boundNames, program.exports boundNames)) = some (["d"], [.own "d"]) ∧
      (extract "export const { d } = y;\n" "m.js").toOption.map (fun m =>
        (SortedSet.toList m.declarations, m.entries)) = some ([], []) := by
  decide +kernel

end SourceModule

end ComponentCompiler
