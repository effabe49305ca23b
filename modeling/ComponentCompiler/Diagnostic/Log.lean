import ComponentCompiler.Diagnostic.Basic

/-! The log of a build: its diagnostics by file, each at most once. -/

namespace ComponentCompiler

/-- Diagnostics by file; files are listed in order, diagnostics of a file as they were reported. -/
structure DiagnosticLog where
  entries : SortedMap String (List Diagnostic) := ∅

namespace DiagnosticLog

def empty : DiagnosticLog := {}

instance : EmptyCollection DiagnosticLog := ⟨empty⟩

variable (log : DiagnosticLog)

def forFile (file : String) : List Diagnostic := (log.entries.get? file).getD []

def push (d : Diagnostic) : DiagnosticLog :=
  let bucket := log.forFile d.file
  if bucket.contains d then log else ⟨log.entries.insert d.file (bucket ++ [d])⟩

def extend (ds : List Diagnostic) : DiagnosticLog := ds.foldl push log

def clearFile (file : String) : DiagnosticLog := ⟨log.entries.erase file⟩

def without (codes : List DiagnosticCode) (bucket : List Diagnostic) : List Diagnostic :=
  bucket.filter fun d => !codes.contains d.code

def clearCodes (codes : List DiagnosticCode) : DiagnosticLog :=
  ⟨(log.entries.map fun _ bucket => without codes bucket).filter fun _ bucket => !bucket.isEmpty⟩

def clearFileCodes (file : String) (codes : List DiagnosticCode) : DiagnosticLog :=
  match log.entries.get? file with
  | none => log
  | some bucket =>
    let kept := without codes bucket
    if kept.isEmpty then log.clearFile file else ⟨log.entries.insert file kept⟩

def toList : List Diagnostic := log.entries.values.flatten

def hasCode (code : DiagnosticCode) : Bool := log.toList.any (·.code == code)

def size : Nat := log.toList.length

def isEmpty : Bool := log.entries.isEmpty

end DiagnosticLog

end ComponentCompiler
