import ComponentCompiler.Digest.Sha256
import ComponentCompiler.Project.Manifest

/-!
The output of a target: files that are written only when their content is new, by the digests of
what was written last.
-/

namespace ComponentCompiler

structure OutputCache where
  path : Path
  digests : SortedMap String String := ∅

namespace OutputCache

def folder : String := ".loom/cache"

def fileName (target : String) : String :=
  .ofList (target.toList.map fun c => if c == '/' || c == '\\' || c == ':' then '_' else c) ++ ".json"

def document (cache : OutputCache) : Json :=
  .obj [("hashes", .obj (cache.digests.toList.map fun (path, digest) => (path, .str digest)))]

def shape : Shape := .flat ["hashes"]

def digestsOfDocument? (document : Json) : Option (SortedMap String String) := do
  let r ← JsonRecord.of? shape document
  r.required "hashes" (Decoder.map Decoder.string)

def digestsOfText? (text : String) : Option (SortedMap String String) :=
  Json.decode? shape digestsOfDocument? text

end OutputCache

structure OutputState where
  cache : OutputCache
  files : FileTree

namespace OutputState

def openCache (files : FileTree) (dir : Path) (target : String) : OutputState :=
  let path := dir.join (OutputCache.fileName target)
  match files.readText path with
  | .error _ => ⟨{ path := path }, files⟩
  | .ok text =>
    match OutputCache.digestsOfText? text with
    | some digests => ⟨{ path := path, digests := digests }, files⟩
    | none => ⟨{ path := path }, files.remove path⟩

variable (s : OutputState)

def isCurrent (path : Path) (digest : String) : Bool :=
  s.files.isFile path && s.cache.digests.get? path.text == some digest

def record (path : Path) (digest : String) : OutputState :=
  { s with cache := { s.cache with digests := s.cache.digests.insert path.text digest } }

def put (path : Path) (content : FileContent) : Except BuildError Unit × OutputState :=
  let (result, files) := s.files.writeDeep path content
  (result.mapError fun failure => .fileFailure failure.path failure.cause, { s with files := files })

def write (path : Path) (content : FileContent) : Except BuildError Bool × OutputState :=
  let digest := Sha256.digest content.bytes
  if s.isCurrent path digest then (.ok false, s)
  else
    match s.put path content with
    | (.ok _, s) => (.ok true, s.record path digest)
    | (.error e, s) => (.error e, s)

def save : Except BuildError Unit × OutputState :=
  s.put s.cache.path (.text s.cache.document.pretty)

end OutputState

abbrev Output := ExceptT BuildError (StateM OutputState)

namespace Output

def write (path : Path) (content : FileContent) : Output Bool := fun s => s.write path content

def save : Output Unit := fun s => s.save

def files : Output FileTree := do return (← get).files

def writeAll (dir : Path) : List (String × String) → Output (List String)
  | [] => return []
  | (name, text) :: rest => do
    let isNew ← write (dir.join name) (.text text)
    let written ← writeAll dir rest
    return if isNew then name :: written else written

end Output

end ComponentCompiler
