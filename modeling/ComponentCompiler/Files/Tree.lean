import ComponentCompiler.Collection.SortedMap
import ComponentCompiler.Files.Path

/-!
A tree of files. Files and directories are listed by their location, the names on the way from the
root.
-/

namespace ComponentCompiler

inductive FileContent where
  | text (value : String)
  | binary (bytes : ByteArray)

namespace FileContent

def ofBytes (bytes : ByteArray) : FileContent :=
  match String.fromUTF8? bytes with
  | some value => .text value
  | none => .binary bytes

def bytes : FileContent → List UInt8
  | .text value => value.toUTF8.toList
  | .binary bytes => bytes.toList

end FileContent

inductive FileEntry where
  | file (content : FileContent)
  | directory

inductive FileError where
  | notFound
  | notDirectory
  | isDirectory
  | alreadyExists
  | nameTooLong
  | zeroByte
  | notText
deriving DecidableEq, Repr

def FileError.message : FileError → String
  | .notFound => "No such file or directory (os error 2)"
  | .notDirectory => "Not a directory (os error 20)"
  | .isDirectory => "Is a directory (os error 21)"
  | .alreadyExists => "File exists (os error 17)"
  | .nameTooLong => "File name too long (os error 36)"
  | .zeroByte => "file name contained an unexpected NUL byte"
  | .notText => "stream did not contain valid UTF-8"

abbrev Location := List String

structure FileTree where
  entries : SortedMap Location FileEntry := ∅
deriving Inhabited

namespace FileTree

def empty : FileTree := {}

variable (tree : FileTree) (location : Location)

def item? : Option FileEntry :=
  if location.isEmpty then some .directory else tree.entries.get? location

def hasDirectory : Bool :=
  match tree.item? location with
  | some .directory => true
  | _ => false

def maxNameSize : Nat := 255

def isTooLong (name : String) : Bool := maxNameSize < name.utf8ByteSize

def step (segment : String) : Except FileError Location :=
  if !tree.hasDirectory location then .error .notDirectory
  else if Path.isTrivial segment then .ok location
  else if segment == ".." then .ok location.dropLast
  else if isTooLong segment then .error .nameTooLong
  else if (tree.item? (location ++ [segment])).isSome then .ok (location ++ [segment])
  else .error .notFound

def follow (tree : FileTree) : Location → List String → Except FileError Location
  | location, [] => .ok location
  | location, segment :: rest => do
    let next ← tree.step location segment
    follow tree next rest

variable (p : Path)

def segments? : Except FileError (List String) :=
  if p.text.toList.contains '\x00' then .error .zeroByte
  else if p.isAbsolute then .ok p.body
  else .error .notFound

def locate : Except FileError Location := do
  tree.follow [] (← segments? p)

def lookup : Except FileError FileEntry := do
  match tree.item? (← tree.locate p) with
  | some entry => .ok entry
  | none => .error .notFound

def pathExists : Bool := (tree.lookup p).toBool

def isFile : Bool :=
  match tree.lookup p with
  | .ok (.file _) => true
  | _ => false

def isDirectory : Bool :=
  match tree.lookup p with
  | .ok .directory => true
  | _ => false

def read : Except FileError FileContent := do
  match ← tree.lookup p with
  | .file content => .ok content
  | .directory => .error .isDirectory

def readText : Except FileError String := do
  match ← tree.read p with
  | .text value => .ok value
  | .binary _ => .error .notText

def put (entry : FileEntry) : FileTree :=
  ⟨tree.entries.insert location entry⟩

def dropSeparators (segments : List String) : List String := (segments.reverse.dropWhile (·.isEmpty)).reverse

/-- Where a new entry goes: the directory it is in, and its name. The root and a path that ends in a dot
or in a parent step name no new entry. -/
def newPlace : Except FileError (Option (Location × String)) := do
  let segments := dropSeparators (← segments? p)
  match segments.getLast? with
  | none => .ok none
  | some name =>
    let dir ← tree.follow [] segments.dropLast
    if !tree.hasDirectory dir then .error .notDirectory
    else if name == "." || name == ".." then .ok none
    else .ok (some (dir, name))

def write (content : FileContent) : Except FileError FileTree := do
  match ← tree.newPlace p with
  | none => .error .isDirectory
  | some (dir, name) =>
    if Text.endsWith "/" p.text then .error .isDirectory
    else if isTooLong name then .error .nameTooLong
    else if tree.hasDirectory (dir ++ [name]) then .error .isDirectory
    else .ok (tree.put (dir ++ [name]) (.file content))

def makeDirectory : Except FileError FileTree := do
  match ← tree.newPlace p with
  | none => .error .alreadyExists
  | some (dir, name) =>
    if isTooLong name then .error .nameTooLong
    else if (tree.item? (dir ++ [name])).isSome then .error .alreadyExists
    else .ok (tree.put (dir ++ [name]) .directory)

/-- An attempt at a change: how it ended, and the tree after it. A failure may leave directories behind. -/
abbrev Attempt (ε : Type) := Except ε Unit × FileTree

def ensureDirectory : Attempt FileError :=
  match tree.makeDirectory p with
  | .ok tree => (.ok (), tree)
  | .error cause => (if tree.isDirectory p then .ok () else .error cause, tree)

def makeDirectoriesWithin : Nat → FileTree → Path → Attempt FileError
  | 0, tree, p => tree.ensureDirectory p
  | fuel + 1, tree, p =>
    if p.text.isEmpty then (.ok (), tree)
    else
      match tree.makeDirectory p, p.parent? with
      | .error .notFound, some parent =>
        match makeDirectoriesWithin fuel tree parent with
        | (.ok _, tree) => tree.ensureDirectory p
        | failed => failed
      | _, _ => tree.ensureDirectory p

def makeDirectories : Attempt FileError :=
  makeDirectoriesWithin p.components.length tree p

structure FileFailure where
  path : Path
  cause : FileError
deriving Repr

def makeParents : Attempt FileFailure :=
  match p.parent? with
  | none => (.ok (), tree)
  | some parent =>
    let (result, tree) := tree.makeDirectories parent
    (result.mapError (⟨parent, ·⟩), tree)

def writeDeep (content : FileContent) : Attempt FileFailure :=
  match tree.makeParents p with
  | (.ok _, tree) =>
    match tree.write p content with
    | .ok tree => (.ok (), tree)
    | .error cause => (.error ⟨p, cause⟩, tree)
  | failed => failed

def removeLocation : FileTree :=
  ⟨tree.entries.filter fun other _ => !location.isPrefixOf other⟩

def remove : FileTree :=
  match tree.locate p with
  | .ok location => tree.removeLocation location
  | .error _ => tree

def children : List String :=
  tree.entries.keys.filterMap fun other =>
    if other.dropLast == location then other.getLast? else none

def filesBelow : List (Location × FileContent) :=
  tree.entries.toList.filterMap fun (other, entry) =>
    match entry with
    | .file content => if location.isPrefixOf other then some (other, content) else none
    | .directory => none

end FileTree

end ComponentCompiler
