import ComponentCompiler.Text.Basic

/-! Paths of files. A path is a text; what it names is the list of its components. -/

namespace ComponentCompiler

inductive PathComponent where
  | root
  | here
  | up
  | name (text : String)
deriving DecidableEq, Repr

namespace PathComponent

def rank : PathComponent → Nat
  | .root => 0
  | .here => 1
  | .up => 2
  | .name _ => 3

def text : PathComponent → String
  | .root => "/"
  | .here => "."
  | .up => ".."
  | .name text => text

instance : Ord PathComponent := ⟨compareLex (compareOn rank) (compareOn text)⟩

instance : Std.TransOrd PathComponent :=
  inferInstanceAs (Std.TransCmp (compareLex (compareOn rank) (compareOn text)))

end PathComponent

structure Path where
  text : String
deriving Repr, Inhabited

namespace Path

variable (p : Path)

def isAbsolute : Bool := Text.startsWith "/" p.text

def isTrivial (segment : String) : Bool := segment == "" || segment == "."

def componentOf (segment : String) : PathComponent := if segment == ".." then .up else .name segment

def lead : Option PathComponent :=
  if p.isAbsolute then some .root
  else if (Text.splitOn '/' p.text).head? == some "." then some .here
  else none

def body : List String :=
  match p.lead with
  | some _ => (Text.splitOn '/' p.text).drop 1
  | none => Text.splitOn '/' p.text

def components : List PathComponent :=
  p.lead.toList ++ (p.body.filter fun segment => !isTrivial segment).map componentOf

instance : Ord Path := ⟨compareOn components⟩

instance : Std.TransOrd Path := inferInstanceAs (Std.TransCmp (compareOn components))

instance : BEq Path := ⟨fun a b => a.components == b.components⟩

def assemble (lead : Option PathComponent) (segments : List String) : Path :=
  match lead with
  | some .root => ⟨"/" ++ Text.join "/" segments⟩
  | some c => ⟨Text.join "/" (c.text :: segments)⟩
  | none => ⟨Text.join "/" segments⟩

def join (dir : Path) (relative : String) : Path :=
  if (⟨relative⟩ : Path).isAbsolute then ⟨relative⟩
  else if dir.text.isEmpty || Text.endsWith "/" dir.text then ⟨dir.text ++ relative⟩
  else ⟨dir.text ++ "/" ++ relative⟩

def dropTrivialEnd (segments : List String) : List String :=
  (segments.reverse.dropWhile isTrivial).reverse

def parent? : Option Path :=
  match dropTrivialEnd p.body with
  | [] =>
    match p.lead with
    | some .here => some ⟨""⟩
    | _ => none
  | segments => some (assemble p.lead (dropTrivialEnd segments.dropLast))

def fileName? : Option String :=
  match p.components.getLast? with
  | some (.name text) => some text
  | _ => none

def fileStem? : Option String :=
  p.fileName?.map fun name =>
    let before := ((name.toList.reverse.dropWhile (· != '.')).drop 1).reverse
    if before.isEmpty then name else .ofList before

def isBelow (p dir : Path) : Bool := dir.components.isPrefixOf p.components

def stepUp : List PathComponent → List PathComponent
  | [] => [.up]
  | [.root] => [.root, .up]
  | cs => cs.dropLast

def cleanStep (done : List PathComponent) : PathComponent → List PathComponent
  | .here => done
  | .up => stepUp done
  | c => done ++ [c]

def cleanComponents (cs : List PathComponent) : List PathComponent := cs.foldl cleanStep []

def ofComponents : List PathComponent → Path
  | .root :: rest => ⟨"/" ++ Text.join "/" (rest.map (·.text))⟩
  | cs => ⟨Text.join "/" (cs.map (·.text))⟩

def clean : Path := ofComponents (cleanComponents p.components)

def key : String := Text.replaceAll "\\" "/" p.text

end Path

end ComponentCompiler
