import ComponentCompiler.Files.Tree

/-!
Patterns for paths. In a pattern `**` as a whole segment stands for any number of directories.
-/

namespace ComponentCompiler.Glob

abbrev CharRange := Char × Char

inductive Token where
  | char (c : Char)
  | anyChar
  | anySequence
  | anyDirectories
  | oneOf (ranges : List CharRange)
  | noneOf (ranges : List CharRange)
deriving DecidableEq, Repr

abbrev Pattern := List Token

def ranges : List Char → List CharRange
  | a :: '-' :: b :: rest => (a, b) :: ranges rest
  | a :: rest => (a, a) :: ranges rest
  | [] => []

def closeBracket? : List Char → Option (List Char × List Char)
  | [] => none
  | first :: rest => (Chars.splitOnce? ']' rest).map fun (inner, after) => (first :: inner, after)

def bracket? : List Char → Option (Token × List Char)
  | '!' :: rest => (closeBracket? rest).map fun (inner, after) => (.noneOf (ranges inner), after)
  | rest => (closeBracket? rest).map fun (inner, after) => (.oneOf (ranges inner), after)

/-- Reads a pattern; `start` says whether a segment starts here, and the bound counts characters. -/
def readWithin : Nat → Bool → List Char → Option Pattern
  | _, _, [] => some []
  | 0, _, _ => none
  | fuel + 1, start, c :: rest =>
    match c with
    | '?' => (readWithin fuel false rest).map (.anyChar :: ·)
    | '*' =>
      match rest with
      | '*' :: '*' :: _ => none
      | '*' :: '/' :: rest => if start then (readWithin fuel true rest).map (.anyDirectories :: ·) else none
      | '*' :: rest => if start && rest.isEmpty then some [.anyDirectories] else none
      | _ => (readWithin fuel false rest).map (.anySequence :: ·)
    | '[' => do
      let (token, rest) ← bracket? rest
      return token :: (← readWithin fuel false rest)
    | c => (readWithin fuel (c == '/') rest).map (.char c :: ·)

def read? (text : List Char) : Option Pattern := readWithin text.length true text

def anySuffix (test : List Char → Bool) : List Char → Bool
  | [] => test []
  | c :: rest => test (c :: rest) || anySuffix test rest

def inRanges (ranges : List CharRange) (c : Char) : Bool := ranges.any fun (low, high) => low ≤ c && c ≤ high

def Token.accepts (c : Char) : Token → Bool
  | .char d => c == d
  | .anyChar => true
  | .oneOf ranges => inRanges ranges c
  | .noneOf ranges => !inRanges ranges c
  | .anySequence | .anyDirectories => false

def selects : Pattern → List Char → Bool
  | [], text => text.isEmpty
  | .anySequence :: tokens, text => anySuffix (selects tokens) text
  | .anyDirectories :: tokens, text => anySuffix (selects tokens) text
  | token :: tokens, c :: rest => token.accepts c && selects tokens rest
  | _ :: _, [] => false

def literal? (p : Pattern) : Option String :=
  (p.mapM fun (token : Token) =>
    match token with
    | .char c => some c
    | _ => none).map .ofList

def isRecursive (p : Pattern) : Bool := p.contains .anyDirectories

/-- A path that has been found, or one that is still to be matched with patterns for the segments from
its last one on. -/
inductive Task where
  | found (path : Path)
  | visit (path : Path) (patterns : List Pattern)

def enter (tree : FileTree) : List Pattern → Path → List Task
  | [], _ => []
  | p :: rest, dir =>
    let proceed (next : Path) : List Task := if rest.isEmpty then [.found next] else enter tree rest next
    match literal? p with
    | some name =>
      let next := dir.join name
      let known := if name == "." || name == ".." then tree.isDirectory dir else tree.pathExists next
      if known then proceed next else []
    | none =>
      match tree.locate dir with
      | .ok location =>
        if tree.hasDirectory location then
          let dotted := if p.head? = some (.char '.') then ["..", "."] else []
          (dotted.filter fun name => selects p name.toList).flatMap (fun name => proceed (dir.join name)) ++
            (tree.children location).map fun name => .visit (dir.join name) (p :: rest)
        else []
      | .error _ => []

def matchHere (tree : FileTree) (run : Task → List Path) (directoriesOnly : Bool) (path : Path) :
    List Pattern → List Path
  | [] => []
  | p :: rest =>
    match path.fileName? with
    | none => []
    | some name =>
      if !selects p name.toList then []
      else if !rest.isEmpty then (enter tree rest path).flatMap run
      else if directoriesOnly && !tree.isDirectory path then []
      else [path]

def run (tree : FileTree) (directoriesOnly : Bool) : Nat → Task → List Path
  | _, .found path => if directoriesOnly && !tree.isDirectory path then [] else [path]
  | 0, .visit _ _ => []
  | _, .visit _ [] => []
  | fuel + 1, .visit path (p :: rest) =>
    let again := run tree directoriesOnly fuel
    if isRecursive p then
      let rest := rest.dropWhile isRecursive
      if tree.isDirectory path then
        let below := (enter tree (p :: rest) path).flatMap again
        if rest.isEmpty then path :: below else matchHere tree again directoriesOnly path rest ++ below
      else matchHere tree again directoriesOnly path rest
    else matchHere tree again directoriesOnly path (p :: rest)

def paths? (tree : FileTree) (pattern : String) : Option (List Path) := do
  let _ ← read? pattern.toList
  let directoriesOnly := Text.endsWith "/" pattern
  let segments := (Text.splitOn '/' pattern).drop 1
  let segments := if directoriesOnly then segments.dropLast else segments
  let patterns ← segments.mapM fun segment => read? segment.toList
  let bound := (patterns.length + 1) * (tree.entries.size + 2)
  return (enter tree patterns ⟨"/"⟩).flatMap (run tree directoriesOnly bound)

end ComponentCompiler.Glob
