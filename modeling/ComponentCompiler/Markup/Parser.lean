import ComponentCompiler.Html.Parser
import ComponentCompiler.Markup.Normalize

/-! Parsing of template markup. Main definition: `Markup.parse?`. -/

namespace ComponentCompiler

inductive MarkupNode where
  | element (tag : String) (attributes : List (String × String)) (children : List MarkupNode)
  | text (value : String)
deriving Repr

end ComponentCompiler

namespace ComponentCompiler.Markup

def placeholder? (text : List Char) : Option (Nat × List Char) :=
  (Chars.dropPrefix? "__LOOM_EXPR_".toList text).bind fun rest =>
    let digits := rest.takeWhile Chars.isDecimalDigit
    if !digits.isEmpty && Chars.startsWith ['_', '_'] (rest.drop digits.length) then
      some (14 + digits.length, digits)
    else none

def expressionFor? (expressions : List (List Char)) (digits : List Char) : Option (List Char) :=
  let n := digitsToNat digits
  if digits = (toString n).toList then expressions[n]? else none

def restoreFrom (expressions : List (List Char)) : Nat → List Char → List Char
  | _, [] => []
  | skip + 1, _ :: rest => restoreFrom expressions skip rest
  | 0, c :: rest =>
    match placeholder? (c :: rest) with
    | some (length, digits) =>
      let restored := (expressionFor? expressions digits).getD ((c :: rest).take length)
      restored ++ restoreFrom expressions (length - 1) rest
    | none => c :: restoreFrom expressions 0 rest

def restore (n : Normalized) (text : String) : String :=
  .ofList (restoreFrom n.expressions 0 text.toList)

def restoreName (n : Normalized) (name : String) : String :=
  match (List.range n.names.length).find? fun i => attributePlaceholder i == name.toList with
  | some i => .ofList (n.names.getD i [])
  | none => name

def isFormatting (text : String) : Bool := Text.isBlank text && Text.containsChar '\n' text

def addText (done : List MarkupNode) (text : String) : List MarkupNode :=
  match done with
  | .text before :: rest => .text (before ++ text) :: rest
  | done => .text text :: done

def addNode (n : Normalized) (d : Html.Document) : Nat → List MarkupNode → Html.NodeId → List MarkupNode
  | 0, done, _ => done
  | fuel + 1, done, id =>
    match (d.node id).data with
    | .root => (d.children id).foldl (addNode n d fuel) done
    | .comment => done
    | .text value => if isFormatting value then done else addText done (restore n value)
    | .element _ "script" _ _ => done
    | .element _ name attributes contents =>
      let children := (d.children (contents.getD id)).foldl (addNode n d fuel) []
      let attributes := attributes.map fun a => (restoreName n a.name, restore n a.value)
      .element name attributes children.reverse :: done

def addContent (n : Normalized) (d : Html.Document) : Nat → List MarkupNode → Html.NodeId → List MarkupNode
  | 0, done, _ => done
  | fuel + 1, done, id =>
    (d.children id).foldl (fun done child =>
      match (d.node child).data with
      | .element _ "html" _ _ | .element _ "head" _ _ | .element _ "body" _ _ =>
        addContent n d fuel done child
      | _ => addNode n d (d.nodes.length + 1) done child) done

def parse? (markup : String) : Option (List MarkupNode) :=
  (normalize? markup.toList).map fun n =>
    let d := Html.parse n.html
    (addContent n d (d.nodes.length + 1) [] Html.Document.root).reverse

end ComponentCompiler.Markup
