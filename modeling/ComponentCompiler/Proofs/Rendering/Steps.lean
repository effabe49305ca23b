import ComponentCompiler.Rendering.Render
import Mathlib.Data.List.Forall2

/-!
Rendering node by node: a node writes a piece of markup, what it contains, and its end. Main statements:
`nodesText?_cons`, and `nodesText?_induction` for what has been rendered.
-/

namespace ComponentCompiler

open List Option

theorem mapM_eq_some_iff {α β : Type} {f : α → Option β} {xs : List α} {ys : List β} :
    xs.mapM f = some ys ↔ Forall₂ (fun x y => f x = some y) xs ys := by
  induction xs generalizing ys with
  | nil => simp [eq_comm]
  | cons x more ih =>
    cases ys with
    | nil => simp [mapM_cons, bind_eq_some_iff]
    | cons y ys => simp [mapM_cons, bind_eq_some_iff, ih]

namespace Text

theorem toList_join (pieces) : (join "" pieces).toList = pieces.flatMap (·.toList) := by
  rw [join, String.toList_ofList, show "".toList = [] from rfl]
  induction pieces with
  | nil => rfl
  | cons piece more ih =>
    cases more with
    | nil => simp [Chars.join]
    | cons next more =>
      rw [flatMap_cons, ← ih]
      simp [Chars.join]

@[simp]
theorem join_nil : join "" [] = "" := rfl

@[simp]
theorem join_cons (piece) (pieces) : join "" (piece :: pieces) = piece ++ join "" pieces := by
  apply String.toList_injective
  simp [toList_join]

end Text

namespace Rendering

variable {bodies : TemplateBodies} {scope : Scope} {nodes : List TemplateNode}

inductive Piece where
  | opening (head : ElementHead) (scope : Scope)
  | closing (head : ElementHead)
  | text (parts : List TextPart) (scope : Scope)

def Piece.html : Piece → String
  | opening head scope => startTag scope head
  | closing head => endTag head.tag
  | text parts scope => escape (partsText scope parts)

def htmlOf (pieces : List Piece) : String := Text.join "" (pieces.map (·.html))

theorem htmlOf_append (a b) : htmlOf (a ++ b) = htmlOf a ++ htmlOf b := by
  apply String.toList_injective
  simp [htmlOf, Text.toList_join]

def opened (scope : Scope) : TemplateNode → List Piece
  | .element head _ _ => [.opening head scope]
  | .text parts => [.text parts scope]
  | _ => []

def closed : TemplateNode → List Piece
  | .element head _ _ => if isVoid head.tag then [] else [.closing head]
  | _ => []

/-- The nodes that are rendered for a node, each list of them with its scope. -/
def contents (bodies : TemplateBodies) (scope : Scope) : TemplateNode → List (List TemplateNode × Scope)
  | .element head children projected =>
    if isVoid head.tag then [] else [(children ++ projected.flatMap (·.nodes), scope)]
  | .text _ => []
  | .fragment children => [(children, scope)]
  | .placeholder p => expansions bodies p scope
  | .slot _ fallback => [(fallback, scope)]

/-- The text of a first node and of those after it, where the text of other nodes is known. -/
def textWith? (text? : Scope → List TemplateNode → Option String) (bodies : TemplateBodies) (scope : Scope) (node : TemplateNode)
    (rest : List TemplateNode) : Option String := do
  let inner ← (contents bodies scope node).mapM fun part => text? part.2 part.1
  let after ← text? scope rest
  return htmlOf (opened scope node) ++ Text.join "" inner ++ htmlOf (closed node) ++ after

theorem nodesText?_cons (node) (rest) :
    nodesText? bodies scope (node :: rest) = textWith? (nodesText? bodies) bodies scope node rest := by
  cases node
  case element head children projected =>
    by_cases void : isVoid head.tag <;>
      simp [nodesText?, textWith?, opened, closed, contents, htmlOf, Piece.html, bind_assoc, void]
  all_goals simp [nodesText?, textWith?, opened, closed, contents, htmlOf, Piece.html, bind_assoc]

theorem nodesText?_induction {P : Scope → List TemplateNode → String → Prop} (nil : ∀ scope, P scope [] "")
    (cons : ∀ scope node rest inner after,
      Forall₂ (fun part content => P part.2 part.1 content) (contents bodies scope node) inner → P scope rest after →
      P scope (node :: rest) (htmlOf (opened scope node) ++ Text.join "" inner ++ htmlOf (closed node) ++ after))
    (ends : nodesText? bodies scope nodes = some html) : P scope nodes html := by
  apply nodesText?.partial_correctness bodies P ?_ scope nodes html ends
  intro text? each scope nodes html ends
  cases nodes with
  | nil => exact some.inj ends ▸ nil scope
  | cons node rest =>
    have shape : textWith? text? bodies scope node rest = some html := by
      rw [← ends]
      cases node
      case element head children projected =>
        by_cases void : isVoid head.tag <;>
          simp [textWith?, opened, closed, contents, htmlOf, Piece.html, bind_assoc, void]
      all_goals simp [textWith?, opened, closed, contents, htmlOf, Piece.html, bind_assoc]
    obtain ⟨inner, inside, ends⟩ := bind_eq_some_iff.mp shape
    obtain ⟨after, later, same⟩ := bind_eq_some_iff.mp ends
    obtain rfl := some.inj same
    refine cons scope node rest inner after ?_ (each scope rest after later)
    exact (mapM_eq_some_iff.mp inside).imp fun part content ends => each part.2 part.1 content ends

theorem isSome_mapM_iff {α β : Type} {f : α → Option β} {xs : List α} : (xs.mapM f).isSome ↔ ∀ x ∈ xs, (f x).isSome := by
  induction xs with
  | nil => simp
  | cons x more ih => cases found : f x <;> simp [mapM_cons, ← ih, found, isSome_bind]

theorem isSome_nodesText?_iff : (nodesText? bodies scope nodes).isSome ↔
    ∀ node ∈ nodes, ∀ part ∈ contents bodies scope node, (nodesText? bodies part.2 part.1).isSome := by
  induction nodes with
  | nil => simp [nodesText?]
  | cons node rest ih =>
    rw [nodesText?_cons, textWith?, forall_mem_cons, ← ih, ← isSome_mapM_iff]
    cases (contents bodies scope node).mapM fun part => nodesText? bodies part.2 part.1 <;>
      cases nodesText? bodies scope rest <;> simp

end Rendering

end ComponentCompiler
