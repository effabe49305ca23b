import ComponentCompiler.Collection.Sort
import ComponentCompiler.Text.Basic

/-!
Edits of a text: ranges with the text that takes their place. An edit that starts inside what an
earlier one replaced is left out.
-/

namespace ComponentCompiler

def Chars.dropBytes : Nat → List Char → List Char
  | 0, text => text
  | _ + 1, [] => []
  | bytes + 1, c :: rest => Chars.dropBytes (bytes + 1 - c.utf8Size) rest

def Chars.takeBytes : Nat → List Char → List Char
  | 0, _ => []
  | _ + 1, [] => []
  | bytes + 1, c :: rest => c :: Chars.takeBytes (bytes + 1 - c.utf8Size) rest

structure Edit where
  span : Span
  text : String
deriving DecidableEq, Repr

namespace Edit

def removal (span : Span) : Edit := ⟨span, ""⟩

def insertion (offset : Nat) (text : String) : Edit := ⟨⟨offset, offset⟩, text⟩

def le (a b : Edit) : Bool :=
  a.span.start < b.span.start || (a.span.start == b.span.start && a.span.stop ≤ b.span.stop)

def applyFrom (offset : Nat) (text : List Char) : List Edit → List Char
  | [] => text
  | edit :: rest =>
    if edit.span.start < offset then applyFrom offset text rest
    else
      let before := edit.span.start - offset
      let replaced := edit.span.stop - offset
      Chars.takeBytes before text ++ edit.text.toList ++
        applyFrom edit.span.stop (Chars.dropBytes replaced text) rest

def applyAll (edits : List Edit) (text : String) : String :=
  .ofList (applyFrom 0 text.toList (sortBy le edits))

end Edit

end ComponentCompiler
