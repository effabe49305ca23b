import ComponentCompiler.Html.Token

/-!
Documents under construction. The nodes of a document are numbered in the order they are made.
-/

namespace ComponentCompiler.Html

abbrev NodeId := Nat

inductive Namespace where
  | html
  | svg
  | mathml
deriving DecidableEq, Repr

inductive NodeData where
  | root
  | element (namespace' : Namespace) (name : String) (attributes : List Attribute) (contents : Option NodeId)
  | text (value : String)
  | comment
deriving Repr, Inhabited

structure NodeRecord where
  data : NodeData
  children : List NodeId := []
  parent : Option NodeId := none
deriving Repr, Inhabited

structure Document where
  nodes : List NodeRecord

namespace Document

def root : NodeId := 0

def empty : Document := ⟨[{ data := .root }]⟩

variable (d : Document)

def node (id : NodeId) : NodeRecord := d.nodes.getD id default

def children (id : NodeId) : List NodeId := (d.node id).children

def update (id : NodeId) (f : NodeRecord → NodeRecord) : Document :=
  ⟨d.nodes.modify id f⟩

def create (data : NodeData) : Document × NodeId :=
  (⟨d.nodes ++ [{ data := data }]⟩, d.nodes.length)

def detach (id : NodeId) : Document :=
  match (d.node id).parent with
  | none => d
  | some parent =>
    (d.update parent fun r => { r with children := r.children.filter (· != id) }).update id
      fun r => { r with parent := none }

def append (parent id : NodeId) : Document :=
  ((d.detach id).update parent fun r => { r with children := r.children ++ [id] }).update id
    fun r => { r with parent := some parent }

def putBefore (sibling id : NodeId) : List NodeId → List NodeId
  | [] => [id]
  | c :: rest => if c = sibling then id :: c :: rest else c :: putBefore sibling id rest

def insertBefore (parent sibling id : NodeId) : Document :=
  ((d.detach id).update parent fun r => { r with children := putBefore sibling id r.children }).update id
    fun r => { r with parent := some parent }

def extendText? (id : Option NodeId) (text : String) : Option Document :=
  id.bind fun id =>
    match (d.node id).data with
    | .text value => some (d.update id fun r => { r with data := .text (value ++ text) })
    | _ => none

def appendText (parent : NodeId) (text : String) : Document :=
  match d.extendText? (d.children parent).getLast? text with
  | some d => d
  | none =>
    let (d, id) := d.create (.text text)
    d.append parent id

def previousOf (sibling : NodeId) : List NodeId → Option NodeId
  | a :: b :: rest => if b = sibling then some a else previousOf sibling (b :: rest)
  | _ => none

def insertTextBefore (parent sibling : NodeId) (text : String) : Document :=
  match d.extendText? (previousOf sibling (d.children parent)) text with
  | some d => d
  | none =>
    let (d, id) := d.create (.text text)
    d.insertBefore parent sibling id

def moveChildren (source target : NodeId) : Document :=
  (d.children source).foldl (fun d id => d.append target id) d

def createElement (ns : Namespace) (name : String) (attributes : List Attribute) : Document × NodeId :=
  if ns = .html && name = "template" then
    let (d, contents) := d.create .root
    d.create (.element ns name attributes (some contents))
  else d.create (.element ns name attributes none)

end Document

end ComponentCompiler.Html
