import ComponentCompiler.Proofs.Template.Waiting

/-!
The bodies of structural directives. A body looks the same from the moment it is made, so where a
placeholder goes does not depend on when it is asked.
-/

namespace ComponentCompiler

open TemplateNode MarkupNode List Option Nat SortedMap

namespace Template

/-! ### Names -/

theorem toList_bodyName (directive) (n) :
    (bodyName directive n).toList = ("__" ++ directive).toList ++ '_' :: toDigits 10 n := by
  have digits : (toString n).toList = toDigits 10 n := by
    change (Nat.repr n).toList = _
    rw [repr_eq_ofList_toDigits, String.toList_ofList]
  rw [bodyName, String.toList_append, String.toList_append, digits, append_assoc]
  rfl

theorem underscore_not_mem_toDigits (n) : '_' ∉ toDigits 10 n := fun mem => by
  cases isDigit_of_mem_toDigits (by decide) (by decide) mem

theorem bodyName_inj (same : bodyName directive n = bodyName other m) : n = m := by
  have lists := congrArg String.toList same
  rw [toList_bodyName, toList_bodyName] at lists
  have digits : toDigits 10 n = toDigits 10 m := by
    rcases append_eq_append_iff.mp lists with ⟨more, -, split⟩ | ⟨more, -, split⟩
    · cases more with
      | nil => exact (cons.inj split).2
      | cons c more => exact (underscore_not_mem_toDigits n (by rw [(cons.inj split).2]; simp)).elim
    · cases more with
      | nil => exact (cons.inj split).2.symm
      | cons c more => exact (underscore_not_mem_toDigits m (by rw [(cons.inj split).2]; simp)).elim
  have read := congrArg (ofDigitChars 10 · 0) digits
  simpa only [ofDigitChars_ten_toDigits] using read

def PlainName (id : String) : Prop := ∀ directive n, id ≠ bodyName directive n

/-! ### States -/

/-- Bodies of directives hold one node that is no placeholder, and have names made before. -/
def State.Stands (s : State) : Prop :=
  ∀ directive n nodes, s.bodies.get? (bodyName directive n) = some nodes →
    n < s.counter ∧ ∃ node, nodes = [node] ∧ ∀ id, node.look ≠ .placeholder id

def Keeps (bodies later : TemplateBodies) : Prop :=
  ∀ directive n nodes, bodies.get? (bodyName directive n) = some nodes →
    ∃ nodes', later.get? (bodyName directive n) = some nodes' ∧ nodes'.map look = nodes.map look

theorem Keeps.refl (bodies) : Keeps bodies bodies := fun _ _ nodes here => ⟨nodes, here, rfl⟩

theorem Keeps.trans (one : Keeps first second) (two : Keeps second third) : Keeps first third := by
  intro directive n nodes here
  obtain ⟨nodes', there, looks⟩ := one directive n nodes here
  obtain ⟨nodes'', last, looks'⟩ := two directive n nodes' there
  exact ⟨nodes'', last, looks'.trans looks⟩

def Rooted (bodies : TemplateBodies) (nodes : List TemplateNode) : Prop :=
  ∀ node ∈ nodes, ∀ id, node.look = .placeholder id →
    ∃ directive n, id = bodyName directive n ∧ (bodies.get? id).isSome = true

theorem Rooted.mono (rooted : Rooted bodies nodes) (keeps : Keeps bodies later) : Rooted later nodes := by
  intro node mem id look
  obtain ⟨directive, n, rfl, some⟩ := rooted node mem id look
  obtain ⟨body, here⟩ := isSome_iff_exists.mp some
  obtain ⟨body', there, -⟩ := keeps directive n body here
  exact ⟨directive, n, rfl, by rw [there]; rfl⟩

theorem rooted_single {node : TemplateNode} (apart : ∀ id, node.look ≠ .placeholder id) : Rooted bodies [node] := by
  intro other mem id look
  rw [mem_singleton.mp mem] at look
  exact (apart id look).elim

theorem faceIn_of_single {bodies : TemplateBodies} {id : String} {look : Look} (here : bodies.get? id = some nodes)
    (looks : nodes.map TemplateNode.look = [look]) (apart : ∀ id, look ≠ .placeholder id) :
    faceIn bodies id = look.face fun _ => none := by
  obtain ⟨node, rfl, rfl⟩ := map_eq_singleton_iff.mp looks
  unfold faceIn
  rw [here, bind_some, firstElement?, findSome?_singleton]
  cases node with
  | placeholder p => exact (apart _ rfl).elim
  | element | text | fragment | slot => rfl

theorem faceIn_of_keeps {s : State} (stands : s.Stands) (keeps : Keeps s.bodies later) (rooted : Rooted s.bodies nodes) :
    ∀ node ∈ nodes, node.look.face (faceIn s.bodies) = node.look.face (faceIn later) := by
  intro node mem
  cases shape : node.look with
  | element | other => rfl
  | placeholder id =>
    obtain ⟨directive, n, rfl, some⟩ := rooted node mem id shape
    obtain ⟨body, here⟩ := isSome_iff_exists.mp some
    obtain ⟨-, inner, rfl, apart⟩ := stands directive n body here
    obtain ⟨body', there, looks⟩ := keeps directive n _ here
    exact (faceIn_of_single here rfl apart).trans (faceIn_of_single there looks apart).symm

/-! ### Steps -/

/-- A step that keeps bodies of directives, and whose placeholders stand for such. -/
def Grows {α : Type} (x : Compile α) (nodes : α → List TemplateNode) : Prop :=
  ∀ s : State, s.Stands →
    (x.run s).2.Stands ∧ Keeps s.bodies (x.run s).2.bodies ∧ Rooted (x.run s).2.bodies (nodes (x.run s).1)

variable {α β : Type} {cx : Context}

theorem grows_pure (rooted : ∀ bodies, Rooted bodies (nodes a)) :
    Grows (pure a) nodes := fun _ stands => ⟨stands, .refl _, rooted _⟩

theorem Grows.bind (first : Grows x nodes) (next : ∀ a, Grows (f a) later) : Grows (x >>= f) later := by
  intro s stands
  obtain ⟨here, keeps, -⟩ := first s stands
  obtain ⟨there, keeps', rooted⟩ := next _ _ here
  exact ⟨there, keeps.trans keeps', rooted⟩

theorem rooted_nil (bodies) : Rooted bodies [] := fun _ mem => by cases mem

theorem Light.grows (light : Light x) : Grows x fun _ => [] := by
  intro s stands
  have same := light.run s
  have bodies : (x.run s).2.bodies = s.bodies := by rw [same]
  have counter : (x.run s).2.counter = s.counter := by rw [same]
  refine ⟨?_, bodies ▸ .refl _, rooted_nil _⟩
  unfold State.Stands
  rw [bodies, counter]
  exact stands

theorem grows_wrap (directive value) {node : TemplateNode} (apart : ∀ id, node.look ≠ .placeholder id) :
    Grows (wrap cx directive value node) ([·]) := by
  intro s stands
  have fills := @asks_filled cx [] directive value (bodyName directive s.counter)
  have same := fills.light.run { s with counter := s.counter + 1 }
  have template := fills.holds { s with counter := s.counter + 1 }
  rw [wrap_run]
  generalize (filled cx directive value (bodyName directive s.counter)).run { s with counter := s.counter + 1 } = after at same template
  have bodies : after.2.bodies = s.bodies := by rw [same]
  have counter : after.2.counter = s.counter + 1 := by rw [same]
  have fresh : ∀ other n nodes, s.bodies.get? (bodyName other n) = some nodes →
      (s.bodies.insert (bodyName directive s.counter) [node]).get? (bodyName other n) = some nodes := by
    intro other n nodes here
    rw [get?_insert, if_neg, here]
    intro equal
    have below := (stands other n nodes here).1
    rw [bodyName_inj (Std.LawfulEqCmp.compare_eq_iff_eq.mp equal)] at below
    exact Nat.lt_irrefl _ below
  refine ⟨fun other n nodes here => ?_, fun other n nodes here => ?_, fun found mem id look => ?_⟩
  · dsimp only at here ⊢
    rw [bodies, get?_insert] at here
    rw [counter]
    split at here
    · rename_i equal
      rw [bodyName_inj (Std.LawfulEqCmp.compare_eq_iff_eq.mp equal)]
      exact ⟨lt_succ_self _, node, (some.inj here).symm, apart⟩
    · obtain ⟨below, single⟩ := stands other n nodes here
      exact ⟨lt_succ_of_lt below, single⟩
  · dsimp only
    rw [bodies]
    exact ⟨nodes, fresh other n nodes here, rfl⟩
  · rw [mem_singleton.mp mem, TemplateNode.look, Look.placeholder.injEq, template] at look
    refine ⟨directive, s.counter, look.symm, ?_⟩
    dsimp only
    rw [← look, get?_insert, if_pos Std.ReflCmp.compare_self]
    rfl

theorem grows_wrapIf (directive) {node : TemplateNode} (apart : ∀ id, node.look ≠ .placeholder id) :
    Grows (wrapIf cx directive node) ([·]) := by
  unfold wrapIf
  split
  · exact grows_wrap _ _ apart
  · exact grows_pure fun _ => rooted_single apart

theorem grows_addBody {id : String} (plain : PlainName id) (nodes) : Grows (addBody id nodes) fun _ => [] := by
  intro s stands
  have same : ∀ directive n, ((addBody id nodes).run s).2.bodies.get? (bodyName directive n) =
      s.bodies.get? (bodyName directive n) := by
    intro directive n
    rw [show ((addBody id nodes).run s).2.bodies = s.bodies.insert id nodes from rfl, get?_insert, if_neg]
    exact fun equal => plain directive n (Std.LawfulEqCmp.compare_eq_iff_eq.mp equal).symm
  refine ⟨fun directive n found here => ?_, fun directive n found here => ?_, rooted_nil _⟩
  · rw [same] at here
    exact stands directive n found here
  · exact ⟨found, (same directive n).trans here, rfl⟩

theorem map_look_mapHeadsOf (marking : Marking f) (nodes) :
    (mapHeadsOf f nodes).map look = nodes.map look := by
  rw [mapHeadsOf_eq, List.map_map]
  exact map_congr_left fun node _ => look_mapHeads marking node

theorem map_look_markedBodies (queries) (content) (bodies) (id) :
    ((markedBodies queries content bodies).get? id).map (·.map look) = (bodies.get? id).map (·.map look) := by
  rw [markedBodies, get?_map, Option.map_map]
  congr 1
  funext nodes
  dsimp only [Function.comp]
  split
  · exact map_look_mapHeadsOf (marking_markContent queries) nodes
  · rfl

theorem keeps_of_looks {bodies later : TemplateBodies}
    (same : ∀ id, (later.get? id).map (·.map look) = (bodies.get? id).map (·.map look)) : Keeps bodies later := by
  intro directive n nodes here
  have looks := same (bodyName directive n)
  rw [here] at looks
  exact map_eq_some_iff.mp looks

theorem stands_of_looks {s later : State} (stands : s.Stands) (counter : later.counter = s.counter)
    (same : ∀ id, (later.bodies.get? id).map (·.map look) = (s.bodies.get? id).map (·.map look)) : later.Stands := by
  intro directive n nodes here
  have looks := same (bodyName directive n)
  rw [here] at looks
  obtain ⟨before, found, looks⟩ := map_eq_some_iff.mp looks.symm
  obtain ⟨below, node, rfl, apart⟩ := stands directive n before found
  obtain ⟨node', rfl, look⟩ := map_eq_singleton_iff.mp looks.symm
  exact ⟨counter ▸ below, node', rfl, look ▸ apart⟩

theorem projectContent_result (cx : Context) (head : ElementHead) (host : Definition) (content : List TemplateNode) (s : State) :
    let after := (projectContent cx head host content).run s
    after.2.bodies = markedBodies host.contentQueries content s.bodies ∧ after.2.counter = s.counter ∧
      ∀ id, after.1.look ≠ .placeholder id := by
  rw [projectContent_run]
  dsimp only
  split
  · exact ⟨rfl, rfl, fun _ absurd => by cases absurd⟩
  · split
    · rw [addPending_run]
      exact ⟨rfl, rfl, fun _ absurd => by cases absurd⟩
    · exact ⟨rfl, rfl, fun _ absurd => by cases absurd⟩

theorem grows_projectContent (head) (host) (content) :
    Grows (projectContent cx head host content) ([·]) := by
  intro s stands
  obtain ⟨bodies, counter, apart⟩ := projectContent_result cx head host content s
  have looks := map_look_markedBodies host.contentQueries content s.bodies
  rw [← bodies] at looks
  exact ⟨stands_of_looks stands counter looks, keeps_of_looks looks, rooted_single apart⟩

theorem look_finishElement (head) (host) (children) (s) :
    ∀ id, ((finishElement cx head host children).run s).1.look ≠ .placeholder id := by
  unfold finishElement
  split
  · split
    · exact fun _ absurd => by cases absurd
    · exact (projectContent_result cx head _ children s).2.2
  · exact fun _ absurd => by cases absurd

theorem grows_finishElement (head) (host) (children) :
    Grows (finishElement cx head host children) ([·]) := by
  unfold finishElement
  split
  · split
    · exact grows_pure fun _ => rooted_single fun _ absurd => by cases absurd
    · exact grows_projectContent head _ children
  · exact grows_pure fun _ => rooted_single fun _ absurd => by cases absurd

end Template

/-! ### Runs -/

namespace MarkupNode

mutual

def bodyNames : MarkupNode → List String
  | .text _ => []
  | .element tag attributes children =>
    (if tag == "template" && (Template.structuralDirective? attributes).isNone then
      (Template.reference? attributes).toList else []) ++ bodyNamesOf children

def bodyNamesOf : List MarkupNode → List String
  | [] => []
  | node :: rest => bodyNames node ++ bodyNamesOf rest

end

end MarkupNode

namespace Template

variable {cx : Context}

theorem grows_finishTemplate (attributes) (children)
    (plain : (structuralDirective? attributes).isNone → ∀ id ∈ (reference? attributes).toList, PlainName id) :
    Grows (finishTemplate cx attributes children) id := by
  rw [finishTemplate_eq]
  split
  · intro s stands
    exact grows_wrap _ _ (fun _ absurd => by cases absurd) s stands
  · rename_i id none here
    refine (grows_addBody (plain (by rw [none]; rfl) id (by rw [here]; exact mem_singleton_self _)) children).bind ?_
    exact fun _ => grows_pure rooted_nil
  · exact grows_pure fun _ => rooted_single fun _ absurd => by cases absurd

mutual

theorem grows_compileNode : ∀ node : MarkupNode, (∀ id ∈ bodyNames node, PlainName id) → Grows (compileNode cx node) id
  | .text value, _ => by
    rw [compileNode]
    exact (light_interpolate value true).grows.bind fun _ => grows_pure fun _ => rooted_single fun _ absurd => by cases absurd
  | .element tag attributes children, plain => by
    rw [bodyNames] at plain
    have inside := grows_compileNodes children fun id mem => plain id (mem_append_right _ mem)
    rw [compileNode]
    split
    · rename_i isTemplate
      refine inside.bind fun made => grows_finishTemplate attributes made fun none id mem => ?_
      exact plain id (mem_append_left _ (by rw [if_pos (by rw [isTemplate, none]; rfl)]; exact mem))
    · split
      · have slot : Grows (addSlot (slotSelector? attributes)) fun _ => [] := fun s stands => ⟨stands, .refl _, rooted_nil _⟩
        exact slot.bind fun _ => inside.bind fun _ => grows_pure fun _ => rooted_single fun _ absurd => by cases absurd
      · refine (light_startElement tag attributes).grows.bind fun start => inside.bind fun made => ?_
        intro s stands
        obtain ⟨here, keeps, -⟩ := @grows_finishElement cx start.1 start.2 made s stands
        obtain ⟨there, keeps', rooted⟩ := @grows_wrapIf cx (structuralDirective? attributes) _
          (look_finishElement start.1 start.2 made s) _ here
        exact ⟨there, keeps.trans keeps', rooted⟩

theorem grows_compileNodes : ∀ nodes : List MarkupNode, (∀ id ∈ bodyNamesOf nodes, PlainName id) →
    Grows (compileNodes cx nodes) id
  | [], _ => by
    rw [compileNodes]
    exact grows_pure rooted_nil
  | node :: rest, plain => by
    rw [bodyNamesOf] at plain
    rw [compileNodes]
    intro s stands
    obtain ⟨here, keeps, rooted⟩ := grows_compileNode node (fun id mem => plain id (mem_append_left _ mem)) s stands
    obtain ⟨there, keeps', rooted'⟩ := grows_compileNodes rest (fun id mem => plain id (mem_append_right _ mem)) _ here
    exact ⟨there, keeps.trans keeps', fun node mem => (mem_append.mp mem).elim (rooted.mono keeps' node) (rooted' node)⟩

end

end Template

end ComponentCompiler
