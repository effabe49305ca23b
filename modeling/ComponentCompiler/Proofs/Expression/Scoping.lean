import ComponentCompiler.Expression.Qualify
import ComponentCompiler.Proofs.Script.Tokens
import ComponentCompiler.Proofs.Text.Edit

/-!
Which names of an expression are read from the context object. Main statement: `qualify_rewrites`,
the names that nothing binds are qualified and all text between the names is kept.
-/

namespace ComponentCompiler

open List Option Bool Chars

namespace Script

namespace Label

/-- Phrases in which only parameters, `var` and functions bind names: no classes, types and modules, no `let`, `const` and
`catch`. -/
def plain : Label → Bool
  | .decorated | .classNode _ | .field | .staticBlock | .interface | .signature | .type => false
  | .declaration keyword => keyword == "var"
  | .control keyword => keyword != "try"
  | .importFrom .. | .exportList .. | .exportDeclaration | .exportAll .. | .exportDefault => false
  | _ => true

def isFunction : Label → Bool
  | .function _ | .arrow => true
  | _ => false

def boundName? : Label → Option String
  | .binding name => some name
  | .function name => name
  | _ => none

/-- Whether what is bound inside a phrase is bound around it too. -/
def isOpen : Label → Bool
  | .binding _ | .function _ | .arrow => false
  | _ => true

end Label

namespace Node

mutual

def isPlain : Node → Bool
  | .mk label _ parts => label.plain && allPlain parts

def allPlain : List Node → Bool
  | [] => true
  | node :: rest => isPlain node && allPlain rest

end

theorem isPlain_mk {label : Label} {span : Span} {parts : List Node} (plain : isPlain (.mk label span parts)) :
    label.plain ∧ ∀ part ∈ parts, part.isPlain := by
  rw [isPlain, and_eq_true] at plain
  refine ⟨plain.1, ?_⟩
  have inside := plain.2
  clear plain
  induction parts with
  | nil => exact fun _ none => by cases none
  | cons part rest ih =>
    rw [allPlain, and_eq_true] at inside
    exact forall_mem_cons.mpr ⟨inside.1, ih inside.2⟩

@[elab_as_elim]
theorem inductionOn {P : Node → Prop} (node)
    (mk : ∀ label span parts, (∀ part ∈ parts, P part) → P (.mk label span parts)) :
    P node :=
  @Node.rec P (fun nodes => ∀ node ∈ nodes, P node) mk (fun _ none => by cases none)
    (fun _ _ first rest => forall_mem_cons.mpr ⟨first, rest⟩) node

end Node

/-- The name is declared in the phrase, outside the functions in it: by a parameter, by a variable or, directly in a block,
by a function. -/
inductive IsDeclared (name : String) : Node → Prop where
  | binding {span parts} : IsDeclared name (.mk (.binding name) span parts)
  | function {span place inner parts} (member : .mk (.function (some name)) place inner ∈ parts) :
      IsDeclared name (.mk .block span parts)
  | part {label span part parts} (opens : label.isOpen = true) (member : part ∈ parts) (declares : IsDeclared name part) :
    IsDeclared name (.mk label span parts)

inductive Binds (name : String) : Node → Prop where
  | self {span parts} : Binds name (.mk (.function (some name)) span parts)
  | part {label span part parts} (member : part ∈ parts) (declares : IsDeclared name part) : Binds name (.mk label span parts)

/-- A function of this name stands in the phrase, outside the functions in it. -/
inductive Names (name : String) : Node → Prop where
  | here {span parts} : Names name (.mk (.function (some name)) span parts)
  | part {label span part parts} (opens : label.isOpen = true) (member : part ∈ parts) (names : Names name part) :
    Names name (.mk label span parts)

structure Use where
  name : String
  span : Span
  shorthand : Bool
  functions : List Node

mutual

def usesIn (functions : List Node) : Node → List Use
  | .mk (.identifier name) span _ => [⟨name, span, false, functions⟩]
  | .mk (.shorthand name) span _ => [⟨name, span, true, functions⟩]
  | .mk label span parts => usesInAll (if label.isFunction then .mk label span parts :: functions else functions) parts

def usesInAll (functions : List Node) : List Node → List Use
  | [] => []
  | node :: rest => usesIn functions node ++ usesInAll functions rest

end

namespace Use

def Bound (tree : Node) (use : Use) : Prop := IsDeclared use.name tree ∨ ∃ f ∈ use.functions, Binds use.name f

/-- The name is that of a function expression which the use stands outside of, and nothing else binds it. -/
def Leaked (tree : Node) (use : Use) : Prop :=
  ¬use.Bound tree ∧ ∃ phrase ∈ tree :: use.functions.flatMap (·.parts), Names use.name phrase

end Use

/-! ### Scopes -/

theorem scopeNamesOf_eq (nodes) : scopeNamesOf nodes = nodes.flatMap scopeNames := by
  induction nodes with
  | nil => rfl
  | cons node rest ih => rw [scopeNamesOf, ih, flatMap_cons]

theorem referencesOf_eq (around) (nodes) :
    referencesOf around nodes = nodes.flatMap (references around) := by
  induction nodes with
  | nil => rfl
  | cons node rest ih => rw [referencesOf, ih, flatMap_cons]

theorem usesInAll_eq (functions) (nodes) :
    usesInAll functions nodes = nodes.flatMap (usesIn functions) := by
  induction nodes with
  | nil => rfl
  | cons node rest ih => rw [usesInAll, ih, flatMap_cons]

theorem scopeNames_eq {label : Label} (plain : label.plain) (span) (parts) :
    scopeNames (.mk label span parts) = label.boundName?.toList ++ if label.isOpen then parts.flatMap scopeNames else [] := by
  cases label <;> simp_all [scopeNames, Label.boundName?, Label.isOpen, Label.plain, scopeNamesOf_eq]

variable {node tree : Node}

theorem mem_scopeNames (plain : node.isPlain) : name ∈ scopeNames node ↔ IsDeclared name node ∨ Names name node := by
  induction node using Node.inductionOn with
  | mk label span parts ih =>
    obtain ⟨here, inside⟩ := Node.isPlain_mk plain
    have ih := fun part mem => ih part mem (inside part mem)
    rw [scopeNames_eq here, mem_append]
    constructor
    · rintro (own | inner)
      · cases label <;> simp only [Label.boundName?, toList_none, not_mem_nil, mem_toList,
          some.injEq] at own
        all_goals subst own
        · exact .inl .binding
        · exact .inr .here
      · split at inner
        · rename_i opens
          obtain ⟨part, mem, named⟩ := mem_flatMap.mp inner
          exact ((ih part mem).mp named).imp (.part opens mem) (.part opens mem)
        · cases inner
    · have inner {part : Node} (opens : label.isOpen) (mem : part ∈ parts) (named : name ∈ scopeNames part) :
          name ∈ (if label.isOpen then parts.flatMap scopeNames else []) := by
        rw [if_pos opens]
        exact mem_flatMap.mpr ⟨part, mem, named⟩
      rintro (declares | names)
      · cases declares with
        | binding => exact .inl (mem_singleton.mpr rfl)
        -- The frame does not tell a declared function from any other one.
        | function mem => exact .inr (inner rfl mem ((ih _ mem).mpr (.inr .here)))
        | part opens mem declares => exact .inr (inner opens mem ((ih _ mem).mpr (.inl declares)))
      · cases names with
        | here => exact .inl (mem_singleton.mpr rfl)
        | part opens mem names => exact .inr (inner opens mem ((ih _ mem).mpr (.inr names)))

def frame (f : Node) : List String := f.label.boundName?.toList ++ f.parts.flatMap scopeNames

def framesAround (tree : Node) (functions : List Node) : List String := functions.flatMap frame ++ scopeNames tree

def Use.reference (tree : Node) (use : Use) : Reference :=
  ⟨use.name, use.span, use.shorthand, !(framesAround tree use.functions).contains use.name⟩

theorem references_eq (plain : node.isPlain) (functions) :
    references (framesAround tree functions) node = (usesIn functions node).map (Use.reference tree) := by
  induction node using Node.inductionOn generalizing functions with
  | mk label span parts ih =>
    obtain ⟨here, inside⟩ := Node.isPlain_mk plain
    have inner (functions : List Node) : referencesOf (framesAround tree functions) parts =
        (usesInAll functions parts).map (Use.reference tree) := by
      rw [referencesOf_eq, usesInAll_eq, map_flatMap]
      exact flatMap_congr fun part mem => ih part mem (inside part mem) functions
    -- A function puts its own frame before those around it.
    have function : referencesOf (frame (.mk label span parts) ++ framesAround tree functions) parts =
        (usesInAll (.mk label span parts :: functions) parts).map (Use.reference tree) := by
      rw [← inner, framesAround, framesAround, flatMap_cons, append_assoc]
    rw [frame, ← scopeNamesOf_eq] at function
    cases label
    case identifier | shorthand => rfl
    case function | arrow => exact function
    all_goals first
      | exact inner functions
      | cases here

theorem plain_functions (plain : node.isPlain) {functions : List Node}
    (outer : ∀ f ∈ functions, f.isPlain ∧ f.label.isFunction) :
    ∀ use ∈ usesIn functions node, ∀ f ∈ use.functions, f.isPlain ∧ f.label.isFunction := by
  induction node using Node.inductionOn generalizing functions with
  | mk label span parts ih =>
    obtain ⟨here, inside⟩ := Node.isPlain_mk plain
    have inner {functions : List Node} (outer : ∀ f ∈ functions, f.isPlain ∧ f.label.isFunction) :
        ∀ use ∈ usesInAll functions parts, ∀ f ∈ use.functions, f.isPlain ∧ f.label.isFunction := by
      intro use mem
      rw [usesInAll_eq] at mem
      obtain ⟨part, listed, mem⟩ := mem_flatMap.mp mem
      exact ih part listed (inside part listed) outer use mem
    cases label
    case identifier | shorthand => exact fun use mem => by rwa [mem_singleton.mp mem]
    case function | arrow => exact inner (forall_mem_cons.mpr ⟨⟨plain, rfl⟩, outer⟩)
    all_goals exact inner outer

theorem mem_frame {f : Node} (plain : f.isPlain) (isFunction : f.label.isFunction) :
    name ∈ frame f ↔ Binds name f ∨ ∃ phrase ∈ f.parts, Names name phrase := by
  obtain ⟨label, span, parts⟩ := f
  have inside := (Node.isPlain_mk plain).2
  rw [frame, mem_append, mem_flatMap]
  constructor
  · rintro (own | ⟨part, mem, named⟩)
    · cases label <;> cases isFunction
      · cases mem_toList.mp own
        exact .inl .self
      · cases own
    · exact ((mem_scopeNames (inside part mem)).mp named).imp (.part mem) fun names => ⟨part, mem, names⟩
  · rintro (binds | ⟨part, mem, names⟩)
    · cases binds with
      | self => exact .inl (mem_singleton.mpr rfl)
      | part mem declares => exact .inr ⟨_, mem, (mem_scopeNames (inside _ mem)).mpr (.inl declares)⟩
    · exact .inr ⟨part, mem, (mem_scopeNames (inside part mem)).mpr (.inr names)⟩

theorem mem_framesAround (plain : tree.isPlain) (mem : use ∈ usesIn [] tree) :
    use.name ∈ framesAround tree use.functions ↔
      use.Bound tree ∨ ∃ phrase ∈ tree :: use.functions.flatMap (·.parts), Names use.name phrase := by
  have functions := plain_functions plain (fun _ none => by cases none) use mem
  rw [framesAround, mem_append, mem_flatMap, mem_scopeNames plain]
  constructor
  · rintro (⟨f, inside, framed⟩ | declares | names)
    · rcases (mem_frame (functions f inside).1 (functions f inside).2).mp framed with binds | ⟨phrase, part, names⟩
      · exact .inl (.inr ⟨f, inside, binds⟩)
      · exact .inr ⟨phrase, mem_cons_of_mem _ (mem_flatMap.mpr ⟨f, inside, part⟩), names⟩
    · exact .inl (.inl declares)
    · exact .inr ⟨tree, mem_cons_self, names⟩
  · rintro ((declares | ⟨f, inside, binds⟩) | ⟨phrase, listed, names⟩)
    · exact .inr (.inl declares)
    · exact .inl ⟨f, inside, (mem_frame (functions f inside).1 (functions f inside).2).mpr (.inl binds)⟩
    · rcases mem_cons.mp listed with rfl | listed
      · exact .inr (.inr names)
      · obtain ⟨f, inside, part⟩ := mem_flatMap.mp listed
        exact .inl ⟨f, inside, (mem_frame (functions f inside).1 (functions f inside).2).mpr (.inr ⟨phrase, part, names⟩)⟩

end Script

namespace Expression

open Script

/-! ### Text -/

def fill (write : Use → String) (rest : List Char) : List (List Char) → List Use → List Char
  | gap :: gaps, use :: uses => gap ++ (write use).toList ++ fill write rest gaps uses
  | _, _ => rest

def isPlaced : Nat → List (List Char) → List Use → Bool
  | _, [], [] => true
  | offset, gap :: gaps, use :: uses =>
    use.span.start == offset + byteLength gap && use.span.stop == use.span.start + byteLength use.name.toList &&
      isPlaced use.span.stop gaps uses
  | _, _, _ => false

/-- A text as a parser places the names in it: at their spans, one after the other. -/
structure Layout (source : String) (uses : List Use) where
  gaps : List (List Char)
  rest : List Char
  source_eq : source.toList = fill Use.name rest gaps uses
  placed : isPlaced 0 gaps uses = true

def Layout.rewrite {source : String} {uses : List Use} (layout : Layout source uses) (write : Use → String) : String :=
  .ofList (fill write layout.rest layout.gaps uses)

/-- What is written for a use: its name, in the context object if it is qualified, and for a shorthand member its key too. -/
def written (use : Use) (qualified : Bool) : String :=
  let value := if qualified then inContext use.name else use.name
  if use.shorthand then use.name ++ ": " ++ value else value

theorem isPlaced_cons (placed : isPlaced offset gaps (use :: uses)) :
    ∃ gap more, gaps = gap :: more ∧ use.span.start = offset + byteLength gap ∧
      use.span.stop = use.span.start + byteLength use.name.toList ∧ isPlaced use.span.stop more uses := by
  cases gaps with
  | nil => cases placed
  | cons gap more =>
    simp only [isPlaced, and_eq_true, beq_iff_eq] at placed
    exact ⟨gap, more, rfl, placed.1.1, placed.1.2, placed.2⟩

theorem starts_of_isPlaced (placed : isPlaced offset gaps uses) :
    ∀ use ∈ uses, offset ≤ use.span.start ∧ use.span.start ≤ use.span.stop := by
  induction uses generalizing offset gaps with
  | nil => exact fun _ none => by cases none
  | cons first uses ih =>
    obtain ⟨gap, more, rfl, start, stop, later⟩ := isPlaced_cons placed
    refine forall_mem_cons.mpr ⟨⟨by omega, by omega⟩, fun use mem => ?_⟩
    have := ih later use mem
    omega

section

variable {edit : Use → Option Edit} {write : Use → String} (kept : ∀ use, edit use = none → write use = use.name)
  (changed : ∀ use e, edit use = some e → e = ⟨use.span, write use⟩)

include changed in
theorem sortBy_edits (placed : isPlaced offset gaps uses) :
    sortBy Edit.le (uses.filterMap edit) = uses.filterMap edit := by
  refine sortBy_of_pairwise ?_
  induction uses generalizing offset gaps with
  | nil => exact .nil
  | cons first uses ih =>
    obtain ⟨gap, more, rfl, start, stop, later⟩ := isPlaced_cons placed
    rw [filterMap_cons]
    split
    · exact ih later
    · rename_i e here
      refine pairwise_cons.mpr ⟨fun e' mem => ?_, ih later⟩
      obtain ⟨use, listed, there⟩ := mem_filterMap.mp mem
      have := starts_of_isPlaced later use listed
      rw [changed _ _ here, changed _ _ there]
      simp only [Edit.le, or_eq_true, decide_eq_true_eq, and_eq_true, beq_iff_eq]
      omega

include kept changed in
theorem applyFrom_fill (uses) (rest) {gaps : List (List Char)} {offset : Nat} {before : List Char}
    (placed : isPlaced (offset + byteLength before) gaps uses) :
    Edit.applyFrom offset (before ++ fill Use.name rest gaps uses) (uses.filterMap edit) =
      before ++ fill write rest gaps uses := by
  induction uses generalizing gaps offset before with
  | nil => cases gaps <;> rfl
  | cons use uses ih =>
    obtain ⟨gap, more, rfl, start, stop, later⟩ := isPlaced_cons placed
    rw [filterMap_cons, fill, fill]
    cases here : edit use with
    | none =>
      -- The use is passed over with the text before it.
      have longer : use.span.stop = offset + byteLength (before ++ gap ++ use.name.toList) := by
        simp only [byteLength_append]
        omega
      have passed := ih (longer ▸ later)
      rw [kept _ here]
      simpa only [append_assoc] using passed
    | some e =>
      cases changed _ _ here
      have first : use.span.start - offset = byteLength (before ++ gap) := by
        rw [byteLength_append]
        omega
      have last : use.span.stop - offset = byteLength (before ++ gap ++ use.name.toList) := by
        simp only [byteLength_append]
        omega
      have next := @ih more use.span.stop [] later
      rw [nil_append, nil_append] at next
      dsimp only
      rw [Edit.applyFrom, if_neg (by dsimp only; omega)]
      dsimp only
      rw [first, last, ← append_assoc, ← append_assoc, dropBytes_append, append_assoc (before ++ gap),
        takeBytes_append, next]
      simp only [append_assoc]

include kept changed in
theorem Layout.applyAll {source : String} {uses : List Use} (layout : Layout source uses) :
    Edit.applyAll (uses.filterMap edit) source = layout.rewrite write := by
  have applied := @applyFrom_fill edit write kept changed uses layout.rest layout.gaps 0 [] layout.placed
  rw [Edit.applyAll, sortBy_edits changed layout.placed, layout.source_eq]
  exact congrArg String.ofList applied

end

variable {source : String} {tree : Node}

def isQualified (tree : Node) (use : Use) : Bool := (use.reference tree).free && !isGlobal use.name

theorem editOf_reference (use : Use) : editOf (use.reference tree) =
    if use.shorthand || isQualified tree use then some ⟨use.span, written use (isQualified tree use)⟩ else none := by
  unfold editOf written
  change (if use.shorthand then some (Edit.mk use.span (use.name ++ ": " ++ if isQualified tree use then _ else _)) else
    if isQualified tree use then some (Edit.mk use.span (if isQualified tree use then _ else _)) else none) = _
  cases use.shorthand <;> cases isQualified tree use <;> rfl

theorem isQualified_iff (plain : tree.isPlain) (mem : use ∈ usesIn [] tree) (apart : ¬use.Leaked tree) :
    isQualified tree use ↔ isGlobal use.name = false ∧ ¬use.Bound tree := by
  have framed : use.name ∈ framesAround tree use.functions ↔ use.Bound tree := by
    rw [mem_framesAround plain mem]
    refine ⟨fun caught => ?_, .inl⟩
    by_contra free
    exact apart ⟨free, caught.resolve_left free⟩
  rw [isQualified, Use.reference, and_eq_true, not_eq_true', not_eq_true', ← not_eq_true,
    contains_iff_mem, framed]
  exact and_comm

/-- The names that are neither global nor bound where they are used are read from the context object; for names of function
expressions that are used outside them nothing is said. Apart from the names only the keys of shorthand members are written
out, and all other text is copied. -/
theorem qualify_rewrites (parsed : parseExpression source = .ok tree) (plain : tree.isPlain = true)
    (layout : Layout source (usesIn [] tree)) :
    ∃ qualified : Use → Bool, qualify source = .ok (layout.rewrite fun use => written use (qualified use)) ∧
      ∀ use ∈ usesIn [] tree, ¬use.Leaked tree → (qualified use = true ↔ isGlobal use.name = false ∧ ¬use.Bound tree) := by
  refine ⟨isQualified tree, ?_, fun use => isQualified_iff plain⟩
  have kept (use : Use) (none : editOf (use.reference tree) = none) : written use (isQualified tree use) = use.name := by
    rw [editOf_reference] at none
    split at none
    · cases none
    · simp_all [written]
  have changed (use : Use) (e : Edit) (some : editOf (use.reference tree) = some e) :
      e = ⟨use.span, written use (isQualified tree use)⟩ := by
    rw [editOf_reference] at some
    split at some
    · exact (Option.some.inj some).symm
    · cases some
  have uses : (referencesOf (scopeNamesOf [tree]) [tree]).filterMap editOf =
      (usesIn [] tree).filterMap fun use => editOf (use.reference tree) := by
    rw [referencesOf_eq, scopeNamesOf_eq, flatMap_singleton, flatMap_singleton]
    exact (congrArg (filterMap editOf) (references_eq plain [])).trans filterMap_map
  rw [qualify, parsed]
  dsimp only
  rw [qualifyNodes, uses, layout.applyAll kept changed]

def shadowing : String := "x(x => (\x7b x, y \x7d))"

def shadowingGaps : List (List Char) := ["", "(x => (\x7b ", ", "].map String.toList

theorem qualify_rewrites_shadowing : ∃ tree, parseExpression shadowing = .ok tree ∧ tree.isPlain = true ∧
    ∃ layout : Layout shadowing (usesIn [] tree), ∃ qualified : Use → Bool,
      qualify shadowing = .ok (layout.rewrite fun use => written use (qualified use)) ∧
        ∀ use ∈ usesIn [] tree, ¬use.Leaked tree → (qualified use = true ↔ isGlobal use.name = false ∧ ¬use.Bound tree) := by
  have computed : (parseExpression shadowing).toOption.any (fun tree => tree.isPlain &&
      (shadowing.toList == fill Use.name " \x7d))".toList shadowingGaps (usesIn [] tree) &&
        isPlaced 0 shadowingGaps (usesIn [] tree))) = true := by
    decide +kernel
  cases parsed : parseExpression shadowing with
  | error cause =>
    rw [parsed] at computed
    cases computed
  | ok tree =>
    rw [parsed] at computed
    simp only [Except.toOption, any_some, and_eq_true, beq_iff_eq] at computed
    exact ⟨tree, rfl, computed.1, ⟨shadowingGaps, _, computed.2.1, computed.2.2⟩, qualify_rewrites parsed computed.1 _⟩

/-- A shorthand member gets its key also if its name is bound, and a function expression hides its name around it. -/
theorem bound_shorthand_and_leaked_name :
    qualify "x => (\x7b x \x7d)" = .ok "x => (\x7b x: x \x7d)" ∧
      qualify "(function f() \x7b\x7d)(f)" = .ok "(function f() \x7b\x7d)(f)" := by
  decide +kernel

end Expression

end ComponentCompiler
