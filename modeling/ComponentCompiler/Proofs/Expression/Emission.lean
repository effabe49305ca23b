import ComponentCompiler.Expression.Basic
import ComponentCompiler.Proofs.Script.Functions
import ComponentCompiler.Proofs.Script.Members

/-! The functions that template expressions become. Main statement: `script_isExpression`. -/

namespace ComponentCompiler.Expression

open Script Script.Parse List Chars String
open Script.Context (plain_function plain_module)

abbrev inside : Context := .function false false

/-- The code is a value and each argument of a filter is an expression, inside of a function. -/
structure Whole (expression : Expression) : Prop where
  code : ReadsValue inside expression.code.toList
  args : ∀ filter ∈ expression.filters, ∀ arg ∈ filter.args, ∃ answer, Reads inside arg.toList answer

def handlerBody (expression : Expression) : List Char :=
  ((trimEnd expression.code.toList).reverse.dropWhile (· == ';')).reverse ++ ";".toList

theorem toList_function (names) (body) :
    (Writer.function names body).toList = functionText names body.toList := by
  have keyword : "function (".toList = "function".toList ++ [' ', '('] := by decide
  unfold functionText Writer.function
  simp only [toList_append, keyword, Text.join, Writer.braces, toList_ofList, bracketed, joined, blockText]
  generalize "function".toList = keyword
  simp

theorem usable_contextParameter : IsVariable contextParameter := ⟨by decide, by decide, by decide⟩

theorem usable_eventParameter : IsVariable eventParameter := ⟨by decide, by decide, by decide⟩

theorem reads_accessor {code : String} (value : ReadsValue inside code.toList) :
    Reads .module (Writer.function [contextParameter] ("return " ++ code ++ ";")).toList fun span node => node.span = span := by
  have text : ("return " ++ code ++ ";").toList = returnText code.toList := by
    have keyword : "return ".toList = "return".toList ++ [' '] := by decide
    unfold returnText
    rw [toList_append, toList_append, keyword]
    generalize "return".toList = keyword
    simp
  rw [toList_function, text]
  have body := readsBody_return plain_function rfl value
  have parameter : ∀ name ∈ [contextParameter], IsVariable name := by
    intro name mem
    cases mem_singleton.mp mem
    exact usable_contextParameter
  refine (reads_function plain_module parameter body).imp fun span node found _ => ?_
  obtain ⟨parts, rfl⟩ := found
  rfl

theorem toList_list (items) : (Writer.list items).toList = bracketed "[" "]" [] toList items := by
  simp [Writer.list, Text.join, bracketed, joined]

theorem reads_list {context : Context} (plain : context.Plain)
    (each : ∀ item ∈ items, ∃ answer, Reads context item.toList answer) :
    Reads context (Writer.list items).toList fun span node => node.span = span := by
  rw [toList_list]
  have elements : ∀ item ∈ items, ∀ fuel, fuelFor item.toList.length ≤ fuel →
      ReadsItem (arrayElement ⟨fuel, parse fuel⟩ context) "]" item.toList fun _ _ => True := by
    intro item mem fuel enough
    obtain ⟨answer, reads⟩ := each item mem
    exact readsItem_arrayElement plain (reads.imp fun _ _ _ _ => trivial) enough
  refine (reads_array plain elements).imp fun span node found _ => ?_
  obtain ⟨nodes, rfl, -⟩ := found
  rfl

theorem readsValue_list (each : ∀ item ∈ items, ∃ answer, Reads inside item.toList answer) :
    ReadsValue inside (Writer.list items).toList := by
  have reads := reads_list plain_function each
  rw [toList_list] at reads ⊢
  exact reads.readsValue (fun rest => Lexer.lexes_single (by decide) _) (by decide)

theorem toList_object {members : List (String × String)} (named : ∀ member ∈ members, isName member.1) (some : members ≠ []) :
    (Writer.object members).toList = bracketed "\x7b" "\x7d" [' '] (fun member => memberText member.1 member.2.toList) members := by
  have keys : members.map (fun member => member.1 ++ ": " ++ member.2) =
      members.map fun member => Writer.key member.1 ++ ": " ++ member.2 := by
    refine map_congr_left fun member listed => ?_
    rw [Writer.key, if_pos (named member listed)]
  have text : (fun member : String × String => memberText member.1 member.2.toList) =
      fun member => (Writer.key member.1).toList ++ ':' :: ' ' :: member.2.toList := by
    funext member
    simp [memberText]
  cases members with
  | nil => exact absurd rfl some
  | cons member more =>
    rw [Writer.object, if_neg (by simp), keys, text]
    simp [Writer.braces, Text.join, bracketed, joined, Function.comp_def]

theorem reads_members {members : List (String × String)} (named : ∀ member ∈ members, isName member.1)
    (some : members ≠ []) (each : ∀ member ∈ members, ∃ answer, Reads .module member.2.toList answer) :
    Reads .module (Writer.object members).toList fun span node => node.span = span := by
  rw [toList_object named some]
  have values : ∀ member ∈ members, Reads .module member.2.toList fun _ _ => True := by
    intro member listed
    obtain ⟨answer, reads⟩ := each member listed
    exact reads.imp fun _ _ _ _ => trivial
  refine (reads_object plain_module (.inr rfl) values).imp fun span node found _ => ?_
  obtain ⟨nodes, rfl, -⟩ := found
  rfl

theorem isName_memberNames : ∀ name ∈ ["pipe", "args", "fn", "filters", "once"], isName name := by decide

theorem reads_filter {filter : Filter} (each : ∀ arg ∈ filter.args, ∃ answer, Reads inside arg.toList answer) :
    Reads .module (Filter.script filter).toList fun span node => node.span = span := by
  refine reads_members (fun member listed => ?_) (by simp) fun member listed => ?_
  all_goals
    simp only [mem_cons, not_mem_nil, or_false] at listed
    rcases listed with rfl | rfl
  · exact isName_memberNames "pipe" (by decide)
  · exact isName_memberNames "args" (by decide)
  · have text : (Writer.string (filter.pipe.getD filter.name)).toList = Json.quoteChars (filter.pipe.getD filter.name).toList :=
      toList_ofList
    have reads := reads_string plain_module (filter.pipe.getD filter.name)
    rw [← text] at reads
    exact ⟨_, reads⟩
  · exact ⟨_, reads_accessor (readsValue_list each)⟩

def members (expression : Expression) : List (String × String) :=
  [("fn", Writer.function [contextParameter] ("return " ++ expression.code ++ ";"))] ++
    (if expression.filters.isEmpty then [] else [("filters", Writer.list (expression.filters.map Filter.script))]) ++
    (if expression.once then [("once", "true")] else [])

theorem script_eq (expression : Expression) : expression.script =
    if expression.filters.isEmpty && !expression.once then
      Writer.function [contextParameter] ("return " ++ expression.code ++ ";")
    else Writer.object expression.members := rfl

theorem reads_member {expression : Expression} (whole : expression.Whole) (listed : member ∈ expression.members) :
    isName member.1 ∧ ∃ answer, Reads .module member.2.toList answer := by
  simp only [members, mem_append, mem_singleton] at listed
  rcases listed with (rfl | listed) | listed
  · exact ⟨isName_memberNames "fn" (by decide), _, reads_accessor whole.code⟩
  · split at listed
    · cases listed
    · cases mem_singleton.mp listed
      refine ⟨isName_memberNames "filters" (by decide), _, reads_list plain_module fun text member => ?_⟩
      obtain ⟨filter, listed, rfl⟩ := mem_map.mp member
      exact ⟨_, reads_filter (whole.args filter listed)⟩
  · split at listed
    · cases mem_singleton.mp listed
      exact ⟨isName_memberNames "once" (by decide), _, reads_wordLiteral plain_module rfl⟩
    · cases listed

theorem reads_expression {expression : Expression} (whole : expression.Whole) :
    Reads .module expression.script.toList fun span node => node.span = span := by
  rw [script_eq]
  split
  · exact reads_accessor whole.code
  · exact reads_members (fun _ listed => (reads_member whole listed).1) (by simp [members])
      fun _ listed => (reads_member whole listed).2

theorem reads_handler {expression : Expression} (body : ReadsBody inside expression.handlerBody) :
    Reads .module expression.handlerScript.toList fun span node => ∃ parts, node = .mk (.function none) span parts := by
  have text : expression.handlerScript.toList = functionText [contextParameter, eventParameter] expression.handlerBody := by
    rw [handlerScript, toList_function, toList_append, toList_ofList, handlerBody]
  have parameters : ∀ name ∈ [contextParameter, eventParameter], IsVariable name := by
    intro name mem
    simp only [mem_cons, not_mem_nil, or_false] at mem
    rcases mem with rfl | rfl
    · exact usable_contextParameter
    · exact usable_eventParameter
  rw [text]
  exact reads_function plain_module parameters body

section

theorem lexes_contextParameter (closes : Closes rest) :
    Lexer.Lexes contextParameter.toList (.word contextParameter) (chainText links ++ rest) :=
  Lexer.lexes_word usable_contextParameter.named (endsWord_chain closes)

theorem reads_inContext (each : ∀ link ∈ links, link.Fits inside) :
    Reads inside (contextParameter.toList ++ chainText links) fun span node => node.span = span :=
  reads_chain plain_function usable_contextParameter (by decide) each

theorem readsValue_inContext (each : ∀ link ∈ links, link.Fits inside) :
    ReadsValue inside (contextParameter.toList ++ chainText links) :=
  (reads_inContext each).readsValue (fun rest => lexes_contextParameter (.statement rest)) (by decide)

theorem readsBody_inContext (each : ∀ link ∈ links, link.Fits inside) :
    ReadsBody inside (contextParameter.toList ++ (chainText links ++ ";".toList)) := by
  refine readsBody_expression plain_function usable_contextParameter (by decide) (fun rest => ?_) (reads_inContext each)
  rw [List.append_assoc]
  exact lexes_contextParameter (.statement rest)

end

/-- `:user.name|upper:limit`, compiled. -/
def greeting : Expression := ⟨"user.name", "ctx.user.name", [⟨"upper", none, ["ctx.limit"]⟩], true⟩

/-- `save(user);`, compiled. -/
def saving : Expression := ⟨"save(user);", "ctx.save(ctx.user);", [], false⟩

theorem compiled_examples : (compile ":user.name|upper:limit").toOption = some greeting ∧
    (compileHandler "save(user);").toOption = some saving := by decide +kernel

theorem names_examples : ∀ name ∈ ["user", "name", "limit", "save"], isName name := by decide

theorem whole_greeting : greeting.Whole := by
  constructor
  · have text : greeting.code.toList = contextParameter.toList ++ chainText [.member "user", .member "name"] := by decide
    rw [text]
    refine readsValue_inContext fun link mem => ?_
    simp only [mem_cons, not_mem_nil, or_false] at mem
    rcases mem with rfl | rfl
    · exact names_examples "user" (by decide)
    · exact names_examples "name" (by decide)
  · intro filter listed arg mem
    cases mem_singleton.mp listed
    cases mem_singleton.mp mem
    have text : "ctx.limit".toList = contextParameter.toList ++ chainText [.member "limit"] := by decide
    refine ⟨_, text ▸ reads_inContext fun link mem => ?_⟩
    cases mem_singleton.mp mem
    exact names_examples "limit" (by decide)

theorem body_saving : ReadsBody inside saving.handlerBody := by
  have text : saving.handlerBody = contextParameter.toList ++ (chainText [.member "save", .call ["ctx.user".toList]] ++ ";".toList) := by
    decide
  rw [text]
  refine readsBody_inContext fun link mem => ?_
  simp only [mem_cons, not_mem_nil, or_false] at mem
  rcases mem with rfl | rfl
  · exact names_examples "save" (by decide)
  · intro arg mem
    cases mem_singleton.mp mem
    have text : "ctx.user".toList = contextParameter.toList ++ chainText [.member "user"] := by decide
    refine ⟨_, text ▸ reads_inContext fun link mem => ?_⟩
    cases mem_singleton.mp mem
    exact names_examples "user" (by decide)

end ComponentCompiler.Expression
