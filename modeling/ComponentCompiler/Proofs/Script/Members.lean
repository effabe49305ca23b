import ComponentCompiler.Proofs.Script.Literals

/-! Written members and calls. Main statement: `reads_chain`. -/

namespace ComponentCompiler.Script

open Parse List Chars Lexer

/-- What may stand behind an expression: a member or a call, with the texts of its arguments. -/
inductive Link where
  | member (name : String)
  | call (args : List (List Char))

def Link.text : Link → List Char
  | .member name => ".".toList ++ name.toList
  | .call args => bracketed "(" ")" [] id args

def Link.Fits (context : Context) : Link → Prop
  | .member name => isName name = true
  | .call args => ∀ arg ∈ args, ∃ answer, Reads context arg answer

def chainText (links : List Link) : List Char := links.flatMap Link.text

theorem Lexer.lexes_dot (named : isName name) (rest) :
    Lexes ".".toList (.punct ".") (name.toList ++ rest) := by
  unfold isName at named
  split at named
  · cases named
  · rename_i c more letters
    rw [Bool.and_eq_true] at named
    have digit := isAsciiDigit_of_isNameStart named.1
    have dot : c ≠ '.' := by
      rintro rfl
      exact absurd named.1 (by decide)
    rw [letters]
    have letter : ".".toList = '.' :: [] := rfl
    refine lexes_punct _ letter (by decide) digit ?_
    have found : punct? ('.' :: c :: (more ++ rest)) = some "." := by
      simp [punct?, punctuators, startsWith, Chars.dropPrefix?, Ne.symm dot]
    exact found

theorem endsWord_chain (closes : Closes rest) : EndsWord (chainText links ++ rest) := by
  match links with
  | [] => exact closes.endsWord
  | .member name :: more =>
    rintro c ⟨⟩
    decide
  | .call args :: more =>
    rintro c ⟨⟩
    decide

theorem chainText_member (name) (more) (rest) :
    chainText (.member name :: more) ++ rest = ".".toList ++ (name.toList ++ (chainText more ++ rest)) := by
  simp only [chainText, flatMap_cons, Link.text, append_assoc]

theorem chainText_call (args) (more) (rest) :
    chainText (.call args :: more) ++ rest = bracketed "(" ")" [] id args ++ (chainText more ++ rest) := by
  simp only [chainText, flatMap_cons, Link.text, append_assoc]

section

variable {context : Context}

theorem follows_chain (each : ∀ link ∈ links, link.Fits context) (closes : Closes rest) : Follows (chainText links ++ rest) := by
  match links with
  | [] => exact closes.follows
  | .member name :: more =>
    intro offset
    rw [chainText_member]
    exact ⟨_, _, _, lexes_dot (each _ mem_cons_self) _ offset⟩
  | .call args :: more =>
    rw [chainText_call, bracketed, append_assoc]
    exact follows_single (by decide)

theorem readsItem_spreadable (plain : context.Plain) (reads : Reads context text answer)
    (enough : fuelFor text.length ≤ fuel) :
    ReadsItem (spreadable ⟨fuel, parse fuel⟩ context) ")" text fun _ _ => True where
  opens rest closes offset := by
    obtain ⟨lexeme, start, after, next, begins⟩ := reads.opens closes offset
    exact ⟨lexeme, start, after, next, Token.ne_of_begins begins _ (by decide)⟩
  taken rest closes offset s place := by
    obtain ⟨node, t, gives, goes, -⟩ := reads.parsed enough closes place
    have other := Token.ne_of_begins (reads.begins closes place) "..." (by decide)
    refine ⟨node, t, .bind gives_here (.bind (.eatPunct_other other) ?_), goes, trivial⟩
    rw [plain.within]
    exact gives

theorem takes_arguments (plain : context.Plain) (each : ∀ arg ∈ args, ∃ answer, Reads context arg answer)
    (enough : fuelFor (bracketed "(" ")" [] id args).length ≤ fuel + 3) (follows : Follows rest) :
    Takes (arguments ⟨fuel, parse fuel⟩ context) (bracketed "(" ")" [] id args) rest fun _ _ => True := by
  intro offset s place
  obtain ⟨fits, long⟩ := fits_bracketed (by decide) (by decide) enough
  obtain ⟨step, loop, same⟩ := listStep_delimited (spreadable ⟨fuel, parse fuel⟩ context) (by decide : ")" ≠ ",")
  have item : ∀ arg ∈ args, ReadsItem (spreadable ⟨fuel, parse fuel⟩ context) ")" (id arg) fun _ _ => True := by
    intro arg mem
    obtain ⟨answer, reads⟩ := each arg mem
    exact readsItem_spreadable plain reads (fits arg mem)
  obtain ⟨nodes, t, gives, goes, -⟩ :=
    takes_enclosed loop (by decide) (by decide) (.inl rfl) item long (.group rest) follows place
  refine ⟨nodes, t, ?_, goes, trivial⟩
  unfold arguments
  rw [same]
  exact gives

def chainStep (parts : Parts) (context : Context) (start : Nat) (found : Node × Bool) : Parse (Node × Bool ⊕ Node × Bool) := do
  match ← memberSuffix parts context start found.1 found.2 with
  | some longer => return .inl (longer, found.2)
  | none =>
    match ← token with
    | .punct "?." =>
      advance
      return .inl (← optionalSuffix parts context start found.1, true)
    | .punct "(" =>
      let items ← arguments parts context
      return .inl (← node start .call (found.1 :: items), found.2)
    | _ => return .inr found

theorem callChain_eq (parts) (context) (start) (object) :
    callChain parts context start object = (do
      let found ← iterate parts.fuel (chainStep parts context start) (object, false)
      if found.2 then node start .chain [found.1] else return found.1) := rfl

section

variable {s : State}

theorem gives_member (named : isName name) (ends : EndsWord rest) (follows : Follows rest)
    (place : s.At (".".toList ++ (name.toList ++ rest)) offset) :
    ∃ t, (chainStep parts context start (object, false)).Gives s
        (.inl (.mk (.member name) ⟨start, t.lastEnd⟩ [object], false)) t ∧
      s.Goes rest (offset + byteLength (".".toList ++ name.toList)) t := by
  have dot := lexes_dot named rest
  have word := lexes_word named ends
  obtain ⟨t, passed, goes⟩ := place.advance dot (word _)
  obtain ⟨lexeme, begins, after, next⟩ := follows (offset + byteLength ".".toList + byteLength name.toList)
  obtain ⟨u, taken, onward⟩ := goes.place.advance word next
  have token : t.current.token = .word name := by rw [(goes.place.current word).1]
  rw [Nat.add_assoc, ← byteLength_append] at onward
  refine ⟨u, .bind (a := some (.mk (.member name) ⟨start, u.lastEnd⟩ [object])) (t := u) (.bind gives_token ?_) .pure,
    goes.trans onward⟩
  have first : s.current.token = .punct "." := by rw [(place.current dot).1]
  have found : anyName.Gives t (name, t.current.span) u := by
    refine .bind gives_lexeme ?_
    rw [token]
    exact .bind taken .pure
  rw [first]
  refine .bind passed (.bind (.bind gives_token ?_) .pure)
  rw [token]
  exact .bind found gives_node

theorem gives_call (plain : context.Plain) (each : ∀ arg ∈ args, ∃ answer, Reads context arg answer)
    (enough : fuelFor (bracketed "(" ")" [] id args).length ≤ fuel + 3) (follows : Follows rest)
    (place : s.At (bracketed "(" ")" [] id args ++ rest) offset) :
    ∃ nodes t, (chainStep ⟨fuel, parse fuel⟩ context start (object, false)).Gives s
        (.inl (.mk .call ⟨start, t.lastEnd⟩ (object :: nodes), false)) t ∧
      s.Goes rest (offset + byteLength (bracketed "(" ")" [] id args)) t := by
  obtain ⟨nodes, t, gives, goes, -⟩ := takes_arguments plain each enough follows place
  have first : s.current.token = .punct "(" := by
    rw [bracketed, append_assoc] at place
    rw [(place.current (lexes_single (by decide) _)).1]
  refine ⟨nodes, t, .bind (a := none) (t := s) (.bind gives_token ?_) (.bind gives_token ?_), goes⟩
  · rw [first]
    exact .pure
  · rw [first]
    exact .bind gives (.bind gives_node .pure)

theorem gives_chainEnd (closer : s.current.token ∈ closers) :
    (chainStep parts context start (object, false)).Gives s (.inr (object, false)) s := by
  refine .bind (gives_memberSuffix closer) (.bind gives_token ?_)
  rcases mem_closers.mp closer with closer | closer | closer | closer | closer | closer
  all_goals
    rw [closer]
    exact .pure

end

theorem gives_chain {object : Node} {s : State} (plain : context.Plain) (each : ∀ link ∈ links, link.Fits context)
    (closes : Closes rest) (enough : fuelFor (chainText links).length ≤ fuel + 3) (long : links.length < bound)
    (place : s.At (chainText links ++ rest) offset) (last : s.lastEnd = offset) (began : object.span = ⟨start, offset⟩) :
    ∃ node t, (iterate bound (chainStep ⟨fuel, parse fuel⟩ context start) (object, false)).Gives s (node, false) t ∧
      s.Goes rest (offset + byteLength (chainText links)) t ∧
      node.span = ⟨start, offset + byteLength (chainText links)⟩ := by
  induction links generalizing bound offset object s with
  | nil =>
    obtain ⟨bound, rfl⟩ := Nat.exists_eq_succ_of_ne_zero (Nat.ne_of_gt long)
    exact ⟨object, s, .bind (gives_chainEnd (State.At.closer place closes)) .pure, ⟨place, last, rfl, rfl⟩, began⟩
  | cons link more ih =>
    obtain ⟨bound, rfl⟩ := Nat.exists_eq_succ_of_ne_zero (Nat.ne_of_gt (Nat.lt_of_le_of_lt (Nat.zero_le _) long))
    have later := forall_mem_cons.mp each
    have split : chainText (link :: more) = link.text ++ chainText more := flatMap_cons
    have length : byteLength (chainText (link :: more)) = byteLength link.text + byteLength (chainText more) := by
      rw [split, byteLength_append]
    have fits : fuelFor link.text.length ≤ fuel + 3 ∧ fuelFor (chainText more).length ≤ fuel + 3 := by
      simp only [split, fuelFor, length_append] at enough ⊢
      omega
    -- One step takes the link, and the rest is a chain behind a longer expression.
    have step : ∃ next t, (chainStep ⟨fuel, parse fuel⟩ context start (object, false)).Gives s (.inl (next, false)) t ∧
        s.Goes (chainText more ++ rest) (offset + byteLength link.text) t ∧ next.span = ⟨start, t.lastEnd⟩ := by
      cases link with
      | member name =>
        rw [chainText_member] at place
        obtain ⟨t, gives, goes⟩ := gives_member later.1 (endsWord_chain closes) (follows_chain later.2 closes) place
        exact ⟨_, t, gives, goes, rfl⟩
      | call args =>
        rw [chainText_call] at place
        obtain ⟨nodes, t, gives, goes⟩ := gives_call plain later.1 fits.1 (follows_chain later.2 closes) place
        exact ⟨_, t, gives, goes, rfl⟩
    obtain ⟨next, t, gives, goes, span⟩ := step
    obtain ⟨node, u, rest, onward, whole⟩ := ih later.2 fits.2 (Nat.lt_of_succ_lt_succ long) goes.place goes.last
      (by rw [span, goes.last])
    rw [length, ← Nat.add_assoc]
    exact ⟨node, u, .bind gives rest, goes.trans onward, whole⟩

theorem gives_variable {s : State} (plain : context.Plain) (usable : IsVariable name) (other : name ≠ "async")
    (word : s.current.token = .word name) (next : advance.Gives s () t) :
    (primary parts context).Gives s (.mk (.identifier name) s.current.span []) t := by
  have free := usable.free
  have plainly : atAsyncFunction.Gives s false s := by
    refine .bind gives_isWord ?_
    rw [if_neg (by simpa [word] using other)]
    exact .pure
  refine .bind gives_token ?_
  rw [word]
  refine .bind gives_lexeme ?_
  split
  all_goals try cases free
  exact .bind plainly (.bind (gives_variableName plain usable.free usable.other word next) .pure)

theorem length_chainText (each : ∀ link ∈ links, link.Fits context) : links.length ≤ (chainText links).length := by
  induction links with
  | nil => exact Nat.zero_le _
  | cons link more ih =>
    have later := ih (forall_mem_cons.mp each).2
    have some : 1 ≤ link.text.length := by
      cases link
      all_goals simp [Link.text, bracketed]
    simp only [chainText, flatMap_cons, length_append, length_cons] at later ⊢
    omega

theorem reads_chain (plain : context.Plain) (usable : IsVariable name) (other : name ∉ ["async", "yield"])
    (each : ∀ link ∈ links, link.Fits context) :
    Reads context (name.toList ++ chainText links) fun span node => node.span = span := by
  refine .of_head plain usable.isOperand (fun word listed same => other (Token.word.inj same ▸ listed))
    (fun rest closes => lexes_word usable.named (endsWord_chain closes)) fun fuel rest enough closes offset s place => ?_
  have ends : EndsWord (chainText links ++ rest) := endsWord_chain closes
  have word := lexes_word usable.named ends
  rw [append_assoc] at place
  have current := (place.current word).1
  obtain ⟨lexeme, start, after, next⟩ := follows_chain each closes (offset + byteLength name.toList)
  obtain ⟨t, taken, goes⟩ := place.advance word next
  have object : (primary ⟨fuel, parse fuel⟩ context).Gives s (.mk (.identifier name) s.current.span []) t :=
    gives_variable plain usable (fun same => other (same ▸ mem_cons_self)) (by rw [current]) taken
  have began : (Node.mk (.identifier name) s.current.span []).span = ⟨offset, offset + byteLength name.toList⟩ := by
    rw [current]
    rfl
  have long := length_chainText each
  simp only [fuelFor, length_append] at enough
  have fits : fuelFor (chainText links).length ≤ fuel + 3 := by
    rw [fuelFor]
    omega
  have enough' : links.length < fuel := by omega
  obtain ⟨node, u, chained, onward, span⟩ := gives_chain plain each closes fits enough' goes.place goes.last began
  rw [Nat.add_assoc, ← byteLength_append] at onward span
  have start : s.current.span.start = offset := by rw [current]
  refine ⟨node, u, .bind gives_here (.bind object ?_), goes.trans onward, span⟩
  rw [callChain_eq, start]
  exact .bind chained .pure

end

end ComponentCompiler.Script
