import ExprLang.Parser.Grammar
import ExprLang.Proofs.Contract
import ExprLang.Proofs.Phrase

/-!
# What the grammar has is read

Each rule reads the phrase that stands in front of it in the exact grammar, up to its last token and
without a report, if what follows does not carry the phrase on. An expression of a level is reached
by operator after operator: the rule for its left operand, extended by its operator, is the rule for
the whole of it. The knot is tied by induction on the nesting, and limits on the nesting and on the
rounds that exceed the number of tokens suffice.
-/

namespace ExprLang

namespace Phrase

/-- What follows an expression that is read above a floor does not carry it on. An `else` carries on
only what ends with a block. -/
structure Ends (level : Precedence) (rest : List Token) (node : Node) : Prop where
  rank_le : (headKind rest).precedence.rank ≤ level.rank
  hasBlock_eq : headKind rest = .elseWord → node.hasBlock = false

/-- What does not carry on an expression of a level carries on none of a tighter one, nor the last
part of it. -/
theorem Ends.mono {loose tight : Precedence} {rest : List Token} {node part : Node}
    (h : Ends loose rest node) (hrank : loose.rank ≤ tight.rank)
    (hpart : node.hasBlock = false → part.hasBlock = false) : Ends tight rest part :=
  ⟨Nat.le_trans h.rank_le hrank, hpart ∘ h.hasBlock_eq⟩

/-- A token that is no operator and no `else` ends every expression. -/
theorem Ends.of_kind {level : Precedence} {rest : List Token} {node : Node} {kind : Kind}
    (hkind : headKind rest = kind) (hlowest : kind.precedence = .lowest)
    (helse : kind ≠ .elseWord) : Ends level rest node :=
  ⟨by rw [hkind, hlowest]; exact Nat.zero_le _, fun h => absurd (hkind.symm.trans h) helse⟩

/-- The left operand of an operator ends before it. -/
theorem Ends.of_mem_operators {level : Precedence} {operator : Token} {rest : List Token}
    {node : Node} (h : operator.kind ∈ level.operators) : Ends level (operator :: rest) node := by
  obtain ⟨hbinary, hlevel⟩ := Precedence.mem_operators_iff.mp h
  refine ⟨Nat.le_of_eq (by rw [headKind_cons, hlevel]), fun helse => ?_⟩
  rw [headKind_cons] at helse
  rw [helse] at hbinary
  exact absurd hbinary (by decide)

/-- The tokens after a semicolon, if there is one. -/
def passSemicolon (tokens : List Token) : List Token :=
  if headKind tokens = .semicolon then tokens.tail else tokens

/-- The tokens that close a sequence of statements: a closing brace or the end. -/
def Closing (rest : List Token) : Prop :=
  headKind rest = .rbrace ∨ headKind rest = .eof

/-- No statement begins with a semicolon or with what closes a sequence. -/
theorem not_startsStatement {kind : Kind} (h : kind = .semicolon ∨ kind = .rbrace ∨ kind = .eof) :
    startsStatement kind = false := by
  rcases h with rfl | rfl | rfl <;> decide

/-- In the exact grammar a semicolon before a sequence of statements may be left out. -/
theorem Body.passSemicolon {tokens rest : List Token} {statements : List Node}
    (h : Body .exact tokens rest statements) (hrest : Closing rest) :
    Body .exact (passSemicolon tokens) rest statements := by
  unfold Phrase.passSemicolon
  by_cases hsemicolon : headKind tokens = .semicolon
  · rw [if_pos hsemicolon]
    cases h with
    | nil =>
      rcases hrest with hrest | hrest <;> rw [hsemicolon] at hrest <;> exact nomatch hrest
    | skip _ h => exact h
    | cons _ hstatement _ =>
      obtain ⟨token, ahead, rfl, hstart, -⟩ := hstatement.begins
      rw [headKind_cons] at hsemicolon
      rw [not_startsStatement (.inl hsemicolon)] at hstart
      exact nomatch hstart
  · rw [if_neg hsemicolon]
    exact h

/-- A statement ends where the rest of a sequence begins, unless a token carries it on. -/
theorem Body.ends {tokens rest : List Token} {statements : List Node}
    {node : Node} (h : Body .exact tokens rest statements) (hended : Ended tokens)
    (hrest : Closing rest) : Ends .lowest tokens node := by
  cases h with
  | nil =>
    rcases hrest with hrest | hrest
    · exact .of_kind hrest rfl (by decide)
    · exact .of_kind hrest rfl (by decide)
  | skip hsemicolon _ => exact .of_kind (hsemicolon rfl) rfl (by decide)
  | cons _ hstatement _ =>
    obtain ⟨token, ahead, rfl, hstart, -⟩ := hstatement.begins
    obtain ⟨hminus, hlparen⟩ := hended
    rw [headKind_cons] at hminus hlparen
    refine .of_kind rfl ?_ ?_
    all_goals
      rw [headKind_cons]
      revert hstart hminus hlparen
      cases token.kind <;> decide

end Phrase

namespace Rule

variable {σ β : Type} [LawfulSource σ] {parser : Parser σ} {rest : List Token}

/-- A rule that expects what stands there goes on from it. -/
theorem expect_bind_apply {token : Token} {kind : Kind} (next : Unit → Rule σ β)
    (h : parser.Faces (token :: rest)) (hkind : token.kind = kind) :
    (expect kind >>= next) parser = next () parser.advance :=
  expect_bind_of_eq next (h.peek_kind.trans hkind)

/-- A rule that reads a name goes on with it. -/
theorem identifier_bind_apply {name : Token} (next : Node → Rule σ β)
    (h : parser.StandsAt (name :: rest)) :
    (Grammar.identifier >>= next) parser = next (.identifier name.literal) parser := by
  have hcurrent : parser.current = name := h.current
  rw [← hcurrent]
  rfl

end Rule

namespace Grammar

open Rule Outcome Phrase

variable {σ : Type} [LawfulSource σ] {parser : Parser σ} {tokens rest : List Token}
  {steps rounds size : Nat} {nested : Int → Rule σ Node}

/-- The rule for nested expressions reads every expression with fewer than `size` tokens from its
start on, and refuses at once what begins with no token of an expression. -/
structure AcceptsNested (σ : Type) [LawfulSource σ] (size : Nat) (nested : Int → Rule σ Node) :
    Prop where
  accepts : ∀ {level tokens rest node}, level ≠ .call → tokens.length < size →
    Expression .exact level.operand tokens rest node → Ends level rest node →
      ∀ parser : Parser σ, parser.StandsAt tokens →
        (nested level.floor parser).Yields parser.errors node rest
  refuses : ∀ {floor : Int} {token : Token} {rest}, (token :: rest).length < size →
    startsExpression token.kind = false →
      ∀ parser : Parser σ, parser.StandsAt (token :: rest) →
        nested floor parser = .abandoned parser

/-- An expression of the lowest level is read as a nested expression above the lowest floor. -/
theorem AcceptsNested.lowest {node : Node} (h : AcceptsNested σ size nested)
    (hstand : parser.StandsAt tokens) (hsize : tokens.length < size)
    (hexpression : Expression .exact .lowest tokens rest node) (hends : Ends .lowest rest node) :
    (nested Precedence.lowest.floor parser).Yields parser.errors node rest := by
  refine h.accepts (by decide) hsize ?_ hends parser hstand
  cases hexpression with
  | tighter h => exact h
  | binary hkind _ _ => exact nomatch hkind

/-! ## Parameters and arguments -/

/-- The rest of a list of parameters is read, after the first name. -/
theorem parametersFrom_yields {name : Token} {after : List Token} {more : List Node}
    (read : Array Node) (h : ParametersFrom (name :: rest) after more) (hfaces : parser.Faces rest)
    (hrounds : rest.length < rounds) :
    (parametersFrom rounds (read.push (.identifier name.literal)) parser).Yields parser.errors
      (read.toList ++ more) after := by
  induction rounds generalizing read name rest more parser with
  | zero => exact absurd hrounds (Nat.not_lt_zero _)
  | succ rounds ih =>
    rw [parametersFrom, peek_bind_apply, hfaces.peek_kind]
    cases h with
    | @last _ closing _ hname hclosing =>
      rw [headKind_cons, if_neg (by rw [hclosing]; decide), expect_bind_apply _ hfaces hclosing]
      exact ⟨closing, parser.advance, by simp, hfaces.advance, rfl⟩
    | @more _ comma tail _ parameters hname hcomma hmore =>
      rw [headKind_cons, if_pos hcomma, advance_bind_apply]
      have hstand := hfaces.advance
      cases tail with
      | nil => exact nomatch hmore
      | cons next tail =>
        have hnext : next.kind = .ident := by
          cases hmore with
          | last hname _ => exact hname
          | more hname _ _ => exact hname
        rw [expect_bind_apply _ hstand.faces hnext, identifier_bind_apply _ hstand.faces.advance]
        simp only [List.length_cons] at hrounds
        have hyields := ih (read.push (.identifier name.literal)) hmore hstand.faces.advance.faces
          (by omega)
        rwa [Array.toList_push, List.append_assoc] at hyields

/-- The parameters after an opening parenthesis are read. -/
theorem parameters_yields {after : List Token} {names : List Node}
    (h : Parameters rest after names) (hfaces : parser.Faces rest) (hsteps : rest.length < steps) :
    (parameters steps parser).Yields parser.errors names after := by
  rw [parameters, peek_bind_apply, hfaces.peek_kind]
  cases h with
  | none hclosing =>
    rw [headKind_cons, if_pos hclosing, advance_bind_apply]
    exact ⟨_, parser.advance, rfl, hfaces.advance, rfl⟩
  | some hfrom =>
    cases rest with
    | nil => exact nomatch hfrom
    | cons name tail =>
      have hname : name.kind = .ident := by
        cases hfrom with
        | last hname _ => exact hname
        | more hname _ _ => exact hname
      rw [headKind_cons, if_neg (by rw [hname]; decide), expect_bind_apply _ hfaces hname,
        identifier_bind_apply _ hfaces.advance]
      simp only [List.length_cons] at hsteps
      exact parametersFrom_yields #[] hfrom hfaces.advance.faces (by omega)

section Nested

variable (hnested : AcceptsNested σ size nested)

include hnested

/-- The rest of a list of arguments is read, with the first one still to be read. -/
theorem argumentsFrom_yields {after : List Token} {more : List Node}
    (read : Array Node) (h : ArgumentsFrom .exact tokens after more)
    (hstand : parser.StandsAt tokens) (hsize : tokens.length < size)
    (hrounds : tokens.length ≤ rounds) :
    ((nested Precedence.lowest.floor >>= fun argument =>
      argumentsFrom nested rounds (read.push argument)) parser).Yields parser.errors
        (read.toList ++ more) after := by
  induction rounds generalizing read tokens more parser with
  | zero =>
    obtain rfl := List.length_eq_zero_iff.mp (Nat.le_zero.mp hrounds)
    cases h with
    | last _ hargument => exact absurd hargument.begins.length_lt (Nat.not_lt_zero _)
    | more _ hargument _ => exact absurd hargument.begins.length_lt (Nat.not_lt_zero _)
  | succ rounds ih =>
    cases h with
    | @last closing _ _ argument hclosing hargument =>
      have hends : Ends .lowest (closing :: after) argument := .of_kind hclosing rfl (by decide)
      apply (hnested.lowest hstand hsize hargument hends).bind
      intro _ parser hstand herrors
      have hfaces : parser.Faces (closing :: after) := hstand.faces
      rw [argumentsFrom, peek_bind_apply, hfaces.peek_kind, headKind_cons,
        if_neg (by rw [hclosing]; decide), expect_bind_apply _ hfaces hclosing]
      exact ⟨closing, parser.advance, by simp, hfaces.advance, herrors⟩
    | @more comma _ middle _ argument arguments hcomma hargument hmore =>
      have hends : Ends .lowest (comma :: middle) argument := .of_kind hcomma rfl (by decide)
      apply (hnested.lowest hstand hsize hargument hends).bind
      intro _ parser hstand herrors
      have hfaces : parser.Faces (comma :: middle) := hstand.faces
      rw [argumentsFrom, peek_bind_apply, hfaces.peek_kind, headKind_cons, if_pos hcomma,
        advance_bind_apply, advance_bind_apply]
      have hless := hargument.begins.length_lt
      simp only [List.length_cons] at hless
      have hyields := ih (read.push argument) hmore hfaces.advance.faces.advance (by omega)
        (by omega)
      rwa [Array.toList_push, List.append_assoc, show parser.advance.advance.errors = parser.errors
        from rfl, herrors] at hyields

/-- The arguments after an opening parenthesis are read. -/
theorem arguments_yields {after : List Token} {values : List Node}
    (h : Arguments .exact rest after values) (hfaces : parser.Faces rest)
    (hsize : rest.length < size) (hsteps : size ≤ steps) :
    (arguments steps nested parser).Yields parser.errors values after := by
  rw [arguments, peek_bind_apply, hfaces.peek_kind]
  cases h with
  | none hclosing =>
    rw [headKind_cons, if_pos hclosing, advance_bind_apply]
    exact ⟨_, parser.advance, rfl, hfaces.advance, rfl⟩
  | some hfrom =>
    have hstart : headKind rest ≠ .rparen := by
      have hbegins : Begins startsExpression rest after := by
        cases hfrom with
        | last _ hargument => exact hargument.begins.trans (List.suffix_cons _ _)
        | more _ hargument hmore =>
          exact hargument.begins.trans (hmore.suffix.trans (List.suffix_cons _ _))
      obtain ⟨token, ahead, rfl, hstart, -⟩ := hbegins
      intro hkind
      rw [headKind_cons] at hkind
      rw [hkind] at hstart
      exact nomatch hstart
    rw [if_neg hstart, advance_bind_apply]
    exact argumentsFrom_yields hnested #[] hfrom hfaces.advance hsize (by omega)

/-! ## Statements -/

omit hnested in
/-- A statement passes the semicolon after it. -/
theorem accept_yields {errors : Array Diagnostic} {token : Token} (node : Node)
    (hstand : parser.StandsAt (token :: rest)) (herrors : parser.errors = errors) :
    ((do accept .semicolon; return node : Rule σ Node) parser).Yields errors node
      (passSemicolon rest) := by
  have hfaces : parser.Faces rest := hstand.faces
  unfold passSemicolon
  by_cases hsemicolon : headKind rest = .semicolon
  · obtain ⟨semicolon, tail, rfl, -⟩ := exists_cons_of_headKind hsemicolon (by decide)
    rw [if_pos hsemicolon]
    refine ⟨semicolon, parser.advance, ?_, hfaces.advance, herrors⟩
    rw [bind_apply, accept, if_pos (hfaces.peek_kind.trans hsemicolon)]
    rfl
  · rw [if_neg hsemicolon]
    refine ⟨token, parser, ?_, hstand, herrors⟩
    rw [bind_apply, accept, if_neg (by rw [hfaces.peek_kind]; exact hsemicolon)]
    rfl

/-- The statement under examination is read. -/
theorem statement_yields {node : Node} (h : Statement .exact tokens rest node)
    (hstand : parser.StandsAt tokens) (hsize : tokens.length < size)
    (hends : ∀ value, Ends .lowest rest value) :
    (statement nested parser).Yields parser.errors node (passSemicolon rest) := by
  have hbegun := hstand.beginStatement
  have hkind := hbegun.current_kind
  unfold statement
  dsimp only
  cases h with
  | @letStatement word name sign tokens _ value hword hname hsign hvalue =>
    rw [hkind, headKind_cons, hword]
    simp only [List.length_cons] at hsize
    change (letStatement nested parser.beginStatement).Yields _ _ _
    have hfaces : parser.beginStatement.Faces (name :: sign :: tokens) := hbegun.faces
    rw [letStatement, expect_bind_apply _ hfaces hname, identifier_bind_apply _ hfaces.advance,
      expect_bind_apply _ hfaces.advance.faces hsign, advance_bind_apply]
    have hstand : parser.beginStatement.advance.advance.advance.StandsAt tokens :=
      hfaces.advance.faces.advance.faces.advance
    exact (hnested.lowest hstand (by omega) hvalue (hends value)).bind fun _ _ hstand herrors =>
      accept_yields _ hstand herrors
  | @returnStatement word tokens _ value hword hvalue =>
    rw [hkind, headKind_cons, hword]
    simp only [List.length_cons] at hsize
    change (returnStatement nested parser.beginStatement).Yields _ _ _
    rw [returnStatement, advance_bind_apply]
    have hstand : parser.beginStatement.advance.StandsAt tokens := hbegun.faces.advance
    exact (hnested.lowest hstand (by omega) hvalue (hends value)).bind fun _ _ hstand herrors =>
      accept_yields _ hstand herrors
  | expressionStatement hvalue =>
    obtain ⟨token, ahead, rfl, hstart, -⟩ := hvalue.begins
    rw [hkind, headKind_cons]
    split
    next hword => rw [hword] at hstart; exact nomatch hstart
    next hword => rw [hword] at hstart; exact nomatch hstart
    next =>
      rw [expressionStatement]
      exact (hnested.lowest hbegun hsize hvalue (hends _)).bind fun _ _ hstand herrors =>
        accept_yields _ hstand herrors

/-- A semicolon that no statement begins with is given up at once. -/
theorem statement_semicolon {token : Token} (hkind : token.kind = .semicolon)
    (hstand : parser.StandsAt (token :: rest)) (hsize : (token :: rest).length < size) :
    statement nested parser = .abandoned parser.beginStatement := by
  have hbegun := hstand.beginStatement
  have hcurrent : parser.beginStatement.current.kind = .semicolon :=
    hbegun.current_kind.trans hkind
  unfold statement
  dsimp only
  rw [hcurrent]
  change expressionStatement nested parser.beginStatement = _
  rw [expressionStatement, bind_apply, hnested.refuses hsize (by rw [hkind]; rfl) _ hbegun]

/-- A sequence of statements is read up to the token that closes it. -/
theorem statementsUntil_done {closes : Kind → Bool} {statements : List Node}
    (hcloses : ∀ kind, closes kind = true → kind = .rbrace ∨ kind = .eof)
    (hrest : closes (headKind rest) = true) (read : Array Node)
    (h : Body .exact tokens rest statements) (hstand : parser.StandsAt tokens)
    (hsize : tokens.length < size) (hrounds : tokens.length < rounds) :
    ∃ last : Parser σ, statementsUntil nested closes rounds read parser =
        .done (read.toList ++ statements) last ∧
      last.StandsAt rest ∧ last.errors = parser.errors := by
  induction rounds generalizing read tokens statements parser with
  | zero => exact absurd hrounds (Nat.not_lt_zero _)
  | succ rounds ih =>
    have hopen : ∀ kind, kind ≠ .rbrace → kind ≠ .eof → ¬ closes kind = true :=
      fun kind hrbrace heof hclose => (hcloses kind hclose).elim hrbrace heof
    rw [statementsUntil, current_bind_apply, hstand.current_kind]
    cases h with
    | nil =>
      rw [if_pos hrest]
      exact ⟨parser, by simp, hstand, rfl⟩
    | @skip token ahead _ _ hsemicolon hbody =>
      have hkind := hsemicolon rfl
      rw [headKind_cons, if_neg (hopen _ (by rw [hkind]; decide) (by rw [hkind]; decide)),
        bind_apply, attempt, statement_semicolon hnested hkind hstand hsize]
      change ∃ last : Parser σ, statementsUntil nested closes rounds read
        parser.beginStatement.advance = _ ∧ _
      simp only [List.length_cons] at hsize hrounds
      exact ih read hbody hstand.beginStatement.faces.advance (by omega) (by omega)
    | @cons _ middle _ node _ hended hstatement hbody =>
      have hbegins := hstatement.begins
      have hclosing : Closing rest := hcloses _ hrest
      obtain ⟨_, after, houtcome, hafter, herrors⟩ := statement_yields hnested hstatement hstand
        hsize fun _ => hbody.ends (hended rfl) hclosing
      have hnotClose : ¬ closes (headKind tokens) = true := by
        obtain ⟨token, ahead, rfl, hstart, -⟩ := hbegins
        intro hclose
        rw [headKind_cons] at hclose
        rw [not_startsStatement (.inr (hcloses _ hclose))] at hstart
        exact nomatch hstart
      rw [if_neg hnotClose, bind_apply, attempt, houtcome]
      change ∃ last : Parser σ, statementsUntil nested closes rounds (read.push node)
        after.advance = _ ∧ _
      have hlength : (passSemicolon middle).length ≤ middle.length := by
        unfold passSemicolon
        split
        · simp
        · exact Nat.le_refl _
      have hless := hbegins.length_lt
      obtain ⟨last, hlast, hstand, herrors'⟩ := ih (read.push node) (hbody.passSemicolon hclosing)
        hafter.faces.advance (by omega) (by omega)
      exact ⟨last, by rw [hlast]; simp, hstand, herrors'.trans herrors⟩

/-- A block is read from its opening brace to its closing one. -/
theorem block_yields {node : Node} (h : Block .exact tokens rest node)
    (hstand : parser.StandsAt tokens) (hsize : tokens.length ≤ size) (hsteps : size ≤ steps) :
    (block steps nested parser).Yields parser.errors node rest := by
  cases h with
  | @closed opening closing tokens _ statements _ hclosing hbody =>
    simp only [List.length_cons] at hsize
    have hcloses : ∀ kind, closesBlock kind = true → kind = .rbrace ∨ kind = .eof :=
      fun kind hclose => by simpa [closesBlock] using hclose
    have hrest : closesBlock (headKind (closing :: rest)) = true := by
      rw [headKind_cons, hclosing]
      rfl
    obtain ⟨last, hlast, hlastStand, herrors⟩ := statementsUntil_done hnested hcloses hrest #[]
      hbody hstand.faces.advance (by omega) (by omega : tokens.length < steps)
    refine ⟨closing, last, ?_, hlastStand, herrors⟩
    rw [block, advance_bind_apply, bind_apply, hlast]
    rfl
  | unclosed hmode _ _ => exact nomatch hmode

/-- A block and its opening brace are read, and what comes after them. -/
theorem braced_yields {next : Node → Rule σ Node} {errors : Array Diagnostic}
    {after last : List Token} {node value : Node} (h : Block .exact rest after node)
    (hfaces : parser.Faces rest) (herrors : parser.errors = errors) (hsize : rest.length ≤ size)
    (hsteps : size ≤ steps)
    (hnext : ∀ token, ∀ parser : Parser σ, parser.StandsAt (token :: after) →
      parser.errors = errors → (next node parser).Yields errors value last) :
    ((expect .lbrace >>= fun _ => block steps nested >>= next) parser).Yields errors value
      last := by
  cases h with
  | closed hopening hclosing hbody =>
    rw [expect_bind_apply _ hfaces hopening]
    have hblock :=
      block_yields hnested (.closed hopening hclosing hbody) hfaces.advance hsize hsteps
    subst herrors
    exact hblock.bind hnext
  | unclosed hmode _ _ => exact nomatch hmode

/-! ## Operands -/

/-- A choice is read from its first word. -/
theorem conditional_yields {word opening closing : Token} {middle after : List Token}
    {condition consequence : Node} {alternative : Option Node}
    (hstand : parser.StandsAt (word :: opening :: tokens)) (hopening : opening.kind = .lparen)
    (hclosing : closing.kind = .rparen)
    (hcondition : Expression .exact .lowest tokens (closing :: middle) condition)
    (hconsequence : Block .exact middle after consequence)
    (halternative : (alternative = none ∧ after = rest ∧ headKind rest ≠ .elseWord) ∨
      ∃ otherwise tail node, after = otherwise :: tail ∧ otherwise.kind = .elseWord ∧
        alternative = some node ∧ Block .exact tail rest node)
    (hsize : tokens.length < size) (hsteps : size ≤ steps) :
    (conditional steps nested parser).Yields parser.errors
      (.conditional condition consequence alternative) rest := by
  have hfaces : parser.Faces (opening :: tokens) := hstand.faces
  rw [conditional, expect_bind_apply _ hfaces hopening, advance_bind_apply]
  have hstand : parser.advance.advance.StandsAt tokens := hfaces.advance.faces.advance
  have hends : Ends .lowest (closing :: middle) condition := .of_kind hclosing rfl (by decide)
  apply (hnested.lowest hstand hsize hcondition hends).bind
  intro _ parser hstand herrors
  have hfaces : parser.Faces (closing :: middle) := hstand.faces
  have hless := hcondition.begins.length_lt
  simp only [List.length_cons] at hless
  rw [expect_bind_apply _ hfaces hclosing]
  apply braced_yields hnested hconsequence hfaces.advance.faces herrors (by omega) hsteps
  intro last parser hstand herrors
  have hfaces : parser.Faces after := hstand.faces
  rw [peek_bind_apply, hfaces.peek_kind]
  rcases halternative with ⟨rfl, rfl, helse⟩ | ⟨otherwise, tail, node, rfl, helse, rfl, hnode⟩
  · rw [if_neg helse]
    exact ⟨last, parser, rfl, hstand, herrors⟩
  · rw [headKind_cons, if_pos helse, advance_bind_apply]
    have hshorter := (suffix_of_cons_suffix hconsequence.suffix).length_le
    apply braced_yields hnested hnode hfaces.advance.faces herrors (by omega) hsteps
    exact fun last parser hstand herrors => ⟨last, parser, rfl, hstand, herrors⟩

/-- A primary expression is read, unless an `else` follows that is not its own. -/
theorem primary_yields {node : Node} (h : Primary .exact tokens rest node)
    (hstand : parser.StandsAt tokens) (hsize : tokens.length ≤ size) (hsteps : size ≤ steps)
    (helse : headKind rest = .elseWord → node.hasBlock = false) :
    (operand steps nested parser).Yields parser.errors node rest := by
  have hkind := hstand.current_kind
  unfold operand
  cases h with
  | identifier hname =>
    rw [hkind, headKind_cons, hname, ← hstand.current_eq]
    exact ⟨_, parser, rfl, hstand, rfl⟩
  | integer hnumeral hvalue =>
    rw [hkind, headKind_cons, hnumeral]
    change (integer parser).Yields _ _ _
    rw [integer, current_bind_apply, hstand.current_eq, Text.integerOf?_eq_some_iff.mpr hvalue]
    exact ⟨_, parser, rfl, hstand, rfl⟩
  | true hword =>
    rw [hkind, headKind_cons, hword]
    change (boolean parser).Yields _ _ _
    rw [boolean, current_bind_apply, hkind, headKind_cons, hword]
    exact ⟨_, parser, rfl, hstand, rfl⟩
  | false hword =>
    rw [hkind, headKind_cons, hword]
    change (boolean parser).Yields _ _ _
    rw [boolean, current_bind_apply, hkind, headKind_cons, hword]
    exact ⟨_, parser, rfl, hstand, rfl⟩
  | @grouped opening closing inside _ _ hopening hclosing hinner =>
    rw [hkind, headKind_cons, hopening]
    change (grouped nested parser).Yields _ _ _
    rw [grouped, advance_bind_apply]
    simp only [List.length_cons] at hsize
    have hfaces : parser.Faces inside := hstand.faces
    have hends : Ends .lowest (closing :: rest) node := .of_kind hclosing rfl (by decide)
    refine (hnested.lowest hfaces.advance (by omega) hinner hends).bind
      fun _ parser hstand herrors => ?_
    have hfaces : parser.Faces (closing :: rest) := hstand.faces
    rw [expect_bind_apply _ hfaces hclosing]
    exact ⟨closing, parser.advance, rfl, hfaces.advance, herrors⟩
  | choice hword hopening hclosing hcondition hconsequence =>
    rw [hkind, headKind_cons, hword]
    simp only [List.length_cons] at hsize
    have hnotElse : headKind rest ≠ .elseWord := by
      intro hkind
      have hclear := helse hkind
      simp [Node.hasBlock, hconsequence.hasBlock] at hclear
    exact conditional_yields hnested hstand hopening hclosing hcondition hconsequence
      (.inl ⟨rfl, rfl, hnotElse⟩) (by omega) hsteps
  | choiceElse hword hopening hclosing hotherwise hcondition hconsequence halternative =>
    rw [hkind, headKind_cons, hword]
    simp only [List.length_cons] at hsize
    exact conditional_yields hnested hstand hopening hclosing hcondition hconsequence
      (.inr ⟨_, _, _, rfl, hotherwise, rfl, halternative⟩) (by omega) hsteps
  | @function word opening inside middle _ names body hword hopening hnames hbody =>
    rw [hkind, headKind_cons, hword]
    change (function steps nested parser).Yields _ _ _
    simp only [List.length_cons] at hsize
    have hfaces : parser.Faces (opening :: inside) := hstand.faces
    rw [function, expect_bind_apply _ hfaces hopening]
    have hfaces : parser.advance.Faces inside := hfaces.advance.faces
    apply (parameters_yields hnames hfaces (by omega)).bind
    intro _ parser hstand herrors
    have hshorter := hnames.suffix.length_le
    apply braced_yields hnested hbody hstand.faces herrors (by omega) hsteps
    exact fun last parser hstand herrors => ⟨last, parser, rfl, hstand, herrors⟩

/-! ## Operators -/

/-- One more binary operator: extending its left operand is extending the whole. -/
theorem climb_binary {floor level : Precedence} {operator : Token} {left right : Node}
    (hkind : operator.kind ∈ level.operators) (hfloor : floor.operand.rank ≤ level.rank)
    (hfaces : parser.Faces (operator :: tokens))
    (hright : Expression .exact level.tighter tokens rest right) (hends : Ends level rest right)
    (hsize : tokens.length < size) :
    ∃ token, ∃ after : Parser σ, climb steps nested floor.floor (rounds + 1) left parser =
        climb steps nested floor.floor rounds (.binary left operator.literal right) after ∧
      after.StandsAt (token :: rest) ∧ after.errors = parser.errors := by
  obtain ⟨hbinary, hlevel⟩ := Precedence.mem_operators_iff.mp hkind
  have habove := Precedence.rank_lt_of_mem_operators hkind hfloor
  have hstand : parser.advance.StandsAt (operator :: tokens) := hfaces.advance
  rw [← Precedence.operand_of_mem_operators hkind] at hright
  obtain ⟨token, after, houtcome, hafter, herrors⟩ := hnested.accepts
    (Precedence.ne_call_of_mem_operators hkind) hsize hright hends _ hstand.faces.advance
  have hread : binary nested left parser.advance =
      .done (.binary left operator.literal right) after := by
    rw [binary, current_bind_apply, hstand.current_eq, advance_bind_apply, bind_apply, hlevel,
      houtcome]
    rfl
  have hnotStop :
      ¬ (operator.kind = .semicolon ∨ operator.kind.precedence.floor ≤ floor.floor) := by
    intro hstop
    rcases hstop with hsemicolon | hle
    · rw [hsemicolon] at hbinary
      exact nomatch hbinary
    · rw [hlevel] at hle
      exact absurd (Int.ofNat_le.mp hle) (Nat.not_le.mpr habove)
  refine ⟨token, after, ?_, hafter, herrors⟩
  rw [climb, peek_bind_apply, hfaces.peek_kind, headKind_cons, if_neg hnotStop, if_pos hbinary,
    advance_bind_apply, bind_apply, hread]

/-- One more call: extending the callee is extending the whole. -/
theorem climb_call {floor : Precedence} {opening : Token} {callee : Node} {values : List Node}
    (hopening : opening.kind = .lparen) (hfloor : floor ≠ .call)
    (hfaces : parser.Faces (opening :: tokens)) (harguments : Arguments .exact tokens rest values)
    (hsize : tokens.length < size) (hsteps : size ≤ steps) :
    ∃ token, ∃ after : Parser σ, climb steps nested floor.floor (rounds + 1) callee parser =
        climb steps nested floor.floor rounds (.call callee values) after ∧
      after.StandsAt (token :: rest) ∧ after.errors = parser.errors := by
  obtain ⟨token, after, houtcome, hafter, herrors⟩ := arguments_yields hnested harguments
    hfaces.advance.faces hsize hsteps
  have hread : call steps nested callee parser.advance = .done (.call callee values) after := by
    rw [call, bind_apply, houtcome]
    rfl
  have hnotStop : ¬ (opening.kind = .semicolon ∨ opening.kind.precedence.floor ≤ floor.floor) := by
    rw [hopening]
    cases floor <;> first | decide | exact absurd rfl hfloor
  have hnotBinary : ¬ opening.kind.isBinary = true := by
    rw [hopening]
    decide
  refine ⟨token, after, ?_, hafter, herrors⟩
  rw [climb, peek_bind_apply, hfaces.peek_kind, headKind_cons, if_neg hnotStop,
    if_neg hnotBinary, if_pos hopening, advance_bind_apply, bind_apply, hread]

/-- A prefix operator and its operand are read. -/
theorem unary_yields (steps : Nat) {operator : Token} {right : Node}
    (hkind : operator.kind = .bang ∨ operator.kind = .minus)
    (hstand : parser.StandsAt (operator :: tokens))
    (hright : Expression .exact .unary tokens rest right) (hends : Ends .unary rest right)
    (hsize : tokens.length < size) :
    (operand steps nested parser).Yields parser.errors (.unary operator.literal right) rest := by
  have hread : (unary nested parser).Yields parser.errors (.unary operator.literal right) rest := by
    rw [unary, current_bind_apply, hstand.current_eq, advance_bind_apply]
    have hnext : parser.advance.StandsAt tokens := hstand.faces.advance
    have hlevel : Precedence.unary ≠ .call := by decide
    exact (hnested.accepts hlevel hsize hright hends _ hnext).bind
      fun token parser hstand herrors => ⟨token, parser, rfl, hstand, herrors⟩
  have hcurrent := hstand.current_kind
  rw [headKind_cons] at hcurrent
  unfold operand
  rcases hkind with hkind | hkind
  · rw [hcurrent, hkind]
    exact hread
  · rw [hcurrent, hkind]
    exact hread

/-- An expression is reached: reading from its start is extending its tree from its end. The
induction follows its left operands, down to the operand that the rule begins with. -/
theorem reaches {floor level : Precedence} {tokens rest : List Token} {node : Node}
    (hfloor : floor ≠ .call) (hstand : parser.StandsAt tokens) (hsize : tokens.length ≤ size)
    (hsteps : size ≤ steps) :
    Expression .exact level tokens rest node → floor.operand.rank ≤ level.rank →
      Ends level rest node →
      ∃ rounds token, ∃ after : Parser σ, rest.length < rounds ∧
        (operand steps nested >>= climb steps nested floor.floor steps) parser =
          climb steps nested floor.floor rounds node after ∧
        after.StandsAt (token :: rest) ∧ after.errors = parser.errors
  | .tighter h, hrank, hends => by
    have hlevel : level.rank ≤ level.tighter.rank := by cases level <;> decide
    exact reaches hfloor hstand hsize hsteps h (Nat.le_trans hrank hlevel) (hends.mono hlevel id)
  | @Expression.binary _ _ operator _ middle _ _ _ hkind hleft hright, hrank, hends => by
    obtain ⟨rounds, _, after, hrounds, hread, hafter, herrors⟩ :=
      reaches hfloor hstand hsize hsteps hleft hrank (.of_mem_operators hkind)
    have hless := hleft.begins.length_lt
    have hmore := hright.begins.length_lt
    simp only [List.length_cons] at hless hrounds
    obtain ⟨rounds, rfl⟩ : ∃ fewer, rounds = fewer + 1 := ⟨rounds - 1, by omega⟩
    have hlast := hends.mono (Nat.le_refl _) fun hclear => (Bool.or_eq_false_iff.mp hclear).2
    obtain ⟨token, last, hstep, hlast, herrors'⟩ :=
      climb_binary hnested hkind hrank hafter.faces hright hlast (by omega)
    exact ⟨rounds, token, last, by omega, hread.trans hstep, hlast, herrors'.trans herrors⟩
  | @Expression.call _ opening _ middle _ _ _ hopening hcallee harguments, hrank, hends => by
    have hcall {callee : Node} : Ends .call (opening :: middle) callee :=
      ⟨Precedence.rank_le _, by rw [headKind_cons, hopening]; exact (nomatch ·)⟩
    obtain ⟨rounds, _, after, hrounds, hread, hafter, herrors⟩ :=
      reaches hfloor hstand hsize hsteps hcallee hrank hcall
    have hless := hcallee.begins.length_lt
    have hmore := harguments.suffix.length_le
    simp only [List.length_cons] at hless hrounds
    obtain ⟨rounds, rfl⟩ : ∃ fewer, rounds = fewer + 1 := ⟨rounds - 1, by omega⟩
    obtain ⟨token, last, hstep, hlast, herrors'⟩ :=
      climb_call hnested hopening hfloor hafter.faces harguments (by omega) hsteps
    exact ⟨rounds, token, last, by omega, hread.trans hstep, hlast, herrors'.trans herrors⟩
  | .unary hkind hright, hrank, hends => by
    simp only [List.length_cons] at hsize
    have hless := hright.begins.length_lt
    obtain ⟨token, after, houtcome, hafter, herrors⟩ :=
      unary_yields hnested steps hkind hstand hright (hends.mono (Nat.le_refl _) id) (by omega)
    exact ⟨steps, token, after, by omega, by rw [bind_apply, houtcome], hafter, herrors⟩
  | .primary h, hrank, hends => by
    have hless := h.begins.length_lt
    obtain ⟨token, after, houtcome, hafter, herrors⟩ :=
      primary_yields hnested h hstand hsize hsteps hends.hasBlock_eq
    exact ⟨steps, token, after, by omega, by rw [bind_apply, houtcome], hafter, herrors⟩

end Nested

/-! ## Expressions and programs -/

/-- A token that no expression begins with is refused at once. -/
theorem operand_refuses {σ : Type} [TokenSource σ] {nested : Int → Rule σ Node} {parser : Parser σ}
    {steps : Nat} (hstart : startsExpression parser.current.kind = false) :
    operand steps nested parser = .abandoned parser := by
  unfold operand
  revert hstart
  cases parser.current.kind <;> intro hstart <;> first | rfl | exact nomatch hstart

/-- Expressions are read within limits that exceed the number of tokens. -/
theorem expressionWithin_accepts (steps nesting : Nat) {size : Nat} (hsteps : size ≤ steps)
    (hnesting : size ≤ nesting + 1) :
    AcceptsNested σ size (expressionWithin steps nesting) := by
  induction nesting generalizing size with
  | zero =>
    refine ⟨fun _ hsize hexpression => ?_, fun hsize => ?_⟩
    · have := hexpression.begins.length_lt
      omega
    · simp only [List.length_cons] at hsize
      omega
  | succ nesting ih =>
    constructor
    · intro level tokens rest node hlevel hsize hexpression hends parser hstand
      have hfits : tokens.length ≤ steps := by omega
      have hnested : AcceptsNested σ tokens.length (expressionWithin steps nesting) :=
        ih hfits (by omega)
      obtain ⟨rounds, token, after, hrounds, hread, hafter, herrors⟩ :=
        reaches hnested hlevel hstand (Nat.le_refl _) hfits hexpression (Nat.le_refl _)
          (hends.mono level.rank_le_operand id)
      obtain ⟨rounds, rfl⟩ : ∃ fewer, rounds = fewer + 1 := ⟨rounds - 1, by omega⟩
      have hfaces : after.Faces rest := hafter.faces
      refine ⟨token, after, ?_, hafter, herrors⟩
      have hstop : (headKind rest).precedence.floor ≤ level.floor := Int.ofNat_le.mpr hends.rank_le
      change (operand steps _ >>= climb steps _ level.floor steps) parser = _
      rw [hread, climb, peek_bind_apply, hfaces.peek_kind, if_pos (.inr hstop)]
      rfl
    · intro floor token rest hsize hstart parser hstand
      have hrefused : startsExpression parser.current.kind = false := hstand.current_kind ▸ hstart
      rw [expressionWithin, bind_apply, operand_refuses hrefused]

/-- A program is read to its end. -/
theorem program_done {steps nesting : Nat} {statements : List Node}
    (h : Body .exact tokens [] statements) (hstand : parser.StandsAt tokens)
    (hsteps : tokens.length < steps) (hnesting : tokens.length ≤ nesting) :
    ∃ last : Parser σ, program steps (expressionWithin steps nesting) parser =
      .done (.program statements) last ∧ last.StandsAt [] ∧ last.errors = parser.errors := by
  have hnested : AcceptsNested σ (tokens.length + 1) (expressionWithin steps nesting) :=
    expressionWithin_accepts steps nesting (by omega) (by omega)
  have hcloses : ∀ kind : Kind, (kind == .eof) = true → kind = .rbrace ∨ kind = .eof :=
    fun kind hclose => .inr (by simpa using hclose)
  obtain ⟨last, houtcome, hlast, herrors⟩ := statementsUntil_done hnested hcloses rfl #[] h hstand
    (Nat.lt_succ_self _) hsteps
  refine ⟨last, ?_, hlast, herrors⟩
  rw [program, bind_apply, houtcome]
  rfl

end Grammar

end ExprLang
