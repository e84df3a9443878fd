import ExprLang.Proofs.Termination
import Mathlib.Data.List.GetD

/-!
# One token of lookahead

A parser that reads a construct looks at no token beyond the one that it faces in the end. So the
same step over other tokens, which are the same up to that one, has the same reply and the same
reports, and it leads to the same place.

To speak of places also past the end, the tokens are put on a tape that tells how many were handed
out. What a rule does from a mark on a tape is then a matter of the tape between that mark and the
one it leads to. Rules in sequence are local in this sense if each of them is, since no rule moves
back.
-/

namespace ExprLang

open Outcome

/-- Tokens in a row and then the end again and again, to be handed out from a place on. -/
structure Tape where
  tokens : List Token
  place : Nat

instance : LawfulSource Tape where
  next tape := (tape.tokens.getD tape.place .eof, ⟨tape.tokens, tape.place + 1⟩)
  pending tape := tape.tokens.drop tape.place
  nextOfList_pending tape := by
    rw [List.getD_eq_getElem?_getD, ← List.head?_drop, ← List.tail_drop]
    cases tape.tokens.drop tape.place <;> rfl

/-- What a parser has done when it is at a place of a tape. -/
structure Mark where
  place : Nat
  errors : Array Diagnostic
  begun : Nat

namespace Mark

/-- The parser that examines the token at the mark and faces the one after it. -/
def on (mark : Mark) (tokens : List Token) : Parser Tape where
  current := tokens.getD mark.place .eof
  peek := tokens.getD (mark.place + 1) .eof
  source := ⟨tokens, mark.place + 2⟩
  errors := mark.errors
  begun := mark.begun

/-- The mark one token further on. -/
def advance (mark : Mark) : Mark :=
  { mark with place := mark.place + 1 }

/-- The mark after reporting a fault. -/
def report (mark : Mark) (fault : Diagnostic) : Mark :=
  { mark with errors := mark.errors.push fault }

/-- The mark after beginning one more statement. -/
def beginStatement (mark : Mark) : Mark :=
  { mark with begun := mark.begun + 1 }

/-- The tapes are the same from the one mark up to the token that a parser faces at the other. -/
def Same (mark mark' : Mark) (tokens other : List Token) : Prop :=
  ∀ place, mark.place ≤ place → place ≤ mark'.place + 1 →
    other.getD place .eof = tokens.getD place .eof

/-- The parser is at a mark that is not before `mark`, and on every tape that is the same in between
`again` holds of the parser at that mark. -/
def Leads (mark : Mark) (tokens : List Token) (parser : Parser Tape)
    (again : List Token → Parser Tape → Prop) : Prop :=
  ∃ mark', mark.place ≤ mark'.place ∧ parser = mark'.on tokens ∧
    ∀ other, mark.Same mark' tokens other → again other (mark'.on other)

variable {mark mark' : Mark} {tokens other : List Token}

/-- On tapes that are the same the token under examination is. -/
theorem Same.current (h : mark.Same mark' tokens other) (hle : mark.place ≤ mark'.place) :
    (mark.on other).current = (mark.on tokens).current :=
  h mark.place (Nat.le_refl _) (Nat.le_succ_of_le hle)

/-- On tapes that are the same the next token is. -/
theorem Same.peek (h : mark.Same mark' tokens other) (hle : mark.place ≤ mark'.place) :
    (mark.on other).peek = (mark.on tokens).peek :=
  h (mark.place + 1) (Nat.le_succ _) (Nat.succ_le_succ hle)

/-- What holds on every tape that is the same may be replaced by what follows there. -/
theorem Leads.mono {parser : Parser Tape} {again again' : List Token → Parser Tape → Prop}
    (h : mark.Leads tokens parser again)
    (hagain : ∀ mark' other, mark.place ≤ mark'.place → mark.Same mark' tokens other →
      again other (mark'.on other) → again' other (mark'.on other)) :
    mark.Leads tokens parser again' := by
  obtain ⟨mark', hle, hparser, hother⟩ := h
  exact ⟨mark', hle, hparser, fun other hsame => hagain mark' other hle hsame (hother other hsame)⟩

/-- The way on from a later mark is a way on from an earlier one. On tapes that are the same up to
its end it is known how the later mark is reached. -/
theorem Leads.trans {middle : Mark} {parser : Parser Tape}
    {again again' : List Token → Parser Tape → Prop} (h : middle.Leads tokens parser again)
    (hle : mark.place ≤ middle.place)
    (hagain : ∀ other last, mark.Same middle tokens other → again other last →
      again' other last) :
    mark.Leads tokens parser again' := by
  obtain ⟨mark', hle', hparser, hother⟩ := h
  refine ⟨mark', Nat.le_trans hle hle', hparser, fun other hsame => ?_⟩
  refine hagain other _ (fun place hfrom hto => ?_) (hother other fun place hfrom hto => ?_)
  · exact hsame place hfrom (Nat.le_trans hto (Nat.succ_le_succ hle'))
  · exact hsame place (Nat.le_trans hle hfrom) hto

end Mark

variable {α β : Type}

namespace Rule

/-- What the rule does from a mark on a tape it does on every tape that is the same up to the token
that the parser faces then. -/
def Local (rule : Rule Tape α) : Prop :=
  ∀ (mark : Mark) tokens, (rule (mark.on tokens)).Meets True
    (fun last => mark.Leads tokens last fun other last' =>
      rule (mark.on other) = .abandoned last')
    fun value last => mark.Leads tokens last fun other last' =>
      rule (mark.on other) = .done value last'

/-- Rules in sequence are local if each of them is. -/
theorem Local.bind {rule : Rule Tape α} {next : α → Rule Tape β} (h : rule.Local)
    (hnext : ∀ value, (next value).Local) : (rule >>= next).Local := by
  intro mark tokens
  have hrule := h mark tokens
  rw [bind_apply]
  generalize rule (mark.on tokens) = outcome at hrule
  cases outcome with
  | done value last =>
    obtain ⟨middle, hle, rfl, hother⟩ := hrule
    refine Meets.mono (hnext value middle tokens) id (fun last hlast => ?_) fun _ last hlast => ?_
    · exact hlast.trans hle fun other last' hsame hagain => by
        rw [bind_apply, hother other hsame]
        exact hagain
    · exact hlast.trans hle fun other last' hsame hagain => by
        rw [bind_apply, hother other hsame]
        exact hagain
  | abandoned last =>
    dsimp only [Meets] at hrule ⊢
    exact hrule.mono fun _ _ _ _ hagain => by rw [bind_apply, hagain]
  | exhausted => trivial

/-- To yield a value is local. -/
theorem Local.pure (value : α) : (Pure.pure value : Rule Tape α).Local :=
  fun mark _ => ⟨mark, Nat.le_refl _, rfl, fun _ _ => rfl⟩

/-- To be exhausted is local. -/
theorem Local.exhaust : (Rule.exhaust : Rule Tape α).Local :=
  fun _ _ => trivial

/-- To look at the token under examination is local. -/
theorem Local.current : (Rule.current : Rule Tape Token).Local :=
  fun mark _ => ⟨mark, Nat.le_refl _, rfl, fun _ hsame =>
    congrArg (Outcome.done · _) (hsame.current (Nat.le_refl _))⟩

/-- To look at the next token is local. -/
theorem Local.peek : (Rule.peek : Rule Tape Token).Local :=
  fun mark _ => ⟨mark, Nat.le_refl _, rfl, fun _ hsame =>
    congrArg (Outcome.done · _) (hsame.peek (Nat.le_refl _))⟩

/-- To move on is local. -/
theorem Local.advance : (Rule.advance : Rule Tape Unit).Local :=
  fun mark _ => ⟨mark.advance, Nat.le_succ _, rfl, fun _ _ => rfl⟩

/-- To give up is local. -/
theorem Local.abandon : (Rule.abandon : Rule Tape α).Local :=
  fun mark _ => ⟨mark, Nat.le_refl _, rfl, fun _ _ => rfl⟩

/-- To report a fault is local. -/
theorem Local.fail (fault : Diagnostic) : (Rule.fail fault : Rule Tape α).Local :=
  fun mark _ => ⟨mark.report fault, Nat.le_refl _, rfl, fun _ _ => rfl⟩

/-- To expect a token is local, be it there or not. -/
theorem Local.expect (kind : Kind) : (Rule.expect kind : Rule Tape Unit).Local := by
  have hexpect : (Rule.expect kind : Rule Tape Unit) = Rule.peek >>= fun token =>
      if token.kind = kind then Rule.advance else Rule.fail (.unexpected kind token.kind) := by
    funext parser
    rw [peek_bind_apply]
    unfold Rule.expect
    split <;> rfl
  rw [hexpect]
  refine Local.peek.bind fun token => ?_
  split
  · exact .advance
  · exact .fail _

/-- To accept a token is local, be it there or not. -/
theorem Local.accept (kind : Kind) : (Rule.accept kind : Rule Tape Unit).Local := by
  have haccept : (Rule.accept kind : Rule Tape Unit) = Rule.peek >>= fun token =>
      if token.kind = kind then Rule.advance else Pure.pure () := by
    funext parser
    rw [peek_bind_apply]
    unfold Rule.accept
    split <;> rfl
  rw [haccept]
  refine Local.peek.bind fun token => ?_
  split
  · exact .advance
  · exact .pure _

/-- To attempt a local rule is local. -/
theorem Local.attempt {rule : Rule Tape α} (h : rule.Local) : (Rule.attempt rule).Local := by
  intro mark tokens
  have hrule := h mark tokens
  unfold Rule.attempt
  generalize rule (mark.on tokens) = outcome at hrule
  cases outcome with
  | done value last =>
    dsimp only [Meets] at hrule ⊢
    exact hrule.mono fun _ _ _ _ hagain => by rw [hagain]
  | abandoned last =>
    dsimp only [Meets] at hrule ⊢
    exact hrule.mono fun _ _ _ _ hagain => by rw [hagain]
  | exhausted => trivial

/-- To begin a statement is local. -/
theorem Local.beginStatement {rule : Rule Tape α} (h : rule.Local) :
    Rule.Local fun parser => rule parser.beginStatement :=
  fun mark tokens => h mark.beginStatement tokens

/-- A rule is local if it is a local rule for each kind of the token under examination. -/
theorem Local.of_kind {rule : Rule Tape α}
    (h : ∀ kind, ∃ chosen : Rule Tape α, chosen.Local ∧
      ∀ parser, parser.current.kind = kind → rule parser = chosen parser) : rule.Local := by
  intro mark tokens
  obtain ⟨chosen, hlocal, hrule⟩ := h (mark.on tokens).current.kind
  rw [hrule (mark.on tokens) rfl]
  have hsame (mark' : Mark) (other : List Token) (hle : mark.place ≤ mark'.place)
      (hsame : mark.Same mark' tokens other) : rule (mark.on other) = chosen (mark.on other) :=
    hrule _ (congrArg Token.kind (hsame.current hle))
  refine Meets.mono (hlocal mark tokens) id (fun _ hlast => ?_) fun _ _ hlast => ?_
  · exact hlast.mono fun mark' other hle h hagain => (hsame mark' other hle h).trans hagain
  · exact hlast.mono fun mark' other hle h hagain => (hsame mark' other hle h).trans hagain

end Rule

namespace Grammar

open Rule

variable {steps : Nat} {nested : Int → Rule Tape Node}

/-- Names are local. -/
theorem identifier_local : (identifier : Rule Tape Node).Local :=
  Local.current.bind fun _ => .pure _

/-- Integers are local. -/
theorem integer_local : (integer : Rule Tape Node).Local := by
  refine Local.current.bind fun token => ?_
  dsimp only
  split
  · exact .pure _
  · exact .fail _

/-- Truth values are local. -/
theorem boolean_local : (boolean : Rule Tape Node).Local :=
  Local.current.bind fun _ => .pure _

/-- The rest of a list of parameters is local. -/
theorem parametersFrom_local (steps : Nat) (read : Array Node) :
    (parametersFrom steps read : Rule Tape (List Node)).Local := by
  induction steps generalizing read with
  | zero => exact .exhaust
  | succ steps ih =>
    refine Local.peek.bind fun _ => ?_
    split
    · exact Local.advance.bind fun _ => (Local.expect _).bind fun _ =>
        identifier_local.bind fun parameter => ih (read.push parameter)
    · exact (Local.expect _).bind fun _ => .pure _

/-- Parameters are local. -/
theorem parameters_local (steps : Nat) : (parameters steps : Rule Tape (List Node)).Local := by
  refine Local.peek.bind fun _ => ?_
  split
  · exact Local.advance.bind fun _ => .pure _
  · exact (Local.expect _).bind fun _ => identifier_local.bind fun parameter =>
      parametersFrom_local steps #[parameter]

section Nested

variable (hnested : ∀ floor, (nested floor).Local)

include hnested

/-- The end of a statement is local. -/
theorem accept_local (floor : Int) (form : Node → Node) :
    (do let value ← nested floor; accept .semicolon; return form value : Rule Tape Node).Local :=
  (hnested floor).bind fun _ => (Local.accept _).bind fun _ => .pure _

/-- Statements with `let` are local. -/
theorem letStatement_local : (letStatement nested).Local :=
  (Local.expect _).bind fun _ => identifier_local.bind fun name => (Local.expect _).bind fun _ =>
    Local.advance.bind fun _ => accept_local hnested _ (.letStatement name)

/-- Statements with `return` are local. -/
theorem returnStatement_local : (returnStatement nested).Local :=
  Local.advance.bind fun _ => accept_local hnested _ .returnStatement

/-- Statements that are expressions are local. -/
theorem expressionStatement_local : (expressionStatement nested).Local :=
  accept_local hnested _ .expressionStatement

/-- Statements are local. -/
theorem statement_local : (statement nested).Local := by
  have hbegun {kind : Kind} {chosen : Rule Tape Node} (hlocal : chosen.Local)
      (hchosen : ∀ parser : Parser Tape, parser.beginStatement.current.kind = kind →
        statement nested parser = chosen parser.beginStatement) :
      ∃ chosen : Rule Tape Node, chosen.Local ∧
        ∀ parser, parser.current.kind = kind → statement nested parser = chosen parser :=
    ⟨_, hlocal.beginStatement, hchosen⟩
  refine Local.of_kind fun kind => ?_
  cases kind with
  | letWord => exact hbegun (letStatement_local hnested) fun _ h => by simp only [statement, h]
  | returnWord =>
    exact hbegun (returnStatement_local hnested) fun _ h => by simp only [statement, h]
  | _ => exact hbegun (expressionStatement_local hnested) fun _ h => by simp only [statement, h]

/-- Sequences of statements are local. -/
theorem statementsUntil_local (closes : Kind → Bool) (steps : Nat) (read : Array Node) :
    (statementsUntil nested closes steps read).Local := by
  induction steps generalizing read with
  | zero => exact .exhaust
  | succ steps ih =>
    refine Local.current.bind fun _ => ?_
    split
    · exact .pure _
    · refine (statement_local hnested).attempt.bind fun found => Local.advance.bind fun _ => ?_
      cases found with
      | none => exact ih read
      | some node => exact ih (read.push node)

/-- Blocks are local. -/
theorem block_local : (block steps nested).Local :=
  Local.advance.bind fun _ => (statementsUntil_local hnested _ steps #[]).bind fun _ => .pure _

/-- Programs are local. -/
theorem program_local : (program steps nested).Local :=
  (statementsUntil_local hnested _ steps #[]).bind fun _ => .pure _

/-- Operators with their operands are local. -/
theorem unary_local : (unary nested).Local :=
  Local.current.bind fun _ => Local.advance.bind fun _ => (hnested _).bind fun _ => .pure _

/-- Expressions in parentheses are local. -/
theorem grouped_local : (grouped nested).Local :=
  Local.advance.bind fun _ => (hnested _).bind fun _ => (Local.expect _).bind fun _ => .pure _

/-- Choices are local. -/
theorem conditional_local : (conditional steps nested).Local := by
  refine (Local.expect _).bind fun _ => Local.advance.bind fun _ => (hnested _).bind fun _ => ?_
  refine (Local.expect _).bind fun _ => (Local.expect _).bind fun _ => ?_
  refine (block_local hnested).bind fun _ => Local.peek.bind fun _ => ?_
  split
  · exact Local.advance.bind fun _ => (Local.expect _).bind fun _ =>
      (block_local hnested).bind fun _ => .pure _
  · exact .pure _

/-- Functions are local. -/
theorem function_local : (function steps nested).Local :=
  (Local.expect _).bind fun _ => (parameters_local steps).bind fun _ =>
    (Local.expect _).bind fun _ => (block_local hnested).bind fun _ => .pure _

/-- Operands are local. -/
theorem operand_local : (operand steps nested).Local := by
  refine Local.of_kind fun kind => ?_
  cases kind with
  | ident => exact ⟨_, identifier_local, fun _ h => by simp only [operand, h]⟩
  | int => exact ⟨_, integer_local, fun _ h => by simp only [operand, h]⟩
  | trueWord => exact ⟨_, boolean_local, fun _ h => by simp only [operand, h]⟩
  | falseWord => exact ⟨_, boolean_local, fun _ h => by simp only [operand, h]⟩
  | bang => exact ⟨_, unary_local hnested, fun _ h => by simp only [operand, h]⟩
  | minus => exact ⟨_, unary_local hnested, fun _ h => by simp only [operand, h]⟩
  | lparen => exact ⟨_, grouped_local hnested, fun _ h => by simp only [operand, h]⟩
  | ifWord =>
    exact ⟨conditional steps nested, conditional_local hnested, fun _ h => by
      simp only [operand, h]⟩
  | fnWord =>
    exact ⟨function steps nested, function_local hnested, fun _ h => by simp only [operand, h]⟩
  | _ => exact ⟨_, .abandon, fun _ h => by simp only [operand, h, abandon_apply]⟩

/-- Operators with their right operands are local. -/
theorem binary_local (left : Node) : (binary nested left).Local :=
  Local.current.bind fun _ => Local.advance.bind fun _ => (hnested _).bind fun _ => .pure _

/-- The rest of a list of arguments is local. -/
theorem argumentsFrom_local (steps : Nat) (read : Array Node) :
    (argumentsFrom nested steps read).Local := by
  induction steps generalizing read with
  | zero => exact .exhaust
  | succ steps ih =>
    refine Local.peek.bind fun _ => ?_
    split
    · exact Local.advance.bind fun _ => Local.advance.bind fun _ => (hnested _).bind
        fun argument => ih (read.push argument)
    · exact (Local.expect _).bind fun _ => .pure _

/-- Arguments are local. -/
theorem arguments_local : (arguments steps nested).Local := by
  refine Local.peek.bind fun _ => ?_
  split
  · exact Local.advance.bind fun _ => .pure _
  · exact Local.advance.bind fun _ => (hnested _).bind fun argument =>
      argumentsFrom_local hnested steps #[argument]

/-- Calls are local. -/
theorem call_local (callee : Node) : (call steps nested callee).Local :=
  (arguments_local hnested).bind fun _ => .pure _

/-- The operators and calls after an operand are local. -/
theorem climb_local (floor : Int) (rounds : Nat) (left : Node) :
    (climb steps nested floor rounds left).Local := by
  induction rounds generalizing left with
  | zero => exact .exhaust
  | succ rounds ih =>
    refine Local.peek.bind fun _ => ?_
    dsimp only
    split
    · exact .pure _
    · split
      · exact Local.advance.bind fun _ => (binary_local hnested left).bind ih
      · split
        · exact Local.advance.bind fun _ => (call_local hnested left).bind ih
        · exact .pure _

end Nested

/-- Expressions are local, at every floor and however deeply they nest. -/
theorem expressionWithin_local (steps nesting : Nat) (floor : Int) :
    (expressionWithin steps nesting floor : Rule Tape Node).Local := by
  induction nesting generalizing floor with
  | zero => exact .exhaust
  | succ nesting ih => exact (operand_local ih).bind fun left => climb_local ih floor steps left

end Grammar

/-! ## Steps -/

section Steps

variable {mark : Mark} {tokens : List Token} {limits : Limits} {step : Call} {reply : Reply}
  {last : Parser Tape}

/-- What a local rule replies it replies on every tape that is the same up to the token that the
parser faces then. -/
theorem Rule.Local.leads {rule : Rule Tape α} (h : rule.Local) (form : Option α → Reply)
    (hreply : (rule (mark.on tokens)).reply form = some (reply, last)) :
    mark.Leads tokens last fun other last' =>
      (rule (mark.on other)).reply form = some (reply, last') := by
  have hrule := h mark tokens
  rcases Outcome.of_reply hreply with ⟨_, houtcome, rfl⟩ | ⟨houtcome, rfl⟩
  all_goals
    rw [houtcome] at hrule
    dsimp only [Meets] at hrule
    exact hrule.mono fun _ _ _ _ hagain => congrArg (Outcome.reply form) hagain

/-- What a step replies it replies on every tape that is the same up to the token that the parser
faces then. -/
theorem Parser.perform_local (h : (mark.on tokens).perform limits step = some (reply, last)) :
    mark.Leads tokens last fun other last' =>
      (mark.on other).perform limits step = some (reply, last') := by
  have hnested : ∀ floor, (limits.expression floor : Rule Tape Node).Local :=
    Grammar.expressionWithin_local limits.rounds limits.nesting
  cases step with
  | advance => exact Rule.Local.advance.leads (fun _ => .nothing) h
  | currentIs kind =>
    exact Rule.Local.current.leads (fun found => .truth ((found.getD .eof).kind == kind)) h
  | peekIs kind =>
    exact Rule.Local.peek.leads (fun found => .truth ((found.getD .eof).kind == kind)) h
  | currentPrecedence =>
    exact Rule.Local.current.leads (fun found => .precedence (found.getD .eof).kind.precedence) h
  | peekPrecedence =>
    exact Rule.Local.peek.leads (fun found => .precedence (found.getD .eof).kind.precedence) h
  | reportPeek kind =>
    exact (Rule.Local.peek.bind fun token => .fail (.unexpected kind token.kind)).leads
      (fun _ : Option Unit => .nothing) h
  | checkErrors =>
    -- the faults are those of the mark, whatever the tape is
    have hcheck (other : List Token) : (mark.on other).perform limits .checkErrors =
        ((pure () : Rule Tape Unit) (mark.on other)).reply fun _ =>
          if mark.errors.isEmpty then .nothing else .rejected mark.errors.toList := by
      change (if mark.errors.isEmpty then _ else _) = some (if mark.errors.isEmpty then _ else _, _)
      split <;> rfl
    simp only [hcheck] at h ⊢
    exact (Rule.Local.pure ()).leads _ h
  | expectPeek kind =>
    exact (Rule.Local.expect kind).leads (fun found => .truth found.isSome) h
  | program => exact (Grammar.program_local hnested).leads _ h
  | block => exact (Grammar.block_local hnested).leads _ h
  | statement => exact (Grammar.statement_local hnested).leads _ h
  | letStatement => exact (Grammar.letStatement_local hnested).leads _ h
  | returnStatement => exact (Grammar.returnStatement_local hnested).leads _ h
  | expressionStatement => exact (Grammar.expressionStatement_local hnested).leads _ h
  | identifier => exact Grammar.identifier_local.leads _ h
  | integer => exact Grammar.integer_local.leads _ h
  | boolean => exact Grammar.boolean_local.leads _ h
  | unary => exact (Grammar.unary_local hnested).leads _ h
  | grouped => exact (Grammar.grouped_local hnested).leads _ h
  | conditional => exact (Grammar.conditional_local hnested).leads _ h
  | function => exact (Grammar.function_local hnested).leads _ h
  | parameters => exact (Grammar.parameters_local limits.rounds).leads _ h
  | arguments => exact (Grammar.arguments_local hnested).leads _ h
  | expression floor => exact (hnested floor).leads _ h
  | binary left => exact (Grammar.binary_local hnested left).leads _ h
  | call callee => exact (Grammar.call_local hnested callee).leads _ h

end Steps

/-! ## Texts -/

section Texts

variable {mark : Mark} {tokens : List Token}

/-- The parser at a mark stands at the tokens from there on. -/
theorem Mark.on_standsAt (mark : Mark) (hproper : ∀ token ∈ tokens, token.kind ≠ .eof) :
    (mark.on tokens).StandsAt (tokens.drop mark.place) := by
  have hhead (place : Nat) : tokens.getD place .eof = (tokens.drop place).headD .eof := by
    rw [List.getD_eq_getElem?_getD, List.headD_eq_head?_getD, List.head?_drop]
  have hdrop (place : Nat) : ∀ token ∈ tokens.drop place, token.kind ≠ .eof :=
    fun token hmem => hproper token (List.mem_of_mem_drop hmem)
  have htail : (tokens.drop mark.place).tail = tokens.drop (mark.place + 1) := List.tail_drop
  refine ⟨hhead _, ⟨?_, ?_, ?_⟩, hdrop _⟩
  · exact htail ▸ hhead (mark.place + 1)
  · rw [htail, List.tail_drop]
    rfl
  · exact htail ▸ hdrop (mark.place + 1)

/-- A step that is taken from a mark leads to a mark, and on every tape that is the same up to the
token that the parser faces then it has the same reply and leads to the same mark. -/
theorem Mark.exists_ends (mark : Mark) (hproper : ∀ token ∈ tokens, token.kind ≠ .eof)
    (step : Call) :
    ∃ reply mark', mark.place ≤ mark'.place ∧
      ∀ other, (∀ token ∈ other, token.kind ≠ .eof) → mark.Same mark' tokens other →
        (mark.on other).Ends (other.drop mark.place) step reply (mark'.on other) := by
  obtain ⟨reply, last, hends⟩ := (mark.on_standsAt hproper).exists_ends step
  obtain ⟨mark', hle, rfl, hother⟩ := Parser.perform_local hends.perform
  exact ⟨reply, mark', hle, fun other hproper hsame =>
    (mark.on_standsAt hproper).ends_of_perform (hother other hsame)⟩

/-- A parser at the same place of the same tokens has the same reply to a step and is led to the
same place. -/
theorem Mirrors.exists_ends {σ τ : Type} [LawfulSource σ] [LawfulSource τ] {p last : Parser σ}
    {q : Parser τ} {left : List Token} {step : Call} {reply : Reply} (h : Mirrors #[] p q)
    (hends : p.Ends left step reply last) (hstand : q.StandsAt left) :
    ∃ last', q.Ends left step reply last' ∧ Mirrors #[] last last' := by
  obtain ⟨reply', last', hends'⟩ := hstand.exists_ends step
  have hreplies := (mirrors_paired #[]).replies (fun h => h.errors.trans Array.empty_append) h
    ⟨left.length + 1, left.length + 1⟩ step
  rw [hends.perform, hends'.perform] at hreplies
  cases hreplies with
  | some _ hlast => exact ⟨last', hends', hlast⟩

/-- A step looks at no token beyond the one that the parser faces after it. On all tokens that are
the same from where the step is taken up to that one, it has the same reply, leads to the same place
and has reported the same by then, and this is so for a parser over any source of the tokens. -/
theorem exists_ends_of_same {σ : Type} [LawfulSource σ] {tokens : List Token}
    (hproper : ∀ token ∈ tokens, token.kind ≠ .eof) (mark : Mark) (step : Call) :
    ∃ reply mark', mark.place ≤ mark'.place ∧
      (mark.on tokens).Ends (tokens.drop mark.place) step reply (mark'.on tokens) ∧
      ∀ other, (∀ token ∈ other, token.kind ≠ .eof) → mark.Same mark' tokens other →
        (mark.on other).Ends (other.drop mark.place) step reply (mark'.on other) ∧
        ∀ parser : Parser σ, parser.StandsAt (other.drop mark.place) →
          parser.errors = mark.errors →
          ∃ last, parser.Ends (other.drop mark.place) step reply last ∧
            last.StandsAt (other.drop mark'.place) ∧ last.errors = mark'.errors := by
  obtain ⟨reply, mark', hle, hother⟩ := mark.exists_ends hproper step
  refine ⟨reply, mark', hle, hother tokens hproper fun _ _ _ => rfl, fun other hproper hsame => ?_⟩
  have hends := hother other hproper hsame
  refine ⟨hends, fun parser hstand herrors => ?_⟩
  have hmirrors : Mirrors #[] (mark.on other) parser :=
    .of_standsAt (mark.on_standsAt hproper) hstand (herrors.trans Array.empty_append.symm)
  obtain ⟨last, hends, hlast⟩ := hmirrors.exists_ends hends hstand
  exact ⟨last, hends, hlast.standsAt (mark'.on_standsAt hproper),
    hlast.errors.trans Array.empty_append⟩

/-- In the middle of a statement an expression in parentheses that is not closed is given up at the
first token that cannot go on with it. The brace and the function after that token are not seen, be
they on a tape or scanned from there on. -/
theorem exists_ends_of_same_unclosed :
    ((⟨2, #[], 0⟩ : Mark).on (tokenize "y = (a * b c \x7d fn(".toList)).perform ⟨9, 9⟩ .grouped =
      some (.node none, (⟨5, #[.unexpected .rparen .ident], 0⟩ : Mark).on
        (tokenize "y = (a * b c \x7d fn(".toList)) ∧
    ∃ parser last, Parser.ofReader ⟨"y = (a * b c \x7d fn(".toList, 4⟩ = .ok parser ∧
      parser.perform ⟨9, 9⟩ .grouped = some (.node none, last) ∧
      last.StandsAt ((tokenize "y = (a * b c \x7d fn(".toList).drop 5) ∧
      last.errors = #[.unexpected .rparen .ident] := by
  have hproper (text : List Char) : ∀ token ∈ tokenize text, token.kind ≠ .eof :=
    fun _ hmem => kind_ne_eof_of_mem_tokenize hmem
  obtain ⟨reply, mark', -, hends, hother⟩ := exists_ends_of_same (σ := Lexer)
    (hproper "y = (a * b c; let".toList) ⟨2, #[], 0⟩ .grouped
  -- the run on the first text tells the reply and the mark
  obtain ⟨rfl, rfl⟩ : reply = .node none ∧ mark' = ⟨5, #[.unexpected .rparen .ident], 0⟩ := by
    have htokens : tokenize "y = (a * b c; let".toList =
        [⟨.ident, "y"⟩, ⟨.assign, "="⟩, ⟨.lparen, "("⟩, ⟨.ident, "a"⟩, ⟨.asterisk, "*"⟩,
          ⟨.ident, "b"⟩, ⟨.ident, "c"⟩, ⟨.semicolon, ";"⟩, ⟨.letWord, "let"⟩] := by decide +kernel
    have hrun : ((⟨2, #[], 0⟩ : Mark).on (tokenize "y = (a * b c; let".toList)).perform ⟨9, 9⟩
        .grouped = some (.node none, (⟨5, #[.unexpected .rparen .ident], 0⟩ : Mark).on
          (tokenize "y = (a * b c; let".toList)) := by
      rw [htokens]
      rfl
    have hmark := (hends ⟨9, 9⟩ (by decide +kernel) (by decide +kernel)).symm.trans hrun
    obtain ⟨hreply, hon⟩ := Prod.mk.inj (Option.some.inj hmark)
    have hplace : mark'.place + 2 = 7 := congrArg (·.source.place) hon
    have herrors : mark'.errors = _ := congrArg Parser.errors hon
    have hbegun : mark'.begun = _ := congrArg Parser.begun hon
    cases mark'
    grind [Mark.on]
  have hsame : (⟨2, #[], 0⟩ : Mark).Same ⟨5, #[.unexpected .rparen .ident], 0⟩
      (tokenize "y = (a * b c; let".toList) (tokenize "y = (a * b c \x7d fn(".toList) := by
    have hall : ∀ place ≤ 6, 2 ≤ place →
        (tokenize "y = (a * b c \x7d fn(".toList).getD place .eof =
          (tokenize "y = (a * b c; let".toList).getD place .eof := by decide +kernel
    exact fun place hfrom hto => hall place hto hfrom
  obtain ⟨htape, hparser⟩ := hother _ (hproper _) hsame
  obtain ⟨parser, hreader, hstand, herrors⟩ :=
    @ofReader_standsAt_ahead ⟨"y = (a * b c \x7d fn(".toList, 4⟩ (by decide)
  have htokens : tokenize (⟨"y = (a * b c \x7d fn(".toList, 4⟩ : Reader).ahead =
      (tokenize "y = (a * b c \x7d fn(".toList).drop 2 := by decide +kernel
  obtain ⟨last, hlast, hlaststand, hlasterrors⟩ := hparser parser (htokens ▸ hstand) herrors
  have hlength : ((tokenize "y = (a * b c \x7d fn(".toList).drop 2).length < 9 := by decide +kernel
  exact ⟨htape ⟨9, 9⟩ hlength hlength, parser, last, hreader, hlast ⟨9, 9⟩ hlength hlength,
    hlaststand, hlasterrors⟩

end Texts

end ExprLang
