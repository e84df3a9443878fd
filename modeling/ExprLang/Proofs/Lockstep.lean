import ExprLang.Parse
import ExprLang.Proofs.Completeness

/-!
# Two parsers side by side

Two parsers that take the same steps over different tokens. They face the same token, or each of
them faces one at which every phrase stops, and then the rules end alike on both: with the same
value, or given up, and again side by side. The one rule that tells such tokens apart is that for
the semicolon after a statement, and the one way to go past them is to move on to an operand that is
not there.

What it means to be side by side is left open. It has to be kept by each single step of a parser;
that it is kept by every rule follows here, once for all uses.
-/

namespace ExprLang

namespace Kind

/-- The kinds of the tokens at which every phrase stops. -/
def isStop : Kind → Bool
  | .semicolon | .rbrace | .eof | .illegal => true
  | _ => false

/-- The kinds of the tokens after which an operand is read, whatever comes next. -/
def wantsOperand : Kind → Bool
  | .bang | .lparen | .comma | .assign | .returnWord => true
  | kind => kind.isBinary

/-- No expression begins with a token at which phrases stop. -/
theorem startsExpression_of_isStop {kind : Kind} (h : kind.isStop = true) :
    Phrase.startsExpression kind = false := by
  cases kind <;> first | rfl | exact nomatch h

/-- No operator is a token at which phrases stop. -/
theorem isBinary_of_isStop {kind : Kind} (h : kind.isStop = true) : kind.isBinary = false := by
  cases kind <;> first | rfl | exact nomatch h

/-- A token of a kind at which no phrase stops is not one at which phrases stop. -/
theorem ne_of_isStop {kind other : Kind} (h : kind.isStop = true) (hother : other.isStop = false) :
    kind ≠ other := by
  rintro rfl
  rw [h] at hother
  exact nomatch hother

/-- After every binary operator an operand is read. -/
theorem wantsOperand_of_isBinary {kind : Kind} (h : kind.isBinary = true) :
    kind.wantsOperand = true := by
  cases kind <;> first | rfl | exact nomatch h

end Kind

variable {σ τ α β : Type}

/-- Two rules end alike: both yield one value with the parsers related by `post`, or both are given
up with the parsers related by `fault`, or both are exhausted. -/
inductive Outcome.Agrees (fault post : Parser σ → Parser τ → Prop) :
    Outcome σ α → Outcome τ α → Prop where
  | done {p q} (value : α) : post p q → Agrees fault post (.done value p) (.done value q)
  | abandoned {p q} : fault p q → Agrees fault post (.abandoned p) (.abandoned q)
  | exhausted : Agrees fault post .exhausted .exhausted

namespace Outcome

variable {fault fault' post last : Parser σ → Parser τ → Prop} {p : Parser σ} {q : Parser τ}

/-- Rules that end alike in some relations end alike in wider ones. -/
theorem Agrees.mono {left : Outcome σ α} {right : Outcome τ α} (h : left.Agrees fault post right)
    (hfault : ∀ p q, fault p q → fault' p q) (hpost : ∀ p q, post p q → last p q) :
    left.Agrees fault' last right := by
  cases h with
  | done value hend => exact .done value (hpost _ _ hend)
  | abandoned hend => exact .abandoned (hfault _ _ hend)
  | exhausted => exact .exhausted

/-- Rules in sequence end alike if each pair of them does. -/
theorem Agrees.bind {rule : Rule σ α} {rule' : Rule τ α} {next : α → Rule σ β}
    {next' : α → Rule τ β} (h : (rule p).Agrees fault post (rule' q))
    (hnext : ∀ value p q, post p q → (next value p).Agrees fault last (next' value q)) :
    ((rule >>= next) p).Agrees fault last ((rule' >>= next') q) := by
  rw [Rule.bind_apply, Rule.bind_apply]
  revert h
  generalize rule p = left, rule' q = right
  intro h
  cases h with
  | done value hend => exact hnext value _ _ hend
  | abandoned hend => exact .abandoned hend
  | exhausted => exact .exhausted

end Outcome

/-! ## Side by side -/

section Relations

variable (facing ended : Parser σ → Parser τ → Prop)

/-- The parsers are side by side and examine the same token. -/
def Level (p : Parser σ) (q : Parser τ) : Prop :=
  facing p q ∧ q.current = p.current

/-- The parsers examine the same token, or each of them one at which phrases stop. -/
def Standing (p : Parser σ) (q : Parser τ) : Prop :=
  Level facing p q ∨ ended p q

/-- The parsers are where rules are given up on both of them. -/
def Astray (p : Parser σ) (q : Parser τ) : Prop :=
  facing p q ∨ ended p q

end Relations

variable [TokenSource σ] [TokenSource τ]

/-- The parser after the semicolon, if one comes next. -/
def Parser.pastSemicolon (parser : Parser σ) : Parser σ :=
  if parser.peek.kind = .semicolon then parser.advance else parser

/-- The parsers are side by side, or were so until a semicolon that not both of them face. -/
def Settled (facing : Parser σ → Parser τ → Prop) (p : Parser σ) (q : Parser τ) : Prop :=
  facing p q ∨ ∃ before before', facing before before' ∧ before'.peek ≠ before.peek ∧
    p = before.pastSemicolon ∧ q = before'.pastSemicolon

/-- A relation between parsers that each single step keeps, up to tokens at which phrases stop.
Where rules are given up the parsers are as `lost` says; a report is the last thing that a rule
does. -/
structure Abreast (facing ended : Parser σ → Parser τ → Prop)
    (lost : Parser σ → Parser τ → Prop := Astray facing ended) : Prop where
  /-- The parsers face the same token, or each of them one at which phrases stop. -/
  peek : ∀ {p q}, facing p q →
    q.peek = p.peek ∨ p.peek.kind.isStop = true ∧ q.peek.kind.isStop = true
  /-- Parsers that face the same token move on together. -/
  advance : ∀ {p q}, facing p q → q.peek = p.peek → facing p.advance q.advance
  /-- Parsers that face different tokens move on only if an operand is to be read. -/
  leave : ∀ {p q}, facing p q → q.peek ≠ p.peek → p.current.kind.wantsOperand = true →
    ended p.advance q.advance
  ended_isStop : ∀ {p q}, ended p q → p.current.kind.isStop = true ∧ q.current.kind.isStop = true
  lost_of_astray : ∀ {p q}, Astray facing ended p q → lost p q
  unreadable : ∀ {p q}, facing p q → ∀ literal,
    lost (p.report (.unreadable literal)) (q.report (.unreadable literal))
  reportPeek : ∀ {p q}, facing p q → ∀ kind, lost (p.reportPeek kind) (q.reportPeek kind)
  beginStatement : ∀ {p q}, facing p q → facing p.beginStatement q.beginStatement
  ended_beginStatement : ∀ {p q}, ended p q → ended p.beginStatement q.beginStatement

/-- The rules for nested expressions end alike on the two parsers. -/
def NestedAgrees (facing ended : Parser σ → Parser τ → Prop) (nested : Int → Rule σ Node)
    (nested' : Int → Rule τ Node) (lost : Parser σ → Parser τ → Prop := Astray facing ended) :
    Prop :=
  ∀ floor p q, Standing facing ended p q →
    (nested floor p).Agrees lost facing (nested' floor q)

/-- The rules for blocks end alike on the two parsers at an opening brace. -/
def BlocksAgree (facing ended : Parser σ → Parser τ → Prop) (steps : Nat)
    (nested : Int → Rule σ Node) (nested' : Int → Rule τ Node)
    (lost : Parser σ → Parser τ → Prop := Astray facing ended) : Prop :=
  ∀ p q, Level facing p q → p.current.kind = .lbrace →
    (Grammar.block steps nested p).Agrees lost facing (Grammar.block steps nested' q)

namespace Abreast

open Outcome

variable {facing ended lost : Parser σ → Parser τ → Prop} (hab : Abreast facing ended lost)
  {p : Parser σ} {q : Parser τ} {fault post : Parser σ → Parser τ → Prop} {kind : Kind}

include hab

/-- Parsers face tokens of one kind alike if no phrase stops at that kind. -/
theorem peek_kind_iff (h : facing p q) (hkind : kind.isStop = false) :
    q.peek.kind = kind ↔ p.peek.kind = kind := by
  rcases hab.peek h with heq | ⟨hp, hq⟩
  · rw [heq]
  · exact iff_of_false (Kind.ne_of_isStop hq hkind) (Kind.ne_of_isStop hp hkind)

/-- Parsers of which one faces a token at which no phrase stops face the same token. -/
theorem peek_eq (h : facing p q) (hkind : p.peek.kind.isStop = false) : q.peek = p.peek :=
  (hab.peek h).resolve_right fun hstop => by
    rw [hstop.1] at hkind
    exact nomatch hkind

/-- Parsers that move on to the same token are level. -/
theorem level_advance (h : facing p q) (hpeek : q.peek = p.peek) :
    Level facing p.advance q.advance :=
  ⟨hab.advance h hpeek, hpeek⟩

/-- Parsers that move on to an operand stand at it. -/
theorem standing_advance (h : facing p q)
    (hreach : q.peek = p.peek ∨ p.current.kind.wantsOperand = true) :
    Standing facing ended p.advance q.advance := by
  by_cases hpeek : q.peek = p.peek
  · exact .inl (hab.level_advance h hpeek)
  · exact .inr (hab.leave h hpeek (hreach.resolve_left hpeek))

/-- A token that is expected is there on both sides or on neither. -/
theorem expect (hkind : kind.isStop = false) (h : facing p q) :
    (Rule.expect kind p).Agrees lost
      (fun p q => Level facing p q ∧ p.current.kind = kind) (Rule.expect kind q) := by
  by_cases hpeek : p.peek.kind = kind
  · rw [Rule.expect_of_eq hpeek, Rule.expect_of_eq ((hab.peek_kind_iff h hkind).mpr hpeek)]
    exact .done () ⟨hab.level_advance h (hab.peek_eq h (hpeek ▸ hkind)), hpeek⟩
  · rw [Rule.expect_of_ne hpeek,
      Rule.expect_of_ne fun hpeek' => hpeek ((hab.peek_kind_iff h hkind).mp hpeek')]
    exact .abandoned (hab.reportPeek h kind)

/-- A rule that goes on differently after a token of one kind goes on alike on both sides. -/
theorem choose (hkind : kind.isStop = false) {taken other : Rule σ α} {taken' other' : Rule τ α}
    (h : facing p q)
    (htaken : p.peek.kind = kind → q.peek = p.peek → (taken p).Agrees fault post (taken' q))
    (hother : (other p).Agrees fault post (other' q)) :
    ((Rule.peek >>= fun token => if token.kind = kind then taken else other) p).Agrees fault post
      ((Rule.peek >>= fun token => if token.kind = kind then taken' else other') q) := by
  rw [Rule.peek_bind_apply, Rule.peek_bind_apply]
  by_cases hpeek : p.peek.kind = kind
  · rw [if_pos hpeek, if_pos ((hab.peek_kind_iff h hkind).mpr hpeek)]
    exact htaken hpeek (hab.peek_eq h (hpeek ▸ hkind))
  · rw [if_neg hpeek, if_neg fun hpeek' => hpeek ((hab.peek_kind_iff h hkind).mp hpeek')]
    exact hother

/-- The semicolon after a statement is taken on both sides, on one of them or on neither. -/
theorem settled_pastSemicolon (h : facing p q) :
    Settled facing p.pastSemicolon q.pastSemicolon := by
  by_cases hpeek : q.peek = p.peek
  · unfold Parser.pastSemicolon
    rw [hpeek]
    split
    · exact .inl (hab.advance h hpeek)
    · exact .inl h
  · exact .inr ⟨p, q, h, hpeek, rfl, rfl⟩

end Abreast

/-! ## The rules -/

namespace Grammar

open Rule Outcome

/-- A statement at a token at which phrases stop is an expression. -/
theorem statement_of_isStop {nested : Int → Rule σ Node} {parser : Parser σ}
    (h : parser.current.kind.isStop = true) :
    statement nested parser = expressionStatement nested parser.beginStatement := by
  unfold statement
  dsimp only
  split
  · rename_i hlet
    exact absurd hlet (Kind.ne_of_isStop h rfl)
  · rename_i hreturn
    exact absurd hreturn (Kind.ne_of_isStop h rfl)
  · rfl

/-- A statement at a token at which phrases stop is given up on the spot, if expressions are. -/
theorem statement_refuses {nested : Int → Rule σ Node} {parser : Parser σ}
    (hrefuses : ∀ floor (parser : Parser σ), parser.current.kind.isStop = true →
      nested floor parser = .abandoned parser)
    (h : parser.current.kind.isStop = true) :
    statement nested parser = .abandoned parser.beginStatement := by
  rw [statement_of_isStop h, expressionStatement, bind_apply,
    hrefuses _ parser.beginStatement h]

/-- No expression is read at a token at which phrases stop. -/
theorem expressionWithin_of_isStop {steps nesting : Nat} {floor : Int} {parser : Parser σ}
    (h : parser.current.kind.isStop = true) :
    expressionWithin steps (nesting + 1) floor parser = .abandoned parser := by
  rw [expressionWithin, bind_apply, operand_refuses (Kind.startsExpression_of_isStop h)]

/-- A token at which phrases stop does not continue an expression. -/
theorem climb_of_isStop {nested : Int → Rule σ Node} {parser : Parser σ} {steps rounds : Nat}
    {floor : Int} {left : Node} (h : parser.peek.kind.isStop = true) :
    climb steps nested floor (rounds + 1) left parser = .done left parser := by
  have hbinary := Kind.isBinary_of_isStop h
  have hparen : parser.peek.kind ≠ .lparen := Kind.ne_of_isStop h rfl
  rw [climb, peek_bind_apply, hbinary, if_neg Bool.false_ne_true, if_neg hparen, ite_self]
  rfl

variable {facing ended lost : Parser σ → Parser τ → Prop} (hab : Abreast facing ended lost)
  {p : Parser σ} {q : Parser τ} {steps : Nat}

section Words

omit [TokenSource σ] [TokenSource τ]

variable {fault : Parser σ → Parser τ → Prop}

/-- Names are read alike. -/
theorem identifier_agrees (h : Level facing p q) :
    (identifier p).Agrees fault facing (identifier q) := by
  change (Outcome.done (Node.identifier p.current.literal) p).Agrees fault facing
    (.done (.identifier q.current.literal) q)
  rw [h.2]
  exact .done _ h.1

/-- Truth values are read alike. -/
theorem boolean_agrees (h : Level facing p q) :
    (boolean p).Agrees fault facing (boolean q) := by
  change (Outcome.done (Node.boolean (p.current.kind == .trueWord)) p).Agrees fault facing
    (.done (.boolean (q.current.kind == .trueWord)) q)
  rw [h.2]
  exact .done _ h.1

end Words

include hab

/-- Integers are read alike. -/
theorem integer_agrees (h : Level facing p q) :
    (integer p).Agrees lost facing (integer q) := by
  unfold integer
  rw [current_bind_apply, current_bind_apply, h.2]
  cases Text.integerOf? p.current.literal with
  | some value => exact .done _ h.1
  | none => exact .abandoned (hab.unreadable h.1 _)

/-- The rest of a list of parameters is read alike. -/
theorem parametersFrom_agrees (rounds : Nat) (read : Array Node) (h : facing p q) :
    (parametersFrom rounds read p).Agrees lost facing
      (parametersFrom rounds read q) := by
  induction rounds generalizing p q read with
  | zero => exact .exhausted
  | succ rounds ih =>
    refine hab.choose (by decide) h (fun _ hpeek => ?_) ?_
    · rw [advance_bind_apply, advance_bind_apply]
      refine Agrees.bind (hab.expect (by decide) (hab.advance h hpeek)) fun _ p q hlevel => ?_
      exact Agrees.bind (identifier_agrees hlevel.1) fun parameter p q h =>
        ih (read.push parameter) h
    · exact Agrees.bind (hab.expect (by decide) h) fun _ p q hlevel => .done _ hlevel.1.1

/-- Parameters are read alike. -/
theorem parameters_agrees (h : facing p q) :
    (parameters steps p).Agrees lost facing (parameters steps q) := by
  refine hab.choose (by decide) h (fun _ hpeek => .done _ (hab.advance h hpeek)) ?_
  refine Agrees.bind (hab.expect (by decide) h) fun _ p q hlevel => ?_
  exact Agrees.bind (identifier_agrees hlevel.1) fun parameter p q h =>
    parametersFrom_agrees hab steps #[parameter] h

section Nested

variable {nested : Int → Rule σ Node} {nested' : Int → Rule τ Node}
  (hnested : NestedAgrees facing ended nested nested' lost)

include hnested

/-! ### Statements -/

/-- The expression that ends a statement is read alike, up to the semicolon after it. -/
theorem ending_agrees (floor : Int) (form : Node → Node) (h : Standing facing ended p q) :
    ((do let value ← nested floor; accept .semicolon; return form value : Rule σ Node) p).Agrees
      lost (Settled facing)
      ((do let value ← nested' floor; accept .semicolon; return form value : Rule τ Node) q) :=
  Agrees.bind (hnested floor p q h) fun _ _ _ h => .done _ (hab.settled_pastSemicolon h)

/-- Statements with `let` are read alike. -/
theorem letStatement_agrees (h : facing p q) :
    (letStatement nested p).Agrees lost (Settled facing)
      (letStatement nested' q) := by
  refine Agrees.bind (hab.expect (by decide) h) fun _ p q hlevel => ?_
  refine Agrees.bind (identifier_agrees hlevel.1) fun name p q h => ?_
  refine Agrees.bind (hab.expect (by decide) h) fun _ p q hlevel => ?_
  obtain ⟨⟨h, -⟩, hassign⟩ := hlevel
  exact ending_agrees hab hnested _ (.letStatement name)
    (hab.standing_advance h (.inr (by rw [hassign]; rfl)))

/-- Statements with `return` are read alike. -/
theorem returnStatement_agrees (h : facing p q)
    (hreach : q.peek = p.peek ∨ p.current.kind.wantsOperand = true) :
    (returnStatement nested p).Agrees lost (Settled facing)
      (returnStatement nested' q) :=
  ending_agrees hab hnested _ .returnStatement (hab.standing_advance h hreach)

/-- Statements that are expressions are read alike. -/
theorem expressionStatement_agrees (h : Standing facing ended p q) :
    (expressionStatement nested p).Agrees lost (Settled facing)
      (expressionStatement nested' q) :=
  ending_agrees hab hnested _ .expressionStatement h

/-- Statements of any form are read alike. -/
theorem statement_agrees (h : Standing facing ended p q) :
    (statement nested p).Agrees lost (Settled facing) (statement nested' q) := by
  rcases h with ⟨hfacing, hcurrent⟩ | hended
  · have hbegun := hab.beginStatement hfacing
    have hcurrent' : q.beginStatement.current.kind = p.beginStatement.current.kind :=
      congrArg Token.kind hcurrent
    unfold statement
    dsimp only
    rw [hcurrent']
    split
    · exact letStatement_agrees hab hnested hbegun
    · rename_i hreturn
      exact returnStatement_agrees hab hnested hbegun (.inr (by rw [hreturn]; rfl))
    · exact expressionStatement_agrees hab hnested (.inl ⟨hbegun, hcurrent⟩)
  · obtain ⟨hp, hq⟩ := hab.ended_isStop hended
    rw [statement_of_isStop hp, statement_of_isStop hq]
    exact expressionStatement_agrees hab hnested (.inr (hab.ended_beginStatement hended))

/-- Sequences of statements are read alike if both parsers are at the end of them at the same time,
and move on from each statement, given up or not, to where the next one may be. -/
theorem statementsUntil_agrees {closes closes' : Kind → Bool}
    {fault along : Parser σ → Parser τ → Prop}
    (hcloses : ∀ {p q}, along p q → closes' q.current.kind = closes p.current.kind)
    (hopen : ∀ {p q}, along p q → closes p.current.kind = false → Standing facing ended p q)
    (hsettled : ∀ {p q}, Settled facing p q → along p.advance q.advance)
    (hlost : ∀ {p q}, lost p q → along p.advance q.advance) (rounds : Nat) (read : Array Node)
    (h : along p q) :
    (statementsUntil nested closes rounds read p).Agrees fault along
      (statementsUntil nested' closes' rounds read q) := by
  induction rounds generalizing p q read with
  | zero => exact .exhausted
  | succ rounds ih =>
    rw [statementsUntil, statementsUntil, current_bind_apply, current_bind_apply, hcloses h]
    split
    · exact .done _ h
    · rename_i hclose
      have hstatement := statement_agrees hab hnested (hopen h (Bool.eq_false_iff.mpr hclose))
      rw [bind_apply, bind_apply, attempt, attempt]
      revert hstatement
      generalize statement nested p = left, statement nested' q = right
      intro hstatement
      cases hstatement with
      | done node hend => exact ih (read.push node) (hsettled hend)
      | abandoned hend => exact ih read (hlost hend)
      | exhausted => exact .exhausted

/-! ### Operands -/

/-- Operators and the operands after them are read alike. -/
theorem unary_agrees (h : Level facing p q)
    (hreach : q.peek = p.peek ∨ p.current.kind.wantsOperand = true) :
    (unary nested p).Agrees lost facing (unary nested' q) := by
  unfold unary
  rw [current_bind_apply, current_bind_apply, advance_bind_apply, advance_bind_apply, h.2]
  exact Agrees.bind (hnested _ _ _ (hab.standing_advance h.1 hreach)) fun _ _ _ h => .done _ h

/-- Expressions in parentheses are read alike. -/
theorem grouped_agrees (h : facing p q)
    (hreach : q.peek = p.peek ∨ p.current.kind.wantsOperand = true) :
    (grouped nested p).Agrees lost facing (grouped nested' q) := by
  unfold grouped
  rw [advance_bind_apply, advance_bind_apply]
  refine Agrees.bind (hnested _ _ _ (hab.standing_advance h hreach)) fun _ p q h => ?_
  exact Agrees.bind (hab.expect (by decide) h) fun _ p q hlevel => .done _ hlevel.1.1

/-- The rest of a list of arguments is read alike. -/
theorem argumentsFrom_agrees (rounds : Nat) (read : Array Node) (h : facing p q) :
    (argumentsFrom nested rounds read p).Agrees lost facing
      (argumentsFrom nested' rounds read q) := by
  induction rounds generalizing p q read with
  | zero => exact .exhausted
  | succ rounds ih =>
    refine hab.choose (by decide) h (fun hcomma hpeek => ?_) ?_
    · rw [advance_bind_apply, advance_bind_apply, advance_bind_apply, advance_bind_apply]
      have hreach : p.advance.current.kind.wantsOperand = true := by
        change p.peek.kind.wantsOperand = true
        rw [hcomma]
        rfl
      exact Agrees.bind (hnested _ _ _ (hab.standing_advance (hab.advance h hpeek) (.inr hreach)))
        fun argument p q h => ih (read.push argument) h
    · exact Agrees.bind (hab.expect (by decide) h) fun _ p q hlevel => .done _ hlevel.1.1

/-- Arguments are read alike. -/
theorem arguments_agrees (h : facing p q)
    (hreach : q.peek = p.peek ∨ p.current.kind.wantsOperand = true) :
    (arguments steps nested p).Agrees lost facing
      (arguments steps nested' q) := by
  refine hab.choose (by decide) h (fun _ hpeek => .done _ (hab.advance h hpeek)) ?_
  rw [advance_bind_apply, advance_bind_apply]
  exact Agrees.bind (hnested _ _ _ (hab.standing_advance h hreach)) fun argument p q h =>
    argumentsFrom_agrees hab hnested steps #[argument] h

/-- The arguments of calls are read alike. -/
theorem call_agrees (callee : Node) (h : facing p q)
    (hreach : q.peek = p.peek ∨ p.current.kind.wantsOperand = true) :
    (call steps nested callee p).Agrees lost facing
      (call steps nested' callee q) :=
  Agrees.bind (arguments_agrees hab hnested h hreach) fun _ _ _ h => .done _ h

/-- Operators and their right operands are read alike. -/
theorem binary_agrees (left : Node) (h : Level facing p q)
    (hreach : q.peek = p.peek ∨ p.current.kind.wantsOperand = true) :
    (binary nested left p).Agrees lost facing (binary nested' left q) := by
  unfold binary
  rw [current_bind_apply, current_bind_apply, advance_bind_apply, advance_bind_apply, h.2]
  exact Agrees.bind (hnested _ _ _ (hab.standing_advance h.1 hreach)) fun _ _ _ h => .done _ h

/-- Operators and calls are read alike. -/
theorem climb_agrees (floor : Int) (rounds : Nat) (left : Node) (h : facing p q) :
    (climb steps nested floor rounds left p).Agrees lost facing
      (climb steps nested' floor rounds left q) := by
  induction rounds generalizing p q left with
  | zero => exact .exhausted
  | succ rounds ih =>
    rcases hab.peek h with hpeek | ⟨hp, hq⟩
    · have hlevel := hab.level_advance h hpeek
      rw [climb, climb, peek_bind_apply, peek_bind_apply, hpeek]
      split
      · exact .done _ h
      · split
        · rename_i hbinary
          rw [advance_bind_apply, advance_bind_apply]
          exact Agrees.bind (binary_agrees hab hnested left hlevel
            (.inr (Kind.wantsOperand_of_isBinary hbinary))) fun left p q h => ih left h
        · split
          · rename_i hparen
            rw [advance_bind_apply, advance_bind_apply]
            have hreach : p.advance.current.kind.wantsOperand = true := by
              change p.peek.kind.wantsOperand = true
              rw [hparen]
              rfl
            exact Agrees.bind (call_agrees hab hnested left hlevel.1 (.inr hreach))
              fun left p q h => ih left h
          · exact .done _ h
    · rw [climb_of_isStop hp, climb_of_isStop hq]
      exact .done _ h

section Blocks

variable (hblocks : BlocksAgree facing ended steps nested nested' lost)

include hblocks

omit hnested in
/-- Blocks after an opening brace that is expected are read alike. -/
theorem braced_agrees {next : Node → Rule σ α} {next' : Node → Rule τ α} (h : facing p q)
    (hnext : ∀ node p q, facing p q →
      (next node p).Agrees lost facing (next' node q)) :
    ((do expect .lbrace; let node ← block steps nested; next node : Rule σ α) p).Agrees
      lost facing
      ((do expect .lbrace; let node ← block steps nested'; next' node : Rule τ α) q) :=
  Agrees.bind (hab.expect (by decide) h) fun _ p q hlevel =>
    Agrees.bind (hblocks p q hlevel.1 hlevel.2) hnext

/-- Choices are read alike. -/
theorem conditional_agrees (h : facing p q) :
    (conditional steps nested p).Agrees lost facing
      (conditional steps nested' q) := by
  refine Agrees.bind (hab.expect (by decide) h) fun _ p q hlevel => ?_
  rw [advance_bind_apply, advance_bind_apply]
  have hreach : p.current.kind.wantsOperand = true := by
    rw [hlevel.2]
    rfl
  refine Agrees.bind (hnested _ _ _ (hab.standing_advance hlevel.1.1 (.inr hreach)))
    fun condition p q h => ?_
  refine Agrees.bind (hab.expect (by decide) h) fun _ p q hlevel => ?_
  refine braced_agrees hab hblocks hlevel.1.1 fun consequence p q h => ?_
  refine hab.choose (by decide) h (fun _ hpeek => ?_) (.done _ h)
  rw [advance_bind_apply, advance_bind_apply]
  exact braced_agrees hab hblocks (hab.advance h hpeek) fun _ p q h => .done _ h

omit hnested in
/-- Functions are read alike. -/
theorem function_agrees (h : facing p q) :
    (function steps nested p).Agrees lost facing
      (function steps nested' q) := by
  refine Agrees.bind (hab.expect (by decide) h) fun _ p q hlevel => ?_
  refine Agrees.bind (parameters_agrees hab hlevel.1.1) fun parameters p q h => ?_
  exact braced_agrees hab hblocks h fun _ p q h => .done _ h

/-- Operands are read alike. -/
theorem operand_agrees (h : Standing facing ended p q) :
    (operand steps nested p).Agrees lost facing
      (operand steps nested' q) := by
  rcases h with h | hended
  · unfold operand
    rw [h.2]
    split
    · exact identifier_agrees h
    · exact integer_agrees hab h
    · exact boolean_agrees h
    · exact boolean_agrees h
    · rename_i hbang
      exact unary_agrees hab hnested h (.inr (by rw [hbang]; rfl))
    · rename_i hminus
      exact unary_agrees hab hnested h (.inr (by rw [hminus]; rfl))
    · rename_i hparen
      exact grouped_agrees hab hnested h.1 (.inr (by rw [hparen]; rfl))
    · exact conditional_agrees hab hnested hblocks h.1
    · exact function_agrees hab hblocks h.1
    · exact .abandoned (hab.lost_of_astray (.inl h.1))
  · obtain ⟨hp, hq⟩ := hab.ended_isStop hended
    rw [operand_refuses (Kind.startsExpression_of_isStop hp),
      operand_refuses (Kind.startsExpression_of_isStop hq)]
    exact .abandoned (hab.lost_of_astray (.inr hended))

end Blocks

end Nested

/-- Expressions are read alike if blocks are, whatever the rule for nested expressions in them. -/
theorem expressionWithin_agrees (nesting : Nat)
    (hblocks : ∀ {nested : Int → Rule σ Node} {nested' : Int → Rule τ Node},
      NestedAgrees facing ended nested nested' lost →
        BlocksAgree facing ended steps nested nested' lost) :
    NestedAgrees facing ended (expressionWithin steps nesting)
      (expressionWithin steps nesting) lost := by
  induction nesting with
  | zero => exact fun _ _ _ _ => .exhausted
  | succ nesting ih =>
    intro floor p q h
    exact Agrees.bind (operand_agrees hab ih (hblocks ih) h) fun left p q h =>
      climb_agrees hab ih floor steps left h

end Grammar

/-! ## Parsers over the same tokens -/

/-- Nothing is gone past by parsers that face the same token wherever they are. -/
def Nowhere (_ : Parser σ) (_ : Parser τ) : Prop :=
  False

/-- A relation between parsers that face the same token wherever they are, kept by each single
step. -/
structure Paired (facing : Parser σ → Parser τ → Prop) : Prop where
  current : ∀ {p q}, facing p q → q.current = p.current
  peek : ∀ {p q}, facing p q → q.peek = p.peek
  advance : ∀ {p q}, facing p q → facing p.advance q.advance
  report : ∀ {p q}, facing p q → ∀ fault, facing (p.report fault) (q.report fault)
  beginStatement : ∀ {p q}, facing p q → facing p.beginStatement q.beginStatement

namespace Paired

open Outcome

variable {facing : Parser σ → Parser τ → Prop} (hpaired : Paired facing) {p : Parser σ}
  {q : Parser τ}

include hpaired

/-- Parsers that face the same token report the same. -/
theorem reportPeek (h : facing p q) (kind : Kind) :
    facing (p.reportPeek kind) (q.reportPeek kind) := by
  unfold Parser.reportPeek
  rw [hpaired.peek h]
  exact hpaired.report h _

/-- Parsers that face the same token wherever they are stay side by side. -/
theorem abreast : Abreast facing Nowhere where
  peek h := .inl (hpaired.peek h)
  advance h _ := hpaired.advance h
  leave h hpeek _ := absurd (hpaired.peek h) hpeek
  ended_isStop h := h.elim
  lost_of_astray h := h
  unreadable h literal := .inl (hpaired.report h (.unreadable literal))
  reportPeek h kind := .inl (hpaired.reportPeek h kind)
  beginStatement h := hpaired.beginStatement h
  ended_beginStatement h := h

/-- Parsers that are side by side examine the same token. -/
theorem level (h : facing p q) : Level facing p q :=
  ⟨h, hpaired.current h⟩

/-- After a statement parsers are side by side, since no semicolon is faced by one of them only. -/
theorem of_settled (h : Settled facing p q) : facing p q := by
  rcases h with h | ⟨before, before', hbefore, hpeek, -, -⟩
  · exact h
  · exact absurd (hpaired.peek hbefore) hpeek

/-- Sequences of statements are read alike, each up to where it closes. -/
theorem statementsUntil_agrees {nested : Int → Rule σ Node} {nested' : Int → Rule τ Node}
    (hnested : NestedAgrees facing Nowhere nested nested') {closes closes' : Kind → Bool}
    (hcloses : ∀ {p q}, facing p q → closes' q.current.kind = closes p.current.kind)
    (rounds : Nat) (read : Array Node) (h : facing p q) :
    (Grammar.statementsUntil nested closes rounds read p).Agrees (Astray facing Nowhere) facing
      (Grammar.statementsUntil nested' closes' rounds read q) :=
  Grammar.statementsUntil_agrees hpaired.abreast hnested hcloses
    (fun h _ => .inl (hpaired.level h)) (fun h => hpaired.advance (hpaired.of_settled h))
    (fun h => hpaired.advance (h.resolve_right id)) rounds read h

/-- Blocks are read alike. -/
theorem block_agrees {steps : Nat} {nested : Int → Rule σ Node} {nested' : Int → Rule τ Node}
    (hnested : NestedAgrees facing Nowhere nested nested') (h : facing p q) :
    (Grammar.block steps nested p).Agrees (Astray facing Nowhere) facing
      (Grammar.block steps nested' q) := by
  have hcloses : ∀ {p q}, facing p q →
      Grammar.closesBlock q.current.kind = Grammar.closesBlock p.current.kind :=
    fun h => by rw [hpaired.current h]
  unfold Grammar.block
  rw [Rule.advance_bind_apply, Rule.advance_bind_apply]
  exact Agrees.bind (hpaired.statementsUntil_agrees hnested hcloses steps #[] (hpaired.advance h))
    fun _ _ _ h => .done _ h

/-- Expressions are read alike. -/
theorem expressionWithin_agrees (steps nesting : Nat) :
    NestedAgrees facing Nowhere (Grammar.expressionWithin steps nesting)
      (Grammar.expressionWithin steps nesting) :=
  Grammar.expressionWithin_agrees hpaired.abreast nesting fun hnested _ _ h _ =>
    hpaired.block_agrees hnested h.1

/-- Programs are read alike. -/
theorem program_agrees (steps nesting : Nat) (h : facing p q) :
    (Grammar.program steps (Grammar.expressionWithin steps nesting) p).Agrees
      (Astray facing Nowhere) facing
      (Grammar.program steps (Grammar.expressionWithin steps nesting) q) := by
  have hcloses : ∀ {p q}, facing p q → (q.current.kind == .eof) = (p.current.kind == .eof) :=
    fun h => by rw [hpaired.current h]
  exact Agrees.bind (hpaired.statementsUntil_agrees (hpaired.expressionWithin_agrees steps nesting)
    hcloses steps #[] h) fun _ _ _ h => .done _ h

end Paired

/-! ## Parsers over sources that hand out the same -/

section Mirrors

variable {σ τ : Type} [LawfulSource σ] [LawfulSource τ]

/-- The parsers are at the same place of the same tokens, and the second one has reported what the
first one has after what was reported `before`. -/
structure Mirrors (before : Array Diagnostic) (p : Parser σ) (q : Parser τ) : Prop where
  current : q.current = p.current
  peek : q.peek = p.peek
  pending : LawfulSource.pending q.source = LawfulSource.pending p.source
  errors : q.errors = before ++ p.errors

/-- Parsers at the same place of the same tokens stay together. -/
theorem mirrors_paired (before : Array Diagnostic) :
    Paired (Mirrors before : Parser σ → Parser τ → Prop) where
  current h := h.current
  peek h := h.peek
  advance {p q} h :=
    { current := h.peek
      peek := by
        change (TokenSource.next q.source).1 = (TokenSource.next p.source).1
        rw [LawfulSource.next_fst, LawfulSource.next_fst, h.pending]
      pending := by
        change LawfulSource.pending (TokenSource.next q.source).2 =
          LawfulSource.pending (TokenSource.next p.source).2
        rw [LawfulSource.pending_next, LawfulSource.pending_next, h.pending]
      errors := h.errors }
  report {p q} h fault :=
    { current := h.current
      peek := h.peek
      pending := h.pending
      errors := by
        change q.errors.push fault = before ++ p.errors.push fault
        rw [h.errors, Array.append_push] }
  beginStatement h := ⟨h.current, h.peek, h.pending, h.errors⟩

/-- Parsers that stand at the same tokens are at the same place of them. -/
theorem Mirrors.of_standsAt {p : Parser σ} {q : Parser τ} {tokens : List Token}
    (hp : p.StandsAt tokens) (hq : q.StandsAt tokens) {before : Array Diagnostic}
    (herrors : q.errors = before ++ p.errors) : Mirrors before p q where
  current := hq.current.trans hp.current.symm
  peek := hq.faces.peek.trans hp.faces.peek.symm
  pending := hq.faces.pending.trans hp.faces.pending.symm
  errors := herrors

/-- Of parsers at the same place the second one stands where the first one does. -/
theorem Mirrors.standsAt {p : Parser σ} {q : Parser τ} {before : Array Diagnostic}
    {tokens : List Token} (h : Mirrors before p q) (hp : p.StandsAt tokens) :
    q.StandsAt tokens where
  current := h.current.trans hp.current
  faces := ⟨h.peek.trans hp.faces.peek, h.pending.trans hp.faces.pending, hp.faces.proper⟩
  proper := hp.proper

end Mirrors

end ExprLang
