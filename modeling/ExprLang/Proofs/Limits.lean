import ExprLang.Parse
import ExprLang.Proofs.Progress

/-!
# The limits

A rule with wider limits, on the nesting or on the rounds of loops, ends as the rule with the
narrower limits does, except where the narrower one is exhausted. So whatever is read from a text
within some limits is read from it within all wider limits.

Once the rounds of loops exceed the number of tokens ahead they are no limit at all: rules that
differ in nothing but such rounds end alike, exhausted ones included. Both statements are one, with
a leave to be exhausted that has to be given only where a limit may be reached.
-/

namespace ExprLang

variable {σ α β : Type} [LawfulSource σ] {cut : Prop} {ahead : List Token} {size : Nat}

namespace Outcome

/-- The outcome is the wider one as well, with the parser within `ahead`, or else it is exhausted,
which it may be where the wider one is not only if `cut` holds. -/
inductive ExtendedBy (cut : Prop) (ahead : List Token) : Outcome σ α → Outcome σ α → Prop where
  | done {parser} (value : α) : parser.Within ahead →
      ExtendedBy cut ahead (.done value parser) (.done value parser)
  | abandoned {parser} : parser.Within ahead →
      ExtendedBy cut ahead (.abandoned parser) (.abandoned parser)
  | exhausted : ExtendedBy cut ahead .exhausted .exhausted
  | cut {wide} : cut → ExtendedBy cut ahead .exhausted wide

/-- What ends within fewer tokens ends within more. -/
theorem ExtendedBy.within {fewer : List Token} {outcome wide : Outcome σ α}
    (h : outcome.ExtendedBy cut fewer wide) (hfewer : fewer <:+ ahead) :
    outcome.ExtendedBy cut ahead wide := by
  cases h with
  | done value hend => exact .done value (hend.mono hfewer)
  | abandoned hend => exact .abandoned (hend.mono hfewer)
  | exhausted => exact .exhausted
  | cut hcut => exact .cut hcut

/-- Rules in sequence are extended one by one. -/
theorem ExtendedBy.bind {rule wide : Rule σ α} {next next' : α → Rule σ β} {parser : Parser σ}
    (h : (rule parser).ExtendedBy cut ahead (wide parser))
    (hnext : ∀ value (last : Parser σ) rest, last.Faces rest → rest <:+ ahead →
      (next value last).ExtendedBy cut rest (next' value last)) :
    ((rule >>= next) parser).ExtendedBy cut ahead ((wide >>= next') parser) := by
  rw [Rule.bind_apply, Rule.bind_apply]
  revert h
  generalize rule parser = outcome, wide parser = wider
  intro h
  cases h with
  | done value hend =>
    obtain ⟨rest, hfaces, hrest⟩ := hend
    exact (hnext value _ rest hfaces hrest).within hrest
  | abandoned hend => exact .abandoned hend
  | exhausted => exact .exhausted
  | cut hcut => exact .cut hcut

/-- An attempt is extended with its rule. -/
theorem ExtendedBy.attempt {rule wide : Rule σ α} {parser : Parser σ}
    (h : (rule parser).ExtendedBy cut ahead (wide parser)) :
    (Rule.attempt rule parser).ExtendedBy cut ahead (Rule.attempt wide parser) := by
  unfold Rule.attempt
  revert h
  generalize rule parser = outcome, wide parser = wider
  intro h
  cases h with
  | done value hend => exact .done (some value) hend
  | abandoned hend => exact .done none hend
  | exhausted => exact .exhausted
  | cut hcut => exact .cut hcut

/-- What is read is read by every rule that extends the one that reads it. -/
theorem ExtendedBy.of_done {wide : Outcome σ α} {value : α} {last : Parser σ}
    (h : (Outcome.done value last).ExtendedBy cut ahead wide) : wide = .done value last := by
  cases h with
  | done _ _ => rfl

/-- Without a leave to be exhausted both outcomes are the same. -/
theorem ExtendedBy.eq {outcome wide : Outcome σ α} (h : outcome.ExtendedBy False ahead wide) :
    wide = outcome := by
  cases h with
  | done _ _ => rfl
  | abandoned _ => rfl
  | exhausted => rfl
  | cut hcut => exact hcut.elim

end Outcome

namespace Rule

/-- From wherever at most `size` tokens are faced, `wide` extends `rule`. -/
def ExtendedBy (cut : Prop) (size : Nat) (rule wide : Rule σ α) : Prop :=
  ∀ (parser : Parser σ) rest, parser.Faces rest → rest.length ≤ size →
    (rule parser).ExtendedBy cut rest (wide parser)

/-- What is extended from more tokens is extended from fewer. -/
theorem ExtendedBy.mono {rule wide : Rule σ α} {fewer : Nat} (h : rule.ExtendedBy cut size wide)
    (hfewer : fewer ≤ size) : rule.ExtendedBy cut fewer wide :=
  fun parser rest hfaces hrest => h parser rest hfaces (Nat.le_trans hrest hfewer)

/-- A rule ends as it does. -/
theorem ExtendedBy.refl {rule : Rule σ α} (h : rule.Advances True size) :
    rule.ExtendedBy cut size rule := by
  intro parser rest hfaces hsize
  have hmeets := h parser rest hfaces hsize
  have hwithin {last : Parser σ} : last.Onward rest parser.begun → last.Within rest :=
    fun ⟨after, hafter, hsuffix, _⟩ => ⟨after, hafter, hsuffix⟩
  revert hmeets
  generalize rule parser = outcome
  intro hmeets
  cases outcome with
  | done value last => exact .done value (hwithin hmeets)
  | abandoned last => exact .abandoned (hwithin hmeets)
  | exhausted => exact .exhausted

/-- Rules in sequence are extended one by one. -/
theorem ExtendedBy.bind {rule wide : Rule σ α} {next next' : α → Rule σ β}
    (h : rule.ExtendedBy cut size wide)
    (hnext : ∀ value, (next value).ExtendedBy cut size (next' value)) :
    (rule >>= next).ExtendedBy cut size (wide >>= next') :=
  fun parser rest hfaces hsize => Outcome.ExtendedBy.bind (h parser rest hfaces hsize)
    fun value last after hafter hsuffix =>
      hnext value last after hafter (Nat.le_trans hsuffix.length_le hsize)

/-- After one and the same rule only what follows is extended. -/
theorem ExtendedBy.next {rule : Rule σ α} {next next' : α → Rule σ β}
    (h : rule.Advances True size)
    (hnext : ∀ value, (next value).ExtendedBy cut size (next' value)) :
    (rule >>= next).ExtendedBy cut size (rule >>= next') :=
  (ExtendedBy.refl h).bind hnext

/-- Before one and the same rule only what comes first is extended. -/
theorem ExtendedBy.first {rule wide : Rule σ α} {next : α → Rule σ β}
    (h : rule.ExtendedBy cut size wide) (hnext : ∀ value, (next value).Advances True size) :
    (rule >>= next).ExtendedBy cut size (wide >>= next) :=
  h.bind fun value => ExtendedBy.refl (hnext value)

/-- What goes on after a token that is there goes on from fewer tokens. -/
theorem extendedBy_take {next next' : Rule σ β} {parser : Parser σ} {rest : List Token}
    (hfaces : parser.Faces rest) (hproper : parser.peek.kind ≠ .eof) (hsize : rest.length ≤ size)
    (h : ∀ fewer, fewer < size → next.ExtendedBy cut fewer next') :
    ((advance >>= fun _ => next) parser).ExtendedBy cut rest
      ((advance >>= fun _ => next') parser) := by
  rw [hfaces.peek_kind] at hproper
  obtain ⟨token, tail, rfl, -⟩ := exists_cons_of_headKind rfl hproper
  rw [List.length_cons] at hsize
  exact (h tail.length hsize parser.advance tail hfaces.advance.faces (Nat.le_refl _)).within
    (List.suffix_cons token tail)

/-- A loop that goes on after a token of a certain kind, and ends otherwise. -/
theorem ExtendedBy.take {kind : Kind} (hproper : kind ≠ .eof) {next next' other : Rule σ β}
    (hnext : ∀ fewer, fewer < size → next.ExtendedBy cut fewer next')
    (hother : other.Advances True size) :
    (peek >>= fun token =>
      if token.kind = kind then advance >>= fun _ => next else other).ExtendedBy cut size
      (peek >>= fun token =>
        if token.kind = kind then advance >>= fun _ => next' else other) := by
  intro parser rest hfaces hsize
  rw [peek_bind_apply, peek_bind_apply]
  by_cases hkind : parser.peek.kind = kind
  · rw [if_pos hkind, if_pos hkind]
    exact extendedBy_take hfaces (hkind ▸ hproper) hsize hnext
  · rw [if_neg hkind, if_neg hkind]
    exact ExtendedBy.refl hother parser rest hfaces hsize

end Rule

namespace Grammar

open Rule

variable {steps more rounds wider : Nat}

section Loops

/-- The rest of a list of parameters is extended by more rounds. -/
theorem parametersFrom_extended (hwider : rounds ≤ wider) (hrounds : size < rounds ∨ cut)
    (read : Array Node) :
    (parametersFrom rounds read : Rule σ (List Node)).ExtendedBy cut size
      (parametersFrom wider read) := by
  induction rounds generalizing size wider read with
  | zero => exact fun _ _ _ _ => .cut (hrounds.resolve_left (Nat.not_lt_zero size))
  | succ rounds ih =>
    obtain ⟨wider, rfl⟩ := Nat.exists_eq_add_of_lt hwider
    refine ExtendedBy.take (by decide) (fun fewer hfewer => ?_)
      ((Advances.expect _).bind fun _ => .pure _)
    exact .next (.expect _) fun _ => .next identifier_advances fun parameter =>
      ih (Nat.le_add_right rounds wider) (hrounds.imp_left (by omega)) (read.push parameter)

variable (hmore : steps ≤ more) (hsteps : size < steps ∨ cut)

include hmore hsteps

/-- Parameters are extended by more rounds. -/
theorem parameters_extended :
    (parameters steps : Rule σ (List Node)).ExtendedBy cut size (parameters more) := by
  refine .next .peek fun next => ?_
  split
  · exact .refl (Advances.advance.bind fun _ => .pure _)
  · exact .next (.expect _) fun _ => .next identifier_advances fun parameter =>
      parametersFrom_extended hmore hsteps #[parameter]

end Loops

section Nested

variable {nested wide : Int → Rule σ Node}
  (h : ∀ floor, (nested floor).ExtendedBy cut size (wide floor))

include h

/-- The end of a statement is extended with the rule for nested expressions. -/
theorem ending_extended (floor : Int) (form : Node → Node) :
    (do let value ← nested floor; accept .semicolon; return form value :
      Rule σ Node).ExtendedBy cut size
      (do let value ← wide floor; accept .semicolon; return form value : Rule σ Node) :=
  (h floor).first fun _ => (Advances.accept _).bind fun _ => .pure _

/-- Statements with `let` are extended with the rule for nested expressions. -/
theorem letStatement_extended :
    (letStatement nested).ExtendedBy cut size (letStatement wide) :=
  .next (.expect _) fun _ => .next identifier_advances fun name => .next (.expect _) fun _ =>
    .next .advance fun _ => ending_extended h _ (.letStatement name)

/-- Statements with `return` are extended with the rule for nested expressions. -/
theorem returnStatement_extended :
    (returnStatement nested).ExtendedBy cut size (returnStatement wide) :=
  .next .advance fun _ => ending_extended h _ .returnStatement

/-- Statements that are expressions are extended with the rule for nested expressions. -/
theorem expressionStatement_extended :
    (expressionStatement nested).ExtendedBy cut size (expressionStatement wide) :=
  ending_extended h _ .expressionStatement

/-- Statements are extended with the rule for nested expressions. -/
theorem statement_extended : (statement nested).ExtendedBy cut size (statement wide) := by
  intro parser rest hfaces hsize
  have hbegun : parser.beginStatement.Faces rest := ⟨hfaces.peek, hfaces.pending, hfaces.proper⟩
  unfold statement
  dsimp only
  split
  · exact letStatement_extended h _ rest hbegun hsize
  · exact returnStatement_extended h _ rest hbegun hsize
  · exact expressionStatement_extended h _ rest hbegun hsize

/-- Sequences of statements are extended with the rule for nested expressions and by more rounds. -/
theorem statementsUntil_extended {closes : Kind → Bool} (hcloses : closes .eof = true)
    (hwider : rounds ≤ wider) (read : Array Node) {parser : Parser σ} {tokens : List Token}
    (hstand : parser.StandsAt tokens) (hsize : tokens.length ≤ size)
    (hrounds : tokens.length < rounds ∨ cut) :
    (statementsUntil nested closes rounds read parser).ExtendedBy cut tokens.tail
      (statementsUntil wide closes wider read parser) := by
  induction rounds generalizing wider read tokens parser with
  | zero => exact .cut (hrounds.resolve_left (Nat.not_lt_zero _))
  | succ rounds ih =>
    obtain ⟨wider, rfl⟩ := Nat.exists_eq_add_of_lt hwider
    rw [statementsUntil, statementsUntil, current_bind_apply, current_bind_apply]
    by_cases hclose : closes parser.current.kind = true
    · rw [if_pos hclose, if_pos hclose]
      exact .done _ ⟨tokens.tail, hstand.faces, List.suffix_refl _⟩
    · rw [if_neg hclose, if_neg hclose]
      -- the end closes every sequence, so there is a token to take
      cases tokens with
      | nil => exact absurd (by rw [hstand.current_kind]; exact hcloses) hclose
      | cons token tail =>
        rw [List.length_cons] at hsize hrounds
        have hstatement := statement_extended h parser tail hstand.faces (Nat.le_of_succ_le hsize)
        refine Outcome.ExtendedBy.bind hstatement.attempt fun found last rest hfaces hrest => ?_
        have hlength : rest.length ≤ tail.length := hrest.length_le
        have hround : ∀ read, (statementsUntil nested closes rounds read last.advance).ExtendedBy
            cut rest (statementsUntil wide closes (rounds + wider) read last.advance) := by
          intro read
          exact (ih (Nat.le_add_right rounds wider) read hfaces.advance (by omega)
            (hrounds.imp_left (by omega))).within (List.tail_suffix rest)
        rw [advance_bind_apply, advance_bind_apply]
        cases found with
        | none => exact hround read
        | some node => exact hround (read.push node)

/-- Operators with their operands are extended with the rule for nested expressions. -/
theorem unary_extended : (unary nested).ExtendedBy cut size (unary wide) :=
  .next .current fun _ => .next .advance fun _ => (h _).first fun _ => .pure _

/-- Expressions in parentheses are extended with the rule for nested expressions. -/
theorem grouped_extended : (grouped nested).ExtendedBy cut size (grouped wide) :=
  .next .advance fun _ => (h _).first fun _ => (Advances.expect _).bind fun _ => .pure _

/-- Operators with their right operands are extended with the rule for nested expressions. -/
theorem binary_extended (left : Node) :
    (binary nested left).ExtendedBy cut size (binary wide left) :=
  .next .current fun _ => .next .advance fun _ => (h _).first fun _ => .pure _

/-- The rest of a list of arguments is extended with the rule for nested expressions and by more
rounds. -/
theorem argumentsFrom_extended (hwider : rounds ≤ wider) (hrounds : size < rounds ∨ cut)
    (read : Array Node) :
    (argumentsFrom nested rounds read).ExtendedBy cut size (argumentsFrom wide wider read) := by
  induction rounds generalizing size wider read with
  | zero => exact fun _ _ _ _ => .cut (hrounds.resolve_left (Nat.not_lt_zero size))
  | succ rounds ih =>
    obtain ⟨wider, rfl⟩ := Nat.exists_eq_add_of_lt hwider
    refine ExtendedBy.take (by decide) (fun fewer hfewer => ?_)
      ((Advances.expect _).bind fun _ => .pure _)
    have hfewer' : ∀ floor, (nested floor).ExtendedBy cut fewer (wide floor) :=
      fun floor => (h floor).mono (Nat.le_of_lt hfewer)
    exact .next .advance fun _ => (hfewer' _).bind fun argument =>
      ih hfewer' (Nat.le_add_right rounds wider) (hrounds.imp_left (by omega)) (read.push argument)

variable (hmore : steps ≤ more) (hsteps : size < steps ∨ cut)

include hmore hsteps

/-- Blocks are extended with the rule for nested expressions and by more rounds. -/
theorem block_extended : (block steps nested).ExtendedBy cut size (block more wide) := by
  intro parser rest hfaces hsize
  rw [block, block, advance_bind_apply, advance_bind_apply]
  have hrounds : rest.length < steps ∨ cut := hsteps.imp_left (Nat.lt_of_le_of_lt hsize)
  have hcloses : closesBlock .eof = true := rfl
  have hstatements := statementsUntil_extended h hcloses hmore #[] hfaces.advance hsize hrounds
  exact (hstatements.bind fun _ _ after hafter _ =>
    .done _ ⟨after, hafter, List.suffix_refl after⟩).within (List.tail_suffix rest)

/-- Choices are extended with the rule for nested expressions and by more rounds. -/
theorem conditional_extended :
    (conditional steps nested).ExtendedBy cut size (conditional more wide) := by
  have hblock := block_extended h hmore hsteps
  refine .next (.expect _) fun _ => .next .advance fun _ => (h _).bind fun condition =>
    .next (.expect _) fun _ => .next (.expect _) fun _ => hblock.bind fun consequence =>
      .next .peek fun next => ?_
  split
  · exact .next .advance fun _ => .next (.expect _) fun _ => hblock.first fun _ => .pure _
  · exact .refl (.pure _)

/-- Functions are extended with the rule for nested expressions and by more rounds. -/
theorem function_extended : (function steps nested).ExtendedBy cut size (function more wide) :=
  .next (.expect _) fun _ => (parameters_extended hmore hsteps).bind fun _ =>
    .next (.expect _) fun _ => (block_extended h hmore hsteps).first fun _ => .pure _

/-- Operands are extended with the rule for nested expressions and by more rounds. -/
theorem operand_extended : (operand steps nested).ExtendedBy cut size (operand more wide) := by
  intro parser rest hfaces hsize
  unfold operand
  split
  · exact ExtendedBy.refl identifier_advances parser rest hfaces hsize
  · exact ExtendedBy.refl integer_advances parser rest hfaces hsize
  · exact ExtendedBy.refl boolean_advances parser rest hfaces hsize
  · exact ExtendedBy.refl boolean_advances parser rest hfaces hsize
  · exact unary_extended h parser rest hfaces hsize
  · exact unary_extended h parser rest hfaces hsize
  · exact grouped_extended h parser rest hfaces hsize
  · exact conditional_extended h hmore hsteps parser rest hfaces hsize
  · exact function_extended h hmore hsteps parser rest hfaces hsize
  · exact .abandoned ⟨rest, hfaces, List.suffix_refl rest⟩

/-- Arguments are extended with the rule for nested expressions and by more rounds. -/
theorem arguments_extended : (arguments steps nested).ExtendedBy cut size (arguments more wide) := by
  refine .next .peek fun next => ?_
  split
  · exact .refl (Advances.advance.bind fun _ => .pure _)
  · exact .next .advance fun _ => (h _).bind fun argument =>
      argumentsFrom_extended h hmore hsteps #[argument]

/-- Calls are extended with the rule for nested expressions and by more rounds. -/
theorem call_extended (callee : Node) :
    (call steps nested callee).ExtendedBy cut size (call more wide callee) :=
  (arguments_extended h hmore hsteps).first fun _ => .pure _

/-- Operators and calls are extended with the rule for nested expressions and by more rounds. -/
theorem climb_extended (hwider : rounds ≤ wider) (hrounds : size < rounds ∨ cut) (floor : Int)
    (left : Node) :
    (climb steps nested floor rounds left).ExtendedBy cut size
      (climb more wide floor wider left) := by
  induction rounds generalizing size wider left with
  | zero => exact fun _ _ _ _ => .cut (hrounds.resolve_left (Nat.not_lt_zero size))
  | succ rounds ih =>
    obtain ⟨wider, rfl⟩ := Nat.exists_eq_add_of_lt hwider
    have hwider' : rounds ≤ rounds + wider := Nat.le_add_right rounds wider
    intro parser rest hfaces hsize
    rw [climb, climb, peek_bind_apply, peek_bind_apply]
    have hround : ∀ fewer, fewer < size →
        (∀ floor, (nested floor).ExtendedBy cut fewer (wide floor)) ∧
          (fewer < steps ∨ cut) ∧ (fewer < rounds ∨ cut) := fun fewer hfewer =>
      ⟨fun floor => (h floor).mono (Nat.le_of_lt hfewer), hsteps.imp_left (by omega),
        hrounds.imp_left (by omega)⟩
    have hstay : (Outcome.done left parser).ExtendedBy cut rest (.done left parser) :=
      .done left ⟨rest, hfaces, List.suffix_refl rest⟩
    split
    · exact hstay
    · split
      · rename_i hbinary
        refine extendedBy_take hfaces ?_ hsize fun fewer hfewer => ?_
        · exact fun hend => absurd (hend ▸ hbinary) (by decide)
        · obtain ⟨h', hsteps', hrounds'⟩ := hround fewer hfewer
          exact (binary_extended h' left).bind fun left => ih h' hsteps' hwider' hrounds' left
      · split
        · rename_i hparen
          refine extendedBy_take hfaces ?_ hsize fun fewer hfewer => ?_
          · exact fun hend => absurd (hend ▸ hparen) (by decide)
          · obtain ⟨h', hsteps', hrounds'⟩ := hround fewer hfewer
            exact (call_extended h' hmore hsteps' left).bind fun left =>
              ih h' hsteps' hwider' hrounds' left
        · exact hstay

end Nested

section Whole

variable {narrow wide : Nat} (hmore : steps ≤ more) (hsteps : size < steps ∨ cut)
  (hle : narrow ≤ wide) (hlevels : wide ≤ narrow ∨ cut)

include hmore hsteps hle hlevels

/-- Expressions are extended by wider limits. -/
theorem expressionWithin_extended (floor : Int) :
    (expressionWithin steps narrow floor : Rule σ Node).ExtendedBy cut size
      (expressionWithin more wide floor) := by
  induction narrow generalizing wide floor with
  | zero =>
    intro parser _ _ _
    rcases hlevels with hzero | hcut
    · obtain rfl := Nat.le_zero.mp hzero
      exact .exhausted
    · exact .cut hcut
  | succ narrow ih =>
    obtain ⟨wide, rfl⟩ := Nat.exists_eq_add_of_lt hle
    have hnested := ih (Nat.le_add_right narrow wide) (hlevels.imp_left (by omega))
    exact (operand_extended hnested hmore hsteps).bind fun left =>
      climb_extended hnested hmore hsteps hmore hsteps floor left

/-- Programs are extended by wider limits. -/
theorem program_extended {parser : Parser σ} {tokens : List Token} (hstand : parser.StandsAt tokens)
    (hsize : tokens.length ≤ size) :
    (program steps (expressionWithin steps narrow) parser).ExtendedBy cut tokens.tail
      (program more (expressionWithin more wide) parser) :=
  Outcome.ExtendedBy.bind
    (statementsUntil_extended (expressionWithin_extended hmore hsteps hle hlevels) rfl hmore #[]
      hstand hsize (hsteps.imp_left (Nat.lt_of_le_of_lt hsize)))
    fun _ _ after hafter _ => .done _ ⟨after, hafter, List.suffix_refl after⟩

end Whole

end Grammar

end ExprLang
