import ExprLang.Parser.Basic

/-!
# Rules of a grammar

A rule reads one construct from where a parser stands. It ends in one of three ways: it yields what
it read, it abandons the construct where it found a fault, or it is exhausted because the text nests
too deeply. Rules in sequence are abandoned as soon as one of them is, with the parser where that one
left it.
-/

namespace ExprLang

/-- How a rule ends. -/
inductive Outcome (σ α : Type) where
  /-- The construct was read. -/
  | done (value : α) (parser : Parser σ)
  /-- The construct was given up. -/
  | abandoned (parser : Parser σ)
  /-- The text nests too deeply. -/
  | exhausted

/-- A rule for a construct with values in `α`. -/
def Rule (σ α : Type) : Type :=
  Parser σ → Outcome σ α

namespace Rule

variable {σ α β : Type}

@[always_inline]
instance : Monad (Rule σ) where
  pure value := fun parser => .done value parser
  bind rule next := fun parser =>
    match rule parser with
    | .done value parser => next value parser
    | .abandoned parser => .abandoned parser
    | .exhausted => .exhausted

@[simp] theorem pure_apply (value : α) (parser : Parser σ) :
    (pure value : Rule σ α) parser = .done value parser := rfl

/-- Rules in sequence: the second one starts where the first one is done. -/
theorem bind_apply (rule : Rule σ α) (next : α → Rule σ β) (parser : Parser σ) :
    (rule >>= next) parser =
      match rule parser with
      | .done value parser => next value parser
      | .abandoned parser => .abandoned parser
      | .exhausted => .exhausted := rfl

instance : LawfulMonad (Rule σ) := LawfulMonad.mk' _
  (fun rule => by
    funext parser
    change (rule >>= fun value => pure value) parser = rule parser
    rw [bind_apply]
    cases rule parser <;> rfl)
  (fun _ _ => rfl)
  (fun rule next last => by
    funext parser
    simp only [bind_apply]
    cases rule parser <;> rfl)

/-- The rule that gives up at once. -/
def abandon : Rule σ α :=
  fun parser => .abandoned parser

/-- The rule that stands for a construct that nests too deeply. -/
def exhaust : Rule σ α :=
  fun _ => .exhausted

/-- The token under examination. -/
@[inline] def current : Rule σ Token :=
  fun parser => .done parser.current parser

/-- The token after the one under examination. -/
@[inline] def peek : Rule σ Token :=
  fun parser => .done parser.peek parser

/-- Reports a fault and gives up. -/
def fail (fault : Diagnostic) : Rule σ α :=
  fun parser => .abandoned (parser.report fault)

/-- Reads with `rule` and yields `none` where it is abandoned. -/
@[inline] def attempt (rule : Rule σ α) : Rule σ (Option α) :=
  fun parser =>
    match rule parser with
    | .done value parser => .done (some value) parser
    | .abandoned parser => .done none parser
    | .exhausted => .exhausted

@[simp] theorem abandon_apply (parser : Parser σ) :
    (abandon : Rule σ α) parser = .abandoned parser := rfl

@[simp] theorem exhaust_apply (parser : Parser σ) :
    (exhaust : Rule σ α) parser = .exhausted := rfl

@[simp] theorem current_apply (parser : Parser σ) :
    current parser = .done parser.current parser := rfl

@[simp] theorem peek_apply (parser : Parser σ) : peek parser = .done parser.peek parser := rfl

@[simp] theorem fail_apply (fault : Diagnostic) (parser : Parser σ) :
    (fail fault : Rule σ α) parser = .abandoned (parser.report fault) := rfl

variable [TokenSource σ]

/-- Moves one token further on. -/
@[inline] def advance : Rule σ Unit :=
  fun parser => .done () parser.advance

/-- Moves to the next token if it is of the kind `kind`, and otherwise reports it and gives up. -/
def expect (kind : Kind) : Rule σ Unit :=
  fun parser =>
    if parser.peek.kind = kind then .done () parser.advance
    else .abandoned (parser.reportPeek kind)

/-- Moves to the next token if it is of the kind `kind`. -/
def accept (kind : Kind) : Rule σ Unit :=
  fun parser => .done () (if parser.peek.kind = kind then parser.advance else parser)

@[simp] theorem advance_apply (parser : Parser σ) :
    advance parser = .done () parser.advance := rfl

/-- The next token is taken if it is of the expected kind. -/
theorem expect_of_eq {kind : Kind} {parser : Parser σ} (h : parser.peek.kind = kind) :
    expect kind parser = .done () parser.advance := by
  simp [expect, h]

/-- A token of another kind is reported and not taken. -/
theorem expect_of_ne {kind : Kind} {parser : Parser σ} (h : parser.peek.kind ≠ kind) :
    expect kind parser = .abandoned (parser.reportPeek kind) := by
  simp [expect, h]

end Rule

end ExprLang
