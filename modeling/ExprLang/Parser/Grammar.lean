import ExprLang.Node.Basic
import ExprLang.Parser.Rule
import ExprLang.Text.Numeral
import ExprLang.Token.Precedence

/-!
# The grammar

One rule for each construct. The rules for constructs that hold expressions take the rule for
nested expressions as a parameter: it reads an expression whose operators all bind tighter than a
given floor. The knot is tied in `expressionWithin`, where each level of nesting uses up one level
of the limit. Sequences are read by loops of at most `steps` rounds, and every round takes a token.
-/

namespace ExprLang

/-- The floor above which every operator of a level or tighter stands. -/
def Precedence.floor (level : Precedence) : Int :=
  level.rank

namespace Grammar

open Rule

variable {σ : Type} [TokenSource σ]

/-! ## Words and numerals -/

/-- The name under examination. -/
def identifier : Rule σ Node := do
  return .identifier (← current).literal

/-- The integer under examination. A numeral out of range is reported. -/
def integer : Rule σ Node := do
  let literal := (← current).literal
  match Text.integerOf? literal with
  | some value => return .integer value
  | none => fail (.unreadable literal)

/-- The truth value under examination. -/
def boolean : Rule σ Node := do
  return .boolean ((← current).kind == .trueWord)

/-- The rest of a list of parameters, of which the parameters `read` are read. -/
def parametersFrom : (steps : Nat) → (read : Array Node) → Rule σ (List Node)
  | 0, _ => exhaust
  | steps + 1, read => do
    if (← peek).kind = .comma then
      advance
      expect .ident
      let parameter ← identifier
      parametersFrom steps (read.push parameter)
    else
      expect .rparen
      return read.toList

/-- The parameters after an opening parenthesis, up to the closing one. -/
def parameters (steps : Nat) : Rule σ (List Node) := do
  if (← peek).kind = .rparen then
    advance
    return []
  else
    expect .ident
    let parameter ← identifier
    parametersFrom steps #[parameter]

section Nested

variable (steps : Nat) (nested : Int → Rule σ Node)

/-! ## Statements -/

/-- `let`, a name, `=` and an expression; a semicolon after them belongs to the statement. -/
def letStatement : Rule σ Node := do
  expect .ident
  let name ← identifier
  expect .assign
  advance
  let value ← nested Precedence.lowest.floor
  accept .semicolon
  return .letStatement name value

/-- `return` and an expression; a semicolon after them belongs to the statement. -/
def returnStatement : Rule σ Node := do
  advance
  let value ← nested Precedence.lowest.floor
  accept .semicolon
  return .returnStatement value

/-- An expression; a semicolon after it belongs to the statement. -/
def expressionStatement : Rule σ Node := do
  let value ← nested Precedence.lowest.floor
  accept .semicolon
  return .expressionStatement value

/-- A statement of any form. -/
def statement : Rule σ Node := fun parser =>
  let parser := parser.beginStatement
  match parser.current.kind with
  | .letWord => letStatement nested parser
  | .returnWord => returnStatement nested parser
  | _ => expressionStatement nested parser

/-- The statements up to a token that closes the sequence. A statement that is abandoned is left
out, and reading goes on after the token at which it was. -/
def statementsUntil (closes : Kind → Bool) : (steps : Nat) → (read : Array Node) → Rule σ (List Node)
  | 0, _ => exhaust
  | steps + 1, read => do
    if closes (← current).kind then
      return read.toList
    else
      let found ← attempt (statement nested)
      advance
      match found with
      | some node => statementsUntil closes steps (read.push node)
      | none => statementsUntil closes steps read

/-- A block ends at a closing brace or at the end of the text. -/
def closesBlock (kind : Kind) : Bool :=
  kind == .rbrace || kind == .eof

/-- The statements after an opening brace. -/
def block : Rule σ Node := do
  advance
  return .block (← statementsUntil nested closesBlock steps #[])

/-- The statements up to the end of the text. -/
def program : Rule σ Node := do
  return .program (← statementsUntil nested (· == .eof) steps #[])

/-! ## Operands -/

/-- An operator and the operand after it, which no binary operator extends. -/
def unary : Rule σ Node := do
  let operator := (← current).literal
  advance
  return .unary operator (← nested Precedence.unary.floor)

/-- An expression in parentheses. -/
def grouped : Rule σ Node := do
  advance
  let inner ← nested Precedence.lowest.floor
  expect .rparen
  return inner

/-- A condition in parentheses, a block, and a second block if `else` follows. -/
def conditional : Rule σ Node := do
  expect .lparen
  advance
  let condition ← nested Precedence.lowest.floor
  expect .rparen
  expect .lbrace
  let consequence ← block steps nested
  if (← peek).kind = .elseWord then
    advance
    expect .lbrace
    let alternative ← block steps nested
    return .conditional condition consequence (some alternative)
  else
    return .conditional condition consequence none

/-- Parameters in parentheses and a block. -/
def function : Rule σ Node := do
  expect .lparen
  let parameters ← parameters steps
  expect .lbrace
  let body ← block steps nested
  return .function parameters body

/-- The operand that begins with the token under examination. -/
def operand : Rule σ Node := fun parser =>
  match parser.current.kind with
  | .ident => identifier parser
  | .int => integer parser
  | .trueWord | .falseWord => boolean parser
  | .bang | .minus => unary nested parser
  | .lparen => grouped nested parser
  | .ifWord => conditional steps nested parser
  | .fnWord => function steps nested parser
  | _ => .abandoned parser

/-! ## Operators -/

/-- The operator under examination and its right operand. An operator of the same level ends the
operand, so operators of one level group from the left. -/
def binary (left : Node) : Rule σ Node := do
  let operator ← current
  advance
  return .binary left operator.literal (← nested operator.kind.precedence.floor)

/-- The rest of a list of arguments, of which the arguments `read` are read. -/
def argumentsFrom : (steps : Nat) → (read : Array Node) → Rule σ (List Node)
  | 0, _ => exhaust
  | steps + 1, read => do
    if (← peek).kind = .comma then
      advance
      advance
      let argument ← nested Precedence.lowest.floor
      argumentsFrom steps (read.push argument)
    else
      expect .rparen
      return read.toList

/-- The arguments after an opening parenthesis, up to the closing one. -/
def arguments : Rule σ (List Node) := do
  if (← peek).kind = .rparen then
    advance
    return []
  else
    advance
    let argument ← nested Precedence.lowest.floor
    argumentsFrom nested steps #[argument]

/-- The arguments of a call of `callee`. -/
def call (callee : Node) : Rule σ Node := do
  return .call callee (← arguments steps nested)

/-- Extends `left` by the operators and calls that bind tighter than `floor`. -/
def climb (floor : Int) : (rounds : Nat) → (left : Node) → Rule σ Node
  | 0, _ => exhaust
  | rounds + 1, left => do
    let next := (← peek).kind
    if next = .semicolon ∨ next.precedence.floor ≤ floor then
      return left
    else if next.isBinary then
      advance
      let left ← binary nested left
      climb floor rounds left
    else if next = .lparen then
      advance
      let left ← call steps nested left
      climb floor rounds left
    else
      return left

end Nested

/-- An expression whose operators all bind tighter than `floor`, with at most `nesting` expressions
within one another. -/
def expressionWithin (steps : Nat) : (nesting : Nat) → (floor : Int) → Rule σ Node
  | 0, _ => exhaust
  | nesting + 1, floor => do
    let left ← operand steps (expressionWithin steps nesting)
    climb steps (expressionWithin steps nesting) floor steps left

end Grammar

end ExprLang
