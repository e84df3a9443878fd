import ExprLang.Parse
import ExprLang.Reader

/-!
# Driving a parser by hand

Every single step of a parser as a request, so that a parser can be taken through any sequence of
steps, and the reply to each.
-/

namespace ExprLang

/-- One step of a parser. -/
inductive Call where
  | advance
  | currentIs (kind : Kind)
  | peekIs (kind : Kind)
  | expectPeek (kind : Kind)
  | reportPeek (kind : Kind)
  | currentPrecedence
  | peekPrecedence
  | checkErrors
  | program
  | block
  | statement
  | letStatement
  | returnStatement
  | expressionStatement
  | identifier
  | integer
  | boolean
  | unary
  | grouped
  | conditional
  | function
  | parameters
  | arguments
  | expression (floor : Int)
  | binary (left : Node)
  | call (callee : Node)

/-- The reply to a step. -/
inductive Reply where
  | nothing
  | truth (value : Bool)
  | precedence (level : Precedence)
  /-- The node that was read, or `none` if its construct was abandoned. -/
  | node (node : Option Node)
  /-- The nodes that were read, or `none` if their construct was abandoned. -/
  | nodes (nodes : Option (List Node))
  /-- All faults reported so far, of which there is at least one. -/
  | rejected (errors : List Diagnostic)

/-- Whether every tree in a reply is at most `limit` levels high. -/
def Reply.fits (limit : Nat) : Reply → Bool
  | .node found => Node.fitsOption limit found
  | .nodes found => Node.fitsEach limit (found.getD [])
  | _ => true

namespace Outcome

variable {σ α : Type}

/-- The reply that stands for how a rule ended, and the parser after it. -/
def reply (form : Option α → Reply) : Outcome σ α → Option (Reply × Parser σ)
  | .done value parser => some (form (some value), parser)
  | .abandoned parser => some (form none, parser)
  | .exhausted => none

end Outcome

namespace Parser

variable {σ : Type} [TokenSource σ]

/-- Takes one step. There is no reply if the text nests too deeply. -/
def perform (limits : Limits) (step : Call) (parser : Parser σ) : Option (Reply × Parser σ) :=
  let nested := limits.expression
  match step with
  | .advance => some (.nothing, parser.advance)
  | .currentIs kind => some (.truth (parser.current.kind == kind), parser)
  | .peekIs kind => some (.truth (parser.peek.kind == kind), parser)
  | .expectPeek kind => (Rule.expect kind parser).reply fun found => .truth found.isSome
  | .reportPeek kind => some (.nothing, parser.reportPeek kind)
  | .currentPrecedence => some (.precedence parser.current.kind.precedence, parser)
  | .peekPrecedence => some (.precedence parser.peek.kind.precedence, parser)
  | .checkErrors =>
    if parser.errors.isEmpty then some (.nothing, parser)
    else some (.rejected parser.errors.toList, parser)
  | .program => (Grammar.program limits.rounds nested parser).reply .node
  | .block => (Grammar.block limits.rounds nested parser).reply .node
  | .statement => (Grammar.statement nested parser).reply .node
  | .letStatement => (Grammar.letStatement nested parser).reply .node
  | .returnStatement => (Grammar.returnStatement nested parser).reply .node
  | .expressionStatement => (Grammar.expressionStatement nested parser).reply .node
  | .identifier => (Grammar.identifier parser).reply .node
  | .integer => (Grammar.integer parser).reply .node
  | .boolean => (Grammar.boolean parser).reply .node
  | .unary => (Grammar.unary nested parser).reply .node
  | .grouped => (Grammar.grouped nested parser).reply .node
  | .conditional => (Grammar.conditional limits.rounds nested parser).reply .node
  | .function => (Grammar.function limits.rounds nested parser).reply .node
  | .parameters => (Grammar.parameters limits.rounds parser).reply .nodes
  | .arguments => (Grammar.arguments limits.rounds nested parser).reply .nodes
  | .expression floor => (nested floor parser).reply .node
  | .binary left => (Grammar.binary nested left parser).reply .node
  | .call callee => (Grammar.call limits.rounds nested callee parser).reply .node

/-- A parser at the position of a reader. -/
def ofReader (reader : Reader) : Except ReadFault (Parser Lexer) := do
  let lexer ← reader.lexer
  return start lexer

end Parser

end ExprLang
