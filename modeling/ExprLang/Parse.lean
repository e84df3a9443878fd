import ExprLang.Parser.Grammar
import ExprLang.Node.Render

/-!
# Parsing a text

What a parser makes of a whole text: the tree of the statements that it could read and the faults
that it reported. The tree may be incomplete if there is any fault.
-/

namespace ExprLang

/-- The most expressions that may stand within one another, and the greatest height of a tree that
is shown. -/
def nestingLimit : Nat := 1000

/-- How far reading may go. -/
structure Limits where
  /-- How many expressions may stand within one another. -/
  nesting : Nat
  /-- How many rounds a loop may take. -/
  rounds : Nat

/-- Limits on nesting alone: no loop over `text` takes as many rounds as it has characters and two
more. -/
def Limits.forText (nesting : Nat) (text : List Char) : Limits :=
  ⟨nesting, text.length + 2⟩

/-- The rule for expressions under given limits. -/
def Limits.expression {σ : Type} [TokenSource σ] (limits : Limits) : Int → Rule σ Node :=
  Grammar.expressionWithin limits.rounds limits.nesting

/-- The tree of a text and the faults in the text. -/
structure Parsed where
  program : Node
  errors : List Diagnostic

/-- Reads a text to its end; `none` if more than `nesting` expressions stand within one another. -/
def parseWithin (nesting : Nat) (text : String) : Option Parsed :=
  let limits := Limits.forText nesting text.toList
  match Grammar.program limits.rounds limits.expression (Parser.start (⟨text.toList⟩ : Lexer)) with
  | .done program parser => some ⟨program, parser.errors.toList⟩
  | .abandoned _ => none
  | .exhausted => none

/-- The tree of a text without faults, or else its faults. -/
def Parsed.strict (parsed : Parsed) : Except (List Diagnostic) Node :=
  if parsed.errors.isEmpty then .ok parsed.program else .error parsed.errors

/-- The statements of a program. -/
def Node.statements : Node → List Node
  | .program statements => statements
  | _ => []

/-- The canonical text of a tree at most `limit` levels high. -/
def Node.renderWithin (limit : Nat) (node : Node) : Option String :=
  if node.fits limit then some node.render else none

end ExprLang
