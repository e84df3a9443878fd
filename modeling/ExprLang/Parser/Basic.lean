import ExprLang.Diagnostic
import ExprLang.Token.Source

/-!
# Parsers

A parser looks at one token and knows the one after it; everything further on is still in its
source. It moves forward only, and it collects the faults that it reports.
-/

namespace ExprLang

/-- A parser at a place in the tokens of its source. -/
structure Parser (σ : Type) where
  /-- The token under examination. -/
  current : Token
  /-- The token after it. -/
  peek : Token
  /-- The source of the tokens after these two. -/
  source : σ
  /-- The faults reported so far, oldest first. -/
  errors : Array Diagnostic
  /-- How many statements were begun so far. -/
  begun : Nat

namespace Parser

variable {σ : Type} [TokenSource σ]

/-- A parser at the first token of a source. -/
def start (source : σ) : Parser σ :=
  let (current, source) := TokenSource.next source
  let (peek, source) := TokenSource.next source
  { current, peek, source, errors := #[], begun := 0 }

/-- The parser one token further on. -/
def advance (parser : Parser σ) : Parser σ :=
  let (peek, source) := TokenSource.next parser.source
  { parser with current := parser.peek, peek, source }

/-- The parser after reporting a fault. -/
def report (parser : Parser σ) (fault : Diagnostic) : Parser σ :=
  { parser with errors := parser.errors.push fault }

/-- The parser after reporting that the next token is not of the kind `expected`. -/
def reportPeek (parser : Parser σ) (expected : Kind) : Parser σ :=
  parser.report (.unexpected expected parser.peek.kind)

/-- The parser after beginning one more statement. -/
def beginStatement (parser : Parser σ) : Parser σ :=
  { parser with begun := parser.begun + 1 }

end Parser

end ExprLang
