import ExprLang.Token.Kind

/-!
# Precedence levels

How tightly an operator binds its operands. A kind that is no operator stands at the lowest level,
so an expression always ends before it.
-/

namespace ExprLang

/-- The binding levels, from the loosest to the tightest. -/
inductive Precedence where
  | lowest
  | equality
  | comparison
  | sum
  | product
  | unary
  | call
  deriving DecidableEq, Repr

namespace Precedence

/-- The place of a level in the order of levels. -/
def rank : Precedence → Nat
  | lowest => 0
  | equality => 1
  | comparison => 2
  | sum => 3
  | product => 4
  | unary => 5
  | call => 6

/-- The name of a level. -/
def name : Precedence → String
  | lowest => "LOWEST"
  | equality => "EQUALITY"
  | comparison => "COMPARISON"
  | sum => "SUM"
  | product => "PRODUCT"
  | unary => "PREFIX"
  | call => "CALL"

/-- Different levels have different places. -/
theorem rank_inj {a b : Precedence} : a.rank = b.rank ↔ a = b := by
  cases a <;> cases b <;> decide

end Precedence

namespace Kind

/-- The level at which a kind continues an expression that stands before it. -/
def precedence : Kind → Precedence
  | eq | ne => .equality
  | lt | gt => .comparison
  | plus | minus => .sum
  | asterisk | slash => .product
  | lparen => .call
  | _ => .lowest

/-- A binary operator stands between its two operands. -/
def isBinary : Kind → Bool
  | eq | ne | lt | gt | plus | minus | asterisk | slash => true
  | _ => false

/-- The kinds that continue an expression are the binary operators and the opening parenthesis. -/
theorem precedence_ne_lowest_iff (kind : Kind) :
    kind.precedence ≠ .lowest ↔ kind.isBinary = true ∨ kind = .lparen := by
  cases kind <;> decide

end Kind

end ExprLang
