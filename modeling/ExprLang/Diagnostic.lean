import ExprLang.Token.Kind

/-!
# Diagnostics

What a parser reports about a text that is not well formed.
-/

namespace ExprLang

/-- A fault in a text. -/
inductive Diagnostic where
  /-- A token of kind `found` stands where only one of kind `expected` may stand. -/
  | unexpected (expected found : Kind)
  /-- The text of a token is no integer, or one out of range. -/
  | unreadable (literal : String)
  deriving DecidableEq, Repr

namespace Diagnostic

/-- The wording of a diagnostic. -/
def message : Diagnostic → String
  | unexpected expected found =>
    "expected next token to be " ++ expected.name ++ ", got " ++ found.name ++ " instead"
  | unreadable literal => "could not parse " ++ literal ++ " as integer"

end Diagnostic

end ExprLang
