import ExprLang.Token.Kind
import ExprLang.Text.Quoted

/-!
# Tokens

A token is a kind together with the text it was read from. The end of the text and an illegal
character carry no text.
-/

namespace ExprLang

/-- One token of a text. -/
structure Token where
  kind : Kind
  literal : String
  deriving DecidableEq, Repr

namespace Token

/-- The token that stands for the end of the text. -/
def eof : Token := ⟨.eof, ""⟩

/-- The token that stands for a character that begins no token. -/
def illegal : Token := ⟨.illegal, ""⟩

/-- A token as it is listed: its kind and its quoted text. -/
def description (token : Token) : String :=
  "Token(" ++ token.kind.name ++ ", " ++ Text.quoted token.literal ++ ")"

end Token

end ExprLang
