import ExprLang.Token.Scan

/-!
# Sources of tokens

Whoever reads tokens asks a source for the next one and never runs out: once the text is used up,
the token for its end comes again and again. A source is a text that is scanned on demand, or a
list of tokens that were scanned before.
-/

namespace ExprLang

/-- Something that hands out tokens without end. -/
class TokenSource (σ : Type) where
  /-- The next token and the source after it. -/
  next : σ → Token × σ

/-- A text that is scanned one token at a time. -/
structure Lexer where
  /-- The text not scanned yet. -/
  rest : List Char

namespace Lexer

/-- The next token of the text, or the token for its end. -/
def next (lexer : Lexer) : Token × Lexer :=
  match scan lexer.rest with
  | some (token, rest) => (token, ⟨rest⟩)
  | none => (.eof, ⟨[]⟩)

instance : TokenSource Lexer := ⟨next⟩

/-- The tokens that are still to come. -/
def pending (lexer : Lexer) : List Token :=
  tokenize lexer.rest

end Lexer

/-- The next token of a list, or the token for the end when the list is empty. -/
def nextOfList : List Token → Token × List Token
  | [] => (.eof, [])
  | token :: rest => (token, rest)

instance : TokenSource (List Token) := ⟨nextOfList⟩

/-- A text on demand and the list of its tokens hand out the same. -/
theorem nextOfList_pending (lexer : Lexer) :
    nextOfList lexer.pending = (lexer.next.1, lexer.next.2.pending) := by
  unfold Lexer.pending Lexer.next
  rw [tokenize_eq]
  cases scan lexer.rest with
  | none => simp [nextOfList]
  | some found => rfl

end ExprLang
