import ExprLang.Token.Basic

/-!
# The characters of tokens

Four disjoint classes of characters: gaps between tokens, letters of words, digits, and the
characters of fixed symbols. Every other character is illegal.
-/

namespace ExprLang

/-- A gap separates tokens and belongs to none. -/
def isGap (c : Char) : Bool :=
  c == ' ' || c == '\t' || c == '\r' || c == '\n'

/-- A letter belongs to a word: the letters of the Latin alphabet and the low line. -/
def isLetter (c : Char) : Bool :=
  c.isAlpha || c == '_'

/-- The token of a fixed symbol. -/
def symbolToken? (text : List Char) : Option Token :=
  let literal := String.ofList text
  (Kind.ofSymbol? literal).map fun kind => ⟨kind, literal⟩

/-- The longest fixed symbol at the start of `text`; no symbol has more than two characters. -/
def longestSymbol? (text : List Char) : Option Token :=
  (symbolToken? (text.take 2)).or (symbolToken? (text.take 1))

/-- Every fixed symbol has one or two characters. -/
theorem length_of_mem_symbols {entry : String × Kind} (h : entry ∈ Kind.symbols) :
    entry.1.length = 1 ∨ entry.1.length = 2 := by
  revert entry
  decide

/-- What is found among the symbols is one of them. -/
theorem mem_symbols_of_ofSymbol? {text : String} {kind : Kind}
    (h : Kind.ofSymbol? text = some kind) : (text, kind) ∈ Kind.symbols := by
  obtain ⟨before, after, split, -⟩ := List.lookup_eq_some_iff.1 h
  simp [split]

/-- A symbol that is read is not empty and not longer than the text. -/
theorem longestSymbol?_length {text : List Char} {token : Token}
    (h : longestSymbol? text = some token) :
    0 < token.literal.length ∧ token.literal.length ≤ text.length := by
  have bound : ∀ n, symbolToken? (text.take n) = some token →
      0 < token.literal.length ∧ token.literal.length ≤ text.length := by
    intro n hn
    simp only [symbolToken?, Option.map_eq_some_iff] at hn
    obtain ⟨kind, found, rfl⟩ := hn
    have size := length_of_mem_symbols (mem_symbols_of_ofSymbol? found)
    simp only [String.length_ofList] at size ⊢
    have := List.length_take_le' n text
    omega
  simp only [longestSymbol?, Option.or_eq_some_iff] at h
  rcases h with h | ⟨-, h⟩
  · exact bound 2 h
  · exact bound 1 h

end ExprLang
