import ExprLang.Token.Alphabet

/-!
# Reading tokens

The first token of a text is the longest that stands at its start once the gap before it is
skipped. Reading a token leaves less text than there was, so a text has finitely many tokens.
-/

namespace ExprLang

/-- The token at the start of the text `c :: rest`, which begins with no gap, and what follows. -/
def tokenAt (c : Char) (rest : List Char) : Token × List Char :=
  match longestSymbol? (c :: rest) with
  | some token => (token, (c :: rest).drop token.literal.length)
  | none =>
    if isLetter c then
      let word := String.ofList ((c :: rest).takeWhile isLetter)
      (⟨Kind.ofWord word, word⟩, (c :: rest).dropWhile isLetter)
    else if c.isDigit then
      (⟨.int, String.ofList ((c :: rest).takeWhile Char.isDigit)⟩, (c :: rest).dropWhile Char.isDigit)
    else (.illegal, rest)

/-- The first token of `text` and the text after it, or `none` if nothing but a gap is left. -/
def scan (text : List Char) : Option (Token × List Char) :=
  match text.dropWhile isGap with
  | [] => none
  | c :: rest => some (tokenAt c rest)

/-- A token takes at least one character. -/
theorem length_tokenAt_lt (c : Char) (rest : List Char) :
    (tokenAt c rest).2.length < (c :: rest).length := by
  unfold tokenAt
  split
  · rename_i token found
    have := longestSymbol?_length found
    simp only [List.length_drop]
    omega
  · split
    · rename_i letter
      have := (List.dropWhile_sublist isLetter (l := rest)).length_le
      simp only [List.dropWhile_cons, letter, if_true, List.length_cons]
      omega
    · split
      · rename_i digit
        have := (List.dropWhile_sublist Char.isDigit (l := rest)).length_le
        simp only [List.dropWhile_cons, digit, if_true, List.length_cons]
        omega
      · simp

/-- Reading a token leaves less text. -/
theorem length_lt_of_scan {text rest : List Char} {token : Token}
    (h : scan text = some (token, rest)) : rest.length < text.length := by
  have gap := (List.dropWhile_sublist isGap (l := text)).length_le
  unfold scan at h
  split at h
  · simp at h
  · rename_i c more split
    have := length_tokenAt_lt c more
    simp only [Option.some.injEq] at h
    rw [h] at this
    rw [split] at gap
    exact Nat.lt_of_lt_of_le this gap

/-- `done` in reverse and then the tokens of `text`. -/
def tokenizeOnto (done : List Token) (text : List Char) : List Token :=
  match _h : scan text with
  | none => done.reverse
  | some (token, rest) => tokenizeOnto (token :: done) rest
  termination_by text.length
  decreasing_by exact length_lt_of_scan _h

/-- The tokens of `text`, without one for its end. -/
def tokenize (text : List Char) : List Token :=
  tokenizeOnto [] text

/-- What is already done stays in front. -/
theorem tokenizeOnto_append (done extra : List Token) (text : List Char) :
    tokenizeOnto (done ++ extra) text = extra.reverse ++ tokenizeOnto done text := by
  fun_induction tokenizeOnto done text with
  | case1 done text h =>
    unfold tokenizeOnto
    split <;> simp_all
  | case2 done text token rest h ih =>
    rw [tokenizeOnto]
    split <;> simp_all

/-- The tokens of a text are its first token and the tokens of what follows. -/
theorem tokenize_eq (text : List Char) :
    tokenize text =
      match scan text with
      | none => []
      | some (token, rest) => token :: tokenize rest := by
  rw [tokenize, tokenizeOnto]
  split
  · rename_i h
    simp [h]
  · rename_i token rest h
    simpa [h, tokenize] using tokenizeOnto_append [] [token] rest

/-- The empty text has no tokens. -/
@[simp] theorem tokenize_nil : tokenize [] = [] := by
  rw [tokenize_eq]
  rfl

end ExprLang
