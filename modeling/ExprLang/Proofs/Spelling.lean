import ExprLang.Token.Scan

/-!
# How tokens are spelled

The kind of a token that is read from a text says what its literal may be: one of the spellings of a
symbol or a reserved word, a name, or a run of digits. No token of a text stands for its end.
-/

namespace ExprLang

/-- A name is a run of letters, at least one, that is no reserved word. -/
def isName (text : String) : Bool :=
  !text.toList.isEmpty && text.toList.all isLetter && !(Kind.reserved.map Prod.fst).contains text

/-- Whether the literal of a token is one that tokens of its kind have. -/
def Token.isSpelled (token : Token) : Bool :=
  match token.kind with
  | .eof => false
  | .illegal => token.literal == ""
  | .ident => isName token.literal
  | .int => !token.literal.toList.isEmpty && token.literal.toList.all Char.isDigit
  | kind => (Kind.symbols ++ Kind.reserved).contains (token.literal, kind)

/-- Every symbol and reserved word is a spelling of its kind. -/
theorem isSpelled_of_mem {text : String} {kind : Kind}
    (h : (text, kind) ∈ Kind.symbols ++ Kind.reserved) : Token.isSpelled ⟨kind, text⟩ = true := by
  have hentries : ∀ entry ∈ Kind.symbols ++ Kind.reserved,
      Token.isSpelled ⟨entry.2, entry.1⟩ = true := by decide
  exact hentries (text, kind) h

/-- A token of the kind of a symbol is spelled as that symbol. -/
theorem literal_of_isSpelled {token : Token} (h : token.isSpelled = true) {symbol : String}
    (hsymbol : (symbol, token.kind) ∈ Kind.symbols) : token.literal = symbol := by
  have hentries : ∀ entry ∈ Kind.symbols, ∀ other ∈ Kind.symbols ++ Kind.reserved,
      other.2 = entry.2 → other.1 = entry.1 := by decide
  have hkinds : ∀ entry ∈ Kind.symbols, entry.2 ≠ .eof ∧ entry.2 ≠ .illegal ∧ entry.2 ≠ .ident ∧
      entry.2 ≠ .int := by decide
  obtain ⟨hend, hillegal, hident, hint⟩ := hkinds _ hsymbol
  refine hentries _ hsymbol (token.literal, token.kind) ?_ rfl
  unfold Token.isSpelled at h
  split at h
  · contradiction
  · contradiction
  · contradiction
  · contradiction
  · exact List.contains_iff_mem.mp h

/-- A symbol is spelled as the table has it. -/
theorem isSpelled_of_longestSymbol? {text : List Char} {token : Token}
    (h : longestSymbol? text = some token) : token.isSpelled = true := by
  have hsymbol : ∀ n, symbolToken? (text.take n) = some token → token.isSpelled = true := by
    intro n hn
    simp only [symbolToken?, Option.map_eq_some_iff] at hn
    obtain ⟨kind, hkind, rfl⟩ := hn
    exact isSpelled_of_mem (List.mem_append_left _ (mem_symbols_of_ofSymbol? hkind))
  simp only [longestSymbol?, Option.or_eq_some_iff] at h
  rcases h with h | ⟨-, h⟩
  · exact hsymbol 2 h
  · exact hsymbol 1 h

/-- A run of letters is a reserved word or a name. -/
theorem isSpelled_word {word : String} (hempty : word.toList ≠ [])
    (hletters : ∀ c ∈ word.toList, isLetter c = true) :
    Token.isSpelled ⟨Kind.ofWord word, word⟩ = true := by
  unfold Kind.ofWord
  cases hlookup : Kind.reserved.lookup word with
  | none =>
    have hfree : word ∉ Kind.reserved.map Prod.fst := by
      intro hmem
      obtain ⟨entry, hentry, rfl⟩ := List.mem_map.mp hmem
      have := List.lookup_eq_none_iff.mp hlookup entry hentry
      simp at this
    simpa [Token.isSpelled, isName, hempty, hfree] using hletters
  | some kind =>
    obtain ⟨before, after, hsplit, -⟩ := List.lookup_eq_some_iff.mp hlookup
    exact isSpelled_of_mem (List.mem_append_right _ (by simp [hsplit]))

/-- The token at the start of a text is well spelled. -/
theorem isSpelled_tokenAt (c : Char) (rest : List Char) : (tokenAt c rest).1.isSpelled = true := by
  unfold tokenAt
  split
  · rename_i token hsymbol
    exact isSpelled_of_longestSymbol? hsymbol
  · split
    · rename_i hletter
      apply isSpelled_word
      · simp [hletter]
      · intro c' hmem
        rw [String.toList_ofList] at hmem
        exact List.all_eq_true.mp List.all_takeWhile c' hmem
    · split
      · rename_i hdigit
        simp [Token.isSpelled, hdigit]
      · rfl

/-- What holds of every token that is read holds of every token of a text. -/
theorem forall_mem_tokenize (property : Token → Prop)
    (hscan : ∀ text token rest, scan text = some (token, rest) → property token)
    (text : List Char) : ∀ token ∈ tokenize text, property token := by
  induction hlength : text.length using Nat.strongRecOn generalizing text with
  | ind length ih =>
    intro token hmem
    rw [tokenize_eq] at hmem
    cases hfirst : scan text with
    | none => simp [hfirst] at hmem
    | some found =>
      obtain ⟨first, rest⟩ := found
      rw [hfirst] at hmem
      rcases List.mem_cons.mp hmem with rfl | hmem
      · exact hscan text token rest hfirst
      · exact ih rest.length (hlength ▸ length_lt_of_scan hfirst) rest rfl token hmem

/-- Every token of a text is well spelled. -/
theorem isSpelled_of_mem_tokenize {text : List Char} {token : Token} (h : token ∈ tokenize text) :
    token.isSpelled = true := by
  refine forall_mem_tokenize (fun token => token.isSpelled = true) ?_ text token h
  intro text token rest hscan
  unfold scan at hscan
  split at hscan
  · simp at hscan
  · rename_i c more _
    have heq : tokenAt c more = (token, rest) := Option.some.inj hscan
    have hspelled := isSpelled_tokenAt c more
    rwa [heq] at hspelled

/-- No token of a text stands for its end. -/
theorem kind_ne_eof_of_mem_tokenize {text : List Char} {token : Token}
    (h : token ∈ tokenize text) : token.kind ≠ .eof := by
  intro hkind
  have hspelled := isSpelled_of_mem_tokenize h
  simp [Token.isSpelled, hkind] at hspelled

/-- A text has no more tokens than characters. -/
theorem length_tokenize_le (text : List Char) : (tokenize text).length ≤ text.length := by
  induction hlength : text.length using Nat.strongRecOn generalizing text with
  | ind length ih =>
    rw [tokenize_eq]
    cases hfirst : scan text with
    | none => exact Nat.zero_le _
    | some found =>
      obtain ⟨first, rest⟩ := found
      have hshorter := length_lt_of_scan hfirst
      have := ih rest.length (hlength ▸ hshorter) rest rfl
      simp only [List.length_cons]
      omega

end ExprLang
