import ExprLang.Proofs.Spelling

/-!
# Texts and the tokens they are read as

A piece of text is read as certain tokens if it is so whatever comes after it, or at least before
characters that cannot prolong its last token: a word is prolonged by a letter, a numeral by a
digit, and `=` and `!` by `=`. Pieces that may stand side by side are read as their tokens in a row.
-/

namespace ExprLang

/-- Before the end or a character in `stop`, `text` is read as `tokens`. -/
def Lexes (stop : Char → Prop) (text : String) (tokens : List Token) : Prop :=
  ∀ after : List Char, (∀ c ∈ after.head?, stop c) →
    tokenize (text.toList ++ after) = tokens ++ tokenize after

/-- `text` begins with a character in `start`. -/
def Starts (start : Char → Prop) (text : String) : Prop :=
  ∃ c rest, text.toList = c :: rest ∧ start c

/-- A text begins as its first part does. -/
theorem Starts.append {start : Char → Prop} {text : String} (h : Starts start text)
    (more : String) : Starts start (text ++ more) := by
  obtain ⟨c, rest, htext, hstart⟩ := h
  exact ⟨c, rest ++ more.toList, by rw [String.toList_append, htext, List.cons_append], hstart⟩

/-- What begins with a text begins as the text does. -/
theorem Starts.head?_append {start : Char → Prop} {text : String} (h : Starts start text)
    (after : List Char) : ∀ c ∈ (text.toList ++ after).head?, start c := by
  obtain ⟨d, rest, htext, hstart⟩ := h
  intro c hc
  rw [htext, List.cons_append, List.head?_cons, Option.mem_some_iff] at hc
  exact hc ▸ hstart

/-- Fewer characters may come next. -/
theorem Lexes.mono {stop stop' : Char → Prop} {text : String} {tokens : List Token}
    (h : Lexes stop text tokens) (hstop : ∀ c, stop' c → stop c) : Lexes stop' text tokens :=
  fun after hafter => h after fun c hmem => hstop c (hafter c hmem)

/-- Two pieces in a row, of which the second begins with a character that may come after the first,
are read as the tokens of both. -/
theorem Lexes.append {stop stop' : Char → Prop} {first second : String} {tokens more : List Token}
    (hfirst : Lexes stop first tokens) (hsecond : Lexes stop' second more)
    (hstart : Starts stop second) : Lexes stop' (first ++ second) (tokens ++ more) := by
  intro after hafter
  rw [String.toList_append, List.append_assoc, hfirst _ (hstart.head?_append after),
    hsecond after hafter, List.append_assoc]

/-- Any character at all. -/
def Anything (_ : Char) : Prop := True

/-- A character that is neither a letter nor a digit. -/
def Separates (c : Char) : Prop :=
  isLetter c = false ∧ c.isDigit = false

instance : DecidablePred Separates :=
  fun c => inferInstanceAs (Decidable (isLetter c = false ∧ c.isDigit = false))

/-- A piece that may stand before anything, and another one after it. -/
theorem Lexes.append_of_anything {stop : Char → Prop} {first second : String}
    {tokens more : List Token} (hfirst : Lexes Anything first tokens)
    (hsecond : Lexes stop second more) : Lexes stop (first ++ second) (tokens ++ more) := by
  intro after hafter
  rw [String.toList_append, List.append_assoc, hfirst _ (fun _ _ => trivial), hsecond after hafter,
    List.append_assoc]

/-! ## Gaps, symbols, words and numerals -/

/-- A gap is passed over. -/
theorem tokenize_cons_of_isGap {c : Char} (h : isGap c = true) (rest : List Char) :
    tokenize (c :: rest) = tokenize rest := by
  have hscan : scan (c :: rest) = scan rest := by
    unfold scan
    rw [List.dropWhile_cons_of_pos h]
  rw [tokenize_eq, tokenize_eq rest, hscan]

/-- A text that begins with no gap begins with the token that stands there. -/
theorem tokenize_cons_of_tokenAt {c : Char} {rest after : List Char} {token : Token}
    (hgap : isGap c = false) (h : tokenAt c rest = (token, after)) :
    tokenize (c :: rest) = token :: tokenize after := by
  have hscan : scan (c :: rest) = some (token, after) := by
    unfold scan
    rw [List.dropWhile_cons_of_neg (by rw [hgap]; decide)]
    exact congrArg some h
  rw [tokenize_eq, hscan]

/-- A space is read as nothing. -/
theorem lexes_space : Lexes Anything " " [] := by
  intro after _
  exact tokenize_cons_of_isGap rfl after

/-- A space before a piece is not read. -/
theorem Lexes.space_append {stop : Char → Prop} {text : String} {tokens : List Token}
    (h : Lexes stop text tokens) : Lexes stop (" " ++ text) tokens :=
  lexes_space.append_of_anything h

/-- A space after a piece is not read, and anything may come after it. -/
theorem Lexes.append_space {stop : Char → Prop} {text : String} {tokens : List Token}
    (h : Lexes stop text tokens) (hstop : stop ' ') : Lexes Anything (text ++ " ") tokens := by
  have hspaced := h.append lexes_space ⟨' ', [], rfl, hstop⟩
  rwa [List.append_nil] at hspaced

/-- What is found among the symbols is a symbol. -/
theorem mem_symbols_of_symbolToken? {text : List Char} {token : Token}
    (h : symbolToken? text = some token) :
    (token.literal, token.kind) ∈ Kind.symbols ∧ token.literal.toList = text := by
  simp only [symbolToken?, Option.map_eq_some_iff] at h
  obtain ⟨kind, hkind, rfl⟩ := h
  exact ⟨mem_symbols_of_ofSymbol? hkind, String.toList_ofList⟩

/-- The characters of symbols are neither gaps nor letters nor digits. -/
theorem separates_of_mem_symbols {entry : String × Kind} (h : entry ∈ Kind.symbols) :
    ∀ c ∈ entry.1.toList, isGap c = false ∧ Separates c := by
  have hall : Kind.symbols.all (fun entry => entry.1.toList.all fun c =>
      !isGap c && !isLetter c && !c.isDigit) = true := by decide
  intro c hmem
  have hc := List.all_eq_true.mp (List.all_eq_true.mp hall entry h) c hmem
  simpa [Separates, and_assoc] using hc

/-- A symbol of two characters ends in `=` and begins with `=` or `!`. -/
theorem eq_of_symbolToken?_pair {c d : Char} {token : Token}
    (h : symbolToken? [c, d] = some token) : d = '=' ∧ (c = '=' ∨ c = '!') := by
  obtain ⟨hmem, hliteral⟩ := mem_symbols_of_symbolToken? h
  have hpairs : ∀ entry ∈ Kind.symbols, entry.1.toList.length = 2 →
      entry.1.toList = ['=', '='] ∨ entry.1.toList = ['!', '='] := by decide
  have hpair := hpairs _ hmem (by rw [hliteral]; rfl)
  rw [hliteral] at hpair
  rcases hpair with hpair | hpair
  · obtain ⟨rfl, hrest⟩ := List.cons.inj hpair
    exact ⟨(List.cons.inj hrest).1, .inl rfl⟩
  · obtain ⟨rfl, hrest⟩ := List.cons.inj hpair
    exact ⟨(List.cons.inj hrest).1, .inr rfl⟩

/-- The characters that do not prolong a symbol: after `=` and `!` all but `=`. -/
def EndsSymbol (text : String) (c : Char) : Prop :=
  text = "=" ∨ text = "!" → c ≠ '='

/-- A symbol is found among the symbols. -/
theorem symbolToken?_of_mem {text : String} {kind : Kind} (h : (text, kind) ∈ Kind.symbols) :
    symbolToken? text.toList = some ⟨kind, text⟩ := by
  have htable : ∀ entry ∈ Kind.symbols, Kind.ofSymbol? entry.1 = some entry.2 := by decide
  rw [symbolToken?, String.ofList_toList, htable _ h]
  rfl

/-- The longest symbol at the start of a text that begins with one. -/
theorem longestSymbol?_append {text : String} {kind : Kind} (h : (text, kind) ∈ Kind.symbols)
    {after : List Char} (hafter : ∀ c ∈ after.head?, EndsSymbol text c) :
    longestSymbol? (text.toList ++ after) = some ⟨kind, text⟩ := by
  have htoken := symbolToken?_of_mem h
  have hsize : text.length = 1 ∨ text.length = 2 := length_of_mem_symbols h
  rw [← String.length_toList] at hsize
  unfold longestSymbol?
  rcases hsize with hsize | hsize
  · obtain ⟨c, hc⟩ := List.length_eq_one_iff.mp hsize
    have htext : text = String.ofList [c] := by rw [← hc, String.ofList_toList]
    have hone : symbolToken? ((text.toList ++ after).take 1) = some ⟨kind, text⟩ := by
      rw [hc, List.cons_append, List.take_succ_cons, List.take_zero, ← hc, htoken]
    rw [hone]
    cases after with
    | nil =>
      rw [List.append_nil, List.take_of_length_le (by omega), htoken]
      rfl
    | cons d rest =>
      have htwo : symbolToken? ((text.toList ++ d :: rest).take 2) = none := by
        rw [hc]
        change symbolToken? [c, d] = none
        cases hpair : symbolToken? [c, d] with
        | none => rfl
        | some token =>
          obtain ⟨rfl, hfirst⟩ := eq_of_symbolToken?_pair hpair
          refine absurd rfl (hafter '=' rfl ?_)
          rw [htext]
          rcases hfirst with rfl | rfl
          · exact .inl rfl
          · exact .inr rfl
      rw [htwo]
      rfl
  · rw [List.take_append_of_le_length (by omega), List.take_of_length_le (by omega), htoken]
    rfl

/-- A symbol is read as its token. -/
theorem lexes_symbol {text : String} {kind : Kind} (h : (text, kind) ∈ Kind.symbols) :
    Lexes (EndsSymbol text) text [⟨kind, text⟩] := by
  intro after hafter
  have hsymbol := longestSymbol?_append h hafter
  have hsize : text.length = 1 ∨ text.length = 2 := length_of_mem_symbols h
  have hchars := separates_of_mem_symbols h
  rw [← String.length_toList] at hsize
  cases hc : text.toList with
  | nil =>
    rw [hc] at hsize
    exact absurd hsize (by decide)
  | cons c rest =>
    have hgap : isGap c = false := (hchars c (by rw [hc]; exact List.mem_cons_self)).1
    apply tokenize_cons_of_tokenAt hgap
    change tokenAt c (rest ++ after) = _
    rw [hc, List.cons_append] at hsymbol
    unfold tokenAt
    rw [hsymbol]
    change (_, (c :: (rest ++ after)).drop text.length) = _
    rw [← List.cons_append, ← hc, ← String.length_toList, List.drop_left]

/-- A symbol that no character prolongs may stand before anything. -/
theorem lexes_closed {text : String} {kind : Kind} (h : (text, kind) ∈ Kind.symbols)
    (hopen : text ≠ "=" ∧ text ≠ "!") : Lexes Anything text [⟨kind, text⟩] := by
  refine (lexes_symbol h).mono fun c _ hprolonged => ?_
  rcases hprolonged with hassign | hbang
  · exact absurd hassign hopen.1
  · exact absurd hbang hopen.2

/-- No symbol begins with a letter or a digit. -/
theorem longestSymbol?_eq_none {c : Char} (h : ¬ Separates c) (rest : List Char) :
    longestSymbol? (c :: rest) = none := by
  have hnone : ∀ n, symbolToken? ((c :: rest).take (n + 1)) = none := by
    intro n
    cases htoken : symbolToken? ((c :: rest).take (n + 1)) with
    | none => rfl
    | some token =>
      obtain ⟨hmem, hliteral⟩ := mem_symbols_of_symbolToken? htoken
      have hchars := separates_of_mem_symbols hmem c
        (by rw [hliteral, List.take_succ_cons]; exact List.mem_cons_self)
      exact absurd hchars.2 h
  rw [longestSymbol?, hnone 1, hnone 0]
  rfl

/-- Gaps are neither letters nor digits. -/
theorem isGap_eq_false {c : Char} (h : ¬ Separates c) : isGap c = false := by
  cases hgap : isGap c with
  | false => rfl
  | true =>
    refine absurd ?_ h
    simp only [isGap, Bool.or_eq_true, beq_iff_eq] at hgap
    rcases hgap with ((rfl | rfl) | rfl) | rfl <;> exact ⟨by decide, by decide⟩

/-- The digits of a number. -/
theorem toList_toString (n : Nat) : (toString n).toList = Nat.toDigits 10 n := by
  rw [Nat.toString_eq_ofList_toDigits, String.toList_ofList]

/-- A run of characters of a class ends where a character of another class follows. -/
theorem takeWhile_append_of_head? {p : Char → Bool} {run after : List Char}
    (hrun : ∀ c ∈ run, p c = true) (hafter : ∀ c ∈ after.head?, p c = false) :
    (run ++ after).takeWhile p = run ∧ (run ++ after).dropWhile p = after := by
  rw [List.takeWhile_append_of_pos hrun, List.dropWhile_append_of_pos hrun]
  cases after with
  | nil => simp
  | cons c rest =>
    have hc : ¬ p c = true := by
      rw [hafter c rfl]
      decide
    rw [List.takeWhile_cons_of_neg hc, List.dropWhile_cons_of_neg hc, List.append_nil]
    exact ⟨rfl, rfl⟩

/-- A word is read as its token. -/
theorem lexes_word {text : String} (hempty : text.toList ≠ [])
    (hletters : ∀ c ∈ text.toList, isLetter c = true) :
    Lexes (fun c => isLetter c = false) text [⟨Kind.ofWord text, text⟩] := by
  intro after hafter
  obtain ⟨htake, hdrop⟩ := takeWhile_append_of_head? hletters hafter
  cases hc : text.toList with
  | nil => exact absurd hc hempty
  | cons c rest =>
    have hletter : isLetter c = true := hletters c (by rw [hc]; exact List.mem_cons_self)
    have hclass : ¬ Separates c := fun hseparates => by
      rw [hseparates.1] at hletter
      exact nomatch hletter
    rw [hc, List.cons_append] at htake hdrop
    apply tokenize_cons_of_tokenAt (isGap_eq_false hclass)
    change tokenAt c (rest ++ after) = _
    unfold tokenAt
    rw [longestSymbol?_eq_none hclass]
    dsimp only
    rw [if_pos hletter, htake, hdrop, ← hc, String.ofList_toList]

/-- A reserved word is read as its token. -/
theorem lexes_reserved {text : String} {kind : Kind} (h : (text, kind) ∈ Kind.reserved) :
    Lexes (fun c => isLetter c = false) text [⟨kind, text⟩] := by
  have hletters : Kind.reserved.all (fun entry => entry.1.toList.all isLetter) = true := by decide
  have hkinds : ∀ entry ∈ Kind.reserved, entry.1 ≠ "" ∧ Kind.ofWord entry.1 = entry.2 := by decide
  obtain ⟨hempty, hkind⟩ := hkinds _ h
  dsimp only at hempty hkind
  rw [← hkind]
  apply lexes_word
  · simpa using hempty
  · exact List.all_eq_true.mp (List.all_eq_true.mp hletters _ h)

/-- A name is read as an identifier. -/
theorem lexes_name {text : String} (h : isName text = true) :
    Lexes (fun c => isLetter c = false) text [⟨.ident, text⟩] := by
  simp only [isName, Bool.and_eq_true, Bool.not_eq_true', List.isEmpty_eq_false_iff,
    List.all_eq_true] at h
  obtain ⟨⟨hempty, hletters⟩, hfree⟩ := h
  have hword := lexes_word hempty hletters
  have hlookup : Kind.reserved.lookup text = none := by
    refine List.lookup_eq_none_iff.mpr fun entry hmem => ?_
    have hne : text ≠ entry.1 := by
      intro heq
      rw [heq] at hfree
      simp [List.mem_map_of_mem hmem] at hfree
    simpa using hne
  rwa [Kind.ofWord, hlookup] at hword

/-- No digit is a letter. -/
theorem isLetter_eq_false {c : Char} (h : c.isDigit = true) : isLetter c = false := by
  have hdigit : 48 ≤ c.toNat ∧ c.toNat ≤ 57 := Char.isDigit_iff_toNat.mp h
  have hupper : c.isUpper = false := by
    refine decide_eq_false fun hrange => ?_
    have hlow : 65 ≤ c.toNat := hrange.1
    omega
  have hlower : c.isLower = false := by
    have hlow : ¬ 97 ≤ c.toNat := by omega
    exact Bool.and_eq_false_imp.mpr fun hrange => absurd (of_decide_eq_true hrange) hlow
  have hline : (c == '_') = false := by
    refine beq_eq_false_iff_ne.mpr fun hline => ?_
    rw [hline] at hdigit
    exact absurd hdigit.2 (by decide)
  have halpha : c.isAlpha = false := Bool.or_eq_false_iff.mpr ⟨hupper, hlower⟩
  exact Bool.or_eq_false_iff.mpr ⟨halpha, hline⟩

/-- A run of digits is read as its token. -/
theorem lexes_numeral {text : String} (hempty : text.toList ≠ [])
    (hdigits : ∀ c ∈ text.toList, c.isDigit = true) :
    Lexes (fun c => c.isDigit = false) text [⟨.int, text⟩] := by
  intro after hafter
  obtain ⟨htake, hdrop⟩ := takeWhile_append_of_head? hdigits hafter
  cases hc : text.toList with
  | nil => exact absurd hc hempty
  | cons c rest =>
    have hdigit : c.isDigit = true := hdigits c (by rw [hc]; exact List.mem_cons_self)
    have hclass : ¬ Separates c := fun hseparates => by
      rw [hseparates.2] at hdigit
      exact nomatch hdigit
    have hnoLetter : ¬ isLetter c = true := by
      rw [isLetter_eq_false hdigit]
      decide
    rw [hc, List.cons_append] at htake hdrop
    apply tokenize_cons_of_tokenAt (isGap_eq_false hclass)
    change tokenAt c (rest ++ after) = _
    unfold tokenAt
    rw [longestSymbol?_eq_none hclass]
    dsimp only
    rw [if_neg hnoLetter, if_pos hdigit, htake, hdrop, ← hc, String.ofList_toList]

end ExprLang
