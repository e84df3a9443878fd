import ExprLang.Proofs.Lexeme
import ExprLang.Reader

/-!
# How a text is cut into tokens

A text is gaps and lexemes in turn, from its first character to its last. A lexeme is a fixed
symbol, a run of letters, a run of digits, or one character of no class, and it is as long as it can
be: what comes directly after it does not carry it on. Every text is cut so in one way only, and the
tokens of the text are those of its lexemes. A reader at the start of the text hands out the same
tokens, one request at a time and without a fault.
-/

namespace ExprLang

/-- Directly before `rest`, the characters `lexeme` make up `token`. -/
inductive Lexeme (rest : List Char) : List Char → Token → Prop where
  /-- A fixed symbol; `=` and `!` are no lexemes before `=`. -/
  | symbol {text kind} : (text, kind) ∈ Kind.symbols →
      (text = "=" ∨ text = "!" → rest.head? ≠ some '=') → Lexeme rest text.toList ⟨kind, text⟩
  /-- A run of letters, which ends before a letter nowhere. -/
  | word {text : String} : text.toList ≠ [] → (∀ c ∈ text.toList, isLetter c = true) →
      (∀ c ∈ rest.head?, isLetter c = false) → Lexeme rest text.toList ⟨Kind.ofWord text, text⟩
  /-- A run of digits, which ends before a digit nowhere. -/
  | numeral {text : String} : text.toList ≠ [] → (∀ c ∈ text.toList, c.isDigit = true) →
      (∀ c ∈ rest.head?, c.isDigit = false) → Lexeme rest text.toList ⟨.int, text⟩
  /-- A character of no class, whose text the token does not keep. -/
  | illegal {c} : isGap c = false → isLetter c = false → c.isDigit = false →
      (∀ kind, (String.singleton c, kind) ∉ Kind.symbols) → Lexeme rest [c] ⟨.illegal, ""⟩

/-- A text is gaps and lexemes in turn, and `tokens` are those of its lexemes. -/
inductive Decomposes : List Char → List Token → Prop where
  | last {gap} : (∀ c ∈ gap, isGap c = true) → Decomposes gap []
  | next {gap lexeme rest token tokens} : (∀ c ∈ gap, isGap c = true) →
      Lexeme rest lexeme token → Decomposes rest tokens →
      Decomposes (gap ++ (lexeme ++ rest)) (token :: tokens)

/-! ## Lexemes are read as their tokens -/

/-- A character that is no symbol begins none. -/
theorem longestSymbol?_eq_none_of_singleton {c : Char}
    (h : ∀ kind, (String.singleton c, kind) ∉ Kind.symbols) (rest : List Char) :
    longestSymbol? (c :: rest) = none := by
  have hone : symbolToken? [c] = none := by
    cases htoken : symbolToken? [c] with
    | none => rfl
    | some token =>
      obtain ⟨hmem, hliteral⟩ := mem_symbols_of_symbolToken? htoken
      have htext : token.literal = String.singleton c := by
        rw [← String.toList_inj, hliteral, String.toList_singleton]
      exact absurd (htext ▸ hmem) (h token.kind)
  have htwo : symbolToken? ((c :: rest).take 2) = none := by
    cases rest with
    | nil => exact hone
    | cons d rest =>
      cases htoken : symbolToken? [c, d] with
      | none => exact htoken
      | some token =>
        obtain ⟨-, rfl | rfl⟩ := eq_of_symbolToken?_pair htoken
        · exact nomatch hone
        · exact nomatch hone
  rw [longestSymbol?, htwo]
  exact hone

/-- A lexeme is read as its token. -/
theorem Lexeme.tokenize_append {rest lexeme : List Char} {token : Token}
    (h : Lexeme rest lexeme token) : tokenize (lexeme ++ rest) = token :: tokenize rest := by
  cases h with
  | symbol hmem hrest =>
    refine lexes_symbol hmem rest fun c hc hopen heq => hrest hopen ?_
    rw [← heq]
    exact hc
  | word hempty hletters hrest => exact lexes_word hempty hletters rest hrest
  | numeral hempty hdigits hrest => exact lexes_numeral hempty hdigits rest hrest
  | @illegal c hgap hletter hdigit hsymbol =>
    apply tokenize_cons_of_tokenAt hgap
    change tokenAt c rest = (.illegal, rest)
    unfold tokenAt
    rw [longestSymbol?_eq_none_of_singleton hsymbol]
    dsimp only
    rw [if_neg (by rw [hletter]; decide), if_neg (by rw [hdigit]; decide)]

/-- A gap is not read. -/
theorem tokenize_append_of_isGap {gap : List Char} (h : ∀ c ∈ gap, isGap c = true)
    (rest : List Char) : tokenize (gap ++ rest) = tokenize rest := by
  induction gap with
  | nil => rfl
  | cons c gap ih =>
    rw [List.cons_append, tokenize_cons_of_isGap (h c List.mem_cons_self)]
    exact ih fun d hmem => h d (List.mem_cons_of_mem c hmem)

/-- A text that is cut into lexemes is read as their tokens. -/
theorem Decomposes.tokenize_eq {text : List Char} {tokens : List Token}
    (h : Decomposes text tokens) : tokenize text = tokens := by
  induction h with
  | @last gap hgap => rw [← List.append_nil gap, tokenize_append_of_isGap hgap, tokenize_nil]
  | next hgap hlexeme _ ih => rw [tokenize_append_of_isGap hgap, hlexeme.tokenize_append, ih]

/-! ## What is read is a lexeme -/

/-- Where a run of a class ends no character of the class follows. -/
theorem eq_false_of_mem_head?_dropWhile {p : Char → Bool} {text : List Char} {c : Char}
    (h : c ∈ (text.dropWhile p).head?) : p c = false := by
  have hstop := List.head?_dropWhile_not p text
  rw [Option.mem_def.mp h] at hstop
  simpa using hstop

/-- The symbol that is read is a lexeme. -/
theorem lexeme_of_longestSymbol? {text : List Char} {token : Token}
    (h : longestSymbol? text = some token) :
    Lexeme (text.drop token.literal.length) (text.take token.literal.length) token := by
  -- the characters of the symbol are the first two or the first one of the text
  have hread : ∀ n, symbolToken? (text.take n) = some token →
      (token.literal = "=" ∨ token.literal = "!" →
        (text.drop token.literal.length).head? ≠ some '=') →
      Lexeme (text.drop token.literal.length) (text.take token.literal.length) token := by
    intro n hn hrest
    obtain ⟨hmem, hliteral⟩ := mem_symbols_of_symbolToken? hn
    have htake : text.take token.literal.length = token.literal.toList := by
      rw [← String.length_toList, hliteral, List.length_take, ← List.take_eq_take_min]
    rw [htake]
    exact .symbol hmem hrest
  rw [longestSymbol?, Option.or_eq_some_iff] at h
  rcases h with htwo | ⟨htwo, hone⟩
  · refine hread 2 htwo fun hopen hnext => ?_
    obtain ⟨-, hliteral⟩ := mem_symbols_of_symbolToken? htwo
    have hlength : token.literal.length = 1 := by rcases hopen with h | h <;> rw [h] <;> rfl
    have hshort : text.length = 1 := by
      have := congrArg List.length hliteral
      rw [String.length_toList, List.length_take] at this
      omega
    rw [hlength, List.drop_of_length_le (Nat.le_of_eq hshort)] at hnext
    exact absurd hnext (by decide)
  · refine hread 1 hone fun hopen hnext => ?_
    obtain ⟨-, hliteral⟩ := mem_symbols_of_symbolToken? hone
    have hlength : token.literal.length = 1 := by rcases hopen with h | h <;> rw [h] <;> rfl
    have hpairs : symbolToken? ['=', '='] ≠ none ∧ symbolToken? ['!', '='] ≠ none := by decide
    rw [hlength] at hnext
    rcases text with _ | ⟨c, _ | ⟨d, rest⟩⟩
    · exact absurd hnext (by decide)
    · exact absurd hnext (Option.some_ne_none _).symm
    · obtain rfl : d = '=' := Option.some.inj hnext
      have hfirst : c = '=' ∨ c = '!' := by
        rcases hopen with h | h
        · rw [h] at hliteral
          exact .inl (List.cons.inj hliteral).1.symm
        · rw [h] at hliteral
          exact .inr (List.cons.inj hliteral).1.symm
      rcases hfirst with rfl | rfl
      · exact hpairs.1 htwo
      · exact hpairs.2 htwo

/-- The token at the start of a text is that of a lexeme. -/
theorem lexeme_of_tokenAt {c : Char} {rest after : List Char} {token : Token}
    (hgap : isGap c = false) (h : tokenAt c rest = (token, after)) :
    ∃ lexeme, c :: rest = lexeme ++ after ∧ Lexeme after lexeme token := by
  unfold tokenAt at h
  split at h
  · rename_i token' hsymbol
    obtain ⟨rfl, rfl⟩ := Prod.mk.inj h
    exact ⟨_, (List.take_append_drop _ _).symm, lexeme_of_longestSymbol? hsymbol⟩
  · rename_i hsymbol
    split at h
    · rename_i hletter
      obtain ⟨rfl, rfl⟩ := Prod.mk.inj h
      refine ⟨_, List.takeWhile_append_dropWhile.symm, ?_⟩
      have hword := @Lexeme.word ((c :: rest).dropWhile isLetter)
        (String.ofList ((c :: rest).takeWhile isLetter))
      rw [String.toList_ofList] at hword
      refine hword (by simp [hletter]) ?_ fun d hd => eq_false_of_mem_head?_dropWhile hd
      exact List.all_eq_true.mp List.all_takeWhile
    · rename_i hletter
      split at h
      · rename_i hdigit
        obtain ⟨rfl, rfl⟩ := Prod.mk.inj h
        refine ⟨_, List.takeWhile_append_dropWhile.symm, ?_⟩
        have hnumeral := @Lexeme.numeral ((c :: rest).dropWhile Char.isDigit)
          (String.ofList ((c :: rest).takeWhile Char.isDigit))
        rw [String.toList_ofList] at hnumeral
        refine hnumeral (by simp [hdigit]) ?_ fun d hd => eq_false_of_mem_head?_dropWhile hd
        exact List.all_eq_true.mp List.all_takeWhile
      · rename_i hdigit
        obtain ⟨rfl, rfl⟩ := Prod.mk.inj h
        refine ⟨[c], rfl, .illegal hgap (by simpa using hletter) (by simpa using hdigit) ?_⟩
        intro kind hmem
        have hfound := symbolToken?_of_mem hmem
        rw [String.toList_singleton] at hfound
        rw [longestSymbol?, Option.or_eq_none_iff] at hsymbol
        exact Option.some_ne_none _ (hfound.symm.trans hsymbol.2)

/-- The first token of a text is that of its first lexeme, after a gap. -/
theorem lexeme_of_scan {text rest : List Char} {token : Token}
    (h : scan text = some (token, rest)) :
    ∃ gap lexeme, text = gap ++ (lexeme ++ rest) ∧ (∀ c ∈ gap, isGap c = true) ∧
      Lexeme rest lexeme token := by
  unfold scan at h
  split at h
  · exact nomatch h
  · rename_i c more hsplit
    have hfirst : c ∈ (text.dropWhile isGap).head? := by rw [hsplit]; rfl
    have hgap : isGap c = false := eq_false_of_mem_head?_dropWhile hfirst
    obtain ⟨lexeme, hlexeme, hread⟩ := lexeme_of_tokenAt hgap (Option.some.inj h)
    refine ⟨text.takeWhile isGap, lexeme, ?_, List.all_eq_true.mp List.all_takeWhile, hread⟩
    rw [← hlexeme, ← hsplit, List.takeWhile_append_dropWhile]

/-- A text is cut into the lexemes of the tokens it is read as. -/
theorem decomposes_tokenize (text : List Char) : Decomposes text (tokenize text) := by
  induction hlength : text.length using Nat.strongRecOn generalizing text with
  | ind length ih =>
    rw [tokenize_eq]
    cases hscan : scan text with
    | none =>
      refine .last ?_
      unfold scan at hscan
      split at hscan
      · rename_i hempty
        rw [← @List.takeWhile_append_dropWhile _ isGap text, hempty, List.append_nil]
        exact List.all_eq_true.mp List.all_takeWhile
      · exact nomatch hscan
    | some found =>
      obtain ⟨token, rest⟩ := found
      obtain ⟨gap, lexeme, rfl, hgap, hlexeme⟩ := lexeme_of_scan hscan
      exact .next hgap hlexeme (ih rest.length (hlength ▸ length_lt_of_scan hscan) rest rfl)

/-! ## Characters of tokens -/

/-- A lexeme is not empty. -/
theorem Lexeme.ne_nil {rest lexeme : List Char} {token : Token} (h : Lexeme rest lexeme token) :
    lexeme ≠ [] := by
  cases h with
  | symbol hmem _ =>
    have hall : ∀ entry ∈ Kind.symbols, entry.1.toList ≠ [] := by decide
    exact hall _ hmem
  | word hempty _ _ => exact hempty
  | numeral hempty _ _ => exact hempty
  | illegal _ _ _ _ => exact List.cons_ne_nil _ _

/-- There is no gap in a lexeme. -/
theorem Lexeme.isGap_eq_false {rest lexeme : List Char} {token : Token}
    (h : Lexeme rest lexeme token) : ∀ c ∈ lexeme, isGap c = false := by
  cases h with
  | symbol hmem _ => exact fun c hc => (separates_of_mem_symbols hmem c hc).1
  | word _ hletters _ =>
    exact fun c hc => ExprLang.isGap_eq_false fun h => by simp [Separates, hletters c hc] at h
  | numeral _ hdigits _ =>
    exact fun c hc => ExprLang.isGap_eq_false fun h => by simp [Separates, hdigits c hc] at h
  | illegal hgap _ _ _ =>
    intro c hc
    rw [List.mem_singleton.mp hc]
    exact hgap

/-- The characters of a token are those of its lexeme, or none. -/
theorem Lexeme.mem_of_mem_literal {rest lexeme : List Char} {token : Token}
    (h : Lexeme rest lexeme token) {c : Char} (hc : c ∈ token.literal.toList) : c ∈ lexeme := by
  cases h with
  | symbol _ _ => exact hc
  | word _ _ _ => exact hc
  | numeral _ _ _ => exact hc
  | illegal _ _ _ _ => exact nomatch hc

/-- The characters of the tokens of a text are in the text. -/
theorem mem_of_mem_tokenize {text : List Char} {token : Token} (h : token ∈ tokenize text)
    {c : Char} (hc : c ∈ token.literal.toList) : c ∈ text := by
  have hcut := decomposes_tokenize text
  revert h hcut
  generalize tokenize text = tokens
  intro h hcut
  induction hcut with
  | last _ => exact nomatch h
  | next _ hlexeme _ ih =>
    rcases List.mem_cons.mp h with rfl | hmem
    · exact List.mem_append_right _ (List.mem_append_left _ (hlexeme.mem_of_mem_literal hc))
    · exact List.mem_append_right _ (List.mem_append_right _ (ih hmem))

/-- A text has the tokens of a fixed symbol only if it has the characters of the symbol. -/
theorem mem_of_symbol {text : List Char} {token : Token} (h : token ∈ tokenize text)
    {symbol : String} (hsymbol : (symbol, token.kind) ∈ Kind.symbols) {c : Char}
    (hc : c ∈ symbol.toList) : c ∈ text := by
  refine mem_of_mem_tokenize h ?_
  rw [literal_of_isSpelled (isSpelled_of_mem_tokenize h) hsymbol]
  exact hc

/-! ## Texts in a row -/

/-- A lexeme before one text is one before another text as well, if that begins with the same
character or with one that carries nothing on. -/
theorem Lexeme.of_head? {rest rest' lexeme : List Char} {token : Token}
    (h : Lexeme rest lexeme token)
    (hnext : ∀ c ∈ rest'.head?, c ∈ rest.head? ∨ Separates c ∧ c ≠ '=') :
    Lexeme rest' lexeme token := by
  have hhead {p : Char → Prop} (hrest : ∀ c ∈ rest.head?, p c)
      (hp : ∀ c, Separates c ∧ c ≠ '=' → p c) : ∀ c ∈ rest'.head?, p c :=
    fun c hc => (hnext c hc).elim (hrest c) (hp c)
  cases h with
  | symbol hmem hrest =>
    have hsign (hopen : _) : ∀ c ∈ rest'.head?, c ≠ '=' :=
      hhead (fun c hmem heq => hrest hopen (heq ▸ hmem)) fun c h => h.2
    exact .symbol hmem fun hopen heq => hsign hopen '=' heq rfl
  | word hempty hletters hrest =>
    exact .word hempty hletters (hhead hrest fun c h => h.1.1)
  | numeral hempty hdigits hrest =>
    exact .numeral hempty hdigits (hhead hrest fun c h => h.1.2)
  | illegal hgap hletter hdigit hsymbol => exact .illegal hgap hletter hdigit hsymbol

/-- A lexeme is one before more text as well, if that does not begin with what carries it on. -/
theorem Lexeme.append {rest lexeme : List Char} {token : Token} (h : Lexeme rest lexeme token)
    {after : List Char} (hafter : ∀ c ∈ after.head?, Separates c ∧ c ≠ '=') :
    Lexeme (rest ++ after) lexeme token := by
  refine h.of_head? fun c hc => ?_
  cases rest with
  | nil => exact .inr (hafter c hc)
  | cons _ _ => exact .inl hc

/-- Whatever text stands before a character that carries no lexeme on is read by itself. -/
theorem lexes_tokenize (text : String) :
    Lexes (fun c => Separates c ∧ c ≠ '=') text (tokenize text.toList) := by
  intro after hafter
  have hcut := decomposes_tokenize text.toList
  revert hcut
  generalize text.toList = chars, tokenize text.toList = tokens
  intro hcut
  induction hcut with
  | last hgap => exact tokenize_append_of_isGap hgap after
  | next hgap hlexeme _ ih =>
    rw [List.append_assoc, List.append_assoc, tokenize_append_of_isGap hgap,
      (hlexeme.append hafter).tokenize_append, ih, List.cons_append]

/-- A symbol that carries nothing on and is not carried on parts the texts before and after it. -/
theorem lexes_append_symbol (text : String) {symbol : String} {kind : Kind}
    (h : (symbol, kind) ∈ Kind.symbols) (hopen : symbol ≠ "=" ∧ symbol ≠ "!")
    (hstart : Starts (fun c => Separates c ∧ c ≠ '=') symbol) :
    Lexes Anything (text ++ symbol) (tokenize text.toList ++ [⟨kind, symbol⟩]) :=
  (lexes_tokenize text).append (lexes_closed h hopen) hstart

/-! ## One token after the other -/

namespace Reader

/-- The tokens that a reader hands out, request after request, until it hands out the end. -/
inductive HandsOut : Reader → List Token → Prop where
  | nil {reader after} : reader.nextToken = .ok (.eof, after) → HandsOut reader []
  | cons {reader after token tokens} : reader.nextToken = .ok (token, after) →
      token.kind ≠ .eof → HandsOut after tokens → HandsOut reader (token :: tokens)

variable {reader : Reader}

/-- What is ahead of a reader further on. -/
theorem ahead_advance (h : 0 ≤ reader.position) (count : Nat) :
    0 ≤ (reader.advance count).position ∧
      (reader.advance count).ahead = reader.ahead.drop count := by
  have hnext : 0 ≤ reader.position + count := by omega
  refine ⟨hnext, ?_⟩
  unfold ahead advance
  dsimp only
  rw [if_neg (Int.not_lt.mpr hnext), if_neg (Int.not_lt.mpr h), List.drop_drop]
  congr 1
  omega

/-- A reader that takes a run goes on after it. -/
theorem ahead_readWhile (h : 0 ≤ reader.position) (allowed : Char → Bool) :
    0 ≤ (reader.readWhile allowed).2.position ∧
      (reader.readWhile allowed).2.ahead = reader.ahead.dropWhile allowed := by
  obtain ⟨hposition, hahead⟩ := ahead_advance h (reader.ahead.takeWhile allowed).length
  refine ⟨hposition, hahead.trans ?_⟩
  have hdrop := @List.drop_left _ (reader.ahead.takeWhile allowed) (reader.ahead.dropWhile allowed)
  rwa [List.takeWhile_append_dropWhile] at hdrop

/-- The gap that a reader stands in is skipped. -/
theorem skipGap_eq (h : 0 ≤ reader.position) :
    reader.skipGap = .ok (reader.readWhile isGap).2 := by
  rw [skipGap, if_neg (Int.not_lt.mpr h)]

/-- A reader at a token hands it out and goes on after it. -/
theorem nextToken_of_tokenAt {c : Char} {more rest : List Char} {token : Token}
    (h : 0 ≤ reader.position) (hahead : reader.ahead.dropWhile isGap = c :: more)
    (htoken : tokenAt c more = (token, rest)) :
    ∃ after, reader.nextToken = .ok (token, after) ∧ 0 ≤ after.position ∧ after.ahead = rest := by
  obtain ⟨hstart, hgap⟩ := ahead_readWhile h isGap
  rw [hahead] at hgap
  rw [nextToken, skipGap_eq h]
  generalize (reader.readWhile isGap).2 = start at hstart hgap
  dsimp only [bind, Except.bind]
  rw [hgap]
  dsimp only
  rw [matchSymbol, hgap]
  unfold tokenAt at htoken
  cases hsymbol : longestSymbol? (c :: more) with
  | some symbol =>
    rw [hsymbol] at htoken
    obtain ⟨rfl, rfl⟩ := Prod.mk.inj htoken
    exact ⟨_, rfl, hgap ▸ ahead_advance hstart symbol.literal.length⟩
  | none =>
    rw [hsymbol] at htoken
    dsimp only [Option.map_none] at htoken ⊢
    by_cases hletter : isLetter c = true
    · rw [if_pos hletter] at htoken ⊢
      obtain ⟨rfl, rfl⟩ := Prod.mk.inj htoken
      exact ⟨_, by rw [readWhile, hgap]; rfl, hgap ▸ ahead_readWhile hstart isLetter⟩
    · rw [if_neg hletter] at htoken ⊢
      by_cases hdigit : c.isDigit = true
      · rw [if_pos hdigit] at htoken ⊢
        obtain ⟨rfl, rfl⟩ := Prod.mk.inj htoken
        exact ⟨_, by rw [readWhile, hgap]; rfl, hgap ▸ ahead_readWhile hstart Char.isDigit⟩
      · rw [if_neg hdigit] at htoken ⊢
        obtain ⟨rfl, rfl⟩ := Prod.mk.inj htoken
        have hrest := ahead_advance hstart 1
        rw [hgap] at hrest
        exact ⟨_, rfl, hrest⟩

/-- A reader hands out the first token ahead of it, or the end where there is none. -/
theorem nextToken_eq (h : 0 ≤ reader.position) :
    match scan reader.ahead with
    | some (token, rest) =>
      ∃ after, reader.nextToken = .ok (token, after) ∧ 0 ≤ after.position ∧ after.ahead = rest
    | none => ∃ after, reader.nextToken = .ok (.eof, after) := by
  cases hahead : reader.ahead.dropWhile isGap with
  | nil =>
    have hend := (ahead_readWhile h isGap).2
    rw [scan, hahead]
    rw [hahead] at hend
    refine ⟨(reader.readWhile isGap).2, ?_⟩
    rw [nextToken, skipGap_eq h]
    dsimp only [bind, Except.bind]
    rw [hend]
    rfl
  | cons c more =>
    rw [scan, hahead]
    exact nextToken_of_tokenAt h hahead rfl

/-- A reader hands out the tokens of the text ahead of it. -/
theorem handsOut_tokenize (h : 0 ≤ reader.position) :
    reader.HandsOut (tokenize reader.ahead) := by
  induction hlength : reader.ahead.length using Nat.strongRecOn generalizing reader with
  | ind length ih =>
    have hnext := nextToken_eq h
    rw [tokenize_eq]
    cases hscan : scan reader.ahead with
    | none =>
      rw [hscan] at hnext
      obtain ⟨after, hend⟩ := hnext
      exact .nil hend
    | some found =>
      obtain ⟨token, rest⟩ := found
      rw [hscan] at hnext
      obtain ⟨after, htoken, hposition, rfl⟩ := hnext
      have hmem : token ∈ tokenize reader.ahead := by
        rw [tokenize_eq, hscan]
        exact List.mem_cons_self
      have hproper : token.kind ≠ .eof := kind_ne_eof_of_mem_tokenize hmem
      exact .cons htoken hproper
        (ih after.ahead.length (hlength ▸ length_lt_of_scan hscan) hposition rfl)

/-- A reader hands out no other tokens than those it hands out. -/
theorem HandsOut.unique {tokens tokens' : List Token} (h : reader.HandsOut tokens)
    (h' : reader.HandsOut tokens') : tokens = tokens' := by
  induction h generalizing tokens' with
  | nil hend =>
    cases h' with
    | nil _ => rfl
    | cons htoken hproper _ =>
      obtain ⟨rfl, -⟩ := Prod.mk.inj (Except.ok.inj (hend.symm.trans htoken))
      exact absurd rfl hproper
  | cons htoken hproper _ ih =>
    cases h' with
    | nil hend =>
      obtain ⟨rfl, -⟩ := Prod.mk.inj (Except.ok.inj (hend.symm.trans htoken))
      exact absurd rfl hproper
    | cons htoken' _ hrest =>
      obtain ⟨rfl, rfl⟩ := Prod.mk.inj (Except.ok.inj (htoken.symm.trans htoken'))
      rw [ih hrest]

end Reader

/-- A text is read as `tokens` exactly if it is cut into gaps and lexemes with these tokens, and
exactly then a reader at its start hands them out one after the other, without a fault, before the
end. -/
theorem tokenize_eq_iff_decomposes (text : List Char) (tokens : List Token) :
    (tokenize text = tokens ↔ Decomposes text tokens) ∧
      ((⟨text, 0⟩ : Reader).HandsOut tokens ↔ Decomposes text tokens) := by
  have hcut : tokenize text = tokens ↔ Decomposes text tokens := by
    constructor
    · rintro rfl
      exact decomposes_tokenize text
    · exact Decomposes.tokenize_eq
  have hout : (⟨text, 0⟩ : Reader).HandsOut (tokenize text) :=
    @Reader.handsOut_tokenize ⟨text, 0⟩ (Int.le_refl 0)
  refine ⟨hcut, fun h => hcut.mp (hout.unique h), fun h => ?_⟩
  rw [← hcut.mpr h]
  exact hout

end ExprLang
