import ExprLang.Proofs.Decomposition
import Mathlib.Data.List.Basic

/-!
# Texts side by side

Two texts in a row have the tokens of the first and then those of the second, unless the second one
carries on the last lexeme of the first: a word or a numeral that is cut in two, or `=` after a lone
`=` or `!`. Then that lexeme is a longer one in the whole text, so its token is another one. Nothing
before the cut looks further than to the next character, so no other token can change.
-/

namespace ExprLang

/-- Directly after the character `c`, with which the token `last` ends if it is a lone sign, the
character `d` carries a lexeme on. -/
def CarriesOn (last : Option Token) (c d : Char) : Prop :=
  isLetter c = true ∧ isLetter d = true ∨ c.isDigit = true ∧ d.isDigit = true ∨
    (c = '=' ∧ last = some ⟨.assign, "="⟩ ∨ c = '!' ∧ last = some ⟨.bang, "!"⟩) ∧ d = '='

/-- `second` carries on what `first`, with the tokens `tokens`, ends with. -/
def GluesTo (first : List Char) (tokens : List Token) (second : List Char) : Prop :=
  ∃ c ∈ first.getLast?, ∃ d ∈ second.head?, CarriesOn tokens.getLast? c d

/-- The last lexeme of one text and the first of the other are not two lexemes side by side: both
are words, or both are numerals, or the one is a lone `=` or `!` and the other begins with `=`. -/
def Glues (first second : String) : Prop :=
  GluesTo first.toList (tokenize first.toList) second.toList

/-- After a gap nothing is carried on. -/
theorem not_carriesOn_of_isGap {last : Option Token} {c d : Char} (h : isGap c = true) :
    ¬ CarriesOn last c d := by
  have hclass : Separates c ∧ c ≠ '=' ∧ c ≠ '!' := by
    simp only [isGap, Bool.or_eq_true, beq_iff_eq] at h
    rcases h with ((rfl | rfl) | rfl) | rfl <;> decide
  obtain ⟨⟨hletter, hdigit⟩, hequals, hbang⟩ := hclass
  rintro (⟨h, -⟩ | ⟨h, -⟩ | ⟨⟨h, -⟩ | ⟨h, -⟩, -⟩)
  · exact Bool.false_ne_true (hletter.symm.trans h)
  · exact Bool.false_ne_true (hdigit.symm.trans h)
  · exact hequals h
  · exact hbang h

/-- By a gap nothing is carried on. -/
theorem not_carriesOn_isGap {last : Option Token} {c d : Char} (h : isGap d = true) :
    ¬ CarriesOn last c d := by
  have hclass : Separates d ∧ d ≠ '=' := by
    simp only [isGap, Bool.or_eq_true, beq_iff_eq] at h
    rcases h with ((rfl | rfl) | rfl) | rfl <;> decide
  obtain ⟨⟨hletter, hdigit⟩, hequals⟩ := hclass
  rintro (⟨-, h⟩ | ⟨-, h⟩ | ⟨-, h⟩)
  · exact Bool.false_ne_true (hletter.symm.trans h)
  · exact Bool.false_ne_true (hdigit.symm.trans h)
  · exact hequals h

/-! ## The last lexeme -/

/-- A run of a class before a text that begins in the class is a longer run. -/
theorem exists_run {p : Char → Bool} {run second : List Char} {d : Char}
    (hrun : ∀ c ∈ run, p c = true) (hd : d ∈ second.head?) (hclass : p d = true) :
    ∃ more rest, second = more ++ rest ∧ more ≠ [] ∧ (∀ c ∈ run ++ more, p c = true) ∧
      ∀ c ∈ rest.head?, p c = false := by
  refine ⟨second.takeWhile p, second.dropWhile p, List.takeWhile_append_dropWhile.symm, ?_, ?_,
    fun c hc => eq_false_of_mem_head?_dropWhile hc⟩
  · obtain ⟨rest, rfl⟩ := List.head?_eq_some_iff.mp hd
    rw [List.takeWhile_cons_of_pos hclass]
    exact List.cons_ne_nil _ _
  · intro c hc
    rcases List.mem_append.mp hc with hc | hc
    · exact hrun c hc
    · exact List.all_eq_true.mp List.all_takeWhile c hc

/-- A lexeme is the text of its token, unless the token keeps none. -/
theorem Lexeme.eq_toList_literal {rest lexeme : List Char} {token : Token}
    (h : Lexeme rest lexeme token) (hkind : token.kind ≠ .illegal) :
    lexeme = token.literal.toList := by
  cases h with
  | symbol _ _ => rfl
  | word _ _ _ => rfl
  | numeral _ _ _ => rfl
  | illegal _ _ _ _ => exact absurd rfl hkind

/-- A lexeme with a letter in it is a word. -/
theorem Lexeme.eq_word {rest lexeme : List Char} {token : Token} (h : Lexeme rest lexeme token)
    {c : Char} (hc : c ∈ lexeme) (hletter : isLetter c = true) :
    ∃ text : String, lexeme = text.toList ∧ token = ⟨Kind.ofWord text, text⟩ ∧
      ∀ c ∈ text.toList, isLetter c = true := by
  cases h with
  | symbol hmem _ =>
    rw [(separates_of_mem_symbols hmem c hc).2.1] at hletter
    exact nomatch hletter
  | word _ hletters _ => exact ⟨_, rfl, rfl, hletters⟩
  | numeral _ hdigits _ =>
    rw [isLetter_eq_false (hdigits c hc)] at hletter
    exact nomatch hletter
  | illegal _ hclass _ _ =>
    rw [List.mem_singleton.mp hc, hclass] at hletter
    exact nomatch hletter

/-- A lexeme with a digit in it is a numeral. -/
theorem Lexeme.eq_numeral {rest lexeme : List Char} {token : Token} (h : Lexeme rest lexeme token)
    {c : Char} (hc : c ∈ lexeme) (hdigit : c.isDigit = true) :
    ∃ text : String, lexeme = text.toList ∧ token = ⟨.int, text⟩ ∧
      ∀ c ∈ text.toList, c.isDigit = true := by
  cases h with
  | symbol hmem _ =>
    rw [(separates_of_mem_symbols hmem c hc).2.2] at hdigit
    exact nomatch hdigit
  | word _ hletters _ =>
    have hletter := hletters c hc
    rw [isLetter_eq_false hdigit] at hletter
    exact nomatch hletter
  | numeral _ hdigits _ => exact ⟨_, rfl, rfl, hdigits⟩
  | illegal _ _ hclass _ =>
    rw [List.mem_singleton.mp hc, hclass] at hdigit
    exact nomatch hdigit

/-- Of two texts the longer one is another text. -/
theorem ofList_append_ne {text : String} {more : List Char} (h : more ≠ []) :
    String.ofList (text.toList ++ more) ≠ text := by
  intro heq
  rw [← String.toList_inj, String.toList_ofList] at heq
  exact h (List.append_right_eq_self.mp heq)

/-- A lexeme that is carried on is the beginning of a longer one, which has another token. -/
theorem Lexeme.exists_longer {lexeme second : List Char} {token : Token}
    (h : Lexeme [] lexeme token) (hglues : GluesTo lexeme [token] second) :
    ∃ more rest token', second = more ++ rest ∧ Lexeme rest (lexeme ++ more) token' ∧
      token' ≠ token := by
  obtain ⟨c, hc, d, hd, hcarries⟩ := hglues
  have hmem : c ∈ lexeme := List.mem_of_getLast? hc
  rcases hcarries with ⟨hletter, hnext⟩ | ⟨hdigit, hnext⟩ | ⟨hsign, rfl⟩
  · obtain ⟨text, rfl, rfl, hletters⟩ := h.eq_word hmem hletter
    obtain ⟨more, rest, rfl, hmore, hrun, hrest⟩ := exists_run hletters hd hnext
    have hword := @Lexeme.word rest (String.ofList (text.toList ++ more))
    rw [String.toList_ofList] at hword
    exact ⟨more, rest, _, rfl, hword (by simp [hmore]) hrun hrest,
      fun heq => ofList_append_ne hmore (congrArg Token.literal heq)⟩
  · obtain ⟨text, rfl, rfl, hdigits⟩ := h.eq_numeral hmem hdigit
    obtain ⟨more, rest, rfl, hmore, hrun, hrest⟩ := exists_run hdigits hd hnext
    have hnumeral := @Lexeme.numeral rest (String.ofList (text.toList ++ more))
    rw [String.toList_ofList] at hnumeral
    exact ⟨more, rest, _, rfl, hnumeral (by simp [hmore]) hrun hrest,
      fun heq => ofList_append_ne hmore (congrArg Token.literal heq)⟩
  · obtain ⟨rest, rfl⟩ := List.head?_eq_some_iff.mp hd
    rcases hsign with ⟨-, hlast⟩ | ⟨-, hlast⟩
    · obtain rfl := Option.some.inj hlast
      rw [h.eq_toList_literal (by decide)]
      exact ⟨['='], rest, ⟨.eq, "=="⟩, rfl, @Lexeme.symbol rest "==" .eq (by decide) (by simp),
        by decide⟩
    · obtain rfl := Option.some.inj hlast
      rw [h.eq_toList_literal (by decide)]
      exact ⟨['='], rest, ⟨.ne, "!="⟩, rfl, @Lexeme.symbol rest "!=" .ne (by decide) (by simp),
        by decide⟩

/-- A lexeme that is not carried on is one before more text as well. -/
theorem Lexeme.before {lexeme second : List Char} {token : Token} (h : Lexeme [] lexeme token)
    (hglues : ¬ GluesTo lexeme [token] second) : Lexeme second lexeme token := by
  have hlast : lexeme.getLast h.ne_nil ∈ lexeme.getLast? := List.getLast?_eq_some_getLast h.ne_nil
  have hmem := List.getLast_mem h.ne_nil
  have hfree : ∀ d ∈ second.head?, ¬ CarriesOn (some token) (lexeme.getLast h.ne_nil) d :=
    fun d hd hcarries => hglues ⟨_, hlast, d, hd, hcarries⟩
  generalize lexeme.getLast h.ne_nil = c at hlast hmem hfree
  cases h with
  | @symbol text kind hsymbol _ =>
    have hsigns : ∀ entry ∈ Kind.symbols, (entry.1 = "=" → entry.2 = .assign) ∧
        (entry.1 = "!" → entry.2 = .bang) := by decide
    refine .symbol hsymbol fun hopen hnext => hfree '=' hnext (.inr (.inr ⟨?_, rfl⟩))
    rcases hopen with rfl | rfl
    · obtain rfl : kind = .assign := (hsigns _ hsymbol).1 rfl
      exact .inl ⟨List.mem_singleton.mp hmem, rfl⟩
    · obtain rfl : kind = .bang := (hsigns _ hsymbol).2 rfl
      exact .inr ⟨List.mem_singleton.mp hmem, rfl⟩
  | word hempty hletters _ =>
    refine .word hempty hletters fun d hd => Bool.eq_false_iff.mpr fun hletter => ?_
    exact hfree d hd (.inl ⟨hletters c hmem, hletter⟩)
  | numeral hempty hdigits _ =>
    refine .numeral hempty hdigits fun d hd => Bool.eq_false_iff.mpr fun hdigit => ?_
    exact hfree d hd (.inr (.inl ⟨hdigits c hmem, hdigit⟩))
  | illegal hgap hletter hdigit hsymbol => exact .illegal hgap hletter hdigit hsymbol

/-- Where a text ends with a lexeme, more text after it is read by itself exactly if it does not
carry the lexeme on. -/
theorem Lexeme.tokenize_append_iff {lexeme : List Char} {token : Token}
    (h : Lexeme [] lexeme token) (second : List Char) :
    tokenize (lexeme ++ second) = token :: tokenize second ↔ ¬ GluesTo lexeme [token] second := by
  constructor
  · intro heq hglues
    obtain ⟨more, rest, token', rfl, hlonger, hne⟩ := h.exists_longer hglues
    rw [← List.append_assoc, hlonger.tokenize_append] at heq
    exact hne (List.cons.inj heq).1
  · exact fun hglues => (h.before hglues).tokenize_append

/-! ## Whole texts -/

/-- What carries on a text carries on the part of it after a lexeme, if there is more than that. -/
theorem gluesTo_append_iff {before rest second : List Char} {token : Token} {tokens : List Token}
    (hrest : rest ≠ []) (hcut : Decomposes rest tokens) :
    GluesTo (before ++ rest) (token :: tokens) second ↔ GluesTo rest tokens second := by
  unfold GluesTo
  rw [List.getLast?_append_of_ne_nil _ hrest]
  cases hcut with
  | last hgap =>
    -- the part after the lexeme is a gap, after which nothing is carried on
    have hnone : ∀ last, ¬ ∃ c ∈ rest.getLast?, ∃ d ∈ second.head?, CarriesOn last c d := by
      rintro last ⟨c, hc, d, -, hcarries⟩
      exact not_carriesOn_of_isGap (hgap c (List.mem_of_getLast? hc)) hcarries
    exact iff_of_false (hnone _) (hnone _)
  | next _ _ _ => rw [List.getLast?_cons_cons]

/-- More text after a text is read by itself exactly if it carries nothing on. -/
theorem Decomposes.tokenize_append_iff {first : List Char} {tokens : List Token}
    (h : Decomposes first tokens) (second : List Char) :
    tokenize (first ++ second) = tokens ++ tokenize second ↔ ¬ GluesTo first tokens second := by
  induction h with
  | @last gap hgap =>
    refine iff_of_true (tokenize_append_of_isGap hgap second) ?_
    rintro ⟨c, hc, d, -, hcarries⟩
    exact not_carriesOn_of_isGap (hgap c (List.mem_of_getLast? hc)) hcarries
  | @next gap lexeme rest token tokens hgap hlexeme hcut ih =>
    rw [List.append_assoc, tokenize_append_of_isGap hgap, List.append_assoc]
    by_cases hrest : rest = []
    · subst hrest
      obtain rfl : [] = tokens := tokenize_nil.symm.trans hcut.tokenize_eq
      have hglues : GluesTo (gap ++ (lexeme ++ [])) [token] second ↔
          GluesTo lexeme [token] second := by
        unfold GluesTo
        rw [List.append_nil, List.getLast?_append_of_ne_nil _ hlexeme.ne_nil]
      rw [hglues]
      exact hlexeme.tokenize_append_iff second
    · have hnext : Lexeme (rest ++ second) lexeme token :=
        hlexeme.of_head? fun c hc => .inl (by rwa [List.head?_append_of_ne_nil _ hrest] at hc)
      rw [hnext.tokenize_append, List.cons_append, List.cons.injEq, and_iff_right rfl, ih,
        ← List.append_assoc, gluesTo_append_iff hrest hcut]

/-- Two texts in a row have the tokens of the first and then those of the second exactly if nothing
glues them together, and with a gap between them they always have. -/
theorem tokenize_append_eq_iff (first second : String) :
    (tokenize (first ++ second).toList = tokenize first.toList ++ tokenize second.toList ↔
      ¬ Glues first second) ∧
    ∀ gap : String, gap ≠ "" → (∀ c ∈ gap.toList, isGap c = true) →
      tokenize (first ++ gap ++ second).toList =
        tokenize first.toList ++ tokenize second.toList := by
  have hiff (after : List Char) := (decomposes_tokenize first.toList).tokenize_append_iff after
  refine ⟨?_, fun gap hempty hgap => ?_⟩
  · rw [String.toList_append]
    exact hiff second.toList
  · rw [String.toList_append, String.toList_append, List.append_assoc, (hiff _).mpr ?_,
      tokenize_append_of_isGap hgap]
    rintro ⟨c, -, d, hd, hcarries⟩
    have hchars : gap.toList ≠ [] := by simpa using hempty
    rw [List.head?_append_of_ne_nil _ hchars] at hd
    exact not_carriesOn_isGap (hgap d (List.mem_of_head? hd)) hcarries

/-- A lone sign at the end of one text and another at the start of the next one are glued together,
and a tab keeps them apart. -/
theorem tokenize_append_eq_iff_signs :
    Glues "a==!" "=b" ∧
      tokenize ("a==!" ++ "=b").toList ≠ tokenize "a==!".toList ++ tokenize "=b".toList ∧
      "\t" ≠ "" ∧ (∀ c ∈ "\t".toList, isGap c = true) ∧
      tokenize ("a==!" ++ "\t" ++ "=b").toList =
        tokenize "a==!".toList ++ tokenize "=b".toList := by
  have hglues : Glues "a==!" "=b" := by
    refine ⟨'!', by decide, '=', by decide, .inr (.inr ⟨.inr ⟨rfl, ?_⟩, rfl⟩)⟩
    decide +kernel
  obtain ⟨hiff, hgap⟩ := tokenize_append_eq_iff "a==!" "=b"
  have hempty : "\t" ≠ "" := by simp
  have htab : ∀ c ∈ "\t".toList, isGap c = true := by simp [isGap]
  exact ⟨hglues, fun heq => hiff.mp heq hglues, hempty, htab, hgap "\t" hempty htab⟩

end ExprLang
