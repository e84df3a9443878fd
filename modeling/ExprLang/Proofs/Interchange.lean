import ExprLang.Proofs.Decomposition
import ExprLang.Proofs.Result
import ExprLang.Proofs.Sequence
import Mathlib.Data.List.Forall2

/-!
# Illegal characters in place of semicolons

A character that begins no token acts as a semicolon does. Where a phrase is read it ends there, as
at a semicolon, and between statements it is passed without a trace, as a semicolon is. So a text in
which such characters stand in place of semicolons has the same statements, and the same faults at
the same places.

The two parsers are not always at the same place. A semicolon after a statement is taken with it,
whereas an illegal token is left for a round of its own in the loop over statements, in which it is
dropped. Until then the one parser is one round behind the other.
-/

namespace ExprLang

open Outcome

/-! ## Characters -/

/-- The character begins no token: it is of no class and in no fixed symbol. -/
def isIllegal (c : Char) : Bool :=
  !isGap c && !isLetter c && !c.isDigit &&
    Kind.symbols.all fun entry => !entry.1.toList.contains c

/-- The second text is the first one with illegal characters in place of some semicolons. -/
def Interchanged : List Char → List Char → Prop :=
  List.Forall₂ fun c c' => c' = c ∨ c = ';' ∧ isIllegal c' = true

/-- The second token is the first one, or an illegal one in place of a semicolon. -/
def Token.Interchanged (token token' : Token) : Prop :=
  token' = token ∨ token = ⟨.semicolon, ";"⟩ ∧ token' = .illegal

/-- The second fault is the first one, or one about an illegal token in place of a semicolon. -/
def Diagnostic.Interchanged (fault fault' : Diagnostic) : Prop :=
  fault' = fault ∨ ∃ expected, fault = .unexpected expected .semicolon ∧
    fault' = .unexpected expected .illegal

/-- What an illegal character is not. -/
theorem lexeme_of_isIllegal {c : Char} (h : isIllegal c = true) (rest : List Char) :
    Lexeme rest [c] .illegal ∧ Separates c ∧ c ≠ '=' := by
  simp only [isIllegal, Bool.and_eq_true, Bool.not_eq_true', List.all_eq_true,
    List.contains_eq_mem, decide_eq_false_iff_not] at h
  obtain ⟨⟨⟨hgap, hletter⟩, hdigit⟩, hsymbol⟩ := h
  refine ⟨.illegal hgap hletter hdigit fun kind hmem => ?_, ⟨hletter, hdigit⟩, ?_⟩
  · exact hsymbol _ hmem (by rw [String.toList_singleton]; exact List.mem_singleton_self c)
  · rintro rfl
    exact hsymbol ("=", .assign) (by decide) (by decide)

/-- An illegal character is one that is read as an illegal token. -/
theorem isIllegal_iff (c : Char) : isIllegal c = true ↔ tokenize [c] = [.illegal] := by
  constructor
  · intro h
    have hread := (lexeme_of_isIllegal h []).1.tokenize_append
    rwa [List.append_nil, tokenize_nil] at hread
  · intro h
    have hcut := decomposes_tokenize [c]
    rw [h] at hcut
    generalize htext : [c] = text at hcut
    generalize htoken : Token.illegal = token at hcut
    cases hcut with
    | next _ hlexeme _ =>
      cases hlexeme with
      | symbol hmem _ =>
        obtain ⟨rfl, rfl⟩ := Token.mk.inj htoken
        exact absurd hmem (by decide)
      | word hempty _ _ =>
        obtain rfl := (Token.mk.inj htoken).2
        exact absurd rfl hempty
      | numeral _ _ _ => exact nomatch congrArg Token.kind htoken
      | @illegal d hgap hletter hdigit hsymbol =>
        obtain rfl : d = c := List.mem_singleton.mp (htext ▸ by simp)
        have hsingle : ∀ entry ∈ Kind.symbols, entry.1.toList.all fun d =>
            (Kind.ofSymbol? (String.singleton d)).isSome := by decide
        simp only [isIllegal, hgap, hletter, hdigit, Bool.not_false, Bool.true_and,
          List.all_eq_true, Bool.not_eq_true', List.contains_eq_mem, decide_eq_false_iff_not]
        intro entry hentry hmem
        obtain ⟨kind, hkind⟩ :=
          Option.isSome_iff_exists.mp (List.all_eq_true.mp (hsingle entry hentry) d hmem)
        exact hsymbol kind (mem_symbols_of_ofSymbol? hkind)

/-- A text without semicolons is left as it is. -/
theorem Interchanged.eq_of_not_mem {text other : List Char} (h : Interchanged text other)
    (htext : ';' ∉ text) : other = text := by
  induction h with
  | nil => rfl
  | cons hhead _ ih =>
    rw [List.mem_cons, not_or] at htext
    rw [ih htext.2, hhead.resolve_right fun h => htext.1 h.1.symm]

/-- Each part of a text is interchanged with a part of the other one. -/
theorem Interchanged.of_append {first second other : List Char}
    (h : Interchanged (first ++ second) other) :
    ∃ first' second', other = first' ++ second' ∧ Interchanged first first' ∧
      Interchanged second second' := by
  induction first generalizing other with
  | nil => exact ⟨[], other, rfl, .nil, h⟩
  | cons c first ih =>
    obtain ⟨c', rest, hhead, hrest, rfl⟩ := List.forall₂_cons_left_iff.mp h
    obtain ⟨first', second', rfl, hfirst, hsecond⟩ := ih hrest
    exact ⟨c' :: first', second', rfl, .cons hhead hfirst, hsecond⟩

/-- A semicolon is a lexeme by itself, and it is in no other one. -/
theorem Lexeme.semicolon_or {rest lexeme : List Char} {token : Token}
    (h : Lexeme rest lexeme token) :
    (lexeme = [';'] ∧ token = ⟨.semicolon, ";"⟩) ∨ ';' ∉ lexeme := by
  cases h with
  | @symbol text kind hmem _ =>
    have hall : ∀ entry ∈ Kind.symbols, entry = (";", .semicolon) ∨ ';' ∉ entry.1.toList := by
      decide
    rcases hall _ hmem with heq | hnot
    · obtain ⟨rfl, rfl⟩ := Prod.mk.inj heq
      exact .inl ⟨rfl, rfl⟩
    · exact .inr hnot
  | word _ hletters _ => exact .inr fun hmem => absurd (hletters ';' hmem) (by decide)
  | numeral _ hdigits _ => exact .inr fun hmem => absurd (hdigits ';' hmem) (by decide)
  | illegal _ _ _ hsymbol =>
    refine .inr fun hmem => ?_
    obtain rfl := List.mem_singleton.mp hmem
    exact hsymbol .semicolon (by decide)

/-- What follows a lexeme carries it on no more with illegal characters in it. -/
theorem Interchanged.lexeme {rest rest' lexeme : List Char} {token : Token}
    (h : Interchanged rest rest') (hlexeme : Lexeme rest lexeme token) :
    Lexeme rest' lexeme token := by
  refine hlexeme.of_head? fun c hc => ?_
  cases h with
  | nil => exact nomatch hc
  | cons hhead _ =>
    obtain rfl := Option.some.inj hc
    rcases hhead with rfl | ⟨rfl, hillegal⟩
    · exact .inl rfl
    · exact .inr (lexeme_of_isIllegal hillegal []).2

/-- The tokens of a text with illegal characters in place of semicolons are those of the text with
illegal tokens in place of semicolons. -/
theorem Interchanged.tokenize {text other : List Char} (h : Interchanged text other) :
    List.Forall₂ Token.Interchanged (tokenize text) (ExprLang.tokenize other) := by
  have hcut := decomposes_tokenize text
  generalize ExprLang.tokenize text = tokens at hcut ⊢
  suffices ∃ tokens', Decomposes other tokens' ∧ List.Forall₂ Token.Interchanged tokens tokens' by
    obtain ⟨tokens', hother, htokens⟩ := this
    exact hother.tokenize_eq ▸ htokens
  induction hcut generalizing other with
  | last hgap =>
    have hnot : ∀ c, isGap c = true → c ≠ ';' := by rintro _ h rfl; exact absurd h (by decide)
    obtain rfl := h.eq_of_not_mem fun hmem => hnot _ (hgap _ hmem) rfl
    exact ⟨[], .last hgap, .nil⟩
  | next hgap hlexeme _ ih =>
    have hnot : ∀ c, isGap c = true → c ≠ ';' := by rintro _ h rfl; exact absurd h (by decide)
    obtain ⟨gap', more, rfl, hgap', hmore⟩ := h.of_append
    obtain ⟨lexeme', rest', rfl, hlexeme', hrest'⟩ := hmore.of_append
    obtain rfl := hgap'.eq_of_not_mem fun hmem => hnot _ (hgap _ hmem) rfl
    obtain ⟨tokens', hother, htokens⟩ := ih hrest'
    rcases hlexeme.semicolon_or with ⟨rfl, rfl⟩ | hnot
    · obtain ⟨c, nothing, hc, hnothing, rfl⟩ := List.forall₂_cons_left_iff.mp hlexeme'
      obtain rfl := List.forall₂_nil_left_iff.mp hnothing
      rcases hc with rfl | ⟨-, hillegal⟩
      · exact ⟨_, .next hgap (hrest'.lexeme hlexeme) hother, .cons (.inl rfl) htokens⟩
      · exact ⟨_, .next hgap (lexeme_of_isIllegal hillegal rest').1 hother,
          .cons (.inr ⟨rfl, rfl⟩) htokens⟩
    · obtain rfl := hlexeme'.eq_of_not_mem hnot
      exact ⟨_, .next hgap (hrest'.lexeme hlexeme) hother, .cons (.inl rfl) htokens⟩

/-! ## Parsers side by side -/

section Parsers

variable {σ τ : Type} [LawfulSource σ] [LawfulSource τ]

/-- The parsers face the same tokens, at most `size` of them, but for illegal ones in place of
semicolons, and they reported the same but for those. -/
def Alongside (size : Nat) (p : Parser σ) (q : Parser τ) : Prop :=
  ∃ rest rest', p.Faces rest ∧ q.Faces rest' ∧ List.Forall₂ Token.Interchanged rest rest' ∧
    rest.length ≤ size ∧ List.Forall₂ Diagnostic.Interchanged p.errors.toList q.errors.toList

/-- The first parser is at a semicolon and the second one at an illegal token in its place. -/
def AtSemicolon (size : Nat) (p : Parser σ) (q : Parser τ) : Prop :=
  Alongside size p q ∧ p.current.kind = .semicolon ∧ q.current.kind = .illegal

/-- The parsers stand at the same tokens, at most `size` of them, but for illegal ones in place of
semicolons, and they reported the same but for those. -/
def StandAlongside (size : Nat) (p : Parser σ) (q : Parser τ) : Prop :=
  ∃ tokens tokens', p.StandsAt tokens ∧ q.StandsAt tokens' ∧
    List.Forall₂ Token.Interchanged tokens tokens' ∧ tokens.length ≤ size ∧
    List.Forall₂ Diagnostic.Interchanged p.errors.toList q.errors.toList

/-- Reports after one another are interchanged if each of them is. -/
theorem interchanged_push {errors errors' : Array Diagnostic} {fault fault' : Diagnostic}
    (h : List.Forall₂ Diagnostic.Interchanged errors.toList errors'.toList)
    (hfault : fault.Interchanged fault') :
    List.Forall₂ Diagnostic.Interchanged (errors.push fault).toList
      (errors'.push fault').toList := by
  rw [Array.toList_push, Array.toList_push]
  exact List.rel_append h (.cons hfault .nil)

namespace Alongside

variable {size : Nat} {p : Parser σ} {q : Parser τ}

/-- Parsers side by side face the same token, or a semicolon and an illegal token. -/
theorem peek (h : Alongside size p q) :
    q.peek = p.peek ∨ p.peek.kind = .semicolon ∧ q.peek.kind = .illegal := by
  obtain ⟨rest, rest', hp, hq, hrest, -, -⟩ := h
  rw [hp.peek, hq.peek]
  cases hrest with
  | nil => exact .inl rfl
  | cons hhead _ =>
    rcases hhead with rfl | ⟨rfl, rfl⟩
    · exact .inl rfl
    · exact .inr ⟨rfl, rfl⟩

/-- More tokens may be faced. -/
theorem mono {size' : Nat} (h : Alongside size p q) (hle : size ≤ size') : Alongside size' p q := by
  obtain ⟨rest, rest', hp, hq, hrest, hlength, herrors⟩ := h
  exact ⟨rest, rest', hp, hq, hrest, Nat.le_trans hlength hle, herrors⟩

/-- Parsers that move on stand at what they faced. -/
theorem stand (h : Alongside size p q) : StandAlongside size p.advance q.advance := by
  obtain ⟨rest, rest', hp, hq, hrest, hlength, herrors⟩ := h
  exact ⟨rest, rest', hp.advance, hq.advance, hrest, hlength, herrors⟩

/-- Parsers that report what is interchanged stay side by side. -/
theorem report (h : Alongside size p q) {fault fault' : Diagnostic}
    (hfault : fault.Interchanged fault') : Alongside size (p.report fault) (q.report fault') := by
  obtain ⟨rest, rest', hp, hq, hrest, hlength, herrors⟩ := h
  exact ⟨rest, rest', hp.report fault, hq.report fault', hrest, hlength,
    interchanged_push herrors hfault⟩

/-- The parsers stay side by side if the second one begins a statement. -/
theorem begin_right (h : Alongside size p q) : Alongside size p q.beginStatement := by
  obtain ⟨rest, rest', hp, hq, hrest, hlength, herrors⟩ := h
  exact ⟨rest, rest', hp, ⟨hq.peek, hq.pending, hq.proper⟩, hrest, hlength, herrors⟩

/-- Parsers that begin a statement stay side by side. -/
theorem beginStatement (h : Alongside size p q) :
    Alongside size p.beginStatement q.beginStatement := by
  obtain ⟨rest, rest', hp, hq, hrest, hlength, herrors⟩ := h.begin_right
  exact ⟨rest, rest', ⟨hp.peek, hp.pending, hp.proper⟩, hq, hrest, hlength, herrors⟩

end Alongside

namespace StandAlongside

variable {size : Nat} {p : Parser σ} {q : Parser τ}

/-- Parsers that stand side by side face what is left after the first token. -/
theorem alongside (h : StandAlongside size p q) : Alongside (size - 1) p q := by
  obtain ⟨tokens, tokens', hp, hq, htokens, hlength, herrors⟩ := h
  refine ⟨tokens.tail, tokens'.tail, hp.faces, hq.faces, ?_, ?_, herrors⟩
  · cases htokens with
    | nil => exact .nil
    | cons _ hrest => exact hrest
  · rw [List.length_tail]
    omega

/-- Parsers that stand side by side examine the same token, or a semicolon and an illegal token. -/
theorem current (h : StandAlongside size p q) :
    q.current = p.current ∨ p.current.kind = .semicolon ∧ q.current.kind = .illegal := by
  obtain ⟨tokens, tokens', hp, hq, htokens, -, -⟩ := h
  rw [hp.current, hq.current]
  cases htokens with
  | nil => exact .inl rfl
  | cons hhead _ =>
    rcases hhead with rfl | ⟨rfl, rfl⟩
    · exact .inl rfl
    · exact .inr ⟨rfl, rfl⟩

/-- Parsers that stand side by side may begin a phrase. -/
theorem standing (h : StandAlongside size p q) :
    Standing (Alongside (size - 1)) (AtSemicolon (size - 1)) p q :=
  h.current.imp (fun hcurrent => ⟨h.alongside, hcurrent⟩) fun hstop => ⟨h.alongside, hstop⟩

/-- A loop that neither a semicolon nor an illegal token closes is closed by both or by none. -/
theorem closes_eq (h : StandAlongside size p q) {closes : Kind → Bool}
    (hsemicolon : closes .semicolon = false) (hillegal : closes .illegal = false) :
    closes q.current.kind = closes p.current.kind := by
  rcases h.current with hcurrent | hstop
  · rw [hcurrent]
  · rw [hstop.1, hstop.2, hsemicolon, hillegal]

/-- Before the end at least one token is stood at. -/
theorem pos (h : StandAlongside size p q) (hopen : p.current.kind ≠ .eof) : 0 < size := by
  obtain ⟨tokens, -, hp, -, -, hlength, -⟩ := h
  rw [hp.current_kind] at hopen
  cases tokens with
  | nil => exact absurd rfl hopen
  | cons _ rest => exact Nat.lt_of_lt_of_le (Nat.zero_lt_succ _) hlength

end StandAlongside

/-- The second parser is a round behind where it faces an illegal token and the first one takes a
semicolon. It drops the token in that round, and they stand side by side again. -/
theorem Alongside.catchUp {size : Nat} {p : Parser σ} {q : Parser τ} (h : Alongside size p q)
    (hp : p.peek.kind = .semicolon) (hq : q.peek.kind = .illegal) :
    q.pastSemicolon = q ∧ ∃ smaller, size = smaller + 1 ∧
      StandAlongside smaller p.pastSemicolon.advance q.advance.beginStatement.advance := by
  have hpast : p.pastSemicolon = p.advance := if_pos hp
  have hstand : StandAlongside size p.advance q.advance := h.stand
  have hopen : p.advance.current.kind ≠ .eof := fun heof => nomatch hp.symm.trans heof
  obtain ⟨smaller, rfl⟩ := Nat.exists_eq_succ_of_ne_zero (Nat.ne_of_gt (hstand.pos hopen))
  refine ⟨if_neg (by rw [hq]; decide), smaller, rfl, ?_⟩
  rw [hpast]
  exact hstand.alongside.begin_right.stand

/-- Each step keeps parsers side by side. -/
theorem Alongside.abreast (size : Nat) :
    Abreast (Alongside size : Parser σ → Parser τ → Prop) (AtSemicolon size) where
  peek h := h.peek.imp id fun hstop => ⟨by rw [hstop.1]; rfl, by rw [hstop.2]; rfl⟩
  advance h _ := h.stand.alongside.mono (Nat.sub_le size 1)
  leave h hpeek _ := ⟨h.stand.alongside.mono (Nat.sub_le size 1), h.peek.resolve_left hpeek⟩
  ended_isStop h := ⟨by rw [h.2.1]; rfl, by rw [h.2.2]; rfl⟩
  lost_of_astray h := h
  unreadable h literal := .inl (h.report (.inl rfl))
  reportPeek h kind := by
    refine .inl (h.report ?_)
    rcases h.peek with hpeek | ⟨hp, hq⟩
    · exact .inl (by rw [hpeek])
    · exact .inr ⟨kind, by rw [hp], by rw [hq]⟩
  beginStatement h := h.beginStatement
  ended_beginStatement h := ⟨h.1.beginStatement, h.2⟩

/-! ## Loops that are one round apart -/

/-- No statement is read where no expression is. -/
theorem Grammar.statement_meets_nothing {nested : Int → Rule σ Node}
    (h : ∀ floor parser, nested floor parser = .exhausted) (parser : Parser σ) :
    (statement nested parser).Meets True (fun _ => True) fun _ _ => False := by
  have hbind {α β : Type} {rule : Rule σ α} {next : α → Rule σ β} {parser : Parser σ}
      (hnext : ∀ value parser, (next value parser).Meets True (fun _ => True) fun _ _ => False) :
      ((rule >>= next) parser).Meets True (fun _ => True) fun _ _ => False := by
    rw [Rule.bind_apply]
    split
    · exact hnext _ _
    · trivial
    · trivial
  have hending (floor : Int) {next : Node → Rule σ Node} (parser : Parser σ) :
      ((nested floor >>= next) parser).Meets True (fun _ => True) fun _ _ => False := by
    rw [Rule.bind_apply, h]
    trivial
  unfold statement
  dsimp only
  split
  · exact hbind fun _ _ => hbind fun _ _ => hbind fun _ _ => hbind fun _ parser => hending _ parser
  · exact hbind fun _ parser => hending _ parser
  · exact hending _ _

/-- A loop at an illegal token drops it in a round of its own. -/
theorem Grammar.statementsUntil_of_illegal {nested : Int → Rule σ Node} {closes : Kind → Bool}
    (hrefuses : ∀ floor (parser : Parser σ), parser.current.kind.isStop = true →
      nested floor parser = .abandoned parser)
    (hillegal : closes .illegal = false) {parser : Parser σ} (h : parser.current.kind = .illegal)
    (rounds : Nat) (read : Array Node) :
    statementsUntil nested closes (rounds + 1) read parser =
      statementsUntil nested closes rounds read parser.beginStatement.advance := by
  rw [statementsUntil_of_open read (by rw [h, hillegal]),
    statement_refuses hrefuses (by rw [h]; rfl)]

section Loops

variable {nested : Int → Rule σ Node} {nested' : Int → Rule τ Node} {closes : Kind → Bool}

/-- Sequences of statements are read alike by loops whose rounds are enough for the tokens, also
where the second loop takes a round more for each illegal token that it drops. -/
theorem StandAlongside.statementsUntil_agrees {fault : Parser σ → Parser τ → Prop}
    (hend : closes .eof = true) (hsemicolon : closes .semicolon = false)
    (hillegal : closes .illegal = false)
    (hrefuses : (∀ floor parser, nested floor parser = .exhausted) ∨
      ∀ floor (parser : Parser τ), parser.current.kind.isStop = true →
        nested' floor parser = .abandoned parser)
    {size : Nat} (hnested : ∀ smaller < size,
      NestedAgrees (Alongside smaller) (AtSemicolon smaller) nested nested')
    {p : Parser σ} {q : Parser τ} (h : StandAlongside size p q) {rounds rounds' : Nat}
    (hrounds : size < rounds) (hrounds' : size < rounds') (read : Array Node) :
    (Grammar.statementsUntil nested closes rounds read p).Agrees fault
      (Level (Alongside (size - 1)))
      (Grammar.statementsUntil nested' closes rounds' read q) := by
  induction size using Nat.strongRecOn generalizing p q rounds rounds' read with
  | ind size ih =>
    obtain ⟨rounds, rfl⟩ := Nat.exists_eq_succ_of_ne_zero (Nat.ne_zero_of_lt hrounds)
    obtain ⟨rounds', rfl⟩ := Nat.exists_eq_succ_of_ne_zero (Nat.ne_zero_of_lt hrounds')
    cases hclose : closes p.current.kind with
    | true =>
      have hcurrent : q.current = p.current :=
        h.current.resolve_right fun hstop => by
          rw [hstop.1, hsemicolon] at hclose
          exact nomatch hclose
      rw [Grammar.statementsUntil_of_closes read hclose,
        Grammar.statementsUntil_of_closes read (hcurrent ▸ hclose)]
      exact .done _ ⟨h.alongside, hcurrent⟩
    | false =>
      have hclose' : closes q.current.kind = false :=
        (h.closes_eq hsemicolon hillegal).trans hclose
      have hopen : p.current.kind ≠ .eof := by
        intro heof
        rw [heof, hend] at hclose
        exact nomatch hclose
      obtain ⟨size, rfl⟩ := Nat.exists_eq_succ_of_ne_zero (Nat.ne_of_gt (h.pos hopen))
      rw [Grammar.statementsUntil_of_open read hclose, Grammar.statementsUntil_of_open read hclose']
      have hstatement := Grammar.statement_agrees (Alongside.abreast size)
        (hnested size (Nat.lt_succ_self size)) h.standing
      have hagain {smaller : Nat} (hsmaller : smaller ≤ size) {p : Parser σ} {q : Parser τ}
          (h : StandAlongside smaller p q) {rounds rounds' : Nat} (hrounds : smaller < rounds)
          (hrounds' : smaller < rounds') (read : Array Node) :
          (Grammar.statementsUntil nested closes rounds read p).Agrees fault
            (Level (Alongside size)) (Grammar.statementsUntil nested' closes rounds' read q) :=
        (ih smaller (Nat.lt_succ_of_le hsmaller)
          (fun less hless => hnested less (Nat.lt_trans hless (Nat.lt_succ_of_le hsmaller)))
          h hrounds hrounds' read).mono (fun _ _ hfault => hfault)
          fun _ _ hlevel => ⟨hlevel.1.mono (by omega), hlevel.2⟩
      have hless : size < rounds := Nat.lt_of_succ_lt_succ hrounds
      have hless' : size < rounds' := Nat.lt_of_succ_lt_succ hrounds'
      generalize hread : Grammar.statement nested p = left,
        Grammar.statement nested' q = right at hstatement
      cases hstatement with
      | exhausted => exact .exhausted
      | abandoned hastray =>
        have halongside : Alongside size _ _ := hastray.elim id And.left
        exact hagain (Nat.le_refl size) halongside.stand hless hless' read
      | done node hsettled =>
        rcases hsettled with halongside | ⟨before, before', hbefore, hpeek, rfl, rfl⟩
        · exact hagain (Nat.le_refl size) halongside.stand hless hless' (read.push node)
        · -- the first parser took the semicolon, and the second one still faces the illegal token
          obtain ⟨hp, hq⟩ := hbefore.peek.resolve_left hpeek
          have hrefuses' := hrefuses.resolve_left fun hexhausted => by
            have hnothing := Grammar.statement_meets_nothing hexhausted p
            rw [hread] at hnothing
            exact hnothing
          obtain ⟨hstays, size, rfl, hstand⟩ := hbefore.catchUp hp hq
          obtain ⟨rounds', rfl⟩ := Nat.exists_eq_succ_of_ne_zero (Nat.ne_zero_of_lt hless')
          dsimp only
          rw [hstays, Grammar.statementsUntil_of_illegal hrefuses' hillegal hq]
          exact hagain (Nat.le_succ size) hstand (Nat.lt_of_succ_lt hless)
            (Nat.lt_of_succ_lt_succ hless') (read.push node)

end Loops

/-! ## Expressions and programs -/

/-- Blocks are read alike. -/
theorem Alongside.block_agrees {nested : Int → Rule σ Node} {nested' : Int → Rule τ Node}
    (hrefuses : (∀ floor parser, nested floor parser = .exhausted) ∨
      ∀ floor (parser : Parser τ), parser.current.kind.isStop = true →
        nested' floor parser = .abandoned parser)
    {steps : Nat} (hnested : ∀ size < steps,
      NestedAgrees (Alongside size) (AtSemicolon size) nested nested')
    {size : Nat} (hsize : size < steps) :
    BlocksAgree (Alongside size : Parser σ → Parser τ → Prop) (AtSemicolon size) steps nested
      nested' := by
  intro p q h _
  unfold Grammar.block
  rw [Rule.advance_bind_apply, Rule.advance_bind_apply]
  refine Agrees.bind (h.1.stand.statementsUntil_agrees rfl rfl rfl hrefuses
    (fun smaller hsmaller => hnested smaller (Nat.lt_trans hsmaller hsize)) hsize hsize #[])
    fun statements p q hlevel => ?_
  exact .done _ (hlevel.1.mono (Nat.sub_le size 1))

/-- Either every expression is cut short or none is read at a token at which phrases stop. -/
theorem Grammar.expressionWithin_refuses (steps nesting : Nat) :
    (∀ floor (parser : Parser σ), expressionWithin steps nesting floor parser = .exhausted) ∨
      ∀ floor (parser : Parser τ), parser.current.kind.isStop = true →
        expressionWithin steps nesting floor parser = .abandoned parser := by
  cases nesting with
  | zero => exact .inl fun _ _ => rfl
  | succ nesting => exact .inr fun _ _ => expressionWithin_of_isStop

/-- Expressions are read alike, by loops whose rounds are enough for the tokens. -/
theorem Alongside.expressionWithin_agrees (steps nesting : Nat) {size : Nat}
    (hsize : size < steps) :
    NestedAgrees (Alongside size : Parser σ → Parser τ → Prop) (AtSemicolon size)
      (Grammar.expressionWithin steps nesting) (Grammar.expressionWithin steps nesting) := by
  induction nesting generalizing size with
  | zero => exact fun _ _ _ _ => .exhausted
  | succ nesting ih =>
    intro floor p q h
    have hblocks := Alongside.block_agrees (Grammar.expressionWithin_refuses steps nesting)
      (fun size hsize => ih hsize) hsize
    exact Agrees.bind (Grammar.operand_agrees (abreast size) (ih hsize) hblocks h)
      fun left p q h => Grammar.climb_agrees (abreast size) (ih hsize) floor steps left h

/-- Programs are read alike. -/
theorem StandAlongside.program_agrees (steps nesting : Nat) {size : Nat} (hsize : size < steps)
    {p : Parser σ} {q : Parser τ} (h : StandAlongside size p q) :
    (Grammar.program steps (Grammar.expressionWithin steps nesting) p).Agrees
      (fun _ _ => False) (Alongside size)
      (Grammar.program steps (Grammar.expressionWithin steps nesting) q) := by
  refine Agrees.bind (h.statementsUntil_agrees rfl rfl rfl
    (Grammar.expressionWithin_refuses steps nesting)
    (fun smaller hsmaller => Alongside.expressionWithin_agrees steps nesting
      (Nat.lt_trans hsmaller hsize)) hsize hsize #[]) fun statements p q hlevel => ?_
  exact .done _ (hlevel.1.mono (Nat.sub_le size 1))

end Parsers

/-! ## Texts -/

/-- The second message is the first one, or tells of an illegal token in place of a semicolon. -/
def InterchangedMessage (message message' : String) : Prop :=
  message' = message ∨ ∃ start, message = start ++ ", got SemiColon instead" ∧
    message' = start ++ ", got Illegal instead"

/-- The messages of interchanged faults are interchanged. -/
theorem Diagnostic.Interchanged.message {fault fault' : Diagnostic}
    (h : fault.Interchanged fault') : InterchangedMessage fault.message fault'.message := by
  have hassoc (first second third fourth fifth : String) :
      first ++ second ++ third ++ fourth ++ fifth =
        first ++ second ++ (third ++ fourth ++ fifth) := by
    simp only [String.append_assoc]
  have hmessage (expected found : Kind) : (unexpected expected found).message =
      "expected next token to be " ++ expected.name ++ (", got " ++ found.name ++ " instead") :=
    hassoc _ _ _ _ _
  have hsemicolon : ", got " ++ Kind.semicolon.name ++ " instead" = ", got SemiColon instead" := by
    decide
  have hillegal : ", got " ++ Kind.illegal.name ++ " instead" = ", got Illegal instead" := by
    decide
  rcases h with rfl | ⟨expected, rfl, rfl⟩
  · exact .inl rfl
  · exact .inr ⟨_, (hmessage expected .semicolon).trans (congrArg _ hsemicolon),
      (hmessage expected .illegal).trans (congrArg _ hillegal)⟩

/-- In a text with illegal characters in place of semicolons there are the same statements, and the
same faults at the same places, except that a fault about a semicolon is one about an illegal token
where that stands in its place. -/
theorem parse_interchanged {text other : String} (h : Interchanged text.toList other.toList) :
    (parse other).program = (parse text).program ∧
      List.Forall₂ Diagnostic.Interchanged (parse text).errors (parse other).errors ∧
      List.Forall₂ InterchangedMessage ((parse text).errors.map Diagnostic.message)
        ((parse other).errors.map Diagnostic.message) := by
  have hstand : StandAlongside (tokenize text.toList).length (Parser.start (⟨text.toList⟩ : Lexer))
      (Parser.start (⟨other.toList⟩ : Lexer)) :=
    ⟨_, _, start_lexer_standsAt text.toList, start_lexer_standsAt other.toList, h.tokenize,
      Nat.le_refl _, .nil⟩
  have hlimit : (tokenize text.toList).length < (tokenize text.toList).length + 1 :=
    Nat.lt_succ_self _
  obtain ⟨statements, last, hlast, -⟩ :=
    Grammar.exists_program (start_lexer_standsAt text.toList) hlimit hlimit
  have hagrees := hstand.program_agrees _ ((tokenize text.toList).length + 1) hlimit
  rw [hlast] at hagrees
  generalize houtcome : Grammar.program _ _ (Parser.start (⟨other.toList⟩ : Lexer)) = outcome
    at hagrees
  cases hagrees with
  | done _ halongside =>
    obtain ⟨-, -, -, -, -, -, herrors⟩ := halongside
    rw [parse_of_program hlast, parse_of_program houtcome]
    refine ⟨rfl, herrors, ?_⟩
    rw [List.forall₂_map_left_iff, List.forall₂_map_right_iff]
    exact herrors.imp fun _ _ hfault => hfault.message

/-- Illegal characters after a statement of a block, at the end of a list of arguments that is not
closed, between statements and after `let`. -/
theorem parse_interchanged_faulty :
    (parse "fn() \x7b a@ f(b # c §? \x7d; let €").program =
        (parse "fn() \x7b a; f(b ; c ;; \x7d; let ;").program ∧
      (parse "fn() \x7b a; f(b ; c ;; \x7d; let ;").errors =
        [.unexpected .rparen .semicolon, .unexpected .ident .semicolon] ∧
      (parse "fn() \x7b a@ f(b # c §? \x7d; let €").errors =
        [.unexpected .rparen .illegal, .unexpected .ident .illegal] := by
  obtain ⟨hprogram, -, -⟩ := @parse_interchanged "fn() \x7b a; f(b ; c ;; \x7d; let ;"
    "fn() \x7b a@ f(b # c §? \x7d; let €" (by unfold Interchanged; decide +kernel)
  exact ⟨hprogram, by decide +kernel, by decide +kernel⟩

end ExprLang
