import ExprLang.Proofs.Decomposition
import ExprLang.Proofs.Result
import ExprLang.Proofs.Sequence

/-!
# Texts cut at a semicolon

A parser over the first part of a text and one over the whole of it go side by side up to the place
of the cut. There the first one finds the end and the second one a token at which every phrase stops
as well, so both leave what they are reading, and the second one only has another kind to report.
If that token is a semicolon and the first part opens no brace, the second parser passes it within
one round of the loop over statements and goes on as one over the rest of the text.
-/

namespace ExprLang

open Grammar Outcome

/-- A fault with the kind `kind` in place of the end. -/
def Diagnostic.insteadOfEnd (kind : Kind) : Diagnostic → Diagnostic
  | .unexpected expected .eof => .unexpected expected kind
  | fault => fault

/-- A fault about another token than the end stays. -/
theorem Diagnostic.insteadOfEnd_of_ne {expected found : Kind} (h : found ≠ .eof) (kind : Kind) :
    (Diagnostic.unexpected expected found).insteadOfEnd kind = .unexpected expected found := by
  cases found <;> first | rfl | exact absurd rfl h

variable {σ τ : Type} [LawfulSource σ] [LawfulSource τ]

/-- The first parser stands at `ahead`, and the second one at `ahead` with `stop` and `tail` after
it; they reported the same, but for the end. What is ahead is as `keeps` says. -/
structure Cut (keeps : List Token → Prop) (stop : Token) (tail ahead : List Token) (p : Parser σ)
    (q : Parser τ) : Prop where
  left : p.StandsAt ahead
  right : q.StandsAt (ahead ++ stop :: tail)
  kept : keeps ahead
  errors : q.errors = p.errors.map (Diagnostic.insteadOfEnd stop.kind)

/-- The parsers stand at a token before the cut. -/
def BeforeCut (keeps : List Token → Prop) (stop : Token) (tail : List Token) (p : Parser σ)
    (q : Parser τ) : Prop :=
  ∃ token rest, Cut keeps stop tail (token :: rest) p q

namespace Cut

variable {keeps : List Token → Prop} {stop token : Token} {tail ahead rest : List Token}
  {p : Parser σ} {q : Parser τ}

/-- Parsers before the cut examine the same token. -/
theorem current_eq (h : Cut keeps stop tail (token :: rest) p q) : q.current = p.current :=
  h.right.current_eq.trans h.left.current_eq.symm

/-- Directly before the cut the first parser faces the end and the second one `stop`. -/
theorem peek_of_last (h : Cut keeps stop tail [token] p q) :
    p.peek.kind = .eof ∧ q.peek.kind = stop.kind :=
  ⟨h.left.faces.peek_kind, h.right.faces.peek_kind⟩

/-- Further before the cut the parsers face the same token, which is not the end. -/
theorem peek_of_cons {next : Token} (h : Cut keeps stop tail (token :: next :: rest) p q) :
    q.peek = p.peek ∧ p.peek.kind ≠ .eof := by
  refine ⟨h.right.faces.peek.trans h.left.faces.peek.symm, ?_⟩
  rw [h.left.faces.peek_kind]
  exact h.left.faces.proper next List.mem_cons_self

/-- The token at the cut is not the end. -/
theorem stop_ne_eof (h : Cut keeps stop tail ahead p q) : stop.kind ≠ .eof :=
  h.right.proper stop (List.mem_append_right _ List.mem_cons_self)

/-- Parsers before the cut move on together. -/
theorem advance (hkeeps : ∀ {token rest}, keeps (token :: rest) → keeps rest)
    (h : Cut keeps stop tail (token :: rest) p q) : Cut keeps stop tail rest p.advance q.advance :=
  ⟨h.left.faces.advance, h.right.faces.advance, hkeeps h.kept, h.errors⟩

/-- Parsers that report the same, but for the end, stay where they are. -/
theorem report (h : Cut keeps stop tail ahead p q) {fault fault' : Diagnostic}
    (hfault : fault.insteadOfEnd stop.kind = fault') :
    Cut keeps stop tail ahead (p.report fault) (q.report fault') where
  left := ⟨h.left.current, h.left.faces.report fault, h.left.proper⟩
  right := ⟨h.right.current, h.right.faces.report fault', h.right.proper⟩
  kept := h.kept
  errors := by
    change q.errors.push fault' = (p.errors.push fault).map _
    rw [h.errors, Array.map_push, hfault]

/-- Parsers that begin a statement stay where they are. -/
theorem beginStatement (h : Cut keeps stop tail ahead p q) :
    Cut keeps stop tail ahead p.beginStatement q.beginStatement :=
  ⟨h.left.beginStatement, h.right.beginStatement, h.kept, h.errors⟩

/-- At the cut the first parser is at its end. -/
theorem nil_of_current (h : Cut keeps stop tail ahead p q) (hend : p.current.kind = .eof) :
    ahead = [] :=
  h.left.eq_nil (h.left.current_kind.symm.trans hend)

/-- Before the cut parsers are side by side, if leaving the place before the cut for an operand
leads to where `ended` says. -/
theorem abreast {ended : Parser σ → Parser τ → Prop} (hstop : stop.kind.isStop = true)
    (hkeeps : ∀ {token rest}, keeps (token :: rest) → keeps rest)
    (hended : ∀ {p q}, ended p q → Cut keeps stop tail [] p q)
    (hbegin : ∀ {p q}, ended p q → ended p.beginStatement q.beginStatement)
    (hleave : ∀ {token p q}, Cut keeps stop tail [token] p q → token.kind.wantsOperand = true →
      ended p.advance q.advance) :
    Abreast (BeforeCut keeps stop tail : Parser σ → Parser τ → Prop) ended where
  peek h := by
    obtain ⟨token, rest, h⟩ := h
    cases rest with
    | nil =>
      obtain ⟨hp, hq⟩ := h.peek_of_last
      exact .inr ⟨by rw [hp]; rfl, by rw [hq]; exact hstop⟩
    | cons next rest => exact .inl h.peek_of_cons.1
  advance h hpeek := by
    obtain ⟨token, rest, h⟩ := h
    cases rest with
    | nil =>
      obtain ⟨hp, hq⟩ := h.peek_of_last
      rw [hpeek, hp] at hq
      exact absurd hq.symm h.stop_ne_eof
    | cons next rest => exact ⟨next, rest, h.advance hkeeps⟩
  leave h hpeek hwants := by
    obtain ⟨token, rest, h⟩ := h
    cases rest with
    | nil => exact hleave h (h.left.current_eq ▸ hwants)
    | cons next rest => exact absurd h.peek_of_cons.1 hpeek
  ended_isStop h := by
    have hcut := hended h
    rw [hcut.left.current_kind, hcut.right.current_kind]
    exact ⟨rfl, hstop⟩
  lost_of_astray h := h
  unreadable h literal := by
    obtain ⟨token, rest, h⟩ := h
    exact .inl ⟨token, rest, h.report rfl⟩
  reportPeek h kind := by
    obtain ⟨token, rest, h⟩ := h
    refine .inl ⟨token, rest, h.report ?_⟩
    cases rest with
    | nil =>
      obtain ⟨hp, hq⟩ := h.peek_of_last
      rw [hp, hq]
      rfl
    | cons next rest =>
      obtain ⟨hpeek, hproper⟩ := h.peek_of_cons
      rw [hpeek]
      exact Diagnostic.insteadOfEnd_of_ne hproper _
  beginStatement h := by
    obtain ⟨token, rest, h⟩ := h
    exact ⟨token, rest, h.beginStatement⟩
  ended_beginStatement h := hbegin h

/-- Before the cut expressions are read alike, if no brace is opened there. -/
theorem expressionWithin_agrees {ended : Parser σ → Parser τ → Prop}
    (hab : Abreast (BeforeCut keeps stop tail : Parser σ → Parser τ → Prop) ended)
    (hplain : ∀ {token rest}, keeps (token :: rest) → token.kind ≠ .lbrace) (steps nesting : Nat) :
    NestedAgrees (BeforeCut keeps stop tail : Parser σ → Parser τ → Prop) ended
      (expressionWithin steps nesting) (expressionWithin steps nesting) := by
  refine Grammar.expressionWithin_agrees hab nesting fun _ p q h hbrace => ?_
  obtain ⟨⟨token, rest, h⟩, -⟩ := h
  exact absurd (h.left.current_eq ▸ hbrace) (hplain h.kept)

end Cut

/-! ## Past a semicolon -/

section Semicolon

variable {keeps : List Token → Prop} {stop token : Token} {tail ahead rest : List Token}
  {p p' : Parser σ} {q : Parser τ}

/-- The first parser is at its end, and the second one is past the cut. -/
structure Crossed (stop : Token) (tail : List Token) (p : Parser σ) (q : Parser τ) : Prop where
  left : p.StandsAt []
  right : q.StandsAt tail
  errors : q.errors = p.errors.map (Diagnostic.insteadOfEnd stop.kind)

/-- Parsers that move on from the cut cross it. -/
theorem Cut.crossed (h : Cut keeps stop tail [] p q) : Crossed stop tail p.advance q.advance :=
  ⟨h.left.faces.advance, h.right.faces.advance, h.errors⟩

/-- Where parsers are that move on after a statement, given up or not: still before the cut, at it,
or past it. -/
def PastStatement (keeps : List Token → Prop) (stop : Token) (tail : List Token) (p : Parser σ)
    (q : Parser τ) : Prop :=
  (∃ ahead, Cut keeps stop tail ahead p q) ∨ Crossed stop tail p q

/-- After a statement that is given up parsers are at the cut at the latest. -/
theorem pastStatement_of_astray (hkeeps : ∀ {token rest}, keeps (token :: rest) → keeps rest)
    (h : Astray (BeforeCut keeps stop tail) (Cut keeps stop tail []) p q) :
    PastStatement keeps stop tail p.advance q.advance := by
  rcases h with ⟨token, rest, h⟩ | h
  · exact .inl ⟨rest, h.advance hkeeps⟩
  · exact .inr h.crossed

/-- After a statement that is read the second parser may have taken the semicolon at the cut. -/
theorem pastStatement_of_settled (hsemicolon : stop.kind = .semicolon)
    (hkeeps : ∀ {token rest}, keeps (token :: rest) → keeps rest)
    (h : Settled (BeforeCut keeps stop tail) p q) :
    PastStatement keeps stop tail p.advance q.advance := by
  rcases h with ⟨token, rest, h⟩ | ⟨before, before', ⟨token, rest, h⟩, hpeek, rfl, rfl⟩
  · exact .inl ⟨rest, h.advance hkeeps⟩
  · cases rest with
    | cons next rest => exact absurd h.peek_of_cons.1 hpeek
    | nil =>
      obtain ⟨hp, hq⟩ := h.peek_of_last
      rw [Parser.pastSemicolon, Parser.pastSemicolon, if_neg (by rw [hp]; decide),
        if_pos (hq.trans hsemicolon)]
      have hend := h.advance hkeeps
      exact .inr ⟨hend.left, hend.right.faces.advance, hend.errors⟩

/-- Where the first parser is not at its end both are before the cut. -/
theorem PastStatement.level (h : PastStatement keeps stop tail p q)
    (hopen : (p.current.kind == .eof) = false) : Level (BeforeCut keeps stop tail) p q := by
  have hproper : p.current.kind ≠ .eof := ne_of_beq_false hopen
  rcases h with ⟨_ | ⟨token, rest⟩, h⟩ | h
  · exact absurd h.left.current_kind hproper
  · exact ⟨⟨token, rest, h⟩, h.current_eq⟩
  · exact absurd h.left.current_kind hproper

/-- Statements before the cut end alike, and the parsers move on from them to where both may be. -/
theorem statement_pastStatement {nested : Int → Rule σ Node} {nested' : Int → Rule τ Node}
    (hab : Abreast (BeforeCut keeps stop tail : Parser σ → Parser τ → Prop)
      (Cut keeps stop tail []))
    (hnested : NestedAgrees (BeforeCut keeps stop tail) (Cut keeps stop tail []) nested nested')
    (hsemicolon : stop.kind = .semicolon)
    (hkeeps : ∀ {token rest}, keeps (token :: rest) → keeps rest)
    (h : PastStatement keeps stop tail p q) (hopen : (p.current.kind == .eof) = false) :
    (q.current.kind == .eof) = false ∧ (statement nested p).Agrees
      (fun p q => PastStatement keeps stop tail p.advance q.advance)
      (fun p q => PastStatement keeps stop tail p.advance q.advance) (statement nested' q) := by
  have hlevel := h.level hopen
  refine ⟨hlevel.2 ▸ hopen, (statement_agrees hab hnested (.inl hlevel)).mono ?_ ?_⟩
  · exact fun _ _ => pastStatement_of_astray hkeeps
  · exact fun _ _ => pastStatement_of_settled hsemicolon hkeeps

/-- A loop over statements before the cut is carried on by one over the tokens after it, if the
token at the cut is a semicolon. -/
theorem exists_crossed {nested : Int → Rule σ Node} {nested' : Int → Rule τ Node}
    (hab : Abreast (BeforeCut keeps stop tail : Parser σ → Parser τ → Prop)
      (Cut keeps stop tail []))
    (hnested : NestedAgrees (BeforeCut keeps stop tail) (Cut keeps stop tail []) nested nested')
    (hrefuses : ∀ floor (parser : Parser τ), parser.current.kind.isStop = true →
      nested' floor parser = .abandoned parser)
    (hsemicolon : stop.kind = .semicolon)
    (hkeeps : ∀ {token rest}, keeps (token :: rest) → keeps rest) {nodes : List Node}
    (h : Collects nested (· == .eof) p nodes p') (hpast : PastStatement keeps stop tail p q) :
    ∃ q', Crossed stop tail p' q' ∧ ∀ more last, Collects nested' (· == .eof) q' more last →
      Collects nested' (· == .eof) q (nodes ++ more) last := by
  obtain ⟨q', hend, hclose, hmore⟩ := h.followed nested' (· == .eof)
    (statement_pastStatement hab hnested hsemicolon hkeeps) hpast
  rcases hend with ⟨ahead, h⟩ | h
  · obtain rfl := h.nil_of_current (eq_of_beq hclose)
    -- the statement at the semicolon is given up without moving on
    have hstop : q'.current.kind = .semicolon := h.right.current_kind.trans hsemicolon
    have hgiven : statement nested' q' = .abandoned q'.beginStatement :=
      statement_refuses hrefuses (by rw [hstop]; rfl)
    refine ⟨q'.beginStatement.advance, ⟨h.left, h.right.beginStatement.faces.advance, h.errors⟩,
      fun more last hrest => hmore more last (.drop ?_ hgiven hrest)⟩
    rw [hstop]
    rfl
  · exact ⟨q', h, hmore⟩

end Semicolon

/-- No brace is opened by the tokens. -/
def Unbraced (tokens : List Token) : Prop :=
  ∀ token ∈ tokens, token.kind ≠ .lbrace

/-- After the first token no brace is opened either. -/
theorem Unbraced.tail {token : Token} {rest : List Token} (h : Unbraced (token :: rest)) :
    Unbraced rest :=
  fun other hmem => h other (List.mem_cons_of_mem token hmem)

/-- The tokens of a text without opening braces open none. -/
theorem unbraced_tokenize {text : String} (h : '\x7b' ∉ text.toList) :
    Unbraced (tokenize text.toList) := by
  intro token hmem hbrace
  have hsymbol : ("\x7b", token.kind) ∈ Kind.symbols := by
    rw [hbrace]
    decide
  exact h (mem_of_symbol hmem hsymbol List.mem_cons_self)

/-- The tokens of two texts with a semicolon between them. -/
theorem tokenize_append_semicolon (first second : String) :
    tokenize (first ++ ";" ++ second).toList =
      tokenize first.toList ++ ⟨.semicolon, ";"⟩ :: tokenize second.toList := by
  have hsymbol : (";", Kind.semicolon) ∈ Kind.symbols := by decide
  have hlexes := lexes_append_symbol first hsymbol (by decide) ⟨';', [], rfl, by decide⟩
  rw [String.toList_append, hlexes second.toList fun _ _ => trivial, List.append_assoc]
  rfl

/-- A semicolon isolates what is before it from what is after it, if no brace is opened before it:
the statements are those of both parts, and so are the faults, except that those at the end of the
first part are at the semicolon. -/
theorem parse_append_semicolon {first second : String} (hplain : '\x7b' ∉ first.toList) :
    parse (first ++ ";" ++ second) =
      ⟨.program ((parse first).program.statements ++ (parse second).program.statements),
        (parse first).errors.map (Diagnostic.insteadOfEnd .semicolon) ++
          (parse second).errors⟩ := by
  have hlength := length_tokenize_le (first ++ ";" ++ second).toList
  have hstand := start_lexer_standsAt (first ++ ";" ++ second).toList
  rw [tokenize_append_semicolon] at hlength hstand
  generalize (first ++ ";" ++ second).toList.length = size at hlength
  have hwhole : (tokenize first.toList ++
      ⟨.semicolon, ";"⟩ :: tokenize second.toList).length < size + 1 := Nat.lt_succ_of_le hlength
  rw [List.length_append, List.length_cons] at hlength
  have hfirst : (tokenize first.toList).length < size + 1 := by omega
  have hsecond : (tokenize second.toList).length < size + 1 := by omega
  -- the run over the first part goes on past the semicolon in the run over the whole
  obtain ⟨statements, p', hdone, -⟩ :=
    exists_program (start_lexer_standsAt first.toList) hfirst hfirst
  have hcut : Cut Unbraced ⟨.semicolon, ";"⟩ (tokenize second.toList) (tokenize first.toList)
      (Parser.start (⟨first.toList⟩ : Lexer))
      (Parser.start (⟨(first ++ ";" ++ second).toList⟩ : Lexer)) :=
    ⟨start_lexer_standsAt first.toList, hstand, unbraced_tokenize hplain, by
      rw [Parser.start_errors, Parser.start_errors, Array.map_empty]⟩
  have hab : Abreast (BeforeCut Unbraced ⟨.semicolon, ";"⟩ (tokenize second.toList) :
      Parser Lexer → Parser Lexer → Prop) (Cut Unbraced ⟨.semicolon, ";"⟩ _ []) :=
    Cut.abreast rfl Unbraced.tail id Cut.beginStatement fun h _ => h.advance Unbraced.tail
  obtain ⟨q', hcrossed, hmore⟩ := exists_crossed hab
    (Cut.expressionWithin_agrees hab (fun h => h _ List.mem_cons_self) (size + 1) (size + 1))
    (fun _ _ => expressionWithin_of_isStop) rfl Unbraced.tail (collects_of_program hdone)
    (.inl ⟨_, hcut⟩)
  -- there it reads what is read of the second part alone
  obtain ⟨more, last, hrest, -⟩ := exists_program hcrossed.right hsecond hsecond
  obtain ⟨hprogram, herrors⟩ := parse_of_standsAt hcrossed.right hrest
  obtain ⟨_, _, hall, -⟩ := exists_program hstand hwhole hwhole
  have hread := (hmore more last (collects_of_program hrest)).program_eq
    (by rw [hall]; exact fun h => nomatch h)
  rw [parse_of_program hread, parse_of_program hdone, ← hprogram, herrors, hcrossed.errors,
    Array.toList_map]
  rfl

/-- A `let` that is given up, a condition that is cut off, and a function without parameters after
the semicolon. -/
theorem parse_append_semicolon_faulty :
    parse "let x 5 if (y" = ⟨.program [.expressionStatement (.integer 5)],
        [.unexpected .assign .int, .unexpected .rparen .eof]⟩ ∧
      parse "fn z" = ⟨.program [.expressionStatement (.identifier "z")],
        [.unexpected .lparen .ident]⟩ ∧
      parse ("let x 5 if (y" ++ ";" ++ "fn z") = ⟨.program
          [.expressionStatement (.integer 5), .expressionStatement (.identifier "z")],
        [.unexpected .assign .int, .unexpected .rparen .semicolon,
          .unexpected .lparen .ident]⟩ := by
  have hfirst : parse "let x 5 if (y" = _ := (@eq_parse 30 _ _ rfl).symm
  have hsecond : parse "fn z" = _ := (@eq_parse 30 _ _ rfl).symm
  refine ⟨hfirst, hsecond, (parse_append_semicolon (by decide)).trans ?_⟩
  rw [hfirst, hsecond]
  rfl

end ExprLang
