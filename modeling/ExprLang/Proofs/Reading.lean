import ExprLang.Proofs.Completeness
import ExprLang.Proofs.Limits
import ExprLang.Proofs.Soundness
import ExprLang.Proofs.WellFormed

/-!
# Reading a whole text

A text of any kind is read to its end once the limit on the nesting exceeds its length. Whatever
tree comes out, with faults reported or without, each of its statements is found in a contiguous
part of the tokens, these parts follow one another in the order of the statements, and the tree is
well formed. A text in the exact grammar is read without a fault, as the tree it has there.
-/

namespace ExprLang

open Phrase

/-- A new parser stands at the tokens of its text. -/
theorem start_lexer_standsAt (text : List Char) :
    (Parser.start (⟨text⟩ : Lexer)).StandsAt (tokenize text) :=
  Parser.start_standsAt fun _ hmem => kind_ne_eof_of_mem_tokenize hmem

/-- The program that is read within a limit on the nesting, and when there is one for certain. -/
theorem program_forText_meets (nesting : Nat) (text : List Char) :
    (Grammar.program (Limits.forText nesting text).rounds (Limits.forText nesting text).expression
      (Parser.start (⟨text⟩ : Lexer))).Meets (nesting ≤ text.length) (fun _ => False) fun node _ =>
        ∃ statements, node = .program statements ∧ Body .lenient (tokenize text) [] statements := by
  refine (Grammar.program_meets (text.length + 2) nesting (start_lexer_standsAt text)).mono ?_
    (fun _ h => h) fun _ _ h => h
  have hlength := length_tokenize_le text
  omega

/-- A limit on the nesting that exceeds the length of a text suffices for it. -/
theorem isSome_parseWithin {nesting : Nat} {text : String} (h : text.length < nesting) :
    (parseWithin nesting text).isSome = true := by
  have hmeets := program_forText_meets nesting text.toList
  unfold parseWithin
  dsimp only
  split
  · rfl
  · rename_i houtcome
    rw [houtcome] at hmeets
    exact hmeets.elim
  · rename_i houtcome
    rw [houtcome] at hmeets
    have hle : nesting ≤ text.toList.length := hmeets
    rw [String.length_toList] at hle
    exact absurd h (Nat.not_lt.mpr hle)

/-- What is read from a text within a limit on the nesting is read within every wider one. -/
theorem parseWithin_of_le {narrow wide : Nat} {text : String} {parsed : Parsed}
    (h : parseWithin narrow text = some parsed) (hle : narrow ≤ wide) :
    parseWithin wide text = some parsed := by
  have hextended := Grammar.program_extended (Nat.le_refl (text.toList.length + 2)) (.inr trivial)
    hle (.inr trivial) (start_lexer_standsAt text.toList) (Nat.le_refl _)
  unfold parseWithin at h ⊢
  dsimp only [Limits.forText, Limits.expression] at h ⊢
  split at h
  · rename_i houtcome
    rw [houtcome] at hextended
    rw [hextended.of_done]
    exact h
  · exact nomatch h
  · exact nomatch h

/-- The statements of a tree that is read are in the tokens of the text. -/
theorem body_of_parseWithin {nesting : Nat} {text : String} {parsed : Parsed}
    (h : parseWithin nesting text = some parsed) :
    ∃ statements, parsed.program = .program statements ∧
      Body .lenient (tokenize text.toList) [] statements := by
  have hmeets := program_forText_meets nesting text.toList
  unfold parseWithin at h
  dsimp only at h
  split at h
  · rename_i program parser houtcome
    rw [houtcome] at hmeets
    obtain rfl := Option.some.inj h
    exact hmeets
  · exact nomatch h
  · exact nomatch h

/-! ## Where the statements are -/

/-- A contiguous part of the tokens of a text, from the place `start` up to the place `stop`, that
forms a statement. -/
structure Segment (tokens : List Token) where
  start : Nat
  stop : Nat
  statement : Node
  start_lt_stop : start < stop
  stop_le_length : stop ≤ tokens.length
  derives : Statement .lenient (tokens.drop start) (tokens.drop stop) statement

/-- The segment of a statement between two ends of the tokens. -/
def Segment.ofStatement {text tokens rest : List Token} {statement : Node}
    (htokens : tokens <:+ text) (h : Statement .lenient tokens rest statement) : Segment text where
  start := text.length - tokens.length
  stop := text.length - rest.length
  statement := statement
  start_lt_stop := by
    have hlength := htokens.length_le
    have hless := h.begins.length_lt
    omega
  stop_le_length := Nat.sub_le _ _
  derives := by
    rw [← List.suffix_iff_eq_drop.mp htokens,
      ← List.suffix_iff_eq_drop.mp (h.begins.suffix.trans htokens)]
    exact h

/-- The statements of a sequence are in segments that follow one another. -/
theorem Phrase.Body.exists_segments {text tokens rest : List Token} {statements : List Node} :
    Body .lenient tokens rest statements → tokens <:+ text →
      ∃ segments : List (Segment text), segments.map Segment.statement = statements ∧
        segments.Pairwise (fun before after => before.stop ≤ after.start) ∧
        ∀ segment ∈ segments, text.length - tokens.length ≤ segment.start
  | .nil, _ => ⟨[], rfl, .nil, fun _ hmem => nomatch hmem⟩
  | .skip _ h, htokens => by
    obtain ⟨segments, hstatements, hordered, hstart⟩ :=
      h.exists_segments (suffix_of_cons_suffix htokens)
    refine ⟨segments, hstatements, hordered, fun segment hmem => ?_⟩
    have := hstart segment hmem
    simp only [List.length_cons]
    omega
  | .cons _ hstatement h, htokens => by
    obtain ⟨segments, hstatements, hordered, hstart⟩ :=
      h.exists_segments (hstatement.begins.suffix.trans htokens)
    refine ⟨.ofStatement htokens hstatement :: segments, by rw [List.map_cons, hstatements]; rfl,
      .cons (fun segment hmem => hstart segment hmem) hordered, ?_⟩
    intro segment hmem
    rcases List.mem_cons.mp hmem with rfl | hmem
    · exact Nat.le_refl _
    · have hless := hstatement.begins.length_lt
      have := hstart segment hmem
      omega

/-- Every text is read once the limit on the nesting exceeds its length, and whatever statements are
read from a text, faulty or not, are in segments of its tokens that follow one another. -/
theorem parseWithin_segments (nesting : Nat) (text : String) :
    (text.length < nesting → (parseWithin nesting text).isSome = true) ∧
      ∀ parsed, parseWithin nesting text = some parsed →
        ∃ segments : List (Segment (tokenize text.toList)),
          parsed.program = .program (segments.map Segment.statement) ∧
            segments.Pairwise fun before after => before.stop ≤ after.start := by
  refine ⟨isSome_parseWithin, fun parsed h => ?_⟩
  obtain ⟨statements, hprogram, hbody⟩ := body_of_parseWithin h
  obtain ⟨segments, hstatements, hordered, -⟩ := hbody.exists_segments (List.suffix_refl _)
  exact ⟨segments, hstatements ▸ hprogram, hordered⟩

/-- What is read of a text with faults is in segments as well: after the `let` that is given up, and
around the `!` that is passed over in a block. -/
theorem parseWithin_segments_faulty :
    (parseWithin 30 "let x 5; fn() \x7b ! \x7d y").isSome = true ∧
      parseWithin 30 "let x 5; fn() \x7b ! \x7d y" = some
        ⟨.program [.expressionStatement (.integer 5),
          .expressionStatement (.function [] (.block [.expressionStatement (.identifier "y")]))],
          [.unexpected .assign .int]⟩ ∧
      ∃ segments : List (Segment (tokenize "let x 5; fn() \x7b ! \x7d y".toList)),
        Node.program [.expressionStatement (.integer 5),
          .expressionStatement (.function [] (.block [.expressionStatement (.identifier "y")]))] =
            .program (segments.map Segment.statement) ∧
          segments.Pairwise fun before after => before.stop ≤ after.start :=
  ⟨(parseWithin_segments 30 "let x 5; fn() \x7b ! \x7d y").1 (by decide), rfl,
    (parseWithin_segments 30 "let x 5; fn() \x7b ! \x7d y").2 _ rfl⟩

/-- Every text is read once the limit on the nesting exceeds its length, and whatever tree is read
from a text, faulty or not, is that of a program. -/
theorem parseWithin_isProgram (nesting : Nat) (text : String) :
    (text.length < nesting → (parseWithin nesting text).isSome = true) ∧
      ∀ parsed, parseWithin nesting text = some parsed → parsed.program.isProgram = true := by
  refine ⟨isSome_parseWithin, fun parsed h => ?_⟩
  obtain ⟨statements, hprogram, hbody⟩ := body_of_parseWithin h
  rw [hprogram]
  exact hbody.areStatements fun token hmem => isSpelled_of_mem_tokenize hmem

/-- The tree of a text with illegal characters, a numeral out of range and no closing brace is that
of a program. -/
theorem parseWithin_isProgram_faulty :
    (parseWithin 60 "9223372036854775808 + @ -!b @ let fn(x) \x7b true").isSome = true ∧
      parseWithin 60 "9223372036854775808 + @ -!b @ let fn(x) \x7b true" = some
        ⟨.program [.expressionStatement (.unary "-" (.unary "!" (.identifier "b"))),
          .expressionStatement (.function [.identifier "x"]
            (.block [.expressionStatement (.boolean true)]))],
          [.unreadable "9223372036854775808", .unexpected .ident .fnWord]⟩ ∧
      (Node.program [.expressionStatement (.unary "-" (.unary "!" (.identifier "b"))),
        .expressionStatement (.function [.identifier "x"]
          (.block [.expressionStatement (.boolean true)]))]).isProgram = true :=
  ⟨(parseWithin_isProgram 60 "9223372036854775808 + @ -!b @ let fn(x) \x7b true").1 (by decide),
    rfl,
    (parseWithin_isProgram 60 "9223372036854775808 + @ -!b @ let fn(x) \x7b true").2 _ rfl⟩

/-! ## What the exact grammar has -/

/-- A text in the exact grammar is read without a fault once the limit on the nesting exceeds its
length. -/
theorem parseWithin_of_body {nesting : Nat} {text : String} {statements : List Node}
    (h : Body .exact (tokenize text.toList) [] statements) (hnesting : text.length < nesting) :
    parseWithin nesting text = some ⟨.program statements, []⟩ := by
  have hlength := length_tokenize_le text.toList
  rw [← String.length_toList] at hnesting
  obtain ⟨parser, houtcome, -, herrors⟩ := Grammar.program_done h
    (start_lexer_standsAt text.toList) (Nat.lt_add_right 1 (Nat.lt_succ_of_le hlength))
    (Nat.le_trans hlength (Nat.le_of_lt hnesting))
  unfold parseWithin
  dsimp only [Limits.forText, Limits.expression]
  rw [houtcome]
  dsimp only
  rw [herrors]
  rfl

/-- A text in the exact grammar is read as nothing else within any limit on the nesting. -/
theorem eq_of_parseWithin {nesting : Nat} {text : String} {statements : List Node} {parsed : Parsed}
    (h : Body .exact (tokenize text.toList) [] statements)
    (hparsed : parseWithin nesting text = some parsed) : parsed = ⟨.program statements, []⟩ := by
  have hwide := parseWithin_of_le hparsed (Nat.le_max_left nesting (text.length + 1))
  have hread := parseWithin_of_body h
    (Nat.lt_of_succ_le (Nat.le_max_right nesting (text.length + 1)))
  exact Option.some.inj (hwide.symm.trans hread)

/-- A text in the exact grammar is read without a fault as the tree it has there: certainly once the
limit on the nesting exceeds its length, and within every limit as no other. -/
theorem parseWithin_accepts {text : String} {statements : List Node}
    (h : Body .exact (tokenize text.toList) [] statements) (nesting : Nat) :
    (text.length < nesting → parseWithin nesting text = some ⟨.program statements, []⟩) ∧
      ∀ parsed, parseWithin nesting text = some parsed → parsed = ⟨.program statements, []⟩ :=
  ⟨parseWithin_of_body h, fun _ hparsed => eq_of_parseWithin h hparsed⟩

/-- A product in parentheses twice, and directly after it a `let` statement. -/
theorem parseWithin_accepts_grouped :
    Body .exact (tokenize "((-x(1) * 2)) let y = if (x) \x7b \x7d;;".toList) []
        [.expressionStatement (.binary (.unary "-" (.call (.identifier "x") [.integer 1])) "*"
          (.integer 2)),
        .letStatement (.identifier "y") (.conditional (.identifier "x") (.block []) none)] ∧
      parseWithin 60 "((-x(1) * 2)) let y = if (x) \x7b \x7d;;" = some ⟨.program
        [.expressionStatement (.binary (.unary "-" (.call (.identifier "x") [.integer 1])) "*"
          (.integer 2)),
        .letStatement (.identifier "y")
          (.conditional (.identifier "x") (.block []) none)], []⟩ := by
  have htokens : tokenize "((-x(1) * 2)) let y = if (x) \x7b \x7d;;".toList =
      [⟨.lparen, "("⟩, ⟨.lparen, "("⟩, ⟨.minus, "-"⟩, ⟨.ident, "x"⟩, ⟨.lparen, "("⟩, ⟨.int, "1"⟩,
        ⟨.rparen, ")"⟩, ⟨.asterisk, "*"⟩, ⟨.int, "2"⟩, ⟨.rparen, ")"⟩, ⟨.rparen, ")"⟩,
        ⟨.letWord, "let"⟩, ⟨.ident, "y"⟩, ⟨.assign, "="⟩, ⟨.ifWord, "if"⟩, ⟨.lparen, "("⟩,
        ⟨.ident, "x"⟩, ⟨.rparen, ")"⟩, ⟨.lbrace, "\x7b"⟩, ⟨.rbrace, "\x7d"⟩, ⟨.semicolon, ";"⟩,
        ⟨.semicolon, ";"⟩] := by decide +kernel
  have hone : Text.Numeral "1" 1 := Text.integerOf?_eq_some_iff.mp rfl
  have htwo : Text.Numeral "2" 2 := Text.integerOf?_eq_some_iff.mp rfl
  have hlowest {tight tokens rest node} (h : Expression .exact tight tokens rest node) :
      Expression .exact .lowest tokens rest node := h.loosen (Nat.zero_le _)
  refine ⟨?body, (parseWithin_accepts ?body 60).1 (by decide)⟩
  rw [htokens]
  exact .cons (fun _ => ⟨by decide, by decide⟩)
    (.expressionStatement (hlowest (.primary (.grouped (by rfl) (by rfl)
      (hlowest (.primary (.grouped (by rfl) (by rfl)
        (hlowest (@Expression.binary _ .product _ _ _ _ _ _ (by decide)
          (.tighter (.unary (.inr (by rfl)) (.tighter (.call (by rfl)
            (.primary (.identifier (by rfl)))
            (.some (.last (by rfl) (hlowest (.primary (.integer (by rfl) hone)))))))))
          (.tighter (.primary (.integer (by rfl) htwo))))))))))))
    (.cons (fun _ => ⟨by decide, by decide⟩)
      (.letStatement (by rfl) (by rfl) (by rfl) (hlowest (.primary
        (.choice (by rfl) (by rfl) (by rfl) (hlowest (.primary (.identifier (by rfl))))
          (.closed (by rfl) (by rfl) .nil)))))
      (.skip (fun _ => by rfl) (.skip (fun _ => by rfl) .nil)))

end ExprLang
