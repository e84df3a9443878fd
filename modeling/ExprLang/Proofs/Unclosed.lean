import ExprLang.Proofs.Enclosure

/-!
# Texts after an opening brace

A block that is not closed goes on to the end of the text. The loop over its statements and the loop
over those of a program differ in how they are entered and in what closes them, and the latter at a
closing brace only. So without such a brace the text after the opening one is read as it is by
itself: the statements are the same, and so are the faults, wherever inner blocks run into the end.
-/

namespace ExprLang

open Grammar Outcome

namespace Grammar

variable {σ : Type} [LawfulSource σ] {parser last : Parser σ} {tokens : List Token}
  {steps nesting : Nat} {nodes : List Node}

/-- Among tokens without a closing brace only the end closes a block. -/
theorem closesBlock_headKind (hunclosed : ∀ token ∈ tokens, token.kind ≠ .rbrace) :
    closesBlock (headKind tokens) = (headKind tokens == .eof) := by
  cases tokens with
  | nil => rfl
  | cons token rest =>
    have hkind : (token.kind == .rbrace) = false :=
      beq_false_of_ne (hunclosed token List.mem_cons_self)
    rw [closesBlock, headKind_cons, hkind, Bool.false_or]

/-- Without a closing brace among the tokens the loop over a block collects what the loop over a
program does. -/
theorem Collects.unclosed
    (h : Collects (expressionWithin steps nesting) (· == .eof) parser nodes last)
    (hstand : parser.StandsAt tokens) (hunclosed : ∀ token ∈ tokens, token.kind ≠ .rbrace) :
    Collects (expressionWithin steps nesting) closesBlock parser nodes last := by
  refine h.closes_congr (fun p => ∃ ahead, p.StandsAt ahead ∧ ahead <:+ tokens) ?_ ?_
    ⟨tokens, hstand, List.suffix_refl tokens⟩
  · rintro p ⟨ahead, hp, hahead⟩
    rw [hp.current_kind]
    exact closesBlock_headKind fun token hmem => hunclosed token (hahead.subset hmem)
  · rintro p ⟨ahead, hp, hahead⟩
    have hproceeds : (statement (expressionWithin steps nesting) p).Proceeds True ahead.tail
        (p.begun + 1) :=
      statement_proceeds (expressionWithin_enters (.inr trivial) (.inr trivial)) hp (Nat.le_refl _)
    have hmoves {after : Parser σ} (honward : after.Onward ahead.tail (p.begun + 1)) :
        ∃ ahead, after.advance.StandsAt ahead ∧ ahead <:+ tokens := by
      obtain ⟨rest, hfaces, hrest, -⟩ := honward
      exact ⟨rest, hfaces.advance, (hrest.trans (List.tail_suffix ahead)).trans hahead⟩
    exact Meets.mono hproceeds id (fun _ => hmoves) fun _ _ => hmoves

/-- A function whose block is not closed is read with the statements that a program is read with
after the opening brace, and up to the end. -/
theorem statement_unclosed {size : Nat} (hstand : parser.StandsAt (functionHead ++ tokens))
    (hunclosed : ∀ token ∈ tokens, token.kind ≠ .rbrace) (hsize : tokens.length ≤ size)
    (hprogram : program (size + 1) (expressionWithin (size + 1) (size + 1))
      parser.beginStatement.advance.advance.advance.advance = .done (.program nodes) last)
    (hend : last.StandsAt []) :
    statement (expressionWithin (size + 1) (size + 2)) parser =
      .done (.expressionStatement (.function [] (.block nodes))) last := by
  have hopened := hstand.beginStatement.faces.advance.faces.advance.faces.advance
  have hcollects := (collects_of_program hprogram).unclosed hopened.faces.advance hunclosed
  -- the block is not exhausted, so it is what is collected
  have hlimit : size < size + 1 ∨ False := .inl (Nat.lt_succ_self size)
  have hproceeds := block_advances (expressionWithin_enters hlimit hlimit) hlimit _ _
    hopened.faces hsize
  have hblock := hcollects.block_eq fun hexhausted => by
    rw [hexhausted] at hproceeds
    exact hproceeds
  have heof : last.peek.kind = .eof := hend.faces.peek_kind
  have hstatement := statement_function hstand hblock (by rw [heof]; rfl)
  rwa [Parser.pastSemicolon, if_neg (by rw [heof]; decide)] at hstatement

/-- Where the tokens of a text come after the head of a function, the function is read with what is
read of the text. -/
theorem exists_statement_unclosed {body : String} {size : Nat} (hclose : '\x7d' ∉ body.toList)
    (hstand : parser.StandsAt (functionHead ++ tokenize body.toList))
    (hsize : (tokenize body.toList).length ≤ size) :
    ∃ last, statement (expressionWithin (size + 1) (size + 2)) parser =
        .done (.expressionStatement (.function [] (.block (parse body).program.statements))) last ∧
      last.StandsAt [] ∧ last.errors.toList = parser.errors.toList ++ (parse body).errors := by
  have hopened : parser.beginStatement.advance.advance.advance.advance.StandsAt
      (tokenize body.toList) :=
    hstand.beginStatement.faces.advance.faces.advance.faces.advance.faces.advance
  obtain ⟨statements, last, hdone, hend⟩ :=
    exists_program hopened (Nat.lt_succ_of_le hsize) (Nat.lt_succ_of_le hsize)
  obtain ⟨hprogram, herrors⟩ := parse_of_standsAt hopened hdone
  rw [← hprogram]
  exact ⟨last, statement_unclosed hstand (unclosed_tokenize hclose) hsize hdone hend, hend, herrors⟩

end Grammar

/-- The tokens of a text after the head of a function. -/
theorem tokenize_functionHead (body : String) :
    tokenize ("fn() \x7b" ++ body).toList = functionHead ++ tokenize body.toList := by
  rw [String.toList_append, lexes_functionHead body.toList fun _ _ => trivial]

/-- A text without closing braces that is read as the body of a function which is left open is read
as it is by itself: the function is the only statement, the statements in its block are those of the
text, and so are the faults. -/
theorem parse_unclosed {body : String} (hclose : '\x7d' ∉ body.toList) :
    parse ("fn() \x7b" ++ body) =
      ⟨.program [.expressionStatement (.function [] (.block (parse body).program.statements))],
        (parse body).errors⟩ := by
  have hstand := start_lexer_standsAt ("fn() \x7b" ++ body).toList
  rw [tokenize_functionHead] at hstand
  obtain ⟨size, hlimit⟩ : ∃ size, (functionHead ++ tokenize body.toList).length < size + 1 :=
    ⟨_, Nat.lt_succ_self _⟩
  have hsize : (tokenize body.toList).length ≤ size := by
    rw [List.length_append] at hlimit
    omega
  obtain ⟨last, hfunction, hend, herrors⟩ := exists_statement_unclosed hclose hstand hsize
  -- after the function the loop over the program is at the end
  have hword := hstand.current_kind
  have hlast : Collects (expressionWithin (size + 1) (size + 2)) (· == .eof) last.advance [] _ :=
    .close (beq_of_eq hend.faces.advance.current_kind)
  obtain ⟨_, _, hall, -⟩ := exists_program hstand hlimit (Nat.lt_succ_of_lt hlimit)
  have hread := (Collects.keep (by rw [hword]; rfl) hfunction hlast).program_eq
    (by rw [hall]; exact fun h => nomatch h)
  rw [parse_of_program hread]
  exact congrArg (Parsed.mk _) herrors

/-- A statement that is given up before an inner block, and a call that is given up in it. -/
theorem parse_unclosed_faulty :
    parse "let x 5 if (y) \x7b f(1" = ⟨.program [.expressionStatement (.integer 5),
        .expressionStatement (.conditional (.identifier "y") (.block []) none)],
      [.unexpected .assign .int, .unexpected .rparen .eof]⟩ ∧
    parse ("fn() \x7b" ++ "let x 5 if (y) \x7b f(1") = ⟨.program [.expressionStatement
        (.function [] (.block [.expressionStatement (.integer 5),
          .expressionStatement (.conditional (.identifier "y") (.block []) none)]))],
      [.unexpected .assign .int, .unexpected .rparen .eof]⟩ := by
  have hbody : parse "let x 5 if (y) \x7b f(1" = _ := (@eq_parse 30 _ _ rfl).symm
  refine ⟨hbody, (parse_unclosed (by decide)).trans ?_⟩
  rw [hbody]
  rfl

end ExprLang
