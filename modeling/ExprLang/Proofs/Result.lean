import ExprLang.Proofs.Lockstep
import ExprLang.Proofs.Progress
import ExprLang.Proofs.Reading

/-!
# The result for a text

Limits only decide whether a text is read to its end, and not what is read. So each text has one
result, which every sufficient limit gives.
-/

namespace ExprLang

/-- What is read of a text: its result within a limit on the nesting that exceeds its length. -/
def parse (text : String) : Parsed :=
  (parseWithin (text.length + 1) text).get (isSome_parseWithin (Nat.lt_succ_self text.length))

/-- A limit within which a text is read to its end gives the result for the text. -/
theorem eq_parse {nesting : Nat} {text : String} {parsed : Parsed}
    (h : parseWithin nesting text = some parsed) : parsed = parse text := by
  have hwide := parseWithin_of_le h (Nat.le_max_left nesting (text.length + 1))
  have hparse : parseWithin (text.length + 1) text = some (parse text) := (Option.some_get _).symm
  rw [parseWithin_of_le hparse (Nat.le_max_right nesting (text.length + 1))] at hwide
  exact (Option.some.inj hwide).symm

/-- A limit on the nesting that exceeds the length of a text gives the result for the text. -/
theorem parseWithin_eq_parse {nesting : Nat} {text : String} (h : text.length < nesting) :
    parseWithin nesting text = some (parse text) := by
  obtain ⟨parsed, hparsed⟩ := Option.isSome_iff_exists.mp (isSome_parseWithin h)
  rw [hparsed, eq_parse hparsed]

/-- Whatever limits a text is read to its end within, its result is what is read. -/
theorem parse_of_program {steps nesting : Nat} {text : String} {node : Node} {parser : Parser Lexer}
    (h : Grammar.program steps (Grammar.expressionWithin steps nesting)
      (Parser.start (⟨text.toList⟩ : Lexer)) = .done node parser) :
    parse text = ⟨node, parser.errors.toList⟩ := by
  have hlength : (tokenize text.toList).length < text.toList.length + 1 :=
    Nat.lt_succ_of_le (length_tokenize_le text.toList)
  obtain ⟨statements, last, hlast, -⟩ := Grammar.exists_program (start_lexer_standsAt text.toList)
    (Nat.lt_succ_of_lt hlength) hlength
  have hread : parseWithin (text.toList.length + 1) text =
      some ⟨.program statements, last.errors.toList⟩ := by
    unfold parseWithin
    dsimp only [Limits.forText, Limits.expression]
    rw [hlast]
  -- both runs are the same within limits that are as wide as those of both
  have hstand := start_lexer_standsAt text.toList
  have hwide := Grammar.program_extended (Nat.le_max_left steps (text.toList.length + 2))
    (.inr trivial) (Nat.le_max_left nesting (text.toList.length + 1)) (.inr trivial) hstand
    (Nat.le_refl _)
  have hwide' := Grammar.program_extended (Nat.le_max_right steps (text.toList.length + 2))
    (.inr trivial) (Nat.le_max_right nesting (text.toList.length + 1)) (.inr trivial) hstand
    (Nat.le_refl _)
  rw [h] at hwide
  rw [hlast, hwide.of_done] at hwide'
  obtain ⟨rfl, rfl⟩ := Outcome.done.inj hwide'.of_done
  exact (eq_parse hread).symm

/-- Whatever source the tokens of a text come from, a program that is read from where they begin is
the result for the text, and its faults come after what was reported before. -/
theorem parse_of_standsAt {σ : Type} [LawfulSource σ] {steps nesting : Nat} {text : String}
    {node : Node} {parser last : Parser σ} (hstand : parser.StandsAt (tokenize text.toList))
    (h : Grammar.program steps (Grammar.expressionWithin steps nesting) parser =
      .done node last) :
    node = (parse text).program ∧
      last.errors.toList = parser.errors.toList ++ (parse text).errors := by
  have hagrees := (mirrors_paired parser.errors).program_agrees steps nesting
    (Mirrors.of_standsAt (start_lexer_standsAt text.toList) hstand (Array.append_empty).symm)
  rw [h] at hagrees
  generalize houtcome : Grammar.program steps (Grammar.expressionWithin steps nesting)
    (Parser.start (⟨text.toList⟩ : Lexer)) = outcome at hagrees
  cases hagrees with
  | done _ hmirrors =>
    rw [parse_of_program houtcome]
    exact ⟨rfl, by rw [hmirrors.errors, Array.toList_append]⟩

/-- A limit on the rounds that exceeds the number of tokens gives what that for the text gives. -/
theorem program_forText_eq (nesting : Nat) (text : List Char) :
    Grammar.program (Limits.forText nesting text).rounds (Limits.forText nesting text).expression
        (Parser.start (⟨text⟩ : Lexer)) =
      Grammar.program ((tokenize text).length + 1)
        (Grammar.expressionWithin ((tokenize text).length + 1) nesting)
        (Parser.start (⟨text⟩ : Lexer)) := by
  have hmore : (tokenize text).length + 1 ≤ text.length + 2 :=
    Nat.succ_le_succ (Nat.le_succ_of_le (length_tokenize_le text))
  exact (Grammar.program_extended hmore (.inl (Nat.lt_succ_self _)) (Nat.le_refl nesting)
    (.inl (Nat.le_refl nesting)) (start_lexer_standsAt text) (Nat.le_refl _)).eq

/-- What is read of a text, or whether it nests too deeply, is a matter of its tokens alone. -/
theorem parseWithin_eq_of_tokenize_eq {text other : String}
    (h : tokenize other.toList = tokenize text.toList) (nesting : Nat) :
    parseWithin nesting other = parseWithin nesting text := by
  have hother := start_lexer_standsAt other.toList
  rw [h] at hother
  have hagrees := (mirrors_paired #[]).program_agrees ((tokenize text.toList).length + 1) nesting
    (Mirrors.of_standsAt (start_lexer_standsAt text.toList) hother rfl)
  unfold parseWithin
  dsimp only
  rw [program_forText_eq, program_forText_eq, h]
  revert hagrees
  generalize Grammar.program _ _ (Parser.start (⟨text.toList⟩ : Lexer)) = outcome,
    Grammar.program _ _ (Parser.start (⟨other.toList⟩ : Lexer)) = outcome'
  intro hagrees
  cases hagrees with
  | done program hmirrors =>
    dsimp only
    rw [hmirrors.errors, Array.empty_append]
  | abandoned _ => rfl
  | exhausted => rfl

/-- Texts with the same tokens have the same result. -/
theorem parse_eq_of_tokenize_eq {text other : String}
    (h : tokenize other.toList = tokenize text.toList) : parse other = parse text := by
  have hread := parseWithin_eq_of_tokenize_eq h (text.length + 1)
  rw [parseWithin_eq_parse (Nat.lt_succ_self text.length)] at hread
  exact (eq_parse hread).symm

end ExprLang
