import ExprLang.Proofs.Decomposition
import ExprLang.Proofs.Encoding
import ExprLang.Proofs.Result
import ExprLang.Run

/-!
# A file is run as its text

A file holds a text in UTF-8, and its line endings are unified when it is read. That changes gaps
between lexemes only: no lexeme holds a carriage return, and where one follows a lexeme, the line
feed in its place carries the lexeme on no more than it did. So the text that is loaded has the
tokens of the text in the file, and a run over the one is a run over the other.
-/

namespace ExprLang

open Text

/-! ## Line endings and lexemes -/

/-- What follows a lexeme carries it on no more when its line endings are unified. -/
theorem Lexeme.unifyLineEndings {rest lexeme : List Char} {token : Token}
    (h : Lexeme rest lexeme token) : Lexeme (unifyLineEndings rest) lexeme token := by
  refine h.of_head? fun c hc => ?_
  rw [head?_unifyLineEndings] at hc
  obtain ⟨d, hd, rfl⟩ := Option.map_eq_some_iff.mp hc
  split
  · exact .inr (by decide)
  · exact .inl hd

/-- Gaps stay gaps. -/
theorem isGap_of_mem_unifyLineEndings {gap : List Char} (h : ∀ c ∈ gap, isGap c = true) :
    ∀ c ∈ unifyLineEndings gap, isGap c = true := by
  intro c hc
  rcases mem_of_mem_unifyLineEndings hc with hmem | rfl
  · exact h c hmem
  · rfl

/-- A text is cut as before once its line endings are unified. -/
theorem Decomposes.unifyLineEndings {text : List Char} {tokens : List Token}
    (h : Decomposes text tokens) : Decomposes (unifyLineEndings text) tokens := by
  induction h with
  | last hgap => exact .last (isGap_of_mem_unifyLineEndings hgap)
  | @next gap lexeme rest token tokens hgap hlexeme _ ih =>
    have hnot (c : Char) (hc : isGap c = true) : c ∉ lexeme := fun hmem => by
      rw [hlexeme.isGap_eq_false c hmem] at hc
      exact nomatch hc
    have hfirst : (lexeme ++ rest).head? ≠ some '\n' := by
      obtain ⟨c, more, rfl⟩ := List.exists_cons_of_ne_nil hlexeme.ne_nil
      rintro hhead
      obtain rfl : c = '\n' := Option.some.inj hhead
      exact hnot '\n' rfl List.mem_cons_self
    rw [unifyLineEndings_append hfirst, unifyLineEndings_append_of_not_mem (hnot '\r' rfl)]
    exact .next (isGap_of_mem_unifyLineEndings hgap) hlexeme.unifyLineEndings ih

/-- A text has the tokens it has with its line endings unified. -/
theorem tokenize_unifyLineEndings (text : List Char) :
    tokenize (unifyLineEndings text) = tokenize text :=
  (decomposes_tokenize text).unifyLineEndings.tokenize_eq

/-! ## Runs -/

namespace Run

/-- A run over a text is a matter of its tokens alone. -/
theorem process_eq_of_tokenize_eq {text other : String}
    (h : tokenize other.toList = tokenize text.toList) (nesting : Nat) (options : Options) :
    process nesting options other = process nesting options text := by
  have hlisting : Report.tokens "" other = Report.tokens "" text := by
    rw [Report.tokens, Report.tokens, h]
  rw [process, process, parseWithin_eq_of_tokenize_eq h, hlisting]

/-- The text that is loaded from a file is the one that it holds, with its line endings unified. -/
theorem load_of_encode {files : Files} {name : String} {text : List Char}
    (hextension : extension.toList <:+ name.toList) (hnull : '\x00' ∉ name.toList)
    (hfile : files name = .ok (Utf8.encode text)) :
    load files false name = .ok (String.ofList (unifyLineEndings text)) := by
  have hsuffix : extension.toList.isSuffixOf name.toList = true :=
    List.isSuffixOf_iff_suffix.mpr hextension
  have hname : name.toList.contains '\x00' = false := by simpa using hnull
  rw [load, hsuffix, hname, hfile]
  dsimp only
  rw [textOf, Utf8.decode_encode]
  rfl

/-- A run over a file with the extension of the language that holds a text in UTF-8 ends as the run
over the text itself and writes the same, whatever line endings the text has and however deep it may
nest. The name of a file holds no null character. -/
theorem run_file_eq_run_text {files : Files} {name text : String}
    (hextension : extension.toList <:+ name.toList) (hnull : '\x00' ∉ name.toList)
    (hfile : files name = .ok (Utf8.encode text.toList)) (nesting : Nat) (tokens tree : Bool) :
    run nesting files ⟨false, tokens, tree⟩ name = run nesting files ⟨true, tokens, tree⟩ text := by
  have htokens : tokenize (String.ofList (unifyLineEndings text.toList)).toList =
      tokenize text.toList := by
    rw [String.toList_ofList, tokenize_unifyLineEndings]
  rw [run, load_of_encode hextension hnull hfile]
  exact process_eq_of_tokenize_eq htokens nesting ⟨false, tokens, tree⟩

/-- A file with carriage returns alone and before line feeds, and with a character beyond ASCII, is
run as its text. -/
theorem run_file_eq_run_text_returns :
    extension.toList <:+ "a.gibbon".toList ∧ '\x00' ∉ "a.gibbon".toList ∧
      run 9 (fun _ => .ok (Utf8.encode "x\r\r\n=\ré".toList)) ⟨false, true, false⟩ "a.gibbon" =
        ⟨.status 0, "Token(Ident, 'x')\nToken(Assign, '=')\nToken(Illegal, '')\nx\n", ""⟩ := by
  have hextension : extension.toList <:+ "a.gibbon".toList := by decide
  have hnull : '\x00' ∉ "a.gibbon".toList := by decide
  refine ⟨hextension, hnull, (run_file_eq_run_text hextension hnull rfl 9 true false).trans ?_⟩
  decide +kernel

end Run

end ExprLang
