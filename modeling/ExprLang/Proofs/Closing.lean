import ExprLang.Proofs.Isolation
import Mathlib.Data.List.Forall2

/-!
# Braces that are missing at the end

The end of a text closes all blocks that are open there, so a closing brace at the end has nothing
to add. A parser over a text and one over the text with a brace after it go side by side up to the
end of the text. What is given up there is given up on both sides, at most with a report that it was the
end or the brace that was found. From there the brace closes the innermost block, or the statement
at it is given up, or it was passed over by an operand that is missing. In each case both parsers
are at the end next, and every report from then on is the same.
-/

namespace ExprLang

open Grammar Outcome

/-- The second fault is the first one, or it is at a closing brace and the first one at the end. -/
def Diagnostic.Retold (fault fault' : Diagnostic) : Prop :=
  fault' = fault ∨ fault' = fault.insteadOfEnd .rbrace

/-- One at most of the faults is at a closing brace instead of the end. -/
def RetoldOnce (errors errors' : List Diagnostic) : Prop :=
  errors' = errors ∨ ∃ before fault after, errors = before ++ fault :: after ∧
    errors' = before ++ fault.insteadOfEnd .rbrace :: after

/-- The same fault may be reported after the others. -/
theorem RetoldOnce.concat {errors errors' : List Diagnostic} (h : RetoldOnce errors errors')
    (fault : Diagnostic) : RetoldOnce (errors ++ [fault]) (errors' ++ [fault]) := by
  rcases h with rfl | ⟨before, changed, after, rfl, rfl⟩
  · exact .inl rfl
  · exact .inr ⟨before, changed, after ++ [fault], List.append_assoc .., List.append_assoc ..⟩

/-- If one fault at most is told differently, each of them is told as it may be. -/
theorem RetoldOnce.forall₂ {errors errors' : List Diagnostic} (h : RetoldOnce errors errors') :
    List.Forall₂ Diagnostic.Retold errors errors' := by
  have hsame (errors : List Diagnostic) : List.Forall₂ Diagnostic.Retold errors errors :=
    List.forall₂_same.mpr fun _ _ => .inl rfl
  rcases h with rfl | ⟨before, fault, after, rfl, rfl⟩
  · exact hsame errors'
  · exact List.rel_append (hsame before) (.cons (.inr rfl) (hsame after))

/-- What may be told differently twice may be so at once. -/
theorem Diagnostic.Retold.trans {fault fault' fault'' : Diagnostic} (h : fault.Retold fault')
    (h' : fault'.Retold fault'') : fault.Retold fault'' := by
  have hbrace : (fault.insteadOfEnd .rbrace).insteadOfEnd .rbrace = fault.insteadOfEnd .rbrace := by
    cases fault with
    | unexpected expected found => cases found <;> rfl
    | unreadable literal => rfl
  rcases h with rfl | rfl
  · exact h'
  · exact .inr (h'.elim id fun heq => heq.trans hbrace)

/-- Faults that may be told differently twice may be so at once. -/
theorem forall₂_retold_trans {errors errors' errors'' : List Diagnostic}
    (h : List.Forall₂ Diagnostic.Retold errors errors')
    (h' : List.Forall₂ Diagnostic.Retold errors' errors'') :
    List.Forall₂ Diagnostic.Retold errors errors'' := by
  induction h generalizing errors'' with
  | nil => exact h'
  | cons hfault _ ih =>
    cases h' with
    | cons hfault' hrest => exact .cons (hfault.trans hfault') (ih hrest)

/-! ## Side by side up to the end -/

/-- The brace that closes a block. -/
def closingBrace : Token :=
  ⟨.rbrace, "\x7d"⟩

section Parsers

variable {σ τ : Type} [LawfulSource σ] [LawfulSource τ]

/-- The first parser stands at `ahead`, and the second one at `ahead` with a closing brace after it;
their faults are as `told` says. -/
structure Beside (told : List Diagnostic → List Diagnostic → Prop) (ahead : List Token)
    (p : Parser σ) (q : Parser τ) : Prop where
  left : p.StandsAt ahead
  right : q.StandsAt (ahead ++ [closingBrace])
  errors : told p.errors.toList q.errors.toList

/-- The parsers stand at a token before the end and reported the same. -/
def BeforeEnd (p : Parser σ) (q : Parser τ) : Prop :=
  ∃ token rest, Beside (fun errors errors' => errors' = errors) (token :: rest) p q

/-- Nothing comes after either parser: the first one is at the end, and the second one at the end or
at the brace. -/
structure AtEnd (p : Parser σ) (q : Parser τ) : Prop where
  left : p.StandsAt []
  right : q.Faces []
  closes : closesBlock q.current.kind = true
  errors : RetoldOnce p.errors.toList q.errors.toList

/-- The parsers are before the end or have nothing after them. -/
def UpToEnd (p : Parser σ) (q : Parser τ) : Prop :=
  BeforeEnd p q ∨ AtEnd p q

/-- What was read is given up: up to the end, or at the last token, where what comes next was
reported on both sides. -/
def GivenUp (p : Parser σ) (q : Parser τ) : Prop :=
  UpToEnd p q ∨ ∃ token, Beside RetoldOnce [token] p q

variable {told told' : List Diagnostic → List Diagnostic → Prop} {token : Token}
  {rest ahead : List Token} {p p' : Parser σ} {q : Parser τ}

namespace Beside

/-- Faults that are related as one says may be related as another one does. -/
theorem mono (h : Beside told ahead p q) (htold : ∀ errors errors', told errors errors' →
    told' errors errors') : Beside told' ahead p q :=
  ⟨h.left, h.right, htold _ _ h.errors⟩

/-- Parsers before the end move on together. -/
theorem advance (h : Beside told (token :: rest) p q) : Beside told rest p.advance q.advance :=
  ⟨h.left.faces.advance, h.right.faces.advance, h.errors⟩

/-- A report does not move the parsers. -/
theorem report (h : Beside told ahead p q) {fault fault' : Diagnostic}
    (htold : told' (p.errors.toList ++ [fault]) (q.errors.toList ++ [fault'])) :
    Beside told' ahead (p.report fault) (q.report fault') where
  left := ⟨h.left.current, h.left.faces.report fault, h.left.proper⟩
  right := ⟨h.right.current, h.right.faces.report fault', h.right.proper⟩
  errors := by
    change told' (p.errors.push fault).toList (q.errors.push fault').toList
    rwa [Array.toList_push, Array.toList_push]

/-- The count of statements does not move the parsers. -/
theorem beginStatement (h : Beside told ahead p q) :
    Beside told ahead p.beginStatement q.beginStatement :=
  ⟨h.left.beginStatement, h.right.beginStatement, h.errors⟩

/-- Before the end the parsers examine the same token. -/
theorem current_eq (h : Beside told (token :: rest) p q) : q.current = p.current :=
  h.right.current_eq.trans h.left.current_eq.symm

/-- At the last token the first parser faces the end and the second one the brace. -/
theorem peek_of_last (h : Beside told [token] p q) :
    p.peek.kind = .eof ∧ q.peek.kind = .rbrace :=
  ⟨h.left.faces.peek_kind, h.right.faces.peek_kind⟩

/-- Before the last token the parsers face the same token. -/
theorem peek_of_cons {next : Token} (h : Beside told (token :: next :: rest) p q) :
    q.peek = p.peek :=
  h.right.faces.peek.trans h.left.faces.peek.symm

/-- At the end the brace is all that the second parser has. -/
theorem atEnd (h : Beside RetoldOnce [] p q) : AtEnd p q where
  left := h.left
  right := h.right.faces
  closes := by
    rw [h.right.current_kind]
    rfl
  errors := h.errors

/-- Parsers that reported the same move on to the next token or to the end. -/
theorem upToEnd (h : Beside (fun errors errors' => errors' = errors) ahead p q) : UpToEnd p q := by
  cases ahead with
  | nil => exact .inr (h.mono fun _ _ => .inl).atEnd
  | cons token rest => exact .inl ⟨token, rest, h⟩

end Beside

namespace AtEnd

/-- Nothing comes next on either side. -/
theorem peek_eq (h : AtEnd p q) : q.peek = p.peek :=
  h.right.peek.trans h.left.faces.peek.symm

/-- Parsers with nothing after them move on to the end. -/
theorem advance (h : AtEnd p q) : AtEnd p.advance q.advance where
  left := h.left.faces.advance
  right := h.right.advance.faces
  closes := by
    rw [h.right.advance.current_kind]
    rfl
  errors := h.errors

/-- The same report does not move the parsers. -/
theorem report (h : AtEnd p q) (fault : Diagnostic) : AtEnd (p.report fault) (q.report fault) where
  left := ⟨h.left.current, h.left.faces.report fault, h.left.proper⟩
  right := h.right.report fault
  closes := h.closes
  errors := by
    change RetoldOnce (p.errors.push fault).toList (q.errors.push fault).toList
    rw [Array.toList_push, Array.toList_push]
    exact h.errors.concat fault

end AtEnd

/-- The same report does not move parsers up to the end. -/
theorem UpToEnd.report (h : UpToEnd p q) (fault : Diagnostic) :
    UpToEnd (p.report fault) (q.report fault) := by
  rcases h with ⟨token, rest, h⟩ | h
  · exact .inl ⟨token, rest, h.report (congrArg (· ++ [fault]) h.errors)⟩
  · exact .inr (h.report fault)

/-- Parsers that face different tokens are at the last token. -/
theorem UpToEnd.exists_last (h : UpToEnd p q) (hpeek : q.peek ≠ p.peek) :
    ∃ token, Beside (fun errors errors' => errors' = errors) [token] p q := by
  rcases h with ⟨token, _ | ⟨next, rest⟩, h⟩ | h
  · exact ⟨token, h⟩
  · exact absurd h.peek_of_cons hpeek
  · exact absurd h.peek_eq hpeek

/-- After what was given up the parsers are up to the end. -/
theorem GivenUp.advance (h : GivenUp p q) : UpToEnd p.advance q.advance := by
  rcases h with (⟨token, rest, h⟩ | h) | ⟨token, h⟩
  · exact h.advance.upToEnd
  · exact .inr h.advance
  · exact .inr h.advance.atEnd

/-- The parsers are side by side up to the end. -/
theorem upToEnd_abreast :
    Abreast (UpToEnd : Parser σ → Parser τ → Prop) (Beside RetoldOnce []) GivenUp where
  peek {p q} h := by
    by_cases hpeek : q.peek = p.peek
    · exact .inl hpeek
    · obtain ⟨token, hlast⟩ := h.exists_last hpeek
      obtain ⟨hp, hq⟩ := hlast.peek_of_last
      exact .inr ⟨by rw [hp]; rfl, by rw [hq]; rfl⟩
  advance h _ := GivenUp.advance (.inl h)
  leave h hpeek _ := by
    obtain ⟨token, hlast⟩ := h.exists_last hpeek
    exact hlast.advance.mono fun _ _ => .inl
  ended_isStop h := by
    rw [h.left.current_kind, h.right.current_kind]
    exact ⟨rfl, rfl⟩
  lost_of_astray h := .inl (h.elim id fun hend => .inr hend.atEnd)
  unreadable h literal := .inl (h.report (.unreadable literal))
  reportPeek {p q} h kind := by
    by_cases hpeek : q.peek = p.peek
    · rw [Parser.reportPeek, Parser.reportPeek, hpeek]
      exact .inl (h.report _)
    · obtain ⟨token, hlast⟩ := h.exists_last hpeek
      obtain ⟨hp, hq⟩ := hlast.peek_of_last
      rw [Parser.reportPeek, Parser.reportPeek, hp, hq]
      refine .inr ⟨token, hlast.report (.inr ⟨p.errors.toList, .unexpected kind .eof, [], rfl, ?_⟩)⟩
      rw [hlast.errors]
      rfl
  beginStatement h := by
    rcases h with ⟨token, rest, h⟩ | h
    · exact .inl ⟨token, rest, h.beginStatement⟩
    · exact .inr ⟨h.left.beginStatement, ⟨h.right.peek, h.right.pending, h.right.proper⟩, h.closes,
        h.errors⟩
  ended_beginStatement h := h.beginStatement

/-- After a statement the parsers are up to the end, since neither of them faces a semicolon where
the other one does not. -/
theorem upToEnd_of_settled (h : Settled UpToEnd p q) : UpToEnd p q := by
  rcases h with h | ⟨before, before', h, hpeek, rfl, rfl⟩
  · exact h
  · obtain ⟨token, hlast⟩ := h.exists_last hpeek
    obtain ⟨hp, hq⟩ := hlast.peek_of_last
    rw [Parser.pastSemicolon, Parser.pastSemicolon, if_neg (by rw [hp]; decide),
      if_neg (by rw [hq]; decide)]
    exact h

/-- Where no sequence of statements is closed the parsers are before the end. -/
theorem UpToEnd.level (h : UpToEnd p q) (hopen : p.current.kind ≠ .eof) : Level UpToEnd p q := by
  rcases h with ⟨token, rest, h⟩ | h
  · exact ⟨.inl ⟨token, rest, h⟩, h.current_eq⟩
  · exact absurd h.left.current_kind hopen

/-- Blocks are closed on both sides at the same time. -/
theorem UpToEnd.closesBlock_eq (h : UpToEnd p q) :
    closesBlock q.current.kind = closesBlock p.current.kind := by
  rcases h with ⟨token, rest, h⟩ | h
  · rw [h.current_eq]
  · rw [h.closes, h.left.current_kind]
    rfl

/-- Expressions are read alike up to the end, with the blocks in them. -/
theorem upToEnd_expressionWithin (steps nesting : Nat) :
    NestedAgrees (UpToEnd : Parser σ → Parser τ → Prop) (Beside RetoldOnce [])
      (expressionWithin steps nesting) (expressionWithin steps nesting) GivenUp := by
  refine expressionWithin_agrees upToEnd_abreast nesting fun hnested p q h _ => ?_
  rw [block, block, Rule.advance_bind_apply, Rule.advance_bind_apply]
  refine Agrees.bind (statementsUntil_agrees upToEnd_abreast hnested UpToEnd.closesBlock_eq ?_
    (fun h => GivenUp.advance (.inl (upToEnd_of_settled h))) GivenUp.advance steps #[]
    (GivenUp.advance (.inl h.1))) fun _ _ _ h => .done _ h
  intro p q h hopen
  refine .inl (h.level fun heof => ?_)
  rw [heof] at hopen
  exact Bool.noConfusion hopen

/-- At the end of the first parser the loop over a program ends on the other side as well: the
brace, if it is still there, is passed over. -/
theorem AtEnd.exists_collects {nested : Int → Rule τ Node} (h : AtEnd p q)
    (hrefuses : ∀ floor (parser : Parser τ), parser.current.kind.isStop = true →
      nested floor parser = .abandoned parser) :
    ∃ last, Collects nested (· == .eof) q [] last ∧ last.errors = q.errors := by
  cases hclose : q.current.kind == .eof with
  | true => exact ⟨q, .close hclose, rfl⟩
  | false =>
    have hcurrent : q.current.kind = .rbrace := by
      have hcloses := h.closes
      rw [closesBlock, hclose, Bool.or_false] at hcloses
      exact eq_of_beq hcloses
    have hgiven : statement nested q = .abandoned q.beginStatement :=
      statement_refuses hrefuses (by rw [hcurrent]; rfl)
    have hend : (q.beginStatement.advance.current.kind == .eof) = true :=
      beq_of_eq h.right.advance.current_kind
    exact ⟨q.beginStatement.advance, .drop hclose hgiven (.close hend), rfl⟩

/-- The loop over a program up to the end has the same statements on the other side. -/
theorem UpToEnd.exists_collects {nested : Int → Rule σ Node} {nested' : Int → Rule τ Node}
    (hnested : NestedAgrees UpToEnd (Beside RetoldOnce []) nested nested' GivenUp)
    (hrefuses : ∀ floor (parser : Parser τ), parser.current.kind.isStop = true →
      nested' floor parser = .abandoned parser) {nodes : List Node}
    (h : Collects nested (· == .eof) p nodes p') (hstart : UpToEnd p q) :
    ∃ last, Collects nested' (· == .eof) q nodes last ∧
      RetoldOnce p'.errors.toList last.errors.toList := by
  have hstep {p : Parser σ} {q : Parser τ} (h : UpToEnd p q)
      (hopen : (p.current.kind == .eof) = false) :
      (q.current.kind == .eof) = false ∧ (statement nested p).Agrees
        (fun p q => UpToEnd p.advance q.advance) (fun p q => UpToEnd p.advance q.advance)
        (statement nested' q) := by
    have hlevel := h.level (ne_of_beq_false hopen)
    refine ⟨hlevel.2 ▸ hopen, (statement_agrees upToEnd_abreast hnested (.inl hlevel)).mono ?_ ?_⟩
    · exact fun _ _ => GivenUp.advance
    · exact fun _ _ hsettled => GivenUp.advance (.inl (upToEnd_of_settled hsettled))
  obtain ⟨q', hend, hclose, hmore⟩ := h.followed nested' (· == .eof) hstep hstart
  rcases hend with ⟨token, rest, hbefore⟩ | hatEnd
  · exact absurd (eq_of_beq hclose) (hbefore.left.current_eq ▸
      hbefore.left.proper token List.mem_cons_self)
  · obtain ⟨last, hlast, herrors⟩ := hatEnd.exists_collects hrefuses
    exact ⟨last, List.append_nil nodes ▸ hmore [] last hlast, herrors ▸ hatEnd.errors⟩

end Parsers

/-! ## Braces after a text -/

/-- The tokens of a text with a closing brace after it. -/
theorem tokenize_append_rbrace (text : String) :
    tokenize (text ++ "\x7d").toList = tokenize text.toList ++ [closingBrace] := by
  have hlexes : Lexes Anything (text ++ "\x7d") (tokenize text.toList ++ [closingBrace]) :=
    lexes_append_symbol text (by decide) (by decide) ⟨'\x7d', [], rfl, by decide⟩
  have htokens := hlexes [] fun _ _ => trivial
  rwa [tokenize_nil, List.append_nil, List.append_nil] at htokens

/-- One closing brace after a text changes nothing but the kind that is found at the end. -/
theorem parse_append_rbrace (text : String) :
    (parse (text ++ "\x7d")).program = (parse text).program ∧
      RetoldOnce (parse text).errors (parse (text ++ "\x7d")).errors := by
  have hstand := start_lexer_standsAt (text ++ "\x7d").toList
  rw [tokenize_append_rbrace] at hstand
  have htext : (tokenize text.toList).length < (tokenize text.toList).length + 2 := by omega
  have hwhole : (tokenize text.toList ++ [closingBrace]).length <
      (tokenize text.toList).length + 2 := by
    rw [List.length_append]
    exact Nat.lt_succ_self _
  obtain ⟨statements, p', hdone, -⟩ :=
    exists_program (start_lexer_standsAt text.toList) htext htext
  have hbeside : Beside (fun errors errors' => errors' = errors) (tokenize text.toList)
      (Parser.start (⟨text.toList⟩ : Lexer)) (Parser.start (⟨(text ++ "\x7d").toList⟩ : Lexer)) :=
    ⟨start_lexer_standsAt text.toList, hstand, rfl⟩
  obtain ⟨last, hcollects, herrors⟩ := hbeside.upToEnd.exists_collects
    (upToEnd_expressionWithin _ _) (fun _ _ => expressionWithin_of_isStop)
    (collects_of_program hdone)
  obtain ⟨_, _, hall, -⟩ := exists_program hstand hwhole hwhole
  have hread := hcollects.program_eq (by rw [hall]; exact fun h => nomatch h)
  rw [parse_of_program hread, parse_of_program hdone]
  exact ⟨rfl, herrors⟩

/-- Closing braces that are missing at the end of a text are implied: any number of them after the
text changes nothing in the tree, and in the faults only the kind that is found at the end. One
brace changes one fault at most. -/
theorem parse_append_rbraces (text : String) :
    RetoldOnce (parse text).errors (parse (text ++ "\x7d")).errors ∧
      ∀ count, (parse (text ++ String.ofList (List.replicate count '\x7d'))).program =
          (parse text).program ∧
        List.Forall₂ Diagnostic.Retold (parse text).errors
          (parse (text ++ String.ofList (List.replicate count '\x7d'))).errors := by
  refine ⟨(parse_append_rbrace text).2, fun count => ?_⟩
  induction count with
  | zero =>
    have hnone : text ++ String.ofList (List.replicate 0 '\x7d') = text := String.append_empty
    rw [hnone]
    exact ⟨rfl, RetoldOnce.forall₂ (.inl rfl)⟩
  | succ count ih =>
    have hmore : text ++ String.ofList (List.replicate (count + 1) '\x7d') =
        text ++ String.ofList (List.replicate count '\x7d') ++ "\x7d" := by
      rw [List.replicate_succ', String.ofList_append, String.append_assoc]
    obtain ⟨hprogram, herrors⟩ :=
      parse_append_rbrace (text ++ String.ofList (List.replicate count '\x7d'))
    rw [hmore]
    exact ⟨hprogram.trans ih.1, forall₂_retold_trans ih.2 herrors.forall₂⟩

/-- A call that is not closed is given up, and a brace after it is found in place of the end. -/
example :
    parse "f(1" = ⟨.program [], [.unexpected .rparen .eof]⟩ ∧
      parse ("f(1" ++ "\x7d") = ⟨.program [], [.unexpected .rparen .rbrace]⟩ :=
  ⟨(@eq_parse 9 _ _ rfl).symm, (@eq_parse 9 _ _ rfl).symm⟩

end ExprLang
