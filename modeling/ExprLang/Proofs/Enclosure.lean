import ExprLang.Proofs.Isolation

/-!
# Texts enclosed in braces

The loop over the statements of a block reads what the loop over those of a program reads of the
same text, up to the closing brace, unless the text ends where an operand is still to come. Moving
on to that operand takes the parser onto the closing brace, and the loop goes on after it: the block
then takes in what follows it, without a fault.
-/

namespace ExprLang

open Grammar Outcome

/-- Tokens with no brace among them, after the last of which no operand is to come. -/
structure Enclosable (tokens : List Token) : Prop where
  unbraced : Unbraced tokens
  unclosed : ∀ token ∈ tokens, token.kind ≠ .rbrace
  complete : ∀ token ∈ tokens.getLast?, token.kind.wantsOperand = false

/-- After the first token the others are enclosable as well. -/
theorem Enclosable.tail {token : Token} {rest : List Token} (h : Enclosable (token :: rest)) :
    Enclosable rest where
  unbraced := h.unbraced.tail
  unclosed other hmem := h.unclosed other (List.mem_cons_of_mem token hmem)
  complete other hmem := by
    cases rest with
    | nil => exact nomatch hmem
    | cons next rest => exact h.complete other (by rw [List.getLast?_cons_cons]; exact hmem)

/-- The tokens of a text without closing braces close none. -/
theorem unclosed_tokenize {text : String} (h : '\x7d' ∉ text.toList) :
    ∀ token ∈ tokenize text.toList, token.kind ≠ .rbrace := by
  intro token hmem hbrace
  have hsymbol : ("\x7d", token.kind) ∈ Kind.symbols := by
    rw [hbrace]
    decide
  exact h (mem_of_symbol hmem hsymbol List.mem_cons_self)

/-- The tokens of a text without braces, at whose end no operand is to come. -/
theorem enclosable_tokenize {text : String} (hopen : '\x7b' ∉ text.toList)
    (hclose : '\x7d' ∉ text.toList)
    (hlast : ∀ token ∈ (tokenize text.toList).getLast?, token.kind.wantsOperand = false) :
    Enclosable (tokenize text.toList) where
  unbraced := unbraced_tokenize hopen
  unclosed := unclosed_tokenize hclose
  complete := hlast

section Block

variable {σ τ : Type} [LawfulSource σ] [LawfulSource τ] {stop : Token} {tail ahead : List Token}
  {p p' : Parser σ} {q : Parser τ}

/-- Parsers that read enclosable tokens are side by side throughout. -/
theorem enclosable_abreast (hstop : stop.kind.isStop = true) :
    Abreast (BeforeCut Enclosable stop tail : Parser σ → Parser τ → Prop) Nowhere := by
  refine Cut.abreast hstop Enclosable.tail False.elim id fun {token} _ _ h hwants => ?_
  rw [h.kept.complete token rfl] at hwants
  exact nomatch hwants

/-- After a statement the closing brace has not been taken. -/
theorem beforeCut_of_settled (hrbrace : stop.kind = .rbrace)
    (h : Settled (BeforeCut Enclosable stop tail) p q) : BeforeCut Enclosable stop tail p q := by
  rcases h with h | ⟨before, before', ⟨token, rest, h⟩, hpeek, rfl, rfl⟩
  · exact h
  · cases rest with
    | cons next rest => exact absurd h.peek_of_cons.1 hpeek
    | nil =>
      obtain ⟨hp, hq⟩ := h.peek_of_last
      rw [Parser.pastSemicolon, Parser.pastSemicolon, if_neg (by rw [hp]; decide),
        if_neg (by rw [hq, hrbrace]; decide)]
      exact ⟨token, [], h⟩

/-- Statements of enclosable tokens end alike, and the parsers move on from them side by side. -/
theorem statement_enclosable {nested : Int → Rule σ Node} {nested' : Int → Rule τ Node}
    (hnested : NestedAgrees (BeforeCut Enclosable stop tail) Nowhere nested nested')
    (hrbrace : stop.kind = .rbrace) (h : ∃ ahead, Cut Enclosable stop tail ahead p q)
    (hopen : (p.current.kind == .eof) = false) :
    closesBlock q.current.kind = false ∧ (statement nested p).Agrees
      (fun p q => ∃ ahead, Cut Enclosable stop tail ahead p.advance q.advance)
      (fun p q => ∃ ahead, Cut Enclosable stop tail ahead p.advance q.advance)
      (statement nested' q) := by
  have hadvance {p : Parser σ} {q : Parser τ} (h : BeforeCut Enclosable stop tail p q) :
      ∃ ahead, Cut Enclosable stop tail ahead p.advance q.advance := by
    obtain ⟨token, rest, h⟩ := h
    exact ⟨rest, h.advance Enclosable.tail⟩
  obtain ⟨_ | ⟨token, rest⟩, hcut⟩ := h
  · exact absurd hcut.left.current_kind (ne_of_beq_false hopen)
  · have hclose := hcut.kept.unclosed token List.mem_cons_self
    refine ⟨?_, (statement_agrees (enclosable_abreast (by rw [hrbrace]; rfl)) hnested
      (.inl ⟨⟨token, rest, hcut⟩, hcut.current_eq⟩)).mono ?_ ?_⟩
    · rw [hcut.current_eq, closesBlock, hopen, hcut.left.current_eq, Bool.or_false]
      exact beq_false_of_ne hclose
    · exact fun _ _ hastray => hadvance (hastray.resolve_right not_false)
    · exact fun _ _ hsettled => hadvance (beforeCut_of_settled hrbrace hsettled)

/-- The loop over a block collects up to the closing brace what the loop over a program collects up
to the end. -/
theorem exists_enclosed {nested : Int → Rule σ Node} {nested' : Int → Rule τ Node}
    (hnested : NestedAgrees (BeforeCut Enclosable stop tail) Nowhere nested nested')
    (hrbrace : stop.kind = .rbrace) {nodes : List Node}
    (h : Collects nested (· == .eof) p nodes p') (hcut : Cut Enclosable stop tail ahead p q) :
    ∃ q', Cut Enclosable stop tail [] p' q' ∧ Collects nested' closesBlock q nodes q' := by
  obtain ⟨q', ⟨_, hend⟩, hclose, hmore⟩ := h.followed nested' closesBlock
    (statement_enclosable hnested hrbrace) ⟨ahead, hcut⟩
  obtain rfl := hend.nil_of_current (eq_of_beq hclose)
  have hstop : closesBlock q'.current.kind = true := by
    rw [hend.right.current_kind]
    change closesBlock stop.kind = true
    rw [hrbrace]
    rfl
  exact ⟨q', hend, List.append_nil nodes ▸ hmore [] q' (.close hstop)⟩

end Block

/-! ## A function around a text -/

section Function

variable {σ : Type} [LawfulSource σ] {parser last : Parser σ} {rest tail : List Token}
  {steps nesting : Nat} {nodes : List Node}

/-- The tokens before the statements of a function without parameters. -/
def functionHead : List Token :=
  [⟨.fnWord, "fn"⟩, ⟨.lparen, "("⟩, ⟨.rparen, ")"⟩, ⟨.lbrace, "\x7b"⟩]

/-- A function without parameters is an operand, with the block after its opening brace. -/
theorem operand_function {nested : Int → Rule σ Node}
    (hstand : parser.StandsAt (functionHead ++ rest))
    (hblock : block steps nested parser.advance.advance.advance = .done (.block nodes) last) :
    operand steps nested parser = .done (.function [] (.block nodes)) last := by
  have hword : parser.current.kind = .fnWord := hstand.current_kind
  have hopening := hstand.faces.advance
  have hclosing := hopening.faces.advance
  have hparameters : parameters steps parser.advance = .done [] parser.advance.advance := by
    have hrparen : parser.advance.peek.kind = .rparen := hopening.faces.peek_kind
    rw [parameters, Rule.peek_bind_apply, if_pos hrparen]
    rfl
  unfold operand
  rw [hword]
  change function steps nested parser = _
  rw [function, Rule.expect_bind_apply _ hstand.faces rfl, Rule.bind_apply, hparameters]
  change (Rule.expect .lbrace >>= _) parser.advance.advance = _
  rw [Rule.expect_bind_apply _ hclosing.faces rfl, Rule.bind_apply, hblock]
  rfl

/-- A function without parameters before a token at which phrases stop is a statement, which takes
the semicolon if there is one. -/
theorem statement_function (hstand : parser.StandsAt (functionHead ++ rest))
    (hblock : block (steps + 1) (expressionWithin (steps + 1) nesting)
      parser.beginStatement.advance.advance.advance = .done (.block nodes) last)
    (hlast : last.peek.kind.isStop = true) :
    statement (expressionWithin (steps + 1) (nesting + 1)) parser =
      .done (.expressionStatement (.function [] (.block nodes))) last.pastSemicolon := by
  have hword : parser.beginStatement.current.kind = .fnWord := hstand.current_kind
  have hvalue : expressionWithin (steps + 1) (nesting + 1) Precedence.lowest.floor
      parser.beginStatement = .done (.function [] (.block nodes)) last := by
    rw [expressionWithin, Rule.bind_apply, operand_function hstand.beginStatement hblock]
    exact climb_of_isStop hlast
  unfold statement
  dsimp only
  rw [hword]
  change expressionStatement _ parser.beginStatement = _
  rw [expressionStatement, Rule.bind_apply, hvalue]
  rfl

/-- Where a program is read of enclosable tokens, a function with these tokens between its braces is
read with the same statements, up to the semicolon after it. -/
theorem exists_statement_function {τ : Type} [LawfulSource τ] {p p' : Parser τ} {body : List Token}
    {size : Nat} (hbody : Enclosable body) (hp : p.StandsAt body)
    (herrors : parser.errors = p.errors.map (Diagnostic.insteadOfEnd .rbrace))
    (hprogram : program (size + 1) (expressionWithin (size + 1) (size + 1)) p =
      .done (.program nodes) p')
    (hstand : parser.StandsAt (functionHead ++
      (body ++ ⟨.rbrace, "\x7d"⟩ :: ⟨.semicolon, ";"⟩ :: tail)))
    (hsize : (body ++ ⟨.rbrace, "\x7d"⟩ :: ⟨.semicolon, ";"⟩ :: tail).length ≤ size) :
    ∃ after, statement (expressionWithin (size + 1) (size + 2)) parser =
        .done (.expressionStatement (.function [] (.block nodes))) after ∧
      after.StandsAt (⟨.semicolon, ";"⟩ :: tail) ∧
      after.errors = p'.errors.map (Diagnostic.insteadOfEnd .rbrace) := by
  have hopened := hstand.beginStatement.faces.advance.faces.advance.faces.advance
  have hcut : Cut Enclosable ⟨.rbrace, "\x7d"⟩ (⟨.semicolon, ";"⟩ :: tail) body p
      parser.beginStatement.advance.advance.advance.advance :=
    ⟨hp, hopened.faces.advance, hbody, herrors⟩
  have hab : Abreast (BeforeCut Enclosable ⟨.rbrace, "\x7d"⟩ (⟨.semicolon, ";"⟩ :: tail) :
      Parser τ → Parser σ → Prop) Nowhere := enclosable_abreast rfl
  have hagrees := Cut.expressionWithin_agrees hab (fun h => h.unbraced _ List.mem_cons_self)
    (size + 1) (size + 1)
  obtain ⟨last, hend, hcollects⟩ :=
    exists_enclosed hagrees rfl (collects_of_program hprogram) hcut
  -- the block is not exhausted, so it is what is collected
  have hlimit : size < size + 1 ∨ False := .inl (Nat.lt_succ_self size)
  have hnested : ∀ floor, (expressionWithin (size + 1) (size + 1) floor : Rule σ Node).Enters False
      size := expressionWithin_enters hlimit hlimit
  have hproceeds := block_advances hnested hlimit _ _ hopened.faces hsize
  have hblock := hcollects.block_eq fun hexhausted => by
    rw [hexhausted] at hproceeds
    exact hproceeds
  have hsemicolon : last.peek.kind = .semicolon := hend.right.faces.peek_kind
  have hstatement := statement_function hstand hblock (by rw [hsemicolon]; rfl)
  rw [Parser.pastSemicolon, if_pos hsemicolon] at hstatement
  exact ⟨last.advance, hstatement, hend.right.faces.advance, hend.errors⟩

end Function

/-- The head of a function without parameters, as it is written before its statements. -/
theorem lexes_functionHead : Lexes Anything "fn() \x7b" functionHead := by
  have hword := (@lexes_reserved "fn" .fnWord (by decide)).append
    (@lexes_closed "(" .lparen (by decide) (by decide)) ⟨'(', [], rfl, by decide⟩
  have hparens := hword.append_of_anything (@lexes_closed ")" .rparen (by decide) (by decide))
  exact (hparens.append_of_anything lexes_space).append_of_anything
    (@lexes_closed "\x7b" .lbrace (by decide) (by decide))

/-- The tokens of a text that is enclosed as the body of a function, and of another one after it. -/
theorem tokenize_enclosed (body after : String) :
    tokenize ("fn() \x7b" ++ body ++ "\x7d; " ++ after).toList =
      functionHead ++ (tokenize body.toList ++ ⟨.rbrace, "\x7d"⟩ :: ⟨.semicolon, ";"⟩ ::
        tokenize after.toList) := by
  have hbody : Lexes Anything (body ++ "\x7d") (tokenize body.toList ++ [⟨.rbrace, "\x7d"⟩]) :=
    lexes_append_symbol body (by decide) (by decide) ⟨'\x7d', [], rfl, by decide⟩
  have hsemicolon : Lexes Anything "; " [⟨.semicolon, ";"⟩] :=
    (@lexes_closed ";" .semicolon (by decide) (by decide)).append_space trivial
  have htext : "fn() \x7b" ++ body ++ "\x7d; " = "fn() \x7b" ++ (body ++ "\x7d" ++ "; ") := by
    rw [String.append_assoc, String.append_assoc]
    rfl
  have hlexes := lexes_functionHead.append_of_anything (hbody.append_of_anything hsemicolon)
  rw [htext, String.toList_append, hlexes after.toList fun _ _ => trivial]
  simp only [List.append_assoc]
  rfl

/-- A text without braces that is enclosed as the body of a function is read as it is by itself, if
no operand is to come at its end: its statements are those of the body, and so are its faults,
except that those at its end are at the closing brace. What comes after the function is read as it
is by itself as well. -/
theorem parse_enclosed {body : String} (hopen : '\x7b' ∉ body.toList)
    (hclose : '\x7d' ∉ body.toList)
    (hlast : ∀ token ∈ (tokenize body.toList).getLast?, token.kind.wantsOperand = false)
    (after : String) :
    parse ("fn() \x7b" ++ body ++ "\x7d; " ++ after) =
      ⟨.program (.expressionStatement (.function [] (.block (parse body).program.statements)) ::
          (parse after).program.statements),
        (parse body).errors.map (Diagnostic.insteadOfEnd .rbrace) ++ (parse after).errors⟩ := by
  have hlength := length_tokenize_le ("fn() \x7b" ++ body ++ "\x7d; " ++ after).toList
  have hstand := start_lexer_standsAt ("fn() \x7b" ++ body ++ "\x7d; " ++ after).toList
  rw [tokenize_enclosed] at hlength hstand
  generalize ("fn() \x7b" ++ body ++ "\x7d; " ++ after).toList.length = size at hlength
  have hwhole : (functionHead ++ (tokenize body.toList ++ ⟨.rbrace, "\x7d"⟩ ::
      ⟨.semicolon, ";"⟩ :: tokenize after.toList)).length < size + 1 := Nat.lt_succ_of_le hlength
  rw [List.length_append] at hlength
  have hsize := Nat.le_trans (Nat.le_add_left _ _) hlength
  have hbody : (tokenize body.toList).length < size + 1 := by
    rw [List.length_append] at hsize
    omega
  have hafter : (tokenize after.toList).length < size + 1 := by
    simp only [List.length_append, List.length_cons] at hsize
    omega
  obtain ⟨statements, p', hdone, -⟩ :=
    exists_program (start_lexer_standsAt body.toList) hbody hbody
  obtain ⟨last, hfunction, hsemicolon, herrors⟩ := exists_statement_function
    (enclosable_tokenize hopen hclose hlast) (start_lexer_standsAt body.toList)
    (by rw [Parser.start_errors, Parser.start_errors, Array.map_empty]) hdone hstand hsize
  -- the loop goes on after the semicolon
  obtain ⟨more, last', hrest, -⟩ :=
    exists_program hsemicolon.faces.advance hafter (Nat.lt_succ_of_lt hafter)
  obtain ⟨hprogram, hfaults⟩ := parse_of_standsAt hsemicolon.faces.advance hrest
  have hopen' : (Parser.start (⟨("fn() \x7b" ++ body ++ "\x7d; " ++ after).toList⟩ :
      Lexer)).current.kind = .fnWord := hstand.current_kind
  have hcollects := Collects.keep (by rw [hopen']; rfl) hfunction (collects_of_program hrest)
  obtain ⟨_, _, hall, -⟩ := exists_program hstand hwhole (Nat.lt_succ_of_lt hwhole)
  have hread := hcollects.program_eq (by rw [hall]; exact fun h => nomatch h)
  have hbefore : last.advance.errors.toList =
      p'.errors.toList.map (Diagnostic.insteadOfEnd .rbrace) := by
    rw [← Array.toList_map, ← herrors]
    rfl
  rw [parse_of_program hread, parse_of_program hdone, ← hprogram, hfaults, hbefore]
  rfl

/-- A body with a fault at its end, and a brace after the function that closes nothing. -/
theorem parse_enclosed_faulty :
    parse "let x = 1 fn" = ⟨.program [.letStatement (.identifier "x") (.integer 1)],
        [.unexpected .lparen .eof]⟩ ∧
      parse ("fn() \x7b" ++ "let x = 1 fn" ++ "\x7d; " ++ "\x7d y") = ⟨.program
          [.expressionStatement (.function []
            (.block [.letStatement (.identifier "x") (.integer 1)])),
          .expressionStatement (.identifier "y")],
        [.unexpected .lparen .rbrace]⟩ := by
  have hbody : parse "let x = 1 fn" = _ := (@eq_parse 30 _ _ rfl).symm
  have hafter : parse "\x7d y" = _ := (@eq_parse 30 _ _ rfl).symm
  refine ⟨hbody, (parse_enclosed (by decide) (by decide) (by decide +kernel) "\x7d y").trans ?_⟩
  rw [hbody, hafter]
  rfl

/-- An operator without an operand at the end of the body takes the closing brace away from the
block: the block goes on to the end of the text, and there is no fault. -/
theorem parse_enclosed_bang :
    parse "!" = ⟨.program [], []⟩ ∧
      parse "x" = ⟨.program [.expressionStatement (.identifier "x")], []⟩ ∧
      parse ("fn() \x7b" ++ "!" ++ "\x7d; " ++ "x") = ⟨.program [.expressionStatement (.function []
        (.block [.expressionStatement (.identifier "x")]))], []⟩ :=
  ⟨(@eq_parse 30 _ _ rfl).symm, (@eq_parse 30 _ _ rfl).symm, (@eq_parse 30 _ _ rfl).symm⟩

/-- So not every text without braces and without a fault is read as the body of a function as it is
by itself. -/
theorem not_forall_parse_enclosed : ¬ ∀ body after : String, '\x7b' ∉ body.toList →
    '\x7d' ∉ body.toList → (parse body).errors = [] →
      parse ("fn() \x7b" ++ body ++ "\x7d; " ++ after) =
        ⟨.program (.expressionStatement (.function [] (.block (parse body).program.statements)) ::
          (parse after).program.statements), (parse after).errors⟩ := by
  intro h
  obtain ⟨hbody, hafter, hwhole⟩ := parse_enclosed_bang
  have hclaim := h "!" "x" (by decide) (by decide) (by rw [hbody])
  rw [hbody, hafter, hwhole] at hclaim
  exact absurd (Parsed.mk.inj hclaim).1 (by simp [Node.statements])

end ExprLang
