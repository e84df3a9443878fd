import ExprLang.Proofs.Termination

/-!
# Where an expression ends

Tokens without `if` and `fn` have no blocks in them, so nothing is passed over when an expression is
read from them, and what is read is decided by the floor alone: it is the one beginning of the
tokens that forms an expression of operators above the floor and that no operator above the floor
carries on. The parser is left at the last token of it, and nothing is reported. If the tokens have
no such beginning, nothing is read.
-/

namespace ExprLang

open Outcome Phrase

namespace Phrase

/-- There is no `if` and no `fn` in a list of tokens. -/
def Plain (tokens : List Token) : Prop :=
  ∀ token ∈ tokens, token.kind ≠ .ifWord ∧ token.kind ≠ .fnWord

/-- An end of plain tokens is plain. -/
theorem Plain.of_suffix {tokens rest : List Token} (h : Plain tokens) (hrest : rest <:+ tokens) :
    Plain rest :=
  fun token hmem => h token (hrest.subset hmem)

/-- A phrase reaches from `tokens` to `rest` whatever comes instead of `rest`. -/
def Framed (phrase : List Token → List Token → Prop) (tokens rest : List Token) : Prop :=
  ∃ read, tokens = read ++ rest ∧ ∀ more, phrase (read ++ more) more

section Framed

variable {phrase phrase' phrase'' : List Token → List Token → Prop} {token : Token}
  {tokens middle rest : List Token}

/-- What a phrase is part of, between the same tokens. -/
theorem Framed.imp (h : Framed phrase tokens rest)
    (himp : ∀ tokens rest, phrase tokens rest → phrase' tokens rest) :
    Framed phrase' tokens rest := by
  obtain ⟨read, rfl, hread⟩ := h
  exact ⟨read, rfl, fun more => himp _ _ (hread more)⟩

/-- A phrase of one token. -/
theorem Framed.single (h : ∀ rest, phrase (token :: rest) rest) :
    Framed phrase (token :: rest) rest :=
  ⟨[token], rfl, h⟩

/-- A phrase after one more token. -/
theorem Framed.cons (h : Framed phrase tokens rest)
    (hcons : ∀ tokens rest, phrase tokens rest → phrase' (token :: tokens) rest) :
    Framed phrase' (token :: tokens) rest := by
  obtain ⟨read, rfl, hread⟩ := h
  exact ⟨token :: read, rfl, fun more => hcons _ _ (hread more)⟩

/-- A phrase before one more token. -/
theorem Framed.concat (h : Framed phrase tokens (token :: rest))
    (hconcat : ∀ tokens rest, phrase tokens (token :: rest) → phrase' tokens rest) :
    Framed phrase' tokens rest := by
  obtain ⟨read, rfl, hread⟩ := h
  refine ⟨read ++ [token], by rw [List.append_assoc]; rfl, fun more => hconcat _ _ ?_⟩
  rw [List.append_assoc]
  exact hread (token :: more)

/-- Two phrases with a token between them. -/
theorem Framed.append (h : Framed phrase tokens (token :: middle)) (h' : Framed phrase' middle rest)
    (happend : ∀ tokens middle rest, phrase tokens (token :: middle) → phrase' middle rest →
      phrase'' tokens rest) : Framed phrase'' tokens rest := by
  obtain ⟨read, rfl, hread⟩ := h
  obtain ⟨read', rfl, hread'⟩ := h'
  refine ⟨read ++ token :: read', by rw [List.append_assoc]; rfl, fun more => ?_⟩
  rw [List.append_assoc]
  exact happend _ _ _ (hread (token :: (read' ++ more))) (hread' more)

end Framed

variable {mode : Mode}

mutual

/-- An expression of plain tokens has no block and is one of the exact grammar, whatever follows. -/
theorem Expression.framed {level tokens rest node} :
    Expression mode level tokens rest node → Plain tokens →
      Framed (Expression .exact level · · node) tokens rest ∧ node.hasBlock = false
  | .tighter h, hplain => (h.framed hplain).imp_left (·.imp fun _ _ => .tighter)
  | .binary hkind hleft hright, hplain => by
    have hmiddle := hplain.of_suffix (suffix_of_cons_suffix hleft.begins.suffix)
    obtain ⟨hleft, hclear⟩ := hleft.framed hplain
    obtain ⟨hright, hclear'⟩ := hright.framed hmiddle
    exact ⟨hleft.append hright fun _ _ _ => .binary hkind,
      Bool.or_eq_false_iff.mpr ⟨hclear, hclear'⟩⟩
  | .unary hkind hright, hplain =>
    (hright.framed (hplain.of_suffix (List.suffix_cons _ _))).imp_left
      (·.cons fun _ _ => .unary hkind)
  | .call hkind hcallee harguments, hplain => by
    have hmiddle := hplain.of_suffix (suffix_of_cons_suffix hcallee.begins.suffix)
    obtain ⟨hcallee, hclear⟩ := hcallee.framed hplain
    obtain ⟨harguments, hclear'⟩ := harguments.framed hmiddle
    exact ⟨hcallee.append harguments fun _ _ _ => .call hkind,
      Bool.or_eq_false_iff.mpr ⟨hclear, hclear'⟩⟩
  | .primary h, hplain => (h.framed hplain).imp_left (·.imp fun _ _ => .primary)

/-- A primary expression of plain tokens has no block and is one of the exact grammar. -/
theorem Primary.framed {tokens rest node} : Primary mode tokens rest node → Plain tokens →
    Framed (Primary .exact · · node) tokens rest ∧ node.hasBlock = false
  | .identifier hkind, _ => ⟨.single fun _ => .identifier hkind, rfl⟩
  | .integer hkind hvalue, _ => ⟨.single fun _ => .integer hkind hvalue, rfl⟩
  | .true hkind, _ => ⟨.single fun _ => .true hkind, rfl⟩
  | .false hkind, _ => ⟨.single fun _ => .false hkind, rfl⟩
  | @Primary.grouped _ _ closing _ _ _ hopening hclosing hinner, hplain => by
    obtain ⟨hinner, hclear⟩ := hinner.framed (hplain.of_suffix (List.suffix_cons _ _))
    have hclosed : Framed (fun tokens rest => Expression .exact .lowest tokens (closing :: rest) _)
        _ _ := hinner.concat fun _ _ h => h
    exact ⟨hclosed.cons fun _ _ => .grouped hopening hclosing, hclear⟩
  | .choice hkind _ _ _ _, hplain => absurd hkind (hplain _ List.mem_cons_self).1
  | .choiceElse hkind _ _ _ _ _ _, hplain => absurd hkind (hplain _ List.mem_cons_self).1
  | .function hkind _ _ _, hplain => absurd hkind (hplain _ List.mem_cons_self).2

/-- Arguments of plain tokens have no block and are those of the exact grammar. -/
theorem Arguments.framed {tokens rest arguments} : Arguments mode tokens rest arguments →
    Plain tokens → Framed (Arguments .exact · · arguments) tokens rest ∧
      Node.hasBlockEach arguments = false
  | .none hkind, _ => ⟨.single fun _ => .none hkind, rfl⟩
  | .some h, hplain => (h.framed hplain).imp_left (·.imp fun _ _ => .some)

/-- Arguments of plain tokens have no block and are those of the exact grammar. -/
theorem ArgumentsFrom.framed {tokens rest arguments} : ArgumentsFrom mode tokens rest arguments →
    Plain tokens → Framed (ArgumentsFrom .exact · · arguments) tokens rest ∧
      Node.hasBlockEach arguments = false
  | .last hkind hargument, hplain => by
    obtain ⟨hargument, hclear⟩ := hargument.framed hplain
    exact ⟨hargument.concat fun _ _ => .last hkind, Bool.or_eq_false_iff.mpr ⟨hclear, rfl⟩⟩
  | .more hkind hargument hmore, hplain => by
    have hmiddle := hplain.of_suffix (suffix_of_cons_suffix hargument.begins.suffix)
    obtain ⟨hargument, hclear⟩ := hargument.framed hplain
    obtain ⟨hmore, hclear'⟩ := hmore.framed hmiddle
    exact ⟨hargument.append hmore fun _ _ _ => .more hkind,
      Bool.or_eq_false_iff.mpr ⟨hclear, hclear'⟩⟩

end

/-- The tokens are split into an expression of operators above a floor and what follows it, which no
operator above the floor begins. -/
structure Split (floor : Precedence) (tokens read rest : List Token) (node : Node) : Prop where
  parts : tokens = read ++ rest
  derives : Expression .exact floor.operand read [] node
  stops : (headKind rest).precedence.rank ≤ floor.rank

variable {floor : Precedence} {tokens read rest : List Token} {node : Node}

/-- An expression of plain tokens that no operator above the floor carries on makes a split. -/
theorem Expression.exists_split (h : Expression mode floor.operand tokens rest node)
    (hplain : Plain tokens) (hstops : (headKind rest).precedence.rank ≤ floor.rank) :
    ∃ read, Split floor tokens read rest node := by
  obtain ⟨⟨read, hparts, hread⟩, -⟩ := h.framed hplain
  exact ⟨read, hparts, List.append_nil read ▸ hread [], hstops⟩

/-- What is split off plain tokens is an expression in front of the rest, which does not carry it
on. -/
theorem Split.expression (h : Split floor tokens read rest node) (hplain : Plain tokens) :
    Expression .exact floor.operand tokens rest node ∧ Ends floor rest node := by
  obtain ⟨rfl, hderives, hstops⟩ := h
  have hread : Plain read := fun token hmem => hplain token (List.mem_append_left rest hmem)
  obtain ⟨⟨read', hparts, hframe⟩, hclear⟩ := hderives.framed hread
  rw [List.append_nil] at hparts
  subst hparts
  exact ⟨hframe rest, hstops, fun _ => hclear⟩

end Phrase

namespace Parser

/-- A step has one reply and leads to one parser. -/
theorem Ends.unique {σ : Type} [TokenSource σ] {parser last last' : Parser σ} {left : List Token}
    {step : Call} {reply reply' : Reply} (h : parser.Ends left step reply last)
    (h' : parser.Ends left step reply' last') : reply = reply' ∧ last = last' := by
  have hperform := h.perform
  rw [h'.perform] at hperform
  exact (Prod.mk.inj (Option.some.inj hperform)).imp Eq.symm Eq.symm

variable {σ : Type} [LawfulSource σ] {parser : Parser σ} {floor : Precedence}
  {tokens read rest : List Token} {node : Node}

/-- Reading an expression comes to an end, and the reply is a tree or that there is none. -/
theorem StandsAt.exists_expression_ends (hstand : parser.StandsAt tokens) (floor : Int) :
    ∃ found last, parser.Ends tokens (.expression floor) (.node found) last := by
  obtain ⟨reply, last, hends⟩ := hstand.exists_ends (.expression floor)
  rcases Outcome.of_reply hends.perform with ⟨node, -, rfl⟩ | ⟨-, rfl⟩
  · exact ⟨some node, last, hends⟩
  · exact ⟨none, last, hends⟩

/-- The parser stands at the last token of `read`, and `rest` are the tokens after it. -/
def StandsAtLast (read rest : List Token) (parser : Parser σ) : Prop :=
  ∃ token, read.getLast? = some token ∧ parser.StandsAt (token :: rest)

/-- A parser has one list of tokens after it. -/
theorem StandsAtLast.rest_eq {read' rest' : List Token} (h : parser.StandsAtLast read rest)
    (h' : parser.StandsAtLast read' rest') : rest = rest' := by
  obtain ⟨token, -, hstand⟩ := h
  obtain ⟨token', -, hstand'⟩ := h'
  exact (List.cons.inj (hstand.unique hstand')).2

/-- What a split has is read, up to its last token and without a report. -/
theorem StandsAt.ends_of_split (hstand : parser.StandsAt tokens) (hplain : Plain tokens)
    (hfloor : floor ≠ .call) (h : Split floor tokens read rest node) :
    ∃ last, parser.Ends tokens (.expression floor.floor) (.node (some node)) last ∧
      last.StandsAtLast read rest ∧ last.errors = parser.errors := by
  obtain ⟨hexpression, hends⟩ := h.expression hplain
  have hlimit : tokens.length < tokens.length + 1 := Nat.lt_succ_self _
  obtain ⟨token, last, hdone, hlast, herrors⟩ := (Grammar.expressionWithin_accepts
    (tokens.length + 1) (tokens.length + 1) (Nat.le_refl _) (Nat.le_succ _)).accepts hfloor hlimit
      hexpression hends parser hstand
  have hperform : parser.perform ⟨tokens.length + 1, tokens.length + 1⟩ (.expression floor.floor) =
      some (.node (some node), last) := congrArg (Outcome.reply .node) hdone
  refine ⟨last, fun _ hnesting hrounds => perform_of_le hperform hstand hnesting hrounds,
    ⟨token, ?_, hlast⟩, herrors⟩
  -- the parser only moved on, so what it passed are the tokens before the rest
  obtain ⟨left, ⟨passed, hpassed⟩, hleft⟩ :=
    hstand.exists_of_leadsTo (.single ⟨_, _, _, hperform⟩)
  rw [hleft.unique hlast, h.parts, List.append_cons, List.append_cancel_right_eq] at hpassed
  rw [← hpassed, List.getLast?_concat]

/-- What is read is had by a split, up to whose last token it is read without a report. -/
theorem StandsAt.exists_split_of_ends {last : Parser σ} (hstand : parser.StandsAt tokens)
    (hplain : Plain tokens) (hfloor : floor ≠ .call)
    (h : parser.Ends tokens (.expression floor.floor) (.node (some node)) last) :
    ∃ read rest, Split floor tokens read rest node ∧ last.StandsAtLast read rest ∧
      last.errors = parser.errors := by
  have hreads := Grammar.expressionWithin_reads (tokens.length + 1) (tokens.length + 1) hfloor
    hstand
  rcases Outcome.of_reply h.perform with ⟨value, houtcome, hvalue⟩ | ⟨-, hnone⟩
  · obtain rfl := Option.some.inj (Reply.node.inj hvalue)
    change Grammar.expressionWithin _ _ floor.floor parser = _ at houtcome
    rw [houtcome] at hreads
    obtain ⟨rest, -, hexpression, hstops⟩ := hreads
    obtain ⟨read, hsplit⟩ := hexpression.exists_split hplain hstops
    obtain ⟨last', hends', hlast, herrors⟩ := hstand.ends_of_split hplain hfloor hsplit
    obtain ⟨-, rfl⟩ := h.unique hends'
    exact ⟨read, rest, hsplit, hlast, herrors⟩
  · exact nomatch hnone

/-- Above a floor plain tokens have one split at most. -/
theorem StandsAt.split_unique {read' rest' : List Token} {node' : Node}
    (hstand : parser.StandsAt tokens) (hplain : Plain tokens) (hfloor : floor ≠ .call)
    (h : Split floor tokens read rest node) (h' : Split floor tokens read' rest' node') :
    read = read' ∧ rest = rest' ∧ node = node' := by
  obtain ⟨last, hends, hlast, -⟩ := hstand.ends_of_split hplain hfloor h
  obtain ⟨last', hends', hlast', -⟩ := hstand.ends_of_split hplain hfloor h'
  obtain ⟨hreply, rfl⟩ := hends.unique hends'
  obtain rfl := hlast.rest_eq hlast'
  have hread : read ++ rest = read' ++ rest := h.parts.symm.trans h'.parts
  exact ⟨List.append_cancel_right hread, rfl, Option.some.inj (Reply.node.inj hreply)⟩

/-- Above a floor an expression is read from plain tokens, with the parser left at its last token,
exactly if the tokens are split into it and the rest. So nothing is read exactly if there is no
split, and there are no two splits. What is read is read without a report. -/
theorem StandsAt.expression_ends_iff (hstand : parser.StandsAt tokens) (hplain : Plain tokens)
    (hfloor : floor ≠ .call) :
    (∀ read rest node,
      (tokens = read ++ rest ∧ ∃ last,
        parser.Ends tokens (.expression floor.floor) (.node (some node)) last ∧
          last.StandsAtLast read rest) ↔ Split floor tokens read rest node) ∧
    ((∃ last, parser.Ends tokens (.expression floor.floor) (.node none) last) ↔
      ¬ ∃ read rest node, Split floor tokens read rest node) ∧
    (∀ read rest node read' rest' node', Split floor tokens read rest node →
      Split floor tokens read' rest' node' → read = read' ∧ rest = rest' ∧ node = node') ∧
    ∀ node last, parser.Ends tokens (.expression floor.floor) (.node (some node)) last →
      last.errors = parser.errors := by
  refine ⟨fun read rest node => ⟨?_, fun hsplit => ?_⟩, ⟨?_, fun hnone => ?_⟩,
    fun _ _ _ _ _ _ => hstand.split_unique hplain hfloor, fun node last hends => ?_⟩
  · rintro ⟨hparts, last, hends, hlast⟩
    obtain ⟨read', rest', hsplit, hlast', -⟩ := hstand.exists_split_of_ends hplain hfloor hends
    obtain rfl := hlast.rest_eq hlast'
    rwa [List.append_cancel_right (hparts.symm.trans hsplit.parts)]
  · obtain ⟨last, hends, hlast, -⟩ := hstand.ends_of_split hplain hfloor hsplit
    exact ⟨hsplit.parts, last, hends, hlast⟩
  · rintro ⟨last, hends⟩ ⟨read, rest, node, hsplit⟩
    obtain ⟨last', hends', -⟩ := hstand.ends_of_split hplain hfloor hsplit
    exact nomatch (hends.unique hends').1
  · obtain ⟨found, last, hends⟩ := hstand.exists_expression_ends floor.floor
    cases found with
    | none => exact ⟨last, hends⟩
    | some node =>
      obtain ⟨read, rest, hsplit, -⟩ := hstand.exists_split_of_ends hplain hfloor hends
      exact absurd ⟨read, rest, node, hsplit⟩ hnone
  · obtain ⟨_, _, -, -, herrors⟩ := hstand.exists_split_of_ends hplain hfloor hends
    exact herrors

/-- Above the floor of sums the difference is not read, and the product before it is: it has a
negated call for its left operand. -/
theorem StandsAt.expression_ends_iff_product :
    (start (tokenize "-a(b) * c - d".toList)).StandsAt (tokenize "-a(b) * c - d".toList) ∧
      Plain (tokenize "-a(b) * c - d".toList) ∧ Precedence.sum ≠ .call ∧
      Split .sum (tokenize "-a(b) * c - d".toList) (tokenize "-a(b) * c".toList)
        (tokenize "- d".toList)
        (.binary (.unary "-" (.call (.identifier "a") [.identifier "b"])) "*" (.identifier "c")) ∧
      ∃ last, (start (tokenize "-a(b) * c - d".toList)).Ends (tokenize "-a(b) * c - d".toList)
          (.expression Precedence.sum.floor) (.node (some (.binary
            (.unary "-" (.call (.identifier "a") [.identifier "b"])) "*" (.identifier "c")))) last ∧
        last.StandsAtLast (tokenize "-a(b) * c".toList) (tokenize "- d".toList) ∧
        last.errors = #[] := by
  have hstand : (start (tokenize "-a(b) * c - d".toList)).StandsAt
      (tokenize "-a(b) * c - d".toList) :=
    start_standsAt fun _ hmem => kind_ne_eof_of_mem_tokenize hmem
  have hplain : Plain (tokenize "-a(b) * c - d".toList) := by
    unfold Plain
    decide +kernel
  have hread : tokenize "-a(b) * c".toList = [⟨.minus, "-"⟩, ⟨.ident, "a"⟩, ⟨.lparen, "("⟩,
      ⟨.ident, "b"⟩, ⟨.rparen, ")"⟩, ⟨.asterisk, "*"⟩, ⟨.ident, "c"⟩] := by decide +kernel
  have hsplit : Split .sum (tokenize "-a(b) * c - d".toList) (tokenize "-a(b) * c".toList)
      (tokenize "- d".toList)
      (.binary (.unary "-" (.call (.identifier "a") [.identifier "b"])) "*" (.identifier "c")) := by
    refine ⟨by decide +kernel, ?_, by decide +kernel⟩
    have hargument : Expression .exact .lowest [⟨.ident, "b"⟩, ⟨.rparen, ")"⟩, ⟨.asterisk, "*"⟩,
        ⟨.ident, "c"⟩] [⟨.rparen, ")"⟩, ⟨.asterisk, "*"⟩, ⟨.ident, "c"⟩] (.identifier "b") :=
      Expression.loosen (.primary (.identifier rfl)) (Nat.zero_le _)
    rw [hread]
    exact @Expression.binary _ .product ⟨.asterisk, "*"⟩ _ _ _ _ _ (by decide)
      (.tighter (.unary (.inr rfl) (.tighter (.call rfl (.primary (.identifier rfl))
        (.some (.last rfl hargument))))))
      (.tighter (.primary (.identifier rfl)))
  obtain ⟨hiff, -, -, hquiet⟩ := hstand.expression_ends_iff hplain (show Precedence.sum ≠ .call by
    decide)
  obtain ⟨-, last, hends, hlast⟩ := (hiff _ _ _).mpr hsplit
  exact ⟨hstand, hplain, by decide, hsplit, last, hends, hlast, hquiet _ _ hends⟩

end Parser

end ExprLang
