import ExprLang.Proofs.Termination

/-!
# Where a construct is given up

A construct is given up at its fault and nowhere else. Whatever surrounds it is given up on the
spot: the parser stays where the fault was found, nothing is reported after it, and nothing that was
reported is taken back. So the last report, if there is one, is about the tokens at which the parser
was left. What is read without a block in it is read without a report, as only in a block is reading
resumed after a fault.
-/

namespace ExprLang

open Outcome

variable {σ α β : Type} {before : List Diagnostic}

/-- The value of a numeral exceeds that of every signed 64-bit integer, or it has more than 4300
digits. -/
def Text.Oversized (text : String) : Prop :=
  4300 < text.toList.length ∨ 0x7fffffffffffffff < Nat.ofDigitChars 10 text.toList 0

instance : DecidablePred Text.Oversized :=
  fun text => inferInstanceAs (Decidable (4300 < text.toList.length ∨ _))

/-- From a run of digits an integer is read unless it is oversized. -/
theorem Text.integerOf?_digits {text : String} (hempty : text.toList ≠ [])
    (hdigits : ∀ c ∈ text.toList, c.isDigit = true) :
    integerOf? text =
      if Oversized text then none else some (Nat.ofDigitChars 10 text.toList 0) := by
  split
  next h =>
    refine Option.eq_none_iff_forall_ne_some.mpr fun value hvalue => ?_
    have hnumeral := integerOf?_eq_some_iff.mp hvalue
    rcases h with hlong | hgreat
    · exact Nat.not_le_of_lt hlong hnumeral.short
    · exact Nat.not_le_of_lt hgreat (hnumeral.reads ▸ hnumeral.fits)
  next h =>
    obtain ⟨hshort, hfits⟩ := not_or.mp h
    exact integerOf?_eq_some_iff.mpr
      ⟨hempty, hdigits, Nat.le_of_not_lt hshort, rfl, Nat.le_of_not_lt hfits⟩

/-- A token of digits from which no integer is read is oversized. -/
theorem Text.oversized_of_integerOf?_eq_none {text : String}
    (hspelled : Token.isSpelled ⟨.int, text⟩ = true) (h : integerOf? text = none) :
    Oversized text := by
  have hdigits : text.toList ≠ [] ∧ ∀ c ∈ text.toList, c.isDigit = true := by
    simpa [Token.isSpelled] using hspelled
  rw [integerOf?_digits hdigits.1 hdigits.2] at h
  exact Decidable.of_not_not fun hsmall => Option.some_ne_none _ ((if_neg hsmall).symm.trans h)

/-- The fault is one at the place of a parser: the next token is of another kind than the expected
one, or the token under examination is an oversized numeral. -/
def Diagnostic.IsAt (parser : Parser σ) : Diagnostic → Prop
  | .unexpected expected found => found = parser.peek.kind ∧ expected ≠ found
  | .unreadable literal => parser.current = ⟨.int, literal⟩ ∧ Text.Oversized literal

namespace Parser

/-- The parser is at the fault for which a construct was given up, when the faults `before` had been
reported: no expression begins with the token under examination, or the last one of the faults
reported since then is one at its place. -/
def AtFault (before : List Diagnostic) (parser : Parser σ) : Prop :=
  Phrase.startsExpression parser.current.kind = false ∨
    ∃ more fault, parser.errors.toList = before ++ more ++ [fault] ∧ fault.IsAt parser

/-- A construct was given up at its fault, and the faults `before` were reported first. Any text may
stand in a token that was not read from a text, so such a token says nothing about numerals. -/
def GivesUp (before : List Diagnostic) (parser : Parser σ) : Prop :=
  before <+: parser.errors.toList ∧ (parser.current.isSpelled = true → parser.AtFault before)

/-- The faults `before` were reported first, and in case `quiet` holds there are no others. -/
def Extends (before : List Diagnostic) (quiet : Prop) (parser : Parser σ) : Prop :=
  before <+: parser.errors.toList ∧ (quiet → parser.errors.toList = before)

variable {quiet : Prop} {parser : Parser σ}

/-- Reports are excluded in fewer cases. -/
theorem Extends.mono {quiet' : Prop} (h : parser.Extends before quiet) (hquiet : quiet' → quiet) :
    parser.Extends before quiet' :=
  ⟨h.1, h.2 ∘ hquiet⟩

/-- To report a fault at its place is to give up at it. -/
theorem Extends.report {fault : Diagnostic} (h : parser.Extends before quiet)
    (hfault : parser.current.isSpelled = true → fault.IsAt parser) :
    (parser.report fault).GivesUp before := by
  obtain ⟨⟨more, hmore⟩, -⟩ := h
  have herrors : (parser.report fault).errors.toList = before ++ more ++ [fault] := by
    rw [hmore]
    exact Array.toList_push
  refine ⟨herrors ▸ ⟨more ++ [fault], (List.append_assoc ..).symm⟩, fun hspelled => ?_⟩
  -- a report changes neither the token under examination nor the next one
  have hplace : fault.IsAt (parser.report fault) := by
    have := hfault hspelled
    cases fault <;> exact this
  exact .inr ⟨more, fault, herrors, hplace⟩

end Parser

/-! ## Contracts on reports -/

namespace Rule

/-- The rule keeps the faults that were reported before, is given up at its fault only, and if
`quiet` excludes other reports before it, so does `quiet'` after it. -/
def Reports (quiet : Prop) (rule : Rule σ α) (quiet' : α → Prop) : Prop :=
  ∀ before (parser : Parser σ), parser.Extends before quiet →
    (rule parser).Meets True (Parser.GivesUp before) fun value =>
      Parser.Extends before (quiet' value)

variable {quiet : Prop} {quiet' : α → Prop} {rule : Rule σ α}

/-- A contract may be used where reports are excluded in more cases. -/
theorem Reports.of_imp {stronger : Prop} (h : rule.Reports quiet quiet')
    (hquiet : quiet → stronger) : rule.Reports stronger quiet' :=
  fun before parser hparser => h before parser (hparser.mono hquiet)

/-- A contract may exclude reports in fewer cases. -/
theorem Reports.imp {weaker : α → Prop} (h : rule.Reports quiet quiet')
    (hquiet : ∀ value, weaker value → quiet' value) : rule.Reports quiet weaker :=
  fun before parser hparser => Meets.mono (h before parser hparser) id (fun _ hfault => hfault)
    fun value _ hpost => hpost.mono (hquiet value)

/-- In a sequence the second rule reports after the first one. -/
theorem Reports.bind {next : α → Rule σ β} {last : β → Prop} (h : rule.Reports quiet quiet')
    (hnext : ∀ value, (next value).Reports (quiet' value) last) :
    (rule >>= next).Reports quiet last :=
  fun before parser hparser => Meets.bind (h before parser hparser) fun value after hpost =>
    hnext value before after hpost

/-- A rule that is always done without a report adds none. -/
theorem Reports.of_done
    (h : ∀ parser, ∃ value last, rule parser = .done value last ∧ last.errors = parser.errors) :
    rule.Reports quiet fun _ => quiet := by
  intro before parser hparser
  obtain ⟨value, last, hdone, herrors⟩ := h parser
  rw [hdone]
  change last.Extends before quiet
  rwa [Parser.Extends, herrors]

/-- To yield a value is to report nothing. -/
theorem Reports.pure {value : α} (h : quiet' value → quiet) :
    (Pure.pure value : Rule σ α).Reports quiet quiet' :=
  fun _ _ hparser => hparser.mono h

/-- To look at a token is to report nothing. -/
theorem Reports.current : (Rule.current : Rule σ Token).Reports quiet fun _ => quiet :=
  .of_done fun _ => ⟨_, _, rfl, rfl⟩

/-- To look at the next token is to report nothing. -/
theorem Reports.peek : (Rule.peek : Rule σ Token).Reports quiet fun _ => quiet :=
  .of_done fun _ => ⟨_, _, rfl, rfl⟩

/-- A rule for a tree: without a block in the tree it reports nothing. -/
def Tells (rule : Rule σ Node) : Prop :=
  ∀ quiet, rule.Reports quiet fun node => quiet ∧ node.hasBlock = false

/-- A tree that is put together from what was read has a block if a part has one. -/
theorem Tells.bind_pure {rule : Rule σ Node} (h : rule.Tells) (form : Node → Node)
    (hform : ∀ node, (form node).hasBlock = false → node.hasBlock = false) :
    (rule >>= fun node => Pure.pure (form node)).Tells :=
  fun quiet => (h quiet).bind fun node => .pure fun hquiet => ⟨hquiet.1, hform node hquiet.2⟩

variable [TokenSource σ]

/-- To move on is to report nothing. -/
theorem Reports.advance : (Rule.advance : Rule σ Unit).Reports quiet fun _ => quiet :=
  .of_done fun _ => ⟨_, _, rfl, rfl⟩

/-- To accept a token is to report nothing, be it there or not. -/
theorem Reports.accept (kind : Kind) :
    (Rule.accept kind : Rule σ Unit).Reports quiet fun _ => quiet := by
  refine .of_done fun parser => ⟨_, _, rfl, ?_⟩
  split <;> rfl

/-- To expect a token is to report that it is not next, if it is not. -/
theorem Reports.expect (kind : Kind) :
    (Rule.expect kind : Rule σ Unit).Reports quiet fun _ => quiet := by
  intro before parser hparser
  by_cases hkind : parser.peek.kind = kind
  · rw [expect_of_eq hkind]
    exact hparser
  · rw [expect_of_ne hkind]
    exact hparser.report fun _ => ⟨rfl, Ne.symm hkind⟩

end Rule

namespace Grammar

open Rule

/-! ## Words, numerals and parameters -/

variable {quiet : Prop}

/-- A name is read without a report. -/
theorem identifier_reports : (identifier : Rule σ Node).Reports quiet fun _ => quiet :=
  .of_done fun _ => ⟨_, _, rfl, rfl⟩

/-- A truth value is read without a report. -/
theorem boolean_reports : (boolean : Rule σ Node).Reports quiet fun _ => quiet :=
  .of_done fun _ => ⟨_, _, rfl, rfl⟩

/-- A numeral that is no integer is reported where it stands. -/
theorem integer_meets_givesUp {parser : Parser σ} (hkind : parser.current.kind = .int)
    (hparser : parser.Extends before quiet) :
    (integer parser).Meets True (Parser.GivesUp before) fun _ => Parser.Extends before quiet := by
  have hcurrent : parser.current = ⟨.int, parser.current.literal⟩ :=
    congrArg (Token.mk · parser.current.literal) hkind
  rw [integer, current_bind_apply]
  cases hread : Text.integerOf? parser.current.literal with
  | some value => exact hparser
  | none =>
    refine hparser.report fun hspelled => ⟨hcurrent, ?_⟩
    exact Text.oversized_of_integerOf?_eq_none (hcurrent ▸ hspelled) hread

variable [TokenSource σ] {steps : Nat} {nested : Int → Rule σ Node}

/-- The rest of a list of parameters reports nothing unless it is given up. -/
theorem parametersFrom_reports (steps : Nat) (read : Array Node) :
    (parametersFrom steps read : Rule σ (List Node)).Reports quiet fun _ => quiet := by
  induction steps generalizing read with
  | zero => exact fun _ _ _ => trivial
  | succ steps ih =>
    refine Reports.peek.bind fun _ => ?_
    split
    · exact Reports.advance.bind fun _ => (Reports.expect _).bind fun _ =>
        identifier_reports.bind fun parameter => ih (read.push parameter)
    · exact (Reports.expect _).bind fun _ => .pure id

/-- Parameters report nothing unless they are given up. -/
theorem parameters_reports (steps : Nat) :
    (parameters steps : Rule σ (List Node)).Reports quiet fun _ => quiet := by
  refine Reports.peek.bind fun _ => ?_
  split
  · exact Reports.advance.bind fun _ => .pure id
  · exact (Reports.expect _).bind fun _ => identifier_reports.bind fun parameter =>
      parametersFrom_reports steps #[parameter]

section Nested

variable (hnested : ∀ floor, (nested floor).Tells)

include hnested

/-! ## Statements -/

/-- The expression at the end of a statement, and the semicolon after it. -/
theorem accept_tells (floor : Int) (form : Node → Node)
    (hform : ∀ node, (form node).hasBlock = false → node.hasBlock = false) :
    (do let value ← nested floor; accept .semicolon; return form value : Rule σ Node).Tells :=
  fun quiet => (hnested floor quiet).bind fun value => (Reports.accept _).bind fun _ =>
    .pure fun hquiet => ⟨hquiet.1, hform value hquiet.2⟩

/-- A statement of any form is given up at its fault. -/
theorem statement_tells : (statement nested).Tells := by
  have hvalue : ∀ name value : Node,
      (Node.letStatement name value).hasBlock = false → value.hasBlock = false := by
    intro name value h
    rw [Node.hasBlock, Bool.or_eq_false_iff] at h
    exact h.2
  intro quiet before parser hparser
  have hbegun : parser.beginStatement.Extends before quiet := hparser
  unfold statement
  dsimp only
  split
  · have hlet : (letStatement nested).Tells := fun quiet =>
      (Reports.expect _).bind fun _ => identifier_reports.bind fun name =>
        (Reports.expect _).bind fun _ => Reports.advance.bind fun _ =>
          accept_tells hnested _ (.letStatement name) (hvalue name) quiet
    exact hlet quiet before _ hbegun
  · have hreturn : (returnStatement nested).Tells := fun quiet =>
      Reports.advance.bind fun _ => accept_tells hnested _ .returnStatement (fun _ h => h) quiet
    exact hreturn quiet before _ hbegun
  · exact accept_tells hnested _ .expressionStatement (fun _ h => h) quiet before _ hbegun

/-- In a sequence of statements a fault is passed over, and what was reported before it is kept. -/
theorem statementsUntil_reports (closes : Kind → Bool) (steps : Nat) (read : Array Node) :
    (statementsUntil nested closes steps read).Reports quiet fun _ => False := by
  induction steps generalizing read quiet with
  | zero => exact fun _ _ _ => trivial
  | succ steps ih =>
    have hattempt : (attempt (statement nested)).Reports quiet fun _ => False := by
      intro before parser hparser
      refine Meets.mono (Meets.attempt (statement_tells hnested quiet before parser hparser)) id
        (fun _ hnowhere => hnowhere) fun found last hpost => ?_
      cases found with
      | none => exact ⟨hpost.1, False.elim⟩
      | some node => exact hpost.mono False.elim
    refine Reports.current.bind fun _ => ?_
    split
    · exact .pure False.elim
    · refine hattempt.bind fun found => Reports.advance.bind fun _ => ?_
      cases found with
      | none => exact ih read
      | some node => exact ih (read.push node)

/-- A block may report anything, and is one. -/
theorem block_tells : (block steps nested).Tells :=
  fun _ => Reports.advance.bind fun _ => (statementsUntil_reports hnested _ steps #[]).bind
    fun _ => .pure fun hquiet => nomatch hquiet.2

/-! ## Operands -/

/-- An operator and its operand. -/
theorem unary_tells : (unary nested).Tells :=
  fun quiet => Reports.current.bind fun token => Reports.advance.bind fun _ =>
    (hnested _).bind_pure (.unary token.literal) (fun _ h => h) quiet

/-- An expression in parentheses. -/
theorem grouped_tells : (grouped nested).Tells :=
  fun quiet => Reports.advance.bind fun _ => (hnested _ quiet).bind fun _ =>
    (Reports.expect _).bind fun _ => .pure id

/-- A choice with its condition, its block and what may follow them. -/
theorem conditional_tells : (conditional steps nested).Tells := by
  intro quiet
  refine (Reports.expect _).bind fun _ => Reports.advance.bind fun _ => ?_
  refine (hnested _ quiet).bind fun condition => (Reports.expect _).bind fun _ => ?_
  refine (Reports.expect _).bind fun _ => (block_tells hnested _).bind fun consequence => ?_
  refine Reports.peek.bind fun _ => ?_
  split
  · refine Reports.advance.bind fun _ => (Reports.expect _).bind fun _ => ?_
    refine (block_tells hnested _).bind fun alternative => .pure fun hquiet => ?_
    simpa [Node.hasBlock, Node.hasBlockOption, and_assoc] using hquiet
  · refine .pure fun hquiet => ?_
    simpa [Node.hasBlock, Node.hasBlockOption, and_assoc] using hquiet

/-- A function with its parameters and its block. -/
theorem function_tells : (function steps nested).Tells := by
  intro quiet
  refine (Reports.expect _).bind fun _ => (parameters_reports steps).bind fun parameters => ?_
  refine (Reports.expect _).bind fun _ => (block_tells hnested quiet).bind fun body => ?_
  refine .pure fun hquiet => ⟨hquiet.1, ?_⟩
  rw [Node.hasBlock, Bool.or_eq_false_iff] at hquiet
  exact hquiet.2.2

/-- An operand is given up at its fault, or because no expression begins with its first token. -/
theorem operand_tells : (operand steps nested).Tells := by
  intro quiet before parser hparser
  have hleaf {rule : Rule σ Node} (h : rule.Reports quiet fun _ => quiet) :
      rule.Reports quiet fun node => quiet ∧ node.hasBlock = false := h.imp fun _ => And.left
  by_cases hstart : Phrase.startsExpression parser.current.kind = false
  · rw [operand_refuses hstart]
    exact ⟨hparser.1, fun _ => .inl hstart⟩
  · unfold operand
    split
    · exact hleaf identifier_reports before parser hparser
    next hkind =>
      exact Meets.mono (integer_meets_givesUp hkind hparser) id (fun _ hfault => hfault)
        fun _ _ hpost => hpost.mono And.left
    · exact hleaf boolean_reports before parser hparser
    · exact hleaf boolean_reports before parser hparser
    · exact unary_tells hnested quiet before parser hparser
    · exact unary_tells hnested quiet before parser hparser
    · exact grouped_tells hnested quiet before parser hparser
    · exact conditional_tells hnested quiet before parser hparser
    · exact function_tells hnested quiet before parser hparser
    · exact absurd (by grind [Phrase.startsExpression]) hstart

/-! ## Operators -/

/-- An operator and its right operand. -/
theorem binary_reports (left : Node) :
    (binary nested left).Reports (quiet ∧ left.hasBlock = false)
      fun node => quiet ∧ node.hasBlock = false := by
  refine Reports.current.bind fun _ => Reports.advance.bind fun _ => ?_
  refine (hnested _ _).bind fun right => .pure fun hquiet => ?_
  simpa [Node.hasBlock, and_assoc] using hquiet

/-- The rest of a list of arguments. -/
theorem argumentsFrom_reports (steps : Nat) (read : Array Node) :
    (argumentsFrom nested steps read).Reports (quiet ∧ Node.hasBlockEach read.toList = false)
      fun nodes => quiet ∧ Node.hasBlockEach nodes = false := by
  induction steps generalizing read with
  | zero => exact fun _ _ _ => trivial
  | succ steps ih =>
    refine Reports.peek.bind fun _ => ?_
    split
    · refine Reports.advance.bind fun _ => Reports.advance.bind fun _ => ?_
      refine (hnested _ _).bind fun argument => (ih (read.push argument)).of_imp fun hquiet => ?_
      simpa [Node.hasBlockEach_append, Node.hasBlockEach, and_assoc] using hquiet
    · exact (Reports.expect _).bind fun _ => .pure id

/-- A call and its arguments. -/
theorem call_reports (callee : Node) :
    (call steps nested callee).Reports (quiet ∧ callee.hasBlock = false)
      fun node => quiet ∧ node.hasBlock = false := by
  have harguments (quiet : Prop) : (arguments steps nested).Reports quiet
      fun nodes => quiet ∧ Node.hasBlockEach nodes = false := by
    refine Reports.peek.bind fun _ => ?_
    split
    · exact Reports.advance.bind fun _ => .pure And.left
    · refine Reports.advance.bind fun _ => (hnested _ _).bind fun argument => ?_
      refine (argumentsFrom_reports hnested steps #[argument]).of_imp fun hquiet => ?_
      simpa [Node.hasBlockEach] using hquiet
  refine (harguments _).bind fun _ => .pure fun hquiet => ?_
  simpa [Node.hasBlock, and_assoc] using hquiet

/-- The operators and calls after an operand. -/
theorem climb_reports (floor : Int) (rounds : Nat) (left : Node) :
    (climb steps nested floor rounds left).Reports (quiet ∧ left.hasBlock = false)
      fun node => quiet ∧ node.hasBlock = false := by
  induction rounds generalizing left with
  | zero => exact fun _ _ _ => trivial
  | succ rounds ih =>
    refine Reports.peek.bind fun _ => ?_
    dsimp only
    split
    · exact .pure id
    · split
      · exact Reports.advance.bind fun _ => (binary_reports hnested left).bind ih
      · split
        · exact Reports.advance.bind fun _ => (call_reports hnested left).bind ih
        · exact .pure id

end Nested

/-- An expression is given up at its fault, at every floor and however deeply it nests. -/
theorem expressionWithin_tells (steps nesting : Nat) (floor : Int) :
    (expressionWithin steps nesting floor : Rule σ Node).Tells := by
  induction nesting generalizing floor with
  | zero => exact fun _ _ _ _ => trivial
  | succ nesting ih =>
    exact fun quiet => (operand_tells ih quiet).bind fun left =>
      climb_reports ih floor steps left

end Grammar

/-! ## Replies -/

/-- A rule for a tree that is given up leaves the parser at the fault, and one that reads a tree
without a block reports nothing. -/
theorem Rule.Tells.reply {rule : Rule σ Node} (h : rule.Tells) {parser last : Parser σ}
    {reply : Reply} (hreply : (rule parser).reply .node = some (reply, last)) :
    ∃ found, reply = .node found ∧ parser.errors.toList <+: last.errors.toList ∧
      (found = none → last.current.isSpelled = true → last.AtFault parser.errors.toList) ∧
      ∀ node, found = some node → node.hasBlock = false → last.errors = parser.errors := by
  have hmeets := h True parser.errors.toList parser ⟨List.prefix_refl _, fun _ => rfl⟩
  rcases Outcome.of_reply hreply with ⟨node, houtcome, rfl⟩ | ⟨houtcome, rfl⟩
  · rw [houtcome] at hmeets
    refine ⟨some node, rfl, hmeets.1, (nomatch ·), fun _ hnode hclear => ?_⟩
    obtain rfl := Option.some.inj hnode
    exact Array.toList_inj.mp (hmeets.2 ⟨trivial, hclear⟩)
  · rw [houtcome] at hmeets
    exact ⟨none, rfl, hmeets.1, fun _ => hmeets.2, fun _ hnode => nomatch hnode⟩

/-- A parser may be started at any place of a text, or before its start as far as the text is long.
Wherever steps lead from there, reading a statement or an expression comes to an end, and what was
reported before is kept. If the construct is given up, the parser is left at the fault: no
expression begins with the token under examination, or what was reported last is that the next token
is not the expected one, or that the token under examination is an oversized numeral. If a tree
without a block is read, nothing is reported. -/
theorem exists_ends_atFault (text : List Char) {position : Int}
    (h : -(text.length : Int) ≤ position) :
    ∃ first, Parser.ofReader ⟨text, position⟩ = .ok first ∧
      ∀ parser, first.LeadsTo parser →
        ∃ left, left <:+ tokenize (text.drop position.toNat) ∧ parser.StandsAt left ∧
          ∀ step, (step = .statement ∨ ∃ floor, step = .expression floor) →
            ∃ found last, parser.Ends left step (.node found) last ∧
              parser.errors.toList <+: last.errors.toList ∧
              (found = none → last.AtFault parser.errors.toList) ∧
              ∀ node, found = some node → node.hasBlock = false → last.errors = parser.errors := by
  obtain ⟨first, hfirst, hstart⟩ := ofReader_standsAt_drop ⟨text, position⟩ h
  refine ⟨first, hfirst, fun parser hleads => ?_⟩
  obtain ⟨left, hleft, hstand⟩ := hstart.exists_of_leadsTo hleads
  refine ⟨left, hleft, hstand, fun step hstep => ?_⟩
  obtain ⟨reply, last, hends⟩ := hstand.exists_ends step
  have hperform := hends.perform
  obtain ⟨found, rfl, hkeeps, hfault, hquiet⟩ : ∃ found, reply = .node found ∧
      parser.errors.toList <+: last.errors.toList ∧
      (found = none → last.current.isSpelled = true → last.AtFault parser.errors.toList) ∧
      ∀ node, found = some node → node.hasBlock = false → last.errors = parser.errors := by
    rcases hstep with rfl | ⟨floor, rfl⟩
    · exact (Grammar.statement_tells (Grammar.expressionWithin_tells _ _)).reply hperform
    · exact (Grammar.expressionWithin_tells _ _ floor).reply hperform
  refine ⟨found, last, hends, hkeeps, fun hnone => ?_, hquiet⟩
  obtain ⟨rest, hrest, hlast⟩ := hstand.exists_of_leadsTo (.single ⟨_, step, _, hperform⟩)
  cases rest with
  | nil => exact .inl (congrArg (Phrase.startsExpression ·.kind) hlast.current)
  | cons token rest =>
    -- tokens of a text are well spelled
    have hmem : token ∈ tokenize (text.drop position.toNat) :=
      hleft.subset (hrest.subset List.mem_cons_self)
    exact hfault hnone (hlast.current_eq ▸ isSpelled_of_mem_tokenize hmem)

/-- A call that is not closed is given up where its parenthesis is missed, and that is reported. -/
theorem exists_ends_atFault_unclosed :
    -("f(1 2".toList.length : Int) ≤ -5 ∧
      ∃ first last, Parser.ofReader ⟨"f(1 2".toList, -5⟩ = .ok first ∧
        first.perform ⟨6, 6⟩ .statement = some (.node none, last) ∧
        last.errors.toList = [.unexpected .rparen .int] ∧ last.AtFault first.errors.toList := by
  have hposition : -("f(1 2".toList.length : Int) ≤ -5 := by decide
  have hlength : (tokenize "f(1 2".toList).length < 6 := by decide +kernel
  obtain ⟨first, hfirst, hleads⟩ := exists_ends_atFault "f(1 2".toList hposition
  obtain ⟨left, hleft, -, hsteps⟩ := hleads first .refl
  obtain ⟨found, last, hends, -, hfault, -⟩ := hsteps .statement (.inl rfl)
  have hshort : left.length < 6 := Nat.lt_of_le_of_lt hleft.length_le hlength
  have hperform := hends ⟨6, 6⟩ hshort hshort
  -- no tree is 0 levels high
  have hrun : (Parser.ofReader ⟨"f(1 2".toList, -5⟩).toOption.map (fun first =>
      (first.perform ⟨6, 6⟩ .statement).map fun result =>
        (result.1.fits 0, result.2.errors.toList)) =
      some (some (true, [.unexpected .rparen .int])) := by decide +kernel
  rw [hfirst, Except.toOption, Option.map_some, hperform, Option.map_some] at hrun
  obtain ⟨hfits, herrors⟩ := Prod.mk.inj (Option.some.inj (Option.some.inj hrun))
  cases found with
  | none => exact ⟨hposition, first, last, hfirst, hperform, herrors, hfault rfl⟩
  | some node => simp [Reply.fits, Node.fitsOption, Node.fits] at hfits

end ExprLang
