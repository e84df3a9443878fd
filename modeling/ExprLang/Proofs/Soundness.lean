import ExprLang.Parser.Grammar
import ExprLang.Proofs.Contract
import ExprLang.Proofs.Phrase

/-!
# What is read is in the text

Each rule, from wherever it starts, yields only what the tokens from there on form in the lenient
grammar, and gives up further on than where it started. The rules are followed from the smaller
constructs to the larger ones, with the rule for nested expressions as a parameter that keeps to the
same contract. The knot is tied by induction on the nesting; a rule is exhausted only if the limit
on the nesting or on the rounds is no greater than the number of tokens.
-/

namespace ExprLang

namespace Grammar

open Rule Outcome Phrase

variable {σ : Type} [LawfulSource σ]

/-- The rule for nested expressions reads expressions from any end of `ahead`, as far as operators
above its floor go. -/
def ReadsNested (cut : Prop) (ahead : List Token) (nested : Int → Rule σ Node) : Prop :=
  ∀ level : Precedence, level ≠ .call → ∀ tokens, tokens <:+ ahead →
    ∀ parser : Parser σ, parser.StandsAt tokens →
      (nested level.floor parser).Reads cut tokens.tail fun rest node =>
        Expression .lenient level.operand tokens rest node ∧
          (headKind rest).precedence.rank ≤ level.rank

variable {cut : Prop} {ahead tokens rest : List Token} {steps rounds : Nat}
  {nested : Int → Rule σ Node} {parser : Parser σ}

/-- Fewer tokens ahead are read as well. -/
theorem ReadsNested.mono {fewer : List Token} (h : ReadsNested cut ahead nested)
    (hfewer : fewer <:+ ahead) : ReadsNested cut fewer nested :=
  fun level hlevel tokens htokens => h level hlevel tokens (htokens.trans hfewer)

/-- A nested expression above the lowest floor is an expression of the lowest level. -/
theorem ReadsNested.lowest (h : ReadsNested cut ahead nested) (hstand : parser.StandsAt tokens)
    (htokens : tokens <:+ ahead) :
    (nested Precedence.lowest.floor parser).Reads cut ahead fun rest node =>
      Expression .lenient .lowest tokens rest node :=
  ((h .lowest (by decide) tokens htokens parser hstand).within
    ((List.tail_suffix tokens).trans htokens)).imp fun _ _ hread => .tighter hread.1

/-! ## Parameters and arguments -/

/-- A name is read from the token under examination. -/
theorem identifier_meets {fault : Parser σ → Prop} {name : Token}
    (h : parser.StandsAt (name :: rest)) :
    (identifier parser).Meets cut fault fun node parser =>
      node = .identifier name.literal ∧ parser.Faces rest :=
  ⟨congrArg (fun token : Token => Node.identifier token.literal) h.current, h.faces⟩

/-- The rest of a list of parameters, after the first name. -/
theorem parametersFrom_reads (read : Array Node) {name : Token} (hname : name.kind = .ident)
    (hfaces : parser.Faces rest) (hrest : rest <:+ ahead) (hrounds : rest.length < rounds ∨ cut) :
    (parametersFrom rounds (read.push (.identifier name.literal)) parser).Reads cut ahead
      fun after parameters => ∃ more, parameters = read.toList ++ more ∧
        ParametersFrom (name :: rest) after more := by
  induction rounds generalizing read name rest parser with
  | zero => exact hrounds.resolve_left (Nat.not_lt_zero _)
  | succ rounds ih =>
    rw [parametersFrom, peek_bind_apply]
    by_cases hcomma : parser.peek.kind = .comma
    · rw [if_pos hcomma]
      obtain ⟨comma, tail, rfl, hkind⟩ :=
        exists_cons_of_headKind (hfaces.peek_kind ▸ hcomma) (by decide)
      have htail : tail <:+ ahead := suffix_of_cons_suffix hrest
      apply Meets.bind (advance_meets hfaces)
      intro _ parser hstand
      apply Meets.bind (expect_meets hstand.faces htail (by decide))
      intro _ parser hread
      obtain ⟨next, after, rfl, hnext, hstand⟩ := hread
      apply Meets.bind (identifier_meets hstand)
      intro _ parser hread
      obtain ⟨rfl, hfaces⟩ := hread
      have hshorter : after.length < rounds ∨ cut :=
        hrounds.imp_left (by simp only [List.length_cons]; omega)
      apply (ih _ hnext hfaces (suffix_of_cons_suffix htail) hshorter).imp
      intro last _ hread
      obtain ⟨more, rfl, hmore⟩ := hread
      exact ⟨.identifier name.literal :: more, by simp, .more hname hkind hmore⟩
    · rw [if_neg hcomma]
      apply Meets.bind (expect_meets hfaces hrest (by decide))
      intro _ parser hread
      obtain ⟨closing, after, rfl, hclosing, hstand⟩ := hread
      exact ⟨after, hstand.faces, [.identifier name.literal], by simp, .last hname hclosing⟩

/-- The parameters after an opening parenthesis. -/
theorem parameters_reads (hfaces : parser.Faces rest) (hrest : rest <:+ ahead)
    (hsteps : ahead.length < steps ∨ cut) :
    (parameters steps parser).Reads cut ahead fun after parameters =>
      Parameters rest after parameters := by
  rw [parameters, peek_bind_apply]
  by_cases hclosing : parser.peek.kind = .rparen
  · rw [if_pos hclosing]
    obtain ⟨closing, tail, rfl, hkind⟩ :=
      exists_cons_of_headKind (hfaces.peek_kind ▸ hclosing) (by decide)
    exact Meets.bind (advance_meets hfaces) fun _ parser hstand =>
      ⟨tail, hstand.faces, .none hkind⟩
  · rw [if_neg hclosing]
    apply Meets.bind (expect_meets hfaces hrest (by decide))
    intro _ parser hread
    obtain ⟨name, tail, rfl, hname, hstand⟩ := hread
    apply Meets.bind (identifier_meets hstand)
    intro _ parser hread
    obtain ⟨rfl, hfaces⟩ := hread
    have htail : tail <:+ ahead := suffix_of_cons_suffix hrest
    have hrounds : tail.length < steps ∨ cut :=
      hsteps.imp_left (Nat.lt_of_le_of_lt htail.length_le)
    apply (parametersFrom_reads #[] hname hfaces htail hrounds).imp
    intro last _ hread
    obtain ⟨more, rfl, hmore⟩ := hread
    exact .some (by simpa using hmore)

section Nested

variable (hnested : ReadsNested cut ahead nested)

include hnested

/-- The rest of a list of arguments, after the expression `argument` that was read last. -/
theorem argumentsFrom_reads (read : Array Node) {argument : Node} {start : List Token}
    (hargument : Expression .lenient .lowest start rest argument)
    (hfaces : parser.Faces rest) (hrest : rest <:+ ahead) (hrounds : rest.length < rounds ∨ cut) :
    (argumentsFrom nested rounds (read.push argument) parser).Reads cut ahead
      fun after arguments => ∃ more, arguments = read.toList ++ more ∧
        ArgumentsFrom .lenient start after more := by
  induction rounds generalizing read argument start rest parser with
  | zero => exact hrounds.resolve_left (Nat.not_lt_zero _)
  | succ rounds ih =>
    rw [argumentsFrom, peek_bind_apply]
    by_cases hcomma : parser.peek.kind = .comma
    · rw [if_pos hcomma]
      obtain ⟨comma, tail, rfl, hkind⟩ :=
        exists_cons_of_headKind (hfaces.peek_kind ▸ hcomma) (by decide)
      have htail : tail <:+ ahead := suffix_of_cons_suffix hrest
      apply Meets.bind (advance_meets hfaces)
      intro _ parser hstand
      apply Meets.bind (advance_meets hstand.faces)
      intro _ parser hstand
      apply Reads.bind (hnested.lowest hstand htail)
      intro next parser after hfaces hnext
      have hafter : after <:+ tail := hnext.begins.suffix
      have hshorter : after.length < rounds ∨ cut := by
        have := hafter.length_le
        exact hrounds.imp_left (by simp only [List.length_cons]; omega)
      apply (ih _ hnext hfaces (hafter.trans htail) hshorter).imp
      intro last _ hread
      obtain ⟨more, rfl, hmore⟩ := hread
      exact ⟨argument :: more, by simp, .more hkind hargument hmore⟩
    · rw [if_neg hcomma]
      apply Meets.bind (expect_meets hfaces hrest (by decide))
      intro _ parser hread
      obtain ⟨closing, after, rfl, hclosing, hstand⟩ := hread
      exact ⟨after, hstand.faces, [argument], by simp, .last hclosing hargument⟩

/-- The arguments after an opening parenthesis. -/
theorem arguments_reads (hfaces : parser.Faces rest) (hrest : rest <:+ ahead)
    (hsteps : ahead.length < steps ∨ cut) :
    (arguments steps nested parser).Reads cut ahead fun after arguments =>
      Arguments .lenient rest after arguments := by
  rw [arguments, peek_bind_apply]
  by_cases hclosing : parser.peek.kind = .rparen
  · rw [if_pos hclosing]
    obtain ⟨closing, tail, rfl, hkind⟩ :=
      exists_cons_of_headKind (hfaces.peek_kind ▸ hclosing) (by decide)
    exact Meets.bind (advance_meets hfaces) fun _ parser hstand =>
      ⟨tail, hstand.faces, .none hkind⟩
  · rw [if_neg hclosing]
    apply Meets.bind (advance_meets hfaces)
    intro _ parser hstand
    apply Reads.bind (hnested.lowest hstand hrest)
    intro argument parser tail hfaces hargument
    have htail : tail <:+ ahead := hargument.begins.suffix.trans hrest
    have hrounds : tail.length < steps ∨ cut :=
      hsteps.imp_left (Nat.lt_of_le_of_lt htail.length_le)
    apply (argumentsFrom_reads hnested #[] hargument hfaces htail hrounds).imp
    intro last _ hread
    obtain ⟨more, rfl, hmore⟩ := hread
    exact .some (by simpa using hmore)

/-! ## Statements -/

/-- What a rule for a statement yields: a statement up to some list, of which the parser faces the
rest after the semicolon that may follow. -/
def ReadsStatement (cut : Prop) (tokens : List Token) (outcome : Outcome σ Node) : Prop :=
  outcome.Reads cut tokens.tail fun rest node =>
    ∃ middle, Statement .lenient tokens middle node ∧ rest <:+ middle

omit hnested in
/-- The end of a statement whose last expression was read. -/
theorem accept_reads (cut : Prop) {ending : Node} {start : List Token} (hfaces : parser.Faces rest)
    (hstatement : Statement .lenient start rest ending) :
    ReadsStatement cut start ((do accept .semicolon; return ending : Rule σ Node) parser) := by
  obtain ⟨after, hafter, hsuffix⟩ := accept_faces .semicolon hfaces
  exact ⟨after, hafter, rest, hstatement, hsuffix⟩

/-- The statement under examination. -/
theorem statement_reads (hstand : parser.StandsAt tokens) (htokens : tokens <:+ ahead) :
    ReadsStatement cut tokens (statement nested parser) := by
  have hbegun := hstand.beginStatement
  have hkind := hbegun.current_kind
  unfold statement
  dsimp only
  split
  next hword =>
    obtain ⟨word, tail, rfl, hword⟩ := exists_cons_of_headKind (hkind ▸ hword) (by decide)
    have htail : tail <:+ ahead := suffix_of_cons_suffix htokens
    rw [letStatement]
    apply Meets.bind (expect_meets hbegun.faces (List.suffix_refl tail) (by decide))
    intro _ parser hread
    obtain ⟨name, after, rfl, hname, hstand⟩ := hread
    apply Meets.bind (identifier_meets hstand)
    intro _ parser hread
    obtain ⟨rfl, hfaces⟩ := hread
    apply Meets.bind (expect_meets hfaces (List.suffix_cons _ _) (by decide))
    intro _ parser hread
    obtain ⟨sign, rest, rfl, hsign, hstand⟩ := hread
    apply Meets.bind (advance_meets hstand.faces)
    intro _ parser hstand
    have hrest : rest <:+ name :: sign :: rest := ⟨[name, sign], rfl⟩
    apply Reads.bind ((hnested.mono htail).lowest hstand hrest)
    intro value parser after hfaces hvalue
    exact accept_reads cut hfaces (.letStatement hword hname hsign hvalue)
  next hword =>
    obtain ⟨word, tail, rfl, hword⟩ := exists_cons_of_headKind (hkind ▸ hword) (by decide)
    have htail : tail <:+ ahead := suffix_of_cons_suffix htokens
    rw [returnStatement]
    apply Meets.bind (advance_meets hbegun.faces)
    intro _ parser hstand
    apply Reads.bind ((hnested.mono htail).lowest hstand (List.suffix_refl tail))
    intro value parser after hfaces hvalue
    exact accept_reads cut hfaces (.returnStatement hword hvalue)
  next =>
    rw [expressionStatement]
    apply Reads.bind (hnested .lowest (by decide) tokens htokens _ hbegun)
    intro value parser rest hfaces hread
    exact accept_reads cut hfaces (.expressionStatement (.tighter hread.1))

/-- The statements up to a token that closes the sequence. Each round takes a token at least. -/
theorem statementsUntil_meets {closes : Kind → Bool} (hcloses : closes .eof = true)
    {fault : Parser σ → Prop} (read : Array Node) (hstand : parser.StandsAt tokens)
    (htokens : tokens <:+ ahead) (hrounds : tokens.length < rounds ∨ cut) :
    (statementsUntil nested closes rounds read parser).Meets cut fault fun statements parser =>
      ∃ rest more, statements = read.toList ++ more ∧ parser.StandsAt rest ∧
        closes (headKind rest) = true ∧ Body .lenient tokens rest more := by
  induction rounds generalizing read tokens parser with
  | zero => exact hrounds.resolve_left (Nat.not_lt_zero _)
  | succ rounds ih =>
    rw [statementsUntil, current_bind_apply]
    by_cases hclose : closes parser.current.kind = true
    · rw [if_pos hclose]
      exact ⟨tokens, [], by simp, hstand, hstand.current_kind ▸ hclose, .nil⟩
    · rw [if_neg hclose]
      -- the end closes every sequence, so there is a token to take
      have hcons : tokens ≠ [] := by
        intro hnil
        subst hnil
        exact hclose (by rw [hstand.current_kind]; exact hcloses)
      apply Meets.bind (statement_reads hnested hstand htokens).attempt
      intro found parser hfound
      have hwhere : ∃ rest, parser.Faces rest ∧ rest <:+ tokens.tail ∧
          ∀ after statements, Body .lenient rest after statements →
            Body .lenient tokens after (found.toList ++ statements) := by
        cases found with
        | none =>
          obtain ⟨rest, hfaces, hrest⟩ := hfound
          exact ⟨rest, hfaces, hrest, fun after statements hbody =>
            hbody.of_suffix (hrest.trans (List.tail_suffix tokens))⟩
        | some node =>
          obtain ⟨rest, hfaces, middle, hstatement, hrest⟩ := hfound
          obtain ⟨token, tail, rfl, -, hmiddle⟩ := hstatement.begins
          exact ⟨rest, hfaces, hrest.trans hmiddle, fun after statements hbody =>
            .cons (fun hmode => nomatch hmode) hstatement (hbody.of_suffix hrest)⟩
      obtain ⟨rest, hfaces, hrest, hextend⟩ := hwhere
      have hshorter : rest.length < rounds ∨ cut := by
        have hlength := hrest.length_le
        rw [List.length_tail] at hlength
        have := List.length_pos_iff.mpr hcons
        exact hrounds.imp_left (by omega)
      have hahead : rest <:+ ahead := hrest.trans ((List.tail_suffix tokens).trans htokens)
      refine Meets.bind (advance_meets hfaces) fun _ parser hstand => ?_
      cases found with
      | none =>
        refine (ih read hstand hahead hshorter).mono id (fun _ h => h) ?_
        intro value parser hread
        obtain ⟨last, more, rfl, hlast, hclosed, hmore⟩ := hread
        exact ⟨last, more, rfl, hlast, hclosed, hextend last more hmore⟩
      | some node =>
        refine (ih (read.push node) hstand hahead hshorter).mono id (fun _ h => h) ?_
        intro value parser hread
        obtain ⟨last, more, rfl, hlast, hclosed, hmore⟩ := hread
        exact ⟨last, node :: more, by simp, hlast, hclosed, hextend last more hmore⟩

/-- A block from its opening brace. It is never given up. -/
theorem block_meets {fault : Parser σ → Prop} {opening : Token}
    (hstand : parser.StandsAt (opening :: tokens)) (hopening : opening.kind = .lbrace)
    (htokens : tokens <:+ ahead) (hsteps : ahead.length < steps ∨ cut) :
    (block steps nested parser).Meets cut fault fun node parser =>
      ∃ rest, parser.Faces rest ∧ Block .lenient (opening :: tokens) rest node := by
  rw [block]
  apply Meets.bind (advance_meets hstand.faces)
  intro _ parser hstand
  have hrounds : tokens.length < steps ∨ cut :=
    hsteps.imp_left (Nat.lt_of_le_of_lt htokens.length_le)
  apply Meets.bind (statementsUntil_meets hnested rfl #[] hstand htokens hrounds)
  intro statements parser hread
  obtain ⟨rest, more, rfl, hstand, hclosed, hbody⟩ := hread
  refine ⟨rest.tail, hstand.faces, ?_⟩
  cases rest with
  | nil => exact .unclosed rfl hopening hbody
  | cons closing rest =>
    have hkind : closing.kind = .rbrace := by
      have hproper := hstand.proper closing List.mem_cons_self
      simpa [closesBlock, hproper] using hclosed
    exact .closed hopening hkind hbody

/-- A block and its opening brace, and what comes after them. -/
theorem braced_meets {β : Type} {next : Node → Rule σ β} {last : β → Parser σ → Prop}
    (hfaces : parser.Faces rest) (hrest : rest <:+ ahead) (hsteps : ahead.length < steps ∨ cut)
    (hnext : ∀ node parser after, parser.Faces after → Block .lenient rest after node →
      (next node parser).Meets cut (Parser.Within ahead) last) :
    ((expect .lbrace >>= fun _ => block steps nested >>= next) parser).Meets cut
      (Parser.Within ahead) last := by
  apply Meets.bind (expect_meets hfaces hrest (by decide))
  intro _ parser hread
  obtain ⟨brace, body, rfl, hbrace, hstand⟩ := hread
  have hbody : body <:+ ahead := suffix_of_cons_suffix hrest
  apply Reads.bind (block_meets hnested hstand hbrace hbody hsteps)
  intro node parser after hfaces hblock
  exact hnext node parser after hfaces hblock

/-! ## Operands -/

/-- An expression in parentheses. -/
theorem grouped_reads {opening : Token} (hstand : parser.StandsAt (opening :: ahead))
    (hopening : opening.kind = .lparen) :
    (grouped nested parser).Reads cut ahead fun rest node =>
      Primary .lenient (opening :: ahead) rest node := by
  rw [grouped]
  apply Meets.bind (advance_meets hstand.faces)
  intro _ parser hstand
  apply Reads.bind (hnested.lowest hstand (List.suffix_refl ahead))
  intro inner parser rest hfaces hinner
  apply Meets.bind (expect_meets hfaces hinner.begins.suffix (by decide))
  intro _ parser hread
  obtain ⟨closing, after, rfl, hclosing, hstand⟩ := hread
  exact ⟨after, hstand.faces, .grouped hopening hclosing hinner⟩

/-- A choice from its first word. -/
theorem conditional_reads {word : Token} (hstand : parser.StandsAt (word :: ahead))
    (hword : word.kind = .ifWord) (hsteps : ahead.length < steps ∨ cut) :
    (conditional steps nested parser).Reads cut ahead fun rest node =>
      Primary .lenient (word :: ahead) rest node := by
  rw [conditional]
  apply Meets.bind (expect_meets hstand.faces (List.suffix_refl ahead) (by decide))
  intro _ parser hread
  obtain ⟨opening, tail, rfl, hopening, hstand⟩ := hread
  apply Meets.bind (advance_meets hstand.faces)
  intro _ parser hstand
  have htail : tail <:+ opening :: tail := List.suffix_cons opening tail
  apply Reads.bind (hnested.lowest hstand htail)
  intro condition parser rest hfaces hcondition
  have hrest : rest <:+ opening :: tail := hcondition.begins.suffix.trans htail
  apply Meets.bind (expect_meets hfaces hrest (by decide))
  intro _ parser hread
  obtain ⟨closing, middle, rfl, hclosing, hstand⟩ := hread
  have hmiddle : middle <:+ opening :: tail := suffix_of_cons_suffix hrest
  apply braced_meets hnested hstand.faces hmiddle hsteps
  intro consequence parser rest hfaces hconsequence
  have hrest : rest <:+ opening :: tail := hconsequence.suffix.trans hmiddle
  rw [peek_bind_apply]
  by_cases helse : parser.peek.kind = .elseWord
  · rw [if_pos helse]
    obtain ⟨otherwise, after, rfl, hotherwise⟩ :=
      exists_cons_of_headKind (hfaces.peek_kind ▸ helse) (by decide)
    have hafter : after <:+ opening :: tail := suffix_of_cons_suffix hrest
    apply Meets.bind (advance_meets hfaces)
    intro _ parser hstand
    apply braced_meets hnested hstand.faces hafter hsteps
    intro alternative parser last hfaces halternative
    exact ⟨last, hfaces,
      .choiceElse hword hopening hclosing hotherwise hcondition hconsequence halternative⟩
  · rw [if_neg helse]
    exact ⟨rest, hfaces, .choice hword hopening hclosing hcondition hconsequence⟩

/-- A function from its first word. -/
theorem function_reads {word : Token} (hstand : parser.StandsAt (word :: ahead))
    (hword : word.kind = .fnWord) (hsteps : ahead.length < steps ∨ cut) :
    (function steps nested parser).Reads cut ahead fun rest node =>
      Primary .lenient (word :: ahead) rest node := by
  rw [function]
  apply Meets.bind (expect_meets hstand.faces (List.suffix_refl ahead) (by decide))
  intro _ parser hread
  obtain ⟨opening, tail, rfl, hopening, hstand⟩ := hread
  have htail : tail <:+ opening :: tail := List.suffix_cons opening tail
  apply Reads.bind (parameters_reads hstand.faces htail hsteps)
  intro names parser middle hfaces hnames
  have hmiddle : middle <:+ opening :: tail := hnames.suffix.trans htail
  apply braced_meets hnested hfaces hmiddle hsteps
  intro body parser rest hfaces hblock
  exact ⟨rest, hfaces, .function hword hopening hnames hblock⟩

/-- `node` is an expression of a level no looser than `least`, and what follows it binds no tighter
than its operators do, so it may be the left operand of whatever comes next. -/
def Extendable (least : Precedence) (tokens rest : List Token) (node : Node) : Prop :=
  ∃ level : Precedence, least.rank ≤ level.rank ∧ Expression .lenient level tokens rest node ∧
    (headKind rest).precedence.rank ≤ level.rank

omit hnested in
/-- A primary expression may be extended by anything. -/
theorem extendable_of_primary {start : List Token} {node : Node}
    (h : Primary .lenient start rest node) : Extendable .unary start rest node :=
  ⟨.call, by decide, .primary h, Precedence.rank_le _⟩

/-- The operand that begins with the token under examination. -/
theorem operand_reads {token : Token} (hstand : parser.StandsAt (token :: ahead))
    (hsteps : ahead.length < steps ∨ cut) :
    (operand steps nested parser).Reads cut ahead fun rest node =>
      Extendable .unary (token :: ahead) rest node := by
  have hprimary : ∀ outcome : Outcome σ Node,
      (outcome.Reads cut ahead fun rest node => Primary .lenient (token :: ahead) rest node) →
      outcome.Reads cut ahead fun rest node => Extendable .unary (token :: ahead) rest node :=
    fun outcome h => h.imp fun _ _ hread => extendable_of_primary hread
  have hcurrent : parser.current = token := hstand.current
  have hunary : token.kind = .bang ∨ token.kind = .minus →
      (unary nested parser).Reads cut ahead fun rest node =>
        Extendable .unary (token :: ahead) rest node := by
    intro hkind
    rw [unary, current_bind_apply, hcurrent]
    apply Meets.bind (advance_meets hstand.faces)
    intro _ parser hstand
    have hright := hnested .unary (by decide) ahead (List.suffix_refl ahead) parser hstand
    apply Reads.bind (hright.within (List.tail_suffix ahead))
    intro right parser rest hfaces hread
    obtain ⟨hright, hstop⟩ := hread
    exact ⟨rest, hfaces, .unary, Nat.le_refl _, .unary hkind hright, hstop⟩
  unfold operand
  split
  next hkind =>
    exact hprimary _ ⟨ahead, hstand.faces, hcurrent ▸ .identifier (hcurrent ▸ hkind)⟩
  next hkind =>
    rw [integer, current_bind_apply, hcurrent]
    cases hvalue : Text.integerOf? token.literal with
    | none => exact ⟨ahead, hstand.faces.report _, List.suffix_refl ahead⟩
    | some value =>
      exact hprimary _ ⟨ahead, hstand.faces,
        .integer (hcurrent ▸ hkind) (Text.integerOf?_eq_some_iff.mp hvalue)⟩
  next hkind =>
    rw [boolean, current_bind_apply, hkind]
    exact hprimary _ ⟨ahead, hstand.faces, .true (hcurrent ▸ hkind)⟩
  next hkind =>
    rw [boolean, current_bind_apply, hkind]
    exact hprimary _ ⟨ahead, hstand.faces, .false (hcurrent ▸ hkind)⟩
  next hkind => exact hunary (.inl (hcurrent ▸ hkind))
  next hkind => exact hunary (.inr (hcurrent ▸ hkind))
  next hkind => exact hprimary _ (grouped_reads hnested hstand (hcurrent ▸ hkind))
  next hkind => exact hprimary _ (conditional_reads hnested hstand (hcurrent ▸ hkind) hsteps)
  next hkind => exact hprimary _ (function_reads hnested hstand (hcurrent ▸ hkind) hsteps)
  next => exact ⟨ahead, hstand.faces, List.suffix_refl ahead⟩

/-! ## Operators -/

/-- A binary operator and its right operand, after a left operand of its level. -/
theorem binary_reads {operator : Token} {tail start : List Token} {left : Node}
    (hstand : parser.StandsAt (operator :: tail)) (htail : tail <:+ ahead)
    (hbinary : operator.kind.isBinary = true)
    (hleft : Expression .lenient operator.kind.precedence start (operator :: tail) left) :
    (binary nested left parser).Reads cut ahead fun rest node =>
      Extendable operator.kind.precedence start rest node ∧ rest <:+ tail := by
  have hcurrent : parser.current = operator := hstand.current
  rw [binary, current_bind_apply, hcurrent]
  apply Meets.bind (advance_meets hstand.faces)
  intro _ parser hstand
  have hoperator : operator.kind ∈ operator.kind.precedence.operators :=
    Precedence.mem_operators_iff.mpr ⟨hbinary, rfl⟩
  have hcall := Precedence.ne_call_of_mem_operators hoperator
  have hright := (hnested _ hcall tail htail parser hstand).within
    ((List.tail_suffix tail).trans htail)
  apply Reads.bind hright
  intro right parser rest hfaces hread
  obtain ⟨hright, hstop⟩ := hread
  rw [Precedence.operand_of_mem_operators hoperator] at hright
  exact ⟨rest, hfaces,
    ⟨_, Nat.le_refl _, .binary hoperator hleft hright, hstop⟩, hright.begins.suffix⟩

/-- The arguments of a call, after the callee. -/
theorem call_reads {opening : Token} {tail start : List Token} {callee : Node}
    (hstand : parser.StandsAt (opening :: tail)) (htail : tail <:+ ahead)
    (hopening : opening.kind = .lparen) (hsteps : ahead.length < steps ∨ cut)
    (hcallee : Expression .lenient .call start (opening :: tail) callee) :
    (call steps nested callee parser).Reads cut ahead fun rest node =>
      Extendable .call start rest node ∧ rest <:+ tail := by
  rw [call]
  apply Reads.bind (arguments_reads hnested hstand.faces htail hsteps)
  intro arguments parser rest hfaces harguments
  exact ⟨rest, hfaces, ⟨.call, Nat.le_refl _, .call hopening hcallee harguments,
    Precedence.rank_le _⟩, harguments.suffix⟩

/-- Extending an expression by the operators and calls above a floor. Every round takes a token at
least. -/
theorem climb_reads {level : Precedence} {start : List Token} {left : Node}
    (hleft : Extendable level.operand start rest left) (hfaces : parser.Faces rest)
    (hrest : rest <:+ ahead) (hrounds : rest.length < rounds ∨ cut)
    (hsteps : ahead.length < steps ∨ cut) :
    (climb steps nested level.floor rounds left parser).Reads cut ahead fun rest node =>
      Expression .lenient level.operand start rest node ∧
        (headKind rest).precedence.rank ≤ level.rank := by
  induction rounds generalizing left rest parser with
  | zero => exact hrounds.resolve_left (Nat.not_lt_zero _)
  | succ rounds ih =>
    obtain ⟨tight, hleast, hexpression, hfollow⟩ := hleft
    rw [climb, peek_bind_apply, hfaces.peek_kind]
    by_cases hstop : headKind rest = .semicolon ∨ (headKind rest).precedence.floor ≤ level.floor
    · rw [if_pos hstop]
      refine ⟨rest, hfaces, hexpression.loosen hleast, ?_⟩
      rcases hstop with hsemicolon | hfloor
      · rw [hsemicolon]
        exact Nat.zero_le _
      · exact Int.ofNat_le.mp hfloor
    · rw [if_neg hstop]
      have habove : level.rank < (headKind rest).precedence.rank :=
        Nat.lt_of_not_le fun hle => hstop (.inr (Int.ofNat_le.mpr hle))
      have hproper : headKind rest ≠ .eof := by
        intro heof
        rw [heof] at habove
        exact Nat.not_lt_zero _ habove
      obtain ⟨token, tail, rfl, -⟩ := exists_cons_of_headKind rfl hproper
      rw [headKind_cons] at hfollow habove hproper ⊢
      have htail : tail <:+ ahead := suffix_of_cons_suffix hrest
      -- whichever operator comes next, the rounds left suffice for what comes after its operand
      have hshorter : ∀ after : List Token, after <:+ tail → after.length < rounds ∨ cut := by
        intro after hafter
        have hlength := hafter.length_le
        exact hrounds.imp_left (by simp only [List.length_cons]; omega)
      have hnext : level.operand.rank ≤ token.kind.precedence.rank :=
        Precedence.operand_rank_le habove
      by_cases hbinary : token.kind.isBinary = true
      · rw [if_pos hbinary]
        apply Meets.bind (advance_meets hfaces)
        intro _ parser hstand
        apply Reads.bind (binary_reads hnested hstand htail hbinary
          (hexpression.loosen hfollow))
        intro node parser after hfaces hread
        obtain ⟨⟨tight, hleast, hextendable⟩, hafter⟩ := hread
        exact ih ⟨tight, Nat.le_trans hnext hleast, hextendable⟩ hfaces (hafter.trans htail)
          (hshorter after hafter)
      · rw [if_neg hbinary]
        have hopening : token.kind = .lparen := by
          refine ((Kind.precedence_ne_lowest_iff _).mp ?_).resolve_left hbinary
          intro hlowest
          rw [hlowest] at habove
          exact Nat.not_lt_zero _ habove
        rw [if_pos hopening]
        have hcallee : Expression .lenient .call start (token :: tail) left :=
          hexpression.loosen (by rw [hopening] at hfollow; exact hfollow)
        apply Meets.bind (advance_meets hfaces)
        intro _ parser hstand
        apply Reads.bind (call_reads hnested hstand htail hopening hsteps hcallee)
        intro node parser after hfaces hread
        obtain ⟨⟨tight, hleast, hextendable⟩, hafter⟩ := hread
        have hcall : level.operand.rank ≤ tight.rank :=
          Nat.le_trans (Precedence.rank_le _) hleast
        exact ih ⟨tight, hcall, hextendable⟩ hfaces (hafter.trans htail) (hshorter after hafter)

end Nested

/-! ## Expressions and programs -/

/-- Expressions within expressions: every level of nesting begins further on. -/
theorem expressionWithin_reads (steps nesting : Nat) {level : Precedence} (hlevel : level ≠ .call)
    (hstand : parser.StandsAt tokens) :
    (expressionWithin steps nesting level.floor parser).Reads
      (nesting ≤ tokens.length ∨ steps ≤ tokens.length) tokens.tail fun rest node =>
        Expression .lenient level.operand tokens rest node ∧
          (headKind rest).precedence.rank ≤ level.rank := by
  induction nesting generalizing level tokens parser with
  | zero => exact .inl (Nat.zero_le _)
  | succ nesting ih =>
    rw [expressionWithin]
    cases tokens with
    | nil =>
      have hend : operand steps (expressionWithin steps nesting) parser = .abandoned parser := by
        have hkind : parser.current.kind = .eof := hstand.current_kind
        unfold operand
        rw [hkind]
      rw [bind_apply, hend]
      exact ⟨[], hstand.faces, List.suffix_refl _⟩
    | cons token ahead =>
      have hnested : ReadsNested (nesting + 1 ≤ (token :: ahead).length ∨
          steps ≤ (token :: ahead).length) ahead (expressionWithin (σ := σ) steps nesting) := by
        intro level hlevel tokens htokens parser hstand
        refine (ih hlevel hstand).mono ?_ (fun _ h => h) fun _ _ h => h
        have hlength := htokens.length_le
        simp only [List.length_cons]
        omega
      have hsteps : ahead.length < steps ∨ (nesting + 1 ≤ (token :: ahead).length ∨
          steps ≤ (token :: ahead).length) := by
        simp only [List.length_cons]
        omega
      apply Reads.bind (operand_reads hnested hstand hsteps)
      intro left parser rest hfaces hread
      obtain ⟨tight, hleast, hexpression, hfollow⟩ := hread
      obtain ⟨_, _, heq, -, hrest⟩ := hexpression.begins
      obtain ⟨rfl, rfl⟩ := List.cons.inj heq
      have hunary : level.operand.rank ≤ Precedence.unary.rank := by
        cases level <;> first | decide | exact absurd rfl hlevel
      have hrounds := hsteps.imp_left (Nat.lt_of_le_of_lt hrest.length_le)
      exact climb_reads hnested ⟨tight, Nat.le_trans hunary hleast, hexpression, hfollow⟩ hfaces
        hrest hrounds hsteps

/-- A program is never given up, and all its statements are in the tokens. -/
theorem program_meets (steps nesting : Nat) (hstand : parser.StandsAt tokens) :
    (program steps (expressionWithin steps nesting) parser).Meets
      (nesting ≤ tokens.length ∨ steps ≤ tokens.length) (fun _ => False) fun node _ =>
        ∃ statements, node = .program statements ∧ Body .lenient tokens [] statements := by
  rw [program]
  have hnested : ReadsNested (nesting ≤ tokens.length ∨ steps ≤ tokens.length) tokens
      (expressionWithin (σ := σ) steps nesting) := by
    intro level hlevel within hwithin parser hstand
    refine (expressionWithin_reads steps nesting hlevel hstand).mono ?_ (fun _ h => h)
      fun _ _ h => h
    have hlength := hwithin.length_le
    omega
  have hrounds : tokens.length < steps ∨ (nesting ≤ tokens.length ∨ steps ≤ tokens.length) := by
    omega
  apply Meets.bind (statementsUntil_meets hnested rfl #[] hstand (List.suffix_refl tokens)
    hrounds)
  intro statements parser hread
  obtain ⟨rest, more, heq, hstand, hclosed, hbody⟩ := hread
  obtain rfl : rest = [] := hstand.eq_nil (by simpa using hclosed)
  exact ⟨more, congrArg Node.program heq, hbody⟩

end Grammar

end ExprLang
