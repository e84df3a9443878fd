import ExprLang.Proofs.Decomposition
import ExprLang.Proofs.Result
import ExprLang.Run
import ExprLang.Session

/-!
# Tokens on demand and tokens in a list

A parser may be driven by hand, through any steps in any order. One that scans its text on demand
then replies and shows the same as one over the list of the tokens, step after step, and it only
ever moves on through that list. So what is made of a text is a matter of its tokens alone, and a
listing of the tokens lists what the parser was given.
-/

namespace ExprLang

/-- What shows of a parser between two steps. -/
structure Moment where
  current : Token
  peek : Token
  errors : List Diagnostic

/-- The token under examination and the one after it are those at `place` and after it in `tokens`,
which go on with the end. -/
def Moment.IsAt (tokens : List Token) (place : Nat) (moment : Moment) : Prop :=
  moment.current = tokens.getD place .eof ∧ moment.peek = tokens.getD (place + 1) .eof

/-- The moments are at places of `tokens` from `place` on, none of which is before an earlier one.
-/
def MovesOn (tokens : List Token) : (place : Nat) → List Moment → Prop
  | _, [] => True
  | place, moment :: later =>
    ∃ next, place ≤ next ∧ moment.IsAt tokens next ∧ MovesOn tokens next later

namespace Parser

variable {σ : Type}

/-- What shows of a parser. -/
def moment (parser : Parser σ) : Moment :=
  ⟨parser.current, parser.peek, parser.errors.toList⟩

/-- Takes steps one after another. Each has a reply and is followed by a moment; there are none if
the text nests too deeply. -/
def drive [TokenSource σ] (limits : Limits) :
    List Call → Parser σ → Option (List (Reply × Moment))
  | [], _ => some []
  | step :: steps, parser => do
    let (reply, parser) ← parser.perform limits step
    let later ← parser.drive limits steps
    return (reply, parser.moment) :: later

end Parser

/-! ## Steps on two parsers -/

section Paired

variable {σ τ α : Type}

/-- Two steps have the same reply and leave the parsers side by side, or neither has any. -/
inductive Replies (facing : Parser σ → Parser τ → Prop) :
    Option (Reply × Parser σ) → Option (Reply × Parser τ) → Prop where
  | none : Replies facing none none
  | some {p q} (reply : Reply) : facing p q → Replies facing (some (reply, p)) (some (reply, q))

/-- Rules that end alike have the same reply. -/
theorem Outcome.Agrees.replies {facing post : Parser σ → Parser τ → Prop} {left : Outcome σ α}
    {right : Outcome τ α} (h : left.Agrees (Astray facing Nowhere) post right)
    (hpost : ∀ p q, post p q → facing p q) (form : Option α → Reply) :
    Replies facing (left.reply form) (right.reply form) := by
  cases h with
  | done value hend => exact .some _ (hpost _ _ hend)
  | abandoned hastray => exact .some _ (hastray.resolve_right not_false)
  | exhausted => exact .none

variable [TokenSource σ] [TokenSource τ] {facing : Parser σ → Parser τ → Prop}

/-- Every step has the same reply on parsers that face the same tokens and reported the same. -/
theorem Paired.replies (hpaired : Paired facing)
    (herrors : ∀ {p q}, facing p q → q.errors = p.errors) {p : Parser σ} {q : Parser τ}
    (h : facing p q) (limits : Limits) (step : Call) :
    Replies facing (p.perform limits step) (q.perform limits step) := by
  have hab := hpaired.abreast
  have hlevel := hpaired.level h
  have hreach : q.peek = p.peek ∨ p.current.kind.wantsOperand = true := .inl (hpaired.peek h)
  have hnested : NestedAgrees facing Nowhere (limits.expression (σ := σ)) limits.expression :=
    hpaired.expressionWithin_agrees limits.rounds limits.nesting
  have hblocks : BlocksAgree facing Nowhere limits.rounds (limits.expression (σ := σ))
      limits.expression := fun _ _ h _ => hpaired.block_agrees hnested h.1
  have hfacing : ∀ p q, facing p q → facing p q := fun _ _ h => h
  have hsettled : ∀ p q, Settled facing p q → facing p q := fun _ _ => hpaired.of_settled
  cases step with
  | advance => exact .some _ (hpaired.advance h)
  | currentIs kind =>
    rw [Parser.perform, Parser.perform, hlevel.2]
    exact .some _ h
  | peekIs kind =>
    rw [Parser.perform, Parser.perform, hpaired.peek h]
    exact .some _ h
  | expectPeek kind =>
    change Replies facing ((Rule.expect kind p).reply fun found => .truth found.isSome)
      ((Rule.expect kind q).reply fun found => .truth found.isSome)
    by_cases hkind : p.peek.kind = kind
    · rw [Rule.expect_of_eq hkind, Rule.expect_of_eq (hpaired.peek h ▸ hkind)]
      exact .some _ (hpaired.advance h)
    · rw [Rule.expect_of_ne hkind, Rule.expect_of_ne (hpaired.peek h ▸ hkind)]
      exact .some _ (hpaired.reportPeek h kind)
  | reportPeek kind => exact .some _ (hpaired.reportPeek h kind)
  | currentPrecedence =>
    rw [Parser.perform, Parser.perform, hlevel.2]
    exact .some _ h
  | peekPrecedence =>
    rw [Parser.perform, Parser.perform, hpaired.peek h]
    exact .some _ h
  | checkErrors =>
    rw [Parser.perform, Parser.perform, herrors h]
    split
    · exact .some _ h
    · exact .some _ h
  | program => exact (hpaired.program_agrees limits.rounds limits.nesting h).replies hfacing _
  | block => exact (hpaired.block_agrees hnested h).replies hfacing _
  | statement =>
    exact (Grammar.statement_agrees hab hnested (.inl hlevel)).replies hsettled _
  | letStatement => exact (Grammar.letStatement_agrees hab hnested h).replies hsettled _
  | returnStatement =>
    exact (Grammar.returnStatement_agrees hab hnested h hreach).replies hsettled _
  | expressionStatement =>
    exact (Grammar.expressionStatement_agrees hab hnested (.inl hlevel)).replies hsettled _
  | identifier => exact (Grammar.identifier_agrees hlevel).replies hfacing _
  | integer => exact (Grammar.integer_agrees hab hlevel).replies hfacing _
  | boolean => exact (Grammar.boolean_agrees hlevel).replies hfacing _
  | unary => exact (Grammar.unary_agrees hab hnested hlevel hreach).replies hfacing _
  | grouped => exact (Grammar.grouped_agrees hab hnested h hreach).replies hfacing _
  | conditional => exact (Grammar.conditional_agrees hab hnested hblocks h).replies hfacing _
  | function => exact (Grammar.function_agrees hab hblocks h).replies hfacing _
  | parameters => exact (Grammar.parameters_agrees hab h).replies hfacing _
  | arguments => exact (Grammar.arguments_agrees hab hnested h hreach).replies hfacing _
  | expression floor => exact (hnested floor p q (.inl hlevel)).replies hfacing _
  | binary left => exact (Grammar.binary_agrees hab hnested left hlevel hreach).replies hfacing _
  | call callee => exact (Grammar.call_agrees hab hnested callee h hreach).replies hfacing _

/-- Steps one after another have the same replies and show the same moments on parsers that face the
same tokens and reported the same. -/
theorem Paired.drive_eq (hpaired : Paired facing)
    (herrors : ∀ {p q}, facing p q → q.errors = p.errors) {p : Parser σ} {q : Parser τ}
    (h : facing p q) (limits : Limits) (steps : List Call) :
    q.drive limits steps = p.drive limits steps := by
  induction steps generalizing p q with
  | nil => rfl
  | cons step steps ih =>
    have hreplies := hpaired.replies herrors h limits step
    rw [Parser.drive, Parser.drive]
    revert hreplies
    generalize p.perform limits step = left, q.perform limits step = right
    intro hreplies
    cases hreplies with
    | none => rfl
    | @some p q reply h =>
      have hmoment : q.moment = p.moment := by
        unfold Parser.moment
        rw [hpaired.current h, hpaired.peek h, herrors h]
      change (q.drive limits steps).bind _ = (p.drive limits steps).bind _
      rw [ih h, hmoment]

end Paired

/-! ## What every step keeps -/

section Kept

variable {σ : Type} [TokenSource σ]

/-- A property of parsers that moving on, reporting and beginning a statement keep. -/
structure Kept (holds : Parser σ → Prop) : Prop where
  advance : ∀ {parser}, holds parser → holds parser.advance
  report : ∀ {parser}, holds parser → ∀ fault, holds (parser.report fault)
  beginStatement : ∀ {parser}, holds parser → holds parser.beginStatement

variable {holds : Parser σ → Prop} (hkept : Kept holds) {parser last : Parser σ}

include hkept

/-- A parser with a property that is kept is side by side with itself. -/
theorem Kept.paired : Paired fun p q : Parser σ => q = p ∧ holds p where
  current h := congrArg Parser.current h.1
  peek h := congrArg Parser.peek h.1
  advance h := ⟨congrArg Parser.advance h.1, hkept.advance h.2⟩
  report h fault := ⟨congrArg (Parser.report · fault) h.1, hkept.report h.2 fault⟩
  beginStatement h := ⟨congrArg Parser.beginStatement h.1, hkept.beginStatement h.2⟩

/-- What is kept holds after every step. -/
theorem Kept.perform (h : holds parser) {limits : Limits} {step : Call} {reply : Reply}
    (hperform : parser.perform limits step = some (reply, last)) : holds last := by
  have hreplies := hkept.paired.replies (fun h => congrArg Parser.errors h.1) ⟨rfl, h⟩ limits step
  rw [hperform] at hreplies
  cases hreplies with
  | some _ h => exact h.2

/-- What is kept holds after a program. -/
theorem Kept.program (h : holds parser) {steps nesting : Nat} {node : Node}
    (hprogram : Grammar.program steps (Grammar.expressionWithin steps nesting) parser =
      .done node last) : holds last := by
  have hagrees : (Grammar.program steps (Grammar.expressionWithin steps nesting) parser).Agrees _ _
      _ := hkept.paired.program_agrees steps nesting ⟨rfl, h⟩
  rw [hprogram] at hagrees
  cases hagrees with
  | done _ h => exact h.2

end Kept

/-! ## Places in a list of tokens -/

section Places

variable {σ : Type} [LawfulSource σ] {parser last : Parser σ} {tokens : List Token}

/-- The parser is at some place of `tokens` that is not before `place`. -/
def Parser.Reaches (tokens : List Token) (place : Nat) (parser : Parser σ) : Prop :=
  ∃ next, place ≤ next ∧ parser.StandsAt (tokens.drop next)

/-- No step goes back. -/
theorem reaches_kept (tokens : List Token) (place : Nat) :
    Kept (Parser.Reaches tokens place : Parser σ → Prop) where
  advance h := by
    obtain ⟨next, hle, hstand⟩ := h
    refine ⟨next + 1, Nat.le_succ_of_le hle, ?_⟩
    rw [← List.tail_drop]
    exact hstand.faces.advance
  report h fault := by
    obtain ⟨next, hle, hstand⟩ := h
    exact ⟨next, hle, hstand.current, hstand.faces.report fault, hstand.proper⟩
  beginStatement h := by
    obtain ⟨next, hle, hstand⟩ := h
    exact ⟨next, hle, hstand.beginStatement⟩

/-- A parser that stands at the tokens from a place on shows those at that place. -/
theorem Parser.StandsAt.moment_isAt {place : Nat} (h : parser.StandsAt (tokens.drop place)) :
    parser.moment.IsAt tokens place := by
  have hhead : ∀ place, (tokens.drop place).headD .eof = tokens.getD place .eof := fun place => by
    rw [List.headD_eq_head?_getD, List.head?_drop, List.getD_eq_getElem?_getD]
  refine ⟨h.current.trans (hhead place), h.faces.peek.trans ?_⟩
  rw [List.tail_drop]
  exact hhead (place + 1)

/-- A parser that is driven moves on through its tokens. -/
theorem Parser.StandsAt.movesOn {place : Nat} (h : parser.StandsAt (tokens.drop place))
    {limits : Limits} {steps : List Call} {replies : List (Reply × Moment)}
    (hdrive : parser.drive limits steps = some replies) :
    MovesOn tokens place (replies.map Prod.snd) := by
  induction steps generalizing parser place replies with
  | nil =>
    obtain rfl := Option.some.inj hdrive
    trivial
  | cons step steps ih =>
    rw [Parser.drive] at hdrive
    cases hperform : parser.perform limits step with
    | none =>
      rw [hperform] at hdrive
      exact nomatch hdrive
    | some found =>
      obtain ⟨reply, after⟩ := found
      rw [hperform] at hdrive
      change (after.drive limits steps).bind _ = _ at hdrive
      obtain ⟨later, hlater, heq⟩ := Option.bind_eq_some_iff.mp hdrive
      obtain rfl := Option.some.inj heq
      obtain ⟨next, hle, hstand⟩ :=
        (reaches_kept tokens place).perform ⟨place, Nat.le_refl place, h⟩ hperform
      exact ⟨next, hle, hstand.moment_isAt, ih hstand hlater⟩

/-- A parser that is driven has replies to all steps within limits that exceed the number of its
tokens. -/
theorem Parser.StandsAt.isSome_drive {place : Nat} (h : parser.StandsAt (tokens.drop place))
    {limits : Limits} (hnesting : tokens.length < limits.nesting)
    (hrounds : tokens.length < limits.rounds) (steps : List Call) :
    (parser.drive limits steps).isSome = true := by
  induction steps generalizing parser place with
  | nil => rfl
  | cons step steps ih =>
    have hlength : (tokens.drop place).length ≤ tokens.length := by
      rw [List.length_drop]
      exact Nat.sub_le _ _
    obtain ⟨⟨reply, after⟩, hperform⟩ := Option.isSome_iff_exists.mp
      (Parser.isSome_perform h (Nat.lt_of_le_of_lt hlength hnesting)
        (Nat.lt_of_le_of_lt hlength hrounds) step)
    obtain ⟨next, -, hstand⟩ :=
      (reaches_kept tokens place).perform ⟨place, Nat.le_refl place, h⟩ hperform
    obtain ⟨later, hlater⟩ := Option.isSome_iff_exists.mp (ih hstand)
    rw [Parser.drive, hperform]
    change ((after.drive limits steps).bind _).isSome = true
    rw [hlater]
    rfl

end Places

/-! ## What a source handed out -/

/-- A source that keeps the tokens that it handed out, oldest first. -/
structure Recorder (σ : Type) where
  source : σ
  given : List Token

namespace Recorder

variable {σ : Type}

instance [TokenSource σ] : TokenSource (Recorder σ) where
  next recorder :=
    let (token, source) := TokenSource.next recorder.source
    (token, ⟨source, recorder.given ++ [token]⟩)

instance [LawfulSource σ] : LawfulSource (Recorder σ) where
  pending recorder := LawfulSource.pending recorder.source
  nextOfList_pending recorder := LawfulSource.nextOfList_pending recorder.source

/-- The tokens that were handed out, without those of the end. -/
def tokens (recorder : Recorder σ) : List Token :=
  recorder.given.filter fun token => token.kind ≠ .eof

variable [LawfulSource σ]

/-- What was handed out and what is to come. -/
def all (recorder : Recorder σ) : List Token :=
  recorder.tokens ++ LawfulSource.pending recorder.source

/-- What is handed out was to come before. -/
theorem all_next {recorder : Recorder σ}
    (hproper : ∀ token ∈ LawfulSource.pending recorder.source, token.kind ≠ .eof) :
    (TokenSource.next recorder).2.all = recorder.all := by
  have hnext : (TokenSource.next recorder).2.tokens = recorder.tokens ++
      [(TokenSource.next recorder.source).1].filter fun token => token.kind ≠ .eof :=
    List.filter_append _ _
  unfold all
  rw [hnext]
  change _ ++ LawfulSource.pending (TokenSource.next recorder.source).2 = _
  rw [LawfulSource.next_fst, LawfulSource.pending_next]
  cases hpending : LawfulSource.pending recorder.source with
  | nil => simp [Token.eof]
  | cons token rest =>
    have htoken : token.kind ≠ .eof := hproper token (by rw [hpending]; exact List.mem_cons_self)
    simp [htoken]

/-- No step changes what a parser was given and what is to come. -/
theorem all_kept (tokens : List Token) (hproper : ∀ token ∈ tokens, token.kind ≠ .eof) :
    Kept fun parser : Parser (Recorder σ) => parser.source.all = tokens where
  advance h := by
    refine (all_next fun token hmem => ?_).trans h
    exact hproper token (h ▸ List.mem_append_right _ hmem)
  report h _ := h
  beginStatement h := h

/-- A new parser was given what is not to come any more. -/
theorem all_start {source : σ}
    (hproper : ∀ token ∈ LawfulSource.pending source, token.kind ≠ .eof) :
    (Parser.start (⟨source, []⟩ : Recorder σ)).source.all = LawfulSource.pending source := by
  have hfirst : (TokenSource.next (⟨source, []⟩ : Recorder σ)).2.all =
      LawfulSource.pending source := all_next hproper
  refine (all_next fun token hmem => ?_).trans hfirst
  exact hproper token (hfirst ▸ List.mem_append_right _ hmem)

end Recorder

/-- The run over a text with a record of what the parser is given: the tree and the faults are the
result for the text, and what the parser is given are the tokens of the text. -/
theorem program_recorder {nesting : Nat} {text : String} (h : text.length < nesting) :
    ∃ last : Parser (Recorder Lexer),
      Grammar.program (Limits.forText nesting text.toList).rounds
          (Limits.forText nesting text.toList).expression
          (Parser.start (⟨⟨text.toList⟩, []⟩ : Recorder Lexer)) =
        .done (parse text).program last ∧
      last.errors.toList = (parse text).errors ∧ last.source.tokens = tokenize text.toList := by
  have hproper : ∀ token ∈ tokenize text.toList, token.kind ≠ .eof :=
    fun _ hmem => kind_ne_eof_of_mem_tokenize hmem
  have hlength : (tokenize text.toList).length < nesting :=
    Nat.lt_of_le_of_lt (length_tokenize_le text.toList) (by rw [String.length_toList]; exact h)
  have hrounds : (tokenize text.toList).length < text.toList.length + 2 :=
    Nat.lt_add_right 1 (Nat.lt_succ_of_le (length_tokenize_le text.toList))
  have hstand : (Parser.start (⟨⟨text.toList⟩, []⟩ : Recorder Lexer)).StandsAt
      (tokenize text.toList) := Parser.start_standsAt hproper
  obtain ⟨statements, last, hlast, hend⟩ := Grammar.exists_program hstand hrounds hlength
  obtain ⟨hprogram, herrors⟩ := parse_of_standsAt hstand hlast
  have hall := (Recorder.all_kept _ hproper).program (Recorder.all_start hproper) hlast
  -- at the end nothing is to come, so everything was given
  have hpending : LawfulSource.pending last.source.source = [] := hend.faces.pending
  rw [Recorder.all, hpending, List.append_nil] at hall
  exact ⟨last, hprogram ▸ hlast, herrors, hall⟩

/-! ## Listings of tokens -/

/-- A run that is asked for the tokens ends as one that is not, and writes the tokens of the text
before what that one writes. -/
theorem process_tokens (nesting : Nat) (isText tree : Bool) (text : String) :
    Run.process nesting ⟨isText, true, tree⟩ text =
      let plain := Run.process nesting ⟨isText, false, tree⟩ text
      { plain with
        output := Report.lines ((tokenize text.toList).map Token.description) ++
          plain.output } := by
  have hlisting : Report.tokens "" text =
      Report.lines ((tokenize text.toList).map Token.description) := by
    simp only [Report.tokens, String.empty_append]
  rw [← hlisting]
  unfold Run.process
  dsimp only
  rw [if_pos rfl, if_neg Bool.false_ne_true]
  -- neither how the text is read nor how its tree is shown depends on what is listed
  split
  · rw [String.append_empty]
  · split
    · rw [String.append_empty]
    · split
      · rw [String.append_empty]
      · rw [String.empty_append, String.append_assoc]

/-- The answer to a line whose tokens are listed is their list before the answer without it. -/
theorem answer_listed (nesting : Nat) (text : String) :
    Session.answer nesting true text =
      Report.lines ((tokenize text.toList).map ("[token] >>> " ++ ·.description)) ++
        Session.answer nesting false text := by
  have hlisting : Session.listing true text =
      Report.lines ((tokenize text.toList).map ("[token] >>> " ++ ·.description)) := rfl
  have hplain : Session.listing false text = "" := rfl
  rw [Session.answer, Session.answer, Session.respond, Session.respond, hlisting, hplain]
  cases Session.evaluate nesting text with
  | none =>
    rw [Option.map_none, Option.map_none, Option.getD_none, Option.getD_none, String.empty_append]
  | some shown =>
    rw [Option.map_some, Option.map_some, Option.getD_some, Option.getD_some, String.empty_append]

/-! ## Tokens on demand -/

/-- The parser at the position of a reader stands at the tokens of the text ahead. -/
theorem ofReader_standsAt_ahead {reader : Reader} (h : 0 ≤ reader.position) :
    ∃ parser, Parser.ofReader reader = .ok parser ∧
      parser.StandsAt (tokenize reader.ahead) ∧ parser.errors = #[] := by
  obtain ⟨-, hahead⟩ := Reader.ahead_readWhile h isGap
  refine ⟨_, by rw [Parser.ofReader, Reader.lexer, Reader.skipGap_eq h]; rfl, ?_, rfl⟩
  have htokens : tokenize (reader.ahead.dropWhile isGap) = tokenize reader.ahead := by
    have hgap : ∀ c ∈ reader.ahead.takeWhile isGap, isGap c = true :=
      List.all_eq_true.mp List.all_takeWhile
    rw [← tokenize_append_of_isGap hgap, List.takeWhile_append_dropWhile]
  rw [hahead]
  exact htokens ▸ start_lexer_standsAt (reader.ahead.dropWhile isGap)

/-- The parser at the start of a text stands at the tokens of the text. -/
theorem ofReader_standsAt (text : String) :
    ∃ parser, Parser.ofReader ⟨text.toList, 0⟩ = .ok parser ∧
      parser.StandsAt (tokenize text.toList) ∧ parser.errors = #[] :=
  @ofReader_standsAt_ahead ⟨text.toList, 0⟩ (Int.le_refl 0)

/-- The parser that scans a text on demand, from the start of the text, replies and shows the same
as the parser over the list of its tokens, through any steps in any order. Within limits that exceed
the number of tokens every step has a reply, and the parser only moves on through the list. So texts
with the same tokens have the same result. A listing of tokens lists what the parser is given, each
token once, and changes nothing else of a run or of the answer to a line. -/
theorem drive_eq_drive_tokenize (text : String) :
    (∃ parser, Parser.ofReader ⟨text.toList, 0⟩ = .ok parser ∧
      parser.moment = (Parser.start (tokenize text.toList)).moment ∧
      parser.moment.IsAt (tokenize text.toList) 0 ∧
      ∀ limits steps,
        parser.drive limits steps = (Parser.start (tokenize text.toList)).drive limits steps ∧
        ((tokenize text.toList).length < limits.nesting →
          (tokenize text.toList).length < limits.rounds →
            (parser.drive limits steps).isSome = true) ∧
        ∀ replies, parser.drive limits steps = some replies →
          MovesOn (tokenize text.toList) 0 (replies.map Prod.snd)) ∧
    (∀ other : String, tokenize other.toList = tokenize text.toList → parse other = parse text) ∧
    ∀ nesting, text.length < nesting → ∃ last : Parser (Recorder Lexer),
      Grammar.program (Limits.forText nesting text.toList).rounds
          (Limits.forText nesting text.toList).expression
          (Parser.start (⟨⟨text.toList⟩, []⟩ : Recorder Lexer)) =
        .done (parse text).program last ∧
      last.errors.toList = (parse text).errors ∧ last.source.tokens = tokenize text.toList ∧
      (∀ isText tree, Run.process nesting ⟨isText, true, tree⟩ text =
        let plain := Run.process nesting ⟨isText, false, tree⟩ text
        { plain with
          output := Report.lines (last.source.tokens.map Token.description) ++ plain.output }) ∧
      Session.answer nesting true text =
        Report.lines (last.source.tokens.map ("[token] >>> " ++ ·.description)) ++
          Session.answer nesting false text := by
  refine ⟨?_, fun _ h => parse_eq_of_tokenize_eq h, fun nesting hnesting => ?_⟩
  · obtain ⟨parser, hparser, hstand, herrors⟩ := ofReader_standsAt text
    have hlist : (Parser.start (tokenize text.toList)).StandsAt (tokenize text.toList) :=
      Parser.start_standsAt fun _ hmem => kind_ne_eof_of_mem_tokenize hmem
    have hmirrors : Mirrors #[] (Parser.start (tokenize text.toList)) parser :=
      .of_standsAt hlist hstand (herrors.trans Array.append_empty.symm)
    have hpaired : Paired (Mirrors #[] : Parser (List Token) → Parser Lexer → Prop) :=
      mirrors_paired #[]
    have hsame : ∀ {p : Parser (List Token)} {q : Parser Lexer}, Mirrors #[] p q →
        q.errors = p.errors := fun h => h.errors.trans Array.empty_append
    rw [← List.drop_zero (l := tokenize text.toList)] at hstand
    refine ⟨parser, hparser, ?_, hstand.moment_isAt, fun limits steps => ⟨?_, ?_, ?_⟩⟩
    · unfold Parser.moment
      rw [hpaired.current hmirrors, hpaired.peek hmirrors, hsame hmirrors]
    · exact hpaired.drive_eq hsame hmirrors limits steps
    · exact fun hnesting hrounds => hstand.isSome_drive hnesting hrounds steps
    · exact fun replies hdrive => hstand.movesOn hdrive
  · obtain ⟨last, hlast, herrors, htokens⟩ := program_recorder hnesting
    refine ⟨last, hlast, herrors, htokens, ?_⟩
    rw [htokens]
    exact ⟨fun isText tree => process_tokens nesting isText tree text, answer_listed nesting text⟩

/-- Steps out of order over a faulty text, beyond its end as well, the text in other gaps, and its
tokens as they are listed. -/
theorem drive_eq_drive_tokenize_faulty :
    (∃ parser replies, Parser.ofReader ⟨"let x 5\x7d".toList, 0⟩ = .ok parser ∧
      parser.drive ⟨9, 9⟩ [.reportPeek .lparen, .letStatement, .binary (.integer 1), .block,
        .expression (-1)] = some replies ∧
      (Parser.start (tokenize "let x 5\x7d".toList)).drive ⟨9, 9⟩ [.reportPeek .lparen,
        .letStatement, .binary (.integer 1), .block, .expression (-1)] = some replies ∧
      MovesOn (tokenize "let x 5\x7d".toList) 0 (replies.map Prod.snd)) ∧
    parse "\tlet x\n5 \x7d" = parse "let x 5\x7d" ∧
    ∃ last : Parser (Recorder Lexer), last.source.tokens = tokenize "let x 5\x7d".toList ∧
      Run.process 9 ⟨true, true, false⟩ "let x 5\x7d" =
        ⟨.status 1,
          "Token(Let, 'let')\nToken(Ident, 'x')\nToken(Int, '5')\nToken(RBrace, '\x7d')\n",
          Report.faults [.unexpected .assign .int]⟩ ∧
      Session.answer 9 true "let x 5\x7d" =
        Report.lines (last.source.tokens.map ("[token] >>> " ++ ·.description)) ++
          Report.faults [.unexpected .assign .int] := by
  have hlength : (tokenize "let x 5\x7d".toList).length < 9 := by decide +kernel
  obtain ⟨⟨parser, hparser, -, -, hdrive⟩, hparse, hlast⟩ := drive_eq_drive_tokenize "let x 5\x7d"
  refine ⟨?_, hparse _ (by decide +kernel), ?_⟩
  · obtain ⟨hlist, hsome, hmoves⟩ := hdrive ⟨9, 9⟩ [.reportPeek .lparen, .letStatement,
      .binary (.integer 1), .block, .expression (-1)]
    obtain ⟨replies, hreplies⟩ := Option.isSome_iff_exists.mp (hsome hlength hlength)
    exact ⟨parser, replies, hparser, hreplies, hlist ▸ hreplies, hmoves replies hreplies⟩
  · obtain ⟨last, -, -, htokens, hrun, hanswer⟩ := hlast 9 (by decide)
    have hplain : Run.process 9 ⟨true, false, false⟩ "let x 5\x7d" =
        ⟨.status 1, "", Report.faults [.unexpected .assign .int]⟩ := by decide +kernel
    have hreply : Session.answer 9 false "let x 5\x7d" =
        Report.faults [.unexpected .assign .int] := by decide +kernel
    refine ⟨last, htokens, (hrun true false).trans ?_, hanswer.trans (by rw [hreply])⟩
    rw [hplain, htokens]
    decide +kernel

end ExprLang
