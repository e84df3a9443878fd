import ExprLang.Proofs.Splitting

/-!
# Where a list of parameters ends

From wherever a parser is, the tokens after the one under examination decide what becomes of a list
of parameters. If they begin with one, it is read up to its closing parenthesis, and nothing is
reported. Otherwise they leave every list at some place: the tokens before it begin a list that goes
on, but not with the token there. The parser stops before this token and reports it, once, beside
what is expected after the token before it.

No list of parameters begins another one, so there is one such place at most.
-/

namespace ExprLang

open Phrase

namespace Parser

variable {σ : Type} [TokenSource σ]

/-- The parser `count` tokens further on. -/
def further : (count : Nat) → (parser : Parser σ) → Parser σ
  | 0, parser => parser
  | count + 1, parser => further count parser.advance

/-- The next `count` tokens after the one under examination. Where the source has no more tokens,
that for the end comes again and again. -/
def upcoming : (count : Nat) → (parser : Parser σ) → List Token
  | 0, _ => []
  | count + 1, parser => parser.peek :: upcoming count parser.advance

/-- The tokens up to a place and those after it. -/
theorem upcoming_add (count more : Nat) (parser : Parser σ) :
    parser.upcoming (count + more) =
      parser.upcoming count ++ (parser.further count).upcoming more := by
  induction count generalizing parser with
  | zero => rw [Nat.zero_add]; rfl
  | succ count ih =>
    rw [Nat.succ_add]
    exact congrArg (parser.peek :: ·) (ih parser.advance)

/-- As many tokens come as are asked for. -/
theorem length_upcoming (count : Nat) (parser : Parser σ) :
    (parser.upcoming count).length = count := by
  induction count generalizing parser with
  | zero => rfl
  | succ count ih => exact congrArg (· + 1) (ih parser.advance)

/-- Moving on reports nothing. -/
theorem errors_further (count : Nat) (parser : Parser σ) :
    (parser.further count).errors = parser.errors := by
  induction count generalizing parser with
  | zero => rfl
  | succ count ih => exact ih parser.advance

/-- The last one of the tokens that a parser moves over is the one that it examines then. -/
theorem getLast?_upcoming (count : Nat) (parser : Parser σ) :
    (parser.upcoming (count + 1)).getLast? = some (parser.further (count + 1)).current := by
  induction count generalizing parser with
  | zero => rfl
  | succ count ih => exact (List.getLast?_cons_cons).trans (ih parser.advance)

end Parser

/-! ## What may come next in a list -/

namespace Phrase

variable {name comma next token : Token} {read tokens more rest : List Token}
  {parameters parameters' : List Node}

/-- After the tokens `read` a list of parameters may go on with `token`. -/
def Continues (read : List Token) (token : Token) : Prop :=
  ∃ more parameters, Parameters (read ++ token :: more) [] parameters

/-- The tokens `read` begin a list of parameters that goes on, but not with `token`. -/
def Misplaced (read : List Token) (token : Token) : Prop :=
  (∃ other, Continues read other) ∧ ¬ Continues read token

/-- What is expected after the tokens `read` of a list of parameters: a name at the start and after
a comma, and the closing parenthesis after a name. -/
inductive Expects (read : List Token) : Kind → Prop where
  | start : read = [] → Expects read .ident
  | comma {last} : read.getLast? = some last → last.kind = .comma → Expects read .ident
  | name {last} : read.getLast? = some last → last.kind = .ident → Expects read .rparen

/-- What is expected depends on the last token only. -/
theorem Expects.cons {kind : Kind} (h : Expects (token :: read) kind) (name : Token) :
    Expects (name :: token :: read) kind := by
  cases h with
  | start h => exact nomatch h
  | comma hlast hkind => exact .comma (List.getLast?_cons_cons.trans hlast) hkind
  | name hlast hkind => exact .name (List.getLast?_cons_cons.trans hlast) hkind

/-- A list with a parameter at least begins with a name. -/
theorem ParametersFrom.exists_name (h : ParametersFrom tokens rest parameters) :
    ∃ name ahead, tokens = name :: ahead ∧ name.kind = .ident := by
  cases h with
  | last hname => exact ⟨_, _, rfl, hname⟩
  | more hname => exact ⟨_, _, rfl, hname⟩

/-- A list that begins with a name has a parameter at least. -/
theorem Parameters.from_name (hname : name.kind = .ident)
    (h : Parameters (name :: tokens) rest parameters) :
    ParametersFrom (name :: tokens) rest parameters := by
  cases h with
  | none hclosing => rw [hname] at hclosing; exact nomatch hclosing
  | some hfrom => exact hfrom

/-- The last token of a list of parameters is the closing parenthesis. -/
theorem ParametersFrom.exists_closing (h : ParametersFrom tokens rest parameters) :
    ∃ read closing, tokens = read ++ closing :: rest ∧ closing.kind = .rparen := by
  induction h with
  | @last name closing _ _ hclosing => exact ⟨[name], closing, rfl, hclosing⟩
  | @more name comma _ _ _ _ _ _ ih =>
    obtain ⟨read, closing, htokens, hclosing⟩ := ih
    exact ⟨name :: comma :: read, closing, congrArg (name :: comma :: ·) htokens, hclosing⟩

/-- The last token of a list of parameters is the closing parenthesis. -/
theorem Parameters.exists_closing (h : Parameters tokens rest parameters) :
    ∃ read closing, tokens = read ++ closing :: rest ∧ closing.kind = .rparen := by
  cases h with
  | none hclosing => exact ⟨[], _, rfl, hclosing⟩
  | some hfrom => exact hfrom.exists_closing

/-- A list of parameters with more tokens after it is not another list. -/
theorem ParametersFrom.eq_of_append (h : ParametersFrom tokens rest parameters) (hrest : rest = [])
    (h' : ParametersFrom (tokens ++ more) [] parameters') :
    more = [] ∧ parameters = parameters' := by
  induction h generalizing parameters' with
  | last _ hclosing =>
    subst hrest
    cases h' with
    | last => exact ⟨rfl, rfl⟩
    | more _ hcomma _ => rw [hclosing] at hcomma; exact nomatch hcomma
  | @more name comma tokens _ _ _ hcomma _ ih =>
    change ParametersFrom (name :: comma :: (tokens ++ more)) [] parameters' at h'
    generalize hwhole : tokens ++ more = whole at h'
    cases h' with
    | last _ hclosing => rw [hcomma] at hclosing; exact nomatch hclosing
    | more _ _ hmore =>
      obtain ⟨hnone, hparameters⟩ := ih hrest (hwhole ▸ hmore)
      exact ⟨hnone, congrArg _ hparameters⟩

/-- A list of parameters with more tokens after it is not another list. -/
theorem Parameters.eq_of_append (h : Parameters tokens [] parameters)
    (h' : Parameters (tokens ++ more) [] parameters') : more = [] ∧ parameters = parameters' := by
  cases h with
  | none hclosing =>
    cases h' with
    | none => exact ⟨rfl, rfl⟩
    | some hfrom =>
      obtain ⟨_, _, htokens, hname⟩ := hfrom.exists_name
      rw [← (List.cons.inj htokens).1, hclosing] at hname
      exact nomatch hname
  | some hfrom =>
    obtain ⟨name, rest, rfl, hname⟩ := hfrom.exists_name
    exact hfrom.eq_of_append rfl (h'.from_name hname)

/-- After a name and a comma a list goes on as it does from the next name. -/
theorem continues_cons (hname : name.kind = .ident) (hcomma : comma.kind = .comma)
    (hnext : next.kind = .ident) :
    Continues (name :: comma :: next :: read) token ↔ Continues (next :: read) token := by
  constructor
  · rintro ⟨more, parameters, h⟩
    cases h.from_name hname with
    | more _ _ hmore => exact ⟨more, _, .some hmore⟩
  · rintro ⟨more, parameters, h⟩
    exact ⟨more, _, .some (.more hname hcomma (h.from_name hnext))⟩

/-- A token is misplaced after a name and a comma if it is so without them. -/
theorem Misplaced.cons (hname : name.kind = .ident) (hcomma : comma.kind = .comma)
    (hnext : next.kind = .ident) (h : Misplaced (next :: read) token) :
    Misplaced (name :: comma :: next :: read) token := by
  obtain ⟨⟨other, hother⟩, htoken⟩ := h
  exact ⟨⟨other, (continues_cons hname hcomma hnext).mpr hother⟩,
    fun h => htoken ((continues_cons hname hcomma hnext).mp h)⟩

/-- At the start of a list only a name and the closing parenthesis are in place. -/
theorem misplaced_start (hname : token.kind ≠ .ident) (hclosing : token.kind ≠ .rparen) :
    Misplaced [] token := by
  refine ⟨⟨⟨.rparen, ")"⟩, [], [], .none rfl⟩, ?_⟩
  rintro ⟨more, parameters, h⟩
  cases h with
  | none htoken => exact hclosing htoken
  | some hfrom =>
    obtain ⟨_, _, htokens, htoken⟩ := hfrom.exists_name
    exact hname ((List.cons.inj htokens).1 ▸ htoken)

/-- After a name only a comma and the closing parenthesis are in place. -/
theorem misplaced_name (hname : name.kind = .ident) (hcomma : token.kind ≠ .comma)
    (hclosing : token.kind ≠ .rparen) : Misplaced [name] token := by
  refine ⟨⟨⟨.rparen, ")"⟩, [], _, .some (.last hname rfl)⟩, ?_⟩
  rintro ⟨more, parameters, hlist⟩
  have hfrom : ParametersFrom (name :: token :: more) [] parameters := hlist.from_name hname
  cases hfrom with
  | last _ htoken => exact hclosing htoken
  | more _ htoken => exact hcomma htoken

/-- After a comma only a name is in place. -/
theorem misplaced_comma (hname : name.kind = .ident) (hcomma : comma.kind = .comma)
    (htoken : token.kind ≠ .ident) : Misplaced [name, comma] token := by
  refine ⟨⟨name, [⟨.rparen, ")"⟩], _, .some (.more hname hcomma (.last hname rfl))⟩, ?_⟩
  rintro ⟨more, parameters, hlist⟩
  have hfrom : ParametersFrom (name :: comma :: token :: more) [] parameters :=
    hlist.from_name hname
  cases hfrom with
  | more _ _ hmore =>
    obtain ⟨_, _, htokens, hfirst⟩ := hmore.exists_name
    exact htoken ((List.cons.inj htokens).1 ▸ hfirst)

end Phrase

/-! ## How reading a list ends -/

/-- The rule ends with what was found, if anything was. -/
def Outcome.ofOption {σ α : Type} : Option α → Parser σ → Outcome σ α
  | some value, last => .done value last
  | none, last => .abandoned last

/-- The reply of a rule that ends with what was found. -/
theorem Outcome.reply_ofOption {σ α : Type} (form : Option α → Reply) (found : Option α)
    (last : Parser σ) : (Outcome.ofOption found last).reply form = some (form found, last) := by
  cases found <;> rfl

/-- What the tokens ahead of a parser make of a list of parameters that the tokens `read` begin:
they bring it to its end, or one of them is misplaced and the parser stops before it and reports
it. -/
inductive Parser.Settles {σ : Type} [TokenSource σ] (parser : Parser σ) (read : List Token) :
    Option (List Node) → Parser σ → Prop where
  | closed (count : Nat) {parameters} : Parameters (read ++ parser.upcoming count) [] parameters →
      Settles parser read (some parameters) (parser.further count)
  | misplaced (count : Nat) {expected} :
      Misplaced (read ++ parser.upcoming count) (parser.further count).peek →
      Expects (read ++ parser.upcoming count) expected →
      Settles parser read none ((parser.further count).reportPeek expected)

namespace Parser

section Settles

variable {σ : Type} [TokenSource σ] {parser last : Parser σ} {found : Option (List Node)}

/-- A name and a comma before the next name settle nothing. What the tokens after it make of the
list that begins with it, they make of the whole list. -/
theorem Settles.cons (hname : parser.current.kind = .ident) (hcomma : parser.peek.kind = .comma)
    (hnext : parser.advance.peek.kind = .ident)
    (h : parser.advance.advance.Settles [parser.advance.peek] found last) :
    parser.Settles [parser.current]
      (found.map (Node.identifier parser.current.literal :: ·)) last := by
  cases h with
  | closed count hlist =>
    exact .closed (count + 2) (.some (.more hname hcomma (hlist.from_name hnext)))
  | misplaced count hmisplaced hexpects =>
    exact .misplaced (count + 2) (hmisplaced.cons hname hcomma hnext)
      ((hexpects.cons _).cons _)

/-- What the tokens after the next one make of the list that begins with it, those with it make of
the whole list. -/
theorem Settles.of_advance (h : parser.advance.Settles [parser.peek] found last) :
    parser.Settles [] found last := by
  cases h with
  | closed count hlist => exact .closed (count + 1) hlist
  | misplaced count hmisplaced hexpects => exact .misplaced (count + 1) hmisplaced hexpects

/-- A list of parameters is over where it ends: no tokens on the way further make another one. -/
theorem eq_zero_of_parameters {count ahead : Nat} {more : List Token}
    {parameters parameters' : List Node} (h : Parameters (parser.upcoming count) [] parameters)
    (h' : Parameters (parser.upcoming (count + ahead) ++ more) [] parameters') :
    ahead = 0 ∧ more = [] ∧ parameters = parameters' := by
  rw [upcoming_add, List.append_assoc] at h'
  obtain ⟨hrest, hparameters⟩ := h.eq_of_append h'
  obtain ⟨hahead, hmore⟩ := List.append_eq_nil_iff.mp hrest
  exact ⟨(length_upcoming ahead _).symm.trans (congrArg List.length hahead), hmore, hparameters⟩

/-- The tokens ahead make one list of parameters at most. -/
theorem parameters_unique {count count' : Nat} {parameters parameters' : List Node}
    (h : Parameters (parser.upcoming count) [] parameters)
    (h' : Parameters (parser.upcoming count') [] parameters') :
    count = count' ∧ parameters = parameters' := by
  rcases Nat.le_total count count' with hle | hle
  · obtain ⟨ahead, rfl⟩ := Nat.exists_eq_add_of_le hle
    obtain ⟨rfl, -, hparameters⟩ :=
      eq_zero_of_parameters h ((List.append_nil (parser.upcoming (count + ahead))).symm ▸ h')
    exact ⟨rfl, hparameters⟩
  · obtain ⟨ahead, rfl⟩ := Nat.exists_eq_add_of_le hle
    obtain ⟨rfl, -, hparameters⟩ :=
      eq_zero_of_parameters h' ((List.append_nil (parser.upcoming (count' + ahead))).symm ▸ h)
    exact ⟨rfl, hparameters.symm⟩

/-- Where a token is misplaced the tokens ahead make no list of parameters. -/
theorem not_parameters_of_misplaced {count count' : Nat} {parameters : List Node}
    (h : Misplaced (parser.upcoming count) (parser.further count).peek) :
    ¬ Parameters (parser.upcoming count') [] parameters := by
  intro hlist
  obtain ⟨⟨other, more, parameters', hother⟩, hnot⟩ := h
  rcases Nat.lt_or_ge count count' with hlt | hge
  · obtain ⟨ahead, rfl⟩ := Nat.exists_eq_add_of_lt hlt
    rw [Nat.add_assoc, upcoming_add] at hlist
    exact hnot ⟨_, parameters, hlist⟩
  · obtain ⟨ahead, rfl⟩ := Nat.exists_eq_add_of_le hge
    exact nomatch (eq_zero_of_parameters hlist hother).2.1

/-- A list that the tokens ahead make is the one that is read, and the parser moves to its last
token. -/
theorem Settles.eq_of_parameters {count : Nat} {parameters : List Node}
    (h : parser.Settles [] found last) (hlist : Parameters (parser.upcoming count) [] parameters) :
    found = some parameters ∧ last = parser.further count := by
  cases h with
  | closed count' hlist' =>
    obtain ⟨rfl, rfl⟩ := parameters_unique hlist hlist'
    exact ⟨rfl, rfl⟩
  | misplaced count' hmisplaced _ => exact absurd hlist (not_parameters_of_misplaced hmisplaced)

end Settles

end Parser

namespace Grammar

open Rule

variable {σ : Type} [LawfulSource σ]

/-- The rest of a list of parameters after a name, which is under examination, ends as the tokens
ahead settle it. -/
theorem parametersFrom_settles (parser : Parser σ) (hname : parser.current.kind = .ident) :
    ∃ found last, parser.Settles [parser.current] found last ∧
      ∀ (steps : Nat) (read : Array Node), (LawfulSource.pending parser.source).length ≤ steps →
        parametersFrom (steps + 1) (read.push (.identifier parser.current.literal)) parser =
          .ofOption (found.map (read.toList ++ ·)) last := by
  by_cases hcomma : parser.peek.kind = .comma
  · by_cases hnext : parser.advance.peek.kind = .ident
    · -- the source is shorter by the next name, so the rounds suffice and the recursion ends
      have hless : (LawfulSource.pending parser.advance.advance.source).length <
          (LawfulSource.pending parser.source).length :=
        Nat.lt_of_le_of_lt (LawfulSource.length_pending_next_le _)
          (LawfulSource.length_pending_next_lt fun heof => nomatch hnext.symm.trans heof)
      obtain ⟨found, last, hsettles, hrun⟩ := parametersFrom_settles parser.advance.advance hnext
      refine ⟨_, last, hsettles.cons hname hcomma hnext, fun steps read hsteps => ?_⟩
      obtain ⟨steps, rfl⟩ := Nat.exists_eq_add_one_of_ne_zero
        (Nat.ne_zero_of_lt (Nat.lt_of_lt_of_le hless hsteps))
      rw [parametersFrom, peek_bind_apply, if_pos hcomma, advance_bind_apply,
        expect_bind_of_eq _ hnext]
      have hrun := hrun steps (read.push (.identifier parser.current.literal))
        (Nat.le_of_lt_succ (Nat.lt_of_lt_of_le hless hsteps))
      rw [Array.toList_push] at hrun
      refine hrun.trans ?_
      cases found with
      | none => rfl
      | some parameters => exact congrArg (Outcome.done · last) (List.append_assoc ..)
    · refine ⟨none, _, .misplaced 1 (misplaced_comma hname hcomma hnext)
        (.comma rfl hcomma), fun steps read _ => ?_⟩
      rw [parametersFrom, peek_bind_apply, if_pos hcomma, advance_bind_apply,
        expect_bind_of_ne _ hnext]
      rfl
  · by_cases hclosing : parser.peek.kind = .rparen
    · refine ⟨_, _, .closed 1 (.some (.last hname hclosing)), fun steps read _ => ?_⟩
      rw [parametersFrom, peek_bind_apply, if_neg hcomma, expect_bind_of_eq _ hclosing]
      exact congrArg (Outcome.done · _) Array.toList_push
    · refine ⟨none, _, .misplaced 0 (misplaced_name hname hcomma hclosing)
        (.name rfl hname), fun steps read _ => ?_⟩
      rw [parametersFrom, peek_bind_apply, if_neg hcomma, expect_bind_of_ne _ hclosing]
      rfl
termination_by (LawfulSource.pending parser.source).length
decreasing_by exact hless

/-- A list of parameters ends as the tokens ahead settle it. -/
theorem parameters_settles (parser : Parser σ) :
    ∃ found last, parser.Settles [] found last ∧
      ∀ steps, (LawfulSource.pending parser.source).length < steps →
        parameters steps parser = .ofOption found last := by
  by_cases hclosing : parser.peek.kind = .rparen
  · refine ⟨_, _, .closed 1 (.none hclosing), fun steps _ => ?_⟩
    rw [parameters, peek_bind_apply, if_pos hclosing]
    rfl
  · by_cases hname : parser.peek.kind = .ident
    · obtain ⟨found, last, hsettles, hrun⟩ := parametersFrom_settles parser.advance hname
      refine ⟨found, last, hsettles.of_advance, fun steps hsteps => ?_⟩
      obtain ⟨steps, rfl⟩ := Nat.exists_eq_add_one_of_ne_zero (Nat.ne_zero_of_lt hsteps)
      rw [parameters, peek_bind_apply, if_neg hclosing, expect_bind_of_eq _ hname]
      refine (hrun steps #[] (Nat.le_trans (LawfulSource.length_pending_next_le _)
        (Nat.le_of_lt_succ hsteps))).trans ?_
      cases found <;> rfl
    · refine ⟨none, _, .misplaced 0 (misplaced_start hname hclosing) (.start rfl),
        fun steps _ => ?_⟩
      rw [parameters, peek_bind_apply, if_neg hclosing, expect_bind_of_ne _ hname]
      rfl

end Grammar

namespace Parser

variable {σ : Type} [LawfulSource σ]

/-- Reading a list of parameters ends as the tokens ahead settle it. -/
theorem exists_parameters_ends (parser : Parser σ) :
    ∃ found last, parser.Settles [] found last ∧
      parser.Ends (LawfulSource.pending parser.source) .parameters (.nodes found) last := by
  obtain ⟨found, last, hsettles, hrun⟩ := Grammar.parameters_settles parser
  refine ⟨found, last, hsettles, fun limits _ hrounds => ?_⟩
  change (Grammar.parameters limits.rounds parser).reply .nodes = _
  rw [hrun _ hrounds, Outcome.reply_ofOption]

/-- A list of parameters is read exactly if the tokens ahead begin with it, and the parser is led to
the last token of it, which is the closing parenthesis, without a report. If the tokens ahead begin
with no list of parameters, nothing is read, and there is one report. The parser stops where a list
may have come so far and go on, but not with the next token. The report has what is expected there
and the kind of that token. -/
theorem parameters_ends_iff (parser : Parser σ) :
    (∀ parameters last,
      parser.Ends (LawfulSource.pending parser.source) .parameters
          (.nodes (some parameters)) last ↔
        ∃ count, Parameters (parser.upcoming count) [] parameters ∧
          last = parser.further count) ∧
    (∀ count parameters, Parameters (parser.upcoming count) [] parameters →
      (parser.further count).errors = parser.errors ∧
      (parser.further count).current.kind = .rparen ∧
      (parser.upcoming count).getLast? = some (parser.further count).current) ∧
    ((¬ ∃ count parameters, Parameters (parser.upcoming count) [] parameters) →
      ∃ count expected last,
        parser.Ends (LawfulSource.pending parser.source) .parameters (.nodes none) last ∧
        Misplaced (parser.upcoming count) last.peek ∧
        Expects (parser.upcoming count) expected ∧
        last = (parser.further count).reportPeek expected ∧
        last.errors = parser.errors.push (.unexpected expected last.peek.kind)) := by
  obtain ⟨found, last, hsettles, hends⟩ := parser.exists_parameters_ends
  refine ⟨fun parameters last' => ⟨fun hends' => ?_, ?_⟩, fun count parameters hlist => ?_,
    fun hnone => ?_⟩
  · obtain ⟨hreply, rfl⟩ := hends.unique hends'
    obtain rfl := Reply.nodes.inj hreply
    cases hsettles with
    | closed count hlist => exact ⟨count, hlist, rfl⟩
  · rintro ⟨count, hlist, rfl⟩
    obtain ⟨rfl, rfl⟩ := hsettles.eq_of_parameters hlist
    exact hends
  · obtain ⟨read, closing, hread, hclosing⟩ := hlist.exists_closing
    have hlast : (parser.upcoming count).getLast? = some closing := by
      rw [hread, List.getLast?_concat]
    cases count with
    | zero => exact nomatch hlast
    | succ count =>
      rw [getLast?_upcoming] at hlast ⊢
      exact ⟨errors_further _ parser, (Option.some.inj hlast) ▸ hclosing, rfl⟩
  · cases hsettles with
    | closed count hlist => exact absurd ⟨count, _, hlist⟩ hnone
    | @misplaced count expected hmisplaced hexpects =>
      refine ⟨count, expected, _, hends, hmisplaced, hexpects, rfl, ?_⟩
      exact congrArg (Array.push · _) (errors_further count parser)

end Parser

end ExprLang
