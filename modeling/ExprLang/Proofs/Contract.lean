import ExprLang.Proofs.Cursor

/-!
# Contracts of rules

What is known of how a rule ends. A contract names what holds where the construct was read and where
it was given up, and when the rule may be exhausted at all. Rules in sequence have the contract of
their last one if each keeps to what the next one needs.

A second, stronger statement is that a rule reads a given value up to a given rest and reports
nothing on the way.
-/

namespace ExprLang

variable {σ α β : Type}

/-- Where the construct was read `post` holds, where it was given up `fault` does, and the rule is
exhausted only if `cut` holds. -/
def Outcome.Meets (cut : Prop) (fault : Parser σ → Prop) (post : α → Parser σ → Prop) :
    Outcome σ α → Prop
  | .done value parser => post value parser
  | .abandoned parser => fault parser
  | .exhausted => cut

namespace Outcome

variable {cut cut' : Prop} {fault fault' : Parser σ → Prop} {post post' : α → Parser σ → Prop}
  {parser : Parser σ}

/-- A contract may promise less. -/
theorem Meets.mono {outcome : Outcome σ α} (h : outcome.Meets cut fault post) (hcut : cut → cut')
    (hfault : ∀ parser, fault parser → fault' parser)
    (hpost : ∀ value parser, post value parser → post' value parser) :
    outcome.Meets cut' fault' post' := by
  cases outcome with
  | done value parser => exact hpost value parser h
  | abandoned parser => exact hfault parser h
  | exhausted => exact hcut h

/-- The second rule in a sequence starts from what the first one promises. -/
theorem Meets.bind {rule : Rule σ α} {next : α → Rule σ β} {last : β → Parser σ → Prop}
    (h : (rule parser).Meets cut fault post)
    (hnext : ∀ value parser, post value parser → (next value parser).Meets cut fault last) :
    ((rule >>= next) parser).Meets cut fault last := by
  rw [Rule.bind_apply]
  cases houtcome : rule parser with
  | done value parser => exact hnext value parser (by rw [houtcome] at h; exact h)
  | abandoned parser => rw [houtcome] at h; exact h
  | exhausted => rw [houtcome] at h; exact h

/-- An attempt is never given up. -/
theorem Meets.attempt {rule : Rule σ α} (h : (rule parser).Meets cut fault post)
    {nowhere : Parser σ → Prop} :
    (Rule.attempt rule parser).Meets cut nowhere fun found parser =>
      match found with
      | some value => post value parser
      | none => fault parser := by
  unfold Rule.attempt
  cases houtcome : rule parser with
  | done value parser => rw [houtcome] at h; exact h
  | abandoned parser => rw [houtcome] at h; exact h
  | exhausted => rw [houtcome] at h; exact h

end Outcome

namespace Rule

/-- A rule that looks at the token under examination goes on with it. -/
theorem current_bind_apply (next : Token → Rule σ β) (parser : Parser σ) :
    (current >>= next) parser = next parser.current parser := rfl

/-- A rule that looks at the next token goes on with it. -/
theorem peek_bind_apply (next : Token → Rule σ β) (parser : Parser σ) :
    (peek >>= next) parser = next parser.peek parser := rfl

/-- A rule that moves on goes on from the next token. -/
theorem advance_bind_apply [TokenSource σ] (next : Unit → Rule σ β) (parser : Parser σ) :
    (advance >>= next) parser = next () parser.advance := rfl

/-- A rule that expects what comes next goes on from it. -/
theorem expect_bind_of_eq [TokenSource σ] {kind : Kind} {parser : Parser σ}
    (next : Unit → Rule σ β) (h : parser.peek.kind = kind) :
    (expect kind >>= next) parser = next () parser.advance := by
  rw [bind_apply, expect_of_eq h]

/-- A rule that expects something else than what comes next reports it and gives up. -/
theorem expect_bind_of_ne [TokenSource σ] {kind : Kind} {parser : Parser σ}
    (next : Unit → Rule σ β) (h : parser.peek.kind ≠ kind) :
    (expect kind >>= next) parser = .abandoned (parser.reportPeek kind) := by
  rw [bind_apply, expect_of_ne h]

end Rule

variable [LawfulSource σ] {parser : Parser σ} {rest ahead : List Token}

/-- The parser faces some end of `ahead`. -/
def Parser.Within (ahead : List Token) (parser : Parser σ) : Prop :=
  ∃ rest, parser.Faces rest ∧ rest <:+ ahead

/-- A parser within an end of `ahead` is within `ahead`. -/
theorem Parser.Within.mono {middle : List Token} (h : parser.Within middle)
    (hmiddle : middle <:+ ahead) : parser.Within ahead := by
  obtain ⟨rest, hfaces, hsuffix⟩ := h
  exact ⟨rest, hfaces, hsuffix.trans hmiddle⟩

namespace Outcome

/-- What was read is of the given form up to the tokens that the parser faces, and the parser is
within `ahead` where the construct was given up. -/
def Reads (cut : Prop) (ahead : List Token) (form : List Token → α → Prop) :
    Outcome σ α → Prop :=
  Meets cut (Parser.Within ahead) fun value parser => ∃ rest, parser.Faces rest ∧ form rest value

variable {cut : Prop}

/-- What was read is of every form that the promised form implies. -/
theorem Reads.imp {outcome : Outcome σ α} {form form' : List Token → α → Prop}
    (h : outcome.Reads cut ahead form) (hform : ∀ rest value, form rest value → form' rest value) :
    outcome.Reads cut ahead form' := by
  refine Meets.mono h id (fun _ hfault => hfault) fun value parser hpost => ?_
  obtain ⟨rest, hfaces, hread⟩ := hpost
  exact ⟨rest, hfaces, hform rest value hread⟩

/-- What is given up within fewer tokens is given up within more. -/
theorem Reads.within {outcome : Outcome σ α} {fewer : List Token} {form : List Token → α → Prop}
    (h : outcome.Reads cut fewer form) (hfewer : fewer <:+ ahead) : outcome.Reads cut ahead form :=
  Meets.mono h id (fun _ hfault => hfault.mono hfewer) fun _ _ hpost => hpost

/-- The second rule in a sequence starts at the tokens that the first one read up to. -/
theorem Reads.bind {rule : Rule σ α} {next : α → Rule σ β} {form : List Token → α → Prop}
    {last : β → Parser σ → Prop} (h : (rule parser).Reads cut ahead form)
    (hnext : ∀ value parser rest, parser.Faces rest → form rest value →
      (next value parser).Meets cut (Parser.Within ahead) last) :
    ((rule >>= next) parser).Meets cut (Parser.Within ahead) last := by
  refine Meets.bind h fun value parser hpost => ?_
  obtain ⟨rest, hfaces, hread⟩ := hpost
  exact hnext value parser rest hfaces hread

/-- The construct was read as `value`, the parser stands at its last token before `rest`, and the
errors are `errors`. -/
def Yields (outcome : Outcome σ α) (errors : Array Diagnostic) (value : α) (rest : List Token) :
    Prop :=
  ∃ token, ∃ parser : Parser σ, outcome = .done value parser ∧ parser.StandsAt (token :: rest) ∧
    parser.errors = errors

/-- The second rule in a sequence starts where the first one ends. -/
theorem Yields.bind {rule : Rule σ α} {next : α → Rule σ β} {errors : Array Diagnostic} {value : α}
    {last : β} {middle : List Token} (h : (rule parser).Yields errors value middle)
    (hnext : ∀ token, ∀ parser : Parser σ, parser.StandsAt (token :: middle) →
      parser.errors = errors → (next value parser).Yields errors last rest) :
    ((rule >>= next) parser).Yields errors last rest := by
  obtain ⟨token, parser', houtcome, hstand, herrors⟩ := h
  rw [Rule.bind_apply, houtcome]
  exact hnext token parser' hstand herrors

end Outcome

namespace Rule

/-- Moving on leads to the tokens that were faced. -/
theorem advance_meets {cut : Prop} {fault : Parser σ → Prop} (h : parser.Faces rest) :
    (advance parser).Meets cut fault fun _ parser => parser.StandsAt rest :=
  h.advance

/-- The next token is taken if it is of the kind that is expected. -/
theorem expect_meets {cut : Prop} {kind : Kind} (h : parser.Faces rest) (hrest : rest <:+ ahead)
    (hproper : kind ≠ .eof) :
    (expect kind parser).Meets cut (Parser.Within ahead) fun _ parser =>
      ∃ token tail, rest = token :: tail ∧ token.kind = kind ∧ parser.StandsAt (token :: tail) := by
  by_cases hkind : parser.peek.kind = kind
  · rw [expect_of_eq hkind]
    obtain ⟨token, tail, rfl, htoken⟩ := exists_cons_of_headKind (h.peek_kind ▸ hkind) hproper
    exact ⟨token, tail, rfl, htoken, h.advance⟩
  · rw [expect_of_ne hkind]
    exact ⟨rest, h.report _, hrest⟩

/-- A token that is accepted or not is passed or not. -/
theorem accept_faces (kind : Kind) (h : parser.Faces rest) :
    ∃ after, (if parser.peek.kind = kind then parser.advance else parser).Faces after ∧
      after <:+ rest := by
  by_cases hkind : parser.peek.kind = kind
  · rw [if_pos hkind]
    exact ⟨rest.tail, h.advance.faces, List.tail_suffix rest⟩
  · rw [if_neg hkind]
    exact ⟨rest, h, List.suffix_refl rest⟩

end Rule

end ExprLang
