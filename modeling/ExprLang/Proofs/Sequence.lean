import ExprLang.Proofs.Lockstep

/-!
# Sequences of statements without a limit

What the loop over statements does, said without rounds and without the statements read before: it
keeps a statement that is read, drops one that is given up, goes on after the token at which that
left the parser, and ends at a token that closes the sequence. The loop ends so unless it is
exhausted. Two such loops are followed side by side from one statement to the next, and two tests for
its end give one loop if they agree on the way.
-/

namespace ExprLang

namespace Grammar

open Rule

variable {σ : Type} [TokenSource σ]

/-- From `parser` up to a token that closes the sequence, where `last` is, the statements that are
kept are `nodes`. -/
inductive Collects (nested : Int → Rule σ Node) (closes : Kind → Bool) :
    Parser σ → List Node → Parser σ → Prop where
  | close {parser} : closes parser.current.kind = true → Collects nested closes parser [] parser
  | keep {parser after last node nodes} : closes parser.current.kind = false →
      statement nested parser = .done node after →
      Collects nested closes after.advance nodes last →
      Collects nested closes parser (node :: nodes) last
  | drop {parser after last nodes} : closes parser.current.kind = false →
      statement nested parser = .abandoned after →
      Collects nested closes after.advance nodes last → Collects nested closes parser nodes last

variable {nested : Int → Rule σ Node} {closes : Kind → Bool} {parser last : Parser σ}

/-- A round of the loop at a token that closes nothing. -/
theorem statementsUntil_of_open {rounds : Nat} (read : Array Node)
    (hopen : closes parser.current.kind = false) :
    statementsUntil nested closes (rounds + 1) read parser =
      match statement nested parser with
      | .done node after => statementsUntil nested closes rounds (read.push node) after.advance
      | .abandoned after => statementsUntil nested closes rounds read after.advance
      | .exhausted => .exhausted := by
  rw [statementsUntil, current_bind_apply, if_neg (by rw [hopen]; decide), bind_apply, attempt]
  cases statement nested parser <;> rfl

/-- A round of the loop at a token that closes the sequence. -/
theorem statementsUntil_of_closes {rounds : Nat} (read : Array Node)
    (hclose : closes parser.current.kind = true) :
    statementsUntil nested closes (rounds + 1) read parser = .done read.toList parser := by
  rw [statementsUntil, current_bind_apply, if_pos hclose]
  rfl

/-- What the loop reads it collects, after what was read before. -/
theorem collects_of_statementsUntil {rounds : Nat} {read : Array Node} {value : List Node}
    (h : statementsUntil nested closes rounds read parser = .done value last) :
    ∃ nodes, Collects nested closes parser nodes last ∧ value = read.toList ++ nodes := by
  induction rounds generalizing read parser with
  | zero => exact nomatch h
  | succ rounds ih =>
    cases hclose : closes parser.current.kind with
    | true =>
      rw [statementsUntil_of_closes read hclose] at h
      obtain ⟨rfl, rfl⟩ := Outcome.done.inj h
      exact ⟨[], .close hclose, (List.append_nil _).symm⟩
    | false =>
      rw [statementsUntil_of_open read hclose] at h
      cases hstatement : statement nested parser with
      | done node after =>
        rw [hstatement] at h
        obtain ⟨nodes, hcollects, rfl⟩ := ih h
        exact ⟨node :: nodes, .keep hclose hstatement hcollects, by simp⟩
      | abandoned after =>
        rw [hstatement] at h
        obtain ⟨nodes, hcollects, rfl⟩ := ih h
        exact ⟨nodes, .drop hclose hstatement hcollects, rfl⟩
      | exhausted =>
        rw [hstatement] at h
        exact nomatch h

/-- The loop reads what it collects unless it is exhausted. -/
theorem Collects.statementsUntil_eq {nodes : List Node}
    (h : Collects nested closes parser nodes last) {rounds : Nat} (read : Array Node)
    (hrounds : statementsUntil nested closes rounds read parser ≠ .exhausted) :
    statementsUntil nested closes rounds read parser = .done (read.toList ++ nodes) last := by
  induction h generalizing rounds read with
  | close hclose =>
    cases rounds with
    | zero => exact absurd rfl hrounds
    | succ rounds => rw [statementsUntil_of_closes read hclose, List.append_nil]
  | @keep _ _ _ node _ hopen hstatement _ ih =>
    cases rounds with
    | zero => exact absurd rfl hrounds
    | succ rounds =>
      rw [statementsUntil_of_open read hopen, hstatement] at hrounds ⊢
      refine (ih (read.push node) hrounds).trans ?_
      rw [Array.toList_push, List.append_assoc]
      rfl
  | drop hopen hstatement _ ih =>
    cases rounds with
    | zero => exact absurd rfl hrounds
    | succ rounds =>
      rw [statementsUntil_of_open read hopen, hstatement] at hrounds ⊢
      exact ih read hrounds

/-- A sequence is followed by another one, over other tokens, that keeps and drops the statements
alike; where the first one closes, the other one may go on. -/
theorem Collects.followed {τ : Type} [TokenSource τ] (nested' : Int → Rule τ Node)
    (closes' : Kind → Bool) {along : Parser σ → Parser τ → Prop}
    (hstep : ∀ {p q}, along p q → closes p.current.kind = false →
      closes' q.current.kind = false ∧ (statement nested p).Agrees
        (fun p q => along p.advance q.advance) (fun p q => along p.advance q.advance)
        (statement nested' q))
    {nodes : List Node} (h : Collects nested closes parser nodes last) {q : Parser τ}
    (hstart : along parser q) :
    ∃ q', along last q' ∧ closes last.current.kind = true ∧ ∀ more last',
      Collects nested' closes' q' more last' → Collects nested' closes' q (nodes ++ more) last' := by
  induction h generalizing q with
  | close hclose => exact ⟨q, hstart, hclose, fun _ _ hmore => hmore⟩
  | keep hopen hstatement _ ih =>
    obtain ⟨hopen', hagrees⟩ := hstep hstart hopen
    rw [hstatement] at hagrees
    generalize hstatement' : statement nested' q = outcome at hagrees
    cases hagrees with
    | done _ hafter =>
      obtain ⟨q', hend, hclose, hmore⟩ := ih hafter
      exact ⟨q', hend, hclose, fun more last' h =>
        .keep hopen' hstatement' (hmore more last' h)⟩
  | drop hopen hstatement _ ih =>
    obtain ⟨hopen', hagrees⟩ := hstep hstart hopen
    rw [hstatement] at hagrees
    generalize hstatement' : statement nested' q = outcome at hagrees
    cases hagrees with
    | abandoned hafter =>
      obtain ⟨q', hend, hclose, hmore⟩ := ih hafter
      exact ⟨q', hend, hclose, fun more last' h =>
        .drop hopen' hstatement' (hmore more last' h)⟩

/-- A sequence is the same up to where another test closes it, if both tests agree wherever the loop
comes. -/
theorem Collects.closes_congr {closes' : Kind → Bool} (visits : Parser σ → Prop)
    (hcloses : ∀ {p}, visits p → closes' p.current.kind = closes p.current.kind)
    (hnext : ∀ {p}, visits p → (statement nested p).Meets True (fun after => visits after.advance)
      fun _ after => visits after.advance)
    {nodes : List Node} (h : Collects nested closes parser nodes last) (hstart : visits parser) :
    Collects nested closes' parser nodes last := by
  induction h with
  | close hclose => exact .close ((hcloses hstart).trans hclose)
  | keep hopen hstatement _ ih =>
    have hafter := hnext hstart
    rw [hstatement] at hafter
    exact .keep ((hcloses hstart).trans hopen) hstatement (ih hafter)
  | drop hopen hstatement _ ih =>
    have hafter := hnext hstart
    rw [hstatement] at hafter
    exact .drop ((hcloses hstart).trans hopen) hstatement (ih hafter)

/-- The statements of a program are those collected up to the end. -/
theorem collects_of_program {steps : Nat} {statements : List Node}
    (h : program steps nested parser = .done (.program statements) last) :
    Collects nested (· == .eof) parser statements last := by
  rw [program, bind_apply] at h
  cases houtcome : statementsUntil nested (· == .eof) steps #[] parser with
  | done value after =>
    rw [houtcome] at h
    obtain ⟨hnode, rfl⟩ := Outcome.done.inj h
    obtain ⟨nodes, hcollects, rfl⟩ := collects_of_statementsUntil houtcome
    obtain rfl := Node.program.inj hnode
    exact hcollects
  | abandoned after =>
    rw [houtcome] at h
    cases h
  | exhausted =>
    rw [houtcome] at h
    cases h

/-- A program that is read has the statements that are collected up to the end. -/
theorem Collects.program_eq {steps : Nat} {nodes : List Node}
    (h : Collects nested (· == .eof) parser nodes last)
    (hsteps : program steps nested parser ≠ .exhausted) :
    program steps nested parser = .done (.program nodes) last := by
  have hrounds : statementsUntil nested (· == .eof) steps #[] parser ≠ .exhausted := by
    intro hexhausted
    rw [program, bind_apply, hexhausted] at hsteps
    exact hsteps rfl
  rw [program, bind_apply, h.statementsUntil_eq #[] hrounds]
  rfl

/-- A block that is read has the statements that are collected after its opening brace. -/
theorem Collects.block_eq {steps : Nat} {nodes : List Node}
    (h : Collects nested closesBlock parser.advance nodes last)
    (hsteps : block steps nested parser ≠ .exhausted) :
    block steps nested parser = .done (.block nodes) last := by
  have hrounds : statementsUntil nested closesBlock steps #[] parser.advance ≠ .exhausted := by
    intro hexhausted
    rw [block, advance_bind_apply, bind_apply, hexhausted] at hsteps
    exact hsteps rfl
  rw [block, advance_bind_apply, bind_apply, h.statementsUntil_eq #[] hrounds]
  rfl

end Grammar

end ExprLang
