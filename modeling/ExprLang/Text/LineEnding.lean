/-!
# Line endings

A line ends with a line feed. A carriage return, alone or with the line feed after it, is read as
one line feed.
-/

namespace ExprLang.Text

/-- `done` in reverse, and then `text` with its line endings unified. -/
def unifyLineEndingsOnto (done : List Char) : (text : List Char) → List Char
  | [] => done.reverse
  | '\r' :: '\n' :: rest => unifyLineEndingsOnto ('\n' :: done) rest
  | '\r' :: rest => unifyLineEndingsOnto ('\n' :: done) rest
  | c :: rest => unifyLineEndingsOnto (c :: done) rest

/-- `text` with every line ending written as one line feed. -/
def unifyLineEndings (text : List Char) : List Char :=
  unifyLineEndingsOnto [] text

/-- What is already done stays in front. -/
theorem unifyLineEndingsOnto_append (done extra text : List Char) :
    unifyLineEndingsOnto (done ++ extra) text =
      extra.reverse ++ unifyLineEndingsOnto done text := by
  fun_induction unifyLineEndingsOnto done text with
  | case1 done => simp [unifyLineEndingsOnto]
  | case2 done rest ih => simpa [unifyLineEndingsOnto] using ih
  | case3 done rest h ih => simpa [unifyLineEndingsOnto, h] using ih
  | case4 done c rest h h' ih => simpa [unifyLineEndingsOnto, h, h'] using ih

/-- A character that is no carriage return stays as it is. -/
theorem unifyLineEndings_cons_of_ne {c : Char} (h : c ≠ '\r') (text : List Char) :
    unifyLineEndings (c :: text) = c :: unifyLineEndings text := by
  have := unifyLineEndingsOnto_append [] [c] text
  simpa [unifyLineEndings, unifyLineEndingsOnto, h] using this

/-- A carriage return with the line feed after it is read as one line feed. -/
theorem unifyLineEndings_return_feed (text : List Char) :
    unifyLineEndings ('\r' :: '\n' :: text) = '\n' :: unifyLineEndings text :=
  unifyLineEndingsOnto_append [] ['\n'] text

/-- A carriage return with no line feed after it is read as one line feed. -/
theorem unifyLineEndings_return {text : List Char} (h : text.head? ≠ some '\n') :
    unifyLineEndings ('\r' :: text) = '\n' :: unifyLineEndings text := by
  have hrest : ∀ rest, text = '\n' :: rest → False := by
    rintro rest rfl
    exact h rfl
  rw [unifyLineEndings, unifyLineEndingsOnto.eq_3 _ _ hrest]
  exact unifyLineEndingsOnto_append [] ['\n'] text

/-- The first character stays as it is, unless it is a carriage return. -/
theorem head?_unifyLineEndings (text : List Char) :
    (unifyLineEndings text).head? = text.head?.map fun c => if c = '\r' then '\n' else c := by
  cases text with
  | nil => rfl
  | cons c text =>
    by_cases hreturn : c = '\r'
    · subst hreturn
      by_cases hfeed : text.head? = some '\n'
      · obtain ⟨rest, rfl⟩ := List.head?_eq_some_iff.mp hfeed
        rw [unifyLineEndings_return_feed]
        rfl
      · rw [unifyLineEndings_return hfeed]
        rfl
    · rw [unifyLineEndings_cons_of_ne hreturn, List.head?_cons, List.head?_cons, Option.map_some,
        if_neg hreturn]

/-- Texts in a row are unified one by one, if no line feed begins the second. -/
theorem unifyLineEndings_append {after : List Char} (h : after.head? ≠ some '\n') :
    ∀ before, unifyLineEndings (before ++ after) = unifyLineEndings before ++ unifyLineEndings after
  | [] => rfl
  | c :: before => by
    by_cases hreturn : c = '\r'
    · subst hreturn
      by_cases hfeed : before.head? = some '\n'
      · obtain ⟨rest, rfl⟩ := List.head?_eq_some_iff.mp hfeed
        rw [List.cons_append, List.cons_append, unifyLineEndings_return_feed,
          unifyLineEndings_return_feed, unifyLineEndings_append h rest, List.cons_append]
      · have hnext : (before ++ after).head? ≠ some '\n' := by
          cases before with
          | nil => exact h
          | cons _ _ => exact hfeed
        rw [List.cons_append, unifyLineEndings_return hnext, unifyLineEndings_return hfeed,
          unifyLineEndings_append h before, List.cons_append]
    · rw [List.cons_append, unifyLineEndings_cons_of_ne hreturn,
        unifyLineEndings_cons_of_ne hreturn, unifyLineEndings_append h before, List.cons_append]
  termination_by before => before.length

/-- A text without carriage returns stays as it is, whatever comes after it. -/
theorem unifyLineEndings_append_of_not_mem {before : List Char} (h : '\r' ∉ before)
    (after : List Char) :
    unifyLineEndings (before ++ after) = before ++ unifyLineEndings after := by
  induction before with
  | nil => rfl
  | cons c before ih =>
    rw [List.mem_cons, not_or] at h
    obtain ⟨hc, hbefore⟩ := h
    rw [List.cons_append, unifyLineEndings_cons_of_ne (Ne.symm hc), ih hbefore, List.cons_append]

/-- No character comes up but the line feed. -/
theorem mem_of_mem_unifyLineEndings {c : Char} {text : List Char} (h : c ∈ unifyLineEndings text) :
    c ∈ text ∨ c = '\n' := by
  have honto : ∀ done, c ∈ unifyLineEndingsOnto done text → c ∈ done ∨ c ∈ text ∨ c = '\n' := by
    clear h
    intro done h
    fun_induction unifyLineEndingsOnto done text with grind
  exact (honto [] h).resolve_left List.not_mem_nil

end ExprLang.Text
