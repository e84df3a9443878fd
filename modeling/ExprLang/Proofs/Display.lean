import ExprLang.Proofs.Layout
import ExprLang.Proofs.Records
import ExprLang.Proofs.Result
import ExprLang.Proofs.RoundTrip
import ExprLang.Run
import Mathlib.Order.MinMax

/-!
# Both displays of a tree tell the tree

A run shows a tree as its canonical text or as JSON. The trees of two texts without faults are shown
alike in the one display exactly if they are in the other, and in both exactly if they are equal:
the canonical text of a program can be read back, and a record holds the form and all parts of its
node. Every tree is shown once the limit on its height suffices.
-/

namespace ExprLang

namespace Node

/-! ## Canonical texts -/

/-- Two programs have the same canonical text only if they are equal. -/
theorem eq_of_render_eq {a b : Node} (ha : a.isProgram = true) (hb : b.isProgram = true)
    (h : a.render = b.render) : a = b := by
  have hread {node : Node} (hnode : node.isProgram = true) :
      parse node.render = ⟨node, []⟩ := by
    cases node with
    | program statements =>
      exact (eq_parse (parseWithin_of_body (body_render hnode) (Nat.lt_succ_self _))).symm
    | _ => exact nomatch hnode
  have hparse := hread ha
  rw [h, hread hb] at hparse
  exact (congrArg Parsed.program hparse).symm

/-! ## Heights -/

mutual

/-- How many levels high a tree is. -/
def height : Node → Nat
  | .bare | .identifier _ | .integer _ | .boolean _ => 1
  | .unary _ right => height right + 1
  | .binary left _ right => max (height left) (height right) + 1
  | .conditional condition consequence alternative =>
    max (max (height condition) (height consequence)) (heightOption alternative) + 1
  | .function parameters body => max (heightEach parameters) (height body) + 1
  | .call callee arguments => max (height callee) (heightEach arguments) + 1
  | .letStatement name value => max (height name) (height value) + 1
  | .returnStatement value | .expressionStatement value => height value + 1
  | .block statements | .program statements => heightEach statements + 1

/-- How many levels high an optional tree is. -/
def heightOption : Option Node → Nat
  | none => 0
  | some node => height node

/-- How many levels high the highest tree of a list is. -/
def heightEach : List Node → Nat
  | [] => 0
  | node :: nodes => max (height node) (heightEach nodes)

end

mutual

/-- A tree is at most as high as its height. -/
theorem fits_iff : ∀ (limit : Nat) (node : Node), node.fits limit = true ↔ node.height ≤ limit
  | 0, node => by cases node <;> simp [fits, height]
  | _ + 1, .bare | _ + 1, .identifier _ | _ + 1, .integer _ | _ + 1, .boolean _ => by
    simp [fits, height]
  | limit + 1, .unary _ right => by simp [fits, height, fits_iff limit right]
  | limit + 1, .binary left _ right => by
    simp [fits, height, fits_iff limit left, fits_iff limit right]
  | limit + 1, .conditional condition consequence alternative => by
    simp [fits, height, and_assoc, fits_iff limit condition, fits_iff limit consequence,
      fitsOption_iff limit alternative]
  | limit + 1, .function parameters body => by
    simp [fits, height, fitsEach_iff limit parameters, fits_iff limit body]
  | limit + 1, .call callee arguments => by
    simp [fits, height, fits_iff limit callee, fitsEach_iff limit arguments]
  | limit + 1, .letStatement name value => by
    simp [fits, height, fits_iff limit name, fits_iff limit value]
  | limit + 1, .returnStatement value => by simp [fits, height, fits_iff limit value]
  | limit + 1, .expressionStatement value => by simp [fits, height, fits_iff limit value]
  | limit + 1, .block statements => by simp [fits, height, fitsEach_iff limit statements]
  | limit + 1, .program statements => by simp [fits, height, fitsEach_iff limit statements]

/-- An optional tree is at most as high as its height. -/
theorem fitsOption_iff : ∀ (limit : Nat) (node : Option Node),
    fitsOption limit node = true ↔ heightOption node ≤ limit
  | limit, none => by simp [fitsOption, heightOption]
  | limit, some node => by simp [fitsOption, heightOption, fits_iff limit node]

/-- The trees of a list are at most as high as the highest of them. -/
theorem fitsEach_iff : ∀ (limit : Nat) (nodes : List Node),
    fitsEach limit nodes = true ↔ heightEach nodes ≤ limit
  | limit, [] => by simp [fitsEach, heightEach]
  | limit, node :: nodes => by
    simp [fitsEach, heightEach, fits_iff limit node, fitsEach_iff limit nodes]

end

end Node

/-- What is read of a text is the tree of a program. -/
theorem isProgram_parse (text : String) : (parse text).program.isProgram = true := by
  obtain ⟨statements, hprogram, hbody⟩ :=
    body_of_parseWithin (parseWithin_eq_parse (Nat.lt_succ_self text.length))
  rw [hprogram]
  exact hbody.areStatements fun _ hmem => isSpelled_of_mem_tokenize hmem

/-! ## Runs -/

namespace Run

/-- What a tree is shown as. -/
def shown (tree : Bool) (program : Node) : String :=
  if tree then program.toJson.layout else program.render

/-- A tree is shown if it is at most as high as the limit. -/
theorem display_eq (nesting : Nat) (tree : Bool) (program : Node) :
    display nesting tree program =
      if program.fits nesting then some (shown tree program) else none := by
  cases tree with
  | false => rfl
  | true => rfl

/-- Programs are shown alike, in either display, exactly if they are equal. -/
theorem shown_eq_iff {a b : Node} (ha : a.isProgram = true) (hb : b.isProgram = true)
    (tree : Bool) : shown tree a = shown tree b ↔ a = b := by
  refine ⟨fun h => ?_, congrArg (shown tree)⟩
  cases tree with
  | false => exact Node.eq_of_render_eq ha hb h
  | true => exact (Node.toJson_inj a b).mp (Json.eq_of_layout_eq h)

variable {nesting : Nat} {files : Files} {tree : Bool} {text : String}

/-- A run over a text that is read to its end shows its faults, or else its tree if that is not too
high. -/
theorem run_of_parseWithin {parsed : Parsed} (h : parseWithin nesting text = some parsed) :
    run nesting files ⟨true, false, tree⟩ text =
      if !parsed.errors.isEmpty then ⟨.status 1, "", Report.faults parsed.errors⟩
      else if parsed.program.fits nesting then ⟨.status 0, shown tree parsed.program ++ "\n", ""⟩
      else ⟨.overflow, "", ""⟩ := by
  change process nesting ⟨true, false, tree⟩ text = _
  unfold process
  rw [h]
  simp only [Bool.false_eq_true, if_false, String.empty_append, display_eq]
  congr 1
  by_cases hfits : parsed.program.fits nesting = true
  · rw [if_pos hfits, if_pos hfits]
  · rw [if_neg hfits, if_neg hfits]

/-- A run over a text that ends well has shown the tree of the text. -/
theorem run_of_status (h : (run nesting files ⟨true, false, tree⟩ text).ending = .status 0) :
    run nesting files ⟨true, false, tree⟩ text =
      ⟨.status 0, shown tree (parse text).program ++ "\n", ""⟩ := by
  cases hparsed : parseWithin nesting text with
  | none =>
    change (process nesting ⟨true, false, tree⟩ text).ending = _ at h
    unfold process at h
    rw [hparsed] at h
    exact nomatch h
  | some parsed =>
    obtain rfl := eq_parse hparsed
    rw [run_of_parseWithin hparsed] at h ⊢
    split at h
    · exact nomatch h
    · rename_i hfaultless
      rw [if_neg hfaultless]
      split at h
      · rename_i hfits
        rw [if_pos hfits]
      · exact nomatch h

/-- Runs over a text without faults end well once the limit exceeds the length of the text and is
not exceeded by the height of its tree. -/
theorem exists_ending (herrors : (parse text).errors = []) (files : Files) :
    ∃ enough, ∀ nesting, enough ≤ nesting → ∀ tree,
      (run nesting files ⟨true, false, tree⟩ text).ending = .status 0 := by
  refine ⟨max (text.length + 1) (parse text).program.height, fun nesting hle tree => ?_⟩
  have hlength : text.length < nesting := Nat.lt_of_succ_le (Nat.le_trans (Nat.le_max_left _ _) hle)
  have hheight : (parse text).program.height ≤ nesting := Nat.le_trans (Nat.le_max_right _ _) hle
  have hfaultless : ¬ (!(parse text).errors.isEmpty) = true := by rw [herrors]; decide
  rw [run_of_parseWithin (parseWithin_eq_parse hlength), if_neg hfaultless,
    if_pos ((Node.fits_iff _ _).mpr hheight)]

/-- Runs over two texts without faults end well in either display once the limit suffices. Wherever
they do, they show the same as JSON exactly if they show the same canonical text, and exactly if the
trees of the texts are the same. -/
theorem run_outputs_eq_iff {text other : String} (herrors : (parse text).errors = [])
    (herrors' : (parse other).errors = []) (files : Files) :
    (∃ enough, ∀ nesting, enough ≤ nesting → ∀ tree, ∀ source ∈ [text, other],
        (run nesting files ⟨true, false, tree⟩ source).ending = .status 0) ∧
      ∀ nesting, (∀ tree, ∀ source ∈ [text, other],
          (run nesting files ⟨true, false, tree⟩ source).ending = .status 0) →
        ((run nesting files ⟨true, false, true⟩ text).output =
            (run nesting files ⟨true, false, true⟩ other).output ↔
          (run nesting files ⟨true, false, false⟩ text).output =
            (run nesting files ⟨true, false, false⟩ other).output) ∧
        ((run nesting files ⟨true, false, true⟩ text).output =
            (run nesting files ⟨true, false, true⟩ other).output ↔
          ((parse text).program == (parse other).program) = true) := by
  constructor
  · obtain ⟨enough, htext⟩ := exists_ending herrors files
    obtain ⟨enough', hother⟩ := exists_ending herrors' files
    exact ⟨max enough enough', fun nesting hle tree => List.forall_mem_cons.mpr
      ⟨htext nesting (Nat.le_trans (Nat.le_max_left _ _) hle) tree, List.forall_mem_singleton.mpr
        (hother nesting (Nat.le_trans (Nat.le_max_right _ _) hle) tree)⟩⟩
  · intro nesting hends
    have houtput (tree : Bool) :
        (run nesting files ⟨true, false, tree⟩ text).output =
            (run nesting files ⟨true, false, tree⟩ other).output ↔
          (parse text).program = (parse other).program := by
      rw [run_of_status (hends tree text (by simp)), run_of_status (hends tree other (by simp)),
        String.append_left_inj]
      exact shown_eq_iff (isProgram_parse text) (isProgram_parse other) tree
    exact ⟨(houtput true).trans (houtput false).symm, (houtput true).trans beq_iff_eq.symm⟩

/-- Two texts with one tree in different letters are shown alike as JSON since their canonical texts
are alike. -/
theorem run_outputs_eq_iff_grouped :
    (parse "1 + 2 * x").errors = [] ∧ (parse "(1 + (2*x));").errors = [] ∧
      (∀ tree, ∀ source ∈ ["1 + 2 * x", "(1 + (2*x));"],
        (run 13 (fun _ => .error .notFound) ⟨true, false, tree⟩ source).ending = .status 0) ∧
      (run 13 (fun _ => .error .notFound) ⟨true, false, true⟩ "1 + 2 * x").output =
        (run 13 (fun _ => .error .notFound) ⟨true, false, true⟩ "(1 + (2*x));").output := by
  have herrors : (parse "1 + 2 * x").errors = [] := by decide +kernel
  have herrors' : (parse "(1 + (2*x));").errors = [] := by decide +kernel
  have hends : ∀ tree, ∀ source ∈ ["1 + 2 * x", "(1 + (2*x));"],
      (run 13 (fun _ => .error .notFound) ⟨true, false, tree⟩ source).ending = .status 0 := by
    decide +kernel
  have hiff := ((run_outputs_eq_iff herrors herrors' fun _ => .error .notFound).2 13 hends).1
  exact ⟨herrors, herrors', hends, hiff.mpr (by decide +kernel)⟩

end Run

end ExprLang
