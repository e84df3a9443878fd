import ExprLang.Json
import ExprLang.Proofs.Lexeme
import Mathlib.Algebra.Group.Nat.Defs
import Mathlib.Tactic.SplitIfs

/-!
# The layout of a JSON value tells the value

Two JSON values that are laid out alike are equal. The first character of a layout tells the form of
the value, and its parts are told one after the other, each wherever the text goes on from there. A
number alone needs that no digit comes next, which neither a comma nor the end of a line is. A
character is told by its escape, since the escape can be read back.
-/

namespace ExprLang

open Text

/-! ## Texts that tell what they stand for -/

/-- If what begins with `text` is what begins with `other`, each of them before the end or a
character in `stop`, then `same` holds and what comes after them is the same. -/
def Tells (stop : Char → Prop) (text other : String) (same : Prop) : Prop :=
  ∀ after after' : List Char, (∀ c ∈ after.head?, stop c) → (∀ c ∈ after'.head?, stop c) →
    text.toList ++ after = other.toList ++ after' → same ∧ after = after'

section Tells

variable {stop stop' : Char → Prop} {text other first first' second second' : String}
  {same same' : Prop}

/-- Fewer characters may come next, and less is told. -/
theorem Tells.mono (h : Tells stop text other same) (hstop : ∀ c, stop' c → stop c)
    (hsame : same → same') : Tells stop' text other same' := by
  intro after after' hafter hafter' heq
  obtain ⟨htold, hrest⟩ := h after after' (fun c hc => hstop c (hafter c hc))
    (fun c hc => hstop c (hafter' c hc)) heq
  exact ⟨hsame htold, hrest⟩

/-- One text before different ends. -/
theorem tells_same (text : String) : Tells Anything text text True :=
  fun _ _ _ _ heq => ⟨trivial, List.append_cancel_left heq⟩

/-- Two pieces in a row tell what each of them tells, if the first is told before whatever begins
with the second. -/
theorem Tells.append_of_head? (hfirst : Tells stop first first' same)
    (hsecond : Tells stop' second second' same')
    (hnext : ∀ after, ∀ c ∈ (second.toList ++ after).head?, stop c)
    (hnext' : ∀ after, ∀ c ∈ (second'.toList ++ after).head?, stop c) :
    Tells stop' (first ++ second) (first' ++ second') (same ∧ same') := by
  intro after after' hafter hafter' heq
  rw [String.toList_append, String.toList_append, List.append_assoc, List.append_assoc] at heq
  obtain ⟨htold, hrest⟩ := hfirst _ _ (hnext after) (hnext' after') heq
  obtain ⟨htold', hend⟩ := hsecond after after' hafter hafter' hrest
  exact ⟨⟨htold, htold'⟩, hend⟩

/-- Two pieces in a row, of which the second begins with a character before which the first is told.
-/
theorem Tells.append (hfirst : Tells stop first first' same)
    (hsecond : Tells stop' second second' same') (hstart : Starts stop second)
    (hstart' : Starts stop second') :
    Tells stop' (first ++ second) (first' ++ second') (same ∧ same') :=
  hfirst.append_of_head? hsecond hstart.head?_append hstart'.head?_append

/-- A piece that is told before anything, and another one after it. -/
theorem Tells.append_of_anything (hfirst : Tells Anything first first' same)
    (hsecond : Tells stop second second' same') :
    Tells stop (first ++ second) (first' ++ second') (same ∧ same') :=
  hfirst.append_of_head? hsecond (fun _ _ _ => trivial) fun _ _ _ => trivial

/-- Texts that begin with different characters are never mixed up. -/
theorem tells_of_starts {start start' : Char → Prop} (h : Starts start text)
    (h' : Starts start' other) (hdiffer : ∀ c, start c → ¬ start' c) :
    Tells stop text other same := by
  intro after after' _ _ heq
  obtain ⟨c, rest, hc, hstart⟩ := h
  have hhead := h'.head?_append after'
  rw [← heq, hc] at hhead
  exact absurd (hhead c rfl) (hdiffer c hstart)

end Tells

namespace Json

/-! ## Characters and texts -/

/-- The value of a hexadecimal digit in lower case. -/
def hexDigitValue (c : Char) : Nat :=
  if c.isDigit then c.toNat - 48 else c.toNat - 87

/-- The number that hexadecimal digits stand for. -/
def hexValue (digits : List Char) : Nat :=
  digits.foldl (fun value c => 16 * value + hexDigitValue c) 0

/-- Digits of a fixed width stand for the number modulo the power of that width. -/
theorem hexValue_hexDigits (width value : Nat) :
    hexValue (hexDigits width value) = value % 16 ^ width := by
  induction width generalizing value with
  | zero => rw [Nat.pow_zero, Nat.mod_one]; rfl
  | succ width ih =>
    have hdigit : ∀ n < 16, hexDigitValue n.digitChar = n := by decide
    have hlast : hexDigitValue (value % 16).digitChar = value % 16 :=
      hdigit _ (Nat.mod_lt value (by decide))
    have hfold := ih (value / 16)
    rw [hexValue] at hfold
    rw [hexValue, hexDigits, List.foldl_append, hfold, List.foldl_cons, List.foldl_nil, hlast,
      Nat.pow_succ', Nat.mod_mul, Nat.add_comm]

/-- The character that a letter after a backslash stands for. -/
def named : Char → Char
  | 'n' => '\n'
  | 'r' => '\r'
  | 't' => '\t'
  | 'b' => '\x08'
  | 'f' => '\x0c'
  | c => c

/-- Reads the first character of a quoted text, and gives what follows. -/
def readEscape : List Char → Option (Char × List Char)
  | '\x5c' :: 'u' :: rest =>
    let unit := hexValue (rest.take 4)
    if 0xd800 ≤ unit ∧ unit < 0xdc00 then
      let low := hexValue ((rest.drop 6).take 4)
      some (Char.ofNat (0x10000 + (unit - 0xd800) * 0x400 + (low - 0xdc00)), rest.drop 10)
    else some (Char.ofNat unit, rest.drop 4)
  | '\x5c' :: c :: rest => some (named c, rest)
  | c :: rest => some (c, rest)
  | [] => none

/-- The four digits of a sixteen-bit unit, and the unit that they stand for. -/
theorem exists_unitEscape {unit : Nat} (h : unit < 0x10000) :
    ∃ a b c d, unitEscape unit = ['\x5c', 'u', a, b, c, d] ∧ hexValue [a, b, c, d] = unit :=
  ⟨_, _, _, _, rfl, (hexValue_hexDigits 4 unit).trans (Nat.mod_eq_of_lt h)⟩

/-- A unit that is no high surrogate is read as the character of its number. -/
theorem readEscape_unit {unit : Nat} (hunit : unit < 0x10000)
    (hhigh : ¬ (0xd800 ≤ unit ∧ unit < 0xdc00)) (rest : List Char) :
    readEscape (unitEscape unit ++ rest) = some (Char.ofNat unit, rest) := by
  obtain ⟨a, b, c, d, hescape, hvalue⟩ := exists_unitEscape hunit
  rw [hescape]
  change (if 0xd800 ≤ hexValue [a, b, c, d] ∧ hexValue [a, b, c, d] < 0xdc00 then _ else
    some (Char.ofNat (hexValue [a, b, c, d]), rest)) = _
  rw [hvalue, if_neg hhigh]

/-- A pair of surrogates is read as one character. -/
theorem readEscape_pair {high low : Nat} (hhigh : high < 0x400) (hlow : low < 0x400)
    (rest : List Char) :
    readEscape (unitEscape (0xd800 + high) ++ unitEscape (0xdc00 + low) ++ rest) =
      some (Char.ofNat (0x10000 + high * 0x400 + low), rest) := by
  have hfirst : 0xd800 ≤ 0xd800 + high ∧ 0xd800 + high < 0xdc00 := by omega
  obtain ⟨a, b, c, d, hescape, hvalue⟩ :=
    exists_unitEscape (show 0xd800 + high < 0x10000 by omega)
  obtain ⟨a', b', c', d', hescape', hvalue'⟩ :=
    exists_unitEscape (show 0xdc00 + low < 0x10000 by omega)
  rw [hescape, hescape']
  change (if 0xd800 ≤ hexValue [a, b, c, d] ∧ hexValue [a, b, c, d] < 0xdc00 then
    some (Char.ofNat (0x10000 + (hexValue [a, b, c, d] - 0xd800) * 0x400 +
      (hexValue [a', b', c', d'] - 0xdc00)), rest) else _) = _
  rw [hvalue, hvalue', if_pos hfirst, Nat.add_sub_cancel_left, Nat.add_sub_cancel_left]

/-- A character that is no backslash is read as it is. -/
theorem readEscape_of_ne {c : Char} (h : c ≠ '\x5c') (rest : List Char) :
    readEscape (c :: rest) = some (c, rest) := by
  unfold readEscape
  split <;> simp_all

/-- A character is read back from its escape. -/
theorem readEscape_escape (c : Char) (rest : List Char) :
    readEscape (escape c ++ rest) = some (c, rest) := by
  have hvalid : c.toNat < 0xd800 ∨ 0xdfff < c.toNat ∧ c.toNat < 0x110000 := c.valid
  unfold escape
  split_ifs with hmark hfeed hreturn htab hback hform hplain hunit
  · rcases hmark with rfl | rfl <;> rfl
  · subst hfeed; rfl
  · subst hreturn; rfl
  · subst htab; rfl
  · subst hback; rfl
  · subst hform; rfl
  · exact readEscape_of_ne (fun h => hmark (.inr h)) rest
  · rw [readEscape_unit hunit (by omega), Char.ofNat_toNat]
  · have hsplit : 0x10000 + (c.toNat - 0x10000) / 0x400 * 0x400 + (c.toNat - 0x10000) % 0x400 =
        c.toNat := by omega
    rw [readEscape_pair (by omega) (by omega), hsplit, Char.ofNat_toNat]

/-- No escape begins with a quotation mark. -/
theorem exists_escape (c : Char) : ∃ first more, escape c = first :: more ∧ first ≠ '\x22' := by
  have hread := readEscape_escape c []
  cases hescape : escape c with
  | nil =>
    rw [hescape] at hread
    exact nomatch hread
  | cons first more =>
    refine ⟨first, more, rfl, ?_⟩
    rintro rfl
    rw [hescape, List.cons_append, readEscape_of_ne (by decide)] at hread
    obtain ⟨rfl, -⟩ := Prod.mk.inj (Option.some.inj hread)
    exact absurd (List.cons.inj hescape).1 (by decide)

/-- The text in quotation marks is told by its escapes. -/
theorem eq_of_escapes {text other after after' : List Char}
    (h : text.flatMap escape ++ '\x22' :: after = other.flatMap escape ++ '\x22' :: after') :
    text = other ∧ after = after' := by
  have hmark (c : Char) (more after after' : List Char) :
      '\x22' :: after ≠ escape c ++ more ++ '\x22' :: after' := by
    obtain ⟨first, more', hescape, hfirst⟩ := exists_escape c
    intro heq
    rw [hescape] at heq
    exact hfirst (List.cons.inj heq).1.symm
  induction text generalizing other with
  | nil =>
    cases other with
    | nil => exact ⟨rfl, (List.cons.inj h).2⟩
    | cons d other => exact absurd h (hmark d _ _ _)
  | cons c text ih =>
    cases other with
    | nil => exact absurd h.symm (hmark c _ _ _)
    | cons d other =>
      rw [List.flatMap_cons, List.flatMap_cons, List.append_assoc, List.append_assoc] at h
      have hread := congrArg readEscape h
      rw [readEscape_escape, readEscape_escape] at hread
      obtain ⟨rfl, hrest⟩ := Prod.mk.inj (Option.some.inj hread)
      obtain ⟨rfl, hafter⟩ := ih hrest
      exact ⟨rfl, hafter⟩

/-- A text is told by its quotation. -/
theorem tells_quoted (text other : String) :
    Tells Anything (quoted text) (quoted other) (text = other) := by
  intro after after' _ _ heq
  rw [quoted, quoted, String.toList_ofList, String.toList_ofList, List.append_assoc,
    List.append_assoc] at heq
  obtain ⟨htext, hafter⟩ := eq_of_escapes (List.cons.inj heq).2
  exact ⟨String.toList_inj.mp htext, hafter⟩

/-! ## Numbers -/

/-- A character that carries no number on. -/
def EndsNumber (c : Char) : Prop :=
  c.isDigit = false

/-- A number begins with a digit. -/
theorem starts_toString (n : Nat) : Starts (fun c => c.isDigit = true) (toString n) := by
  obtain ⟨c, rest, hdigits⟩ := List.exists_cons_of_ne_nil (@Nat.toDigits_ne_nil n 10)
  refine ⟨c, rest, (toList_toString n).trans hdigits, ?_⟩
  exact Nat.isDigit_of_mem_toDigits (by decide) (by decide) (hdigits ▸ List.mem_cons_self)

/-- A natural number is told by its digits. -/
theorem tells_natural (m n : Nat) : Tells EndsNumber (toString m) (toString n) (m = n) := by
  intro after after' hafter hafter' heq
  rw [toList_toString, toList_toString] at heq
  have hrun (n : Nat) : ∀ c ∈ Nat.toDigits 10 n, c.isDigit = true :=
    fun c hc => Nat.isDigit_of_mem_toDigits (by decide) (by decide) hc
  obtain ⟨htake, hdrop⟩ := takeWhile_append_of_head? (hrun m) hafter
  obtain ⟨htake', hdrop'⟩ := takeWhile_append_of_head? (hrun n) hafter'
  rw [heq] at htake hdrop
  have hdigits := htake.symm.trans htake'
  refine ⟨?_, hdrop.symm.trans hdrop'⟩
  rw [← @Nat.ofDigitChars_ten_toDigits m, hdigits, Nat.ofDigitChars_ten_toDigits]

/-- A whole number is told by its sign and its digits. -/
theorem tells_integer (a b : Int) : Tells EndsNumber (toString a) (toString b) (a = b) := by
  have hsign (n : Nat) : Starts (· = '-') (toString (Int.negSucc n)) :=
    ⟨'-', (toString (n + 1)).toList, String.toList_append, rfl⟩
  have hdiffer : ∀ c, c = '-' → ¬ c.isDigit = true := by rintro c rfl; decide
  cases a with
  | ofNat m =>
    cases b with
    | ofNat n => exact (tells_natural m n).mono (fun _ h => h) (congrArg Int.ofNat)
    | negSucc n => exact tells_of_starts (starts_toString m) (hsign n) fun c h h' => hdiffer c h' h
  | negSucc m =>
    cases b with
    | ofNat n => exact tells_of_starts (hsign m) (starts_toString n) hdiffer
    | negSucc n =>
      have hdigits := tells_natural (m + 1) (n + 1)
      exact ((tells_same "-").append_of_anything hdigits).mono (fun _ h => h) fun h =>
        congrArg Int.negSucc (Nat.succ.inj h.2)

/-! ## Lists and records -/

/-- What comes after an item or a field that stands on a line: the other lines and the end of what
holds them. -/
def closing (depth : Nat) (close : String) : (lines : List String) → String
  | [] => newLine depth ++ close
  | line :: lines => "," ++ (line ++ closing depth close lines)

/-- Lines between brackets. -/
def enclosed (depth : Nat) (opening close : String) : (lines : List String) → String
  | [] => opening ++ close
  | line :: lines => opening ++ (line ++ closing depth close lines)

/-- Lines parted by commas, and then the end of what holds them. -/
theorem intercalate_closing (depth : Nat) (close line : String) (lines : List String) :
    ",".intercalate (line :: lines) ++ (newLine depth ++ close) =
      line ++ closing depth close lines := by
  induction lines generalizing line with
  | nil => rw [String.intercalate_singleton]; rfl
  | cons next lines ih =>
    rw [String.intercalate_cons_cons, String.append_assoc, ih, String.append_assoc]
    rfl

/-- The line of an item. -/
def itemLine (depth : Nat) (item : Json) : String :=
  newLine (depth + 1) ++ layoutAt (depth + 1) item

/-- The line of a field. -/
def fieldLine (depth : Nat) (field : String × Json) : String :=
  newLine (depth + 1) ++ (quoted field.1 ++ (": " ++ layoutAt (depth + 1) field.2))

/-- A list is laid out with each item on a line. -/
theorem layoutAt_list (depth : Nat) (items : List Json) :
    layoutAt depth (.list items) = enclosed depth "[" "]" (items.map (itemLine depth)) := by
  have hlines : ∀ items, layoutItems (depth + 1) items = items.map (itemLine depth) := by
    intro items
    induction items with
    | nil => rw [layoutItems, List.map_nil]
    | cons item items ih => rw [layoutItems, ih, List.map_cons, itemLine]
  cases items with
  | nil => rw [layoutAt]; rfl
  | cons item items =>
    rw [layoutAt, hlines, List.map_cons, String.append_assoc, String.append_assoc,
      intercalate_closing]
    rfl

/-- A record is laid out with each field on a line. -/
theorem layoutAt_record (depth : Nat) (fields : List (String × Json)) :
    layoutAt depth (.record fields) =
      enclosed depth "\x7b" "\x7d" (fields.map (fieldLine depth)) := by
  have hlines : ∀ fields, layoutFields (depth + 1) fields = fields.map (fieldLine depth) := by
    intro fields
    induction fields with
    | nil => rw [layoutFields, List.map_nil]
    | cons field fields ih =>
      rw [layoutFields, ih, List.map_cons, fieldLine, String.append_assoc, String.append_assoc]
  cases fields with
  | nil => rw [layoutAt]; rfl
  | cons field fields =>
    rw [layoutAt, hlines, List.map_cons, String.append_assoc, String.append_assoc,
      intercalate_closing]
    rfl

/-- The start of a line is a line feed. -/
theorem starts_newLine (depth : Nat) (more : String) :
    Starts (· = '\n') (newLine depth ++ more) := by
  have hfeed : Starts (· = '\n') "\n" := ⟨'\n', [], rfl, rfl⟩
  rw [newLine, String.append_assoc]
  exact hfeed.append _

/-- What comes after an item or a field begins with no digit. -/
theorem starts_closing (depth : Nat) (close : String) (lines : List String) :
    Starts EndsNumber (closing depth close lines) := by
  cases lines with
  | nil =>
    obtain ⟨c, rest, htext, rfl⟩ := starts_newLine depth close
    exact ⟨_, rest, htext, rfl⟩
  | cons line lines => exact ⟨',', _, String.toList_append, rfl⟩

/-- What stands between brackets begins with the opening one. -/
theorem starts_enclosed {start : Char → Prop} {opening : String} (h : Starts start opening)
    (depth : Nat) (close : String) (lines : List String) :
    Starts start (enclosed depth opening close lines) := by
  cases lines with
  | nil => exact h.append _
  | cons line lines => exact h.append _

section Lines

variable {α : Type} {line : α → String} {items : List α}
  (hline : ∀ item ∈ items, ∀ other, Tells EndsNumber (line item) (line other) (item = other))

include hline

/-- The lines after the first are told if each line is. -/
theorem tells_closing (depth : Nat) (close : String) (others : List α) :
    Tells Anything (closing depth close (items.map line)) (closing depth close (others.map line))
      (items = others) := by
  have hdiffer : ∀ c, c = '\n' → ¬ c = ',' := by rintro c rfl; decide
  have hcomma (line : String) (lines : List String) :
      Starts (· = ',') (closing depth close (line :: lines)) :=
    ⟨',', _, String.toList_append, rfl⟩
  induction items generalizing others with
  | nil =>
    cases others with
    | nil => exact (tells_same _).mono (fun _ h => h) fun _ => rfl
    | cons other others => exact tells_of_starts (starts_newLine depth close) (hcomma _ _) hdiffer
  | cons item items ih =>
    obtain ⟨hitem, hitems⟩ := List.forall_mem_cons.mp hline
    cases others with
    | nil =>
      exact tells_of_starts (hcomma _ _) (starts_newLine depth close) fun c h h' => hdiffer c h' h
    | cons other others =>
      refine ((tells_same ",").append_of_anything ((hitem other).append (ih hitems others)
        (starts_closing _ _ _) (starts_closing _ _ _))).mono (fun _ h => h) ?_
      rintro ⟨-, rfl, rfl⟩
      rfl

/-- Lines between brackets are told if each line is. -/
theorem tells_enclosed (depth : Nat) (opening : String) {close : String}
    (hstart : ∀ item, Starts (· = '\n') (line item)) (hclose : Starts (· ≠ '\n') close)
    (others : List α) :
    Tells Anything (enclosed depth opening close (items.map line))
      (enclosed depth opening close (others.map line)) (items = others) := by
  have hends (item : α) (more : String) :
      Tells Anything close (line item ++ more) (items = others) :=
    tells_of_starts hclose ((hstart item).append more) fun _ h h' => h h'
  have hends' (item : α) (more : String) :
      Tells Anything (line item ++ more) close (items = others) :=
    tells_of_starts ((hstart item).append more) hclose fun _ h h' => h' h
  cases items with
  | nil =>
    cases others with
    | nil => exact (tells_same _).mono (fun _ h => h) fun _ => rfl
    | cons other others =>
      exact ((tells_same opening).append_of_anything (hends other _)).mono (fun _ h => h) And.right
  | cons item items =>
    obtain ⟨hitem, hitems⟩ := List.forall_mem_cons.mp hline
    cases others with
    | nil =>
      exact ((tells_same opening).append_of_anything (hends' item _)).mono (fun _ h => h) And.right
    | cons other others =>
      refine ((tells_same opening).append_of_anything ((hitem other).append
        (tells_closing hitems depth close others) (starts_closing _ _ _)
        (starts_closing _ _ _))).mono (fun _ h => h) ?_
      rintro ⟨-, rfl, rfl⟩
      rfl

end Lines

/-! ## Values -/

/-- The form of a value. -/
inductive Form where
  | null
  | boolean
  | integer
  | text
  | list
  | record
  deriving DecidableEq

/-- The form of a value. -/
def form : Json → Form
  | .null => .null
  | .boolean _ => .boolean
  | .integer _ => .integer
  | .text _ => .text
  | .list _ => .list
  | .record _ => .record

/-- The form of the values whose layout begins with a character. -/
def Form.ofFirst (c : Char) : Form :=
  if c = 'n' then .null
  else if c = 't' ∨ c = 'f' then .boolean
  else if c = '\x22' then .text
  else if c = '[' then .list
  else if c = '\x7b' then .record
  else .integer

/-- A digit begins a number. -/
theorem Form.ofFirst_of_isDigit {c : Char} (h : c.isDigit = true) : ofFirst c = .integer := by
  have hne (d : Char) (hd : d.isDigit = false) : c ≠ d := by
    rintro rfl
    exact absurd h (Bool.eq_false_iff.mp hd)
  have hword : ¬ (c = 't' ∨ c = 'f') := not_or.mpr ⟨hne 't' rfl, hne 'f' rfl⟩
  rw [ofFirst, if_neg (hne 'n' rfl), if_neg hword, if_neg (hne '\x22' rfl), if_neg (hne '[' rfl),
    if_neg (hne '\x7b' rfl)]

/-- A truth value is told by its word. -/
theorem tells_boolean (value other : Bool) :
    Tells Anything (if value then "true" else "false") (if other then "true" else "false")
      (value = other) := by
  have hword (value : Bool) :
      Starts (fun c => (c == 't') = value) (if value then "true" else "false") := by
    cases value with
    | false => exact ⟨'f', ['a', 'l', 's', 'e'], rfl, rfl⟩
    | true => exact ⟨'t', ['r', 'u', 'e'], rfl, rfl⟩
  by_cases h : value = other
  · subst h
    exact (tells_same _).mono (fun _ h => h) fun _ => rfl
  · refine tells_of_starts (hword value) (hword other) ?_
    exact fun c hvalue hother => h (hvalue.symm.trans hother)

/-- A value begins with a character of its form. -/
theorem starts_layoutAt (depth : Nat) (value : Json) :
    Starts (fun c => Form.ofFirst c = value.form) (layoutAt depth value) := by
  cases value with
  | null =>
    rw [layoutAt]
    exact ⟨'n', ['u', 'l', 'l'], rfl, rfl⟩
  | boolean value =>
    rw [layoutAt]
    cases value with
    | false => exact ⟨'f', ['a', 'l', 's', 'e'], rfl, rfl⟩
    | true => exact ⟨'t', ['r', 'u', 'e'], rfl, rfl⟩
  | integer value =>
    rw [layoutAt]
    cases value with
    | ofNat n =>
      obtain ⟨c, rest, hdigits, hdigit⟩ := starts_toString n
      exact ⟨c, rest, hdigits, Form.ofFirst_of_isDigit hdigit⟩
    | negSucc n => exact ⟨'-', _, String.toList_append, rfl⟩
  | text value =>
    rw [layoutAt, quoted]
    exact ⟨'\x22', _, String.toList_ofList, rfl⟩
  | list items =>
    have hopen : Starts (fun c => Form.ofFirst c = .list) "[" := ⟨'[', [], rfl, rfl⟩
    rw [layoutAt_list]
    exact starts_enclosed hopen _ _ _
  | record fields =>
    have hopen : Starts (fun c => Form.ofFirst c = .record) "\x7b" := ⟨'\x7b', [], rfl, rfl⟩
    rw [layoutAt_record]
    exact starts_enclosed hopen _ _ _

/-- Values of different forms are told by the first characters of their layouts. -/
theorem tells_of_form {value other : Json} (depth : Nat)
    (h : value.form = other.form →
      Tells EndsNumber (layoutAt depth value) (layoutAt depth other) (value = other)) :
    Tells EndsNumber (layoutAt depth value) (layoutAt depth other) (value = other) := by
  by_cases hform : value.form = other.form
  · exact h hform
  · refine tells_of_starts (starts_layoutAt depth value) (starts_layoutAt depth other) ?_
    exact fun c hvalue hother => hform (hvalue.symm.trans hother)

/-- The line of an item tells it if its layout does. -/
theorem tells_itemLine {depth : Nat} {item other : Json}
    (h : Tells EndsNumber (layoutAt (depth + 1) item) (layoutAt (depth + 1) other) (item = other)) :
    Tells EndsNumber (itemLine depth item) (itemLine depth other) (item = other) :=
  ((tells_same _).append_of_anything h).mono (fun _ h => h) And.right

/-- The line of a field tells it if the layout of its value tells that. -/
theorem tells_fieldLine {depth : Nat} {field other : String × Json}
    (h : Tells EndsNumber (layoutAt (depth + 1) field.2) (layoutAt (depth + 1) other.2)
      (field.2 = other.2)) :
    Tells EndsNumber (fieldLine depth field) (fieldLine depth other) (field = other) :=
  ((tells_same _).append_of_anything ((tells_quoted field.1 other.1).append_of_anything
    ((tells_same ": ").append_of_anything h))).mono (fun _ h => h) fun h => Prod.ext h.2.1 h.2.2.2

mutual

/-- A value is told by its layout wherever no digit comes next. -/
theorem tells_layoutAt : ∀ (value other : Json) (depth : Nat),
    Tells EndsNumber (layoutAt depth value) (layoutAt depth other) (value = other)
  | .null, other, depth => tells_of_form depth fun hform => by
    cases other with
    | null => exact (tells_same _).mono (fun _ _ => trivial) fun _ => rfl
    | _ => exact nomatch hform
  | .boolean value, other, depth => tells_of_form depth fun hform => by
    cases other with
    | boolean other =>
      rw [layoutAt, layoutAt]
      exact (tells_boolean value other).mono (fun _ _ => trivial) (congrArg boolean)
    | _ => exact nomatch hform
  | .integer value, other, depth => tells_of_form depth fun hform => by
    cases other with
    | integer other =>
      rw [layoutAt, layoutAt]
      exact (tells_integer value other).mono (fun _ h => h) (congrArg integer)
    | _ => exact nomatch hform
  | .text value, other, depth => tells_of_form depth fun hform => by
    cases other with
    | text other =>
      rw [layoutAt, layoutAt]
      exact (tells_quoted value other).mono (fun _ _ => trivial) (congrArg text)
    | _ => exact nomatch hform
  | .list items, other, depth => tells_of_form depth fun hform => by
    cases other with
    | list others =>
      have hclose : Starts (· ≠ '\n') "]" := ⟨']', [], rfl, by decide⟩
      rw [layoutAt_list, layoutAt_list]
      exact (tells_enclosed (fun item hmem other =>
        tells_itemLine (tells_items items (depth + 1) item hmem other)) depth "["
        (fun _ => starts_newLine _ _) hclose others).mono (fun _ _ => trivial) (congrArg list)
    | _ => exact nomatch hform
  | .record fields, other, depth => tells_of_form depth fun hform => by
    cases other with
    | record others =>
      have hclose : Starts (· ≠ '\n') "\x7d" := ⟨'\x7d', [], rfl, by decide⟩
      rw [layoutAt_record, layoutAt_record]
      exact (tells_enclosed (fun field hmem other =>
        tells_fieldLine (tells_fields fields (depth + 1) field hmem other.2)) depth "\x7b"
        (fun _ => starts_newLine _ _) hclose others).mono (fun _ _ => trivial) (congrArg record)
    | _ => exact nomatch hform

/-- Each item of a list is told by its layout. -/
theorem tells_items : ∀ (items : List Json) (depth : Nat), ∀ item ∈ items, ∀ other,
    Tells EndsNumber (layoutAt depth item) (layoutAt depth other) (item = other)
  | [], _ => List.forall_mem_nil _
  | item :: items, depth =>
    List.forall_mem_cons.mpr ⟨fun other => tells_layoutAt item other depth, tells_items items depth⟩

/-- The value of each field of a record is told by its layout. -/
theorem tells_fields : ∀ (fields : List (String × Json)) (depth : Nat), ∀ field ∈ fields, ∀ other,
    Tells EndsNumber (layoutAt depth field.2) (layoutAt depth other) (field.2 = other)
  | [], _ => List.forall_mem_nil _
  | (_, value) :: fields, depth =>
    List.forall_mem_cons.mpr
      ⟨fun other => tells_layoutAt value other depth, tells_fields fields depth⟩

end

/-- Values that are laid out alike are equal. -/
theorem eq_of_layout_eq {value other : Json} (h : value.layout = other.layout) : value = other := by
  have htext : (layoutAt 0 value).toList ++ [] = (layoutAt 0 other).toList ++ [] :=
    congrArg (fun text => text.toList ++ []) h
  exact (tells_layoutAt value other 0 [] [] (fun _ hmem => nomatch hmem)
    (fun _ hmem => nomatch hmem) htext).1

end Json

end ExprLang
