import ExprLang.Node.Record
import Mathlib.Data.List.Forall2

/-!
# Records tell nodes apart

JSON values are compared as what they stand for: the fields of a record have no order, and nothing
else is forgiven. Two nodes are the same exactly if their records are the same value, so a record
keeps all that the comparison of nodes looks at. The form of a node is a field of its record, and
the fields beside it are those of that form.
-/

namespace ExprLang

namespace Json

/-- Two values are the same: equal scalars of one sort, lists of the same items in the same order,
or records that have the same value, or none, under every name. -/
inductive Same : Json → Json → Prop where
  | null : Same .null .null
  | boolean (value : Bool) : Same (.boolean value) (.boolean value)
  | integer (value : Int) : Same (.integer value) (.integer value)
  | text (value : String) : Same (.text value) (.text value)
  | list {items items' : List Json} : List.Forall₂ Same items items' →
      Same (.list items) (.list items')
  | record {fields fields' : List (String × Json)} :
      (∀ name, Option.Rel Same (fields.lookup name) (fields'.lookup name)) →
      Same (.record fields) (.record fields')

namespace Same

/-- A value under a name is smaller than the fields in which it is found. -/
theorem sizeOf_lt_of_lookup {fields : List (String × Json)} {name : String} {value : Json}
    (h : fields.lookup name = some value) : sizeOf value < sizeOf fields := by
  obtain ⟨before, after, hfields, -⟩ := List.lookup_eq_some_iff.mp h
  have hmem : (name, value) ∈ fields := by simp [hfields]
  have hpair : sizeOf value < sizeOf (name, value) := by
    rw [Prod.mk.sizeOf_spec]
    omega
  exact Nat.lt_trans hpair (List.sizeOf_lt_of_mem hmem)

/-- Every value is the same as itself. -/
theorem refl : ∀ value : Json, Same value value
  | .null => .null
  | .boolean value => .boolean value
  | .integer value => .integer value
  | .text value => .text value
  | .list items => .list (List.forall₂_same.mpr fun item _ => refl item)
  | .record fields => .record fun name => by
    cases hvalue : fields.lookup name with
    | none => exact .none
    | some value =>
      have := sizeOf_lt_of_lookup hvalue
      exact .some (refl value)

variable {fields fields' : List (String × Json)} {value value' : Json}

/-- Records that are the same have the same value under a name that both have. -/
theorem field (h : Same (.record fields) (.record fields')) (name : String)
    (hvalue : fields.lookup name = some value) (hvalue' : fields'.lookup name = some value') :
    Same value value' := by
  cases h with
  | record hfields =>
    have hname := hfields name
    rw [hvalue, hvalue'] at hname
    cases hname with
    | some hsame => exact hsame

/-- Texts that are the same are equal. -/
theorem text_inj {value value' : String} (h : Same (.text value) (.text value')) :
    value = value' := by
  cases h with
  | text => rfl

/-- Integers that are the same are equal. -/
theorem integer_inj {value value' : Int} (h : Same (.integer value) (.integer value')) :
    value = value' := by
  cases h with
  | integer => rfl

/-- Truth values that are the same are equal. -/
theorem boolean_inj {value value' : Bool} (h : Same (.boolean value) (.boolean value')) :
    value = value' := by
  cases h with
  | boolean => rfl

/-- Lists that are the same have the same items. -/
theorem items {items items' : List Json} (h : Same (.list items) (.list items')) :
    List.Forall₂ Same items items' := by
  cases h with
  | list hitems => exact hitems

end Same

end Json

namespace Node

/-- Nodes with the same record have the same form. -/
theorem tag_eq_of_same {a b : Node} (h : Json.Same a.toJson b.toJson) : a.tag = b.tag := by
  obtain ⟨parts, hrecord⟩ := exists_toJson_eq_record a
  obtain ⟨parts', hrecord'⟩ := exists_toJson_eq_record b
  rw [hrecord, hrecord'] at h
  exact (h.field "kind" rfl rfl).text_inj

mutual

/-- Nodes with the same record are equal. -/
theorem eq_of_same : ∀ {a b : Node}, Json.Same a.toJson b.toJson → a = b
  | .bare, b, h => by
    have htag := tag_eq_of_same h
    cases b with
    | bare => rfl
    | _ => simp [tag] at htag
  | .identifier _, b, h => by
    have htag := tag_eq_of_same h
    cases b with
    | identifier => rw [(h.field "name" rfl rfl).text_inj]
    | _ => simp [tag] at htag
  | .integer _, b, h => by
    have htag := tag_eq_of_same h
    cases b with
    | integer => rw [(h.field "value" rfl rfl).integer_inj]
    | _ => simp [tag] at htag
  | .boolean _, b, h => by
    have htag := tag_eq_of_same h
    cases b with
    | boolean => rw [(h.field "value" rfl rfl).boolean_inj]
    | _ => simp [tag] at htag
  | .unary _ _, b, h => by
    have htag := tag_eq_of_same h
    cases b with
    | unary =>
      rw [(h.field "operator" rfl rfl).text_inj, eq_of_same (h.field "right" rfl rfl)]
    | _ => simp [tag] at htag
  | .binary _ _ _, b, h => by
    have htag := tag_eq_of_same h
    cases b with
    | binary =>
      rw [eq_of_same (h.field "left" rfl rfl), (h.field "operator" rfl rfl).text_inj,
        eq_of_same (h.field "right" rfl rfl)]
    | _ => simp [tag] at htag
  | .conditional _ _ _, b, h => by
    have htag := tag_eq_of_same h
    cases b with
    | conditional =>
      rw [eq_of_same (h.field "condition" rfl rfl), eq_of_same (h.field "consequence" rfl rfl),
        eq_of_sameOption (h.field "alternative" rfl rfl)]
    | _ => simp [tag] at htag
  | .function _ _, b, h => by
    have htag := tag_eq_of_same h
    cases b with
    | function =>
      rw [eq_of_sameEach (h.field "parameters" rfl rfl).items, eq_of_same (h.field "body" rfl rfl)]
    | _ => simp [tag] at htag
  | .call _ _, b, h => by
    have htag := tag_eq_of_same h
    cases b with
    | call =>
      rw [eq_of_same (h.field "function" rfl rfl),
        eq_of_sameEach (h.field "arguments" rfl rfl).items]
    | _ => simp [tag] at htag
  | .letStatement _ _, b, h => by
    have htag := tag_eq_of_same h
    cases b with
    | letStatement =>
      rw [eq_of_same (h.field "name" rfl rfl), eq_of_same (h.field "value" rfl rfl)]
    | _ => simp [tag] at htag
  | .returnStatement _, b, h => by
    have htag := tag_eq_of_same h
    cases b with
    | returnStatement => rw [eq_of_same (h.field "value" rfl rfl)]
    | _ => simp [tag] at htag
  | .expressionStatement _, b, h => by
    have htag := tag_eq_of_same h
    cases b with
    | expressionStatement => rw [eq_of_same (h.field "value" rfl rfl)]
    | _ => simp [tag] at htag
  | .block _, b, h => by
    have htag := tag_eq_of_same h
    cases b with
    | block => rw [eq_of_sameEach (h.field "statements" rfl rfl).items]
    | _ => simp [tag] at htag
  | .program _, b, h => by
    have htag := tag_eq_of_same h
    cases b with
    | program => rw [eq_of_sameEach (h.field "statements" rfl rfl).items]
    | _ => simp [tag] at htag

/-- Optional nodes with the same record, or null, are equal. -/
theorem eq_of_sameOption : ∀ {a b : Option Node},
    Json.Same (toJsonOption a) (toJsonOption b) → a = b
  | none, none, _ => rfl
  | none, some b, h => by
    obtain ⟨parts, hrecord⟩ := exists_toJson_eq_record b
    rw [toJsonOption, toJsonOption, hrecord] at h
    nomatch h
  | some a, none, h => by
    obtain ⟨parts, hrecord⟩ := exists_toJson_eq_record a
    rw [toJsonOption, toJsonOption, hrecord] at h
    nomatch h
  | some _, some _, h => congrArg some (eq_of_same h)

/-- Lists of nodes with the same records are equal. -/
theorem eq_of_sameEach : ∀ {a b : List Node},
    List.Forall₂ Json.Same (toJsonEach a) (toJsonEach b) → a = b
  | [], [], _ => rfl
  | [], _ :: _, h => nomatch h
  | _ :: _, [], h => nomatch h
  | _ :: _, _ :: _, .cons h hrest => by rw [eq_of_same h, eq_of_sameEach hrest]

end

/-- Two nodes have the same record exactly if they are equal. -/
theorem toJson_inj (a b : Node) : a.toJson = b.toJson ↔ a = b :=
  ⟨fun h => eq_of_same (h ▸ Json.Same.refl a.toJson), congrArg toJson⟩

/-- The comparison of nodes is an equivalence, and two nodes are the same by it exactly if their
records are the same value. -/
theorem beq_iff_same_toJson :
    (∀ a b : Node, (a == b) = true ↔ Json.Same a.toJson b.toJson) ∧
      Equivalence fun a b : Node => (a == b) = true := by
  constructor
  · intro a b
    rw [beq_iff_eq]
    exact ⟨fun h => h ▸ Json.Same.refl a.toJson, eq_of_same⟩
  · exact ⟨beq_self_eq_true, fun h => BEq.symm h, fun h h' => BEq.trans h h'⟩

end Node

end ExprLang
