/-
**The texts under the keys of a JSON value.**

A walk that rewrites some of them: it goes through all fields of an object, and through the items of an array only as far
as the first one in which it rewrites something, as `Iterator::any` does.

* `Value.texts` — the texts under a key, anywhere in a value, each with its key.
* `Value.arrays` — the arrays anywhere in a value.
* `rewriteTexts` — the walk, with whether it has rewritten something.
* `rewriteTexts_settled` — no text is left to rewrite where no array has two items with one.
-/

import Byok.Model.Value

namespace Byok

open List

/-! ### What a value has in it -/

namespace Value

mutual

/-- The texts under a key, anywhere in a value, each with its key. -/
def texts : Value → List (String × String)
  | .array items => textsOfItems items
  | .object fields => textsOfFields fields
  | _ => []

/-- The texts in the items of an array. -/
def textsOfItems : List Value → List (String × String)
  | [] => []
  | item :: rest => texts item ++ textsOfItems rest

/-- The texts in the fields of an object. -/
def textsOfFields : List (String × Value) → List (String × String)
  | [] => []
  | field :: rest => textsOfField field ++ textsOfFields rest

/-- The texts in a field. -/
def textsOfField : String × Value → List (String × String)
  | (key, .string text) => [(key, text)]
  | (_, child) => texts child

end

mutual

/-- The arrays anywhere in a value. -/
def arrays : Value → List (List Value)
  | .array items => items :: arraysOfItems items
  | .object fields => arraysOfFields fields
  | _ => []

/-- The arrays in the items of an array. -/
def arraysOfItems : List Value → List (List Value)
  | [] => []
  | item :: rest => arrays item ++ arraysOfItems rest

/-- The arrays in the fields of an object. -/
def arraysOfFields : List (String × Value) → List (List Value)
  | [] => []
  | field :: rest => arraysOfField field ++ arraysOfFields rest

/-- The arrays in a field. -/
def arraysOfField : String × Value → List (List Value)
  | (_, child) => arrays child

end

end Value

namespace Value

theorem textsOfFields_mem {fields : List (String × Value)} {named : String × Value} (listed : named ∈ fields) :
    ∀ field ∈ textsOfField named, field ∈ textsOfFields fields := by
  induction fields with
  | nil => cases listed
  | cons first rest ih =>
    intro field found
    rcases mem_cons.mp listed with rfl | later
    · exact mem_append_left _ found
    · exact mem_append_right _ (ih later field found)

theorem texts_of_get {value child : Value} {key : String} (found : value.get key = some child) :
    ∀ field ∈ textsOfField (key, child), field ∈ value.texts := by
  cases value with
  | object fields =>
    obtain ⟨named, first, rfl⟩ := Option.map_eq_some_iff.mp found
    obtain rfl : named.1 = key := by simpa using find?_some first
    exact textsOfFields_mem (mem_of_find?_eq_some first)
  | null | bool | number | string | array => cases found

end Value

/-! ### The walk -/

section Walk

-- what a text under a key is rewritten to
variable (next : String → String → Option String)

mutual

/-- The walk through a value, with whether it has rewritten something. -/
def rewriteTexts : Value → Value × Bool
  | .object fields =>
    let (fields, changed) := rewriteFields fields
    (.object fields, changed)
  | .array items =>
    let (items, changed) := rewriteItems items
    (.array items, changed)
  | value => (value, false)

/-- The items of an array, as far as the first one in which something is rewritten. -/
def rewriteItems : List Value → List Value × Bool
  | [] => ([], false)
  | item :: rest =>
    let (item, changed) := rewriteTexts item
    if changed then (item :: rest, true)
    else
      let (rest, changed) := rewriteItems rest
      (item :: rest, changed)

/-- All fields of an object. -/
def rewriteFields : List (String × Value) → List (String × Value) × Bool
  | [] => ([], false)
  | field :: rest =>
    let (field, changed) := rewriteField field
    let (rest, changedRest) := rewriteFields rest
    (field :: rest, changed || changedRest)

/-- A field: a text under its key, or what is nested in it. -/
def rewriteField : String × Value → (String × Value) × Bool
  | (key, .string text) =>
    match next key text with
    | some rewritten => ((key, .string rewritten), true)
    | none => ((key, .string text), false)
  | (key, child) =>
    let (child, changed) := rewriteTexts child
    ((key, child), changed)

end

end Walk

/-! ### What it does -/

section Laws

variable {next : String → String → Option String}

/-- A text under its key that is to be rewritten. -/
def due (next : String → String → Option String) (field : String × String) : Bool := (next field.1 field.2).isSome

/-- A value with a text of a kind. -/
def pending (kind : String × String → Bool) (value : Value) : Bool := value.texts.any kind

mutual

/-- A value with some of its texts rewritten and nothing else changed. -/
inductive Rewritten (next : String → String → Option String) : Value → Value → Prop
  | same (value : Value) : Rewritten next value value
  | array {items items' : List Value} (each : RewrittenItems next items items') :
      Rewritten next (.array items) (.array items')
  | object {fields fields' : List (String × Value)} (each : RewrittenFields next fields fields') :
      Rewritten next (.object fields) (.object fields')

/-- Items with some of their texts rewritten. -/
inductive RewrittenItems (next : String → String → Option String) : List Value → List Value → Prop
  | nil : RewrittenItems next [] []
  | cons {item item' : Value} {rest rest' : List Value} (first : Rewritten next item item')
      (others : RewrittenItems next rest rest') : RewrittenItems next (item :: rest) (item' :: rest')

/-- Fields with some of their texts rewritten. -/
inductive RewrittenFields (next : String → String → Option String) :
    List (String × Value) → List (String × Value) → Prop
  | nil : RewrittenFields next [] []
  | text {key text rewritten : String} {rest rest' : List (String × Value)} (becomes : next key text = some rewritten)
      (others : RewrittenFields next rest rest') :
      RewrittenFields next ((key, .string text) :: rest) ((key, .string rewritten) :: rest')
  | field {key : String} {child child' : Value} {rest rest' : List (String × Value)}
      (nested : Rewritten next child child') (others : RewrittenFields next rest rest') :
      RewrittenFields next ((key, child) :: rest) ((key, child') :: rest')

end

theorem RewrittenItems.same (items : List Value) : RewrittenItems next items items := by
  induction items with
  | nil => exact .nil
  | cons item rest ih => exact .cons (.same item) ih

mutual

theorem rewriteTexts_changed : ∀ value : Value, (rewriteTexts next value).2 = value.texts.any (due next)
  | .object fields => rewriteFields_changed fields
  | .array items => rewriteItems_changed items
  | .null | .bool _ | .number _ | .string _ => rfl

theorem rewriteItems_changed : ∀ items : List Value,
    (rewriteItems next items).2 = (Value.textsOfItems items).any (due next)
  | [] => rfl
  | item :: rest => by
    have first := rewriteTexts_changed item
    have others := rewriteItems_changed rest
    simp only [rewriteItems, Value.textsOfItems, any_append, ← first, ← others]
    split <;> simp_all

theorem rewriteFields_changed : ∀ fields : List (String × Value),
    (rewriteFields next fields).2 = (Value.textsOfFields fields).any (due next)
  | [] => rfl
  | field :: rest => by
    simp only [rewriteFields, Value.textsOfFields, any_append, ← rewriteField_changed field,
      ← rewriteFields_changed rest]

theorem rewriteField_changed : ∀ field : String × Value,
    (rewriteField next field).2 = (Value.textsOfField field).any (due next)
  | (key, .string text) => by
    simp only [rewriteField, Value.textsOfField, any_cons, any_nil, Bool.or_false, due]
    cases next key text <;> rfl
  | (_, .object fields) => rewriteFields_changed fields
  | (_, .array items) => rewriteItems_changed items
  | (_, .null) | (_, .bool _) | (_, .number _) => rfl

end

mutual

theorem rewriteTexts_same : ∀ {value : Value}, value.texts.any (due next) = false → rewriteTexts next value = (value, false)
  | .object fields, settled => by rw [rewriteTexts, rewriteFields_same settled]
  | .array items, settled => by rw [rewriteTexts, rewriteItems_same settled]
  | .null, _ | .bool _, _ | .number _, _ | .string _, _ => rfl

theorem rewriteItems_same : ∀ {items : List Value},
    (Value.textsOfItems items).any (due next) = false → rewriteItems next items = (items, false)
  | [], _ => rfl
  | item :: rest, settled => by
    rw [Value.textsOfItems, any_append, Bool.or_eq_false_iff] at settled
    simp only [rewriteItems, rewriteTexts_same settled.1, rewriteItems_same settled.2, Bool.false_eq_true, if_false]

theorem rewriteFields_same : ∀ {fields : List (String × Value)},
    (Value.textsOfFields fields).any (due next) = false → rewriteFields next fields = (fields, false)
  | [], _ => rfl
  | field :: rest, settled => by
    rw [Value.textsOfFields, any_append, Bool.or_eq_false_iff] at settled
    simp only [rewriteFields, rewriteField_same settled.1, rewriteFields_same settled.2, Bool.or_false]

theorem rewriteField_same : ∀ {field : String × Value},
    (Value.textsOfField field).any (due next) = false → rewriteField next field = (field, false)
  | (key, .string text), settled => by
    have kept : next key text = none := by
      simpa only [Value.textsOfField, any_cons, any_nil, Bool.or_false, due, Option.isSome_eq_false_iff,
        Option.isNone_iff_eq_none] using settled
    rw [rewriteField, kept]
  | (_, .object fields), settled => by simp only [rewriteField, rewriteTexts, rewriteFields_same settled]
  | (_, .array items), settled => by simp only [rewriteField, rewriteTexts, rewriteItems_same settled]
  | (_, .null), _ | (_, .bool _), _ | (_, .number _), _ => rfl

end

mutual

theorem rewriteTexts_rewritten : ∀ value : Value, Rewritten next value (rewriteTexts next value).1
  | .object fields => .object (rewriteFields_rewritten fields)
  | .array items => .array (rewriteItems_rewritten items)
  | .null | .bool _ | .number _ | .string _ => .same _

theorem rewriteItems_rewritten : ∀ items : List Value, RewrittenItems next items (rewriteItems next items).1
  | [] => .nil
  | item :: rest => by
    have first := rewriteTexts_rewritten item
    simp only [rewriteItems]
    split
    · exact .cons first (.same rest)
    · exact .cons first (rewriteItems_rewritten rest)

theorem rewriteFields_rewritten : ∀ fields : List (String × Value), RewrittenFields next fields (rewriteFields next fields).1
  | [] => .nil
  | (key, .string text) :: rest => by
    have others := rewriteFields_rewritten rest
    rw [rewriteFields, rewriteField]
    cases becomes : next key text with
    | none => exact .field (.same _) others
    | some rewritten => exact .text becomes others
  | (_, .object fields) :: rest => .field (.object (rewriteFields_rewritten fields)) (rewriteFields_rewritten rest)
  | (_, .array items) :: rest => .field (.array (rewriteItems_rewritten items)) (rewriteFields_rewritten rest)
  | (_, .null) :: rest | (_, .bool _) :: rest | (_, .number _) :: rest =>
    .field (.same _) (rewriteFields_rewritten rest)

end

/-- At most one of some items has a text of a kind. -/
def AtMostOne (kind : String × String → Bool) (items : List Value) : Prop := (items.filter (pending kind)).length ≤ 1

theorem textsOfItems_any (items : List Value) : (Value.textsOfItems items).any (due next) = items.any (pending (due next)) := by
  induction items with
  | nil => rfl
  | cons item rest ih => rw [Value.textsOfItems, any_append, ih, any_cons, pending]

theorem atMostOne_pending {item : Value} {rest : List Value} (waits : pending (due next) item = true) :
    AtMostOne (due next) (item :: rest) ↔ (Value.textsOfItems rest).any (due next) = false := by
  rw [AtMostOne, filter_cons_of_pos waits, length_cons, Nat.succ_le_iff, Nat.lt_one_iff, length_eq_zero_iff,
    filter_eq_nil_iff, textsOfItems_any, any_eq_false]

theorem atMostOne_not_pending {item : Value} {rest : List Value} (settled : pending (due next) item = false) :
    AtMostOne (due next) (item :: rest) ↔ AtMostOne (due next) rest := by
  rw [AtMostOne, filter_cons_of_neg (by simp [settled]), AtMostOne]

/-- What some texts are rewritten to is not rewritten again. -/
def Stable (next : String → String → Option String) (fields : List (String × String)) : Prop :=
  ∀ field ∈ fields, ∀ rewritten, next field.1 field.2 = some rewritten → next field.1 rewritten = none

theorem Stable.of_append {first second : List (String × String)} (stable : Stable next (first ++ second)) :
    Stable next first ∧ Stable next second :=
  ⟨fun field listed => stable field (mem_append_left _ listed),
    fun field listed => stable field (mem_append_right _ listed)⟩

mutual

/-- **No text is left to rewrite where no array has two items with one.** -/
theorem rewriteTexts_settled : ∀ {value : Value}, Stable next value.texts →
    ((rewriteTexts next value).1.texts.any (due next) = false ↔ ∀ items ∈ value.arrays, AtMostOne (due next) items)
  | .object _, stable => rewriteFields_settled stable
  | .array items, stable => by
    rw [Value.arrays, forall_mem_cons]
    exact @rewriteItems_settled items stable
  | .null, _ | .bool _, _ | .number _, _ | .string _, _ => by simp [rewriteTexts, Value.texts, Value.arrays]

theorem rewriteItems_settled : ∀ {items : List Value}, Stable next (Value.textsOfItems items) →
    ((Value.textsOfItems (rewriteItems next items).1).any (due next) = false ↔
      AtMostOne (due next) items ∧ ∀ inner ∈ Value.arraysOfItems items, AtMostOne (due next) inner)
  | [], _ => by simp [rewriteItems, Value.textsOfItems, Value.arraysOfItems, AtMostOne]
  | item :: rest, stable => by
    have first := @rewriteTexts_settled item stable.of_append.1
    have others := @rewriteItems_settled rest stable.of_append.2
    rw [Value.arraysOfItems, forall_mem_append, ← first]
    cases waits : pending (due next) item with
    | true =>
      -- the walk ends here, and what comes after is as it was
      have changed : (rewriteTexts next item).2 = true := by rw [rewriteTexts_changed, ← pending, waits]
      rw [atMostOne_pending waits, rewriteItems]
      simp only [changed, if_true, Value.textsOfItems, any_append, Bool.or_eq_false_iff]
      constructor
      · rintro ⟨settled, untouched⟩
        rw [rewriteItems_same untouched] at others
        exact ⟨untouched, settled, (others.mp untouched).2⟩
      · rintro ⟨untouched, settled, -⟩
        exact ⟨settled, untouched⟩
    | false =>
      have same : rewriteTexts next item = (item, false) := rewriteTexts_same waits
      rw [atMostOne_not_pending waits]
      simp only [rewriteItems, same, Bool.false_eq_true, if_false, Value.textsOfItems, any_append,
        Bool.or_eq_false_iff, others]
      rw [← pending, waits]
      tauto

theorem rewriteFields_settled : ∀ {fields : List (String × Value)}, Stable next (Value.textsOfFields fields) →
    ((Value.textsOfFields (rewriteFields next fields).1).any (due next) = false ↔
      ∀ inner ∈ Value.arraysOfFields fields, AtMostOne (due next) inner)
  | [], _ => by simp [rewriteFields, Value.textsOfFields, Value.arraysOfFields]
  | field :: rest, stable => by
    rw [Value.arraysOfFields, forall_mem_append, ← rewriteField_settled stable.of_append.1,
      ← rewriteFields_settled stable.of_append.2, rewriteFields]
    simp only [Value.textsOfFields, any_append, Bool.or_eq_false_iff]

theorem rewriteField_settled : ∀ {field : String × Value}, Stable next (Value.textsOfField field) →
    ((Value.textsOfField (rewriteField next field).1).any (due next) = false ↔
      ∀ inner ∈ Value.arraysOfField field, AtMostOne (due next) inner)
  | (key, .string text), stable => by
    have none : (Value.textsOfField (rewriteField next (key, .string text)).1).any (due next) = false := by
      rw [rewriteField]
      cases becomes : next key text with
      | none => simp [Value.textsOfField, due, becomes]
      | some rewritten => simp [Value.textsOfField, due, stable (key, text) (mem_singleton_self _) _ becomes]
    simp [none, Value.arraysOfField, Value.arrays]
  | (_, .object _), stable => rewriteFields_settled stable
  | (_, .array items), stable => by
    rw [Value.arraysOfField, Value.arrays, forall_mem_cons]
    exact @rewriteItems_settled items stable
  | (_, .null), _ | (_, .bool _), _ | (_, .number _), _ => by
    simp [rewriteField, rewriteTexts, Value.textsOfField, Value.texts, Value.arraysOfField, Value.arrays]

end

mutual

theorem rewriteTexts_differs : ∀ {value : Value}, Stable next value.texts → (rewriteTexts next value).2 = true →
    (rewriteTexts next value).1 ≠ value
  | .object fields, stable, changed, same =>
    @rewriteFields_differs fields stable changed (Value.object.inj same)
  | .array items, stable, changed, same => @rewriteItems_differs items stable changed (Value.array.inj same)

theorem rewriteItems_differs : ∀ {items : List Value}, Stable next (Value.textsOfItems items) →
    (rewriteItems next items).2 = true → (rewriteItems next items).1 ≠ items
  | item :: rest, stable, changed, same => by
    simp only [rewriteItems] at changed same
    split at changed
    · rename_i first
      rw [if_pos first] at same
      exact rewriteTexts_differs stable.of_append.1 first (List.cons.inj same).1
    · rename_i first
      rw [if_neg first] at same
      exact rewriteItems_differs stable.of_append.2 changed (List.cons.inj same).2

theorem rewriteFields_differs : ∀ {fields : List (String × Value)}, Stable next (Value.textsOfFields fields) →
    (rewriteFields next fields).2 = true → (rewriteFields next fields).1 ≠ fields
  | field :: rest, stable, changed, same => by
    simp only [rewriteFields, Bool.or_eq_true] at changed same
    rcases changed with first | others
    · exact rewriteField_differs stable.of_append.1 first (List.cons.inj same).1
    · exact rewriteFields_differs stable.of_append.2 others (List.cons.inj same).2

theorem rewriteField_differs : ∀ {field : String × Value}, Stable next (Value.textsOfField field) →
    (rewriteField next field).2 = true → (rewriteField next field).1 ≠ field
  | (key, .string text), stable, changed, same => by
    rw [rewriteField] at changed same
    cases becomes : next key text with
    | none => simp [becomes] at changed
    | some rewritten =>
      simp only [becomes, Prod.mk.injEq, Value.string.injEq, true_and] at same
      have settled := stable (key, text) (mem_singleton_self _) _ becomes
      rw [same, becomes] at settled
      cases settled
  | (_, .object fields), stable, changed, same =>
    @rewriteFields_differs fields stable changed (Value.object.inj (Prod.mk.inj same).2)
  | (_, .array items), stable, changed, same =>
    @rewriteItems_differs items stable changed (Value.array.inj (Prod.mk.inj same).2)

end

/-! ### What it is for -/

section Fulfilled

variable {value result : Value}

mutual

theorem Rewritten.stays {value result : Value} : Rewritten next value result →
    ∀ field ∈ value.texts, due next field = false → field ∈ result.texts
  | .same _, _, listed, _ => listed
  | .array each, field, listed, kept => each.stays field listed kept
  | .object each, field, listed, kept => each.stays field listed kept

theorem RewrittenItems.stays {items items' : List Value} : RewrittenItems next items items' →
    ∀ field ∈ Value.textsOfItems items, due next field = false → field ∈ Value.textsOfItems items'
  | .nil, _, listed, _ => listed
  | .cons first others, field, listed, kept => by
    rcases mem_append.mp listed with here | later
    · exact mem_append_left _ (first.stays field here kept)
    · exact mem_append_right _ (others.stays field later kept)

theorem RewrittenFields.stays {fields fields' : List (String × Value)} : RewrittenFields next fields fields' →
    ∀ field ∈ Value.textsOfFields fields, due next field = false → field ∈ Value.textsOfFields fields'
  | .nil, _, listed, _ => listed
  | .text becomes others, field, listed, kept => by
    rcases mem_append.mp listed with here | later
    · obtain rfl := mem_singleton.mp here
      simp [due, becomes] at kept
    · exact mem_append_right _ (others.stays field later kept)
  | .field nested others, field, listed, kept => by
    rcases mem_append.mp listed with here | later
    · exact mem_append_left _ (nested.staysUnder field here kept)
    · exact mem_append_right _ (others.stays field later kept)

theorem Rewritten.staysUnder {key : String} {child child' : Value} : Rewritten next child child' →
    ∀ field ∈ Value.textsOfField (key, child), due next field = false → field ∈ Value.textsOfField (key, child')
  | .same _, _, listed, _ => listed
  | .array each, field, listed, kept => each.stays field listed kept
  | .object each, field, listed, kept => each.stays field listed kept

end

mutual

theorem Rewritten.comes {value result : Value} : Rewritten next value result →
    ∀ field ∈ result.texts, field ∈ value.texts ∨ ∃ text, (field.1, text) ∈ value.texts ∧ next field.1 text = some field.2
  | .same _, _, listed => .inl listed
  | .array each, field, listed => each.comes field listed
  | .object each, field, listed => each.comes field listed

theorem RewrittenItems.comes {items items' : List Value} : RewrittenItems next items items' →
    ∀ field ∈ Value.textsOfItems items', field ∈ Value.textsOfItems items ∨
      ∃ text, (field.1, text) ∈ Value.textsOfItems items ∧ next field.1 text = some field.2
  | .nil, _, listed => .inl listed
  | .cons first others, field, listed => by
    rcases mem_append.mp listed with here | later
    · exact (first.comes field here).imp (mem_append_left _) fun ⟨text, was, becomes⟩ =>
        ⟨text, mem_append_left _ was, becomes⟩
    · exact (others.comes field later).imp (mem_append_right _) fun ⟨text, was, becomes⟩ =>
        ⟨text, mem_append_right _ was, becomes⟩

theorem RewrittenFields.comes {fields fields' : List (String × Value)} : RewrittenFields next fields fields' →
    ∀ field ∈ Value.textsOfFields fields', field ∈ Value.textsOfFields fields ∨
      ∃ text, (field.1, text) ∈ Value.textsOfFields fields ∧ next field.1 text = some field.2
  | .nil, _, listed => .inl listed
  | .text becomes others, field, listed => by
    rcases mem_append.mp listed with here | later
    · obtain rfl := mem_singleton.mp here
      exact .inr ⟨_, mem_cons_self, becomes⟩
    · exact (others.comes field later).imp (mem_append_right _) fun ⟨text, was, becomes⟩ =>
        ⟨text, mem_append_right _ was, becomes⟩
  | .field nested others, field, listed => by
    rcases mem_append.mp listed with here | later
    · exact (nested.comesUnder field here).imp (mem_append_left _) fun ⟨text, was, becomes⟩ =>
        ⟨text, mem_append_left _ was, becomes⟩
    · exact (others.comes field later).imp (mem_append_right _) fun ⟨text, was, becomes⟩ =>
        ⟨text, mem_append_right _ was, becomes⟩

theorem Rewritten.comesUnder {key : String} {child child' : Value} : Rewritten next child child' →
    ∀ field ∈ Value.textsOfField (key, child'),
      field ∈ Value.textsOfField (key, child) ∨
        ∃ text, (field.1, text) ∈ Value.textsOfField (key, child) ∧ next field.1 text = some field.2
  | .same _, _, listed => .inl listed
  | .array each, field, listed => each.comes field listed
  | .object each, field, listed => each.comes field listed

end

/-- A rule that makes some texts what they should be, and leaves what it has made alone. -/
structure Mends (next : String → String → Option String) (right : String × String → Prop)
    (fields : List (String × String)) : Prop where
  mended : ∀ field ∈ fields, ∀ rewritten, next field.1 field.2 = some rewritten → right (field.1, rewritten)
  stable : Stable next fields

/-- What a walk is for: all texts are what they should be, nothing is changed but by the rule, it says whether something
is, and a second walk changes nothing. -/
structure Fulfilled (walk : Value → Value × Bool) (next : String → String → Option String) (right : String × String → Prop)
    (value : Value) : Prop where
  texts : ∀ field ∈ (walk value).1.texts, right field
  others : Rewritten next value (walk value).1
  changed : (walk value).2 = true ↔ (walk value).1 ≠ value
  again : walk (walk value).1 = ((walk value).1, false)

/-- **The walk does what it is for where no array has two items with a text to rewrite, and the rule knows all wrong
texts.** -/
theorem fulfilled_iff {right : String × String → Prop} (mends : Mends next right value.texts) :
    Fulfilled (rewriteTexts next) next right value ↔
      (∀ field ∈ value.texts, right field ∨ due next field = true) ∧ ∀ items ∈ value.arrays, AtMostOne (due next) items := by
  rw [← rewriteTexts_settled mends.stable]
  have rewritten : Rewritten next value (rewriteTexts next value).1 := rewriteTexts_rewritten value
  constructor
  · intro fulfilled
    refine ⟨fun field listed => ?_, ?_⟩
    · cases kept : due next field with
      | true => exact .inr rfl
      | false => exact .inl (fulfilled.texts field (rewritten.stays field listed kept))
    · rw [← rewriteTexts_changed, fulfilled.again]
  · rintro ⟨known, settled⟩
    refine ⟨fun field listed => ?_, rewritten, ?_, rewriteTexts_same settled⟩
    · rcases rewritten.comes field listed with old | ⟨text, was, becomes⟩
      · refine (known field old).resolve_right fun waits => ?_
        exact any_eq_false.mp settled field listed waits
      · exact mends.mended _ was _ becomes
    · refine ⟨rewriteTexts_differs mends.stable, fun differs => ?_⟩
      by_contra unchanged
      rw [Bool.not_eq_true, rewriteTexts_changed] at unchanged
      exact differs (by rw [rewriteTexts_same unchanged])

end Fulfilled

end Laws

end Byok
