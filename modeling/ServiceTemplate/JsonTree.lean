import ServiceTemplate.JsonText

/-! JSON values as trees over the scalars, and their compact text. A nested type has no usable
induction of its own, so it is stated once here, with one case for each constructor. -/
namespace JsonTree

open JsonText

inductive Json where
  | scalar (value : Scalar)
  | array (items : List Json)
  | object (members : List (String × Json))

namespace Json

mutual

/-- The compact text: no blanks, members in their order. -/
def render : Json → List Char
  | .scalar value => value.render
  | .array items => '[' :: ([','].intercalate (renderItems items) ++ [']'])
  | .object members => '\x7b' :: ([','].intercalate (renderMembers members) ++ ['\x7d'])

def renderItems : List Json → List (List Char)
  | [] => []
  | item :: items => item.render :: renderItems items

def renderMembers : List (String × Json) → List (List Char)
  | [] => []
  | (key, value) :: members => (quote key.toList ++ ':' :: value.render) :: renderMembers members

end

theorem render_items_eq (items : List Json) : renderItems items = items.map render := by
  induction items with
  | nil => simp [renderItems]
  | cons item items ih => simp [renderItems, ih]

theorem render_members_eq (members : List (String × Json)) :
    renderMembers members = members.map fun member => quote member.1.toList ++ ':' :: member.2.render := by
  induction members with
  | nil => simp [renderMembers]
  | cons member members ih => simp [renderMembers, ih]

mutual

def decEq : (v w : Json) → Decidable (v = w)
  | .scalar a, .scalar b => decidable_of_iff (a = b) (by simp)
  | .array xs, .array ys =>
    match decItems xs ys with
    | isTrue h => isTrue (by rw [h])
    | isFalse h => isFalse (by simpa using h)
  | .object xs, .object ys =>
    match decMembers xs ys with
    | isTrue h => isTrue (by rw [h])
    | isFalse h => isFalse (by simpa using h)
  | .scalar _, .array _ => isFalse (by simp)
  | .scalar _, .object _ => isFalse (by simp)
  | .array _, .scalar _ => isFalse (by simp)
  | .array _, .object _ => isFalse (by simp)
  | .object _, .scalar _ => isFalse (by simp)
  | .object _, .array _ => isFalse (by simp)

def decItems : (xs ys : List Json) → Decidable (xs = ys)
  | [], [] => isTrue rfl
  | [], _ :: _ => isFalse (by simp)
  | _ :: _, [] => isFalse (by simp)
  | x :: xs, y :: ys =>
    match decEq x y, decItems xs ys with
    | isTrue h, isTrue h' => isTrue (by rw [h, h'])
    | isFalse h, _ => isFalse (by simp [h])
    | _, isFalse h => isFalse (by simp [h])

def decMembers : (xs ys : List (String × Json)) → Decidable (xs = ys)
  | [], [] => isTrue rfl
  | [], _ :: _ => isFalse (by simp)
  | _ :: _, [] => isFalse (by simp)
  | (k, x) :: xs, (l, y) :: ys =>
    match (inferInstance : Decidable (k = l)), decEq x y, decMembers xs ys with
    | isTrue hk, isTrue h, isTrue h' => isTrue (by rw [hk, h, h'])
    | isFalse hk, _, _ => isFalse (by simp [hk])
    | _, isFalse h, _ => isFalse (by simp [h])
    | _, _, isFalse h => isFalse (by simp [h])

end

instance : DecidableEq Json := decEq

/-- Induction over a value: the parts of an array or an object first. -/
theorem induct {P : Json → Prop} (scalar : ∀ value, P (.scalar value))
    (array : ∀ items, (∀ item ∈ items, P item) → P (.array items))
    (object : ∀ members, (∀ member ∈ members, P member.2) → P (.object members)) (v : Json) :
    P v := by
  refine Json.rec (motive_1 := P) (motive_2 := fun items => ∀ item ∈ items, P item)
    (motive_3 := fun members => ∀ member ∈ members, P member.2) (motive_4 := fun member => P member.2)
    scalar array object ?_ ?_ ?_ ?_ ?_ v
  · simp
  · intro item items hitem hitems
    exact List.forall_mem_cons.mpr ⟨hitem, hitems⟩
  · simp
  · intro member members hmember hmembers
    exact List.forall_mem_cons.mpr ⟨hmember, hmembers⟩
  · intro key value hvalue
    exact hvalue

end Json

/-- The strings of a value and the keys of its objects. -/
inductive Occurs (text : List Char) : Json → Prop
  | string : Occurs text (.scalar (.string text))
  | item {item : Json} {items : List Json} (hmem : item ∈ items) (h : Occurs text item) :
      Occurs text (.array items)
  | key {member : String × Json} {members : List (String × Json)} (hmem : member ∈ members)
      (h : member.1.toList = text) : Occurs text (.object members)
  | member {member : String × Json} {members : List (String × Json)} (hmem : member ∈ members)
      (h : Occurs text member.2) : Occurs text (.object members)

theorem occurs_scalar {text : List Char} {value : Scalar} :
    Occurs text (.scalar value) ↔ value = .string text := by
  constructor
  · rintro ⟨⟩
    rfl
  · rintro rfl
    exact .string

theorem occurs_array {text : List Char} {items : List Json} :
    Occurs text (.array items) ↔ ∃ item ∈ items, Occurs text item := by
  constructor
  · rintro ⟨⟩
    exact ⟨_, ‹_ ∈ items›, ‹_›⟩
  · rintro ⟨item, hmem, h⟩
    exact .item hmem h

theorem occurs_object {text : List Char} {members : List (String × Json)} :
    Occurs text (.object members) ↔
      ∃ member ∈ members, member.1.toList = text ∨ Occurs text member.2 := by
  constructor
  · intro h
    cases h with
    | key hmem h => exact ⟨_, hmem, .inl h⟩
    | member hmem h => exact ⟨_, hmem, .inr h⟩
  · rintro ⟨member, hmem, h | h⟩
    · exact .key hmem h
    · exact .member hmem h

def numberChar (c : Char) : Bool := c.isDigit || "-+.eE".toList.contains c

theorem digits_number {text : List Char} (h : text.all Char.isDigit = true) :
    text.all numberChar = true := by
  rw [List.all_eq_true] at h ⊢
  intro c hc
  simp [numberChar, h c hc]

theorem exponent_number {text : List Char} (h : isExponent text = true) :
    text.all numberChar = true := by
  unfold isExponent at h
  split at h
  · rfl
  · rename_i mark rest
    simp only [Bool.and_eq_true, Bool.or_eq_true, decide_eq_true_eq] at h
    obtain ⟨⟨hmark, -⟩, hdigits⟩ := h
    have hmark : numberChar mark = true := by
      rcases hmark with rfl | rfl <;> decide
    rw [List.all_cons, hmark, Bool.true_and]
    split at hdigits
    · rw [List.all_cons, digits_number hdigits]
      rfl
    · rw [List.all_cons, digits_number hdigits]
      rfl
    · exact digits_number hdigits

theorem fraction_number {text : List Char} (h : isFraction text = true) :
    text.all numberChar = true := by
  unfold isFraction at h
  split at h
  · rename_i rest
    simp only [Bool.and_eq_true] at h
    have hdigits : (rest.takeWhile Char.isDigit).all Char.isDigit = true :=
      List.all_eq_true.mpr fun c hc => List.mem_takeWhile_imp hc
    rw [List.all_cons, ← List.takeWhile_append_dropWhile (p := Char.isDigit) (l := rest),
      List.all_append, digits_number hdigits, exponent_number h.2]
    rfl
  · exact exponent_number h

theorem unsigned_number {text : List Char} (h : isUnsigned text = true) :
    text.all numberChar = true := by
  simp only [isUnsigned, Bool.and_eq_true] at h
  have hdigits : (text.takeWhile Char.isDigit).all Char.isDigit = true :=
    List.all_eq_true.mpr fun c hc => List.mem_takeWhile_imp hc
  rw [← List.takeWhile_append_dropWhile (p := Char.isDigit) (l := text), List.all_append,
    digits_number hdigits, fraction_number h.2]
  rfl

theorem number_chars {text : List Char} (h : isNumber text = true) : text.all numberChar = true := by
  unfold isNumber at h
  split at h
  · rw [List.all_cons, unsigned_number h]
    rfl
  · exact unsigned_number h

end JsonTree
