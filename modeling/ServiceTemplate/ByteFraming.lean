import Mathlib.Data.List.Basic
import Mathlib.Tactic.Ring

/-! Bytes of numbers and texts, and self-delimiting encodings: partial encoders whose output determines both the value
and where it ends, and the combinators that keep this property. -/
namespace ByteFraming

abbrev Bytes := List UInt8

/-- A check of the members of a list goes through the list, also where their type is finite. -/
instance (priority := 2000) decidableForallMem {α : Type*} (p : α → Prop) [DecidablePred p]
    (l : List α) : Decidable (∀ x ∈ l, p x) := List.decidableBAll p l

instance (priority := 2000) decidableExistsMem {α : Type*} (p : α → Prop) [DecidablePred p]
    (l : List α) : Decidable (∃ x ∈ l, p x) := List.decidableBEx p l

def toBeBytes : ℕ → ℕ → Bytes
  | 0, _ => []
  | width + 1, n => toBeBytes width (n / 256) ++ [UInt8.ofNat n]

def fromBeBytes (bytes : Bytes) : ℕ := bytes.foldl (fun n b => n * 256 + b.toNat) 0

@[simp] theorem to_be_bytes_length (width n : ℕ) : (toBeBytes width n).length = width := by
  induction width generalizing n with
  | zero => rfl
  | succ width ih => simp [toBeBytes, ih]

theorem from_to_be_bytes (width n : ℕ) :
    fromBeBytes (toBeBytes width n) = n % 256 ^ width := by
  induction width generalizing n with
  | zero => simp [toBeBytes, fromBeBytes, Nat.mod_one]
  | succ width ih =>
    have hhigh : fromBeBytes (toBeBytes (width + 1) n) =
        fromBeBytes (toBeBytes width (n / 256)) * 256 + n % 256 := by
      simp [toBeBytes, fromBeBytes]
    rw [hhigh, ih, pow_succ', Nat.mod_mul]
    ring

theorem to_be_bytes_injective {width m n : ℕ} (hm : m < 256 ^ width) (hn : n < 256 ^ width)
    (h : toBeBytes width m = toBeBytes width n) : m = n := by
  have hback := congrArg fromBeBytes h
  rwa [from_to_be_bytes, from_to_be_bytes, Nat.mod_eq_of_lt hm, Nat.mod_eq_of_lt hn] at hback

def asBytes (text : String) : Bytes := text.toByteArray.data.toList

theorem as_bytes_injective : Function.Injective asBytes := by
  intro s t h
  have hdata : s.toByteArray.data = t.toByteArray.data := Array.toList_inj.mp h
  exact String.toByteArray_inj.mp (ByteArray.ext hdata)

variable {α γ β : Type*}

/-- Whatever follows, two equal streams start with the same value and continue equally. -/
def SelfDelimiting (enc : α → Option (List β)) : Prop :=
  ∀ ⦃x y u v r r'⦄, enc x = some u → enc y = some v → u ++ r = v ++ r' → x = y ∧ r = r'

theorem SelfDelimiting.injective {enc : α → Option (List β)} (h : SelfDelimiting enc)
    {x y : α} {u : List β} (hx : enc x = some u) (hy : enc y = some u) : x = y :=
  (h hx hy (rfl : u ++ [] = u ++ [])).1

theorem self_delimiting_of_length {enc : α → Option (List β)} (width : ℕ)
    (hlen : ∀ x u, enc x = some u → u.length = width)
    (hinj : ∀ x y u, enc x = some u → enc y = some u → x = y) : SelfDelimiting enc := by
  intro x y u v r r' hx hy heq
  have hlength : u.length = v.length := (hlen x u hx).trans (hlen y v hy).symm
  obtain ⟨rfl, rfl⟩ := List.append_inj heq hlength
  exact ⟨hinj x y u hx hy, rfl⟩

def pair (enc : α → Option (List β)) (enc' : γ → Option (List β)) (p : α × γ) :
    Option (List β) := do
  let u ← enc p.1
  let v ← enc' p.2
  pure (u ++ v)

theorem pair_eq_some {enc : α → Option (List β)} {enc' : γ → Option (List β)} {p : α × γ}
    {w : List β} : pair enc enc' p = some w ↔
      ∃ u v, enc p.1 = some u ∧ enc' p.2 = some v ∧ w = u ++ v := by
  constructor
  · intro h
    obtain ⟨u, hu, h⟩ := Option.bind_eq_some_iff.mp h
    obtain ⟨v, hv, h⟩ := Option.bind_eq_some_iff.mp h
    exact ⟨u, v, hu, hv, (Option.some.inj h).symm⟩
  · rintro ⟨u, v, hu, hv, rfl⟩
    simp [pair, hu, hv]

theorem SelfDelimiting.pair {enc : α → Option (List β)} {enc' : γ → Option (List β)}
    (h : SelfDelimiting enc) (h' : SelfDelimiting enc') : SelfDelimiting (pair enc enc') := by
  rintro ⟨x, x'⟩ ⟨y, y'⟩ w z r r' hx hy heq
  obtain ⟨u, v, hu, hv, rfl⟩ := pair_eq_some.mp hx
  obtain ⟨u', v', hu', hv', rfl⟩ := pair_eq_some.mp hy
  rw [List.append_assoc, List.append_assoc] at heq
  obtain ⟨hfst, hrest⟩ := h hu hu' heq
  obtain ⟨hsnd, hr⟩ := h' hv hv' hrest
  exact ⟨Prod.ext hfst hsnd, hr⟩

/-- A tag tells a missing value from a present one. -/
def tagged (absent present : β) (enc : α → Option (List β)) : Option α → Option (List β)
  | none => some [absent]
  | some x => (enc x).map (present :: ·)

theorem SelfDelimiting.tagged {absent present : β} (hne : absent ≠ present)
    {enc : α → Option (List β)} (h : SelfDelimiting enc) :
    SelfDelimiting (tagged absent present enc) := by
  intro x y u v r r' hx hy heq
  cases x with
  | none =>
    cases hx
    cases y with
    | none =>
      cases hy
      exact ⟨rfl, List.cons.inj heq |>.2⟩
    | some y =>
      obtain ⟨v', -, rfl⟩ := Option.map_eq_some_iff.mp hy
      exact absurd (List.cons.inj heq).1 hne
  | some x =>
    obtain ⟨u', hu, rfl⟩ := Option.map_eq_some_iff.mp hx
    cases y with
    | none =>
      cases hy
      exact absurd (List.cons.inj heq).1.symm hne
    | some y =>
      obtain ⟨v', hv, rfl⟩ := Option.map_eq_some_iff.mp hy
      obtain ⟨hxy, hr⟩ := h hu hv (List.cons.inj heq).2
      exact ⟨congrArg some hxy, hr⟩

/-- The items one after another, with nothing that says how many there are. -/
def each (enc : α → Option (List β)) : List α → Option (List β)
  | [] => some []
  | x :: xs => do
    let u ← enc x
    let v ← each enc xs
    pure (u ++ v)

theorem each_cons (enc : α → Option (List β)) (x : α) (xs : List α) :
    each enc (x :: xs) = pair enc (each enc) (x, xs) := rfl

theorem SelfDelimiting.each_of_length {enc : α → Option (List β)} (h : SelfDelimiting enc)
    {xs ys : List α} {u v r r' : List β} (hlen : xs.length = ys.length)
    (hx : each enc xs = some u) (hy : each enc ys = some v) (heq : u ++ r = v ++ r') :
    xs = ys ∧ r = r' := by
  induction xs generalizing ys u v with
  | nil =>
    obtain rfl := List.length_eq_zero_iff.mp hlen.symm
    cases hx
    cases hy
    exact ⟨rfl, heq⟩
  | cons x xs ih =>
    cases ys with
    | nil => simp at hlen
    | cons y ys =>
      rw [each_cons] at hx hy
      obtain ⟨a, b, ha, hb, rfl⟩ := pair_eq_some.mp hx
      obtain ⟨c, d, hc, hd, rfl⟩ := pair_eq_some.mp hy
      rw [List.append_assoc, List.append_assoc] at heq
      obtain ⟨rfl, hrest⟩ := h ha hc heq
      obtain ⟨rfl, hr⟩ := ih (by simpa using hlen) hb hd hrest
      exact ⟨rfl, hr⟩

def counted (count : ℕ → Option (List β)) (enc : α → Option (List β)) (xs : List α) :
    Option (List β) :=
  pair count (each enc) (xs.length, xs)

theorem SelfDelimiting.counted {count : ℕ → Option (List β)} {enc : α → Option (List β)}
    (hcount : SelfDelimiting count) (h : SelfDelimiting enc) :
    SelfDelimiting (counted count enc) := by
  intro xs ys u v r r' hx hy heq
  obtain ⟨a, b, ha, hb, rfl⟩ := pair_eq_some.mp hx
  obtain ⟨c, d, hc, hd, rfl⟩ := pair_eq_some.mp hy
  rw [List.append_assoc, List.append_assoc] at heq
  obtain ⟨hlen, hrest⟩ := hcount ha hc heq
  exact h.each_of_length hlen hb hd hrest

/-- A number that fits the width, most significant byte first. -/
def sized (width n : ℕ) : Option Bytes := if n < 256 ^ width then some (toBeBytes width n) else none

theorem sized_eq_some {width n : ℕ} {u : Bytes} :
    sized width n = some u ↔ n < 256 ^ width ∧ u = toBeBytes width n := by
  unfold sized
  split <;> simp_all [eq_comm]

theorem sized_self_delimiting (width : ℕ) : SelfDelimiting (sized width) := by
  refine self_delimiting_of_length width ?_ ?_
  · intro n u hu
    rw [(sized_eq_some.mp hu).2, to_be_bytes_length]
  · intro m n u hm hn
    obtain ⟨hmlt, rfl⟩ := sized_eq_some.mp hm
    obtain ⟨hnlt, heq⟩ := sized_eq_some.mp hn
    exact to_be_bytes_injective hmlt hnlt heq

/-- Bytes after their length. -/
def framed (width : ℕ) (bytes : Bytes) : Option Bytes := (sized width bytes.length).map (· ++ bytes)

theorem framed_self_delimiting (width : ℕ) : SelfDelimiting (framed width) := by
  intro x y u v r r' hx hy heq
  obtain ⟨a, ha, rfl⟩ := Option.map_eq_some_iff.mp hx
  obtain ⟨b, hb, rfl⟩ := Option.map_eq_some_iff.mp hy
  rw [List.append_assoc, List.append_assoc] at heq
  obtain ⟨hlen, hrest⟩ := sized_self_delimiting width ha hb heq
  exact List.append_inj hrest hlen

/-- A sequence of codes whose first one can be read back ends at a symbol that starts no code. -/
theorem codes_apart {code : α → List β} {read : List β → Option (α × List β)} {stop : β}
    (hread : ∀ a rest, read (code a ++ rest) = some (a, rest))
    (hstop : ∀ rest, read (stop :: rest) = none) {xs ys : List α} {r r' : List β}
    (h : xs.flatMap code ++ stop :: r = ys.flatMap code ++ stop :: r') : xs = ys ∧ r = r' := by
  induction xs generalizing ys with
  | nil =>
    cases ys with
    | nil => simpa using h
    | cons y ys =>
      have hfirst := congrArg read h
      rw [List.flatMap_nil, List.nil_append, hstop, List.flatMap_cons, List.append_assoc,
        hread] at hfirst
      cases hfirst
  | cons x xs ih =>
    have hfirst := congrArg read h
    rw [List.flatMap_cons, List.append_assoc, hread] at hfirst
    cases ys with
    | nil =>
      rw [List.flatMap_nil, List.nil_append, hstop] at hfirst
      cases hfirst
    | cons y ys =>
      rw [List.flatMap_cons, List.append_assoc, hread, Option.some.injEq, Prod.mk.injEq] at hfirst
      obtain ⟨rfl, hrest⟩ := hfirst
      obtain ⟨rfl, hr⟩ := ih hrest
      exact ⟨rfl, hr⟩

end ByteFraming
