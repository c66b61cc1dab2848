import Mathlib.Data.List.Basic

/-! Chains of checks: a computation that returns a value or the first refusal. -/
namespace ExceptChain

variable {ε α β : Type}

theorem bind_ok {x : Except ε α} {f : α → Except ε β} {b : β} :
    (x >>= f) = .ok b ↔ ∃ a, x = .ok a ∧ f a = .ok b := by
  cases x with
  | ok a =>
    constructor
    · intro h
      exact ⟨a, rfl, h⟩
    · rintro ⟨_, ⟨⟩, h⟩
      exact h
  | error e =>
    constructor
    · intro h
      cases h
    · rintro ⟨_, ⟨⟩, _⟩

theorem bind_error {x : Except ε α} {f : α → Except ε β} {e : ε} :
    (x >>= f) = .error e ↔ x = .error e ∨ ∃ a, x = .ok a ∧ f a = .error e := by
  cases x with
  | ok a =>
    constructor
    · intro h
      exact .inr ⟨a, rfl, h⟩
    · rintro (h | ⟨_, ⟨⟩, h⟩)
      · cases h
      · exact h
  | error e' =>
    constructor
    · rintro ⟨⟩
      exact .inl rfl
    · rintro (h | ⟨_, h, _⟩)
      · cases h
        rfl
      · cases h

def okOr (value : Option α) (refusal : ε) : Except ε α :=
  match value with
  | some a => .ok a
  | none => .error refusal

@[simp] theorem ok_or_ok {value : Option α} {refusal : ε} {a : α} :
    okOr value refusal = .ok a ↔ value = some a := by
  cases value <;> simp [okOr]

def ensure (holds : Bool) (refusal : ε) : Except ε Unit :=
  if holds then .ok () else .error refusal

@[simp] theorem ensure_ok {holds : Bool} {refusal : ε} {u : Unit} :
    ensure holds refusal = .ok u ↔ holds = true := by
  cases holds <;> simp [ensure]

theorem fold_invariant {P : β → Prop} {f : β → α → Except ε β}
    (hstep : ∀ b a b', P b → f b a = .ok b' → P b') {xs : List α} {b b' : β} (hb : P b)
    (h : xs.foldlM f b = .ok b') : P b' := by
  induction xs generalizing b with
  | nil =>
    cases h
    exact hb
  | cons a xs ih =>
    rw [List.foldlM_cons, bind_ok] at h
    obtain ⟨c, hc, h⟩ := h
    exact ih (hstep b a c hb hc) h

end ExceptChain
