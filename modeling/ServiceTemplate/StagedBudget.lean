import Mathlib.Tactic.Common
import Mathlib.Data.List.Basic

/-! Stages one after another under one deadline. Each stage wants a time and may take what of it is
left before the deadline. Where the wants fit together, every stage is left all that it wants,
whatever the stages before it took. -/
namespace StagedBudget

/-- How long a wait of at most `bound` lasts for what comes after `delay`, and whether it came.
Without a delay it never comes. -/
def wait (bound : ℕ) (delay : Option ℕ) : ℕ × Bool :=
  match delay with
  | some delay => if delay ≤ bound then (delay, true) else (bound, false)
  | none => (bound, false)

def remaining (deadline now want : ℕ) : ℕ := min want (deadline - now)

variable {deadline now bound want : ℕ} {delay : Option ℕ}

theorem wait_le (bound : ℕ) (delay : Option ℕ) : (wait bound delay).1 ≤ bound := by
  cases delay with
  | none => exact Nat.le_refl _
  | some d => by_cases hd : d ≤ bound <;> simp [wait, hd]

theorem wait_came : (wait bound delay).2 = true ↔ ∃ d, delay = some d ∧ d ≤ bound := by
  cases delay with
  | none => simp [wait]
  | some d => by_cases hd : d ≤ bound <;> simp [wait, hd]

theorem wait_of_le {d : ℕ} (h : d ≤ bound) : wait bound (some d) = (d, true) := by
  simp [wait, h]

theorem wait_missed (h : (wait bound delay).2 = false) : (wait bound delay).1 = bound := by
  cases delay with
  | none => rfl
  | some d =>
    by_cases hd : d ≤ bound
    · rw [wait_of_le hd] at h
      cases h
    · simp [wait, hd]

theorem remaining_le_want : remaining deadline now want ≤ want := Nat.min_le_left _ _

theorem remaining_le_left : remaining deadline now want ≤ deadline - now := Nat.min_le_right _ _

theorem remaining_of_fit (h : now + want ≤ deadline) : remaining deadline now want = want := by
  rw [remaining]
  omega

/-- Each stage is listed by what it wants and what it took. -/
def Within (deadline : ℕ) : ℕ → List (ℕ × ℕ) → Prop
  | _, [] => True
  | now, (want, took) :: rest =>
    took ≤ remaining deadline now want ∧ Within deadline (now + took) rest

def wanted : List (ℕ × ℕ) → ℕ
  | [] => 0
  | (want, _) :: rest => want + wanted rest

def taken : List (ℕ × ℕ) → ℕ
  | [] => 0
  | (_, took) :: rest => took + taken rest

variable {stages : List (ℕ × ℕ)}

/-- Stages that start after the deadline take nothing. -/
theorem Within.ends_by_max (h : Within deadline now stages) :
    now + taken stages ≤ max now deadline := by
  induction stages generalizing now with
  | nil => exact Nat.le_max_left _ _
  | cons stage rest ih =>
    have htook := Nat.le_trans h.1 remaining_le_left
    have hrest := ih h.2
    simp only [taken] at hrest ⊢
    omega

/-- Where all wants fit before the deadline, each stage is left what it wants. -/
theorem Within.in_full {before after : List (ℕ × ℕ)} {took : ℕ}
    (h : Within deadline now (before ++ (want, took) :: after))
    (hfit : now + wanted (before ++ (want, took) :: after) ≤ deadline) :
    remaining deadline (now + taken before) want = want := by
  induction before generalizing now with
  | nil =>
    simp only [wanted, taken, List.nil_append] at hfit ⊢
    exact remaining_of_fit (by omega)
  | cons stage before ih =>
    have htook := Nat.le_trans h.1 remaining_le_want
    have hrest : remaining deadline (now + stage.2 + taken before) want = want := by
      refine ih h.2 ?_
      simp only [wanted, List.cons_append] at hfit ⊢
      omega
    simp only [taken] at hrest ⊢
    rw [← Nat.add_assoc]
    exact hrest

end StagedBudget
