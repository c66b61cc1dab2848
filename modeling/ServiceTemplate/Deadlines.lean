import Mathlib.Order.Basic
import Mathlib.Order.Bounds.Basic
import Mathlib.Data.List.Basic

/-! Deadlines as an origin and a budget, and append-only forests of scopes. From the instant it
is made, a deadline counts down to one cutoff, however large its budget. -/
namespace Deadlines

/-- Nanoseconds of the monotonic clock. `saturating_duration_since` of two instants and
`saturating_sub` of two durations are truncated subtraction. -/
structure Deadline where
  origin : ℕ
  budget : ℕ
  deriving DecidableEq, Repr

namespace Deadline

def atCutoff (cutoff now : ℕ) : Deadline := ⟨min cutoff now, cutoff - now⟩

def remainingAt (deadline : Deadline) (now : ℕ) : ℕ := deadline.budget - (now - deadline.origin)

def expiredAt (deadline : Deadline) (now : ℕ) : Bool := deadline.remainingAt now = 0

/-- Compared once, by what remains now. -/
def earlier (deadline other : Deadline) (now : ℕ) : Deadline :=
  if deadline.remainingAt now ≤ other.remainingAt now then deadline else other

def CountsTo (deadline : Deadline) (clock cutoff : ℕ) : Prop :=
  ∀ now, clock ≤ now → deadline.remainingAt now = cutoff - now

variable {deadline other : Deadline} {clock cutoff limit : ℕ}

theorem counts_to_new {origin : ℕ} (h : origin ≤ clock) (budget : ℕ) :
    CountsTo ⟨origin, budget⟩ clock (origin + budget) := by
  intro now hnow
  have horigin : origin ≤ now := Nat.le_trans h hnow
  simp only [remainingAt]
  omega

theorem counts_to_at (cutoff clock : ℕ) : CountsTo (atCutoff cutoff clock) clock cutoff := by
  intro now hnow
  simp only [remainingAt, atCutoff]
  omega

theorem CountsTo.later (h : deadline.CountsTo clock cutoff) {now : ℕ} (hnow : clock ≤ now) :
    deadline.CountsTo now cutoff := fun t ht => h t (Nat.le_trans hnow ht)

/-- The choice made now is right at every later instant: where both had already expired, either
answer is. -/
theorem CountsTo.earlier (h : deadline.CountsTo clock cutoff) (k : other.CountsTo clock limit) :
    (deadline.earlier other clock).CountsTo clock (min cutoff limit) := by
  intro now hnow
  have hclock := h clock (Nat.le_refl _)
  have kclock := k clock (Nat.le_refl _)
  unfold Deadline.earlier
  split
  · next hle =>
    rw [hclock, kclock] at hle
    rw [h now hnow]
    omega
  · next hgt =>
    rw [hclock, kclock] at hgt
    rw [k now hnow]
    omega

theorem CountsTo.expired_iff (h : deadline.CountsTo clock cutoff) {now : ℕ} (hnow : clock ≤ now) :
    deadline.expiredAt now = true ↔ cutoff ≤ now := by
  rw [expiredAt, decide_eq_true_eq, h now hnow]
  omega

end Deadline

section Forest

variable {parents : List (Option ℕ)} {node ancestor : ℕ}

inductive Ancestor (parents : List (Option ℕ)) : ℕ → ℕ → Prop
  | refl (node : ℕ) : Ancestor parents node node
  | up {node parent ancestor : ℕ} (h : parents[node]? = some (some parent))
    (htail : Ancestor parents parent ancestor) : Ancestor parents node ancestor

def Forest (parents : List (Option ℕ)) : Prop :=
  ∀ node parent : ℕ, parents[node]? = some (some parent) → parent < node

theorem Ancestor.trans {top : ℕ} (h : Ancestor parents node ancestor)
    (k : Ancestor parents ancestor top) : Ancestor parents node top := by
  induction h with
  | refl => exact k
  | up hparent _ ih => exact .up hparent (ih k)

theorem Forest.snoc (h : Forest parents) {parent : Option ℕ}
    (hparent : ∀ p, parent = some p → p < parents.length) : Forest (parents ++ [parent]) := by
  intro node p hp
  rcases Nat.lt_trichotomy node parents.length with hlt | heq | hgt
  · rw [List.getElem?_append_left hlt] at hp
    exact h node p hp
  · subst heq
    rw [List.getElem?_concat_length, Option.some.injEq] at hp
    exact hparent p hp
  · rw [List.getElem?_eq_none (by rw [List.length_append, List.length_singleton]; omega)] at hp
    cases hp

theorem ancestor_snoc (h : Forest parents) (parent : Option ℕ) (hnode : node < parents.length) :
    Ancestor (parents ++ [parent]) node ancestor ↔ Ancestor parents node ancestor := by
  constructor
  · intro hup
    induction hup with
    | refl => exact .refl _
    | up hparent _ ih =>
      rw [List.getElem?_append_left hnode] at hparent
      exact .up hparent (ih (Nat.lt_trans (h _ _ hparent) hnode))
  · intro hup
    induction hup with
    | refl => exact .refl _
    | up hparent _ ih =>
      refine .up ?_ (ih (Nat.lt_trans (h _ _ hparent) hnode))
      rw [List.getElem?_append_left hnode]
      exact hparent

theorem ancestor_new (h : Forest parents) {parent : Option ℕ}
    (hparent : ∀ p, parent = some p → p < parents.length) :
    Ancestor (parents ++ [parent]) parents.length ancestor ↔
      ancestor = parents.length ∨ ∃ p, parent = some p ∧ Ancestor parents p ancestor := by
  constructor
  · intro hup
    cases hup with
    | refl => exact .inl rfl
    | up hget htail =>
      rw [List.getElem?_concat_length, Option.some.injEq] at hget
      exact .inr ⟨_, hget, (ancestor_snoc h parent (hparent _ hget)).mp htail⟩
  · rintro (rfl | ⟨p, rfl, htail⟩)
    · exact .refl _
    · refine .up ?_ ((ancestor_snoc h (some p) (hparent p rfl)).mpr htail)
      rw [List.getElem?_concat_length]

theorem Ancestor.lt (h : Ancestor parents node ancestor) (hforest : Forest parents)
    (hnode : node < parents.length) : ancestor < parents.length := by
  induction h with
  | refl => exact hnode
  | up hparent _ ih => exact ih (Nat.lt_trans (hforest _ _ hparent) hnode)

def marked (parents : List (Option ℕ)) (marks : ℕ → Bool) : ℕ → ℕ → Bool
  | 0, _ => false
  | steps + 1, node =>
    marks node || match parents[node]? with
      | some (some parent) => marked parents marks steps parent
      | _ => false

theorem marked_iff (hforest : Forest parents) {marks : ℕ → Bool} {steps : ℕ}
    (hsteps : node < steps) :
    marked parents marks steps node = true ↔
      ∃ ancestor, marks ancestor = true ∧ Ancestor parents node ancestor := by
  induction steps generalizing node with
  | zero => exact absurd hsteps (Nat.not_lt_zero _)
  | succ steps ih =>
    rw [marked, Bool.or_eq_true]
    constructor
    · rintro (hmark | hup)
      · exact ⟨node, hmark, .refl _⟩
      · split at hup
        · next parent hparent =>
          have hlt := hforest node parent hparent
          obtain ⟨ancestor, hmark, hpath⟩ := (ih (by omega)).mp hup
          exact ⟨ancestor, hmark, .up hparent hpath⟩
        · cases hup
    · rintro ⟨ancestor, hmark, hpath⟩
      cases hpath with
      | refl => exact .inl hmark
      | @up _ parent _ hparent htail =>
        have hlt := hforest node parent hparent
        refine .inr ?_
        rw [hparent]
        exact (ih (by omega)).mpr ⟨ancestor, hmark, htail⟩

end Forest

end Deadlines
