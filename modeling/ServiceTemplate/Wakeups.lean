import ServiceTemplate.SharedState

/-! Waiting for a notification that reaches every waiter. A waiter notes how many notifications
there have been before it looks at the state, and sleeps only while there is no further one. Who
disturbs a state that a waiter may have found quiet owes a notification. -/
namespace Wakeups

open TransitionSystem
open SharedState

variable {ι σ τ ε η : Type*}

structure Protocol (P : Program ι σ τ ε η) where
  notified : σ → ℕ
  quiet : σ → Prop
  noted : τ → Option ℕ
  asleep : τ → Prop
  owes : τ → Prop
  monotone : ∀ {i s t e s' t'}, P.act i s t e = some (s', t') → notified s ≤ notified s'
  disturb : ∀ {i s t e s' t'}, P.act i s t e = some (s', t') → quiet s → quiet s' ∨ owes t'
  settle : ∀ {i s t e s' t'}, P.act i s t e = some (s', t') → owes t →
    owes t' ∨ notified s < notified s'
  note : ∀ {i s t e s' t' n}, P.act i s t e = some (s', t') → noted t' = some n →
    noted t = some n ∨ n ≤ notified s'
  sleep : ∀ {i s t e s' t'}, P.act i s t e = some (s', t') → asleep t' →
    asleep t ∧ noted t' = noted t ∨ quiet s'
  env : ∀ {s x s'}, P.env s x = some s' → notified s' = notified s ∧ (quiet s → quiet s')

variable {P : Program ι σ τ ε η} (R : Protocol P) {w w' : World ι σ τ}

def Protocol.Due (w : World ι σ τ) : Prop := R.quiet w.shared ∨ ∃ i, R.owes (w.tasks i)

/-- A sleeper that was not notified yet sleeps over a quiet state, or its notification is due. -/
structure Protocol.Awake (w : World ι σ τ) (i : ι) : Prop where
  noted : ∀ n, R.noted (w.tasks i) = some n → n ≤ R.notified w.shared
  sleeps : R.asleep (w.tasks i) → R.noted (w.tasks i) = some (R.notified w.shared) → R.Due w

variable [DecidableEq ι]

/-- While no notification is made, one that is due stays due. -/
theorem Protocol.due_step {i : ι} {e : ε} {s : σ} {t : τ}
    (h : P.act i w.shared (w.tasks i) e = some (s, t)) (hsame : R.notified s = R.notified w.shared)
    (hdue : R.Due w) : R.Due ⟨s, Function.update w.tasks i t⟩ := by
  rcases hdue with hquiet | ⟨j, howes⟩
  · rcases R.disturb h hquiet with hquiet | howes
    · exact .inl hquiet
    · exact .inr ⟨i, by simpa using howes⟩
  · by_cases hj : j = i
    · subst hj
      rcases R.settle h howes with howes | hmore
      · exact .inr ⟨j, by simpa using howes⟩
      · omega
    · exact .inr ⟨j, by simpa [hj] using howes⟩

theorem Protocol.step_awake {move : Move ι ε η} (h : ∀ i, R.Awake w i)
    (hstep : P.step w move = some w') (j : ι) : R.Awake w' j := by
  have hj := h j
  cases move with
  | act i e =>
    rcases Program.step_act hstep with ⟨s, t, hact, rfl⟩
    have hmono := R.monotone hact
    -- A task that has been asleep all along keeps what it knew.
    have hold : R.asleep (w.tasks j) → R.noted (w.tasks j) = some (R.notified s) →
        R.Due ⟨s, Function.update w.tasks i t⟩ := by
      intro hasleep hnoted
      have hle := hj.noted _ hnoted
      have hsame : R.notified s = R.notified w.shared := by omega
      exact R.due_step hact hsame (hj.sleeps hasleep (by rw [hnoted, hsame]))
    by_cases hji : j = i
    · subst hji
      constructor
      · intro n hn
        simp only [Function.update_self] at hn
        rcases R.note hact hn with hbefore | hnow
        · exact Nat.le_trans (hj.noted n hbefore) hmono
        · exact hnow
      · intro hasleep hn
        simp only [Function.update_self] at hasleep hn
        rcases R.sleep hact hasleep with ⟨hbefore, hnote⟩ | hquiet
        · exact hold hbefore (hnote ▸ hn)
        · exact .inl hquiet
    · constructor
      · intro n hn
        simp only [Function.update_of_ne hji] at hn
        exact Nat.le_trans (hj.noted n hn) hmono
      · intro hasleep hn
        simp only [Function.update_of_ne hji] at hasleep hn
        exact hold hasleep hn
  | env x =>
    rcases Program.step_env hstep with ⟨s, henv, rfl⟩
    obtain ⟨hsame, hquiet⟩ := R.env henv
    constructor
    · intro n hn
      exact Nat.le_trans (hj.noted n hn) (Nat.le_of_eq hsame.symm)
    · intro hasleep hn
      rcases hj.sleeps hasleep (hn.trans (congrArg some hsame)) with hdue | hdue
      · exact .inl (hquiet hdue)
      · exact .inr hdue

theorem Protocol.reachable_awake {start : World ι σ τ}
    (hstart : ∀ i, R.noted (start.tasks i) = none)
    (h : (P.system start).Reachable w) (i : ι) : R.Awake w i := by
  have hall : ∀ i, R.Awake w i := by
    refine h.induction (P := fun w => ∀ i, R.Awake w i) ?_ ?_
    · intro i
      constructor
      · intro n hn
        cases (hstart i).symm.trans hn
      · intro _ hn
        cases (hstart i).symm.trans hn
    · intro _ _ _ _ hw hstep j
      exact R.step_awake hw hstep j
  exact hall i

end Wakeups
