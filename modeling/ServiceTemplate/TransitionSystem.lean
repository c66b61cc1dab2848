import Mathlib.Data.List.Basic

/-! Executable labelled transition systems. An event that is not enabled has no
successor, so one step function serves both replay of a concrete trace and proofs
over every interleaving. Nondeterminism is carried by the events. -/
namespace TransitionSystem

structure System (σ ε : Type*) where
  initial : σ
  step : σ → ε → Option σ

variable {σ ε : Type*} {M : System σ ε}

namespace System

def run (M : System σ ε) (s : σ) : List ε → Option σ
  | [] => some s
  | e :: es => (M.step s e).bind fun t => M.run t es

def Execution (M : System σ ε) (s t : σ) : Prop := ∃ es, M.run s es = some t

def Reachable (M : System σ ε) (s : σ) : Prop := M.Execution M.initial s

@[simp] theorem run_nil (s : σ) : M.run s [] = some s := rfl

@[simp] theorem run_cons (s : σ) (e : ε) (es : List ε) :
    M.run s (e :: es) = (M.step s e).bind fun t => M.run t es := rfl

theorem run_append (s : σ) (xs ys : List ε) :
    M.run s (xs ++ ys) = (M.run s xs).bind fun t => M.run t ys := by
  induction xs generalizing s with
  | nil => rfl
  | cons e xs ih =>
    simp only [List.cons_append, run_cons, Option.bind_assoc]
    exact congrArg _ (funext fun t => ih t)

/-- The invariant rule along one run: what every step preserves, the run preserves. -/
theorem run_preserves {P : σ → Prop} (hstep : ∀ s e t, P s → M.step s e = some t → P t)
    {s t : σ} {es : List ε} (hs : P s) (h : M.run s es = some t) : P t := by
  induction es generalizing s with
  | nil =>
    rw [run_nil, Option.some.injEq] at h
    exact h ▸ hs
  | cons e es ih =>
    obtain ⟨u, hu, ht⟩ := Option.bind_eq_some_iff.mp h
    exact ih (hstep s e u hs hu) ht

theorem Execution.preserves {P : σ → Prop}
    (hstep : ∀ s e t, P s → M.step s e = some t → P t)
    {s t : σ} (h : M.Execution s t) (hs : P s) : P t := by
  obtain ⟨es, hrun⟩ := h
  exact run_preserves hstep hs hrun

theorem Execution.refl (s : σ) : M.Execution s s := ⟨[], rfl⟩

theorem Execution.trans {s t u : σ} (h : M.Execution s t) (k : M.Execution t u) :
    M.Execution s u := by
  obtain ⟨xs, hx⟩ := h
  obtain ⟨ys, hy⟩ := k
  exact ⟨xs ++ ys, by rw [run_append, hx]; exact hy⟩

theorem Execution.single {s t : σ} {e : ε} (h : M.step s e = some t) : M.Execution s t :=
  ⟨[e], by simp [h]⟩

theorem Execution.tail {s t u : σ} {e : ε} (h : M.Execution s t) (k : M.step t e = some u) :
    M.Execution s u := h.trans (.single k)

theorem reachable_initial : M.Reachable M.initial := Execution.refl _

theorem Reachable.tail {s t : σ} {e : ε} (h : M.Reachable s) (k : M.step s e = some t) :
    M.Reachable t := Execution.tail h k

theorem Reachable.after {s t : σ} (h : M.Reachable s) (k : M.Execution s t) :
    M.Reachable t := Execution.trans h k

theorem reachable_of_run {s : σ} {es : List ε} (h : M.run M.initial es = some s) :
    M.Reachable s := ⟨es, h⟩

/-- The invariant rule for reachable states. The step premise may use that the
source state is itself reachable, so an invariant can rest on earlier ones. -/
theorem Reachable.induction {P : σ → Prop} (hinit : P M.initial)
    (hstep : ∀ s e t, M.Reachable s → P s → M.step s e = some t → P t)
    {s : σ} (h : M.Reachable s) : P s := by
  refine (Execution.preserves (P := fun s => M.Reachable s ∧ P s) ?_ h
    ⟨reachable_initial, hinit⟩).2
  rintro s e t ⟨hr, hp⟩ hst
  exact ⟨hr.tail hst, hstep s e t hr hp hst⟩

/-- The runs whose every step is allowed in the state it starts from. -/
def restrict (M : System σ ε) (allowed : σ → ε → Bool) : System σ ε :=
  ⟨M.initial, fun s e => if allowed s e then M.step s e else none⟩

theorem restrict_step {allowed : σ → ε → Bool} {s t : σ} {e : ε}
    (h : (M.restrict allowed).step s e = some t) : allowed s e = true ∧ M.step s e = some t := by
  by_cases hallowed : allowed s e = true
  · exact ⟨hallowed, by simpa [restrict, hallowed] using h⟩
  · simp [restrict, hallowed] at h

theorem Reachable.unrestrict {allowed : σ → ε → Bool} {s : σ}
    (h : (M.restrict allowed).Reachable s) : M.Reachable s := by
  refine Reachable.induction (M := M.restrict allowed) (P := M.Reachable) reachable_initial ?_ h
  intro s e t _ hs hstep
  exact hs.tail (restrict_step hstep).2

theorem restrict_of_step {allowed : σ → ε → Bool} {s t : σ} {e : ε} (h : allowed s e = true)
    (hstep : M.step s e = some t) : (M.restrict allowed).step s e = some t := by
  simpa [restrict, h] using hstep

/-- A wider restriction needs to be wider in reachable states only. -/
theorem Reachable.widen {allowed wider : σ → ε → Bool} {s : σ}
    (hwider : ∀ s e, M.Reachable s → allowed s e = true → wider s e = true)
    (h : (M.restrict allowed).Reachable s) : (M.restrict wider).Reachable s := by
  refine Reachable.induction (M := M.restrict allowed) (P := (M.restrict wider).Reachable)
    reachable_initial ?_ h
  intro s e t hr hs hstep
  obtain ⟨hallowed, hstep⟩ := restrict_step hstep
  exact hs.tail (restrict_of_step (hwider s e hr.unrestrict hallowed) hstep)

end System

end TransitionSystem
