import ServiceTemplate.TransitionSystem
import Mathlib.Logic.Function.Basic

/-! Tasks that interleave over a shared state. A task's move reads and writes the shared state and
its own place only, so what one task knows has to survive the moves of the others: each task
states what it guarantees, and every other one relies on that. -/
namespace SharedState

open TransitionSystem

structure World (ι σ τ : Type*) where
  shared : σ
  tasks : ι → τ

/-- `act` is one move of a task, `env` a move of the world around the tasks. -/
structure Program (ι σ τ ε η : Type*) where
  act : ι → σ → τ → ε → Option (σ × τ)
  env : σ → η → Option σ

inductive Move (ι ε η : Type*) where
  | act (i : ι) (e : ε)
  | env (x : η)
  deriving DecidableEq

variable {ι σ τ ε η : Type*} [DecidableEq ι]

def Program.step (P : Program ι σ τ ε η) (w : World ι σ τ) : Move ι ε η → Option (World ι σ τ)
  | .act i e => (P.act i w.shared (w.tasks i) e).map fun out =>
      ⟨out.1, Function.update w.tasks i out.2⟩
  | .env x => (P.env w.shared x).map fun shared => ⟨shared, w.tasks⟩

def Program.system (P : Program ι σ τ ε η) (start : World ι σ τ) :
    System (World ι σ τ) (Move ι ε η) := ⟨start, P.step⟩

variable {P : Program ι σ τ ε η} {start w w' : World ι σ τ}

theorem Program.step_act {i : ι} {e : ε} (h : P.step w (.act i e) = some w') :
    ∃ shared task, P.act i w.shared (w.tasks i) e = some (shared, task) ∧
      w' = ⟨shared, Function.update w.tasks i task⟩ := by
  rcases Option.map_eq_some_iff.mp h with ⟨⟨shared, task⟩, hact, heq⟩
  exact ⟨shared, task, hact, heq.symm⟩

theorem Program.step_env {x : η} (h : P.step w (.env x) = some w') :
    ∃ shared, P.env w.shared x = some shared ∧ w' = ⟨shared, w.tasks⟩ := by
  rcases Option.map_eq_some_iff.mp h with ⟨shared, henv, heq⟩
  exact ⟨shared, henv, heq.symm⟩

/-- An invariant of the shared state, what each task knows of it, and how a move of one task may
change it for the others. -/
structure Proof (P : Program ι σ τ ε η) where
  inv : σ → Prop
  knows : ι → σ → τ → Prop
  guarantee : ι → σ → σ → Prop
  act_sound : ∀ {i s t e s' t'}, inv s → knows i s t → P.act i s t e = some (s', t') →
    inv s' ∧ knows i s' t' ∧ guarantee i s s'
  act_stable : ∀ {i j s s' t}, j ≠ i → guarantee i s s' → knows j s t → knows j s' t
  env_sound : ∀ {s x s'}, inv s → P.env s x = some s' →
    inv s' ∧ ∀ i t, knows i s t → knows i s' t

structure Proof.Holds (R : Proof P) (w : World ι σ τ) : Prop where
  inv : R.inv w.shared
  knows : ∀ i, R.knows i w.shared (w.tasks i)

theorem Proof.step_holds (R : Proof P) {move : Move ι ε η} (h : R.Holds w)
    (hstep : P.step w move = some w') : R.Holds w' := by
  cases move with
  | act i e =>
    rcases Program.step_act hstep with ⟨shared, task, hact, rfl⟩
    rcases R.act_sound h.inv (h.knows i) hact with ⟨hinv, hknows, hguarantee⟩
    refine ⟨hinv, fun j => ?_⟩
    by_cases hj : j = i
    · subst hj
      simpa using hknows
    · simpa [hj] using R.act_stable hj hguarantee (h.knows j)
  | env x =>
    rcases Program.step_env hstep with ⟨shared, henv, rfl⟩
    rcases R.env_sound h.inv henv with ⟨hinv, hstable⟩
    exact ⟨hinv, fun i => hstable i _ (h.knows i)⟩

theorem Proof.reachable_holds (R : Proof P) (hstart : R.Holds start)
    (h : (P.system start).Reachable w) : R.Holds w :=
  h.induction (P := R.Holds) hstart fun _ _ _ _ hw hstep => R.step_holds hw hstep

end SharedState
