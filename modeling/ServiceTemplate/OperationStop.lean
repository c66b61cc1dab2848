import Mathlib.Tactic.Common

/-! The context of an operation: a deadline and a cancellation token. A context that has stopped
stays stopped, so what may happen to it while a step lasts is joined to it. -/
namespace OperationStop

inductive Stopped where
  | deadline
  | cancelled
  deriving DecidableEq, Repr

/-- Both ways to stop last. -/
structure OperationContext where
  expired : Bool
  cancelled : Bool
  deriving DecidableEq

def OperationContext.stopped (context : OperationContext) : Option Stopped :=
  if context.expired then some .deadline
  else if context.cancelled then some .cancelled
  else none

def OperationContext.join (context other : OperationContext) : OperationContext :=
  ⟨context.expired || other.expired, context.cancelled || other.cancelled⟩

theorem OperationContext.stopped_none {context : OperationContext} :
    context.stopped = none ↔ context = ⟨false, false⟩ := by
  rcases context with ⟨expired, cancelled⟩
  cases expired <;> cases cancelled <;> simp [stopped]

/-- A context that has not stopped after a step had not stopped before it. -/
theorem OperationContext.stopped_join {context other : OperationContext}
    (h : (context.join other).stopped = none) : context.stopped = none := by
  rw [stopped_none] at h ⊢
  rcases context with ⟨expired, cancelled⟩
  cases expired <;> cases cancelled <;> simp_all [join]

end OperationStop
