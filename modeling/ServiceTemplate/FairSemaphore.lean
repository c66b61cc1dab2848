import Mathlib.Data.List.Basic

/-! A counting semaphore whose returned permits go to the waiter that has waited longest. Nobody
waits while a permit is free. -/
namespace FairSemaphore

structure Semaphore (ι : Type*) where
  free : ℕ
  queue : List ι
  idle : free = 0 ∨ queue = []

namespace Semaphore

variable {ι : Type*}

def ofPermits (permits : ℕ) : Semaphore ι := ⟨permits, [], .inr rfl⟩

def acquire (s : Semaphore ι) (i : ι) : Bool × Semaphore ι :=
  if h : s.free = 0 then (false, ⟨0, s.queue ++ [i], .inl rfl⟩)
  else (true, ⟨s.free - 1, s.queue, .inr (s.idle.resolve_left h)⟩)

/-- Returns a permit: the first waiter has it at once. -/
def release (s : Semaphore ι) : Option ι × Semaphore ι :=
  match h : s.queue with
  | [] => (none, ⟨s.free + 1, [], .inr rfl⟩)
  | i :: rest => (some i, ⟨s.free, rest, .inl (s.idle.resolve_right (by simp [h]))⟩)

def leave [DecidableEq ι] (s : Semaphore ι) (i : ι) : Semaphore ι :=
  ⟨s.free, s.queue.filter (· ≠ i), s.idle.imp_right fun h => by simp [h]⟩

variable {s t : Semaphore ι} {i j : ι}

theorem queue_nil (h : s.free ≠ 0) : s.queue = [] := s.idle.resolve_left h

theorem acquire_granted (h : s.acquire i = (true, t)) :
    s.free = t.free + 1 ∧ s.queue = [] ∧ t.queue = [] := by
  simp only [acquire] at h
  split at h
  · cases h
  · rename_i hfree
    cases h
    have hqueue := queue_nil hfree
    exact ⟨(Nat.succ_pred hfree).symm, hqueue, hqueue⟩

theorem acquire_queued (h : s.acquire i = (false, t)) :
    t.free = s.free ∧ t.queue = s.queue ++ [i] := by
  simp only [acquire] at h
  split at h
  · rename_i hfree
    cases h
    exact ⟨hfree.symm, rfl⟩
  · cases h

theorem release_none (h : s.release = (none, t)) :
    t.free = s.free + 1 ∧ s.queue = [] ∧ t.queue = [] := by
  simp only [release] at h
  split at h
  · rename_i hqueue
    cases h
    exact ⟨rfl, hqueue, rfl⟩
  · cases h

theorem release_some (h : s.release = (some j, t)) :
    t.free = s.free ∧ s.queue = j :: t.queue := by
  simp only [release] at h
  split at h
  · cases h
  · rename_i hqueue
    cases h
    exact ⟨rfl, hqueue⟩

@[simp] theorem leave_free [DecidableEq ι] (s : Semaphore ι) (i : ι) :
    (s.leave i).free = s.free := rfl

@[simp] theorem mem_leave [DecidableEq ι] (s : Semaphore ι) (i j : ι) :
    j ∈ (s.leave i).queue ↔ j ∈ s.queue ∧ j ≠ i := by
  simp [leave]

theorem leave_sublist [DecidableEq ι] (s : Semaphore ι) (i : ι) :
    (s.leave i).queue.Sublist s.queue := List.filter_sublist

end Semaphore

end FairSemaphore
