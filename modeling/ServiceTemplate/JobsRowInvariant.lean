import ServiceTemplate.JobsSystem

/-! The row invariant of `background_jobs`: the CHECK constraints, the attempt budget and
the failure history of the current recovery cycle. -/
namespace JobsRowInvariant

open TransitionSystem
open JobsTable
open JobsLedger
open JobsSystem

def upTo (n : ℤ) : List ℤ := (List.range n.toNat).map fun i => (i : ℤ) + 1

theorem up_to_succ {n : ℤ} (h : 0 ≤ n) : upTo (n + 1) = upTo n ++ [n + 1] := by
  have hnat : (n + 1).toNat = n.toNat + 1 := by omega
  have hcast : (n.toNat : ℤ) = n := Int.toNat_of_nonneg h
  simp [upTo, hnat, List.range_succ, hcast]

/-- Attempts with a failure entry: all of them once the row waits or failed, all but the
current one while it runs or after it completed. -/
def recordedAttempts (row : Row) : ℤ :=
  if row.state = .pending ∨ row.state = .failed then row.attempts else row.attempts - 1

structure RowInvariant (row : Row) : Prop where
  claim : row.claimExpiresAt.isSome = true ↔ row.state = .running
  reason : row.failureReason.isSome = true ↔ row.state = .failed
  finished : row.finishedAt.isSome = true ↔ row.state = .completed ∨ row.state = .failed
  lower : 0 ≤ row.attempts
  upper : row.attempts ≤ maxAttempts
  spent : row.state = .running ∨ row.state = .completed → 1 ≤ row.attempts
  errors : row.errors.map ErrorEntry.attempt = upTo (recordedAttempts row)

theorem new_job_invariant (job : NewJob) (now : Time) : RowInvariant (job.row now) := by
  constructor <;> simp [NewJob.row, recordedAttempts, upTo]

theorem lease_expired_running {row : Row} {now : Time} (h : row.leaseExpiredAt now = true) :
    row.state = .running := by
  simp only [Row.leaseExpiredAt, Bool.and_eq_true, decide_eq_true_eq] at h
  exact h.1

/-- The rescue branch records the attempt the lost worker never recorded. -/
theorem claim_errors {row : Row} (h : RowInvariant row) {policy : Policy} {worker : WorkerId}
    {now : Time} {g : ℕ} (hdue : row.dueAt now = true ∨ row.leaseExpiredAt now = true) :
    (row.claim policy worker now g).errors.map ErrorEntry.attempt = upTo row.attempts := by
  have herrors := h.errors
  by_cases hrescued : row.leaseExpiredAt now = true
  · have hrunning := lease_expired_running hrescued
    have hspent := h.spent (.inl hrunning)
    have hsucc := up_to_succ (n := row.attempts - 1) (by omega)
    simp only [recordedAttempts, hrunning, reduceCtorEq, or_self, if_false] at herrors
    simp only [Row.claim, hrescued, if_true, List.map_append, herrors, List.map_cons, List.map_nil]
    rw [← Int.sub_add_cancel row.attempts 1, hsucc]
    simp
  · have hpending : row.state = .pending := by
      rcases hdue with hdue | hdue
      · simp only [Row.dueAt, Bool.and_eq_true, decide_eq_true_eq] at hdue
        exact hdue.1
      · exact absurd hdue hrescued
    simp only [recordedAttempts, hpending, true_or, if_true] at herrors
    simp only [Row.claim, hrescued, Bool.false_eq_true, if_false, herrors]

theorem claim_invariant {row : Row} (h : RowInvariant row) {policy : Policy} {worker : WorkerId}
    {now : Time} {g : ℕ} (hdue : row.dueAt now = true ∨ row.leaseExpiredAt now = true)
    (hbudget : 1 ≤ policy.maxAttempts ∧ policy.maxAttempts ≤ maxAttempts) :
    RowInvariant (row.claim policy worker now g) := by
  have hlower := h.lower
  have hupper := h.upper
  have herrors : (row.claim policy worker now g).errors.map ErrorEntry.attempt =
      upTo row.attempts := claim_errors h hdue
  by_cases hex : (policy.maxAttempts : ℤ) ≤ row.attempts
  · have hstate : (row.claim policy worker now g).state = .failed := by simp [Row.claim, hex]
    have hattempts : (row.claim policy worker now g).attempts = row.attempts := by
      simp [Row.claim, hex]
    refine ⟨?_, ?_, ?_, ?_, ?_, ?_, ?_⟩
    · simp [Row.claim, hex]
    · simp [Row.claim, hex]
    · simp [Row.claim, hex]
    · omega
    · omega
    · simp [hstate]
    · simp [herrors, recordedAttempts, hstate, hattempts]
  · have hstate : (row.claim policy worker now g).state = .running := by simp [Row.claim, hex]
    have hattempts : (row.claim policy worker now g).attempts = row.attempts + 1 := by
      simp [Row.claim, hex]
    refine ⟨?_, ?_, ?_, ?_, ?_, ?_, ?_⟩
    · simp [Row.claim, hex]
    · simp [Row.claim, hex]
    · simp [Row.claim, hex]
    · omega
    · omega
    · omega
    · simp [herrors, recordedAttempts, hstate, hattempts]

/-- A failure entry closes the running attempt. -/
theorem failure_entry {row : Row} (h : RowInvariant row) (hrunning : row.state = .running)
    (now : Time) (summary : String) :
    (row.errors ++ [(⟨row.attempts, now, summary⟩ : ErrorEntry)]).map ErrorEntry.attempt =
      upTo row.attempts := by
  have herrors := h.errors
  have hspent := h.spent (.inl hrunning)
  have hsucc := up_to_succ (n := row.attempts - 1) (by omega)
  rw [Int.sub_add_cancel] at hsucc
  simp only [recordedAttempts, hrunning, reduceCtorEq, or_self, if_false] at herrors
  simp [herrors, hsucc]

theorem execute_invariant {row : Row} (h : RowInvariant row) (hrunning : row.state = .running)
    (now : Time) (transition : Transition) : RowInvariant (row.execute now transition) := by
  have hlower := h.lower
  have hupper := h.upper
  have hspent := h.spent (.inl hrunning)
  have hreason : row.failureReason = none := by
    simpa [hrunning] using h.reason
  have hfinished : row.finishedAt = none := by
    simpa [hrunning] using h.finished
  have herrors := h.errors
  simp only [recordedAttempts, hrunning, reduceCtorEq, or_self, if_false] at herrors
  cases transition with
  | complete =>
    constructor <;> simp [Row.execute, hreason, hlower, hupper, hspent, recordedAttempts, herrors]
  | retry summary backoff floor =>
    have hentry := failure_entry h hrunning now summary
    constructor <;> simp_all [Row.execute, recordedAttempts]
  | snooze delay =>
    constructor <;> simp [Row.execute, hreason, hfinished, recordedAttempts, herrors] <;> omega
  | release =>
    constructor <;> simp [Row.execute, hreason, hfinished, recordedAttempts, herrors] <;> omega
  | fail reason summary =>
    have hentry := failure_entry h hrunning now summary
    constructor <;> simp_all [Row.execute, recordedAttempts]

theorem redrive_invariant (row : Row) (now : Time) (g : ℕ) : RowInvariant (row.redrive now g) := by
  constructor <;> simp [Row.redrive, recordedAttempts, upTo]

theorem RowInvariant.fenced_running {row : Row} (h : RowInvariant row) {g : ℕ}
    (hfenced : row.fencedBy g = true) : row.state = .running :=
  h.claim.mp (Row.fenced hfenced).2

theorem legal_log_rows {log : List Change} (h : LegalLog log) :
    ∀ row ∈ replay log, RowInvariant row := by
  induction h with
  | nil => simp [replay]
  | @snoc log c hlog hc ih =>
    intro row hrow
    rcases (hc.mem_replay (legal_log_identified hlog)).mp hrow with ⟨hold, -⟩ | hnew
    · exact ih row hold
    · cases hc with
      | enqueued =>
        cases hnew
        exact new_job_invariant _ _
      | claimed hmem hdue hbudget =>
        cases hnew
        exact claim_invariant (ih _ hmem) hdue hbudget
      | outcome hmem hfenced =>
        cases hnew
        exact execute_invariant (ih _ hmem) ((ih _ hmem).fenced_running hfenced) _ _
      | redriven =>
        cases hnew
        exact redrive_invariant _ _ _
      | discarded | retired => cases hnew

/-- A removal entry takes a completed row in retention or a failed row in a discard. -/
def Removal (c : Change) : Prop :=
  ∃ row, c.before = some row ∧ row.id = c.id ∧ c.after = none ∧
    ((row.state = .completed ∧ ∃ now, c.cause = .retired now) ∨
      (row.state = .failed ∧ ∃ target, c.cause = .discarded target))

theorem legal_removal {log : List Change} {c : Change} (h : Legal log c) (hafter : c.after = none) :
    Removal c := by
  cases h with
  | @discarded row target hrow hid hlocked =>
    exact ⟨row, rfl, rfl, rfl, .inr ⟨(lock_failed_ok hlocked).2.2.1, target, rfl⟩⟩
  | @retired row now hrow hdue =>
    simp only [Row.retentionDue, Bool.and_eq_true, decide_eq_true_eq] at hdue
    exact ⟨row, rfl, rfl, rfl, .inl ⟨hdue.1, now, rfl⟩⟩
  | enqueued | claimed | outcome | redriven => cases hafter

/-- A row stays, perhaps changed, until a removal entry of its id. -/
theorem leaves_by_removal {log ws : List Change} (h : LegalLog (log ++ ws)) {row : Row}
    (hrow : row ∈ replay log) :
    (∃ r ∈ replay (log ++ ws), r.id = row.id) ∨ ∃ c ∈ ws, c.id = row.id ∧ Removal c := by
  suffices hgoal : (∃ r ∈ replay (log ++ ws), r.id = row.id) ∨
      ∃ vs, log ++ ws = log ++ vs ∧ ∃ c ∈ vs, c.id = row.id ∧ Removal c by
    rcases hgoal with hstays | ⟨vs, heq, hleft⟩
    · exact .inl hstays
    · exact .inr (List.append_cancel_left heq ▸ hleft)
  refine h.extend (P := fun l => (∃ r ∈ replay l, r.id = row.id) ∨
    ∃ vs, l = log ++ vs ∧ ∃ c ∈ vs, c.id = row.id ∧ Removal c) (.inl ⟨row, hrow, rfl⟩) ?_
  rintro l c hl hc ⟨us, rfl⟩ (⟨r, hr, hid⟩ | ⟨vs, heq, d, hd, hleft⟩)
  · have hi := legal_log_identified hl
    by_cases hcid : c.id = row.id
    · cases hafter : c.after with
      | none =>
        exact .inr ⟨us ++ [c], by simp, c, by simp, hcid, legal_removal hc hafter⟩
      | some next =>
        exact .inl ⟨next, (hc.mem_replay hi).mpr (.inr hafter),
          (hc.after_id next hafter).trans hcid⟩
    · exact .inl ⟨r, (hc.mem_replay hi).mpr
        (.inl ⟨hr, fun heq => hcid (heq.symm.trans hid)⟩), hid⟩
  · exact .inr ⟨vs ++ [c], by rw [heq, List.append_assoc], d, by simp [hd], hleft⟩

/-- In every reachable state each row meets the invariant, and a step makes a row leave only
through a removal entry it adds to the ledger. -/
theorem job_row_invariant {s : State} (h : jobs.Reachable s) :
    (∀ row ∈ s.rows, RowInvariant row) ∧
      ∀ e t, step s e = some t → ∃ ws, t.log = s.log ++ ws ∧
        ∀ row ∈ s.rows, (∀ r ∈ t.rows, r.id ≠ row.id) → ∃ c ∈ ws, c.id = row.id ∧ Removal c := by
  have hc := reachable_coupled h
  refine ⟨?_, ?_⟩
  · rw [hc.rows]
    exact legal_log_rows hc.legal
  · intro e t hstep
    have ht := step_coupled hc hstep
    rcases step_extends hstep with ⟨ws, hws⟩
    refine ⟨ws, hws.symm, ?_⟩
    intro row hrow hgone
    rw [hc.rows] at hrow
    rw [ht.rows, ← hws] at hgone
    rcases leaves_by_removal (hws ▸ ht.legal) hrow with ⟨r, hr, hid⟩ | hleft
    · exact absurd hid (hgone r hr)
    · exact hleft

def mailRegistry : Registry := ⟨[⟨"mail", ⟨2, 1000000, none⟩⟩], by decide⟩

/-- The first attempt loses its lease, the second is retried, and the third claim finds the
budget spent. -/
def exhaustedTrace : List Event :=
  [.enqueue ⟨1, "mail", "null", none, 0, none, none⟩ 0,
    .claim mailRegistry (fun _ => 0) 4 9 0 [] [1],
    .claim mailRegistry (fun _ => 0) 4 9 61000000 [] [1],
    .outcome 1 1 .complete 61000000,
    .outcome 1 2 (.retry "boom" 16000000 0) 62000000,
    .claim mailRegistry (fun _ => 0) 4 9 80000000 [] [1]]

theorem job_row_invariant_exhausted : ∃ s, jobs.run initial exhaustedTrace = some s ∧
    s.rows.map (fun row => (row.state, row.attempts, row.errors.map ErrorEntry.attempt)) =
      [(.failed, 2, [1, 2])] ∧ ∀ row ∈ s.rows, RowInvariant row := by
  have hrun : ∃ s, jobs.run initial exhaustedTrace = some s ∧
      s.rows.map (fun row => (row.state, row.attempts, row.errors.map ErrorEntry.attempt)) =
        [(.failed, 2, [1, 2])] := ⟨_, rfl, by decide⟩
  rcases hrun with ⟨s, hs, hrows⟩
  exact ⟨s, hs, hrows, (job_row_invariant (System.reachable_of_run hs)).1⟩

end JobsRowInvariant
