import ServiceTemplate.JobsRowInvariant

/-! Operator recovery: version-fenced redrive and discard of failed jobs.
A recovery takes effect at the commit of its transaction. The ledger keeps the failed row
it closed, so the archived history can be compared with it. -/
namespace JobsOperator

open TransitionSystem
open JobsTable
open JobsLedger
open JobsSystem
open JobsRowInvariant

def recoveryTarget (c : Change) : Option RecoveryTarget :=
  match c.cause with
  | .redriven target _ | .discarded target => some target
  | _ => none

/-- The failed cycles that a committed redrive or discard closed. -/
def recoveries (log : List Change) : List (JobId × ℕ) :=
  log.filterMap fun c => (recoveryTarget c).map fun target => (target.id, target.version)

/-- The entry a redrive of job `id` archives. -/
def closedCycle (id : JobId) (c : Change) : Option CycleEntry :=
  match c.cause, c.before with
  | .redriven _ now, some row => if c.id = id then some (row.cycleEntry now) else none
  | _, _ => none

def closedCycles (id : JobId) (log : List Change) : List CycleEntry :=
  log.filterMap (closedCycle id)

structure Closed (log : List Change) (id : JobId) (version : ℕ) : Prop where
  created : id ∈ created log
  issued : version ∈ drawn log
  left : ∀ row ∈ replay log, row.id = id → row.claimGeneration ≠ version

theorem after_generation {log : List Change} {c : Change} (hc : Legal log c) {row : Row}
    (hafter : c.after = some row) :
    (c.before = none ∧ c.id ∉ created log ∧ row.claimGeneration = 0) ∨
      row.claimGeneration ∉ drawn log ∨
        ∃ before ∈ replay log, before.id = c.id ∧ row.claimGeneration = before.claimGeneration := by
  cases hc with
  | enqueued hfresh =>
    cases hafter
    exact .inl ⟨rfl, hfresh, rfl⟩
  | claimed hrow hdue hbudget hfresh =>
    cases hafter
    exact .inr (.inl hfresh)
  | outcome hrow =>
    cases hafter
    exact .inr (.inr ⟨_, hrow, rfl, execute_generation _ _ _⟩)
  | redriven hrow hid hlocked hfresh =>
    cases hafter
    exact .inr (.inl hfresh)
  | discarded | retired => cases hafter

theorem Closed.step {log : List Change} {id : JobId} {version : ℕ} (h : Closed log id version)
    (hlog : LegalLog log) {c : Change} (hc : Legal log c) : Closed (log ++ [c]) id version := by
  refine ⟨by simp [h.created], by simp [h.issued], ?_⟩
  intro row hrow hid
  rcases (hc.mem_replay (legal_log_identified hlog)).mp hrow with ⟨hold, -⟩ | hnew
  · exact h.left row hold hid
  · have hcid := (hc.after_id row hnew).symm.trans hid
    rcases after_generation hc hnew with ⟨-, hfresh, -⟩ | hfresh | ⟨before, hmem, hbid, hgen⟩
    · exact absurd (hcid ▸ h.created) hfresh
    · exact fun heq => hfresh (heq ▸ h.issued)
    · rw [hgen]
      exact h.left before hmem (hbid.trans hcid)

/-- A committed recovery replaces or removes exactly the failed row of its target. -/
theorem recovery_before {log : List Change} {c : Change} (hc : Legal log c)
    {target : RecoveryTarget} (htarget : recoveryTarget c = some target) :
    ∃ row ∈ replay log, c.before = some row ∧ c.id = target.id ∧ row.id = target.id ∧
      row.kind = target.kind ∧ row.claimGeneration = target.version ∧ row.state = .failed := by
  cases hc with
  | @redriven row _ now g hrow hid hlocked =>
    cases htarget
    rcases lock_failed_ok hlocked with ⟨-, hkind, hfailed, hversion⟩
    exact ⟨row, hrow, rfl, hid, hid, hkind, hversion, hfailed⟩
  | @discarded row _ hrow hid hlocked =>
    cases htarget
    rcases lock_failed_ok hlocked with ⟨-, hkind, hfailed, hversion⟩
    exact ⟨row, hrow, rfl, hid, hid, hkind, hversion, hfailed⟩
  | enqueued | claimed | outcome | retired => cases htarget

theorem recovery_closes {log : List Change} (hlog : LegalLog log) {c : Change} (hc : Legal log c)
    {target : RecoveryTarget} (htarget : recoveryTarget c = some target) :
    Closed (log ++ [c]) target.id target.version := by
  rcases recovery_before hc htarget with ⟨row, hrow, hbefore, hcid, hid, -, hversion, hfailed⟩
  have hi := legal_log_identified hlog
  have hissued := (legal_log_generated hlog).settled row hrow (.inl (by simp [hfailed]))
  rw [hversion] at hissued
  refine ⟨by simp [← hid, hi.created row hrow], by simp [hissued], ?_⟩
  intro r hr hrid
  rcases (hc.mem_replay hi).mp hr with ⟨-, hne⟩ | hnew
  · exact absurd (hrid.trans hcid.symm) hne
  · cases hc with
    | @redriven row _ now g hrow hid hlocked hfresh =>
      cases hnew
      intro heq
      have hg : g = target.version := heq
      exact hfresh (hg ▸ hissued)
    | discarded => cases hnew
    | enqueued | claimed | outcome | retired => cases htarget

structure RecoveredOnce (log : List Change) : Prop where
  nodup : (recoveries log).Nodup
  closed : ∀ k ∈ recoveries log, Closed log k.1 k.2

theorem legal_log_recovered_once {log : List Change} (h : LegalLog log) : RecoveredOnce log := by
  induction h with
  | nil => exact ⟨List.nodup_nil, by simp [recoveries]⟩
  | @snoc log c hlog hc ih =>
    cases htarget : recoveryTarget c with
    | none =>
      have hsame : recoveries (log ++ [c]) = recoveries log := by simp [recoveries, htarget]
      refine ⟨hsame ▸ ih.nodup, ?_⟩
      intro k hk
      rw [hsame] at hk
      exact (ih.closed k hk).step hlog hc
    | some target =>
      have hnew : recoveries (log ++ [c]) = recoveries log ++ [(target.id, target.version)] := by
        simp [recoveries, htarget]
      refine ⟨?_, ?_⟩
      · rw [hnew]
        apply List.nodup_append.mpr
        refine ⟨ih.nodup, List.nodup_singleton _, ?_⟩
        rintro k hk b hb rfl
        cases List.mem_singleton.mp hb
        rcases recovery_before hc htarget with ⟨row, hrow, -, -, hid, -, hversion, -⟩
        exact (ih.closed _ hk).left row hrow hid hversion
      · intro k hk
        rw [hnew, List.mem_append, List.mem_singleton] at hk
        rcases hk with hk | rfl
        · exact (ih.closed k hk).step hlog hc
        · exact recovery_closes hlog hc htarget

/-- The archived history is one entry per committed redrive, in order, with growing versions
that all lie before the current cycle. -/
structure Archived (log : List Change) (row : Row) : Prop where
  cycles : row.recoveryHistory = closedCycles row.id log
  increasing : (row.recoveryHistory.map CycleEntry.version).Pairwise (· < ·)
  earlier : ∀ entry ∈ row.recoveryHistory, entry.version < row.claimGeneration

theorem execute_history (row : Row) (now : Time) (transition : Transition) :
    (row.execute now transition).recoveryHistory = row.recoveryHistory := by
  cases transition <;> rfl

theorem closed_cycles_snoc (id : JobId) (log : List Change) (c : Change) :
    closedCycles id (log ++ [c]) = closedCycles id log ++ (closedCycle id c).toList :=
  filter_map_snoc (closedCycle id) log c

theorem closed_cycle_other {id : JobId} {c : Change} (h : c.id ≠ id) : closedCycle id c = none := by
  simp only [closedCycle]
  split <;> simp [h]

theorem closed_cycles_fresh {log : List Change} (hlog : LegalLog log) {id : JobId}
    (hfresh : id ∉ created log) : closedCycles id log = [] := by
  induction hlog with
  | nil => rfl
  | @snoc log c hlog hc ih =>
    rw [created_snoc, List.mem_append, not_or] at hfresh
    rw [closed_cycles_snoc, ih hfresh.1]
    cases hb : closedCycle id c with
    | none => rfl
    | some entry =>
      by_cases hid : c.id = id
      · cases hc with
        | redriven hrow =>
          subst hid
          exact absurd ((legal_log_identified hlog).created _ hrow) hfresh.1
        | enqueued | claimed | outcome | discarded | retired => cases hb
      · rw [closed_cycle_other hid] at hb
        cases hb

theorem legal_log_archived {log : List Change} (h : LegalLog log) :
    ∀ row ∈ replay log, Archived log row := by
  induction h with
  | nil => simp [replay]
  | @snoc log c hlog hc ih =>
    intro row hrow
    have hi := legal_log_identified hlog
    rcases (hc.mem_replay hi).mp hrow with ⟨hold, hne⟩ | hnew
    · have ha := ih row hold
      refine ⟨?_, ha.increasing, ha.earlier⟩
      rw [closed_cycles_snoc, closed_cycle_other (Ne.symm hne)]
      simpa using ha.cycles
    · cases hc with
      | enqueued hfresh =>
        cases hnew
        refine ⟨?_, by simp [NewJob.row], by simp [NewJob.row]⟩
        rw [closed_cycles_snoc]
        simp [NewJob.row, closedCycle, closed_cycles_fresh hlog hfresh]
      | claimed hmem hdue hbudget hfresh hlater =>
        cases hnew
        have ha := ih _ hmem
        refine ⟨?_, ha.increasing, ?_⟩
        · rw [closed_cycles_snoc]
          simpa [closedCycle, Row.claim] using ha.cycles
        · intro entry hentry
          exact Nat.lt_trans (ha.earlier entry hentry) hlater
      | outcome hmem =>
        cases hnew
        have ha := ih _ hmem
        refine ⟨?_, ?_, ?_⟩
        · rw [closed_cycles_snoc, execute_history, execute_id]
          simpa [closedCycle] using ha.cycles
        · rw [execute_history]
          exact ha.increasing
        · rw [execute_history, execute_generation]
          exact ha.earlier
      | @redriven before target now g hmem hid hlocked hfresh hlater =>
        cases hnew
        have ha := ih before hmem
        refine ⟨?_, ?_, ?_⟩
        · rw [closed_cycles_snoc]
          simp [closedCycle, Row.redrive, ha.cycles]
        · simp only [Row.redrive, List.map_append, List.map_cons, List.map_nil]
          refine List.pairwise_append.mpr ⟨ha.increasing, List.pairwise_singleton _ _, ?_⟩
          intro v hv w hw
          cases List.mem_singleton.mp hw
          rcases List.mem_map.mp hv with ⟨entry, hentry, rfl⟩
          exact ha.earlier entry hentry
        · intro entry hentry
          rcases List.mem_append.mp hentry with hentry | hentry
          · exact Nat.lt_trans (ha.earlier entry hentry) hlater
          · cases List.mem_singleton.mp hentry
            exact hlater
      | discarded | retired => cases hnew

/-- A call on a closed cycle is refused as missing or stale. -/
theorem closed_refused {s : State} (hc : Coupled s) {target : RecoveryTarget}
    (h : Closed s.log target.id target.version) {x : TxId} {tx : Tx} (htx : s.txs x = some tx)
    {found row : Row} (hview : s.view tx target.id = some found) :
    lockFailed (some found) target ≠ .ok row := by
  intro hok
  rcases lock_failed_ok hok with ⟨hfound, -, hfailed, hversion⟩
  cases hfound
  rcases hc.view_committed htx hview (.inl hfailed) with ⟨hmem, hid, -⟩
  exact h.left found hmem hid hversion

theorem lock_failed_error {row : Option Row} {target : RecoveryTarget} {error : OperatorError}
    (h : lockFailed row target = .error error) : error = .missing ∨ error = .stale := by
  simp only [lockFailed] at h
  repeat' split at h
  all_goals cases h
  · exact .inl rfl
  · exact .inr rfl

theorem redrive_closed_refused {s t : State} (hc : Coupled s) {target : RecoveryTarget}
    (h : Closed s.log target.id target.version) {x : TxId} {now : Time}
    (hop : redrive s x target now = some t) : t.rows = s.rows ∧
      ∃ error, (error = .missing ∨ error = .stale) ∧
        t.calls = s.calls ++ [⟨x, .redrive target, .refused error⟩] := by
  simp only [redrive] at hop
  split at hop
  · cases hop
  next tx htx =>
  split at hop
  · cases hop
  split at hop
  · cases hop
    exact ⟨rfl, _, .inl rfl, rfl⟩
  next found hview =>
  split at hop
  · next error herror =>
    cases hop
    exact ⟨rfl, error, lock_failed_error herror, rfl⟩
  · next row hok => exact absurd hok (closed_refused hc h htx hview)

theorem discard_closed_refused {s t : State} (hc : Coupled s) {target : RecoveryTarget}
    (h : Closed s.log target.id target.version) {x : TxId}
    (hop : JobsSystem.discard s x target = some t) : t.rows = s.rows ∧
      ∃ error, (error = .missing ∨ error = .stale) ∧
        t.calls = s.calls ++ [⟨x, .discard target, .refused error⟩] := by
  simp only [JobsSystem.discard] at hop
  split at hop
  · cases hop
  next tx htx =>
  split at hop
  · cases hop
  split at hop
  · cases hop
    exact ⟨rfl, _, .inl rfl, rfl⟩
  next found hview =>
  split at hop
  · next error herror =>
    cases hop
    exact ⟨rfl, error, lock_failed_error herror, rfl⟩
  · next row hok => exact absurd hok (closed_refused hc h htx hview)

theorem commit_log {s t : State} {x : TxId} (hop : commit s x = some t) :
    ∃ tx, s.txs x = some tx ∧ t.log = s.log ++ tx.writes := by
  simp only [commit] at hop
  split at hop
  · cases hop
  next tx htx =>
  split at hop
  · cases hop
  · cases hop
    exact ⟨tx, htx, rfl⟩

/-- Committed recoveries are fenced by id, kind and version, close each cycle once, start a
fresh cycle, and leave an exact history. -/
theorem operator_recovery {s : State} (h : jobs.Reachable s) :
    s.rows = replay s.log ∧
    (∀ x t, step s (.commit x) = some t →
      ∃ tx, s.txs x = some tx ∧ t.log = s.log ++ tx.writes ∧ t.rows = replay t.log) ∧
    (∀ l₁ c l₂ target, s.log = l₁ ++ c :: l₂ → recoveryTarget c = some target →
      (∃ row ∈ replay l₁, c.before = some row ∧ row.id = target.id ∧ row.kind = target.kind ∧
        row.claimGeneration = target.version ∧ row.state = .failed) ∧
      (∀ r, r ∈ replay (l₁ ++ [c]) ↔ (r ∈ replay l₁ ∧ r.id ≠ target.id) ∨ c.after = some r) ∧
      ∀ r, c.after = some r → r.id = target.id ∧ r.state = .pending ∧ r.attempts = 0 ∧
        r.errors = [] ∧ (∀ d ∈ l₁, d.draw ≠ some r.claimGeneration) ∧
        ∀ r' ∈ replay l₁, r'.claimGeneration ≠ r.claimGeneration) ∧
    (recoveries s.log).Nodup ∧
    (∀ target, (target.id, target.version) ∈ recoveries s.log → ∀ x t,
      (∀ now, step s (.redrive x target now) = some t → t.rows = s.rows ∧
        ∃ error, (error = .missing ∨ error = .stale) ∧
          t.calls = s.calls ++ [⟨x, .redrive target, .refused error⟩]) ∧
      (step s (.discard x target) = some t → t.rows = s.rows ∧
        ∃ error, (error = .missing ∨ error = .stale) ∧
          t.calls = s.calls ++ [⟨x, .discard target, .refused error⟩])) ∧
    ∀ row ∈ s.rows, row.recoveryHistory = closedCycles row.id s.log ∧
      (row.recoveryHistory.map CycleEntry.version).Pairwise (· < ·) := by
  have hc := reachable_coupled h
  have honce := legal_log_recovered_once hc.legal
  refine ⟨hc.rows, ?_, ?_, honce.nodup, ?_, ?_⟩
  · intro x t hstep
    rcases commit_log hstep with ⟨tx, htx, hlog⟩
    exact ⟨tx, htx, hlog, (step_coupled hc hstep).rows⟩
  · intro l₁ c l₂ target hsplit htarget
    have hlog : LegalLog ((l₁ ++ [c]) ++ l₂) := by simpa [← hsplit] using hc.legal
    rcases hlog.of_append.last with ⟨hl, hlegal⟩
    rcases recovery_before hlegal htarget with
      ⟨row, hrow, hbefore, hcid, hid, hkind, hversion, hfailed⟩
    refine ⟨⟨row, hrow, hbefore, hid, hkind, hversion, hfailed⟩, ?_, ?_⟩
    · intro r
      rw [← hcid]
      exact hlegal.mem_replay (legal_log_identified hl)
    · intro r hafter
      cases hlegal with
      | @redriven before _ now g hmem hbid hlocked hfresh hlater =>
        cases hafter
        refine ⟨hcid, rfl, rfl, rfl, ?_, ?_⟩
        · intro d hd hdraw
          exact hfresh (List.mem_filterMap.mpr ⟨d, hd, hdraw⟩)
        · intro r' hr' heq
          have hg : r'.claimGeneration = g := heq
          rcases (legal_log_generated hl).rows r' hr' with hzero | hdrawn
          · omega
          · exact hfresh (hg ▸ hdrawn)
      | discarded => cases hafter
      | enqueued | claimed | outcome | retired => cases htarget
  · intro target hmem x t
    have hclosed := honce.closed _ hmem
    exact ⟨fun now hstep => redrive_closed_refused hc hclosed hstep,
      fun hstep => discard_closed_refused hc hclosed hstep⟩
  · intro row hrow
    have ha := legal_log_archived hc.legal row (hc.rows ▸ hrow)
    exact ⟨ha.cycles, ha.increasing⟩

/-- A failed job is redriven, fails again, is redriven again, and a second operator repeats
the first decision. -/
def redrivenTrace : List Event :=
  [.enqueue ⟨1, "mail", "null", none, 0, none, none⟩ 0,
    .claim mailRegistry (fun _ => 0) 4 9 0 [] [1],
    .outcome 1 1 (.fail .permanent "bad") 1,
    .open 0, .redrive 0 ⟨1, "mail", 1⟩ 2, .rollback 0,
    .open 0, .redrive 0 ⟨1, "mail", 1⟩ 3, .commit 0,
    .claim mailRegistry (fun _ => 0) 4 9 4 [] [1],
    .outcome 1 4 (.fail .permanent "bad") 5,
    .open 1, .redrive 1 ⟨1, "mail", 4⟩ 6, .commit 1,
    .open 2, .redrive 2 ⟨1, "mail", 1⟩ 7]

theorem operator_recovery_redriven : ∃ s, jobs.run initial redrivenTrace = some s ∧
    s.rows.map (fun row => row.recoveryHistory.map CycleEntry.version) = [[1, 4]] ∧
    s.calls.map Call.result = [.ok, .ok, .ok, .refused .stale] ∧ (recoveries s.log).Nodup := by
  have hrun : ∃ s, jobs.run initial redrivenTrace = some s ∧
      s.rows.map (fun row => row.recoveryHistory.map CycleEntry.version) = [[1, 4]] ∧
      s.calls.map Call.result = [.ok, .ok, .ok, .refused .stale] :=
    ⟨_, rfl, by decide, by decide⟩
  rcases hrun with ⟨s, hs, hhistory, hcalls⟩
  exact ⟨s, hs, hhistory, hcalls, (operator_recovery (System.reachable_of_run hs)).2.2.2.1⟩

end JobsOperator
