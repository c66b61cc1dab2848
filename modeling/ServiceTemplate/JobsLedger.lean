import ServiceTemplate.JobsTable
import Mathlib.Data.List.Induction

/-! The job table as the replay of a ledger of row changes.
Each committed row change is one entry with the row before and after it. A ledger is
legal when every entry is one the code can commit in the table the earlier entries left.
What holds of every legal ledger holds of every run that refines one. -/
namespace JobsLedger

open JobsTable

inductive Cause where
  | enqueued
  | claimed (worker : WorkerId) (policy : Policy) (now : Time)
  | outcome (generation : ℕ) (transition : Transition) (now : Time)
  | redriven (target : RecoveryTarget) (now : Time)
  | discarded (target : RecoveryTarget)
  | retired (now : Time)
  deriving DecidableEq, Repr

structure Change where
  id : JobId
  cause : Cause
  before : Option Row
  after : Option Row
  deriving DecidableEq, Repr

def applyChange (rows : List Row) (c : Change) : List Row :=
  match c.before, c.after with
  | none, some row => rows ++ [row]
  | some _, some row => rows.map fun r => if r.id = c.id then row else r
  | _, none => rows.filter fun r => r.id ≠ c.id

def replay (log : List Change) : List Row := log.foldl applyChange []

def Change.draw (c : Change) : Option ℕ :=
  match c.cause with
  | .claimed _ _ _ | .redriven _ _ => c.after.map Row.claimGeneration
  | _ => none

def drawn (log : List Change) : List ℕ := log.filterMap Change.draw

def Change.created (c : Change) : Option JobId :=
  match c.cause with
  | .enqueued => some c.id
  | _ => none

def created (log : List Change) : List JobId := log.filterMap Change.created

/-- The changes the code commits after `log`. Ids and generations are never reused. -/
inductive Legal (log : List Change) : Change → Prop where
  | enqueued {job : NewJob} {now : Time} (hfresh : job.id ∉ created log) :
      Legal log ⟨job.id, .enqueued, none, some (job.row now)⟩
  | claimed {row : Row} {policy : Policy} {worker : WorkerId} {now : Time} {g : ℕ}
      (hrow : row ∈ replay log) (hdue : row.dueAt now = true ∨ row.leaseExpiredAt now = true)
      (hbudget : 1 ≤ policy.maxAttempts ∧ policy.maxAttempts ≤ maxAttempts)
      (hfresh : g ∉ drawn log) (hlater : row.claimGeneration < g) :
      Legal log ⟨row.id, .claimed worker policy now, some row,
        some (row.claim policy worker now g)⟩
  | outcome {row : Row} {g : ℕ} {transition : Transition} {now : Time}
      (hrow : row ∈ replay log) (hfenced : row.fencedBy g = true) :
      Legal log ⟨row.id, .outcome g transition now, some row, some (row.execute now transition)⟩
  | redriven {row : Row} {target : RecoveryTarget} {now : Time} {g : ℕ}
      (hrow : row ∈ replay log) (hid : row.id = target.id)
      (hlocked : lockFailed (some row) target = .ok row)
      (hfresh : g ∉ drawn log) (hlater : row.claimGeneration < g) :
      Legal log ⟨row.id, .redriven target now, some row, some (row.redrive now g)⟩
  | discarded {row : Row} {target : RecoveryTarget}
      (hrow : row ∈ replay log) (hid : row.id = target.id)
      (hlocked : lockFailed (some row) target = .ok row) :
      Legal log ⟨row.id, .discarded target, some row, none⟩
  | retired {row : Row} {now : Time}
      (hrow : row ∈ replay log) (hdue : row.retentionDue now = true) :
      Legal log ⟨row.id, .retired now, some row, none⟩

inductive LegalLog : List Change → Prop where
  | nil : LegalLog []
  | snoc {log : List Change} {c : Change} (hlog : LegalLog log) (hc : Legal log c) :
      LegalLog (log ++ [c])

@[simp] theorem replay_snoc (log : List Change) (c : Change) :
    replay (log ++ [c]) = applyChange (replay log) c := by
  simp [replay]

/-- One more change adds at most one entry to a history read off the log. -/
theorem filter_map_snoc {α : Type*} (f : Change → Option α) (log : List Change) (c : Change) :
    (log ++ [c]).filterMap f = log.filterMap f ++ (f c).toList := by
  cases h : f c <;> simp [h]

theorem nodup_filter_map_snoc {α : Type*} {f : Change → Option α} {log : List Change}
    {c : Change} (hnodup : (log.filterMap f).Nodup)
    (hfresh : ∀ a, f c = some a → a ∉ log.filterMap f) :
    ((log ++ [c]).filterMap f).Nodup := by
  rw [filter_map_snoc]
  apply List.nodup_append.mpr
  refine ⟨hnodup, by cases f c <;> simp, ?_⟩
  rintro a ha b hb rfl
  exact hfresh a (Option.mem_toList.mp hb) ha

@[simp] theorem drawn_snoc (log : List Change) (c : Change) :
    drawn (log ++ [c]) = drawn log ++ c.draw.toList := filter_map_snoc Change.draw log c

@[simp] theorem created_snoc (log : List Change) (c : Change) :
    created (log ++ [c]) = created log ++ c.created.toList := filter_map_snoc Change.created log c

@[simp] theorem claim_id (row : Row) (policy : Policy) (worker : WorkerId) (now : Time)
    (g : ℕ) : (row.claim policy worker now g).id = row.id := rfl

@[simp] theorem execute_id (row : Row) (now : Time) (transition : Transition) :
    (row.execute now transition).id = row.id := by
  cases transition <;> rfl

@[simp] theorem redrive_id (row : Row) (now : Time) (g : ℕ) :
    (row.redrive now g).id = row.id := rfl

@[simp] theorem execute_generation (row : Row) (now : Time) (transition : Transition) :
    (row.execute now transition).claimGeneration = row.claimGeneration := by
  cases transition <;> rfl

theorem Legal.after_id {log : List Change} {c : Change} (h : Legal log c) :
    ∀ row, c.after = some row → row.id = c.id := by
  cases h <;> rintro row ⟨⟩ <;> simp [NewJob.row]

theorem Legal.before_mem {log : List Change} {c : Change} (h : Legal log c) :
    ∀ row, c.before = some row → row ∈ replay log ∧ row.id = c.id := by
  cases h <;> rintro row ⟨⟩ <;> exact ⟨‹_›, rfl⟩

/-- Identity of rows: one row per id, and every id was created by an enqueue. -/
structure Identified (log : List Change) : Prop where
  nodup : ((replay log).map Row.id).Nodup
  created : ∀ row ∈ replay log, row.id ∈ created log

theorem replace_ids {rows : List Row} {id : JobId} {row : Row} (h : row.id = id) :
    (rows.map fun r => if r.id = id then row else r).map Row.id = rows.map Row.id := by
  rw [List.map_map]
  apply List.map_congr_left
  intro r _
  by_cases hr : r.id = id <;> simp [hr, h]

theorem mem_replace {rows : List Row} {id : JobId} {row r : Row} (hid : ∃ b ∈ rows, b.id = id) :
    r ∈ (rows.map fun r => if r.id = id then row else r) ↔ (r ∈ rows ∧ r.id ≠ id) ∨ row = r := by
  rw [List.mem_map]
  constructor
  · rintro ⟨b, hb, rfl⟩
    by_cases h : b.id = id <;> simp [h, hb]
  · rintro (⟨hr, hne⟩ | rfl)
    · exact ⟨r, hr, by simp [hne]⟩
    · rcases hid with ⟨b, hb, hbid⟩
      exact ⟨b, hb, by simp [hbid]⟩

theorem Legal.mem_replay {log : List Change} {c : Change} (hi : Identified log) (h : Legal log c)
    {row : Row} : row ∈ replay (log ++ [c]) ↔
      (row ∈ replay log ∧ row.id ≠ c.id) ∨ c.after = some row := by
  rw [replay_snoc]
  cases h with
  | @enqueued job now hfresh =>
    have hold : row ∈ replay log → row.id ≠ job.id := by
      intro hrow heq
      exact hfresh (heq ▸ hi.created row hrow)
    simp only [applyChange, List.mem_append, List.mem_singleton, Option.some.injEq]
    constructor
    · rintro (hrow | rfl)
      · exact .inl ⟨hrow, hold hrow⟩
      · exact .inr rfl
    · rintro (⟨hrow, -⟩ | rfl)
      · exact .inl hrow
      · exact .inr rfl
  | claimed hrow | outcome hrow | redriven hrow =>
    simpa only [applyChange, Option.some.injEq] using mem_replace ⟨_, hrow, rfl⟩
  | discarded hrow | retired hrow =>
    simp [applyChange]

theorem legal_log_identified {log : List Change} (h : LegalLog log) : Identified log := by
  induction h with
  | nil => exact ⟨List.nodup_nil, by simp [replay]⟩
  | @snoc log c hlog hc ih =>
    refine ⟨?_, ?_⟩
    · rw [replay_snoc]
      cases hc with
      | @enqueued job now hfresh =>
        simp only [applyChange, List.map_append, List.map_cons, List.map_nil]
        apply List.nodup_append.mpr
        refine ⟨ih.nodup, List.nodup_singleton _, ?_⟩
        rintro a ha b hb rfl
        rcases List.mem_map.mp ha with ⟨row, hrow, rfl⟩
        have hid : row.id = job.id := List.mem_singleton.mp hb
        exact hfresh (hid ▸ ih.created row hrow)
      | claimed | outcome | redriven =>
        simp only [applyChange]
        rw [replace_ids (by simp)]
        exact ih.nodup
      | discarded | retired =>
        exact ih.nodup.sublist (List.Sublist.map _ List.filter_sublist)
    · intro row hrow
      rw [created_snoc, List.mem_append]
      rcases (hc.mem_replay ih).mp hrow with ⟨hold, -⟩ | hnew
      · exact .inl (ih.created row hold)
      · have hid := hc.after_id row hnew
        cases hb : c.before with
        | some b =>
          rcases hc.before_mem b hb with ⟨hmem, hbid⟩
          exact .inl (hid ▸ hbid ▸ ih.created b hmem)
        | none =>
          cases hc <;> simp_all [Change.created]

/-- Generations come from the sequence, one for each claim and redrive. A row that left the
pending state, or that carries a lease, was claimed. -/
structure Generated (log : List Change) : Prop where
  nodup : (drawn log).Nodup
  rows : ∀ row ∈ replay log, row.claimGeneration = 0 ∨ row.claimGeneration ∈ drawn log
  settled : ∀ row ∈ replay log, row.state ≠ .pending ∨ row.claimExpiresAt.isSome = true →
    row.claimGeneration ∈ drawn log

theorem Row.fenced {row : Row} {g : ℕ} (h : row.fencedBy g = true) :
    row.claimGeneration = g ∧ row.claimExpiresAt.isSome = true := by
  simpa [Row.fencedBy] using h

theorem Legal.draw_fresh {log : List Change} {c : Change} (h : Legal log c) :
    ∀ g, c.draw = some g → g ∉ drawn log := by
  cases h <;> rintro g ⟨⟩ <;> assumption

theorem legal_log_generated {log : List Change} (h : LegalLog log) : Generated log := by
  induction h with
  | nil => exact ⟨List.nodup_nil, by simp [replay], by simp [replay]⟩
  | @snoc log c hlog hc ih =>
    have hi := legal_log_identified hlog
    refine ⟨nodup_filter_map_snoc ih.nodup hc.draw_fresh, ?_, ?_⟩
    · intro row hrow
      rw [drawn_snoc, List.mem_append]
      rcases (hc.mem_replay hi).mp hrow with ⟨hold, -⟩ | hnew
      · exact (ih.rows row hold).imp_right .inl
      · cases hc with
        | enqueued =>
          cases hnew
          exact .inl rfl
        | claimed | redriven =>
          cases hnew
          exact .inr (.inr (by simp [Change.draw]))
        | outcome hmem =>
          cases hnew
          rw [execute_generation]
          exact (ih.rows _ hmem).imp_right .inl
        | discarded | retired => cases hnew
    · intro row hrow hsettled
      rw [drawn_snoc, List.mem_append]
      rcases (hc.mem_replay hi).mp hrow with ⟨hold, -⟩ | hnew
      · exact .inl (ih.settled row hold hsettled)
      · cases hc with
        | enqueued =>
          cases hnew
          simp [NewJob.row] at hsettled
        | claimed | redriven =>
          cases hnew
          exact .inr (by simp [Change.draw])
        | outcome hmem hfenced =>
          cases hnew
          rw [execute_generation]
          exact .inl (ih.settled _ hmem (.inr (Row.fenced hfenced).2))
        | discarded | retired => cases hnew

theorem Legal.frame {log : List Change} {c d : Change} (hlog : LegalLog log) (hc : Legal log c)
    (hd : Legal log d) (hid : d.id ≠ c.id) (hdraw : ∀ g, c.draw = some g → d.draw ≠ some g) :
    Legal (log ++ [d]) c := by
  have hi := legal_log_identified hlog
  have hkeep : ∀ row ∈ replay log, row.id = c.id → row ∈ replay (log ++ [d]) := by
    intro row hrow hrid
    exact (hd.mem_replay hi).mpr (.inl ⟨hrow, fun heq => hid (heq.symm.trans hrid)⟩)
  have hfresh : ∀ g, g ∉ drawn log → c.draw = some g → g ∉ drawn (log ++ [d]) := by
    intro g hg hcg
    rw [drawn_snoc, List.mem_append, not_or]
    exact ⟨hg, by simpa using hdraw g hcg⟩
  cases hc with
  | @enqueued job now hnew =>
    apply Legal.enqueued
    rw [created_snoc, List.mem_append, not_or]
    refine ⟨hnew, ?_⟩
    intro hmem
    cases hcause : d.cause <;> simp [Change.created, hcause] at hmem
    exact hid hmem.symm
  | claimed hrow hdue hbudget hg hlater =>
    exact .claimed (hkeep _ hrow rfl) hdue hbudget (hfresh _ hg rfl) hlater
  | outcome hrow hfenced => exact .outcome (hkeep _ hrow rfl) hfenced
  | redriven hrow hrid hlocked hg hlater =>
    exact .redriven (hkeep _ hrow rfl) hrid hlocked (hfresh _ hg rfl) hlater
  | discarded hrow hrid hlocked => exact .discarded (hkeep _ hrow rfl) hrid hlocked
  | retired hrow hdue => exact .retired (hkeep _ hrow rfl) hdue

/-- Changes that touch different rows and draw different generations. -/
def Apart (c d : Change) : Prop := c.id ≠ d.id ∧ ∀ g, d.draw = some g → c.draw ≠ some g

theorem legal_append {log ws : List Change} (hlog : LegalLog log) (hall : ∀ c ∈ ws, Legal log c)
    (hapart : ws.Pairwise Apart) : LegalLog (log ++ ws) := by
  induction ws generalizing log with
  | nil => simpa using hlog
  | cons c ws ih =>
    have hc := hall c (by simp)
    rcases List.pairwise_cons.mp hapart with ⟨hfirst, hrest⟩
    have htail := ih (.snoc hlog hc) (fun d hd =>
      (hall d (by simp [hd])).frame hlog hc (hfirst d hd).1 (hfirst d hd).2) hrest
    simpa using htail

theorem LegalLog.last {log : List Change} {c : Change} (h : LegalLog (log ++ [c])) :
    LegalLog log ∧ Legal log c := by
  generalize heq : log ++ [c] = full at h
  cases h with
  | nil => simp at heq
  | snoc hlog hc =>
    rcases List.append_inj' heq rfl with ⟨rfl, hlast⟩
    cases hlast
    exact ⟨hlog, hc⟩

theorem LegalLog.of_append {log ws : List Change} (h : LegalLog (log ++ ws)) : LegalLog log := by
  induction ws using List.reverseRecOn with
  | nil => simpa using h
  | append_singleton ws c ih =>
    rw [← List.append_assoc] at h
    exact ih h.last.1

theorem replay_append (log ws : List Change) :
    replay (log ++ ws) = ws.foldl applyChange (replay log) := by
  simp [replay]

/-- Induction along the entries a run adds to a ledger. -/
theorem LegalLog.extend {P : List Change → Prop} {log ws : List Change}
    (h : LegalLog (log ++ ws)) (hbase : P log)
    (hstep : ∀ l c, LegalLog l → Legal l c → log <+: l → P l → P (l ++ [c])) :
    P (log ++ ws) := by
  induction ws using List.reverseRecOn with
  | nil => simpa using hbase
  | append_singleton ws c ih =>
    rw [← List.append_assoc] at h ⊢
    rcases h.last with ⟨hl, hc⟩
    exact hstep _ c hl hc (List.prefix_append _ _) (ih hl)

theorem legal_log_created_once {log : List Change} (h : LegalLog log) : (created log).Nodup := by
  induction h with
  | nil => exact List.nodup_nil
  | @snoc log c hlog hc ih =>
    apply nodup_filter_map_snoc ih
    intro id hid
    cases hc with
    | enqueued hfresh =>
      cases hid
      exact hfresh
    | claimed | outcome | redriven | discarded | retired => cases hid

def Change.creation (c : Change) : Option (JobId × String × String) :=
  match c.cause, c.after with
  | .enqueued, some row => some (row.id, row.kind, row.payload)
  | _, _ => none

def creations (log : List Change) : List (JobId × String × String) := log.filterMap Change.creation

theorem Legal.after_carried {log : List Change} {c : Change} (h : Legal log c) :
    ∀ row, c.after = some row → c.creation = some (row.id, row.kind, row.payload) ∨
      ∃ before, c.before = some before ∧ before.id = row.id ∧ before.kind = row.kind ∧
        before.payload = row.payload := by
  intro row hafter
  cases h with
  | enqueued =>
    cases hafter
    exact .inl rfl
  | claimed | redriven =>
    cases hafter
    exact .inr ⟨_, rfl, rfl, rfl, rfl⟩
  | @outcome before g transition now hrow hfenced =>
    cases hafter
    cases transition <;> exact .inr ⟨_, rfl, rfl, rfl, rfl⟩
  | discarded | retired => cases hafter

/-- No change of a row alters its kind or its payload. -/
theorem legal_log_carried {log : List Change} (h : LegalLog log) :
    ∀ row ∈ replay log, (row.id, row.kind, row.payload) ∈ creations log := by
  induction h with
  | nil => simp [replay]
  | @snoc log c hlog hc ih =>
    intro row hrow
    rw [creations, filter_map_snoc, List.mem_append, Option.mem_toList]
    rcases (hc.mem_replay (legal_log_identified hlog)).mp hrow with ⟨hold, -⟩ | hnew
    · exact .inl (ih row hold)
    · rcases hc.after_carried row hnew with hcreated | ⟨before, hbefore, hid, hkind, hpayload⟩
      · exact .inr hcreated
      · rw [← hid, ← hkind, ← hpayload]
        exact .inl (ih before (hc.before_mem before hbefore).1)

theorem written_carried {log : List Change} (h : LegalLog log) {c : Change} (hc : c ∈ log)
    {row : Row} (hafter : c.after = some row) :
    (row.id, row.kind, row.payload) ∈ creations log := by
  rcases List.append_of_mem hc with ⟨us, vs, rfl⟩
  rw [← List.singleton_append, ← List.append_assoc] at h ⊢
  rcases h.of_append.last with ⟨hus, hlegal⟩
  have hreplay : row ∈ replay (us ++ [c]) :=
    (hlegal.mem_replay (legal_log_identified hus)).mpr (.inr hafter)
  have hmem := legal_log_carried h.of_append row hreplay
  rw [creations, List.filterMap_append, List.mem_append]
  exact .inl hmem

end JobsLedger
