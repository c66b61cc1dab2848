import ServiceTemplate.JobsRowInvariant

/-! Outcome writes are fenced by the claim generation.
A claim is a pair of job id and generation. Messages are not tracked: any outcome of any
claim may arrive at any time and any number of times. -/
namespace JobsFencing

open TransitionSystem
open JobsTable
open JobsLedger
open JobsSystem
open JobsRowInvariant

def outcomeKey (c : Change) : Option (JobId × ℕ) :=
  match c.cause with
  | .outcome g _ _ => some (c.id, g)
  | _ => none

def outcomes (log : List Change) : List (JobId × ℕ) := log.filterMap outcomeKey

def completedId (c : Change) : Option JobId :=
  match c.cause with
  | .outcome _ .complete _ => some c.id
  | _ => none

def completions (log : List Change) : List JobId := log.filterMap completedId

structure Superseded (log : List Change) (id : JobId) (g : ℕ) : Prop where
  issued : g ∈ drawn log
  lost : ∀ row ∈ replay log, row.id = id → row.fencedBy g = false

theorem execute_lease (row : Row) (now : Time) (transition : Transition) :
    (row.execute now transition).claimExpiresAt = none := by
  cases transition <;> rfl

/-- No change gives a lost row back to a claim that was already issued. -/
theorem not_refenced {log : List Change} {c : Change} (hc : Legal log c) {g : ℕ}
    (hg : g ∈ drawn log) : ∀ row, c.after = some row → row.fencedBy g = false := by
  intro row hafter
  cases hc with
  | enqueued =>
    cases hafter
    simp [Row.fencedBy, NewJob.row]
  | @claimed before policy worker now g' hrow hdue hbudget hfresh hlater =>
    cases hafter
    have hne : g' ≠ g := fun heq => hfresh (heq ▸ hg)
    simp [Row.fencedBy, Row.claim, hne]
  | outcome =>
    cases hafter
    simp [Row.fencedBy, execute_lease]
  | redriven =>
    cases hafter
    simp [Row.fencedBy, Row.redrive]
  | discarded | retired => cases hafter

theorem Superseded.step {log : List Change} {id : JobId} {g : ℕ} (h : Superseded log id g)
    (hlog : LegalLog log) {c : Change} (hc : Legal log c) : Superseded (log ++ [c]) id g := by
  refine ⟨by simp [h.issued], ?_⟩
  intro row hrow hid
  rcases (hc.mem_replay (legal_log_identified hlog)).mp hrow with ⟨hold, -⟩ | hnew
  · exact h.lost row hold hid
  · exact not_refenced hc h.issued row hnew

theorem Superseded.extend {log ws : List Change} {id : JobId} {g : ℕ} (h : Superseded log id g)
    (hlog : LegalLog (log ++ ws)) : Superseded (log ++ ws) id g :=
  hlog.extend (P := fun l => Superseded l id g) h fun _ _ hl hc _ hs => hs.step hl hc

theorem Superseded.not_outcome {log : List Change} {id : JobId} {g : ℕ}
    (h : Superseded log id g) {c : Change} (hc : Legal log c) : outcomeKey c ≠ some (id, g) := by
  intro hkey
  cases hc with
  | outcome hrow hfenced =>
    simp only [outcomeKey, Option.some.injEq, Prod.mk.injEq] at hkey
    rcases hkey with ⟨rfl, rfl⟩
    rw [h.lost _ hrow rfl] at hfenced
    cases hfenced
  | enqueued | claimed | redriven | discarded | retired => cases hkey

/-- Any later change of the job, be it a claim, a redrive, a discard or an outcome, takes the
row from the claim for good. -/
theorem superseded_of_split {l₁ l₂ : List Change} {c d : Change} {g : ℕ}
    (hlog : LegalLog (l₁ ++ c :: l₂)) (hd : d ∈ l₁) (hdraw : d.draw = some g) :
    Superseded (l₁ ++ c :: l₂) c.id g := by
  have hsplit : l₁ ++ c :: l₂ = (l₁ ++ [c]) ++ l₂ := by simp
  have hg : g ∈ drawn l₁ := List.mem_filterMap.mpr ⟨d, hd, hdraw⟩
  rw [hsplit] at hlog ⊢
  rcases hlog.of_append.last with ⟨hl, hc⟩
  refine Superseded.extend ⟨by simp [hg], ?_⟩ hlog
  intro row hrow hid
  rcases (hc.mem_replay (legal_log_identified hl)).mp hrow with ⟨-, hne⟩ | hnew
  · exact absurd hid hne
  · exact not_refenced hc hg row hnew

/-- Each claim has at most one applied outcome, and has lost its row after it. -/
structure Fenced (log : List Change) : Prop where
  nodup : (outcomes log).Nodup
  spent : ∀ k ∈ outcomes log, Superseded log k.1 k.2

theorem legal_log_fenced {log : List Change} (h : LegalLog log) : Fenced log := by
  induction h with
  | nil => exact ⟨List.nodup_nil, by simp [outcomes]⟩
  | @snoc log c hlog hc ih =>
    have hold : ∀ k ∈ outcomes log, Superseded (log ++ [c]) k.1 k.2 := fun k hk =>
      (ih.spent k hk).step hlog hc
    refine ⟨nodup_filter_map_snoc ih.nodup ?_, ?_⟩
    · intro a hkey ha
      exact (ih.spent a ha).not_outcome hc hkey
    · intro k hk
      rw [outcomes, filter_map_snoc, List.mem_append, Option.mem_toList] at hk
      rcases hk with hk | hk
      · exact hold k hk
      · cases hc with
        | @outcome row g transition now hrow hfenced =>
          cases hk
          have hsettled := (legal_log_generated hlog).settled row hrow (.inr (Row.fenced hfenced).2)
          rw [(Row.fenced hfenced).1] at hsettled
          have hc : Legal log ⟨row.id, .outcome g transition now, some row,
            some (row.execute now transition)⟩ := .outcome hrow hfenced
          refine ⟨by simp [hsettled], ?_⟩
          intro r hr hid
          rcases (hc.mem_replay (legal_log_identified hlog)).mp hr with ⟨-, hne⟩ | hafter
          · exact absurd hid hne
          · exact not_refenced hc hsettled r hafter
        | enqueued | claimed | redriven | discarded | retired => cases hk

/-- A job completes at most once: a completed row only leaves. -/
structure CompletedOnce (log : List Change) : Prop where
  nodup : (completions log).Nodup
  closed : ∀ id ∈ completions log, id ∈ created log ∧
    ∀ row ∈ replay log, row.id = id → row.state = .completed

theorem completed_final {log : List Change} (hlog : LegalLog log) {c : Change} (hc : Legal log c)
    {row : Row} (hbefore : c.before = some row) (hstate : row.state = .completed) :
    c.after = none := by
  cases hc with
  | enqueued => cases hbefore
  | claimed hrow hdue =>
    cases hbefore
    rcases hdue with hdue | hdue
    · simp [Row.dueAt, hstate] at hdue
    · simp [Row.leaseExpiredAt, hstate] at hdue
  | outcome hrow hfenced =>
    cases hbefore
    have hrunning := (legal_log_rows hlog _ hrow).fenced_running hfenced
    rw [hstate] at hrunning
    cases hrunning
  | redriven hrow hid hlocked =>
    cases hbefore
    have hfailed := (lock_failed_ok hlocked).2.2.1
    rw [hstate] at hfailed
    cases hfailed
  | discarded | retired => rfl

theorem completed_id_before {log : List Change} {c : Change} (hc : Legal log c) {id : JobId}
    (h : completedId c = some id) : ∃ row g now, c.id = id ∧ c.before = some row ∧
      row.fencedBy g = true ∧ c.after = some (row.execute now .complete) := by
  cases hc with
  | @outcome row g transition now hrow hfenced =>
    cases transition <;> simp [completedId] at h
    exact ⟨row, g, now, h, rfl, hfenced, rfl⟩
  | enqueued | claimed | redriven | discarded | retired => cases h

theorem legal_log_completed_once {log : List Change} (h : LegalLog log) : CompletedOnce log := by
  induction h with
  | nil => exact ⟨List.nodup_nil, by simp [completions]⟩
  | @snoc log c hlog hc ih =>
    have hi := legal_log_identified hlog
    refine ⟨nodup_filter_map_snoc ih.nodup ?_, ?_⟩
    · intro id hkey hid
      rcases completed_id_before hc hkey with ⟨row, g, now, hcid, hbefore, -, hafter⟩
      rcases hc.before_mem row hbefore with ⟨hmem, hrid⟩
      have hstate := (ih.closed id hid).2 row hmem (hrid.trans hcid)
      rw [completed_final hlog hc hbefore hstate] at hafter
      cases hafter
    · intro id hid
      rw [completions, filter_map_snoc, List.mem_append, Option.mem_toList] at hid
      rcases hid with hid | hid
      · rcases ih.closed id hid with ⟨hcreated, hclosed⟩
        refine ⟨by simp [hcreated], ?_⟩
        intro row hrow hrid
        rcases (hc.mem_replay hi).mp hrow with ⟨hold, -⟩ | hafter
        · exact hclosed row hold hrid
        · have hcid := (hc.after_id row hafter).symm.trans hrid
          cases hb : c.before with
          | none =>
            cases hc with
            | enqueued hfresh =>
              subst hcid
              exact absurd hcreated hfresh
            | claimed | outcome | redriven | discarded | retired => cases hb
          | some before =>
            rcases hc.before_mem before hb with ⟨hmem, hbid⟩
            have hstate := hclosed before hmem (hbid.trans hcid)
            rw [completed_final hlog hc hb hstate] at hafter
            cases hafter
      · rcases completed_id_before hc hid with ⟨before, g, now, rfl, hb, -, hafter⟩
        rcases hc.before_mem before hb with ⟨hmem, hbid⟩
        refine ⟨by simp [← hbid, hi.created before hmem], ?_⟩
        intro row hrow hrid
        rcases (hc.mem_replay hi).mp hrow with ⟨-, hne⟩ | hrow'
        · exact absurd hrid hne
        · rw [hafter] at hrow'
          cases hrow'
          rfl

theorem outcome_applies {s t : State} (hc : Coupled s) {id : JobId} {g : ℕ}
    {transition : Transition} {now : Time} (hop : outcome s id g transition now = some t) :
    t = s ∨ ∃ row ∈ s.rows, row.id = id ∧ row.fencedBy g = true ∧
      t = s.record ⟨id, .outcome g transition now, some row, some (row.execute now transition)⟩ := by
  simp only [outcome] at hop
  split at hop
  · cases hop
  · split at hop
    · cases hop
      exact .inl rfl
    · next row hrow =>
      split at hop
      · next hfenced =>
        cases hop
        rcases hc.row_mem hrow with ⟨hmem, rfl⟩
        exact .inr ⟨row, hc.rows ▸ hmem, rfl, hfenced, rfl⟩
      · cases hop
        exact .inl rfl

theorem complete_in_tx_answers {s t : State} (hc : Coupled s) {x : TxId} {id : JobId} {g : ℕ}
    {now : Time} (hop : completeInTx s x id g now = some t) :
    t.rows = s.rows ∧
      ((t.txs = s.txs ∧ t.calls = s.calls ++ [⟨x, .complete id g, .staleClaim⟩]) ∨
        ∃ row ∈ s.rows, row.id = id ∧ row.fencedBy g = true ∧
          t.calls = s.calls ++ [⟨x, .complete id g, .ok⟩] ∧
          ∃ tx, t.txs x = some tx ∧ ⟨id, .outcome g .complete now, some row,
            some (row.execute now .complete)⟩ ∈ tx.writes) := by
  simp only [completeInTx] at hop
  split at hop
  · cases hop
  next tx htx =>
  split at hop
  · cases hop
  split at hop
  · cases hop
    exact ⟨rfl, .inl ⟨rfl, rfl⟩⟩
  next row hview =>
  split at hop
  · next hfenced =>
    split at hop
    · cases hop
    · cases hop
      have hlease := Option.isSome_iff_ne_none.mp (Row.fenced hfenced).2
      rcases hc.view_committed htx hview (.inr hlease) with ⟨hmem, rfl, -⟩
      refine ⟨rfl, .inr ⟨row, hc.rows ▸ hmem, rfl, hfenced, rfl, ?_⟩⟩
      exact ⟨_, Function.update_self _ _ _, List.mem_append_right _ (List.mem_singleton.mpr rfl)⟩
  · cases hop
    exact ⟨rfl, .inl ⟨rfl, rfl⟩⟩

theorem superseded_inert {s : State} (hc : Coupled s) {id : JobId} {g : ℕ}
    (h : Superseded s.log id g) :
    (∀ transition now t, step s (.outcome id g transition now) = some t → t = s) ∧
      (∀ x now t, step s (.completeInTx x id g now) = some t → t.rows = s.rows ∧
        t.calls = s.calls ++ [⟨x, .complete id g, .staleClaim⟩]) ∧
      ∀ e t, step s e = some t → ∃ ws, t.log = s.log ++ ws ∧
        ∀ w ∈ ws, outcomeKey w ≠ some (id, g) := by
  have hlost : ∀ row ∈ s.rows, row.id = id → row.fencedBy g = false := hc.rows ▸ h.lost
  refine ⟨?_, ?_, ?_⟩
  · intro transition now t hstep
    rcases outcome_applies hc hstep with hsame | ⟨row, hrow, hid, hfenced, -⟩
    · exact hsame
    · rw [hlost row hrow hid] at hfenced
      cases hfenced
  · intro x now t hstep
    rcases complete_in_tx_answers hc hstep with ⟨hrows, ⟨-, hcalls⟩ | ⟨row, hrow, hid, hfenced, -⟩⟩
    · exact ⟨hrows, hcalls⟩
    · rw [hlost row hrow hid] at hfenced
      cases hfenced
  · intro e t hstep
    have ht := step_coupled hc hstep
    rcases step_extends hstep with ⟨ws, hws⟩
    refine ⟨ws, hws.symm, ?_⟩
    intro w hw
    rcases List.append_of_mem hw with ⟨us, vs, rfl⟩
    have hlog : LegalLog ((s.log ++ us ++ [w]) ++ vs) := by
      simpa [← hws] using ht.legal
    rcases hlog.of_append.last with ⟨hl, hwc⟩
    exact (h.extend hl).not_outcome hwc

/-- Every claim has at most one outcome that changes the table, applied only while the claim
holds the running row. After any later change of the job its outcomes change nothing, and a
job completes at most once, inside a transaction or outside. -/
theorem outcome_writes_fenced {s : State} (h : jobs.Reachable s) :
    (outcomes s.log).Nodup ∧
    (∀ c ∈ s.log, ∀ id g, outcomeKey c = some (id, g) → ∃ row, c.before = some row ∧
      row.id = id ∧ row.claimGeneration = g ∧ row.state = .running) ∧
    (∀ id g transition now t, step s (.outcome id g transition now) = some t → t = s ∨
      ∃ row ∈ s.rows, row.id = id ∧ row.claimGeneration = g ∧ row.state = .running ∧
        t = s.record ⟨id, .outcome g transition now, some row,
          some (row.execute now transition)⟩) ∧
    (∀ l₁ c l₂ d g, s.log = l₁ ++ c :: l₂ → d ∈ l₁ → d.id = c.id → d.draw = some g →
      (∀ transition now t, step s (.outcome c.id g transition now) = some t → t = s) ∧
      (∀ x now t, step s (.completeInTx x c.id g now) = some t → t.rows = s.rows ∧
        t.calls = s.calls ++ [⟨x, .complete c.id g, .staleClaim⟩]) ∧
      ∀ e t, step s e = some t → ∃ ws, t.log = s.log ++ ws ∧
        ∀ w ∈ ws, outcomeKey w ≠ some (c.id, g)) ∧
    (completions s.log).Nodup ∧
    (∀ x id g now t, step s (.completeInTx x id g now) = some t →
      (t.txs = s.txs ∧ t.calls = s.calls ++ [⟨x, .complete id g, .staleClaim⟩]) ∨
        (t.calls = s.calls ++ [⟨x, .complete id g, .ok⟩] ∧ ∃ tx c, t.txs x = some tx ∧
          c ∈ tx.writes ∧ outcomeKey c = some (id, g) ∧ completedId c = some id)) := by
  have hc := reachable_coupled h
  have hrows := legal_log_rows hc.legal
  refine ⟨(legal_log_fenced hc.legal).nodup, ?_, ?_, ?_, (legal_log_completed_once hc.legal).nodup,
    ?_⟩
  · intro c hmem id g hkey
    rcases List.append_of_mem hmem with ⟨us, vs, hsplit⟩
    have hlog : LegalLog ((us ++ [c]) ++ vs) := by simpa [← hsplit] using hc.legal
    rcases hlog.of_append.last with ⟨hl, hlegal⟩
    cases hlegal with
    | @outcome row g' transition now hrow hfenced =>
      simp only [outcomeKey, Option.some.injEq, Prod.mk.injEq] at hkey
      rcases hkey with ⟨rfl, rfl⟩
      exact ⟨row, rfl, rfl, (Row.fenced hfenced).1,
        (legal_log_rows hl row hrow).fenced_running hfenced⟩
    | enqueued | claimed | redriven | discarded | retired => cases hkey
  · intro id g transition now t hstep
    rcases outcome_applies hc hstep with hsame | ⟨row, hrow, hid, hfenced, ht⟩
    · exact .inl hsame
    · have hrunning := (hrows row (hc.rows ▸ hrow)).fenced_running hfenced
      exact .inr ⟨row, hrow, hid, (Row.fenced hfenced).1, hrunning, ht⟩
  · intro l₁ c l₂ d g hsplit hd hid hdraw
    have hlost := superseded_of_split (hsplit ▸ hc.legal) hd hdraw
    rw [← hsplit] at hlost
    exact superseded_inert hc hlost
  · intro x id g now t hstep
    rcases complete_in_tx_answers hc hstep with
      ⟨-, hstale | ⟨row, hrow, hid, hfenced, hcalls, tx, htx, hmem⟩⟩
    · exact .inl hstale
    · exact .inr ⟨hcalls, tx, _, htx, hmem, rfl, rfl⟩

/-- The lease of claim 1 expires, claim 2 takes the job, and both complete late: one message
of claim 1, then `complete_in_tx` and a duplicate message of claim 2. -/
def reclaimedTrace : List Event :=
  [.enqueue ⟨1, "mail", "null", none, 0, none, none⟩ 0,
    .claim mailRegistry (fun _ => 0) 4 8 0 [] [1],
    .claim mailRegistry (fun _ => 0) 4 9 61000000 [] [1],
    .outcome 1 1 .complete 61000000,
    .open 0, .completeInTx 0 1 2 61000001, .commit 0,
    .outcome 1 2 .complete 61000002]

theorem outcome_writes_fenced_reclaimed : ∃ s, jobs.run initial reclaimedTrace = some s ∧
    outcomes s.log = [(1, 2)] ∧ (outcomes s.log).Nodup ∧ (completions s.log).Nodup := by
  have hrun : ∃ s, jobs.run initial reclaimedTrace = some s ∧ outcomes s.log = [(1, 2)] :=
    ⟨_, rfl, by decide⟩
  rcases hrun with ⟨s, hs, houtcomes⟩
  have h := outcome_writes_fenced (System.reachable_of_run hs)
  exact ⟨s, hs, houtcomes, h.1, h.2.2.2.2.1⟩

end JobsFencing
