import ServiceTemplate.TransitionSystem
import ServiceTemplate.JobsLedger
import Mathlib.Logic.Function.Basic

/-! The shared job table under any number of workers and operators.
Worker statements commit on their own. `redrive`, `discard` and `complete_in_tx` write
inside a caller's transaction: the row stays locked until it commits or rolls back, and
the drawn generation is never given back. A statement that waits for a lock is not enabled. -/
namespace JobsSystem

open TransitionSystem
open JobsTable
open JobsLedger

abbrev TxId := ℕ

structure Tx where
  writes : List Change
  aborted : Bool

inductive TxOp where
  | redrive (target : RecoveryTarget)
  | discard (target : RecoveryTarget)
  | complete (id : JobId) (generation : ℕ)
  deriving DecidableEq, Repr

inductive CallResult where
  | ok
  | refused (error : OperatorError)
  | staleClaim
  deriving DecidableEq, Repr

structure Call where
  tx : TxId
  op : TxOp
  result : CallResult
  deriving DecidableEq, Repr

structure State where
  rows : List Row
  sequence : ℕ
  locks : JobId → Option TxId
  keyLocks : String × String → Option TxId
  txs : TxId → Option Tx
  log : List Change
  calls : List Call

/-- `claim` says which rows other sessions hold and in which order the UPDATE visits the
picked rows; `burn` is a generation drawn by a claim that rolled back. -/
inductive Event where
  | enqueue (job : NewJob) (now : Time)
  | claim (registry : Registry) (available : String → ℕ) (requested : ℕ) (worker : WorkerId)
      (now : Time) (held order : List JobId)
  | burn
  | outcome (id : JobId) (generation : ℕ) (transition : Transition) (now : Time)
  | completeBatch (done : List (JobId × ℕ)) (now : Time)
  | retention (ids : List JobId) (now : Time)
  | open (t : TxId)
  | redrive (t : TxId) (target : RecoveryTarget) (now : Time)
  | discard (t : TxId) (target : RecoveryTarget)
  | completeInTx (t : TxId) (id : JobId) (generation : ℕ) (now : Time)
  | commit (t : TxId)
  | rollback (t : TxId)

def initial : State := ⟨[], 0, fun _ => none, fun _ => none, fun _ => none, [], []⟩

def State.row? (s : State) (id : JobId) : Option Row := s.rows.find? fun row => row.id = id

def State.record (s : State) (c : Change) : State :=
  { s with rows := applyChange s.rows c, log := s.log ++ [c] }

def liveKey (row : Row) : Option (String × String) := row.uniqueKey.map fun key => (row.kind, key)

/-- The unique index entry of an uncommitted live row makes other writers of the key wait. -/
def State.keyFree (s : State) (t : Option TxId) (row : Row) : Bool :=
  match liveKey row with
  | none => true
  | some key => s.keyLocks key = none || s.keyLocks key = t

/-- A live holder of the key makes the enqueue a duplicate. A new id is a new UUID. -/
def enqueue (s : State) (job : NewJob) (now : Time) : Option State :=
  let row := job.row now
  if job.id ∈ created s.log ∨ !s.keyFree none row then none
  else if row.conflictsIn s.rows then some s
  else some (s.record ⟨job.id, .enqueued, none, some row⟩)

def claimOne (binds : List PolicyBind) (worker : WorkerId) (now : Time) (s : State)
    (id : JobId) : State :=
  match s.row? id with
  | none => s
  | some row =>
    match binds.find? fun bind => bind.kind = row.kind with
    | none => s
    | some bind =>
      if row.dueAt now || row.leaseExpiredAt now then
        let generation := s.sequence + 1
        { s with sequence := generation }.record
          ⟨row.id, .claimed worker bind.policy now, some row,
            some (row.claim bind.policy worker now generation)⟩
      else s

def claim (s : State) (registry : Registry) (available : String → ℕ) (requested : ℕ)
    (worker : WorkerId) (now : Time) (held order : List JobId) : Option State :=
  let binds := policyBinds registry available requested
  let locked := fun id => id ∈ held || (s.locks id).isSome
  if order.Perm (picked s.rows locked binds requested now) then
    some (order.foldl (claimOne binds worker now) s)
  else none

/-- The UPDATE waits for a matching row another transaction holds. -/
def State.waits (s : State) (id : JobId) (generation : ℕ) : Bool :=
  (s.locks id).isSome && (s.row? id).any fun row => row.fencedBy generation

def outcome (s : State) (id : JobId) (generation : ℕ) (transition : Transition) (now : Time) :
    Option State :=
  if s.waits id generation then none
  else match s.row? id with
    | none => some s
    | some row =>
      if row.fencedBy generation then
        some (s.record ⟨row.id, .outcome generation transition now, some row,
          some (row.execute now transition)⟩)
      else some s

/-- One UPDATE joined with the batch: each claim that still holds its row completes it. -/
def completeBatch (s : State) (done : List (JobId × ℕ)) (now : Time) : Option State :=
  done.foldlM (fun s claimed => outcome s claimed.1 claimed.2 .complete now) s

def retireOne (now : Time) (s : State) (id : JobId) : State :=
  match s.row? id with
  | none => s
  | some row =>
    if row.retentionDue now then s.record ⟨row.id, .retired now, some row, none⟩ else s

/-- Locked rows are skipped. Which of the due rows a batch takes is left open. -/
def retention (s : State) (ids : List JobId) (now : Time) : Option State :=
  if ids.length ≤ retentionBatchRows ∧ ∀ id ∈ ids, s.locks id = none then
    some (ids.foldl (retireOne now) s)
  else none

def openTx (s : State) (t : TxId) : Option State :=
  match s.txs t with
  | none => some { s with txs := Function.update s.txs t (some ⟨[], false⟩) }
  | some _ => none

/-- What a transaction sees of one row: its own write, else the committed row. -/
def State.view (s : State) (tx : Tx) (id : JobId) : Option Row :=
  match tx.writes.find? fun c => c.id = id with
  | some c => c.after
  | none => s.row? id

def State.heldByOther (s : State) (t : TxId) (id : JobId) : Bool :=
  (s.locks id).any fun holder => holder ≠ t

def State.lock (s : State) (t : TxId) (id : JobId) : State :=
  { s with locks := Function.update s.locks id (some t) }

def State.answer (s : State) (t : TxId) (op : TxOp) (result : CallResult) : State :=
  { s with calls := s.calls ++ [⟨t, op, result⟩] }

def State.write (s : State) (t : TxId) (tx : Tx) (c : Change) : State :=
  { s with txs := Function.update s.txs t (some { tx with writes := tx.writes ++ [c] }) }

def State.reserve (s : State) (t : TxId) (row : Row) : State :=
  match liveKey row with
  | none => s
  | some key => { s with keyLocks := Function.update s.keyLocks key (some t) }

/-- The row lock makes the check and the UPDATE one step. The generation is drawn before a
conflicting live key aborts the transaction. -/
def redrive (s : State) (t : TxId) (target : RecoveryTarget) (now : Time) : Option State :=
  match s.txs t with
  | none => none
  | some tx =>
    if tx.aborted || s.heldByOther t target.id then none
    else match s.view tx target.id with
      | none => some (s.answer t (.redrive target) (.refused .missing))
      | some found =>
        let s := s.lock t target.id
        match lockFailed (some found) target with
        | .error error => some (s.answer t (.redrive target) (.refused error))
        | .ok row =>
          let generation := s.sequence + 1
          let redriven := row.redrive now generation
          let s := { s with sequence := generation }
          if !s.keyFree (some t) redriven then none
          else if redriven.conflictsIn (tx.writes.foldl applyChange s.rows) then
            some ({ s with txs := Function.update s.txs t (some { tx with aborted := true }) }.answer
              t (.redrive target) (.refused .conflict))
          else
            some (((s.write t tx ⟨row.id, .redriven target now, some row, some redriven⟩).reserve t
              redriven).answer t (.redrive target) .ok)

def discard (s : State) (t : TxId) (target : RecoveryTarget) : Option State :=
  match s.txs t with
  | none => none
  | some tx =>
    if tx.aborted || s.heldByOther t target.id then none
    else match s.view tx target.id with
      | none => some (s.answer t (.discard target) (.refused .missing))
      | some found =>
        let s := s.lock t target.id
        match lockFailed (some found) target with
        | .error error => some (s.answer t (.discard target) (.refused error))
        | .ok row =>
          some ((s.write t tx ⟨row.id, .discarded target, some row, none⟩).answer t
            (.discard target) .ok)

/-- `Job::complete_in_tx`: the outcome UPDATE on the caller's transaction. -/
def completeInTx (s : State) (t : TxId) (id : JobId) (generation : ℕ) (now : Time) :
    Option State :=
  match s.txs t with
  | none => none
  | some tx =>
    if tx.aborted then none
    else match s.view tx id with
      | none => some (s.answer t (.complete id generation) .staleClaim)
      | some row =>
        if row.fencedBy generation then
          if s.heldByOther t id then none
          else some (((s.lock t id).write t tx ⟨row.id, .outcome generation .complete now, some row,
            some (row.execute now .complete)⟩).answer t (.complete id generation) .ok)
        else some (s.answer t (.complete id generation) .staleClaim)

def State.close (s : State) (t : TxId) : State :=
  { s with
    txs := Function.update s.txs t none
    locks := fun id => if s.locks id = some t then none else s.locks id
    keyLocks := fun key => if s.keyLocks key = some t then none else s.keyLocks key }

def commit (s : State) (t : TxId) : Option State :=
  match s.txs t with
  | none => none
  | some tx =>
    if tx.aborted then none
    else some ({ s with
      rows := tx.writes.foldl applyChange s.rows
      log := s.log ++ tx.writes }.close t)

def rollback (s : State) (t : TxId) : Option State :=
  match s.txs t with
  | none => none
  | some _ => some (s.close t)

def step (s : State) : Event → Option State
  | .enqueue job now => enqueue s job now
  | .claim registry available requested worker now held order =>
    claim s registry available requested worker now held order
  | .burn => some { s with sequence := s.sequence + 1 }
  | .outcome id generation transition now => outcome s id generation transition now
  | .completeBatch done now => completeBatch s done now
  | .retention ids now => retention s ids now
  | .open t => openTx s t
  | .redrive t target now => redrive s t target now
  | .discard t target => discard s t target
  | .completeInTx t id generation now => completeInTx s t id generation now
  | .commit t => commit s t
  | .rollback t => rollback s t

def jobs : System State Event := ⟨initial, step⟩

/-- A transactional write replaces a committed row by one that neither is failed nor holds a
lease, so the same transaction cannot write it again. -/
structure Closing (c : Change) : Prop where
  before : c.before.isSome = true
  after : ∀ row, c.after = some row → row.state ≠ .failed ∧ row.claimExpiresAt = none

/-- The table is the replay of a legal ledger, and what an open transaction has written is
still legal now: its row locks keep every other writer away. -/
structure Coupled (s : State) : Prop where
  legal : LegalLog s.log
  rows : s.rows = replay s.log
  bounded : ∀ g ∈ drawn s.log, g ≤ s.sequence
  pending : ∀ t tx c, s.txs t = some tx → c ∈ tx.writes → Legal s.log c ∧
    Closing c ∧ s.locks c.id = some t ∧ ∀ g, c.draw = some g → g ≤ s.sequence
  distinct : ∀ t tx, s.txs t = some tx → (tx.writes.map Change.id).Nodup
  apart : ∀ t tx c t' tx' c', s.txs t = some tx → c ∈ tx.writes → s.txs t' = some tx' →
    c' ∈ tx'.writes → c.id ≠ c'.id → ∀ g, c.draw = some g → c'.draw ≠ some g

private theorem initial_coupled : Coupled initial := by
  constructor <;> simp [initial, replay, drawn, LegalLog.nil]

theorem Coupled.row_mem {s : State} (h : Coupled s) {id : JobId} {row : Row}
    (hrow : s.row? id = some row) : row ∈ replay s.log ∧ row.id = id := by
  refine ⟨h.rows ▸ List.mem_of_find?_eq_some hrow, ?_⟩
  simpa using List.find?_some hrow

theorem Coupled.generation_le {s : State} (h : Coupled s) {row : Row} (hrow : row ∈ replay s.log) :
    row.claimGeneration ≤ s.sequence := by
  rcases (legal_log_generated h.legal).rows row hrow with hzero | hdrawn
  · omega
  · exact h.bounded _ hdrawn

/-- A statement commits one change of a row no open transaction has written. A generation
it draws is the next one of the sequence. -/
theorem Coupled.record {s : State} (h : Coupled s) {c : Change} {sequence : ℕ}
    (hc : Legal s.log c) (hsequence : s.sequence ≤ sequence)
    (hother : ∀ t tx d, s.txs t = some tx → d ∈ tx.writes → c.id ≠ d.id)
    (hdraw : ∀ g, c.draw = some g → s.sequence < g ∧ g ≤ sequence) :
    Coupled ({ s with sequence := sequence }.record c) := by
  refine ⟨.snoc h.legal hc, ?_, ?_, ?_, h.distinct, h.apart⟩
  · simp [State.record, h.rows]
  · intro g hg
    simp only [State.record, drawn_snoc, List.mem_append, Option.mem_toList] at hg
    rcases hg with hg | hg
    · exact Nat.le_trans (h.bounded g hg) hsequence
    · exact (hdraw g hg).2
  · intro t tx d htx hd
    rcases h.pending t tx d htx hd with ⟨hlegal, hclosing, hlock, hle⟩
    refine ⟨hlegal.frame h.legal hc (hother t tx d htx hd) ?_, hclosing, hlock, ?_⟩
    · intro g hg heq
      have hlt := (hdraw g heq).1
      have hdle := hle g hg
      omega
    · intro g hg
      exact Nat.le_trans (hle g hg) hsequence

theorem Coupled.unlocked_apart {s : State} (h : Coupled s) {id : JobId}
    (hfree : s.locks id = none) :
    ∀ t tx d, s.txs t = some tx → d ∈ tx.writes → id ≠ d.id := by
  rintro t tx d htx hd rfl
  have hlock := (h.pending t tx d htx hd).2.2.1
  rw [hfree] at hlock
  cases hlock

private theorem enqueue_coupled {s t : State} (h : Coupled s) {job : NewJob} {now : Time}
    (hop : enqueue s job now = some t) : Coupled t := by
  simp only [enqueue] at hop
  split at hop
  · cases hop
  · next hguard =>
    rw [not_or] at hguard
    split at hop
    · cases hop
      exact h
    · cases hop
      refine h.record (.enqueued hguard.1) (Nat.le_refl _) ?_ (by simp [Change.draw])
      intro t tx d htx hd heq
      rcases h.pending t tx d htx hd with ⟨hlegal, hclosing, -⟩
      rcases Option.isSome_iff_exists.mp hclosing.before with ⟨row, hrow⟩
      rcases hlegal.before_mem row hrow with ⟨hmem, hid⟩
      have hcreated := (legal_log_identified h.legal).created row hmem
      have hsame : job.id = row.id := heq.trans hid.symm
      exact hguard.1 (hsame ▸ hcreated)

/-- Statements that visit rows one by one, each of them unlocked. -/
theorem Coupled.foldl {α : Type*} {f : State → α → State} (key : α → JobId)
    (hf : ∀ s a, Coupled s → s.locks (key a) = none → Coupled (f s a) ∧ (f s a).locks = s.locks)
    {s : State} (h : Coupled s) {xs : List α} (hfree : ∀ x ∈ xs, s.locks (key x) = none) :
    Coupled (xs.foldl f s) := by
  induction xs generalizing s with
  | nil => exact h
  | cons x xs ih =>
    rcases hf s x h (hfree x (by simp)) with ⟨hnext, hlocks⟩
    apply ih hnext
    intro y hy
    rw [hlocks]
    exact hfree y (by simp [hy])

theorem claim_one_coupled {registry : Registry} {available : String → ℕ} {requested : ℕ}
    {worker : WorkerId} {now : Time} {s : State} {id : JobId} (h : Coupled s)
    (hfree : s.locks id = none) :
    Coupled (claimOne (policyBinds registry available requested) worker now s id) ∧
      (claimOne (policyBinds registry available requested) worker now s id).locks = s.locks := by
  simp only [claimOne]
  split
  · exact ⟨h, rfl⟩
  · next row hrow =>
    rcases h.row_mem hrow with ⟨hmem, rfl⟩
    split
    · exact ⟨h, rfl⟩
    · next bind hbind =>
      split
      · next hdue =>
        refine ⟨?_, rfl⟩
        have hgen := h.generation_le hmem
        have hbudget := policy_binds_bounds bind (List.mem_of_find?_eq_some hbind)
        refine h.record (.claimed hmem (by simpa using hdue) hbudget ?_ (by omega)) (by omega)
          (h.unlocked_apart hfree) ?_
        · intro hdrawn
          have := h.bounded _ hdrawn
          omega
        · intro g hg
          simp only [Change.draw, Option.map_some, Option.some.injEq] at hg
          have : g = s.sequence + 1 := hg.symm
          omega
      · exact ⟨h, rfl⟩

theorem outcome_coupled {s t : State} {id : JobId} {generation : ℕ} {transition : Transition}
    {now : Time} (h : Coupled s) (hop : outcome s id generation transition now = some t) :
    Coupled t := by
  simp only [outcome] at hop
  split at hop
  · cases hop
  · next hwaits =>
    split at hop
    · cases hop
      exact h
    · next row hrow =>
      split at hop
      · next hfenced =>
        cases hop
        rcases h.row_mem hrow with ⟨hmem, rfl⟩
        refine h.record (.outcome hmem hfenced) (Nat.le_refl _) ?_ (by simp [Change.draw])
        apply h.unlocked_apart
        simpa [State.waits, hrow, hfenced] using hwaits
      · cases hop
        exact h

theorem complete_batch_coupled {s t : State} {done : List (JobId × ℕ)} {now : Time}
    (h : Coupled s) (hop : completeBatch s done now = some t) : Coupled t := by
  induction done generalizing s with
  | nil =>
    cases hop
    exact h
  | cons claimed done ih =>
    rw [completeBatch, List.foldlM_cons] at hop
    rcases Option.bind_eq_some_iff.mp hop with ⟨u, hu, ht⟩
    exact ih (outcome_coupled h hu) ht

theorem retire_one_coupled {now : Time} {s : State} {id : JobId} (h : Coupled s)
    (hfree : s.locks id = none) :
    Coupled (retireOne now s id) ∧ (retireOne now s id).locks = s.locks := by
  simp only [retireOne]
  split
  · exact ⟨h, rfl⟩
  · next row hrow =>
    rcases h.row_mem hrow with ⟨hmem, rfl⟩
    split
    · next hdue =>
      exact ⟨h.record (.retired hmem hdue) (Nat.le_refl _) (h.unlocked_apart hfree)
        (by simp [Change.draw]), rfl⟩
    · exact ⟨h, rfl⟩

theorem claim_coupled {s t : State} {registry : Registry} {available : String → ℕ}
    {requested : ℕ} {worker : WorkerId} {now : Time} {held order : List JobId} (h : Coupled s)
    (hop : claim s registry available requested worker now held order = some t) : Coupled t := by
  simp only [claim] at hop
  split at hop
  · next hperm =>
    cases hop
    refine h.foldl id (fun _ _ hs hfree => claim_one_coupled hs hfree) ?_
    intro x hx
    have hlocked := picked_unlocked (hperm.mem_iff.mp hx)
    simp only [Bool.or_eq_false_iff] at hlocked
    simpa using hlocked.2
  · cases hop

theorem retention_coupled {s t : State} {ids : List JobId} {now : Time} (h : Coupled s)
    (hop : retention s ids now = some t) : Coupled t := by
  simp only [retention] at hop
  split at hop
  · next hguard =>
    cases hop
    exact h.foldl id (fun _ _ hs hfree => retire_one_coupled hs hfree) hguard.2
  · cases hop

theorem Coupled.burn {s : State} (h : Coupled s) :
    Coupled { s with sequence := s.sequence + 1 } := by
  refine ⟨h.legal, h.rows, ?_, ?_, h.distinct, h.apart⟩
  · intro g hg
    have := h.bounded g hg
    show g ≤ s.sequence + 1
    omega
  · intro t tx c htx hc
    rcases h.pending t tx c htx hc with ⟨hlegal, hclosing, hlock, hle⟩
    refine ⟨hlegal, hclosing, hlock, ?_⟩
    intro g hg
    have := hle g hg
    show g ≤ s.sequence + 1
    omega

theorem Coupled.answer {s : State} (h : Coupled s) (t : TxId) (op : TxOp) (result : CallResult) :
    Coupled (s.answer t op result) :=
  ⟨h.legal, h.rows, h.bounded, h.pending, h.distinct, h.apart⟩

theorem Coupled.lock {s : State} (h : Coupled s) {t : TxId} {id : JobId}
    (hfree : s.heldByOther t id = false) : Coupled (s.lock t id) := by
  refine ⟨h.legal, h.rows, h.bounded, ?_, h.distinct, h.apart⟩
  intro t' tx c htx hc
  rcases h.pending t' tx c htx hc with ⟨hlegal, hclosing, hlock, hle⟩
  refine ⟨hlegal, hclosing, ?_, hle⟩
  by_cases hid : c.id = id
  · subst hid
    have hsame : t' = t := by simpa [State.heldByOther, hlock] using hfree
    simp [State.lock, hsame]
  · simpa [State.lock, hid] using hlock

theorem Coupled.reserve {s : State} (h : Coupled s) (t : TxId) (row : Row) :
    Coupled (s.reserve t row) := by
  simp only [State.reserve]
  split
  · exact h
  · exact ⟨h.legal, h.rows, h.bounded, h.pending, h.distinct, h.apart⟩

theorem Coupled.write {s : State} (h : Coupled s) {t : TxId} {tx : Tx} {c : Change}
    (htx : s.txs t = some tx) (hc : Legal s.log c) (hclosing : Closing c)
    (hlock : s.locks c.id = some t) (hnew : ∀ d ∈ tx.writes, d.id ≠ c.id)
    (hbound : ∀ g, c.draw = some g → g ≤ s.sequence)
    (hdraw : ∀ t' tx' d, s.txs t' = some tx' → d ∈ tx'.writes →
      ∀ g, c.draw = some g → d.draw ≠ some g) :
    Coupled (s.write t tx c) := by
  have hcases : ∀ t' tx' d, (s.write t tx c).txs t' = some tx' → d ∈ tx'.writes →
      d = c ∧ t' = t ∨ ∃ old, s.txs t' = some old ∧ d ∈ old.writes := by
    intro t' tx' d htx' hd
    by_cases htt : t' = t
    · subst htt
      simp only [State.write, Function.update_self, Option.some.injEq] at htx'
      subst htx'
      rcases List.mem_append.mp hd with hd | hd
      · exact .inr ⟨tx, htx, hd⟩
      · exact .inl ⟨List.mem_singleton.mp hd, rfl⟩
    · exact .inr ⟨tx', by simpa [State.write, htt] using htx', hd⟩
  refine ⟨h.legal, h.rows, h.bounded, ?_, ?_, ?_⟩
  · intro t' tx' d htx' hd
    rcases hcases t' tx' d htx' hd with ⟨rfl, rfl⟩ | ⟨old, hold, hd⟩
    · exact ⟨hc, hclosing, hlock, hbound⟩
    · exact h.pending t' old d hold hd
  · intro t' tx' htx'
    by_cases htt : t' = t
    · subst htt
      simp only [State.write, Function.update_self, Option.some.injEq] at htx'
      subst htx'
      rw [List.map_append]
      refine List.nodup_append.mpr ⟨h.distinct t' tx htx, List.nodup_singleton _, ?_⟩
      rintro a ha b hb rfl
      rcases List.mem_map.mp ha with ⟨d, hd, rfl⟩
      exact hnew d hd (List.mem_singleton.mp hb)
    · exact h.distinct t' tx' (by simpa [State.write, htt] using htx')
  · intro t₁ tx₁ c₁ t₂ tx₂ c₂ h₁ hc₁ h₂ hc₂ hne g hg
    rcases hcases t₁ tx₁ c₁ h₁ hc₁ with ⟨rfl, rfl⟩ | ⟨old₁, hold₁, hc₁⟩ <;>
      rcases hcases t₂ tx₂ c₂ h₂ hc₂ with ⟨rfl, rfl⟩ | ⟨old₂, hold₂, hc₂⟩
    · exact absurd rfl hne
    · exact hdraw t₂ old₂ c₂ hold₂ hc₂ g hg
    · intro hg'
      exact hdraw t₁ old₁ c₁ hold₁ hc₁ g hg' hg
    · exact h.apart t₁ old₁ c₁ t₂ old₂ c₂ hold₁ hc₁ hold₂ hc₂ hne g hg

/-- A failed or leased row a transaction sees is the committed one, not its own write. -/
theorem Coupled.view_committed {s : State} (h : Coupled s) {t : TxId} {tx : Tx} {id : JobId}
    {row : Row} (htx : s.txs t = some tx) (hview : s.view tx id = some row)
    (hopen : row.state = .failed ∨ row.claimExpiresAt ≠ none) :
    row ∈ replay s.log ∧ row.id = id ∧ ∀ d ∈ tx.writes, d.id ≠ id := by
  simp only [State.view] at hview
  split at hview
  · next c hfind =>
    have hmem := List.mem_of_find?_eq_some hfind
    rcases (h.pending t tx c htx hmem).2.1.after row hview with ⟨hstate, hlease⟩
    rcases hopen with hfailed | hheld
    · exact absurd hfailed hstate
    · exact absurd hlease hheld
  · next hnone =>
    rcases h.row_mem hview with ⟨hmem, hid⟩
    refine ⟨hmem, hid, ?_⟩
    intro d hd heq
    have := List.find?_eq_none.mp hnone d hd
    simp [heq] at this

theorem open_coupled {s u : State} {t : TxId} (h : Coupled s) (hop : openTx s t = some u) :
    Coupled u := by
  simp only [openTx] at hop
  split at hop
  · next hnone =>
    cases hop
    have hcases : ∀ t' tx' d, Function.update s.txs t (some ⟨[], false⟩) t' = some tx' →
        d ∈ tx'.writes → s.txs t' = some tx' := by
      intro t' tx' d htx' hd
      by_cases htt : t' = t
      · subst htt
        simp only [Function.update_self, Option.some.injEq] at htx'
        subst htx'
        simp at hd
      · simpa [htt] using htx'
    refine ⟨h.legal, h.rows, h.bounded, ?_, ?_, ?_⟩
    · intro t' tx' d htx' hd
      exact h.pending t' tx' d (hcases t' tx' d htx' hd) hd
    · intro t' tx' htx'
      by_cases htt : t' = t
      · subst htt
        simp only [Function.update_self, Option.some.injEq] at htx'
        subst htx'
        exact List.nodup_nil
      · exact h.distinct t' tx' (by simpa [htt] using htx')
    · intro t₁ tx₁ c₁ t₂ tx₂ c₂ h₁ hc₁ h₂ hc₂
      exact h.apart t₁ tx₁ c₁ t₂ tx₂ c₂ (hcases _ _ _ h₁ hc₁) hc₁ (hcases _ _ _ h₂ hc₂) hc₂
  · cases hop

theorem Coupled.abort {s : State} (h : Coupled s) {t : TxId} {tx : Tx} (htx : s.txs t = some tx) :
    Coupled { s with txs := Function.update s.txs t (some { tx with aborted := true }) } := by
  have hcases : ∀ t' tx', Function.update s.txs t (some { tx with aborted := true }) t' = some tx' →
      ∃ old, s.txs t' = some old ∧ tx'.writes = old.writes := by
    intro t' tx' htx'
    by_cases htt : t' = t
    · subst htt
      simp only [Function.update_self, Option.some.injEq] at htx'
      exact ⟨tx, htx, by rw [← htx']⟩
    · exact ⟨tx', by simpa [htt] using htx', rfl⟩
  refine ⟨h.legal, h.rows, h.bounded, ?_, ?_, ?_⟩
  · intro t' tx' d htx' hd
    rcases hcases t' tx' htx' with ⟨old, hold, hw⟩
    exact h.pending t' old d hold (hw ▸ hd)
  · intro t' tx' htx'
    rcases hcases t' tx' htx' with ⟨old, hold, hw⟩
    exact hw ▸ h.distinct t' old hold
  · intro t₁ tx₁ c₁ t₂ tx₂ c₂ h₁ hc₁ h₂ hc₂
    rcases hcases t₁ tx₁ h₁ with ⟨old₁, hold₁, hw₁⟩
    rcases hcases t₂ tx₂ h₂ with ⟨old₂, hold₂, hw₂⟩
    exact h.apart t₁ old₁ c₁ t₂ old₂ c₂ hold₁ (hw₁ ▸ hc₁) hold₂ (hw₂ ▸ hc₂)

theorem redrive_coupled {s u : State} {t : TxId} {target : RecoveryTarget} {now : Time}
    (h : Coupled s) (hop : redrive s t target now = some u) : Coupled u := by
  simp only [redrive] at hop
  split at hop
  · cases hop
  next tx htx =>
  split at hop
  · cases hop
  next hguard =>
  simp only [Bool.or_eq_true, not_or, Bool.not_eq_true] at hguard
  split at hop
  · cases hop
    exact h.answer _ _ _
  next found hview =>
  have hlocked := h.lock hguard.2
  split at hop
  · cases hop
    exact hlocked.answer _ _ _
  next row hok =>
  rcases lock_failed_ok hok with ⟨hfound, hkind, hfailed, hversion⟩
  cases hfound
  rcases h.view_committed htx hview (.inl hfailed) with ⟨hmem, hid, hnew⟩
  have hgen := h.generation_le hmem
  split at hop
  · cases hop
  split at hop
  · cases hop
    exact (hlocked.burn.abort htx).answer _ _ _
  · cases hop
    refine Coupled.answer ?_ _ _ _
    refine Coupled.reserve ?_ _ _
    refine hlocked.burn.write htx ?_ ?_ ?_ ?_ ?_ ?_
    · refine .redriven hmem hid hok ?_ (Nat.lt_succ_of_le hgen)
      intro hdrawn
      exact Nat.not_succ_le_self _ (h.bounded _ hdrawn)
    · refine ⟨rfl, ?_⟩
      rintro row ⟨⟩
      exact ⟨by simp [Row.redrive], rfl⟩
    · simp [State.lock, hid]
    · intro d hd
      exact hid ▸ hnew d hd
    · rintro g ⟨⟩
      exact Nat.le_refl _
    · rintro t' tx' d htx' hd g ⟨⟩ hg
      exact Nat.not_succ_le_self _ ((h.pending t' tx' d htx' hd).2.2.2 _ hg)

theorem discard_coupled {s u : State} {t : TxId} {target : RecoveryTarget}
    (h : Coupled s) (hop : discard s t target = some u) : Coupled u := by
  simp only [discard] at hop
  split at hop
  · cases hop
  next tx htx =>
  split at hop
  · cases hop
  next hguard =>
  simp only [Bool.or_eq_true, not_or, Bool.not_eq_true] at hguard
  split at hop
  · cases hop
    exact h.answer _ _ _
  next found hview =>
  have hlocked := h.lock hguard.2
  split at hop
  · cases hop
    exact hlocked.answer _ _ _
  next row hok =>
  cases hop
  rcases lock_failed_ok hok with ⟨hfound, hkind, hfailed, hversion⟩
  cases hfound
  rcases h.view_committed htx hview (.inl hfailed) with ⟨hmem, hid, hnew⟩
  refine Coupled.answer ?_ _ _ _
  refine hlocked.write htx (.discarded hmem hid hok) ⟨rfl, by simp⟩ ?_ ?_ (by simp [Change.draw])
    (by simp [Change.draw])
  · simp [State.lock, hid]
  · intro d hd
    exact hid ▸ hnew d hd

theorem complete_in_tx_coupled {s u : State} {t : TxId} {id : JobId} {generation : ℕ} {now : Time}
    (h : Coupled s) (hop : completeInTx s t id generation now = some u) : Coupled u := by
  simp only [completeInTx] at hop
  split at hop
  · cases hop
  next tx htx =>
  split at hop
  · cases hop
  split at hop
  · cases hop
    exact h.answer _ _ _
  next row hview =>
  split at hop
  · next hfenced =>
    split at hop
    · cases hop
    next hheld =>
    cases hop
    have hlease := (Row.fenced hfenced).2
    rcases h.view_committed htx hview (.inr (Option.isSome_iff_ne_none.mp hlease)) with
      ⟨hmem, hid, hnew⟩
    refine Coupled.answer ?_ _ _ _
    refine (h.lock (by simpa using hheld)).write htx (.outcome hmem hfenced) ⟨rfl, ?_⟩ ?_ ?_
      (by simp [Change.draw]) (by simp [Change.draw])
    · rintro row' ⟨⟩
      exact ⟨by simp [Row.execute], rfl⟩
    · simp [State.lock, hid]
    · intro d hd
      exact hid ▸ hnew d hd
  · cases hop
    exact h.answer _ _ _

theorem Coupled.close {s : State} (h : Coupled s) (t : TxId) : Coupled (s.close t) := by
  have hcases : ∀ t' tx', Function.update s.txs t none t' = some tx' →
      t' ≠ t ∧ s.txs t' = some tx' := by
    intro t' tx' htx'
    by_cases htt : t' = t
    · subst htt
      simp at htx'
    · exact ⟨htt, by simpa [htt] using htx'⟩
  refine ⟨h.legal, h.rows, h.bounded, ?_, ?_, ?_⟩
  · intro t' tx' d htx' hd
    rcases hcases t' tx' htx' with ⟨hne, hold⟩
    rcases h.pending t' tx' d hold hd with ⟨hlegal, hclosing, hlock, hle⟩
    exact ⟨hlegal, hclosing, by simp [State.close, hlock, hne], hle⟩
  · intro t' tx' htx'
    exact h.distinct t' tx' (hcases t' tx' htx').2
  · intro t₁ tx₁ c₁ t₂ tx₂ c₂ h₁ hc₁ h₂ hc₂
    exact h.apart t₁ tx₁ c₁ t₂ tx₂ c₂ (hcases _ _ h₁).2 hc₁ (hcases _ _ h₂).2 hc₂

theorem Coupled.writes_apart {s : State} (h : Coupled s) {t : TxId} {tx : Tx}
    (htx : s.txs t = some tx) : tx.writes.Pairwise Apart := by
  have hids : tx.writes.Pairwise fun c d => c.id ≠ d.id :=
    List.pairwise_map.mp (h.distinct t tx htx)
  refine hids.imp_of_mem ?_
  intro c d hc hd hne
  refine ⟨hne, ?_⟩
  intro g hg
  exact h.apart t tx d t tx c htx hd htx hc (Ne.symm hne) g hg

/-- The row locks keep two transactions apart, so the writes of one stay legal after the other's. -/
theorem Coupled.others_legal {s : State} (h : Coupled s) {t t' : TxId} {tx tx' : Tx} {d : Change}
    (htx : s.txs t = some tx) (hne : t' ≠ t) (htx' : s.txs t' = some tx') (hd : d ∈ tx'.writes) :
    Legal (s.log ++ tx.writes) d := by
  rcases h.pending t' tx' d htx' hd with ⟨hlegal, -, hlock, -⟩
  have hlast : (tx.writes ++ [d]).Pairwise Apart := by
    refine List.pairwise_append.mpr ⟨h.writes_apart htx, List.pairwise_singleton _ _, ?_⟩
    intro c hc d' hd'
    cases List.mem_singleton.mp hd'
    have hid : c.id ≠ d.id := by
      intro heq
      have hmine := (h.pending t tx c htx hc).2.2.1
      rw [heq, hlock] at hmine
      exact hne (Option.some.inj hmine)
    exact ⟨hid, h.apart t' tx' d t tx c htx' hd htx hc (Ne.symm hid)⟩
  have hlegals : ∀ c ∈ tx.writes ++ [d], Legal s.log c := by
    intro c hc
    rcases List.mem_append.mp hc with hc | hc
    · exact (h.pending t tx c htx hc).1
    · exact List.mem_singleton.mp hc ▸ hlegal
  have hfull := legal_append h.legal hlegals hlast
  rw [← List.append_assoc] at hfull
  exact hfull.last.2

/-- Committing applies the writes; every other open transaction keeps its own legal. -/
theorem commit_coupled {s u : State} {t : TxId} (h : Coupled s) (hop : commit s t = some u) :
    Coupled u := by
  simp only [commit] at hop
  split at hop
  · cases hop
  next tx htx =>
  split at hop
  · cases hop
  cases hop
  have hall : ∀ c ∈ tx.writes, Legal s.log c := fun c hc => (h.pending t tx c htx hc).1
  have hclosed := h.close t
  refine ⟨legal_append h.legal hall (h.writes_apart htx), ?_, ?_, ?_, hclosed.distinct, hclosed.apart⟩
  · simp [State.close, h.rows, replay_append]
  · intro g hg
    simp only [State.close, drawn, List.filterMap_append, List.mem_append] at hg
    rcases hg with hg | hg
    · exact h.bounded g hg
    · rcases List.mem_filterMap.mp hg with ⟨c, hc, hdraw⟩
      exact (h.pending t tx c htx hc).2.2.2 g hdraw
  · intro t' tx' d htx' hd
    have hne : t' ≠ t := by
      rintro rfl
      simp [State.close] at htx'
    have hold : s.txs t' = some tx' := by simpa [State.close, hne] using htx'
    exact ⟨h.others_legal htx hne hold hd, (hclosed.pending t' tx' d htx' hd).2⟩

theorem rollback_coupled {s u : State} {t : TxId} (h : Coupled s) (hop : rollback s t = some u) :
    Coupled u := by
  simp only [rollback] at hop
  split at hop
  · cases hop
  · cases hop
    exact h.close t

theorem step_coupled {s t : State} {e : Event} (h : Coupled s) (hstep : step s e = some t) :
    Coupled t := by
  cases e with
  | enqueue => exact enqueue_coupled h hstep
  | claim => exact claim_coupled h hstep
  | burn => exact Option.some.inj hstep ▸ h.burn
  | outcome => exact outcome_coupled h hstep
  | completeBatch => exact complete_batch_coupled h hstep
  | retention => exact retention_coupled h hstep
  | «open» => exact open_coupled h hstep
  | redrive => exact redrive_coupled h hstep
  | discard => exact discard_coupled h hstep
  | completeInTx => exact complete_in_tx_coupled h hstep
  | commit => exact commit_coupled h hstep
  | rollback => exact rollback_coupled h hstep

theorem reachable_coupled {s : State} (h : jobs.Reachable s) : Coupled s :=
  h.induction (P := Coupled) initial_coupled fun _ _ _ _ hs hstep => step_coupled hs hstep

private theorem foldl_extends {α : Type*} {f : State → α → State}
    (hf : ∀ s a, s.log <+: (f s a).log) (xs : List α) (s : State) :
    s.log <+: (xs.foldl f s).log := by
  induction xs generalizing s with
  | nil => exact List.prefix_rfl
  | cons x xs ih => exact (hf s x).trans (ih (f s x))

theorem outcome_extends {s t : State} {id : JobId} {generation : ℕ} {transition : Transition}
    {now : Time} (hop : outcome s id generation transition now = some t) : s.log <+: t.log := by
  simp only [outcome] at hop
  repeat' split at hop
  all_goals cases hop
  all_goals first | exact List.prefix_rfl | exact List.prefix_append _ _

private theorem complete_batch_extends {s t : State} {done : List (JobId × ℕ)} {now : Time}
    (hop : completeBatch s done now = some t) : s.log <+: t.log := by
  induction done generalizing s with
  | nil =>
    cases hop
    exact List.prefix_rfl
  | cons claimed done ih =>
    rw [completeBatch, List.foldlM_cons] at hop
    rcases Option.bind_eq_some_iff.mp hop with ⟨u, hu, ht⟩
    exact (outcome_extends hu).trans (ih ht)

private theorem claim_one_extends (binds : List PolicyBind) (worker : WorkerId) (now : Time)
    (s : State) (id : JobId) : s.log <+: (claimOne binds worker now s id).log := by
  simp only [claimOne]
  repeat' split
  all_goals first | exact List.prefix_rfl | exact List.prefix_append _ _

private theorem retire_one_extends (now : Time) (s : State) (id : JobId) :
    s.log <+: (retireOne now s id).log := by
  simp only [retireOne]
  repeat' split
  all_goals first | exact List.prefix_rfl | exact List.prefix_append _ _

theorem step_extends {s t : State} {e : Event} (hstep : step s e = some t) : s.log <+: t.log := by
  cases e with
  | outcome => exact outcome_extends hstep
  | completeBatch => exact complete_batch_extends hstep
  | claim registry available requested worker now held order =>
    simp only [step, claim] at hstep
    split at hstep
    · cases hstep
      exact foldl_extends (claim_one_extends _ worker now) order s
    · cases hstep
  | retention ids now =>
    simp only [step, retention] at hstep
    split at hstep
    · cases hstep
      exact foldl_extends (retire_one_extends now) ids s
    · cases hstep
  | redrive t target now =>
    simp only [step, redrive] at hstep
    repeat' split at hstep
    all_goals cases hstep
    all_goals first | exact List.prefix_rfl | skip
    simp only [State.answer, State.reserve]
    split <;> exact List.prefix_rfl
  | _ =>
    simp only [step, enqueue, openTx, discard, completeInTx, commit, rollback] at hstep
    repeat' split at hstep
    all_goals cases hstep
    all_goals first | exact List.prefix_rfl | exact List.prefix_append _ _

def Event.tx : Event → Option TxId
  | .open t | .redrive t _ _ | .discard t _ | .completeInTx t _ _ _ | .commit t | .rollback t =>
    some t
  | _ => none

/-- Worker statements leave open transactions alone and create no job. -/
structure Quiet (s t : State) : Prop where
  txs : t.txs = s.txs
  log : ∃ ws, t.log = s.log ++ ws ∧ ∀ w ∈ ws, w.cause ≠ .enqueued

theorem Quiet.refl (s : State) : Quiet s s := ⟨rfl, [], by simp, by simp⟩

theorem Quiet.trans {s t u : State} (h : Quiet s t) (k : Quiet t u) : Quiet s u := by
  rcases h with ⟨htxs, ws, hlog, hws⟩
  rcases k with ⟨ktxs, vs, klog, kvs⟩
  refine ⟨ktxs.trans htxs, ws ++ vs, by rw [klog, hlog, List.append_assoc], ?_⟩
  intro w hw
  rcases List.mem_append.mp hw with hw | hw
  · exact hws w hw
  · exact kvs w hw

theorem Quiet.record (s : State) {c : Change} (hc : c.cause ≠ .enqueued) :
    Quiet s (s.record c) := ⟨rfl, [c], rfl, by simpa using hc⟩

theorem Quiet.foldl {α : Type*} {f : State → α → State} (hf : ∀ s a, Quiet s (f s a))
    (xs : List α) (s : State) : Quiet s (xs.foldl f s) := by
  induction xs generalizing s with
  | nil => exact .refl s
  | cons x xs ih => exact (hf s x).trans (ih (f s x))

theorem claim_one_quiet (binds : List PolicyBind) (worker : WorkerId) (now : Time) (s : State)
    (id : JobId) : Quiet s (claimOne binds worker now s id) := by
  simp only [claimOne]
  repeat' split
  all_goals first | exact .refl _ | exact ⟨rfl, [_], rfl, by simp⟩

theorem retire_one_quiet (now : Time) (s : State) (id : JobId) :
    Quiet s (retireOne now s id) := by
  simp only [retireOne]
  repeat' split
  all_goals first | exact .refl s | exact .record s (by simp)

theorem outcome_quiet {s t : State} {id : JobId} {generation : ℕ} {transition : Transition}
    {now : Time} (hop : outcome s id generation transition now = some t) : Quiet s t := by
  simp only [outcome] at hop
  repeat' split at hop
  all_goals cases hop
  all_goals first | exact .refl s | exact .record s (by simp)

@[simp] theorem reserve_txs (s : State) (t : TxId) (row : Row) : (s.reserve t row).txs = s.txs := by
  simp only [State.reserve]
  split <;> rfl

@[simp] theorem reserve_log (s : State) (t : TxId) (row : Row) : (s.reserve t row).log = s.log := by
  simp only [State.reserve]
  split <;> rfl

/-- Until it commits, a transaction changes nothing but its own record. -/
theorem tx_confined {s u : State} {x : TxId}
    (hop : openTx s x = some u ∨ (∃ target now, redrive s x target now = some u) ∨
      (∃ target, discard s x target = some u) ∨
      (∃ id generation now, completeInTx s x id generation now = some u) ∨
      rollback s x = some u) :
    (∀ y, y ≠ x → u.txs y = s.txs y) ∧ u.log = s.log := by
  rcases hop with hop | ⟨target, now, hop⟩ | ⟨target, hop⟩ | ⟨id, generation, now, hop⟩ | hop
  all_goals
    simp only [openTx, redrive, discard, completeInTx, rollback] at hop
    repeat' split at hop
    all_goals cases hop
    all_goals
      refine ⟨fun y hy => ?_, ?_⟩
      · simp [State.answer, State.write, State.lock, State.close, hy]
      · simp [State.answer, State.write, State.lock, State.close]

theorem complete_batch_quiet {s t : State} {done : List (JobId × ℕ)} {now : Time}
    (hop : completeBatch s done now = some t) : Quiet s t := by
  induction done generalizing s with
  | nil =>
    cases hop
    exact .refl _
  | cons claimed done ih =>
    rw [completeBatch, List.foldlM_cons] at hop
    rcases Option.bind_eq_some_iff.mp hop with ⟨u, hu, ht⟩
    exact (outcome_quiet hu).trans (ih ht)

/-- The log grows, and by a creation only when the event is the enqueue of that job. -/
def Grows (e : Event) (s t : State) : Prop :=
  ∃ ws, t.log = s.log ++ ws ∧ ∀ w ∈ ws, w.cause = .enqueued → ∃ job now,
    e = .enqueue job now ∧ w = ⟨job.id, .enqueued, none, some (job.row now)⟩

/-- A step changes its own transaction only, and creates a job only by an enqueue. -/
theorem step_frame {s t : State} {e : Event} (h : Coupled s) (hstep : step s e = some t) :
    (∀ x, e.tx ≠ some x → t.txs x = s.txs x) ∧ Grows e s t := by
  have hquiet : Quiet s t → (∀ x, e.tx ≠ some x → t.txs x = s.txs x) ∧ Grows e s t := by
    rintro ⟨htxs, ws, hlog, hws⟩
    exact ⟨fun x _ => congrFun htxs x, ws, hlog, fun w hw hcause => absurd hcause (hws w hw)⟩
  have hconfined : ∀ x, e.tx = some x → (∀ y, y ≠ x → t.txs y = s.txs y) ∧ t.log = s.log →
      (∀ x, e.tx ≠ some x → t.txs x = s.txs x) ∧ Grows e s t := by
    rintro x hx ⟨htxs, hlog⟩
    refine ⟨fun y hy => htxs y ?_, [], by simp [hlog], by simp⟩
    rintro rfl
    exact hy hx
  cases e with
  | enqueue job now =>
    simp only [step, enqueue] at hstep
    split at hstep
    · cases hstep
    · split at hstep
      · cases hstep
        exact hquiet (.refl s)
      · cases hstep
        exact ⟨fun _ _ => rfl, [_], rfl, by simp⟩
  | claim registry available requested worker now held order =>
    simp only [step, claim] at hstep
    split at hstep
    · cases hstep
      exact hquiet (.foldl (claim_one_quiet _ worker now) order s)
    · cases hstep
  | burn =>
    cases hstep
    exact hquiet ⟨rfl, [], by simp, by simp⟩
  | outcome => exact hquiet (outcome_quiet hstep)
  | completeBatch => exact hquiet (complete_batch_quiet hstep)
  | retention ids now =>
    simp only [step, retention] at hstep
    split at hstep
    · cases hstep
      exact hquiet (.foldl (retire_one_quiet now) ids s)
    · cases hstep
  | commit x =>
    simp only [step, commit] at hstep
    split at hstep
    · cases hstep
    next tx htx =>
    split at hstep
    · cases hstep
    cases hstep
    refine ⟨fun y hy => Function.update_of_ne (by simpa [Event.tx, eq_comm] using hy) _ _,
      tx.writes, rfl, ?_⟩
    intro w hw hcause
    -- what a transaction wrote replaces a committed row, so it is no creation
    rcases h.pending x tx w htx hw with ⟨hlegal, hclosing, -⟩
    have hbefore := hclosing.before
    cases hlegal <;> simp_all
  | «open» x => exact hconfined x rfl (tx_confined (.inl hstep))
  | redrive x target now =>
    exact hconfined x rfl (tx_confined (.inr (.inl ⟨target, now, hstep⟩)))
  | discard x target =>
    exact hconfined x rfl (tx_confined (.inr (.inr (.inl ⟨target, hstep⟩))))
  | completeInTx x id generation now =>
    exact hconfined x rfl (tx_confined (.inr (.inr (.inr (.inl ⟨id, generation, now, hstep⟩)))))
  | rollback x => exact hconfined x rfl (tx_confined (.inr (.inr (.inr (.inr hstep)))))

end JobsSystem
