import ServiceTemplate.TransitionSystem
import ServiceTemplate.IdempotencyRecord
import Mathlib.Logic.Function.Basic
import Mathlib.Data.List.Basic

/-! Arbitration of one idempotency scope at the database writer.
An attempt is the statement sequence of one READ COMMITTED transaction. Every
statement takes its own snapshot of the committed rows; the advisory lock is tried
after the snapshot of statement 1 and released after the commit is visible.
Row locks order the record write against cleanup batches. No fairness is assumed. -/
namespace IdempotencyArbitration

open TransitionSystem
open IdempotencyRecord

/-- Microseconds of the database clock. -/
abbrev Time := ℤ
abbrev AttemptId := ℕ
abbrev CleanupId := ℕ

/-- At most this many expired rows leave the table in one cleanup batch. -/
def cleanupBatchRows : ℕ := 500

structure Request where
  scope : ScopeKey
  caller : CallerIdentity
  fingerprint : Digest
  retention : ℕ
  deriving DecidableEq, Repr

structure Row where
  record : Record
  caller : CallerIdentity
  expiresAt : Time
  deriving DecidableEq, Repr

inductive AttemptError where
  | unavailable
  | internal
  | integrity
  deriving DecidableEq, Repr

inductive Attempted (C R : Type*) where
  | committed (value : C)
  | rolledBack (value : R)
  | replay (record : Record)
  | mismatch
  | inProgress

abbrev Outcome (C R : Type*) := Except AttemptError (Attempted C R)

/-- Where one attempt stands. `seen` holds the snapshot of statement 1 before its lock
is tried; `committed` is visible and still holds the lock; `stopped` has answered, but
its rollback has not reached the server. -/
inductive Phase (C : Type*) where
  | begun
  | seen (live : Option Row) (writable : Bool) (stamp : Time)
  | locked
  | running (readAt : Time)
  | worked (record : Record) (value : C) (readAt : Time)
  | written (row : Row) (value : C) (readAt writtenAt : Time)
  | committed (value : C)
  | stopped
  | ended

structure Attempt (C : Type*) where
  request : Request
  since : Time
  phase : Phase C

inductive RowHolder where
  | attempt (a : AttemptId)
  | cleanup (c : CleanupId)
  deriving DecidableEq, Repr

structure Commit where
  attempt : AttemptId
  request : Request
  row : Row
  readAt : Time
  writtenAt : Time

structure Answer (C R : Type*) where
  attempt : AttemptId
  request : Request
  outcome : Outcome C R
  stamp : Time

structure State (C R : Type*) where
  clock : Time
  table : ScopeKey → Option Row
  locks : ℤ → Option AttemptId
  rowLocks : ScopeKey → Option RowHolder
  attempts : AttemptId → Option (Attempt C)
  cleanups : CleanupId → Option (List ScopeKey)
  commits : List Commit
  answers : List (Answer C R)

inductive Event (C R : Type*) where
  | tick (elapsed : ℕ)
  | start (a : AttemptId) (request : Request)
  | statement1 (a : AttemptId) (stamp : Time) (writable : Bool)
  | tryLock (a : AttemptId)
  | statement2 (a : AttemptId) (stamp : Time)
  | work (a : AttemptId) (result : Except R (Record × C))
  | write (a : AttemptId) (stamp : Time)
  | commit (a : AttemptId)
  | release (a : AttemptId) (acknowledged : Bool)
  | fail (a : AttemptId) (error : AttemptError)
  | lose (a : AttemptId)
  | rollback (a : AttemptId)
  | cleanupDelete (c : CleanupId) (stamp : Time) (scopes : List ScopeKey)
  | cleanupCommit (c : CleanupId)
  | cleanupAbort (c : CleanupId)

variable {C R : Type*}

def initial : State C R :=
  ⟨0, fun _ => none, fun _ => none, fun _ => none, fun _ => none, fun _ => none, [], []⟩

/-- `expires_at > statement_timestamp()` over the row a snapshot holds. -/
def liveAt (stamp : Time) (row : Option Row) : Option Row :=
  row.filter fun r => decide (stamp < r.expiresAt)

def liveRecord (fingerprint : Digest) (row : Row) : Attempted C R :=
  if row.record.fingerprint = fingerprint then .replay row.record else .mismatch

/-- What statement 1 decides; `none` continues with statement 2. -/
def decideFirst (fingerprint : Digest) (writable acquired : Bool) (live : Option Row) :
    Option (Outcome C R) :=
  if !writable then some (.error .unavailable)
  else match live with
    | some row => some (.ok (liveRecord fingerprint row))
    | none => if acquired then none else some (.ok .inProgress)

/-- What statement 2 decides; `none` runs the work. -/
def decideSecond (fingerprint : Digest) (live : Option Row) : Option (Outcome C R) :=
  live.map fun row => .ok (liveRecord fingerprint row)

def State.set (s : State C R) (a : AttemptId) (request : Request) (phase : Phase C) : State C R :=
  { s with attempts := Function.update s.attempts a (some ⟨request, s.clock, phase⟩) }

def State.answer (s : State C R) (a : AttemptId) (request : Request) (outcome : Outcome C R)
    (stamp : Time) : State C R :=
  { s with answers := s.answers ++ [⟨a, request, outcome, stamp⟩] }

/-- A statement's timestamp lies between the attempt's previous step and the present. -/
def State.Stamped (s : State C R) (since stamp : Time) : Prop := since ≤ stamp ∧ stamp ≤ s.clock

instance (s : State C R) (since stamp : Time) : Decidable (s.Stamped since stamp) :=
  inferInstanceAs (Decidable (_ ∧ _))

def start (s : State C R) (a : AttemptId) (request : Request) : Option (State C R) :=
  match s.attempts a with
  | none => some (s.set a request .begun)
  | some _ => none

def statement1 (s : State C R) (a : AttemptId) (stamp : Time) (writable : Bool) :
    Option (State C R) :=
  match s.attempts a with
  | some ⟨request, since, .begun⟩ =>
    if s.Stamped since stamp then
      some (s.set a request (.seen (liveAt stamp (s.table request.scope)) writable stamp))
    else none
  | _ => none

/-- The second half of statement 1: `pg_try_advisory_xact_lock`, then the decision. -/
def tryLock (s : State C R) (a : AttemptId) : Option (State C R) :=
  match s.attempts a with
  | some ⟨request, _, .seen live writable stamp⟩ =>
    let acquired := (s.locks request.scope.lockKey).isNone
    let taken := if acquired then
      { s with locks := Function.update s.locks request.scope.lockKey (some a) } else s
    match decideFirst request.fingerprint writable acquired live with
    | some outcome => some ((taken.set a request .stopped).answer a request outcome stamp)
    | none => some (taken.set a request .locked)
  | _ => none

def statement2 (s : State C R) (a : AttemptId) (stamp : Time) : Option (State C R) :=
  match s.attempts a with
  | some ⟨request, since, .locked⟩ =>
    if s.Stamped since stamp then
      match decideSecond request.fingerprint (liveAt stamp (s.table request.scope)) with
      | some outcome => some ((s.set a request .stopped).answer a request outcome stamp)
      | none => some (s.set a request (.running s.clock))
    else none
  | _ => none

def work (s : State C R) (a : AttemptId) (result : Except R (Record × C)) : Option (State C R) :=
  match s.attempts a with
  | some ⟨request, _, .running readAt⟩ =>
    match result with
    | .ok (record, value) => some (s.set a request (.worked record value readAt))
    | .error value =>
      some ((s.set a request .stopped).answer a request (.ok (.rolledBack value)) s.clock)
  | _ => none

/-- The upsert waits for a row another transaction holds, replaces only an expired row,
and reports a live one as an internal failure. A record that violates a CHECK constraint
is never written: its statement ends in `fail`. -/
def write (s : State C R) (a : AttemptId) (stamp : Time) : Option (State C R) :=
  match s.attempts a with
  | some ⟨request, since, .worked record value readAt⟩ =>
    if s.Stamped since stamp ∧ s.rowLocks request.scope = none ∧ record.Checked then
      if (liveAt stamp (s.table request.scope)).isSome then
        some ((s.set a request .stopped).answer a request (.error .internal) stamp)
      else
        let row : Row := ⟨record, request.caller, stamp + request.retention⟩
        some { s.set a request (.written row value readAt stamp) with
          rowLocks := Function.update s.rowLocks request.scope (some (.attempt a)) }
    else none
  | _ => none

def commit (s : State C R) (a : AttemptId) : Option (State C R) :=
  match s.attempts a with
  | some ⟨request, _, .written row value readAt writtenAt⟩ =>
    some { s.set a request (.committed value) with
      table := Function.update s.table request.scope (some row)
      rowLocks := Function.update s.rowLocks request.scope none
      commits := s.commits ++ [⟨a, request, row, readAt, writtenAt⟩] }
  | _ => none

/-- Locks go after the commit is visible; the acknowledgement may be lost. -/
def release (s : State C R) (a : AttemptId) (acknowledged : Bool) : Option (State C R) :=
  match s.attempts a with
  | some ⟨request, _, .committed value⟩ =>
    let freed := { s.set a request .ended with
      locks := Function.update s.locks request.scope.lockKey none }
    some (if acknowledged then freed.answer a request (.ok (.committed value)) s.clock else freed)
  | _ => none

def Phase.open : Phase C → Bool
  | .committed _ | .stopped | .ended => false
  | _ => true

def Phase.uncommitted : Phase C → Bool
  | .committed _ | .ended => false
  | _ => true

/-- A statement or the driver failed, or the server refused the commit. -/
def fail (s : State C R) (a : AttemptId) (error : AttemptError) : Option (State C R) :=
  match s.attempts a with
  | some attempt =>
    if attempt.phase.open then
      some ((s.set a attempt.request .stopped).answer a attempt.request (.error error) s.clock)
    else none
  | none => none

/-- The client stops waiting for the answer to COMMIT; the server may still commit. -/
def lose (s : State C R) (a : AttemptId) : Option (State C R) :=
  match s.attempts a with
  | some ⟨request, _, .written _ _ _ _⟩ | some ⟨request, _, .committed _⟩ =>
    some (s.answer a request (.error .unavailable) s.clock)
  | _ => none

/-- Rollback, cancellation or crash: the writes are discarded and every lock is released. -/
def rollback (s : State C R) (a : AttemptId) : Option (State C R) :=
  match s.attempts a with
  | some attempt =>
    if attempt.phase.uncommitted then
      some { s.set a attempt.request .ended with
        locks := fun k => if s.locks k = some a then none else s.locks k
        rowLocks := fun k => if s.rowLocks k = some (.attempt a) then none else s.rowLocks k }
    else none
  | none => none

def Expired (stamp : Time) (row : Option Row) : Prop := ∃ r, row = some r ∧ r.expiresAt ≤ stamp

instance (stamp : Time) (row : Option Row) : Decidable (Expired stamp row) :=
  match row with
  | none => isFalse (by rintro ⟨_, h, _⟩; cases h)
  | some r =>
    if h : r.expiresAt ≤ stamp then isTrue ⟨r, rfl, h⟩
    else isFalse (by rintro ⟨_, hr, hle⟩; cases hr; exact h hle)

/-- Rows a running attempt or another batch holds are skipped. Which of the expired rows
a batch takes is left open. -/
def cleanupDelete (s : State C R) (c : CleanupId) (stamp : Time) (scopes : List ScopeKey) :
    Option (State C R) :=
  if s.cleanups c = none ∧ stamp ≤ s.clock ∧ scopes.length ≤ cleanupBatchRows ∧
      ∀ k ∈ scopes, Expired stamp (s.table k) ∧ s.rowLocks k = none then
    some { s with
      cleanups := Function.update s.cleanups c (some scopes)
      rowLocks := fun k => if k ∈ scopes then some (.cleanup c) else s.rowLocks k }
  else none

def cleanupCommit (s : State C R) (c : CleanupId) : Option (State C R) :=
  (s.cleanups c).map fun scopes =>
    { s with
      table := fun k => if k ∈ scopes then none else s.table k
      rowLocks := fun k => if k ∈ scopes then none else s.rowLocks k
      cleanups := Function.update s.cleanups c none }

def cleanupAbort (s : State C R) (c : CleanupId) : Option (State C R) :=
  (s.cleanups c).map fun scopes =>
    { s with
      rowLocks := fun k => if k ∈ scopes then none else s.rowLocks k
      cleanups := Function.update s.cleanups c none }

def step (s : State C R) : Event C R → Option (State C R)
  | .tick elapsed => some { s with clock := s.clock + elapsed }
  | .start a request => start s a request
  | .statement1 a stamp writable => statement1 s a stamp writable
  | .tryLock a => tryLock s a
  | .statement2 a stamp => statement2 s a stamp
  | .work a result => work s a result
  | .write a stamp => write s a stamp
  | .commit a => commit s a
  | .release a acknowledged => release s a acknowledged
  | .fail a error => fail s a error
  | .lose a => lose s a
  | .rollback a => rollback s a
  | .cleanupDelete c stamp scopes => cleanupDelete s c stamp scopes
  | .cleanupCommit c => cleanupCommit s c
  | .cleanupAbort c => cleanupAbort s c

def store (C R : Type*) : System (State C R) (Event C R) := ⟨initial, step⟩

def Phase.Holding : Phase C → Prop
  | .locked | .running _ | .worked _ _ _ | .written _ _ _ _ | .committed _ => True
  | _ => False

def Phase.decidedAt : Phase C → Option Time
  | .running readAt | .worked _ _ readAt | .written _ _ readAt _ => some readAt
  | _ => none

def Phase.Durable : Phase C → Prop
  | .committed _ | .ended => True
  | _ => False

def Phase.Closed : Phase C → Prop
  | .stopped | .ended => True
  | _ => False

/-- What the locks, the clock and the commit history say about one attempt. -/
structure Attempt.Sound (s : State C R) (a : AttemptId) (attempt : Attempt C) : Prop where
  holds : attempt.phase.Holding → s.locks attempt.request.scope.lockKey = some a
  fresh : ∀ t, attempt.phase.decidedAt = some t → t ≤ s.clock ∧
    ∀ c ∈ s.commits, c.request.scope = attempt.request.scope → c.row.expiresAt ≤ t
  seen : ∀ row w stamp, attempt.phase = .seen (some row) w stamp → stamp < row.expiresAt ∧
    ∃ c ∈ s.commits, c.request.scope = attempt.request.scope ∧ c.row = row
  written : ∀ row v t w, attempt.phase = .written row v t w →
    s.rowLocks attempt.request.scope = some (.attempt a) ∧
      row.expiresAt = w + attempt.request.retention ∧ row.record.Checked
  volatile : ¬ attempt.phase.Durable → ∀ c ∈ s.commits, c.attempt ≠ a
  durable : ∀ v, attempt.phase = .committed v →
    ∃ c ∈ s.commits, c.attempt = a ∧ c.request = attempt.request

/-- A live record of the answered scope decided, unexpired at the deciding read. -/
def Decisive (s : State C R) (ans : Answer C R) (c : Commit) : Prop :=
  c ∈ s.commits ∧ c.request.scope = ans.request.scope ∧ ans.stamp < c.row.expiresAt

structure Answer.Sound (s : State C R) (ans : Answer C R) : Prop where
  committed : ∀ v, ans.outcome = .ok (.committed v) →
    ∃ c ∈ s.commits, c.attempt = ans.attempt ∧ c.request = ans.request
  replay : ∀ r, ans.outcome = .ok (.replay r) → ∃ c, Decisive s ans c ∧
    c.row.record = r ∧ r.fingerprint = ans.request.fingerprint
  mismatch : ans.outcome = .ok .mismatch → ∃ c, Decisive s ans c ∧
    c.row.record.fingerprint ≠ ans.request.fingerprint
  final : ans.outcome ≠ .error .unavailable → (∀ v, ans.outcome ≠ .ok (.committed v)) →
    (∃ attempt, s.attempts ans.attempt = some attempt ∧ attempt.phase.Closed) ∧
      ∀ c ∈ s.commits, c.attempt ≠ ans.attempt

structure Invariant (s : State C R) : Prop where
  attempts : ∀ a attempt, s.attempts a = some attempt → attempt.Sound s a
  kept : ∀ c ∈ s.commits, s.table c.request.scope = some c.row ∨ c.row.expiresAt ≤ s.clock
  stored : ∀ k row, s.table k = some row → ∃ c ∈ s.commits, c.request.scope = k ∧ c.row = row
  cleaning : ∀ c scopes, s.cleanups c = some scopes → ∀ k ∈ scopes,
    s.rowLocks k = some (.cleanup c) ∧ Expired s.clock (s.table k)
  retained : ∀ c ∈ s.commits,
    c.row.expiresAt = c.writtenAt + c.request.retention ∧ c.row.record.Checked
  begun : ∀ c ∈ s.commits, s.attempts c.attempt ≠ none
  once : s.commits.Pairwise fun earlier later => earlier.attempt ≠ later.attempt ∧
    (earlier.request.scope = later.request.scope → earlier.row.expiresAt ≤ later.readAt)
  answered : ∀ ans ∈ s.answers, ans.Sound s

private theorem initial_invariant : Invariant (initial : State C R) := by
  constructor <;> simp [initial]

theorem live_at_some {stamp : Time} {row : Option Row} {r : Row}
    (h : liveAt stamp row = some r) : row = some r ∧ stamp < r.expiresAt := by
  simpa [liveAt, Option.filter_eq_some_iff] using h

theorem live_at_none {stamp : Time} {row : Option Row} (h : liveAt stamp row = none) :
    ∀ r, row = some r → r.expiresAt ≤ stamp := by
  rintro r rfl
  simpa [liveAt, Option.filter] using h

theorem Expired.mono {t u : Time} {row : Option Row} (htu : t ≤ u) (h : Expired t row) :
    Expired u row := by
  obtain ⟨r, hr, hle⟩ := h
  exact ⟨r, hr, Int.le_trans hle htu⟩

theorem Invariant.set {s : State C R} (h : Invariant s) (a : AttemptId) (request : Request)
    (phase : Phase C) (hnew : (⟨request, s.clock, phase⟩ : Attempt C).Sound s a)
    (hclosed : ∀ old, s.attempts a = some old → old.phase.Closed → phase.Closed) :
    Invariant (s.set a request phase) := by
  refine ⟨?_, h.kept, h.stored, h.cleaning, h.retained, ?_, h.once, ?_⟩
  · intro b attempt hb
    by_cases hba : b = a
    · subst b
      simp only [State.set, Function.update_self, Option.some.injEq] at hb
      subst attempt
      exact ⟨hnew.holds, hnew.fresh, hnew.seen, hnew.written, hnew.volatile, hnew.durable⟩
    · have hs := h.attempts b attempt (by simpa [State.set, hba] using hb)
      exact ⟨hs.holds, hs.fresh, hs.seen, hs.written, hs.volatile, hs.durable⟩
  · intro c hc
    by_cases hca : c.attempt = a
    · simp [State.set, hca]
    · simpa [State.set, hca] using h.begun c hc
  · intro ans hans
    have hs := h.answered ans hans
    refine ⟨hs.committed, hs.replay, hs.mismatch, ?_⟩
    intro hne hnc
    obtain ⟨⟨old, hold, hc⟩, hcom⟩ := hs.final hne hnc
    refine ⟨?_, hcom⟩
    by_cases hba : ans.attempt = a
    · exact ⟨⟨request, s.clock, phase⟩, by simp [State.set, hba], hclosed old (hba ▸ hold) hc⟩
    · exact ⟨old, by simpa [State.set, hba] using hold, hc⟩

theorem Invariant.answer {s : State C R} (h : Invariant s) {a : AttemptId} {request : Request}
    {outcome : Outcome C R} {stamp : Time}
    (hnew : (⟨a, request, outcome, stamp⟩ : Answer C R).Sound s) :
    Invariant (s.answer a request outcome stamp) := by
  refine ⟨?_, h.kept, h.stored, h.cleaning, h.retained, h.begun, h.once, ?_⟩
  · intro b attempt hb
    have hs := h.attempts b attempt hb
    exact ⟨hs.holds, hs.fresh, hs.seen, hs.written, hs.volatile, hs.durable⟩
  · intro ans hans
    rcases List.mem_append.mp hans with hans | hans
    · have hs := h.answered ans hans
      exact ⟨hs.committed, hs.replay, hs.mismatch, hs.final⟩
    · rw [List.mem_singleton] at hans
      subst hans
      exact ⟨hnew.committed, hnew.replay, hnew.mismatch, hnew.final⟩

theorem Invariant.relock {s : State C R} (h : Invariant s) (locks : ℤ → Option AttemptId)
    (rowLocks : ScopeKey → Option RowHolder)
    (hlocks : ∀ b attempt, s.attempts b = some attempt → attempt.phase.Holding →
      ∀ k, s.locks k = some b → locks k = some b)
    (hrows : ∀ b attempt row v t w, s.attempts b = some attempt →
      attempt.phase = .written row v t w →
      ∀ k, s.rowLocks k = some (.attempt b) → rowLocks k = some (.attempt b))
    (hclean : ∀ c k, s.rowLocks k = some (.cleanup c) → rowLocks k = some (.cleanup c)) :
    Invariant { s with locks := locks, rowLocks := rowLocks } := by
  refine ⟨?_, h.kept, h.stored, ?_, h.retained, h.begun, h.once, ?_⟩
  · intro b attempt hb
    have hs := h.attempts b attempt hb
    refine ⟨?_, hs.fresh, hs.seen, ?_, hs.volatile, hs.durable⟩
    · intro hold
      exact hlocks b attempt hb hold _ (hs.holds hold)
    · intro row v t w hw
      obtain ⟨hrow, hexp⟩ := hs.written row v t w hw
      exact ⟨hrows b attempt row v t w hb hw _ hrow, hexp⟩
  · intro c scopes hc k hk
    obtain ⟨hrow, hexp⟩ := h.cleaning c scopes hc k hk
    exact ⟨hclean c k hrow, hexp⟩
  · intro ans hans
    have hs := h.answered ans hans
    exact ⟨hs.committed, hs.replay, hs.mismatch, hs.final⟩

theorem Attempt.Sound.stopped {s : State C R} {a : AttemptId} {attempt : Attempt C}
    (h : attempt.Sound s a) (hv : ¬ attempt.phase.Durable) (since : Time) :
    (⟨attempt.request, since, .stopped⟩ : Attempt C).Sound s a := by
  constructor <;> simp [Phase.Holding, Phase.decidedAt]
  exact fun _ => h.volatile hv

/-- The attempt ends its transaction with an answer that neither replays nor mismatches. -/
theorem Invariant.stop {s : State C R} (h : Invariant s) {a : AttemptId} {attempt : Attempt C}
    (ha : s.attempts a = some attempt) (hv : ¬ attempt.phase.Durable) {outcome : Outcome C R}
    {stamp : Time} (hwork : ∀ v, outcome ≠ .ok (.committed v))
    (hreplay : ∀ r, outcome = .ok (.replay r) → ∃ c ∈ s.commits,
      c.request.scope = attempt.request.scope ∧ stamp < c.row.expiresAt ∧
        c.row.record = r ∧ r.fingerprint = attempt.request.fingerprint)
    (hmismatch : outcome = .ok .mismatch → ∃ c ∈ s.commits,
      c.request.scope = attempt.request.scope ∧ stamp < c.row.expiresAt ∧
        c.row.record.fingerprint ≠ attempt.request.fingerprint) :
    Invariant ((s.set a attempt.request .stopped).answer a attempt.request outcome stamp) := by
  have hs := h.attempts a attempt ha
  refine (h.set a attempt.request .stopped (hs.stopped hv _) (by simp [Phase.Closed])).answer ?_
  refine ⟨fun v hv => absurd hv (hwork v), ?_, ?_, ?_⟩
  · intro r hr
    obtain ⟨c, hc, hk, ht, hrec⟩ := hreplay r hr
    exact ⟨c, ⟨hc, hk, ht⟩, hrec⟩
  · intro hm
    obtain ⟨c, hc, hk, ht, hrec⟩ := hmismatch hm
    exact ⟨c, ⟨hc, hk, ht⟩, hrec⟩
  · intro _ _
    exact ⟨⟨⟨attempt.request, s.clock, .stopped⟩, by simp [State.set], trivial⟩, hs.volatile hv⟩

theorem Invariant.stop_live {s : State C R} (h : Invariant s) {a : AttemptId}
    {attempt : Attempt C} (ha : s.attempts a = some attempt) (hv : ¬ attempt.phase.Durable)
    {row : Row} {stamp : Time} (hlive : stamp < row.expiresAt)
    (hrow : ∃ c ∈ s.commits, c.request.scope = attempt.request.scope ∧ c.row = row) :
    Invariant ((s.set a attempt.request .stopped).answer a attempt.request
      (.ok (liveRecord attempt.request.fingerprint row)) stamp) := by
  obtain ⟨c, hc, hk, rfl⟩ := hrow
  refine h.stop ha hv ?_ ?_ ?_
  · intro v hv
    by_cases hf : c.row.record.fingerprint = attempt.request.fingerprint <;>
      simp [liveRecord, hf] at hv
  · intro r hr
    refine ⟨c, hc, hk, hlive, ?_⟩
    by_cases hf : c.row.record.fingerprint = attempt.request.fingerprint
    · simp only [liveRecord, hf, if_true, Except.ok.injEq, Attempted.replay.injEq] at hr
      exact ⟨hr, hr ▸ hf⟩
    · simp [liveRecord, hf] at hr
  · intro hm
    refine ⟨c, hc, hk, hlive, ?_⟩
    intro hf
    simp [liveRecord, hf] at hm

private theorem tick_preserves {s : State C R} (h : Invariant s) (elapsed : ℕ) :
    Invariant { s with clock := s.clock + elapsed } := by
  have hle : s.clock ≤ s.clock + elapsed := Int.le.intro elapsed rfl
  refine ⟨?_, ?_, h.stored, ?_, h.retained, h.begun, h.once, ?_⟩
  · intro b attempt hb
    have hs := h.attempts b attempt hb
    refine ⟨hs.holds, ?_, hs.seen, hs.written, hs.volatile, hs.durable⟩
    intro t ht
    exact ⟨Int.le_trans (hs.fresh t ht).1 hle, (hs.fresh t ht).2⟩
  · intro c hc
    exact (h.kept c hc).imp_right fun hexp => Int.le_trans hexp hle
  · intro c scopes hc k hk
    obtain ⟨hrow, hexp⟩ := h.cleaning c scopes hc k hk
    exact ⟨hrow, hexp.mono hle⟩
  · intro ans hans
    have hs := h.answered ans hans
    exact ⟨hs.committed, hs.replay, hs.mismatch, hs.final⟩

private theorem start_preserves {s t : State C R} (h : Invariant s) {a : AttemptId}
    {request : Request} (hop : start s a request = some t) : Invariant t := by
  unfold start at hop
  split at hop
  case h_1 hnone =>
    cases hop
    refine h.set a request .begun ?_ (by simp [hnone])
    constructor <;> simp [Phase.Holding, Phase.decidedAt]
    rintro - c hc rfl
    exact h.begun c hc hnone
  case h_2 => cases hop

private theorem statement1_preserves {s t : State C R} (h : Invariant s) {a : AttemptId}
    {stamp : Time} {writable : Bool} (hop : statement1 s a stamp writable = some t) :
    Invariant t := by
  unfold statement1 at hop
  split at hop
  case h_1 request since ha =>
    split at hop
    · cases hop
      have hs := h.attempts a _ ha
      refine h.set a request _ ⟨by simp [Phase.Holding], by simp [Phase.decidedAt], ?_, by simp,
        fun _ => hs.volatile (by simp [Phase.Durable]), by simp⟩ (by simp [ha, Phase.Closed])
      intro row w stamp' heq
      injection heq with hlive _ hstamp
      obtain ⟨hrow, hlt⟩ := live_at_some hlive
      exact ⟨hstamp ▸ hlt, h.stored _ row hrow⟩
    · cases hop
  case h_2 => cases hop

private theorem Invariant.take {s : State C R} (h : Invariant s) {key : ℤ}
    (hfree : s.locks key = none) (a : AttemptId) :
    Invariant { s with locks := Function.update s.locks key (some a) } := by
  refine h.relock _ s.rowLocks ?_ (fun _ _ _ _ _ _ _ _ _ hk => hk) (fun _ _ hk => hk)
  intro b attempt hb hold k hk
  have hne : k ≠ key := by
    rintro rfl
    simp [hfree] at hk
  simpa [hne] using hk

private theorem decided_first {s : State C R} (h : Invariant s) {a : AttemptId}
    {request : Request} {since stamp : Time} {live : Option Row} {writable acquired : Bool}
    (ha : s.attempts a = some ⟨request, since, .seen live writable stamp⟩)
    {outcome : Outcome C R}
    (hdec : decideFirst request.fingerprint writable acquired live = some outcome) :
    Invariant ((s.set a request .stopped).answer a request outcome stamp) := by
  have hs := h.attempts a _ ha
  have hv : ¬ (Phase.seen live writable stamp : Phase C).Durable := by simp [Phase.Durable]
  unfold decideFirst at hdec
  split at hdec
  · cases hdec
    exact h.stop ha hv (by simp) (by simp) (by simp)
  · split at hdec
    case h_1 row =>
      cases hdec
      obtain ⟨hlt, hrow⟩ := hs.seen row writable stamp rfl
      exact h.stop_live ha hv hlt hrow
    case h_2 =>
      split at hdec
      · cases hdec
      · cases hdec
        exact h.stop ha hv (by simp) (by simp) (by simp)

private theorem undecided_acquired {fingerprint : Digest} {writable acquired : Bool}
    {live : Option Row}
    (hdec : (decideFirst fingerprint writable acquired live : Option (Outcome C R)) = none) :
    acquired = true := by
  unfold decideFirst at hdec
  grind

private theorem tryLock_preserves {s t : State C R} (h : Invariant s) {a : AttemptId}
    (hop : tryLock s a = some t) : Invariant t := by
  unfold tryLock at hop
  split at hop
  case h_2 => cases hop
  case h_1 request since live writable stamp ha =>
    have hs := h.attempts a _ ha
    by_cases hfree : s.locks request.scope.lockKey = none
    · have htaken := h.take hfree a
      simp only [hfree, Option.isNone_none, if_true] at hop
      split at hop
      case h_1 outcome hdec =>
        cases hop
        exact decided_first htaken ha hdec
      case h_2 hdec =>
        cases hop
        refine htaken.set a request .locked ⟨?_, by simp [Phase.decidedAt], by simp, by simp,
          fun _ => hs.volatile (by simp [Phase.Durable]), by simp⟩ (by simp [ha, Phase.Closed])
        intro _
        simp
    · have hbusy : (s.locks request.scope.lockKey).isNone = false := by
        simpa [Option.isSome_iff_ne_none] using hfree
      simp only [hbusy, Bool.false_eq_true, if_false] at hop
      split at hop
      case h_1 outcome hdec =>
        cases hop
        exact decided_first h ha hdec
      case h_2 hdec => exact absurd (undecided_acquired hdec) (by simp)

private theorem statement2_preserves {s t : State C R} (h : Invariant s) {a : AttemptId}
    {stamp : Time} (hop : statement2 s a stamp = some t) : Invariant t := by
  unfold statement2 at hop
  split at hop
  case h_2 => cases hop
  case h_1 request since ha =>
    have hs := h.attempts a _ ha
    have hv : ¬ (Phase.locked : Phase C).Durable := by simp [Phase.Durable]
    split at hop
    case isFalse => cases hop
    case isTrue hstamp =>
      cases hlive : liveAt stamp (s.table request.scope) with
      | some row =>
        simp only [hlive, decideSecond, Option.map_some, Option.some.injEq] at hop
        subst hop
        obtain ⟨hrow, hlt⟩ := live_at_some hlive
        exact h.stop_live ha hv hlt (h.stored _ row hrow)
      | none =>
        simp only [hlive, decideSecond, Option.map_none, Option.some.injEq] at hop
        subst hop
        refine h.set a request _ ⟨fun _ => hs.holds trivial, ?_, by simp, by simp,
          fun _ => hs.volatile hv, by simp⟩ (by simp [ha, Phase.Closed])
        intro t ht
        simp only [Phase.decidedAt, Option.some.injEq] at ht
        subst t
        refine ⟨Int.le_refl _, ?_⟩
        intro c hc hk
        -- A stored row is not live at the read; a missing one expired before it was deleted.
        rcases h.kept c hc with hkept | hexp
        · exact Int.le_trans (live_at_none hlive c.row (hk ▸ hkept)) hstamp.2
        · exact hexp

private theorem work_preserves {s t : State C R} (h : Invariant s) {a : AttemptId}
    {result : Except R (Record × C)} (hop : work s a result = some t) : Invariant t := by
  unfold work at hop
  split at hop
  case h_2 => cases hop
  case h_1 request since readAt ha =>
    have hs := h.attempts a _ ha
    have hv : ¬ (Phase.running readAt : Phase C).Durable := by simp [Phase.Durable]
    cases result with
    | ok done =>
      cases hop
      exact h.set a request _ ⟨fun _ => hs.holds trivial, hs.fresh, by simp, by simp,
        fun _ => hs.volatile hv, by simp⟩ (by simp [ha, Phase.Closed])
    | error value =>
      cases hop
      exact h.stop ha hv (by simp) (by simp) (by simp)

private theorem write_preserves {s t : State C R} (h : Invariant s) {a : AttemptId}
    {stamp : Time} (hop : write s a stamp = some t) : Invariant t := by
  unfold write at hop
  split at hop
  case h_2 => cases hop
  case h_1 request since record value readAt ha =>
    have hs := h.attempts a _ ha
    have hv : ¬ (Phase.worked record value readAt : Phase C).Durable := by simp [Phase.Durable]
    split at hop
    case isFalse => cases hop
    case isTrue hguard =>
      obtain ⟨-, hfree, hchecked⟩ := hguard
      split at hop
      · cases hop
        exact h.stop ha hv (by simp) (by simp) (by simp)
      · cases hop
        have hne : ∀ k holder, s.rowLocks k = some holder → k ≠ request.scope := by
          rintro k holder hk rfl
          simp [hfree] at hk
        have hheld : Invariant { s with
            rowLocks := Function.update s.rowLocks request.scope (some (.attempt a)) } := by
          refine h.relock s.locks _ (fun _ _ _ _ _ hk => hk) ?_ ?_
          · intro b attempt row v t w _ _ k hk
            simpa [hne k _ hk] using hk
          · intro c k hk
            simpa [hne k _ hk] using hk
        refine hheld.set a request _ ⟨fun _ => hs.holds trivial, hs.fresh, by simp, ?_,
          fun _ => hs.volatile hv, by simp⟩ (by simp [ha, Phase.Closed])
        intro row v t w heq
        injection heq with hrow _ _ hw
        subst hrow hw
        exact ⟨by simp, rfl, hchecked⟩

/-- Commit appends to the history. The advisory lock keeps every other decided attempt off
this scope, and the row lock keeps cleanup off this row. -/
private theorem forall_mem_commits {s t : State C R} {new : Commit} {P : Commit → Prop}
    (hcommits : t.commits = s.commits ++ [new]) (hold : ∀ c ∈ s.commits, P c) (hnew : P new) :
    ∀ c ∈ t.commits, P c := by
  intro c hc
  rw [hcommits, List.mem_append, List.mem_singleton] at hc
  rcases hc with hc | rfl
  · exact hold c hc
  · exact hnew

/-- A commit says nothing against another attempt. Had that one decided in the same scope, it
would hold the advisory lock that the committing attempt holds. -/
private theorem Attempt.Sound.after_commit {s t : State C R} {b : AttemptId}
    {attempt : Attempt C} (h : attempt.Sound s b) (new : Commit) (hother : new.attempt ≠ b)
    (hlock : s.locks new.request.scope.lockKey = some new.attempt)
    (hlocks : t.locks = s.locks) (hclock : t.clock = s.clock)
    (hrows : ∀ k, s.rowLocks k = some (.attempt b) → t.rowLocks k = some (.attempt b))
    (hcommits : t.commits = s.commits ++ [new]) : attempt.Sound t b := by
  have hkept : ∀ c ∈ s.commits, c ∈ t.commits := by
    intro c hc
    rw [hcommits]
    exact List.mem_append_left _ hc
  refine ⟨?_, ?_, ?_, ?_, ?_, ?_⟩
  · intro hold
    rw [hlocks]
    exact h.holds hold
  · intro stamp hstamp
    rw [hclock]
    refine ⟨(h.fresh stamp hstamp).1, forall_mem_commits hcommits (h.fresh stamp hstamp).2 ?_⟩
    intro hk
    have hold : attempt.phase.Holding := by
      cases hp : attempt.phase <;> simp_all [Phase.decidedAt, Phase.Holding]
    have hheld := h.holds hold
    rw [← hk, hlock, Option.some.injEq] at hheld
    exact absurd hheld hother
  · intro row w stamp hseen
    obtain ⟨hlt, c, hc, hk⟩ := h.seen row w stamp hseen
    exact ⟨hlt, c, hkept c hc, hk⟩
  · intro row v stamp w hw
    obtain ⟨hrow, hrest⟩ := h.written row v stamp w hw
    exact ⟨hrows _ hrow, hrest⟩
  · intro hd
    exact forall_mem_commits hcommits (h.volatile hd) hother
  · intro v hv
    obtain ⟨c, hc, hmade⟩ := h.durable v hv
    exact ⟨c, hkept c hc, hmade⟩

/-- Earlier answers survive a commit: a final one belongs to an attempt already closed, and the
committing one was open. -/
private theorem Answer.Sound.after_commit {s t : State C R} {ans : Answer C R} (h : ans.Sound s)
    (new : Commit) (hopen : ∀ old, s.attempts new.attempt = some old → ¬ old.phase.Closed)
    (hattempts : ∀ b, b ≠ new.attempt → t.attempts b = s.attempts b)
    (hcommits : t.commits = s.commits ++ [new]) : ans.Sound t := by
  have hkept : ∀ c ∈ s.commits, c ∈ t.commits := by
    intro c hc
    rw [hcommits]
    exact List.mem_append_left _ hc
  refine ⟨?_, ?_, ?_, ?_⟩
  · intro v hv
    obtain ⟨c, hc, hmade⟩ := h.committed v hv
    exact ⟨c, hkept c hc, hmade⟩
  · intro r hr
    obtain ⟨c, ⟨hc, hk⟩, hrec⟩ := h.replay r hr
    exact ⟨c, ⟨hkept c hc, hk⟩, hrec⟩
  · intro hm
    obtain ⟨c, ⟨hc, hk⟩, hrec⟩ := h.mismatch hm
    exact ⟨c, ⟨hkept c hc, hk⟩, hrec⟩
  · intro hne hnc
    obtain ⟨⟨old, hold, hclosed⟩, hcom⟩ := h.final hne hnc
    have hother : ans.attempt ≠ new.attempt := by
      intro heq
      exact hopen old (heq ▸ hold) hclosed
    refine ⟨⟨old, ?_, hclosed⟩, forall_mem_commits hcommits hcom hother.symm⟩
    rw [hattempts _ hother]
    exact hold

private theorem commit_preserves {s t : State C R} (h : Invariant s) {a : AttemptId}
    (hop : commit s a = some t) : Invariant t := by
  unfold commit at hop
  split at hop
  case h_2 => cases hop
  case h_1 request since row value readAt writtenAt ha =>
    cases hop
    have hs := h.attempts a _ ha
    have hlock : s.locks request.scope.lockKey = some a := hs.holds trivial
    obtain ⟨hread, hpast⟩ := hs.fresh readAt rfl
    obtain ⟨hrowlock, hexp, hchecked⟩ := hs.written row value readAt writtenAt rfl
    have hmine : ∀ c ∈ s.commits, c.attempt ≠ a := hs.volatile (by simp [Phase.Durable])
    refine ⟨?_, forall_mem_commits rfl ?_ (by simp), ?_, ?_,
      forall_mem_commits rfl h.retained ⟨hexp, hchecked⟩,
      forall_mem_commits rfl ?_ (by simp [State.set]), ?_, ?_⟩
    · intro b attempt hb
      by_cases hba : b = a
      · subst b
        simp only [State.set, Function.update_self, Option.some.injEq] at hb
        subst attempt
        refine ⟨fun _ => hlock, by simp [Phase.decidedAt], by simp, by simp,
          by simp [Phase.Durable], ?_⟩
        intro v _
        exact ⟨_, List.mem_append_right _ (List.mem_singleton.mpr rfl), rfl, rfl⟩
      · have hsb := h.attempts b attempt (by simpa [State.set, hba] using hb)
        refine hsb.after_commit ⟨a, request, row, readAt, writtenAt⟩ (Ne.symm hba) hlock rfl rfl ?_ rfl
        intro k hk
        have hne : k ≠ request.scope := by
          rintro rfl
          rw [hrowlock, Option.some.injEq, RowHolder.attempt.injEq] at hk
          exact hba hk.symm
        simpa [hne] using hk
    · intro c hc
      by_cases hk : c.request.scope = request.scope
      · exact .inr (Int.le_trans (hpast c hc hk) hread)
      · simpa [State.set, hk] using h.kept c hc
    · intro k row' hrow'
      by_cases hk : k = request.scope
      · subst k
        simp only [Function.update_self, Option.some.injEq] at hrow'
        exact ⟨_, List.mem_append_right _ (List.mem_singleton.mpr rfl), rfl, hrow'⟩
      · obtain ⟨c, hc, hck⟩ := h.stored k row' (by simpa [hk] using hrow')
        exact ⟨c, List.mem_append_left _ hc, hck⟩
    · intro c scopes hc k hk
      obtain ⟨hheld, hexpired⟩ := h.cleaning c scopes hc k hk
      have hne : k ≠ request.scope := by
        rintro rfl
        simp [hrowlock] at hheld
      simpa [hne] using ⟨hheld, hexpired⟩
    · intro c hc
      simpa [State.set, hmine c hc] using h.begun c hc
    · refine List.pairwise_append.mpr ⟨h.once, List.pairwise_singleton _ _, ?_⟩
      intro earlier hearlier later hlater
      rw [List.mem_singleton] at hlater
      subst hlater
      exact ⟨hmine earlier hearlier, hpast earlier hearlier⟩
    · intro ans hans
      refine (h.answered ans hans).after_commit ⟨a, request, row, readAt, writtenAt⟩ ?_ ?_ rfl
      · intro old hold
        rw [ha, Option.some.injEq] at hold
        subst hold
        simp [Phase.Closed]
      · intro b hb
        simp [State.set, hb]

private theorem ended_sound {s : State C R} (a : AttemptId) (request : Request) (since : Time) :
    (⟨request, since, .ended⟩ : Attempt C).Sound s a := by
  constructor <;> simp [Phase.Holding, Phase.decidedAt, Phase.Durable]

private theorem release_preserves {s t : State C R} (h : Invariant s) {a : AttemptId}
    {acknowledged : Bool} (hop : release s a acknowledged = some t) : Invariant t := by
  unfold release at hop
  split at hop
  case h_2 => cases hop
  case h_1 request since value ha =>
    have hlock : s.locks request.scope.lockKey = some a := (h.attempts a _ ha).holds trivial
    have hended := h.set a request .ended (ended_sound a request _) (by simp [Phase.Closed])
    have hfreed : Invariant { s.set a request .ended with
        locks := Function.update s.locks request.scope.lockKey none } := by
      refine hended.relock _ s.rowLocks ?_ (fun _ _ _ _ _ _ _ _ _ hk => hk) (fun _ _ hk => hk)
      intro b attempt hb hold k hk
      have hba : b ≠ a := by
        rintro rfl
        simp only [State.set, Function.update_self, Option.some.injEq] at hb
        subst hb
        exact hold
      have hne : k ≠ request.scope.lockKey := by
        rintro rfl
        have hsame : some a = some b := hlock.symm.trans hk
        exact hba (Option.some.inj hsame).symm
      simpa [State.set, hne] using hk
    cases acknowledged with
    | false => exact Option.some.inj hop ▸ hfreed
    | true =>
      rw [← Option.some.inj hop]
      refine hfreed.answer ⟨?_, by simp, by simp, ?_⟩
      · intro _ _
        exact (h.attempts a _ ha).durable value rfl
      · intro _ hnc
        exact absurd rfl (hnc value)

private theorem fail_preserves {s t : State C R} (h : Invariant s) {a : AttemptId}
    {error : AttemptError} (hop : fail s a error = some t) : Invariant t := by
  unfold fail at hop
  split at hop
  case h_2 => cases hop
  case h_1 attempt ha =>
    split at hop
    case isFalse => cases hop
    case isTrue hopen =>
      cases hop
      refine h.stop ha ?_ (by simp) (by simp) (by simp)
      intro hd
      cases hp : attempt.phase <;> simp [hp, Phase.Durable, Phase.open] at hd hopen

private theorem lose_preserves {s t : State C R} (h : Invariant s) {a : AttemptId}
    (hop : lose s a = some t) : Invariant t := by
  unfold lose at hop
  split at hop
  case h_3 => cases hop
  all_goals
    cases hop
    exact h.answer ⟨by simp, by simp, by simp, fun hne => absurd rfl hne⟩

private theorem rollback_preserves {s t : State C R} (h : Invariant s) {a : AttemptId}
    (hop : rollback s a = some t) : Invariant t := by
  unfold rollback at hop
  split at hop
  case h_2 => cases hop
  case h_1 attempt ha =>
    split at hop
    case isFalse => cases hop
    case isTrue =>
      cases hop
      have hended := h.set a attempt.request .ended (ended_sound a _ _) (by simp [Phase.Closed])
      have hself : ∀ b other, (s.set a attempt.request .ended).attempts b = some other →
          other.phase ≠ .ended → b ≠ a := by
        rintro b other hb hne rfl
        simp only [State.set, Function.update_self, Option.some.injEq] at hb
        subst hb
        exact hne rfl
      refine hended.relock _ _ ?_ ?_ ?_
      · intro b other hb hold k hk
        have hba := hself b other hb (by rintro hp; simp [hp, Phase.Holding] at hold)
        have hk' : s.locks k = some b := hk
        simp [hk', hba]
      · intro b other row v t w hb hw k hk
        have hba := hself b other hb (by simp [hw])
        have hk' : s.rowLocks k = some (.attempt b) := hk
        simp [hk', hba]
      · intro c k hk
        have hk' : s.rowLocks k = some (.cleanup c) := hk
        simp [hk']

private theorem cleanupDelete_preserves {s t : State C R} (h : Invariant s) {c : CleanupId}
    {stamp : Time} {scopes : List ScopeKey} (hop : cleanupDelete s c stamp scopes = some t) :
    Invariant t := by
  unfold cleanupDelete at hop
  split at hop
  case isFalse => cases hop
  case isTrue hguard =>
    cases hop
    obtain ⟨hnew, hstamp, -, hall⟩ := hguard
    have hheld : ∀ k holder, s.rowLocks k = some holder → k ∉ scopes := by
      intro k holder hk hmem
      simp [(hall k hmem).2] at hk
    refine ⟨?_, h.kept, h.stored, ?_, h.retained, h.begun, h.once, ?_⟩
    · intro b attempt hb
      have hs := h.attempts b attempt hb
      refine ⟨hs.holds, hs.fresh, hs.seen, ?_, hs.volatile, hs.durable⟩
      intro row v t w hw
      obtain ⟨hrow, hrest⟩ := hs.written row v t w hw
      exact ⟨by simpa [hheld _ _ hrow] using hrow, hrest⟩
    · intro d batch hd k hk
      by_cases hdc : d = c
      · subst d
        simp only [Function.update_self, Option.some.injEq] at hd
        subst hd
        exact ⟨by simp [hk], (hall k hk).1.mono hstamp⟩
      · obtain ⟨hrow, hexp⟩ := h.cleaning d batch (by simpa [hdc] using hd) k hk
        exact ⟨by simpa [hheld _ _ hrow] using hrow, hexp⟩
    · intro ans hans
      have hs := h.answered ans hans
      exact ⟨hs.committed, hs.replay, hs.mismatch, hs.final⟩

/-- A batch ends: its row locks go, and its rows stay or leave together. -/
private theorem Invariant.finish {s : State C R} (h : Invariant s) {c : CleanupId}
    {scopes : List ScopeKey} (hc : s.cleanups c = some scopes) (table : ScopeKey → Option Row)
    (hstay : ∀ k, k ∉ scopes → table k = s.table k)
    (hleave : ∀ k ∈ scopes, table k = s.table k ∨ table k = none) :
    Invariant { s with
      table := table
      rowLocks := fun k => if k ∈ scopes then none else s.rowLocks k
      cleanups := Function.update s.cleanups c none } := by
  have hmine : ∀ k ∈ scopes, s.rowLocks k = some (.cleanup c) := fun k hk =>
    (h.cleaning c scopes hc k hk).1
  refine ⟨?_, ?_, ?_, ?_, h.retained, h.begun, h.once, ?_⟩
  · intro b attempt hb
    have hs := h.attempts b attempt hb
    refine ⟨hs.holds, hs.fresh, hs.seen, ?_, hs.volatile, hs.durable⟩
    intro row v t w hw
    obtain ⟨hrow, hrest⟩ := hs.written row v t w hw
    have hout : attempt.request.scope ∉ scopes := by
      intro hk
      simp [hmine _ hk] at hrow
    exact ⟨by simpa [hout] using hrow, hrest⟩
  · intro d hd
    rcases h.kept d hd with hkept | hexp
    · by_cases hk : d.request.scope ∈ scopes
      · -- Only a row that expired before the batch read it can leave.
        obtain ⟨r, hr, hle⟩ := (h.cleaning c scopes hc _ hk).2
        rw [hkept, Option.some.injEq] at hr
        exact .inr (hr ▸ hle)
      · exact .inl ((hstay _ hk).trans hkept)
    · exact .inr hexp
  · intro k row hrow
    by_cases hk : k ∈ scopes
    · rcases hleave k hk with hsame | hnone
      · exact h.stored k row (hsame ▸ hrow)
      · exact absurd (hnone.symm.trans hrow) (by simp)
    · exact h.stored k row (hstay k hk ▸ hrow)
  · intro d batch hd k hk
    have hdc : d ≠ c := by
      rintro rfl
      simp at hd
    obtain ⟨hrow, hexp⟩ := h.cleaning d batch (by simpa [hdc] using hd) k hk
    have hout : k ∉ scopes := by
      intro hmem
      rw [hmine k hmem] at hrow
      simp only [Option.some.injEq, RowHolder.cleanup.injEq] at hrow
      exact hdc hrow.symm
    exact ⟨by simpa [hout] using hrow, by simpa only [hstay k hout] using hexp⟩
  · intro ans hans
    have hs := h.answered ans hans
    exact ⟨hs.committed, hs.replay, hs.mismatch, hs.final⟩

private theorem cleanupCommit_preserves {s t : State C R} (h : Invariant s) {c : CleanupId}
    (hop : cleanupCommit s c = some t) : Invariant t := by
  obtain ⟨scopes, hc, rfl⟩ := Option.map_eq_some_iff.mp hop
  refine h.finish hc _ ?_ ?_
  · intro k hk
    simp [hk]
  · intro k hk
    simp [hk]

private theorem cleanupAbort_preserves {s t : State C R} (h : Invariant s) {c : CleanupId}
    (hop : cleanupAbort s c = some t) : Invariant t := by
  obtain ⟨scopes, hc, rfl⟩ := Option.map_eq_some_iff.mp hop
  exact h.finish hc s.table (fun _ _ => rfl) (fun _ _ => .inl rfl)

theorem step_preserves_invariant {s t : State C R} {e : Event C R} (h : Invariant s)
    (hstep : step s e = some t) : Invariant t := by
  cases e with
  | tick elapsed => exact Option.some.inj hstep ▸ tick_preserves h elapsed
  | start => exact start_preserves h hstep
  | statement1 => exact statement1_preserves h hstep
  | tryLock => exact tryLock_preserves h hstep
  | statement2 => exact statement2_preserves h hstep
  | work => exact work_preserves h hstep
  | write => exact write_preserves h hstep
  | commit => exact commit_preserves h hstep
  | release => exact release_preserves h hstep
  | fail => exact fail_preserves h hstep
  | lose => exact lose_preserves h hstep
  | rollback => exact rollback_preserves h hstep
  | cleanupDelete => exact cleanupDelete_preserves h hstep
  | cleanupCommit => exact cleanupCommit_preserves h hstep
  | cleanupAbort => exact cleanupAbort_preserves h hstep

theorem reachable_invariant {s : State C R} (h : (store C R).Reachable s) : Invariant s :=
  h.induction (P := Invariant) initial_invariant
    fun _ _ _ _ hs hstep => step_preserves_invariant hs hstep

/-- Work on one scope commits again only after the previous record expired, a replay or a
mismatch comes from a committed record still live at the deciding read, and an attempt
commits work exactly when it says so, an unavailable answer apart. -/
theorem at_most_once {s : State C R} (h : (store C R).Reachable s) :
    (s.commits.Pairwise fun (earlier later : Commit) => earlier.attempt ≠ later.attempt ∧
      (earlier.request.scope = later.request.scope →
        earlier.row.expiresAt = earlier.writtenAt + earlier.request.retention ∧
          earlier.row.expiresAt ≤ later.readAt)) ∧
    (∀ ans ∈ s.answers, ∀ r, ans.outcome = .ok (.replay r) → ∃ c ∈ s.commits,
      c.request.scope = ans.request.scope ∧ c.row.record = r ∧
        r.fingerprint = ans.request.fingerprint ∧ ans.stamp < c.row.expiresAt) ∧
    (∀ ans ∈ s.answers, ans.outcome = .ok .mismatch → ∃ c ∈ s.commits,
      c.request.scope = ans.request.scope ∧
        c.row.record.fingerprint ≠ ans.request.fingerprint ∧ ans.stamp < c.row.expiresAt) ∧
    (∀ ans ∈ s.answers, (∃ v, ans.outcome = .ok (.committed v)) →
      ∃ c ∈ s.commits, c.attempt = ans.attempt ∧ c.request = ans.request) ∧
    ∀ ans ∈ s.answers, ans.outcome ≠ .error .unavailable →
      (∀ v, ans.outcome ≠ .ok (.committed v)) → ∀ c ∈ s.commits, c.attempt ≠ ans.attempt := by
  have hi := reachable_invariant h
  refine ⟨?_, ?_, ?_, ?_, ?_⟩
  · refine hi.once.imp_of_mem ?_
    rintro earlier later hearlier - ⟨hne, hpast⟩
    exact ⟨hne, fun hk => ⟨(hi.retained earlier hearlier).1, hpast hk⟩⟩
  · intro ans hans r hr
    obtain ⟨c, ⟨hc, hk, hlt⟩, hrec, hf⟩ := (hi.answered ans hans).replay r hr
    exact ⟨c, hc, hk, hrec, hf, hlt⟩
  · intro ans hans hm
    obtain ⟨c, ⟨hc, hk, hlt⟩, hf⟩ := (hi.answered ans hans).mismatch hm
    exact ⟨c, hc, hk, hf, hlt⟩
  · rintro ans hans ⟨v, hv⟩
    exact (hi.answered ans hans).committed v hv
  · intro ans hans hne hnc
    exact ((hi.answered ans hans).final hne hnc).2

/-- One scope, retention five: attempt 0 commits, attempt 1 replays, cleanup removes the
expired record, and attempt 2 runs the work again. -/
def expiredScopeTrace : List (Event Unit Unit) :=
  let digest : Digest := Vector.replicate 32 7
  let request : Request := ⟨⟨digest⟩, ⟨"issuer", .subject, "alice"⟩, digest, 5⟩
  let record : Record := ⟨digest, 201, [], [1]⟩
  [.start 0 request, .start 1 request, .statement1 1 0 true, .statement1 0 0 true, .tryLock 0,
    .statement2 0 0, .work 0 (.ok (record, ())), .write 0 0, .tick 1, .commit 0,
    .release 0 true, .tryLock 1, .statement2 1 1, .rollback 1, .tick 9,
    .cleanupDelete 0 10 [⟨digest⟩], .cleanupCommit 0, .start 2 request, .statement1 2 10 true,
    .tryLock 2, .statement2 2 10, .work 2 (.ok (record, ())), .write 2 10, .commit 2,
    .release 2 false]

/-- The trace commits twice and replays once. -/
theorem at_most_once_expired_scope : ∃ s, (store Unit Unit).run initial expiredScopeTrace = some s ∧
    s.commits.map (fun c => (c.attempt, c.readAt, c.row.expiresAt)) = [(0, 0, 5), (2, 10, 15)] ∧
    s.answers.length = 2 ∧
    s.commits.Pairwise fun (earlier later : Commit) => earlier.attempt ≠ later.attempt ∧
      (earlier.request.scope = later.request.scope →
        earlier.row.expiresAt = earlier.writtenAt + earlier.request.retention ∧
          earlier.row.expiresAt ≤ later.readAt) := by
  have hrun : ∃ s, (store Unit Unit).run initial expiredScopeTrace = some s ∧
      s.commits.map (fun c => (c.attempt, c.readAt, c.row.expiresAt)) = [(0, 0, 5), (2, 10, 15)] ∧
      s.answers.length = 2 := ⟨_, rfl, by decide, rfl⟩
  obtain ⟨s, hs, hcommits, hanswers⟩ := hrun
  exact ⟨s, hs, hcommits, hanswers, (at_most_once (System.reachable_of_run hs)).1⟩

end IdempotencyArbitration
