import ServiceTemplate.ByteFraming
import Mathlib.Data.List.Sort
import Mathlib.Data.Int.Basic

/-! Rows of `background_jobs` and the SQL statements that read and rewrite them.
Timestamps are the statement timestamps of the caller; nothing here assumes that they
grow. Trace columns and the payload are carried and never read. -/
namespace JobsTable

open ByteFraming

/-- Microseconds of the database clock. -/
abbrev Time := ℤ
abbrev JobId := ℕ
abbrev WorkerId := ℕ

inductive JobState where
  | pending
  | running
  | completed
  | failed
  deriving DecidableEq, Repr

inductive FailureReason where
  | permanent
  | exhausted
  deriving DecidableEq, Repr

structure ErrorEntry where
  attempt : ℤ
  occurred : Time
  error : String
  deriving DecidableEq, Repr

structure CycleEntry where
  version : ℕ
  attempts : ℤ
  failureReason : Option FailureReason
  finishedAt : Option Time
  attemptedBy : Option WorkerId
  errorSummary : Option String
  errors : List ErrorEntry
  redrivenAt : Time
  deriving DecidableEq, Repr

structure Row where
  id : JobId
  createdAt : Time
  kind : String
  payload : String
  uniqueKey : Option String
  state : JobState
  failureReason : Option FailureReason
  attempts : ℤ
  /-- Drawn from the claim sequence; zero means never claimed. -/
  claimGeneration : ℕ
  notBefore : Time
  claimExpiresAt : Option Time
  attemptedBy : Option WorkerId
  finishedAt : Option Time
  errorSummary : Option String
  traceContext : Option String
  traceState : Option String
  errors : List ErrorEntry
  recoveryHistory : List CycleEntry
  deriving DecidableEq, Repr

def maxAttempts : ℕ := 25
def maxKindLen : ℕ := 64
def minTimeoutMicros : ℕ := 1000000
def maxTimeoutMicros : ℕ := 3600000000
def leaseReserveMicros : ℕ := 60000000
def retainCompletedForMicros : ℤ := 86400000000
def retentionBatchRows : ℕ := 500

/-- The attempt budget, timeout and concurrency of one kind at one worker. -/
structure Policy where
  maxAttempts : ℕ
  timeoutMicros : ℕ
  maxRunning : Option ℕ
  deriving DecidableEq, Repr

structure Registered where
  name : String
  policy : Policy
  deriving DecidableEq, Repr

inductive KindError where
  | noKinds
  | duplicate (name : String)
  | invalidName (name : String)
  | invalidPolicy (kind reason : String)
  deriving DecidableEq, Repr

def kindNameByte (b : UInt8) : Bool :=
  (97 ≤ b && b ≤ 122) || (48 ≤ b && b ≤ 57) || b = 46 || b = 95 || b = 45

def isValidKindName (name : String) : Bool :=
  match asBytes name with
  | [] => false
  | first :: rest =>
    (first :: rest).length ≤ maxKindLen && 97 ≤ first && first ≤ 122 && rest.all kindNameByte

/-- The first failure wins, in registration order. -/
def checkEntries (seen : List String) : List Registered → Except KindError Unit
  | [] => .ok ()
  | entry :: entries =>
    if !isValidKindName entry.name then .error (.invalidName entry.name)
    else if entry.name ∈ seen then .error (.duplicate entry.name)
    else if !(1 ≤ entry.policy.maxAttempts && entry.policy.maxAttempts ≤ maxAttempts) then
      .error (.invalidPolicy entry.name "max_attempts must be between 1 and 25")
    else if !(minTimeoutMicros ≤ entry.policy.timeoutMicros &&
        entry.policy.timeoutMicros ≤ maxTimeoutMicros) then
      .error (.invalidPolicy entry.name "timeout must be between 1s and 1h")
    else checkEntries (entry.name :: seen) entries

def validate (entries : List Registered) : Except KindError Unit :=
  if entries = [] then .error .noKinds else checkEntries [] entries

/-- Registered kinds that passed `validate`. -/
structure Registry where
  entries : List Registered
  checked : validate entries = .ok ()

structure PolicyBind where
  kind : String
  policy : Policy
  claimLimit : ℕ
  deriving DecidableEq, Repr

/-- `available` gives the free part of `max_running` of each kind. -/
def policyBinds (registry : Registry) (available : String → ℕ) (requested : ℕ) : List PolicyBind :=
  registry.entries.map fun entry =>
    ⟨entry.name, entry.policy, match entry.policy.maxRunning with
      | none => requested
      | some _ => min requested (available entry.name)⟩

def Row.dueAt (row : Row) (now : Time) : Bool := row.state = .pending && row.notBefore ≤ now

def Row.leaseExpiredAt (row : Row) (now : Time) : Bool :=
  row.state = .running && match row.claimExpiresAt with
    | none => false
    | some expires => expires ≤ now

/-- `ORDER BY not_before, id`. -/
def Row.Before (row other : Row) : Prop :=
  row.notBefore < other.notBefore ∨ (row.notBefore = other.notBefore ∧ row.id ≤ other.id)

instance (row other : Row) : Decidable (row.Before other) := inferInstanceAs (Decidable (_ ∨ _))

/-- One lateral scan: locked rows are skipped before the limit counts. -/
def scan (rows : List Row) (locked : JobId → Bool) (select : Row → Bool) (bind : PolicyBind) :
    List (Row × PolicyBind) :=
  (((rows.filter fun row => select row && row.kind = bind.kind && !locked row.id).insertionSort
    Row.Before).take bind.claimLimit).map fun row => (row, bind)

def candidates (rows : List Row) (locked : JobId → Bool) (binds : List PolicyBind) (now : Time) :
    List (Row × PolicyBind) :=
  binds.flatMap (scan rows locked fun row => row.dueAt now) ++
    binds.flatMap (scan rows locked fun row => row.leaseExpiredAt now)

/-- `row_number()` within the kind. -/
def position (drawn : List (Row × PolicyBind)) (candidate : Row × PolicyBind) : ℕ :=
  drawn.countP fun other => other.2.kind = candidate.2.kind && other.1.Before candidate.1

def picked (rows : List Row) (locked : JobId → Bool) (binds : List PolicyBind) (requested : ℕ)
    (now : Time) : List JobId :=
  let drawn := candidates rows locked binds now
  let ranked := drawn.filter fun candidate => position drawn candidate ≤ candidate.2.claimLimit
  (((ranked.map Prod.fst).insertionSort Row.Before).take requested).map Row.id

def rescuedText : String := "lease expired; rescued"
def budgetText : String := "attempt budget spent"

def Row.claim (row : Row) (policy : Policy) (worker : WorkerId) (now : Time)
    (generation : ℕ) : Row :=
  let exhausted := decide ((policy.maxAttempts : ℤ) ≤ row.attempts)
  let rescued := row.leaseExpiredAt now
  { row with
    state := if exhausted then .failed else .running
    failureReason := if exhausted then some .exhausted else none
    finishedAt := if exhausted then some now else none
    claimExpiresAt := if exhausted then none
      else some (now + policy.timeoutMicros + leaseReserveMicros)
    attempts := if exhausted then row.attempts else row.attempts + 1
    attemptedBy := if exhausted then row.attemptedBy else some worker
    errorSummary := if rescued then some rescuedText
      else if exhausted then some (row.errorSummary.getD budgetText) else row.errorSummary
    errors := if rescued then row.errors ++ [⟨row.attempts, now, rescuedText⟩] else row.errors
    claimGeneration := generation }

/-- `retry` carries the jittered backoff the statement drew. -/
inductive Transition where
  | complete
  | retry (summary : String) (backoffMicros floorMicros : ℤ)
  | snooze (delayMicros : ℤ)
  | release
  | fail (reason : FailureReason) (summary : String)
  deriving DecidableEq, Repr

/-- The fence of every outcome write. -/
def Row.fencedBy (row : Row) (generation : ℕ) : Bool :=
  row.claimGeneration = generation && row.claimExpiresAt.isSome

def Row.execute (row : Row) (now : Time) : Transition → Row
  | .complete => { row with state := .completed, finishedAt := some now, claimExpiresAt := none }
  | .retry summary backoffMicros floorMicros => { row with
      state := .pending
      notBefore := now + max backoffMicros floorMicros
      claimExpiresAt := none
      errorSummary := some summary
      errors := row.errors ++ [⟨row.attempts, now, summary⟩] }
  | .snooze delayMicros => { row with
      state := .pending
      notBefore := now + delayMicros
      claimExpiresAt := none
      attempts := row.attempts - 1 }
  | .release => { row with
      state := .pending, claimExpiresAt := none, attempts := row.attempts - 1 }
  | .fail reason summary => { row with
      state := .failed
      failureReason := some reason
      finishedAt := some now
      claimExpiresAt := none
      errorSummary := some summary
      errors := row.errors ++ [⟨row.attempts, now, summary⟩] }

structure NewJob where
  id : JobId
  kind : String
  payload : String
  uniqueKey : Option String
  delayMicros : ℕ
  traceContext : Option String
  traceState : Option String
  deriving DecidableEq, Repr

def NewJob.row (job : NewJob) (now : Time) : Row where
  id := job.id
  createdAt := now
  kind := job.kind
  payload := job.payload
  uniqueKey := job.uniqueKey
  state := .pending
  failureReason := none
  attempts := 0
  claimGeneration := 0
  notBefore := now + job.delayMicros
  claimExpiresAt := none
  attemptedBy := none
  finishedAt := none
  errorSummary := none
  traceContext := job.traceContext
  traceState := job.traceState
  errors := []
  recoveryHistory := []

def Row.live (row : Row) : Bool := row.state = .pending || row.state = .running

def Row.conflictsIn (row : Row) (rows : List Row) : Bool :=
  row.uniqueKey.isSome && rows.any fun other =>
    other.id ≠ row.id && other.kind = row.kind && other.uniqueKey = row.uniqueKey && other.live

structure RecoveryTarget where
  id : JobId
  kind : String
  version : ℕ
  deriving DecidableEq, Repr

inductive OperatorError where
  | missing
  | stale
  | conflict
  deriving DecidableEq, Repr

def lockFailed (row : Option Row) (target : RecoveryTarget) : Except OperatorError Row :=
  match row with
  | none => .error .missing
  | some row =>
    if row.kind ≠ target.kind ∨ row.state ≠ .failed ∨ row.claimGeneration ≠ target.version then
      .error .stale
    else .ok row

def Row.cycleEntry (row : Row) (now : Time) : CycleEntry where
  version := row.claimGeneration
  attempts := row.attempts
  failureReason := row.failureReason
  finishedAt := row.finishedAt
  attemptedBy := row.attemptedBy
  errorSummary := row.errorSummary
  errors := row.errors
  redrivenAt := now

def Row.redrive (row : Row) (now : Time) (generation : ℕ) : Row :=
  { row with
    recoveryHistory := row.recoveryHistory ++ [row.cycleEntry now]
    state := .pending
    notBefore := now
    attempts := 0
    claimGeneration := generation
    claimExpiresAt := none
    attemptedBy := none
    finishedAt := none
    failureReason := none
    errorSummary := none
    errors := [] }

def Row.retentionDue (row : Row) (now : Time) : Bool :=
  row.state = .completed && match row.finishedAt with
    | none => false
    | some finished => finished ≤ now - retainCompletedForMicros

theorem check_entries_bounds {seen : List String} {entries : List Registered}
    (h : checkEntries seen entries = .ok ()) :
    ∀ entry ∈ entries, 1 ≤ entry.policy.maxAttempts ∧ entry.policy.maxAttempts ≤ maxAttempts := by
  induction entries generalizing seen with
  | nil => simp
  | cons entry entries ih =>
    simp only [checkEntries] at h
    repeat' split at h
    all_goals first | cases h | skip
    intro other hother
    rcases List.mem_cons.mp hother with rfl | hother
    · simp_all
      omega
    · exact ih h other hother

theorem Registry.bounds (registry : Registry) :
    ∀ entry ∈ registry.entries,
      1 ≤ entry.policy.maxAttempts ∧ entry.policy.maxAttempts ≤ maxAttempts := by
  have h := registry.checked
  simp only [validate] at h
  split at h
  · cases h
  · exact check_entries_bounds h

theorem policy_binds_bounds {registry : Registry} {available : String → ℕ} {requested : ℕ} :
    ∀ bind ∈ policyBinds registry available requested,
      1 ≤ bind.policy.maxAttempts ∧ bind.policy.maxAttempts ≤ maxAttempts := by
  intro bind hbind
  rcases List.mem_map.mp hbind with ⟨entry, hentry, rfl⟩
  exact registry.bounds entry hentry

theorem lock_failed_ok {row : Option Row} {target : RecoveryTarget} {r : Row}
    (h : lockFailed row target = .ok r) :
    row = some r ∧ r.kind = target.kind ∧ r.state = .failed ∧
      r.claimGeneration = target.version := by
  cases row with
  | none => cases h
  | some row =>
    simp only [lockFailed] at h
    split at h
    · cases h
    · next hmatch =>
      cases h
      simp only [ne_eq, not_or, not_not] at hmatch
      exact ⟨rfl, hmatch⟩

theorem mem_scan {rows : List Row} {locked : JobId → Bool} {select : Row → Bool}
    {bind : PolicyBind} {candidate : Row × PolicyBind}
    (h : candidate ∈ scan rows locked select bind) :
    candidate.1 ∈ rows ∧ select candidate.1 = true ∧ candidate.1.kind = bind.kind ∧
      locked candidate.1.id = false := by
  rcases List.mem_map.mp h with ⟨row, hrow, rfl⟩
  have hscan := (List.mem_insertionSort _).mp (List.mem_of_mem_take hrow)
  rcases List.mem_filter.mp hscan with ⟨hmem, hselect⟩
  simp only [Bool.and_eq_true, Bool.not_eq_true', decide_eq_true_eq] at hselect
  exact ⟨hmem, hselect.1.1, hselect.1.2, hselect.2⟩

theorem picked_unlocked {rows : List Row} {locked : JobId → Bool} {binds : List PolicyBind}
    {requested : ℕ} {now : Time} {id : JobId}
    (h : id ∈ picked rows locked binds requested now) : locked id = false := by
  simp only [picked, candidates, List.mem_map] at h
  rcases h with ⟨row, hrow, rfl⟩
  have hdrawn := (List.mem_insertionSort _).mp (List.mem_of_mem_take hrow)
  rcases List.mem_map.mp hdrawn with ⟨candidate, hcandidate, rfl⟩
  rcases List.mem_append.mp (List.mem_filter.mp hcandidate).1 with hmem | hmem
  all_goals
    rcases List.mem_flatMap.mp hmem with ⟨bind, -, hmem⟩
    exact (mem_scan hmem).2.2.2

end JobsTable
