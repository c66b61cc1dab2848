import ServiceTemplate.TransitionSystem
import Mathlib.Data.List.Basic

/-! Readiness: a verdict checked in the background and served from cache, plus the drain and
completion-progress latches. Every operation runs under the write lock of one watch channel
and samples the clock there, so a run is a sequence of operations at nondecreasing instants.
Instants and durations are nanoseconds; the streak is a wrapping 32-bit counter. -/
namespace HealthReadiness

open TransitionSystem

inductive NotReady where
  | draining
  | notEvaluated
  | stale (age staleAfter : ℕ)
  | timedOut (probe : String) (budget : ℕ)
  | probeFailed (probe error : String)
  deriving DecidableEq, Repr

structure RefreshPolicy where
  interval : ℕ
  probeBudget : ℕ
  failureThreshold : UInt32
  deriving DecidableEq, Repr

/-- One in-flight check after the last stamp, then three periods. -/
def RefreshPolicy.staleAfter (p : RefreshPolicy) : ℕ :=
  p.probeBudget + max p.interval p.probeBudget * 3

structure ProgressLoss where
  lastCompletedAt : ℕ
  observedAt : ℕ
  staleAfter : ℕ
  deriving DecidableEq, Repr

def ProgressLoss.notReady (loss : ProgressLoss) : NotReady :=
  .stale (loss.observedAt - loss.lastCompletedAt) loss.staleAfter

inductive Progress where
  | unarmed
  | armed
  | expired (loss : ProgressLoss)
  | stopped
  deriving DecidableEq, Repr

structure Check where
  instant : ℕ
  verdict : Except NotReady Unit
  consecutiveFailures : UInt32
  deriving DecidableEq, Repr

structure State where
  draining : Bool
  lastCheck : Option Check
  progress : Progress
  deriving DecidableEq, Repr

def State.new : State := ⟨false, none, .unarmed⟩

inductive Record where
  | progressLost (loss : ProgressLoss)
  | refreshLate (age staleAfter : ℕ)
  | checkFailed (reason : NotReady) (consecutiveFailures : UInt32)
  | recovered
  | lost (reason : NotReady)
  deriving DecidableEq, Repr

/-- What an operation leaves behind: its result, the next state, whether the watch channel
notifies its readers, the writes to the `readiness_ready` gauge and the log records. -/
structure Effect (α : Type) where
  value : α
  state : State
  modified : Bool
  gauge : List Bool
  records : List Record

/-- Retains the first completion gap of an armed process; returns it when newly retained. -/
def State.expireProgress (s : State) (now staleAfter : ℕ) : State × Option ProgressLoss :=
  match s.progress, s.lastCheck with
  | .armed, some check =>
    if now - check.instant ≤ staleAfter then (s, none)
    else
      let loss := ⟨check.instant, now, staleAfter⟩
      ({ s with progress := .expired loss }, some loss)
  | _, _ => (s, none)

def State.progressLoss (s : State) : Option ProgressLoss :=
  match s.progress with
  | .expired loss => some loss
  | _ => none

def State.stopProgress (s : State) (now staleAfter : ℕ) : State × Option ProgressLoss :=
  let (expired, newly) := s.expireProgress now staleAfter
  match expired.progressLoss with
  | none => ({ expired with progress := .stopped }, newly)
  | some _ => (expired, newly)

/-- A newly retained gap withdraws the gauge. -/
def withdrawn (newly : Option ProgressLoss) : List Bool := newly.toList.map fun _ => false

def lossRecords (newly : Option ProgressLoss) : List Record := newly.toList.map .progressLost

def startDrain (p : RefreshPolicy) (s : State) (now : ℕ) : Effect Unit :=
  let (next, newly) := s.stopProgress now p.staleAfter
  { value := ()
    state := { next with draining := true }
    modified := !s.draining || newly.isSome
    gauge := withdrawn newly ++ [false]
    records := lossRecords newly }

def refuse (s : State) (reason : NotReady) : Effect (Except NotReady Unit) :=
  { value := .error reason, state := s, modified := false, gauge := [], records := [] }

/-- The last branch of `armProgress`: the admitted check keeps its timestamp, so an already
stale one expires at once. -/
def arm (p : RefreshPolicy) (s : State) (now : ℕ) : Effect (Except NotReady Unit) :=
  let (next, newly) := { s with progress := .armed }.expireProgress now p.staleAfter
  { value := match newly with
      | some loss => .error loss.notReady
      | none => .ok ()
    state := next
    modified := decide (s.progress = .unarmed) || newly.isSome
    gauge := withdrawn newly
    records := lossRecords newly }

def armProgress (p : RefreshPolicy) (s : State) (now : ℕ) : Effect (Except NotReady Unit) :=
  if s.draining ∨ s.progress = .stopped then refuse s .draining
  else
    match s.progressLoss, s.lastCheck with
    | some loss, _ => refuse s loss.notReady
    | none, none => refuse s .notEvaluated
    | none, some check =>
      match check.verdict with
      | .error reason => refuse s reason
      | .ok () => arm p s now

def progressLoss (p : RefreshPolicy) (s : State) (now : ℕ) : Effect (Option ProgressLoss) :=
  let (next, newly) := s.expireProgress now p.staleAfter
  { value := next.progressLoss
    state := next
    modified := newly.isSome
    gauge := withdrawn newly
    records := lossRecords newly }

def stopProgress (p : RefreshPolicy) (s : State) (now : ℕ) : Effect (Option ProgressLoss) :=
  let (next, newly) := s.stopProgress now p.staleAfter
  { value := next.progressLoss
    state := next
    modified := decide (s.progress = .unarmed ∨ s.progress = .armed)
    gauge := withdrawn newly
    records := lossRecords newly }

inductive ProbeOutcome where
  | ok
  | failed (error : String)
  | elapsed
  deriving DecidableEq, Repr

/-- The outcomes in registration order; the first failure is the verdict. -/
def checkProbes (p : RefreshPolicy) : List (String × ProbeOutcome) → Except NotReady Unit
  | [] => .ok ()
  | (_, .ok) :: rest => checkProbes p rest
  | (probe, .failed error) :: _ => .error (.probeFailed probe error)
  | (probe, .elapsed) :: _ => .error (.timedOut probe p.probeBudget)

def consecutiveFailures (previous : Option Check) : Except NotReady Unit → UInt32
  | .ok () => 0
  | .error _ =>
    match previous with
    | some check => check.consecutiveFailures + 1
    | none => 1

def wasPublishedReady (previous : Option Check) (now staleAfter : ℕ) : Bool :=
  match previous with
  | some check => check.verdict.isOk && decide (now - check.instant ≤ staleAfter)
  | none => false

/-- Keeps a fresh published ready verdict through failures below the threshold. -/
def applyFailureThreshold (previous : Option Check) (observed : Except NotReady Unit)
    (failureThreshold : UInt32) (now staleAfter : ℕ) : Check :=
  let streak := consecutiveFailures previous observed
  let holdReady := wasPublishedReady previous now staleAfter && !observed.isOk &&
    decide (streak < failureThreshold)
  { instant := now
    verdict := if holdReady then .ok () else observed
    consecutiveFailures := streak }

def readinessTransition (previous : Option Check) (next : Check) : List Record :=
  match previous with
  | none => []
  | some check =>
    if check.verdict.isOk = next.verdict.isOk then []
    else
      match next.verdict with
      | .ok () => [.recovered]
      | .error reason => [.lost reason]

def absorbedFailure (observed : Except NotReady Unit) (next : Check) : List Record :=
  match observed, next.verdict with
  | .error reason, .ok () => [.checkFailed reason next.consecutiveFailures]
  | _, _ => []

def lateBy (previous : Option Check) (now staleAfter : ℕ) : List Record :=
  match previous with
  | none => []
  | some check =>
    if staleAfter < now - check.instant then [.refreshLate (now - check.instant) staleAfter] else []

/-- The publication of a completed round. It is made even while draining or after a loss:
its timestamp is the refresher's heartbeat. -/
def refresh (p : RefreshPolicy) (s : State) (observed : Except NotReady Unit) (now : ℕ) :
    Effect Unit :=
  let (expired, newly) := s.expireProgress now p.staleAfter
  let next := applyFailureThreshold expired.lastCheck observed p.failureThreshold now p.staleAfter
  let serving := !expired.draining && expired.progressLoss.isNone
  { value := ()
    state := { expired with lastCheck := some next }
    modified := true
    gauge := withdrawn newly ++ [serving && next.verdict.isOk]
    records := lossRecords newly ++
      if serving then
        lateBy expired.lastCheck now p.staleAfter ++ absorbedFailure observed next ++
          readinessTransition expired.lastCheck next
      else [] }

/-- The reader's answer. It reads the cached state and never changes it. -/
def verdict (p : RefreshPolicy) (s : State) (now : ℕ) : Except NotReady Unit :=
  if s.draining then .error .draining
  else
    match s.progressLoss, s.lastCheck with
    | some loss, _ => .error loss.notReady
    | none, none => .error .notEvaluated
    | none, some check =>
      if p.staleAfter < now - check.instant then .error (.stale (now - check.instant) p.staleAfter)
      else check.verdict

inductive Op where
  | refresh (observed : Except NotReady Unit)
  | startDrain
  | armProgress
  | progressLoss
  | stopProgress
  | verdict
  deriving DecidableEq, Repr

structure Event where
  instant : ℕ
  op : Op
  deriving DecidableEq, Repr

/-- A completed round as the probes reported it, before the threshold. -/
structure Completion where
  instant : ℕ
  observed : Except NotReady Unit
  deriving DecidableEq, Repr

/-- The shared state with the clock and two histories: the completed rounds and every write
to the gauge. No operation reads the histories. -/
structure World where
  now : ℕ
  state : State
  checks : List Completion
  gauge : List Bool
  deriving DecidableEq, Repr

def perform (p : RefreshPolicy) (s : State) (e : Event) : State × List Bool :=
  match e.op with
  | .refresh observed => let f := refresh p s observed e.instant; (f.state, f.gauge)
  | .startDrain => let f := startDrain p s e.instant; (f.state, f.gauge)
  | .armProgress => let f := armProgress p s e.instant; (f.state, f.gauge)
  | .progressLoss => let f := progressLoss p s e.instant; (f.state, f.gauge)
  | .stopProgress => let f := stopProgress p s e.instant; (f.state, f.gauge)
  | .verdict => (s, [])

def completed (e : Event) : List Completion :=
  match e.op with
  | .refresh observed => [⟨e.instant, observed⟩]
  | _ => []

def step (p : RefreshPolicy) (w : World) (e : Event) : Option World :=
  if w.now ≤ e.instant then
    let (state, gauge) := perform p w.state e
    some ⟨e.instant, state, w.checks ++ completed e, w.gauge ++ gauge⟩
  else none

def readiness (p : RefreshPolicy) : System World Event :=
  ⟨⟨0, .new, [], [false]⟩, step p⟩

theorem step_eq_some {p : RefreshPolicy} {w w' : World} {e : Event} :
    (readiness p).step w e = some w' ↔ w.now ≤ e.instant ∧
      w' = ⟨e.instant, (perform p w.state e).1, w.checks ++ completed e,
        w.gauge ++ (perform p w.state e).2⟩ := by
  simp only [readiness, step]
  split
  · rename_i h
    constructor
    · intro hw
      exact ⟨h, (Option.some.inj hw).symm⟩
    · rintro ⟨-, rfl⟩
      rfl
  · rename_i h
    constructor
    · intro hw
      cases hw
    · rintro ⟨hle, -⟩
      exact absurd hle h

theorem expire_cases (s : State) (now staleAfter : ℕ) :
    (s.expireProgress now staleAfter = (s, none) ∧
      (s.progress = .armed → ∀ check, s.lastCheck = some check → now ≤ check.instant + staleAfter)) ∨
    (∃ check, s.progress = .armed ∧ s.lastCheck = some check ∧ check.instant + staleAfter < now ∧
      s.expireProgress now staleAfter =
        ({ s with progress := .expired ⟨check.instant, now, staleAfter⟩ },
          some ⟨check.instant, now, staleAfter⟩)) := by
  simp only [State.expireProgress]
  split
  · rename_i check hp hc
    split
    · rename_i hle
      left
      constructor
      · rfl
      · intro _ check' hc'
        rw [hc] at hc'
        cases hc'
        omega
    · rename_i hgt
      right
      exact ⟨check, hp, hc, by omega, rfl⟩
  · rename_i hno
    left
    constructor
    · rfl
    · intro hp check hc
      exact absurd hc (hno check hp)

end HealthReadiness
