import ServiceTemplate.IdempotencyArbitration
import ServiceTemplate.IdempotencyReplay

/-! Requests to idempotent operations over the shared store. The response of the work decides the
transaction, the store's decision becomes an answer, and the route boundary seals the replay marker
after the handler has returned. Process time is in milliseconds. -/
namespace IdempotencyExchange

open TransitionSystem
open IdempotencyRecord
open IdempotencyReplay
open IdempotencyArbitration (AttemptId AttemptError Attempted Commit Phase)

abbrev Instant := ℤ

/-- The time kept for the response after a database attempt. -/
def responseReserve : ℤ := 100

def retryAfterSeconds : ℕ := 1

inductive Code where
  | idempotencyUnavailable
  | idempotencyKeyMismatch
  | idempotencyRequestInProgress
  | internalServerError
  deriving DecidableEq, Repr

/-- `http_status` -/
def Code.status : Code → StatusCode
  | .idempotencyUnavailable => ⟨503, by decide⟩
  | .idempotencyKeyMismatch => ⟨422, by decide⟩
  | .idempotencyRequestInProgress => ⟨409, by decide⟩
  | .internalServerError => ⟨500, by decide⟩

structure Problem where
  code : Code
  detail : String
  retryAfter : Option ℕ
  deriving DecidableEq, Repr

def sanitizedInternalError : Problem := ⟨.internalServerError, "request failed", none⟩

def unavailable : Problem :=
  ⟨.idempotencyUnavailable, "idempotent request processing is unavailable", some retryAfterSeconds⟩

def keyMismatch : Problem :=
  ⟨.idempotencyKeyMismatch, "Idempotency-Key is bound to a different request", none⟩

def inProgress : Problem :=
  ⟨.idempotencyRequestInProgress, "a request with this Idempotency-Key is in progress",
    some retryAfterSeconds⟩

inductive Provenance where
  | executed
  | replayed
  deriving DecidableEq, Repr

/-- A response with the extensions this seam reads. -/
inductive Reply where
  | operation (response : Response) (provenance : Option Provenance)
  | problem (problem : Problem)

/-- `Outcome`, the metric labels of requests that entered `execute`. -/
inductive Label where
  | unavailable
  | inProgress
  | keyMismatch
  | replayed
  | integrity
  | internal
  | executed
  | unstorable
  | notStored
  | abandoned
  deriving DecidableEq, Repr

structure Answer where
  reply : Reply
  outcome : Label
  yieldToRequestTimeout : Bool

inductive Rollback where
  | response (response : Response)
  | unstorable

def boundaryProblem (problem : Problem) (outcome : Label) : Answer := ⟨.problem problem, outcome, true⟩

def operationResponse (response : Response) (provenance : Option Provenance) (outcome : Label) :
    Answer := ⟨.operation response provenance, outcome, false⟩

def integrityFailure : Answer := boundaryProblem sanitizedInternalError .integrity

def mapAttempted : IdempotencyArbitration.Outcome Stored Rollback → Answer
  | .error .unavailable => boundaryProblem unavailable .unavailable
  | .error .internal => boundaryProblem sanitizedInternalError .internal
  | .ok (.rolledBack .unstorable) => boundaryProblem sanitizedInternalError .unstorable
  | .error .integrity => integrityFailure
  | .ok .mismatch => boundaryProblem keyMismatch .keyMismatch
  | .ok (.replay record) =>
    match decode record with
    | .ok stored => operationResponse stored.intoResponse (some .replayed) .replayed
    | .error _ => integrityFailure
  | .ok .inProgress => boundaryProblem inProgress .inProgress
  | .ok (.rolledBack (.response response)) => operationResponse response none .notStored
  | .ok (.committed stored) => operationResponse stored.intoResponse (some .executed) .executed

/-- The closure `execute` runs in the transaction, after the work has answered `response`. -/
def workResult (fingerprint : Digest) (response : Response) : Except Rollback (Record × Stored) :=
  if !response.status.isSuccess then .error (.response response)
  else match capture response with
    | .error _ => .error .unstorable
    | .ok stored =>
      match stored.record fingerprint with
      | .error _ => .error .unstorable
      | .ok record => .ok (record, stored)

theorem marker_canonical : CanonicalName "idempotent-replayed" := by decide

def markerName : HeaderName := ⟨"idempotent-replayed", marker_canonical⟩

def markerValue : HeaderValue := ⟨[116, 114, 117, 101], by decide⟩

/-- Neither a supplied header nor a 2xx status proves a replay. -/
def normalizeResponse : Reply → Reply
  | .problem problem => .problem problem
  | .operation response provenance =>
    let response := { response with headers := response.headers.remove replayedHeader }
    if !response.status.isSuccess then .operation response none
    else match provenance with
      | some .executed => .operation response none
      | some .replayed =>
        .operation { response with headers := response.headers.append markerName markerValue } none
      | none => .problem sanitizedInternalError

/-- `attempting` is the database attempt, `mapped` an answer not sent yet, `sent` what `execute` has
returned to the handler, `done` what left the route, if anything did. -/
inductive Progress where
  | attempting
  | mapped (answer : Answer)
  | sent (reply : Reply)
  | done (reply : Option Reply)

structure Exchange where
  request : IdempotencyArbitration.Request
  deadline : Instant
  worked : Option Response
  progress : Progress

structure World where
  now : Instant
  store : IdempotencyArbitration.State Stored Rollback
  exchanges : AttemptId → Option Exchange
  recorded : List (AttemptId × Label)

inductive Event where
  | advance (now : Instant)
  | «open» (a : AttemptId) (request : IdempotencyArbitration.Request) (deadline : Instant)
  | store (e : IdempotencyArbitration.Event Stored Rollback)
  | work (a : AttemptId) (response : Response)
  | decided (k : ℕ)
  | expire (a : AttemptId)
  | send (a : AttemptId)
  | handler (a : AttemptId) (own : Option Response)
  | drop (a : AttemptId)

def World.set (w : World) (a : AttemptId) (exchange : Exchange) : World :=
  { w with exchanges := Function.update w.exchanges a (some exchange) }

/-- `postgres_attempt_end` -/
def World.attemptEnd (w : World) (deadline : Instant) : Option Instant :=
  some (deadline - responseReserve) |>.filter (w.now < ·)

def World.open (w : World) (a : AttemptId) (request : IdempotencyArbitration.Request)
    (deadline : Instant) : Option World :=
  match w.exchanges a with
  | some _ => none
  | none =>
    match w.attemptEnd deadline with
    | none =>
      some (w.set a ⟨request, deadline, none, .mapped (mapAttempted (.error .unavailable))⟩)
    | some _ =>
      (IdempotencyArbitration.step w.store (.start a request)).map fun store =>
        { w with store := store }.set a ⟨request, deadline, none, .attempting⟩

/-- Attempts start in `execute` and run the work of its closure. -/
def ofServer : IdempotencyArbitration.Event Stored Rollback → Bool
  | .start .. | .work .. => false
  | _ => true

def World.work (w : World) (a : AttemptId) (response : Response) : Option World :=
  match w.exchanges a with
  | some ⟨request, deadline, _, .attempting⟩ =>
    (IdempotencyArbitration.step w.store
      (.work a (workResult request.fingerprint response))).map fun store =>
        { w with store := store }.set a ⟨request, deadline, some response, .attempting⟩
  | _ => none

def World.decided (w : World) (k : ℕ) : Option World :=
  match w.store.answers[k]? with
  | none => none
  | some answer =>
    match w.exchanges answer.attempt with
    | some ⟨request, deadline, worked, .attempting⟩ =>
      some (w.set answer.attempt ⟨request, deadline, worked, .mapped (mapAttempted answer.outcome)⟩)
    | _ => none

/-- The attempt's end: its future is dropped, whatever the server still does. -/
def World.expire (w : World) (a : AttemptId) : Option World :=
  match w.exchanges a with
  | some ⟨request, deadline, worked, .attempting⟩ =>
    if deadline - responseReserve ≤ w.now then
      some (w.set a ⟨request, deadline, worked, .mapped (mapAttempted (.error .unavailable))⟩)
    else none
  | _ => none

/-- `Answer::send`: an expired boundary failure stays pending until it is dropped. -/
def World.send (w : World) (a : AttemptId) : Option World :=
  match w.exchanges a with
  | some ⟨request, deadline, worked, .mapped answer⟩ =>
    if answer.yieldToRequestTimeout && decide (deadline ≤ w.now) then none
    else some { w.set a ⟨request, deadline, worked, .sent answer.reply⟩ with
      recorded := w.recorded ++ [(a, answer.outcome)] }
  | _ => none

/-- The handler returns what `execute` gave it, or a response of its own. -/
def World.handler (w : World) (a : AttemptId) (own : Option Response) : Option World :=
  match w.exchanges a with
  | some ⟨request, deadline, worked, .sent reply⟩ =>
    let returned := own.elim reply fun response => .operation response none
    some (w.set a ⟨request, deadline, worked, .done (some (normalizeResponse returned))⟩)
  | _ => none

/-- The request's own deadline or a lost client. -/
def World.drop (w : World) (a : AttemptId) : Option World :=
  match w.exchanges a with
  | some ⟨request, deadline, worked, .attempting⟩ | some ⟨request, deadline, worked, .mapped _⟩ =>
    some { w.set a ⟨request, deadline, worked, .done none⟩ with
      recorded := w.recorded ++ [(a, .abandoned)] }
  | some ⟨request, deadline, worked, .sent _⟩ =>
    some (w.set a ⟨request, deadline, worked, .done none⟩)
  | _ => none

def step (w : World) : Event → Option World
  | .advance now => if w.now ≤ now then some { w with now := now } else none
  | .open a request deadline => w.open a request deadline
  | .store e =>
    if ofServer e then
      (IdempotencyArbitration.step w.store e).map fun store => { w with store := store }
    else none
  | .work a response => w.work a response
  | .decided k => w.decided k
  | .expire a => w.expire a
  | .send a => w.send a
  | .handler a own => w.handler a own
  | .drop a => w.drop a

def initial : World := ⟨0, IdempotencyArbitration.initial, fun _ => none, []⟩

def exchanges : System World Event := ⟨initial, step⟩

section Server

variable {s t : IdempotencyArbitration.State Stored Rollback}
  {e : IdempotencyArbitration.Event Stored Rollback}
  {old : IdempotencyArbitration.Attempt Stored} {a : AttemptId}

def result : Phase Stored → Option (Record × Stored)
  | .worked record stored _ => some (record, stored)
  | .written row stored _ _ => some (row.record, stored)
  | _ => none

def Fresh (t : IdempotencyArbitration.State Stored Rollback) (a : AttemptId)
    (old : IdempotencyArbitration.Attempt Stored) (stored : Stored) : Prop :=
  ∃ c ∈ t.commits, c.attempt = a ∧ c.request = old.request ∧
    result old.phase = some (c.row.record, stored)

/-- Apart from starts and work, statements carry results on unchanged, commit what was written and
answer as committed only what is. -/
structure Effect (s t : IdempotencyArbitration.State Stored Rollback) : Prop where
  attempts : ∀ a new, t.attempts a = some new → ∃ old, s.attempts a = some old ∧
    new.request = old.request ∧ (∀ p, result new.phase = some p → result old.phase = some p) ∧
    ∀ stored, new.phase = .committed stored → old.phase = .committed stored ∨ Fresh t a old stored
  commits : ∃ more, t.commits = s.commits ++ more ∧ ∀ c ∈ more, ∃ old stored,
    s.attempts c.attempt = some old ∧ c.request = old.request ∧
      result old.phase = some (c.row.record, stored)
  answers : ∃ more, t.answers = s.answers ++ more ∧ ∀ answer ∈ more, ∃ old,
    s.attempts answer.attempt = some old ∧ answer.request = old.request ∧
      (∀ stored, answer.outcome = .ok (.committed stored) → old.phase = .committed stored) ∧
      ∀ value, answer.outcome ≠ .ok (.rolledBack value)

theorem Effect.untouched (hattempts : t.attempts = s.attempts) (hcommits : t.commits = s.commits)
    (hanswers : t.answers = s.answers) : Effect s t where
  attempts a new hnew := ⟨new, hattempts ▸ hnew, rfl, fun _ => id, fun _ => .inl⟩
  commits := ⟨[], by simp [hcommits], by simp⟩
  answers := ⟨[], by simp [hanswers], by simp⟩

theorem Effect.moved {since : IdempotencyArbitration.Time} {phase : Phase Stored}
    (hold : s.attempts a = some old)
    (hattempts : t.attempts = Function.update s.attempts a (some ⟨old.request, since, phase⟩))
    (hresult : ∀ p, result phase = some p → result old.phase = some p)
    (hcommitted : ∀ stored, phase ≠ .committed stored) (hcommits : t.commits = s.commits)
    (hanswers : t.answers = s.answers) : Effect s t where
  attempts b new hnew := by
    rw [hattempts] at hnew
    by_cases hb : b = a
    · subst hb
      rw [Function.update_self] at hnew
      cases hnew
      exact ⟨old, hold, rfl, hresult, fun stored heq => absurd heq (hcommitted stored)⟩
    · rw [Function.update_of_ne hb] at hnew
      exact ⟨new, hnew, rfl, fun _ => id, fun _ => .inl⟩
  commits := ⟨[], by simp [hcommits], by simp⟩
  answers := ⟨[], by simp [hanswers], by simp⟩

theorem Effect.answered {outcome : IdempotencyArbitration.Outcome Stored Rollback}
    {u : IdempotencyArbitration.State Stored Rollback} {stamp : IdempotencyArbitration.Time}
    (h : Effect s u) (hold : s.attempts a = some old) (hattempts : t.attempts = u.attempts)
    (hcommits : t.commits = u.commits) (hbefore : u.answers = s.answers)
    (hanswers : t.answers = u.answers ++ [⟨a, old.request, outcome, stamp⟩])
    (hcommitted : ∀ stored, outcome = .ok (.committed stored) → old.phase = .committed stored)
    (hrolled : ∀ value, outcome ≠ .ok (.rolledBack value)) : Effect s t where
  attempts b new hnew := by
    obtain ⟨before, hbefore, hrequest, hresult, hfresh⟩ := h.attempts b new (hattempts ▸ hnew)
    refine ⟨before, hbefore, hrequest, hresult, fun stored hstored => ?_⟩
    obtain hsame | ⟨c, hc, hrest⟩ := hfresh stored hstored
    · exact .inl hsame
    · exact .inr ⟨c, hcommits ▸ hc, hrest⟩
  commits := hcommits ▸ h.commits
  answers := by
    refine ⟨[⟨a, old.request, outcome, stamp⟩], by rw [hanswers, hbefore], fun answer hmem => ?_⟩
    obtain rfl := List.mem_singleton.mp hmem
    exact ⟨old, hold, rfl, hcommitted, hrolled⟩

def Refused (outcome : IdempotencyArbitration.Outcome Stored Rollback) : Prop :=
  (∀ stored, outcome ≠ .ok (.committed stored)) ∧ ∀ value, outcome ≠ .ok (.rolledBack value)

theorem live_record_refused (fingerprint : Digest) (row : IdempotencyArbitration.Row) :
    Refused (.ok (IdempotencyArbitration.liveRecord fingerprint row)) := by
  rw [IdempotencyArbitration.liveRecord]
  split <;> exact ⟨by simp, by simp⟩

theorem decide_first_refused {fingerprint : Digest} {writable acquired : Bool}
    {live : Option IdempotencyArbitration.Row}
    {outcome : IdempotencyArbitration.Outcome Stored Rollback}
    (h : IdempotencyArbitration.decideFirst fingerprint writable acquired live = some outcome) :
    Refused outcome := by
  simp only [IdempotencyArbitration.decideFirst] at h
  split at h
  · cases h
    exact ⟨by simp, by simp⟩
  · split at h
    · cases h
      exact live_record_refused _ _
    · split at h <;> cases h
      exact ⟨by simp, by simp⟩

theorem decide_second_refused {fingerprint : Digest} {live : Option IdempotencyArbitration.Row}
    {outcome : IdempotencyArbitration.Outcome Stored Rollback}
    (h : IdempotencyArbitration.decideSecond fingerprint live = some outcome) :
    Refused outcome := by
  obtain ⟨row, -, rfl⟩ := Option.map_eq_some_iff.mp h
  exact live_record_refused fingerprint row

theorem Effect.refused {outcome : IdempotencyArbitration.Outcome Stored Rollback}
    {stamp : IdempotencyArbitration.Time} {u : IdempotencyArbitration.State Stored Rollback}
    (hold : s.attempts a = some old) (hrefused : Refused outcome)
    (hsame : u.attempts = s.attempts ∧ u.commits = s.commits ∧ u.answers = s.answers) :
    Effect s ((u.set a old.request .stopped).answer a old.request outcome stamp) := by
  have hstopped : Effect s (u.set a old.request .stopped) :=
    .moved hold (by rw [← hsame.1]; rfl) (fun p hp => by cases hp) (fun stored heq => by cases heq)
      hsame.2.1 hsame.2.2
  exact hstopped.answered hold rfl rfl hsame.2.2 rfl
    (fun stored heq => absurd heq (hrefused.1 stored))
    hrefused.2

theorem try_lock_effect (h : IdempotencyArbitration.tryLock s a = some t) : Effect s t := by
  simp only [IdempotencyArbitration.tryLock] at h
  split at h
  · rename_i request since live writable stamp hold
    generalize hu : (if (s.locks request.scope.lockKey).isNone = true then
      { s with locks := Function.update s.locks request.scope.lockKey (some a) } else s) = u at h
    have hsame : u.attempts = s.attempts ∧ u.commits = s.commits ∧ u.answers = s.answers := by
      rw [← hu]
      split <;> exact ⟨rfl, rfl, rfl⟩
    split at h
    · rename_i outcome houtcome
      cases h
      exact .refused hold (decide_first_refused houtcome) hsame
    · cases h
      exact .moved hold (by rw [← hsame.1]; rfl) (fun p hp => by cases hp)
        (fun stored heq => by cases heq) hsame.2.1 hsame.2.2
  · cases h

theorem statement2_effect {stamp : IdempotencyArbitration.Time}
    (h : IdempotencyArbitration.statement2 s a stamp = some t) : Effect s t := by
  simp only [IdempotencyArbitration.statement2] at h
  split at h
  · rename_i request since hold
    split at h
    · split at h
      · rename_i outcome houtcome
        cases h
        exact .refused hold (decide_second_refused houtcome) ⟨rfl, rfl, rfl⟩
      · cases h
        exact .moved hold rfl (fun p hp => by cases hp) (fun stored heq => by cases heq) rfl rfl
    · cases h
  · cases h

theorem write_effect {stamp : IdempotencyArbitration.Time}
    (h : IdempotencyArbitration.write s a stamp = some t) : Effect s t := by
  simp only [IdempotencyArbitration.write] at h
  split at h
  · rename_i request since record stored readAt hold
    split at h
    · split at h
      · cases h
        exact .refused hold ⟨by simp, by simp⟩ ⟨rfl, rfl, rfl⟩
      · cases h
        exact .moved hold rfl (fun p hp => hp) (fun stored heq => by cases heq) rfl rfl
    · cases h
  · cases h

theorem commit_effect (h : IdempotencyArbitration.commit s a = some t) : Effect s t := by
  simp only [IdempotencyArbitration.commit] at h
  split at h
  · rename_i request since row stored readAt writtenAt hold
    cases h
    refine ⟨fun b new hnew => ?_, ⟨[⟨a, request, row, readAt, writtenAt⟩], rfl, fun c hc => ?_⟩,
      ⟨[], by simp [IdempotencyArbitration.State.set], by simp⟩⟩
    · have hupdate : Function.update s.attempts a (some ⟨request, s.clock, .committed stored⟩) b =
          some new := hnew
      by_cases hb : b = a
      · subst hb
        rw [Function.update_self] at hupdate
        cases hupdate
        refine ⟨_, hold, rfl, fun p hp => (by cases hp), fun value heq => .inr ?_⟩
        cases heq
        exact ⟨⟨b, request, row, readAt, writtenAt⟩, by simp, rfl, rfl, rfl⟩
      · rw [Function.update_of_ne hb] at hupdate
        exact ⟨new, hupdate, rfl, fun _ => id, fun _ => .inl⟩
    · obtain rfl := List.mem_singleton.mp hc
      exact ⟨_, stored, hold, rfl, rfl⟩
  · cases h

theorem release_effect {acknowledged : Bool}
    (h : IdempotencyArbitration.release s a acknowledged = some t) : Effect s t := by
  simp only [IdempotencyArbitration.release] at h
  split at h
  · rename_i request since stored hold
    have hfreed : Effect s { s.set a request .ended with
        locks := Function.update s.locks request.scope.lockKey none } :=
      .moved hold rfl (fun p hp => by cases hp) (fun stored heq => by cases heq) rfl rfl
    cases acknowledged with
    | false =>
      cases h
      exact hfreed
    | true =>
      cases h
      exact hfreed.answered hold rfl rfl rfl rfl (fun value heq => by cases heq; rfl) (by simp)
  · cases h

theorem effect (he : ofServer e = true) (h : IdempotencyArbitration.step s e = some t) :
    Effect s t := by
  cases e with
  | start | work => cases he
  | tick elapsed =>
    cases h
    exact .untouched rfl rfl rfl
  | statement1 a stamp writable =>
    simp only [IdempotencyArbitration.step, IdempotencyArbitration.statement1] at h
    split at h
    · rename_i request since hold
      split at h <;> cases h
      exact .moved hold rfl (fun p hp => by cases hp) (fun stored heq => by cases heq) rfl rfl
    · cases h
  | tryLock => exact try_lock_effect h
  | statement2 => exact statement2_effect h
  | write => exact write_effect h
  | commit => exact commit_effect h
  | release => exact release_effect h
  | fail a error =>
    simp only [IdempotencyArbitration.step, IdempotencyArbitration.fail] at h
    split at h
    · split at h <;> cases h
      exact .refused ‹_› ⟨by simp, by simp⟩ ⟨rfl, rfl, rfl⟩
    · cases h
  | lose a =>
    simp only [IdempotencyArbitration.step, IdempotencyArbitration.lose] at h
    split at h
    all_goals cases h
    all_goals exact (Effect.untouched rfl rfl rfl).answered ‹_› rfl rfl rfl rfl (by simp) (by simp)
  | rollback a =>
    simp only [IdempotencyArbitration.step, IdempotencyArbitration.rollback] at h
    split at h
    · split at h <;> cases h
      exact .moved ‹_› rfl (fun p hp => by cases hp) (fun stored heq => by cases heq) rfl rfl
    · cases h
  | cleanupDelete c stamp scopes =>
    simp only [IdempotencyArbitration.step, IdempotencyArbitration.cleanupDelete] at h
    split at h <;> cases h
    exact .untouched rfl rfl rfl
  | cleanupCommit c | cleanupAbort c =>
    simp only [IdempotencyArbitration.step, IdempotencyArbitration.cleanupCommit,
      IdempotencyArbitration.cleanupAbort] at h
    obtain ⟨scopes, -, rfl⟩ := Option.map_eq_some_iff.mp h
    exact .untouched rfl rfl rfl

end Server

abbrev View := AttemptId → Option (IdempotencyArbitration.Request × Option Response)

def World.view (w : World) : View := fun a => (w.exchanges a).map fun x => (x.request, x.worked)

/-- The record and its value are what the seam makes of the work's response. -/
def Stores (worked : Option Response) (fingerprint : Digest) (record : Record) (stored : Stored) :
    Prop :=
  ∃ response, worked = some response ∧ capture response = .ok stored ∧
    stored.record fingerprint = .ok record

def Backed (view : View) (c : Commit) (stored : Stored) : Prop :=
  ∃ worked, view c.attempt = some (c.request, worked) ∧
    Stores worked c.request.fingerprint c.row.record stored

structure Linked (s : IdempotencyArbitration.State Stored Rollback) (view : View) : Prop where
  attempts : ∀ a attempt, s.attempts a = some attempt → ∃ worked,
    view a = some (attempt.request, worked) ∧ ∀ record stored,
      result attempt.phase = some (record, stored) →
        Stores worked attempt.request.fingerprint record stored
  committed : ∀ a attempt stored, s.attempts a = some attempt → attempt.phase = .committed stored →
    ∃ c ∈ s.commits, c.attempt = a ∧ c.request = attempt.request ∧ Backed view c stored
  commits : ∀ c ∈ s.commits, ∃ stored, Backed view c stored
  answers : ∀ answer ∈ s.answers, ∃ worked, view answer.attempt = some (answer.request, worked)
  executed : ∀ answer ∈ s.answers, ∀ stored, answer.outcome = .ok (.committed stored) →
    ∃ c ∈ s.commits, c.attempt = answer.attempt ∧ c.request = answer.request ∧ Backed view c stored
  rejected : ∀ answer ∈ s.answers, ∀ response,
    answer.outcome = .ok (.rolledBack (.response response)) → response.status.isSuccess = false

section Links

variable {s t : IdempotencyArbitration.State Stored Rollback} {view : View} {a : AttemptId}
  {c : Commit} {stored : Stored} {old : IdempotencyArbitration.Attempt Stored}

theorem Linked.back (h : Linked s view) (hold : s.attempts a = some old) (ha : c.attempt = a)
    (hrequest : c.request = old.request) (hresult : result old.phase = some (c.row.record, stored)) :
    Backed view c stored := by
  obtain ⟨worked, hview, hstores⟩ := h.attempts a old hold
  exact ⟨worked, by rw [ha, hrequest, hview], hrequest ▸ hstores _ _ hresult⟩

theorem Linked.server (h : Linked s view) (he : Effect s t) : Linked t view := by
  obtain ⟨more, hcommits, hmore⟩ := he.commits
  obtain ⟨answers, hanswers, hnew⟩ := he.answers
  have hkept : ∀ c ∈ s.commits, c ∈ t.commits := fun c hc => hcommits ▸ List.mem_append_left _ hc
  refine ⟨fun a new hattempt => ?_, fun a new stored hattempt hphase => ?_, fun c hc => ?_,
    fun answer ha => ?_, fun answer ha stored houtcome => ?_, fun answer ha response houtcome => ?_⟩
  · obtain ⟨old, hold, hrequest, hresult, -⟩ := he.attempts a new hattempt
    obtain ⟨worked, hview, hstores⟩ := h.attempts a old hold
    rw [hrequest]
    exact ⟨worked, hview, fun record stored hp => hstores _ _ (hresult _ hp)⟩
  · obtain ⟨old, hold, hrequest, -, hfresh⟩ := he.attempts a new hattempt
    rw [hrequest]
    obtain hsame | ⟨c, hc, hca, hcr, hresult⟩ := hfresh stored hphase
    · obtain ⟨c, hc, hrest⟩ := h.committed a old stored hold hsame
      exact ⟨c, hkept c hc, hrest⟩
    · exact ⟨c, hc, hca, hcr, h.back hold hca hcr hresult⟩
  · rw [hcommits] at hc
    obtain hc | hc := List.mem_append.mp hc
    · exact h.commits c hc
    · obtain ⟨old, stored, hold, hrequest, hresult⟩ := hmore c hc
      exact ⟨stored, h.back hold rfl hrequest hresult⟩
  · rw [hanswers] at ha
    obtain ha | ha := List.mem_append.mp ha
    · exact h.answers answer ha
    · obtain ⟨old, hold, hrequest, -⟩ := hnew answer ha
      obtain ⟨worked, hview, -⟩ := h.attempts _ old hold
      exact ⟨worked, hrequest ▸ hview⟩
  · rw [hanswers] at ha
    obtain ha | ha := List.mem_append.mp ha
    · obtain ⟨c, hc, hrest⟩ := h.executed answer ha stored houtcome
      exact ⟨c, hkept c hc, hrest⟩
    · obtain ⟨old, hold, hrequest, hcommitted, -⟩ := hnew answer ha
      obtain ⟨c, hc, hrest⟩ := h.committed _ old stored hold (hcommitted stored houtcome)
      exact ⟨c, hkept c hc, hrequest ▸ hrest⟩
  · rw [hanswers] at ha
    obtain ha | ha := List.mem_append.mp ha
    · exact h.rejected answer ha response houtcome
    · obtain ⟨old, -, -, -, hrolled⟩ := hnew answer ha
      exact absurd houtcome (hrolled _)

theorem Linked.enter (h : Linked s view) (request : IdempotencyArbitration.Request)
    (hfresh : view a = none) : Linked s (Function.update view a (some (request, none))) := by
  have hkept : ∀ b v, view b = some v →
      Function.update view a (some (request, none)) b = some v := by
    intro b v hb
    have hne : b ≠ a := fun heq => by
      rw [heq, hfresh] at hb
      cases hb
    rwa [Function.update_of_ne hne]
  have hbacked : ∀ c stored, Backed view c stored →
      Backed (Function.update view a (some (request, none))) c stored :=
    fun c stored ⟨worked, hview, hstores⟩ => ⟨worked, hkept _ _ hview, hstores⟩
  refine ⟨fun b attempt hb => ?_, fun b attempt stored hb hphase => ?_, fun c hc => ?_,
    fun answer ha => ?_, fun answer ha stored houtcome => ?_, h.rejected⟩
  · obtain ⟨worked, hview, hstores⟩ := h.attempts b attempt hb
    exact ⟨worked, hkept _ _ hview, hstores⟩
  · obtain ⟨c, hc, hca, hcr, hback⟩ := h.committed b attempt stored hb hphase
    exact ⟨c, hc, hca, hcr, hbacked _ _ hback⟩
  · obtain ⟨stored, hback⟩ := h.commits c hc
    exact ⟨stored, hbacked _ _ hback⟩
  · obtain ⟨worked, hview⟩ := h.answers answer ha
    exact ⟨worked, hkept _ _ hview⟩
  · obtain ⟨c, hc, hca, hcr, hback⟩ := h.executed answer ha stored houtcome
    exact ⟨c, hc, hca, hcr, hbacked _ _ hback⟩

theorem Linked.place {new : IdempotencyArbitration.Attempt Stored} {worked : Option Response}
    (h : Linked s view) (answers : List (IdempotencyArbitration.Answer Stored Rollback))
    (hattempts : t.attempts = Function.update s.attempts a (some new))
    (hcommits : t.commits = s.commits) (hanswers : t.answers = s.answers ++ answers)
    (hview : view a = some (new.request, worked))
    (hresult : ∀ record stored, result new.phase = some (record, stored) →
      Stores worked new.request.fingerprint record stored)
    (hphase : ∀ stored, new.phase ≠ .committed stored)
    (hnew : ∀ answer ∈ answers, answer.attempt = a ∧ answer.request = new.request ∧
      (∀ stored, answer.outcome ≠ .ok (.committed stored)) ∧ ∀ response,
        answer.outcome = .ok (.rolledBack (.response response)) →
          response.status.isSuccess = false) : Linked t view := by
  have hcases : ∀ b attempt, t.attempts b = some attempt →
      b = a ∧ attempt = new ∨ s.attempts b = some attempt := by
    intro b attempt hb
    rw [hattempts] at hb
    by_cases hba : b = a
    · subst hba
      rw [Function.update_self] at hb
      exact .inl ⟨rfl, (Option.some.inj hb).symm⟩
    · rw [Function.update_of_ne hba] at hb
      exact .inr hb
  refine ⟨fun b attempt hb => ?_, fun b attempt stored hb hcommitted => ?_, fun c hc => ?_,
    fun answer ha => ?_, fun answer ha stored houtcome => ?_, fun answer ha response houtcome => ?_⟩
  · obtain ⟨rfl, rfl⟩ | hold := hcases b attempt hb
    · exact ⟨worked, hview, hresult⟩
    · exact h.attempts b attempt hold
  · obtain ⟨rfl, rfl⟩ | hold := hcases b attempt hb
    · exact absurd hcommitted (hphase stored)
    · exact hcommits ▸ h.committed b attempt stored hold hcommitted
  · exact h.commits c (hcommits ▸ hc)
  · rw [hanswers] at ha
    obtain ha | ha := List.mem_append.mp ha
    · exact h.answers answer ha
    · obtain ⟨hattempt, hrequest, -⟩ := hnew answer ha
      exact ⟨worked, by rw [hattempt, hrequest, hview]⟩
  · rw [hanswers] at ha
    obtain ha | ha := List.mem_append.mp ha
    · exact hcommits ▸ h.executed answer ha stored houtcome
    · exact absurd houtcome ((hnew answer ha).2.2.1 stored)
  · rw [hanswers] at ha
    obtain ha | ha := List.mem_append.mp ha
    · exact h.rejected answer ha response houtcome
    · exact (hnew answer ha).2.2.2 response houtcome

theorem Linked.rework {request : IdempotencyArbitration.Request} {worked : Option Response}
    (h : Linked s view) (hfree : ∀ c ∈ s.commits, c.attempt ≠ a)
    (hview : view a = some (request, worked))
    (hresult : ∀ attempt, s.attempts a = some attempt → result attempt.phase = none)
    (worked' : Option Response) : Linked s (Function.update view a (some (request, worked'))) := by
  have hbacked : ∀ c ∈ s.commits, ∀ stored, Backed view c stored →
      Backed (Function.update view a (some (request, worked'))) c stored := by
    rintro c hc stored ⟨worked, hc', hstores⟩
    exact ⟨worked, by rwa [Function.update_of_ne (hfree c hc)], hstores⟩
  have hasked : ∀ b asked, (∃ worked, view b = some (asked, worked)) → ∃ worked,
      Function.update view a (some (request, worked')) b = some (asked, worked) := by
    rintro b asked ⟨worked, hb⟩
    by_cases hba : b = a
    · subst hba
      rw [hview] at hb
      cases hb
      exact ⟨worked', Function.update_self ..⟩
    · exact ⟨worked, by rwa [Function.update_of_ne hba]⟩
  refine ⟨fun b attempt hb => ?_, fun b attempt stored hb hphase => ?_, fun c hc => ?_,
    fun answer ha => ?_, fun answer ha stored houtcome => ?_, h.rejected⟩
  · obtain ⟨held, hheld, hstores⟩ := h.attempts b attempt hb
    by_cases hba : b = a
    · subst hba
      obtain ⟨held', hheld'⟩ := hasked b attempt.request ⟨held, hheld⟩
      refine ⟨held', hheld', fun record stored hp => ?_⟩
      rw [hresult attempt hb] at hp
      cases hp
    · exact ⟨held, by rwa [Function.update_of_ne hba], hstores⟩
  · obtain ⟨c, hc, hca, hcr, hback⟩ := h.committed b attempt stored hb hphase
    exact ⟨c, hc, hca, hcr, hbacked c hc stored hback⟩
  · obtain ⟨stored, hback⟩ := h.commits c hc
    exact ⟨stored, hbacked c hc stored hback⟩
  · exact hasked _ _ (h.answers answer ha)
  · obtain ⟨c, hc, hca, hcr, hback⟩ := h.executed answer ha stored houtcome
    exact ⟨c, hc, hca, hcr, hbacked c hc stored hback⟩

theorem work_result_ok {fingerprint : Digest} {response : Response} {record : Record}
    (h : workResult fingerprint response = .ok (record, stored)) :
    capture response = .ok stored ∧ stored.record fingerprint = .ok record := by
  simp only [workResult] at h
  split at h
  · cases h
  · split at h
    · cases h
    · split at h
      · cases h
      · cases h
        exact ⟨‹_›, ‹_›⟩

theorem work_result_response {fingerprint : Digest} {response given : Response}
    (h : workResult fingerprint response = .error (.response given)) :
    given.status.isSuccess = false := by
  simp only [workResult] at h
  split at h
  · rename_i hfailed
    cases h
    simpa using hfailed
  · split at h
    · cases h
    · split at h <;> cases h

theorem Linked.start {request : IdempotencyArbitration.Request} (h : Linked s view)
    (hview : view a = some (request, none))
    (hstep : IdempotencyArbitration.step s (.start a request) = some t) : Linked t view := by
  simp only [IdempotencyArbitration.step, IdempotencyArbitration.start] at hstep
  split at hstep
  · cases hstep
    refine h.place [] rfl rfl ?_ hview ?_ ?_ (by simp)
    · simp [IdempotencyArbitration.State.set]
    · intro record stored hp
      cases hp
    · intro stored heq
      cases heq
  · cases hstep

theorem Linked.work {request : IdempotencyArbitration.Request} {worked : Option Response}
    {response : Response} (h : Linked s view) (hs : IdempotencyArbitration.Invariant s)
    (hview : view a = some (request, worked))
    (hstep : IdempotencyArbitration.step s
      (.work a (workResult request.fingerprint response)) = some t) :
    Linked t (Function.update view a (some (request, some response))) := by
  simp only [IdempotencyArbitration.step, IdempotencyArbitration.work] at hstep
  split at hstep
  · rename_i asked since readAt hold
    have hfree : ∀ c ∈ s.commits, c.attempt ≠ a :=
      (hs.attempts a _ hold).volatile (by simp [Phase.Durable])
    have hasked : asked = request := by
      obtain ⟨held, hheld, -⟩ := h.attempts a _ hold
      rw [hview] at hheld
      exact (Prod.mk.inj (Option.some.inj hheld)).1.symm
    subst hasked
    have hrunning : ∀ attempt, s.attempts a = some attempt → result attempt.phase = none := by
      intro attempt hattempt
      rw [hold] at hattempt
      cases hattempt
      rfl
    have hnow := h.rework hfree hview hrunning (some response)
    have hlooked : Function.update view a (some (asked, some response)) a =
        some (asked, some response) := Function.update_self ..
    split at hstep
    · rename_i record stored hresult
      cases hstep
      obtain ⟨hcapture, hrecord⟩ := work_result_ok hresult
      refine hnow.place [] rfl rfl ?_ hlooked ?_ ?_ (by simp)
      · simp [IdempotencyArbitration.State.set]
      · intro record' stored' hp
        cases hp
        exact ⟨response, rfl, hcapture, hrecord⟩
      · intro stored heq
        cases heq
    · rename_i value hresult
      cases hstep
      refine hnow.place _ rfl rfl rfl hlooked ?_ ?_ ?_
      · intro record stored hp
        cases hp
      · intro stored heq
        cases heq
      · intro answer ha
        obtain rfl := List.mem_singleton.mp ha
        refine ⟨rfl, rfl, by simp, fun given heq => ?_⟩
        cases heq
        exact work_result_response hresult
  · cases hstep

end Links

section Runs

variable {w w' : World} {s t : IdempotencyArbitration.State Stored Rollback} {a : AttemptId}
  {x : Exchange} {answer : Answer} {e : Event}

/-- The answer maps a decision of the store about this attempt, or that there was none in time. -/
def Origin (s : IdempotencyArbitration.State Stored Rollback) (a : AttemptId) (answer : Answer) :
    Prop :=
  answer = mapAttempted (.error .unavailable) ∨
    ∃ d ∈ s.answers, d.attempt = a ∧ answer = mapAttempted d.outcome

theorem Origin.later (h : Origin s a answer) (hanswers : ∀ d ∈ s.answers, d ∈ t.answers) :
    Origin t a answer :=
  h.imp_right fun ⟨d, hd, hrest⟩ => ⟨d, hanswers d hd, hrest⟩

def Progress.settled : Progress → Bool
  | .sent _ | .done _ => true
  | _ => false

structure Told (s : IdempotencyArbitration.State Stored Rollback) (a : AttemptId)
    (progress : Progress) : Prop where
  mapped : ∀ answer, progress = .mapped answer → Origin s a answer
  sent : ∀ reply, progress = .sent reply → ∃ answer, Origin s a answer ∧ answer.reply = reply
  returned : ∀ reply, progress = .done (some reply) →
    (∃ answer, Origin s a answer ∧ reply = normalizeResponse answer.reply) ∨
      ∃ own, reply = normalizeResponse (.operation own none)

theorem Told.later {progress : Progress} (h : Told s a progress)
    (hanswers : ∀ d ∈ s.answers, d ∈ t.answers) : Told t a progress where
  mapped answer heq := (h.mapped answer heq).later hanswers
  sent reply heq := by
    obtain ⟨answer, horigin, hreply⟩ := h.sent reply heq
    exact ⟨answer, horigin.later hanswers, hreply⟩
  returned reply heq := by
    obtain ⟨answer, horigin, hreply⟩ | hown := h.returned reply heq
    · exact .inl ⟨answer, horigin.later hanswers, hreply⟩
    · exact .inr hown

structure Inv (w : World) : Prop where
  reachable : (IdempotencyArbitration.store Stored Rollback).Reachable w.store
  linked : Linked w.store w.view
  told : ∀ a x, w.exchanges a = some x → Told w.store a x.progress
  settled : ∀ a x, w.exchanges a = some x →
    (x.progress.settled = true ↔ a ∈ w.recorded.map Prod.fst)
  labels : ∀ p ∈ w.recorded, (w.exchanges p.1).isSome = true ∧
    (p.2 = .abandoned ∨ ∃ answer, Origin w.store p.1 answer ∧ answer.outcome = p.2)
  once : (w.recorded.map Prod.fst).Nodup

theorem view_set (w : World) (a : AttemptId) (x : Exchange) :
    (w.set a x).view = Function.update w.view a (some (x.request, x.worked)) := by
  funext b
  by_cases hb : b = a
  · subst hb
    simp [World.view, World.set]
  · simp [World.view, World.set, hb]

theorem view_same (hx : w.exchanges a = some x) :
    Function.update w.view a (some (x.request, x.worked)) = w.view := by
  have hview : w.view a = some (x.request, x.worked) := by simp [World.view, hx]
  rw [← hview, Function.update_eq_self]

theorem update_cases {f : AttemptId → Option Exchange} {b : AttemptId} {y : Exchange}
    (h : Function.update f a (some x) b = some y) : b = a ∧ y = x ∨ b ≠ a ∧ f b = some y := by
  by_cases hb : b = a
  · subst hb
    rw [Function.update_self] at h
    exact .inl ⟨rfl, (Option.some.inj h).symm⟩
  · rw [Function.update_of_ne hb] at h
    exact .inr ⟨hb, h⟩

theorem Inv.put {label : Option Label} {recorded : List (AttemptId × Label)} (h : Inv w)
    (hreachable : (IdempotencyArbitration.store Stored Rollback).Reachable t)
    (hlinked : Linked t (Function.update w.view a (some (x.request, x.worked))))
    (hanswers : ∀ d ∈ w.store.answers, d ∈ t.answers) (htold : Told t a x.progress)
    (hrecorded : recorded = w.recorded ++ label.toList.map fun l => (a, l))
    (hsettled : x.progress.settled = true ↔ a ∈ w.recorded.map Prod.fst ∨ label.isSome = true)
    (hlabel : ∀ l, label = some l → a ∉ w.recorded.map Prod.fst ∧
      (l = .abandoned ∨ ∃ answer, Origin t a answer ∧ answer.outcome = l)) :
    Inv ⟨w.now, t, Function.update w.exchanges a (some x), recorded⟩ where
  reachable := hreachable
  linked := (congrArg (Linked t) (view_set w a x)).mpr hlinked
  told b y hy := by
    obtain ⟨rfl, rfl⟩ | ⟨-, hold⟩ := update_cases hy
    · exact htold
    · exact (h.told b y hold).later hanswers
  settled b y hy := by
    subst hrecorded
    obtain ⟨rfl, rfl⟩ | ⟨hb, hold⟩ := update_cases hy
    · rw [hsettled]
      cases label <;> simp
    · rw [h.settled b y hold]
      cases label <;> simp [hb]
  labels p hp := by
    subst hrecorded
    have hknown : ∀ b, (w.exchanges b).isSome = true →
        (Function.update w.exchanges a (some x) b).isSome = true := by
      intro b hb
      by_cases hba : b = a
      · subst hba
        simp
      · rwa [Function.update_of_ne hba]
    obtain hp | hp := List.mem_append.mp hp
    · obtain ⟨hsome, hfrom⟩ := h.labels p hp
      refine ⟨hknown _ hsome, hfrom.imp_right ?_⟩
      rintro ⟨answer, horigin, houtcome⟩
      exact ⟨answer, horigin.later hanswers, houtcome⟩
    · obtain ⟨l, hl, rfl⟩ := List.mem_map.mp hp
      exact ⟨by simp, (hlabel l (Option.mem_toList.mp hl)).2⟩
  once := by
    subst hrecorded
    cases label with
    | none => simpa using h.once
    | some l =>
      have hnew := (hlabel l rfl).1
      simp only [Option.toList_some, List.map_cons, List.map_nil, List.map_append]
      refine List.nodup_append.mpr ⟨h.once, by simp, ?_⟩
      rintro b hb c hc rfl
      rw [List.mem_singleton.mp hc] at hb
      exact hnew hb

theorem Effect.kept (h : Effect s t) : ∀ d ∈ s.answers, d ∈ t.answers := by
  obtain ⟨more, hanswers, -⟩ := h.answers
  exact fun d hd => hanswers ▸ List.mem_append_left _ hd

theorem start_kept {request : IdempotencyArbitration.Request}
    (h : IdempotencyArbitration.step s (.start a request) = some t) :
    ∀ d ∈ s.answers, d ∈ t.answers := by
  simp only [IdempotencyArbitration.step, IdempotencyArbitration.start] at h
  split at h
  · cases h
    exact fun d hd => hd
  · cases h

theorem work_kept {value : Except Rollback (Record × Stored)}
    (h : IdempotencyArbitration.step s (.work a value) = some t) :
    ∀ d ∈ s.answers, d ∈ t.answers := by
  simp only [IdempotencyArbitration.step, IdempotencyArbitration.work] at h
  split at h
  · split at h
    · cases h
      exact fun d hd => hd
    · cases h
      exact fun d hd => List.mem_append_left _ hd
  · cases h

theorem Inv.turn {recorded : List (AttemptId × Label)} {progress : Progress} (h : Inv w)
    (label : Option Label) (hx : w.exchanges a = some x) (htold : Told w.store a progress)
    (hrecorded : recorded = w.recorded ++ label.toList.map fun l => (a, l))
    (hsettled : progress.settled = true ↔ x.progress.settled = true ∨ label.isSome = true)
    (hlabel : ∀ l, label = some l → x.progress.settled = false ∧
      (l = .abandoned ∨ ∃ answer, Origin w.store a answer ∧ answer.outcome = l)) :
    Inv ⟨w.now, w.store, Function.update w.exchanges a
      (some ⟨x.request, x.deadline, x.worked, progress⟩), recorded⟩ := by
  have hiff := h.settled a x hx
  refine h.put h.reachable ?_ (fun d hd => hd) htold hrecorded ?_ fun l hl => ?_
  · rw [view_same (x := x) hx]
    exact h.linked
  · rw [hsettled, hiff]
  · obtain ⟨hnot, hfrom⟩ := hlabel l hl
    refine ⟨fun hmem => ?_, hfrom⟩
    rw [hiff.mpr hmem] at hnot
    cases hnot

theorem open_inv {request : IdempotencyArbitration.Request} {deadline : Instant} (h : Inv w)
    (hstep : w.open a request deadline = some w') : Inv w' := by
  simp only [World.open] at hstep
  split at hstep
  · cases hstep
  · rename_i hnone
    have hview : w.view a = none := by simp [World.view, hnone]
    have hlinked := h.linked.enter request hview
    have hnew : a ∉ w.recorded.map Prod.fst := by
      intro hmem
      obtain ⟨p, hp, rfl⟩ := List.mem_map.mp hmem
      have hsome := (h.labels p hp).1
      rw [hnone] at hsome
      cases hsome
    have hrecorded : w.recorded =
        w.recorded ++ (none : Option Label).toList.map fun l => (a, l) := by simp
    split at hstep
    · cases hstep
      refine h.put h.reachable hlinked (fun d hd => hd) ⟨?_, ?_, ?_⟩ hrecorded ?_ (by simp)
      · rintro answer heq
        cases heq
        exact .inl rfl
      · rintro reply heq
        cases heq
      · rintro reply heq
        cases heq
      · simpa [Progress.settled] using hnew
    · obtain ⟨t, ht, rfl⟩ := Option.map_eq_some_iff.mp hstep
      have hreachable : (IdempotencyArbitration.store Stored Rollback).Reachable t :=
        h.reachable.tail (e := .start a request) ht
      refine h.put hreachable (hlinked.start (Function.update_self ..) ht)
        (start_kept ht) ⟨?_, ?_, ?_⟩ hrecorded ?_ (by simp)
      · rintro answer heq
        cases heq
      · rintro reply heq
        cases heq
      · rintro reply heq
        cases heq
      · simpa [Progress.settled] using hnew

theorem store_inv {event : IdempotencyArbitration.Event Stored Rollback} (h : Inv w)
    (hserver : ofServer event = true)
    (hstep : IdempotencyArbitration.step w.store event = some t) : Inv { w with store := t } := by
  have heffect := effect hserver hstep
  refine ⟨h.reachable.tail hstep, h.linked.server heffect,
    fun a x hx => (h.told a x hx).later heffect.kept, h.settled, fun p hp => ?_, h.once⟩
  obtain ⟨hsome, hfrom⟩ := h.labels p hp
  exact ⟨hsome, hfrom.imp_right fun ⟨answer, horigin, houtcome⟩ =>
    ⟨answer, horigin.later heffect.kept, houtcome⟩⟩

theorem work_inv {response : Response} (h : Inv w) (hstep : w.work a response = some w') :
    Inv w' := by
  simp only [World.work] at hstep
  split at hstep
  · rename_i request deadline worked hx
    obtain ⟨t, ht, rfl⟩ := Option.map_eq_some_iff.mp hstep
    have hview : w.view a = some (request, worked) := by simp [World.view, hx]
    have hinvariant := IdempotencyArbitration.reachable_invariant h.reachable
    have hopen := h.settled a _ hx
    have hreachable : (IdempotencyArbitration.store Stored Rollback).Reachable t :=
      h.reachable.tail (e := .work a _) ht
    have hrecorded : w.recorded =
        w.recorded ++ (none : Option Label).toList.map fun l => (a, l) := by simp
    refine h.put hreachable (h.linked.work hinvariant hview ht) (work_kept ht) ⟨?_, ?_, ?_⟩
      hrecorded ?_ (by simp)
    · rintro answer heq
      cases heq
    · rintro reply heq
      cases heq
    · rintro reply heq
      cases heq
    · simpa using hopen
  · cases hstep

theorem mapped_inv {answer : Answer} (h : Inv w) (hx : w.exchanges a = some x)
    (hattempting : x.progress = .attempting) (horigin : Origin w.store a answer) :
    Inv (w.set a ⟨x.request, x.deadline, x.worked, .mapped answer⟩) := by
  refine h.turn none hx ⟨?_, ?_, ?_⟩ (by simp) ?_ (by simp)
  · rintro _ heq
    cases heq
    exact horigin
  · rintro reply heq
    cases heq
  · rintro reply heq
    cases heq
  · rw [hattempting]
    simp [Progress.settled]

theorem send_inv (h : Inv w) (hstep : w.send a = some w') : Inv w' := by
  simp only [World.send] at hstep
  split at hstep
  · rename_i request deadline worked answer hx
    split at hstep
    · cases hstep
    · cases hstep
      have horigin := (h.told a _ hx).mapped answer rfl
      refine h.turn (some answer.outcome) hx ⟨?_, ?_, ?_⟩ rfl (by simp [Progress.settled]) ?_
      · rintro _ heq
        cases heq
      · rintro reply heq
        cases heq
        exact ⟨answer, horigin, rfl⟩
      · rintro reply heq
        cases heq
      · rintro l hl
        cases hl
        exact ⟨rfl, .inr ⟨answer, horigin, rfl⟩⟩
  · cases hstep

theorem handler_inv {own : Option Response} (h : Inv w) (hstep : w.handler a own = some w') :
    Inv w' := by
  simp only [World.handler] at hstep
  split at hstep
  · rename_i request deadline worked reply hx
    cases hstep
    obtain ⟨answer, horigin, hreply⟩ := (h.told a _ hx).sent reply rfl
    refine h.turn none hx ⟨?_, ?_, ?_⟩ (by simp) (by simp [Progress.settled])
      (by simp)
    · rintro _ heq
      cases heq
    · rintro _ heq
      cases heq
    · rintro _ heq
      cases heq
      cases own with
      | none => exact .inl ⟨answer, horigin, by rw [hreply]; rfl⟩
      | some response => exact .inr ⟨response, rfl⟩
  · cases hstep

theorem drop_inv (h : Inv w) (hstep : w.drop a = some w') : Inv w' := by
  have htold : Told w.store a (.done none) := by
    refine ⟨?_, ?_, ?_⟩
    · rintro _ heq
      cases heq
    · rintro _ heq
      cases heq
    · rintro _ heq
      cases heq
  simp only [World.drop] at hstep
  split at hstep
  · rename_i hx
    cases hstep
    exact h.turn (some .abandoned) hx htold rfl (by simp [Progress.settled])
      (by simp [Progress.settled])
  · rename_i hx
    cases hstep
    exact h.turn (some .abandoned) hx htold rfl (by simp [Progress.settled])
      (by simp [Progress.settled])
  · rename_i hx
    cases hstep
    exact h.turn none hx htold (by simp) (by simp [Progress.settled]) (by simp)
  · cases hstep

theorem step_inv (h : Inv w) (hstep : exchanges.step w e = some w') : Inv w' := by
  simp only [exchanges, step] at hstep
  cases e with
  | advance now =>
    simp only at hstep
    split at hstep <;> cases hstep
    exact ⟨h.reachable, h.linked, h.told, h.settled, h.labels, h.once⟩
  | «open» => exact open_inv h hstep
  | store event =>
    simp only at hstep
    split at hstep
    · obtain ⟨t, ht, rfl⟩ := Option.map_eq_some_iff.mp hstep
      exact store_inv h ‹_› ht
    · cases hstep
  | work => exact work_inv h hstep
  | decided k =>
    simp only [World.decided] at hstep
    split at hstep
    · cases hstep
    · rename_i answer hk
      split at hstep <;> cases hstep
      exact mapped_inv h ‹_› rfl (.inr ⟨answer, List.mem_of_getElem? hk, rfl, rfl⟩)
  | expire a =>
    simp only [World.expire] at hstep
    split at hstep
    · split at hstep <;> cases hstep
      exact mapped_inv h ‹_› rfl (.inl rfl)
    · cases hstep
  | send => exact send_inv h hstep
  | handler => exact handler_inv h hstep
  | drop => exact drop_inv h hstep

theorem initial_inv : Inv initial where
  reachable := System.reachable_initial
  linked := by constructor <;> simp [initial, IdempotencyArbitration.initial]
  told a x hx := by cases hx
  settled a x hx := by cases hx
  labels := by simp [initial]
  once := by simp [initial]

theorem reachable_inv (h : exchanges.Reachable w) : Inv w :=
  h.induction (P := Inv) initial_inv fun _ _ _ _ hw hstep => step_inv hw hstep

def Reply.status : Reply → StatusCode
  | .operation response _ => response.status
  | .problem p => p.code.status

def Agree (r r' : Response) : Prop :=
  r.status = r'.status ∧ bodyBytes r.body = bodyBytes r'.body ∧
    ∀ name ∈ replayable, r.headers.getAll name = r'.headers.getAll name

theorem Agree.common {r r' work : Response} (h : Agree r work) (h' : Agree r' work) : Agree r r' :=
  ⟨h.1.trans h'.1.symm, h.2.1.trans h'.2.1.symm, fun name hname =>
    (h.2.2 name hname).trans (h'.2.2 name hname).symm⟩

theorem problem_fails (problem : Problem) : problem.code.status.isSuccess = false := by
  cases problem.code <;> rfl

theorem mapped_problem_fails {problem : Problem} :
    (normalizeResponse (.problem problem)).status.isSuccess = false := problem_fails problem

/-- A success that does not come from the seam never leaves the route. -/
theorem own_fails (own : Response) :
    (normalizeResponse (.operation own none)).status.isSuccess = false := by
  simp only [normalizeResponse]
  split
  · rename_i hfailed
    simpa [Reply.status] using hfailed
  · exact problem_fails _

theorem marker_removed (headers : HeaderMap) :
    (headers.remove replayedHeader).getAll markerName = [] := by
  have hmarker : HeaderName.fromStr replayedHeader = some markerName := by decide
  simp [HeaderMap.remove, hmarker, HeaderMap.getAll, List.filter_filter]

/-- What the boundary seals is the work's response, and the marker says where it came from. -/
theorem sealed_response {work : Response} {stored : Stored} (h : Captured work stored)
    (provenance : Provenance) : ∃ response,
      normalizeResponse (.operation stored.intoResponse (some provenance)) =
        .operation response none ∧ Agree response work ∧
      response.headers.getAll markerName =
        match provenance with
        | .executed => []
        | .replayed => [markerValue] := by
  have hsuccess : stored.intoResponse.status.isSuccess = true :=
    (congrArg StatusCode.isSuccess h.status).trans h.success
  have hbody : bodyBytes stored.intoResponse.body = bodyBytes work.body := by
    rw [← collect_bytes h.body, ← collect_bytes h.replay.body]
  have hheaders : ∀ name ∈ replayable,
      HeaderMap.getAll (stored.intoResponse.headers.remove replayedHeader) name =
        work.headers.getAll name := by
    intro name hname
    rw [get_all_remove (marker_not_replayable hname), into_response_headers, h.get_all,
      if_pos hname]
  cases provenance with
  | executed =>
    refine ⟨{ stored.intoResponse with
      headers := stored.intoResponse.headers.remove replayedHeader }, ?_, ⟨h.status, hbody, hheaders⟩,
      marker_removed _⟩
    simp [normalizeResponse, hsuccess]
  | replayed =>
    refine ⟨{ stored.intoResponse with
      headers := (stored.intoResponse.headers.remove replayedHeader).append markerName markerValue },
      ?_, ⟨h.status, hbody, fun name hname => ?_⟩, ?_⟩
    · simp [normalizeResponse, hsuccess]
    · have hne : markerName ≠ name := fun heq => marker_not_replayable hname (heq ▸ by decide)
      rw [HeaderMap.append, get_all_append, hheaders name hname]
      simp [HeaderMap.getAll, hne]
    · rw [HeaderMap.append, get_all_append, marker_removed]
      simp [HeaderMap.getAll]

/-- The response is that of the work one attempt has committed for this scope and request. -/
structure Vouched (w : World) (x : Exchange) (response : Response) (c : Commit) : Prop where
  committed : c ∈ w.store.commits
  scope : c.request.scope = x.request.scope
  fingerprint : c.request.fingerprint = x.request.fingerprint
  work : ∃ y work, w.exchanges c.attempt = some y ∧ y.worked = some work ∧ Agree response work

theorem Stores.captured {worked : Option Response} {fingerprint : Digest} {record : Record}
    {stored : Stored} (h : Stores worked fingerprint record stored) :
    ∃ work, worked = some work ∧ Captured work stored ∧ decode record = .ok stored ∧
      record.fingerprint = fingerprint := by
  obtain ⟨work, hworked, hcapture, hrecord⟩ := h
  have hcaptured := capture_ok_iff.mp hcapture
  refine ⟨work, hworked, hcaptured, hcaptured.decode_record hrecord, ?_⟩
  rw [hcaptured.record_eq fingerprint] at hrecord
  rw [← Except.ok.inj hrecord]

theorem Backed.captured {c : Commit} {stored : Stored} (h : Backed w.view c stored) :
    ∃ y work, w.exchanges c.attempt = some y ∧ y.worked = some work ∧ Captured work stored ∧
      decode c.row.record = .ok stored ∧ c.row.record.fingerprint = c.request.fingerprint := by
  obtain ⟨worked, hview, hstores⟩ := h
  obtain ⟨y, hy, heq⟩ := Option.map_eq_some_iff.mp hview
  obtain ⟨work, hworked, hrest⟩ := hstores.captured
  exact ⟨y, work, hy, (congrArg Prod.snd heq).trans hworked, hrest⟩

theorem Inv.asked {d : IdempotencyArbitration.Answer Stored Rollback} (h : Inv w)
    (hd : d ∈ w.store.answers) (hx : w.exchanges d.attempt = some x) : x.request = d.request := by
  obtain ⟨worked, hview⟩ := h.linked.answers d hd
  obtain ⟨y, hy, heq⟩ := Option.map_eq_some_iff.mp hview
  rw [hx] at hy
  cases hy
  exact congrArg Prod.fst heq

theorem Inv.replayed {d : IdempotencyArbitration.Answer Stored Rollback} {record : Record}
    (h : Inv w) (hd : d ∈ w.store.answers) (houtcome : d.outcome = .ok (.replay record)) :
    ∃ c ∈ w.store.commits, c.attempt ≠ d.attempt ∧ c.request.scope = d.request.scope ∧
      c.request.fingerprint = d.request.fingerprint ∧ ∃ y work stored,
        w.exchanges c.attempt = some y ∧ y.worked = some work ∧ Captured work stored ∧
          decode record = .ok stored := by
  have hinvariant := IdempotencyArbitration.reachable_invariant h.reachable
  have hsound := hinvariant.answered d hd
  obtain ⟨c, ⟨hc, hscope, -⟩, hrecord, hfingerprint⟩ := hsound.replay record houtcome
  have hother := (hsound.final (by simp [houtcome]) (by simp [houtcome])).2 c hc
  obtain ⟨stored, hbacked⟩ := h.linked.commits c hc
  obtain ⟨y, work, hy, hwork, hcaptured, hdecode, hown⟩ := hbacked.captured
  rw [hrecord] at hdecode hown
  exact ⟨c, hc, hother, hscope, hown.symm.trans hfingerprint, y, work, stored, hy, hwork, hcaptured,
    hdecode⟩

theorem Inv.executed {d : IdempotencyArbitration.Answer Stored Rollback} {stored : Stored}
    (h : Inv w) (hd : d ∈ w.store.answers) (houtcome : d.outcome = .ok (.committed stored)) :
    ∃ c ∈ w.store.commits, c.attempt = d.attempt ∧ c.request = d.request ∧ ∃ y work,
      w.exchanges c.attempt = some y ∧ y.worked = some work ∧ Captured work stored := by
  obtain ⟨c, hc, hattempt, hrequest, hbacked⟩ := h.linked.executed d hd stored houtcome
  obtain ⟨y, work, hy, hwork, hcaptured, -⟩ := hbacked.captured
  exact ⟨c, hc, hattempt, hrequest, y, work, hy, hwork, hcaptured⟩

theorem Inv.success {reply : Reply} (h : Inv w) (hx : w.exchanges a = some x)
    (hdone : x.progress = .done (some reply)) (hsuccess : reply.status.isSuccess = true) :
    ∃ response c, reply = .operation response none ∧ Vouched w x response c ∧
      response.headers.getAll markerName = if c.attempt = a then [] else [markerValue] := by
  have hcontra : ∀ {problem : Problem}, reply ≠ normalizeResponse (.problem problem) := by
    rintro problem rfl
    rw [mapped_problem_fails] at hsuccess
    cases hsuccess
  obtain ⟨answer, horigin, hreply⟩ | ⟨own, rfl⟩ := (h.told a x hx).returned reply hdone
  · obtain rfl | ⟨d, hd, rfl, rfl⟩ := horigin
    · exact absurd hreply hcontra
    · have hrequest := h.asked hd hx
      cases houtcome : d.outcome with
      | error error =>
        rw [houtcome] at hreply
        cases error <;> exact absurd hreply hcontra
      | ok decision =>
        rw [houtcome] at hreply
        cases decision with
        | mismatch | inProgress => exact absurd hreply hcontra
        | rolledBack value =>
          cases value with
          | unstorable => exact absurd hreply hcontra
          | response given =>
            have hfailed := h.linked.rejected d hd given houtcome
            rw [hreply] at hsuccess
            simp [mapAttempted, operationResponse, normalizeResponse, Reply.status, hfailed]
              at hsuccess
        | committed stored =>
          obtain ⟨c, hc, hattempt, hasked, y, work, hy, hwork, hcaptured⟩ := h.executed hd houtcome
          obtain ⟨response, hsealed, hagree, hmarker⟩ := sealed_response hcaptured .executed
          refine ⟨response, c, hreply.trans hsealed, ⟨hc, ?_, ?_, y, work, hy, hwork, hagree⟩, ?_⟩
          · rw [hasked, hrequest]
          · rw [hasked, hrequest]
          · rw [if_pos hattempt, hmarker]
        | replay record =>
          obtain ⟨c, hc, hother, hscope, hfingerprint, y, work, stored, hy, hwork, hcaptured,
            hdecode⟩ := h.replayed hd houtcome
          obtain ⟨response, hsealed, hagree, hmarker⟩ := sealed_response hcaptured .replayed
          refine ⟨response, c, ?_, ⟨hc, ?_, ?_, y, work, hy, hwork, hagree⟩, ?_⟩
          · rw [hreply, ← hsealed]
            simp [mapAttempted, hdecode, operationResponse]
          · rw [hscope, hrequest]
          · rw [hfingerprint, hrequest]
          · rw [if_neg hother, hmarker]
  · rw [own_fails] at hsuccess
    cases hsuccess

/-- Successes for one scope agree unless the record behind one of them had expired before the other's
work. -/
theorem Inv.agree {b : AttemptId} {y : Exchange} {r q : Reply} (h : Inv w)
    (hx : w.exchanges a = some x) (hy : w.exchanges b = some y) (hr : x.progress = .done (some r))
    (hq : y.progress = .done (some q)) (hrs : r.status.isSuccess = true)
    (hqs : q.status.isSuccess = true) (hscope : x.request.scope = y.request.scope) :
    ∃ response response', r = .operation response none ∧ q = .operation response' none ∧
      (∃ c, Vouched w x response c) ∧ (∃ d, Vouched w y response' d) ∧
      ∀ c d, Vouched w x response c → Vouched w y response' d →
        Agree response response' ∨ c.row.expiresAt ≤ d.readAt ∨ d.row.expiresAt ≤ c.readAt := by
  obtain ⟨response, c, hreply, hc, -⟩ := h.success hx hr hrs
  obtain ⟨response', d, hreply', hd, -⟩ := h.success hy hq hqs
  refine ⟨response, response', hreply, hreply', ⟨c, hc⟩, ⟨d, hd⟩, ?_⟩
  clear hc hd c d
  intro c d hc hd
  by_cases hcd : c = d
  · subst hcd
    obtain ⟨z, work, hz, hwork, hagree⟩ := hc.work
    obtain ⟨z', work', hz', hwork', hagree'⟩ := hd.work
    obtain rfl := Option.some.inj (hz.symm.trans hz')
    obtain rfl := Option.some.inj (hwork.symm.trans hwork')
    exact .inl (hagree.common hagree')
  · -- Two commits of one scope: the store made the later one after the earlier record had expired.
    have honce := (IdempotencyArbitration.reachable_invariant h.reachable).once
    have hds : d.request.scope = x.request.scope := hd.scope.trans hscope.symm
    obtain ⟨i, hi, rfl⟩ := List.getElem_of_mem hc.committed
    obtain ⟨j, hj, rfl⟩ := List.getElem_of_mem hd.committed
    have hsame := hc.scope.trans hds.symm
    obtain hlt | heq | hlt := Nat.lt_trichotomy i j
    · exact .inr (.inl ((List.pairwise_iff_getElem.mp honce i j hi hj hlt).2 hsame))
    · subst heq
      exact absurd rfl hcd
    · exact .inr (.inr ((List.pairwise_iff_getElem.mp honce j i hj hi hlt).2 hsame.symm))

/-- What the recorded label says about the attempt's own work. -/
theorem Inv.label {label : Label} (h : Inv w) (hl : (a, label) ∈ w.recorded) :
    (label = .executed → ∃ c ∈ w.store.commits, c.attempt = a) ∧
    (label ≠ .executed → label ≠ .unavailable → label ≠ .abandoned →
      ∀ c ∈ w.store.commits, c.attempt ≠ a) ∧
    (label = .integrity →
      ∃ d ∈ w.store.answers, d.attempt = a ∧ d.outcome = .error .integrity) := by
  obtain ⟨-, rfl | ⟨answer, rfl | ⟨d, hd, rfl, rfl⟩, rfl⟩⟩ := h.labels _ hl
  · simp
  · simp [mapAttempted, boundaryProblem]
  · have hsound := (IdempotencyArbitration.reachable_invariant h.reachable).answered d hd
    cases houtcome : d.outcome with
    | error error =>
      have hnone := fun hne => (hsound.final hne (by simp [houtcome])).2
      rw [houtcome] at hnone
      cases error with
      | unavailable => simp [mapAttempted, boundaryProblem]
      | internal =>
        have hfree := hnone (by simp)
        simpa [mapAttempted, boundaryProblem] using hfree
      | integrity =>
        have hfree := hnone (by simp)
        refine ⟨by simp [mapAttempted, integrityFailure, boundaryProblem], fun _ _ _ => hfree,
          fun _ => ⟨d, hd, rfl, houtcome⟩⟩
    | ok decision =>
      cases decision with
      | committed stored =>
        obtain ⟨c, hc, hattempt, -⟩ := h.executed hd houtcome
        exact ⟨fun _ => ⟨c, hc, hattempt⟩, fun hne => absurd rfl hne, by
          simp [mapAttempted, operationResponse]⟩
      | mismatch | inProgress =>
        have hfree := (hsound.final (by simp [houtcome]) (by simp [houtcome])).2
        simpa [mapAttempted, boundaryProblem] using hfree
      | rolledBack value =>
        have hfree := (hsound.final (by simp [houtcome]) (by simp [houtcome])).2
        cases value <;> simpa [mapAttempted, boundaryProblem, operationResponse] using hfree
      | replay record =>
        have hfree := (hsound.final (by simp [houtcome]) (by simp [houtcome])).2
        obtain ⟨c, hc, -, -, -, y, work, stored, -, -, -, hdecode⟩ := h.replayed hd houtcome
        simpa [mapAttempted, hdecode, operationResponse] using hfree

end Runs

end IdempotencyExchange
