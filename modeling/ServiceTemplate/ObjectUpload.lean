import ServiceTemplate.ExactLength
import ServiceTemplate.ExceptChain
import ServiceTemplate.JsonText
import ServiceTemplate.ObjectDownload

/-! A put: what it reports for what the storage client made of the request. The client is free to
poll the body as often as it likes and to answer as it likes. -/
namespace ObjectUpload

open ByteFraming
open OperationStop
open ObjectDownload (ObjectStorageError stopType)
open ExactLength
open ExceptChain

variable {τ ε : Type*}

inductive Call where
  | read
  | mutation
  | createOnly
  deriving DecidableEq

inductive Reply where
  | notSent
  | noCredentials
  | lost
  | status (status : ℕ) (code : Option String)
  deriving DecidableEq

/-- `SdkError`: a dispatch failure says whether a failed credential load caused it, and whether it
was a timeout. -/
inductive SdkError where
  | construction
  | service (status : ℕ) (code : Option String)
  | dispatch (credentials timeout : Bool)
  | timeout
  | response
  deriving DecidableEq

abbrev Failure := ObjectStorageError × String

def classify (call : Call) : Reply → ObjectStorageError
  | .notSent => .rejected
  | .noCredentials => .unavailable
  | .lost => if call = .read then .unavailable else .outcomeUnknown
  | .status status code =>
    if code = some "NoSuchBucket" then .rejected
    else if status = 404 ∧ call = .read then .notFound
    else if status = 412 ∧ call = .createOnly then .alreadyExists
    else if status = 409 ∨ status = 429 ∨ status = 503 ∨ code = some "RequestTimeout" then
      .unavailable
    else if status = 501 then .rejected
    else if 500 ≤ status ∧ status ≤ 599 then
      if call = .read then .unavailable else .outcomeUnknown
    else .rejected

def isIdentifier (code : String) : Bool :=
  code.toList ≠ [] && code.utf8ByteSize ≤ 64 && code.toList.all Char.isAlphanum

def replyOf : SdkError → Reply × String
  | .construction => (.notSent, "construction")
  | .service status code =>
    (.status status code,
      match code with
      | some code => if isIdentifier code then code else toString status
      | none => toString status)
  | .dispatch true _ => (.noCredentials, "credentials")
  | .timeout => (.lost, "timeout")
  | .dispatch false true => (.lost, "timeout")
  | .dispatch false false => (.lost, "dispatch")
  | .response => (.lost, "response")

def fromSdk (call : Call) (error : SdkError) : Failure :=
  (classify call (replyOf error).1, (replyOf error).2)

/-- The flag of a streamed body, by how often the body has been polled. -/
inductive UploadSource where
  | inMemory
  | streamed (mismatch : ℕ → Bool)

structure PutBody where
  len : ℕ
  source : UploadSource

def PutBody.stream (inner : ℕ → Polled τ ε) (len : ℕ) : PutBody :=
  ⟨len, .streamed fun k => (polls inner len k).body.mismatch⟩

def PutBody.ofBytes (bytes : Bytes) : PutBody := ⟨bytes.length, .inMemory⟩

/-- What the first item of the stream turned out to be before the deadline. -/
inductive First where
  | elapsed
  | item
  | ended
  deriving DecidableEq

def PutBody.prepareEmptyStream (body : PutBody) (first : First) (polled : ℕ) :
    Except Failure PutBody :=
  match body.source with
  | .inMemory => .ok body
  | .streamed mismatch =>
    if body.len ≠ 0 then .ok body
    else
      match first with
      | .elapsed => .error (.unavailable, "timeout")
      | .item =>
        if mismatch polled then .error (.rejected, "body_length") else .error (.rejected, "body")
      | .ended => .ok (.ofBytes [])

/-- `within`: a future that ran under a context, with whether it was polled at all. -/
inductive Within (α : Type*) where
  | done (value : α)
  | stopped (stopped : Stopped) (polled : Bool)
  deriving DecidableEq

/-- What a put meets. The counts say how often the body had been polled when the flag was read. -/
structure Surroundings where
  maxObjectBytes : ℕ
  createOnly : Bool
  begun : Option Stopped
  admitted : Bool
  prepared : Within First
  preparedPolls : ℕ
  checked : Option Stopped
  sent : Within (Except SdkError Unit)
  sentPolls : ℕ

def check : Option Stopped → Except Failure Unit
  | some stopped => .error (.unavailable, stopType stopped)
  | none => .ok ()

def PutBody.mismatch (body : PutBody) (polled : ℕ) : Bool :=
  match body.source with
  | .inMemory => false
  | .streamed mismatch => mismatch polled

def report (call : Call) (mismatch : Bool) : Within (Except SdkError Unit) → Except Failure Unit
  | .done (.ok ()) => .ok ()
  | .done (.error failure) =>
    if mismatch then .error (.rejected, "body_length") else .error (fromSdk call failure)
  | .stopped stopped polled =>
    if mismatch then .error (.rejected, "body_length")
    else .error (if polled then .outcomeUnknown else .unavailable, stopType stopped)

def prepare (body : PutBody) (s : Surroundings) : Except Failure PutBody :=
  match s.prepared with
  | .stopped stopped _ => .error (.unavailable, stopType stopped)
  | .done first => body.prepareEmptyStream first s.preparedPolls

def put (body : PutBody) (s : Surroundings) : Except Failure Unit := do
  check s.begun
  if s.maxObjectBytes < body.len then .error (.tooLarge, "too_large")
  else if s.admitted = false then .error (.busy, "busy")
  else do
    let body ← prepare body s
    check s.checked
    report (if s.createOnly then .createOnly else .mutation) (body.mismatch s.sentPolls) s.sent

theorem stop_type_ne (stopped : Stopped) : stopType stopped ≠ "body_length" := by
  cases stopped <;> decide

/-- Neither an identifier nor a number has an underscore. -/
theorem reply_type_ne (error : SdkError) : (replyOf error).2 ≠ "body_length" := by
  have hnumber : ∀ status : ℕ, toString status ≠ "body_length" := by
    intro status h
    have hlist : (toString status).toList = Nat.toDigits 10 status := String.toList_ofList
    have hdigits := JsonText.to_digits_all status
    rw [← hlist, h] at hdigits
    revert hdigits
    decide
  cases error with
  | construction => decide
  | service status code =>
    cases code with
    | none => exact hnumber status
    | some code =>
      rw [replyOf]
      split
      · rename_i hcode
        intro h
        change code = "body_length" at h
        subst h
        revert hcode
        decide
      · exact hnumber status
  | dispatch credentials timeout =>
    cases credentials <;> cases timeout <;> decide
  | timeout => decide
  | response => decide

theorem check_ne {stopped : Option Stopped} (error : ObjectStorageError) :
    check stopped ≠ .error (error, "body_length") := by
  cases stopped with
  | none => simp [check]
  | some stopped => simp [check, stop_type_ne]

theorem prepare_body_length {body : PutBody} {s : Surroundings}
    (h : prepare body s = .error (.rejected, "body_length")) :
    body.mismatch s.preparedPolls = true := by
  rcases body with ⟨len, source⟩
  cases hprepared : s.prepared with
  | stopped stopped polled => simp [prepare, hprepared] at h
  | done first =>
    simp only [prepare, hprepared, PutBody.prepareEmptyStream] at h
    cases source with
    | inMemory => cases h
    | streamed mismatch =>
      by_cases hlen : len = 0
      · cases first with
        | elapsed => simp [hlen] at h
        | ended => simp [hlen] at h
        | item =>
          by_cases hflag : mismatch s.preparedPolls = true
          · exact hflag
          · simp [hlen, hflag] at h
      · simp [hlen] at h

/-- Preparing leaves the flag as it is, or replaces the body by one without a flag. -/
theorem prepare_mismatch {body body' : PutBody} {s : Surroundings} (h : prepare body s = .ok body')
    {polled : ℕ} (hflag : body'.mismatch polled = true) : body.mismatch polled = true := by
  rcases body with ⟨len, source⟩
  cases hprepared : s.prepared with
  | stopped stopped polled => simp [prepare, hprepared] at h
  | done first =>
    simp only [prepare, hprepared, PutBody.prepareEmptyStream] at h
    cases source with
    | inMemory =>
      cases h
      exact hflag
    | streamed mismatch =>
      by_cases hlen : len = 0
      · cases first with
        | elapsed => simp [hlen] at h
        | item =>
          simp only [hlen, ne_eq, not_true_eq_false, if_false] at h
          split at h <;> cases h
        | ended =>
          simp only [hlen, ne_eq, not_true_eq_false, if_false, Except.ok.injEq] at h
          subst h
          cases hflag
      · simp only [hlen, ne_eq, not_false_eq_true, if_true, Except.ok.injEq] at h
        exact h ▸ hflag

theorem report_body_length {call : Call} {mismatch : Bool} {sent : Within (Except SdkError Unit)}
    {error : ObjectStorageError} (h : report call mismatch sent = .error (error, "body_length")) :
    mismatch = true := by
  by_contra hflag
  rw [Bool.not_eq_true] at hflag
  subst hflag
  cases sent with
  | done result =>
    cases result with
    | ok => cases h
    | error failure =>
      simp only [report, Bool.false_eq_true, if_false, Except.error.injEq, fromSdk,
        Prod.mk.injEq] at h
      exact reply_type_ne failure h.2
  | stopped stopped polled =>
    simp only [report, Bool.false_eq_true, if_false, Except.error.injEq, Prod.mk.injEq] at h
    exact stop_type_ne stopped h.2

/-- A put reports a wrong length only where the body's flag was read as set. -/
theorem put_body_length {body : PutBody} {s : Surroundings}
    (h : put body s = .error (.rejected, "body_length")) :
    ∃ polled, body.mismatch polled = true := by
  rw [put, bind_error] at h
  rcases h with h | ⟨_, _, h⟩
  · exact absurd h (check_ne _)
  · split at h
    · cases h
    · split at h
      · cases h
      · rw [bind_error] at h
        rcases h with h | ⟨prepared, hprepared, h⟩
        · exact ⟨_, prepare_body_length h⟩
        · rw [bind_error] at h
          rcases h with h | ⟨_, _, h⟩
          · exact absurd h (check_ne _)
          · exact ⟨_, prepare_mismatch hprepared (report_body_length h)⟩

theorem stream_body_length {inner : ℕ → Polled τ ε} {len : ℕ} {s : Surroundings}
    (h : put (.stream inner len) s = .error (.rejected, "body_length")) :
    ∃ q, FaultAt inner len q ∧ ∀ p, ¬ WholeAt inner len p := by
  obtain ⟨polled, hflag⟩ := put_body_length h
  obtain ⟨q, _, hfault⟩ := (mismatch_iff inner len polled).mp hflag
  exact ⟨q, hfault, fun p hwhole => hwhole.faultless hfault⟩

/-- What a declared length guarantees, for every inner body and however often it is polled. -/
theorem put_never_truncates (inner : ℕ → Polled τ ε) (len k : ℕ) (s : Surroundings) :
    let run := polls inner len k
    let step := run.body.pollFrame inner
    run.yielded <+: data inner run.body.inner ∧
    (0 < len → len ≤ run.yielded.length →
      ∃ q < run.body.inner, WholeAt inner len q ∧ run.yielded = data inner q) ∧
    (∀ q < k, FaultAt inner len q →
      run.body.mismatch = true ∧ .error .lengthMismatch ∈ run.answers) ∧
    (∀ q, FaultAt inner len q → run.yielded.length < len ∨ run.yielded = []) ∧
    (run.body.mismatch = true ↔ ∃ q < run.body.inner, FaultAt inner len q) ∧
    (run.body.mismatch = true →
      (∃ q < run.body.inner, FaultAt inner len q ∧ ErrorFree inner q) ∨
        ∃ error, .error (.inner error) ∈ run.answers) ∧
    run.answers.Pairwise (fun a b => a.isTrailers = true → b.isData = false) ∧
    ((∃ answer ∈ run.answers, answer.isTrailers = true) →
      run.yielded = data inner run.body.inner ∧ run.yielded.length = len) ∧
    (run.body.mismatch = false → run.body.sizeHint + run.yielded.length = len) ∧
    step.body.inner ≤ run.body.inner + 64 ∧
    (step.answer = .pending →
      step.woken = true ∧ step.body.inner = run.body.inner + 64 ∨
        step.woken = false ∧ ∃ p, step.body.inner = p + 1 ∧ inner p = .pending) ∧
    (put (.stream inner len) s = .error (.rejected, "body_length") →
      ∃ q, FaultAt inner len q ∧ ∀ p, ¬ WholeAt inner len p) ∧
    ∀ bytes, put (.ofBytes bytes) s ≠ .error (.rejected, "body_length") := by
  have h := polls_inv inner len k
  have hanswered := h.sound.answer 64
  refine ⟨h.sound.sent, h.sound.complete, ?_, fun q hfault => never_completed hfault k,
    mismatch_iff inner len k, h.flag_origin, h.order, h.all_data, ?_, hanswered.upper,
    hanswered.pending, stream_body_length, ?_⟩
  · intro q hq hfault
    have hrefused := polls_refused hfault (.inr hq)
    exact ⟨hrefused.flagged, h.flagged hrefused.flagged⟩
  · intro hcalm
    exact (h.sound.flowing hcalm).size_hint
  · intro bytes hput
    obtain ⟨_, hflag⟩ := put_body_length hput
    cases hflag

end ObjectUpload
