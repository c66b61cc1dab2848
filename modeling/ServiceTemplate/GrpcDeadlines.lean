import ServiceTemplate.GrpcTimeout
import ServiceTemplate.OperationContexts

/-! One gRPC hop: the cutoffs fixed when a call is prepared, the wait for the channel under them,
and the header that carries what is left to the next server. -/
namespace GrpcDeadlines

open ByteFraming (Bytes)
open Deadlines
open GrpcTimeout
open OperationContexts
open OperationStop (Stopped)

inductive ClientTimeout where
  | fullRpc (budget : ℕ)
  | openingOnly (budget : ℕ)
  deriving DecidableEq, Repr

def ClientTimeout.budget : ClientTimeout → ℕ
  | .fullRpc budget => budget
  | .openingOnly budget => budget

def ClientTimeout.deadlines (policy : ClientTimeout) (origin : ℕ) (caller : Option ℕ) :
    Deadline × Option Deadline :=
  let opening : Deadline := ⟨origin, match caller with
    | none => policy.budget
    | some caller => min caller policy.budget⟩
  (opening, match policy with
    | .fullRpc _ => some opening
    | .openingOnly _ => caller.map fun budget => ⟨origin, budget⟩)

/-- The values under `grpc-timeout`, of which the first counts. -/
def grpcTimeout (headers : List Bytes) : Option ℕ := headers.head?.bind parseGrpcTimeout

def earliest (left right : Option Deadline) (now : ℕ) : Option Deadline :=
  match left, right with
  | some left, some right => some (left.earlier right now)
  | some left, none => some left
  | none, right => right

/-- The first reading of the clock in `prepare_call`, and how long after the one before it each
comparison of two deadlines reads it again. -/
structure Readings where
  origin : ℕ
  untilOpening : ℕ
  untilLifetime : ℕ
  untilForwarded : ℕ

def Readings.opening (readings : Readings) : ℕ := readings.origin + readings.untilOpening

def Readings.lifetime (readings : Readings) : ℕ := readings.opening + readings.untilLifetime

def Readings.forwarded (readings : Readings) : ℕ := readings.lifetime + readings.untilForwarded

/-- `headers` are the values of `grpc-timeout` alone. -/
structure PreparedCall where
  headers : List Bytes
  opening : OperationContext
  lifetime : OperationContext
  forwarded : Option Deadline

/-- `token` is the child of the parent's, or a new one. -/
def prepareCall (policy : ClientTimeout) (headers : List Bytes) (parent : Option OperationContext)
    (token : ℕ) (readings : Readings) : PreparedCall :=
  let caller := grpcTimeout headers
  let deadlines := policy.deadlines readings.origin caller
  let parentDeadline := parent.bind OperationContext.deadline
  { headers
    opening := ⟨some (match parentDeadline with
      | none => deadlines.1
      | some parent => parent.earlier deadlines.1 readings.opening), token⟩
    lifetime := ⟨earliest deadlines.2 parentDeadline readings.lifetime, token⟩
    forwarded := earliest (caller.map fun budget => ⟨readings.origin, budget⟩) parentDeadline
      readings.forwarded }

inductive Status where
  | deadlineExceeded
  | cancelled
  | unavailable
  deriving DecidableEq, Repr

def stoppedStatus : Stopped → Status
  | .deadline => .deadlineExceeded
  | .cancelled => .cancelled

def stoppedAt (context : OperationContext) (now : ℕ) (cancelled : Bool) : Option Stopped :=
  if context.expiredAt now then some .deadline
  else if cancelled then some .cancelled
  else none

inductive Cause where
  | timeoutExpired
  | other
  deriving DecidableEq, Repr

def transportStatus (error : List Cause) : Status :=
  if .timeoutExpired ∈ error then .deadlineExceeded else .unavailable

inductive Channel where
  | pending
  | failed (error : List Cause)
  | ready
  deriving DecidableEq, Repr

inductive Reply where
  | pending
  | failed (error : List Cause)
  | answered
  deriving DecidableEq, Repr

/-- One poll of the `select!`: how long passes before each reading of the clock, and what the
timer, the token, the channel and the reply show. -/
structure Turn where
  untilPoll : ℕ
  fired : Bool
  cancelled : Bool
  channel : Channel
  untilCheck : ℕ
  cancelledAtCheck : Bool
  untilForward : ℕ
  reply : Reply
  untilEnd : ℕ
  cancelledAtEnd : Bool
  deriving DecidableEq, Repr

inductive Outcome where
  | pending
  | status (status : Status)
  | answered
  | panicked
  deriving DecidableEq, Repr

/-- When the header was measured and the values that left with the request. -/
structure Sent where
  dispatched : Option (ℕ × List Bytes)
  outcome : Outcome
  deriving DecidableEq, Repr

section

variable (setTimeout : ℕ → Option Bytes)

/-- `none` where `set_timeout` panics. -/
def forwardTimeout (caller : Deadline) (now : ℕ) : Option (Except Status (List Bytes)) :=
  if caller.remainingAt now = 0 then some (.error .deadlineExceeded)
  else (setTimeout (caller.remainingAt now)).map fun value => .ok [value]

def PreparedCall.forward (prepared : PreparedCall) (now : ℕ) :
    Option (Except Status (List Bytes)) :=
  match prepared.forwarded with
  | none => some (.ok prepared.headers)
  | some caller => forwardTimeout setTimeout caller now

/-- One poll of `opening.wait_stopped()`, and the sleep it leaves. -/
def PreparedCall.pollStopped (prepared : PreparedCall) (turn : Turn) (now : ℕ)
    (sleep : Option ℕ) : Option Stopped × Option ℕ :=
  let deadline := match prepared.opening.deadline with
    | none => (false, sleep)
    | some deadline => pollDeadline deadline now turn.fired sleep
  (if deadline.1 then some .deadline else if turn.cancelled then some .cancelled else none,
    deadline.2)

/-- The `select!` is over; the last check may overrule its result. -/
def PreparedCall.conclude (prepared : PreparedCall) (turn : Turn) (now : ℕ)
    (dispatched : Option (ℕ × List Bytes)) (result : Outcome) : Sent :=
  ⟨dispatched, match stoppedAt prepared.opening (now + turn.untilEnd) turn.cancelledAtEnd with
    | some reason => .status (stoppedStatus reason)
    | none => result⟩

def PreparedCall.awaitReply (prepared : PreparedCall) (sent : ℕ × List Bytes) :
    Option ℕ → ℕ → List Turn → Sent
  | _, _, [] => ⟨some sent, .pending⟩
  | sleep, clock, turn :: rest =>
    let now := clock + turn.untilPoll
    match prepared.pollStopped turn now sleep with
    | (some reason, _) =>
      prepared.conclude turn now (some sent) (.status (stoppedStatus reason))
    | (none, sleep) =>
      match turn.reply with
      | .pending => prepared.awaitReply sent sleep now rest
      | .failed error => prepared.conclude turn now (some sent) (.status (transportStatus error))
      | .answered => prepared.conclude turn now (some sent) .answered

def PreparedCall.awaitReady (prepared : PreparedCall) : Option ℕ → ℕ → List Turn → Sent
  | _, _, [] => ⟨none, .pending⟩
  | sleep, clock, turn :: rest =>
    let now := clock + turn.untilPoll
    match prepared.pollStopped turn now sleep with
    | (some reason, _) => prepared.conclude turn now none (.status (stoppedStatus reason))
    | (none, sleep) =>
      match turn.channel with
      | .pending => prepared.awaitReady sleep now rest
      | .failed error => prepared.conclude turn now none (.status (transportStatus error))
      | .ready =>
        let checked := now + turn.untilCheck
        match stoppedAt prepared.opening checked turn.cancelledAtCheck with
        | some reason => prepared.conclude turn checked none (.status (stoppedStatus reason))
        | none =>
          let measured := checked + turn.untilForward
          match prepared.forward setTimeout measured with
          | none => ⟨none, .panicked⟩
          | some (.error status) => prepared.conclude turn measured none (.status status)
          | some (.ok headers) =>
            match turn.reply with
            | .pending => prepared.awaitReply (measured, headers) sleep measured rest
            | .failed error =>
              prepared.conclude turn measured (some (measured, headers))
                (.status (transportStatus error))
            | .answered => prepared.conclude turn measured (some (measured, headers)) .answered

def PreparedCall.send (prepared : PreparedCall) (start : ℕ) (cancelled : Bool)
    (turns : List Turn) : Sent :=
  match stoppedAt prepared.opening start cancelled with
  | some reason => ⟨none, .status (stoppedStatus reason)⟩
  | none => prepared.awaitReady setTimeout none start turns

end

theorem Matches.earliest {clock : ℕ} {left right : Option Deadline} {first second : Option ℕ}
    (h : Matches clock left first) (k : Matches clock right second) :
    Matches clock (GrpcDeadlines.earliest left right clock) (least first second) := by
  cases left with
  | none =>
    cases first with
    | none => exact k
    | some _ => exact h.elim
  | some left =>
    cases first with
    | none => exact h.elim
    | some first =>
      cases right with
      | none =>
        cases second with
        | none => exact h
        | some _ => exact k.elim
      | some right =>
        cases second with
        | none => exact k.elim
        | some second => exact Deadline.CountsTo.earlier h k

theorem matches_taken {clock : ℕ} {deadline : Option Deadline}
    (h : ∀ d ∈ deadline, d.origin ≤ clock) :
    Matches clock deadline (deadline.map fun d => d.origin + d.budget) := by
  cases deadline with
  | none => trivial
  | some deadline => exact Deadline.counts_to_new (h deadline rfl) deadline.budget

/-- One call through the client. A deadline's origin is an instant already read from the clock. -/
structure Hop where
  policy : ClientTimeout
  headers : List Bytes
  parent : Option OperationContext
  token : ℕ
  readings : Readings
  taken : ∀ deadline ∈ parent.bind OperationContext.deadline, deadline.origin ≤ readings.origin
  untilSend : ℕ
  cancelled : Bool
  turns : List Turn

namespace Hop

variable (hop : Hop)

def prepared : PreparedCall :=
  prepareCall hop.policy hop.headers hop.parent hop.token hop.readings

def start : ℕ := hop.readings.forwarded + hop.untilSend

def sent (setTimeout : ℕ → Option Bytes) : Sent :=
  hop.prepared.send setTimeout hop.start hop.cancelled hop.turns

def parentDeadline : Option Deadline := hop.parent.bind OperationContext.deadline

def localCutoff : ℕ := hop.readings.origin + hop.policy.budget

def callerCutoff : Option ℕ := (grpcTimeout hop.headers).map fun budget => hop.readings.origin + budget

def parentCutoff : Option ℕ := hop.parentDeadline.map fun deadline => deadline.origin + deadline.budget

def openingCutoff : Option ℕ :=
  least (least (some hop.localCutoff) hop.callerCutoff) hop.parentCutoff

def handedCutoff : Option ℕ := least hop.callerCutoff hop.parentCutoff

def lifetimeCutoff : Option ℕ :=
  match hop.policy with
  | .fullRpc _ => hop.openingCutoff
  | .openingOnly _ => hop.handedCutoff

theorem parent_matches : Matches hop.readings.origin hop.parentDeadline hop.parentCutoff :=
  matches_taken hop.taken

theorem caller_matches : Matches hop.readings.origin
    ((grpcTimeout hop.headers).map fun budget => ⟨hop.readings.origin, budget⟩)
    hop.callerCutoff := by
  unfold callerCutoff
  cases grpcTimeout hop.headers with
  | none => trivial
  | some budget => exact Deadline.counts_to_new (Nat.le_refl _) budget

theorem local_matches : Matches hop.readings.origin
    (some (hop.policy.deadlines hop.readings.origin (grpcTimeout hop.headers)).1)
    (least (some hop.localCutoff) hop.callerCutoff) := by
  unfold callerCutoff localCutoff
  cases grpcTimeout hop.headers with
  | none => exact Deadline.counts_to_new (Nat.le_refl _) _
  | some budget =>
    have hcounts := Deadline.counts_to_new (Nat.le_refl hop.readings.origin)
      (min budget hop.policy.budget)
    rw [← Nat.add_min_add_left, Nat.min_comm (_ + budget)] at hcounts
    exact hcounts

def localLifetime : Option ℕ :=
  match hop.policy with
  | .fullRpc _ => least (some hop.localCutoff) hop.callerCutoff
  | .openingOnly _ => hop.callerCutoff

theorem lifetime_cutoff_eq : hop.lifetimeCutoff = least hop.localLifetime hop.parentCutoff := by
  unfold lifetimeCutoff localLifetime
  cases hop.policy <;> rfl

theorem local_lifetime_matches : Matches hop.readings.origin
    (hop.policy.deadlines hop.readings.origin (grpcTimeout hop.headers)).2 hop.localLifetime := by
  have hlocal := hop.local_matches
  unfold localLifetime
  cases hpolicy : hop.policy with
  | fullRpc budget =>
    rw [hpolicy] at hlocal
    exact hlocal
  | openingOnly budget => exact hop.caller_matches

theorem readings_le : hop.readings.origin ≤ hop.readings.opening ∧
    hop.readings.opening ≤ hop.readings.lifetime ∧
    hop.readings.lifetime ≤ hop.readings.forwarded :=
  ⟨Nat.le_add_right _ _, Nat.le_add_right _ _, Nat.le_add_right _ _⟩

theorem least_comm (own other : Option ℕ) : least own other = least other own := by
  cases own <;> cases other <;> simp [least, Nat.min_comm]

/-- Each cutoff is fixed from the reading it was chosen at. -/
theorem opening_matches :
    Matches hop.readings.opening hop.prepared.opening.deadline hop.openingCutoff := by
  have hlocal := hop.local_matches.later hop.readings_le.1
  have hparent := hop.parent_matches.later hop.readings_le.1
  have hearliest := Matches.earliest hparent hlocal
  rw [least_comm] at hearliest
  change Matches _ (some (match hop.parentDeadline with
    | none => _
    | some parent => parent.earlier _ _)) _
  cases hdeadline : hop.parentDeadline with
  | none =>
    rw [hdeadline] at hearliest
    exact hearliest
  | some parent =>
    rw [hdeadline] at hearliest
    exact hearliest

theorem lifetime_matches :
    Matches hop.readings.lifetime hop.prepared.lifetime.deadline hop.lifetimeCutoff := by
  have hle := Nat.le_trans hop.readings_le.1 hop.readings_le.2.1
  rw [lifetime_cutoff_eq]
  exact Matches.earliest (hop.local_lifetime_matches.later hle) (hop.parent_matches.later hle)

theorem forwarded_matches :
    Matches hop.readings.forwarded hop.prepared.forwarded hop.handedCutoff := by
  have hle := Nat.le_trans hop.readings_le.1 (Nat.le_trans hop.readings_le.2.1 hop.readings_le.2.2)
  exact Matches.earliest (hop.caller_matches.later hle) (hop.parent_matches.later hle)

end Hop

/-- The channel is ready in a turn of the wait, with no cancellation until then: when that turn
checks its opening and when it measures what is left. -/
inductive Readies : ℕ → List Turn → ℕ → ℕ → Prop
  | later {clock checked measured : ℕ} {turn : Turn} {rest : List Turn}
      (hcancelled : turn.cancelled = false) (hchannel : turn.channel = .pending)
      (htail : Readies (clock + turn.untilPoll) rest checked measured) :
      Readies clock (turn :: rest) checked measured
  | now {clock : ℕ} {turn : Turn} (rest : List Turn)
      (hcancelled : turn.cancelled = false) (hchannel : turn.channel = .ready)
      (hcheck : turn.cancelledAtCheck = false) :
      Readies clock (turn :: rest) (clock + turn.untilPoll + turn.untilCheck)
        (clock + turn.untilPoll + turn.untilCheck + turn.untilForward)

theorem Readies.le {clock checked measured : ℕ} {turns : List Turn}
    (h : Readies clock turns checked measured) : clock ≤ checked ∧ checked ≤ measured := by
  induction h with
  | later _ _ _ ih => exact ⟨Nat.le_trans (Nat.le_add_right _ _) ih.1, ih.2⟩
  | now => exact ⟨by omega, Nat.le_add_right _ _⟩

theorem stopped_at_none {context : OperationContext} {now : ℕ} {cancelled : Bool} :
    stoppedAt context now cancelled = none ↔
      context.expiredAt now = false ∧ cancelled = false := by
  unfold stoppedAt
  by_cases hexpired : context.expiredAt now = true
  · simp [hexpired]
  · rw [Bool.not_eq_true] at hexpired
    cases cancelled <;> simp [hexpired]

theorem expired_later {context : OperationContext} {now later : ℕ} (hle : now ≤ later)
    (h : context.expiredAt later = false) : context.expiredAt now = false := by
  unfold OperationContext.expiredAt at h ⊢
  split at h
  · rfl
  · unfold Deadline.expiredAt Deadline.remainingAt at h ⊢
    rw [decide_eq_false_iff_not] at h ⊢
    omega

section

variable {setTimeout : ℕ → Option Bytes} {prepared : PreparedCall} {turn : Turn}

theorem poll_deadline_open {deadline : Deadline} {now : ℕ} {fired : Bool} {sleep : Option ℕ}
    (h : deadline.expiredAt now = false) : (pollDeadline deadline now fired sleep).1 = false := by
  unfold pollDeadline
  by_cases hsleeping : (sleep.isSome && !fired) = true
  · rw [if_pos hsleeping]
  · rw [if_neg hsleeping, h]
    rfl

/-- Until the cutoff or a cancellation the wait for a stop stays pending, whatever the timer does. -/
theorem poll_stopped_open {now : ℕ} (hexpired : prepared.opening.expiredAt now = false)
    (hcancelled : turn.cancelled = false) (sleep : Option ℕ) :
    (prepared.pollStopped turn now sleep).1 = none := by
  unfold OperationContext.expiredAt at hexpired
  unfold PreparedCall.pollStopped
  cases hdeadline : prepared.opening.deadline with
  | none => simp [hcancelled]
  | some deadline =>
    rw [hdeadline] at hexpired
    simp [hcancelled, poll_deadline_open hexpired]

theorem poll_stopped_pending {now : ℕ} {sleep left : Option ℕ}
    (h : prepared.pollStopped turn now sleep = (none, left)) : turn.cancelled = false := by
  have hnone := congrArg Prod.fst h
  by_contra hcancelled
  rw [Bool.not_eq_false] at hcancelled
  simp only [PreparedCall.pollStopped, hcancelled, if_true] at hnone
  split_ifs at hnone

theorem conclude_outcome {now : ℕ} {dispatched : Option (ℕ × List Bytes)} {result : Outcome}
    (h : result ≠ .panicked) :
    (prepared.conclude turn now dispatched result).outcome ≠ .panicked := by
  unfold PreparedCall.conclude
  split
  · nofun
  · exact h

theorem await_reply_spec (sent : ℕ × List Bytes) (turns : List Turn) (sleep : Option ℕ)
    (clock : ℕ) :
    (prepared.awaitReply sent sleep clock turns).dispatched = some sent ∧
      (prepared.awaitReply sent sleep clock turns).outcome ≠ .panicked := by
  induction turns generalizing sleep clock with
  | nil => exact ⟨rfl, nofun⟩
  | cons turn rest ih =>
    unfold PreparedCall.awaitReply
    dsimp only
    split
    · exact ⟨rfl, conclude_outcome nofun⟩
    · split
      · exact ih _ _
      · exact ⟨rfl, conclude_outcome nofun⟩
      · exact ⟨rfl, conclude_outcome nofun⟩

/-- What was dispatched is what was measured, at an instant of the wait. -/
theorem await_ready_dispatched (turns : List Turn) (sleep : Option ℕ) (clock : ℕ)
    {measured : ℕ} {headers : List Bytes}
    (h : (prepared.awaitReady setTimeout sleep clock turns).dispatched = some (measured, headers)) :
    clock ≤ measured ∧ prepared.forward setTimeout measured = some (.ok headers) := by
  induction turns generalizing sleep clock with
  | nil => cases h
  | cons turn rest ih =>
    unfold PreparedCall.awaitReady at h
    dsimp only at h
    split at h
    · cases h
    · split at h
      · have htail := ih _ _ h
        exact ⟨Nat.le_trans (Nat.le_add_right _ _) htail.1, htail.2⟩
      · cases h
      · split at h
        · cases h
        · split at h
          · cases h
          · cases h
          · next values hforward =>
            -- Sent in this turn: the reply decides the outcome only.
            have hsent : (clock + turn.untilPoll + turn.untilCheck + turn.untilForward, values) =
                (measured, headers) := by
              split at h
              · exact Option.some.inj ((await_reply_spec _ _ _ _).1.symm.trans h)
              · exact Option.some.inj h
              · exact Option.some.inj h
            rw [Prod.mk.injEq] at hsent
            obtain ⟨rfl, rfl⟩ := hsent
            exact ⟨by omega, hforward⟩

theorem await_ready_panics (turns : List Turn) (sleep : Option ℕ) (clock : ℕ)
    (h : (prepared.awaitReady setTimeout sleep clock turns).outcome = .panicked) :
    ∃ checked measured, Readies clock turns checked measured ∧
      prepared.opening.expiredAt checked = false ∧ prepared.forward setTimeout measured = none := by
  induction turns generalizing sleep clock with
  | nil => cases h
  | cons turn rest ih =>
    unfold PreparedCall.awaitReady at h
    dsimp only at h
    split at h
    · exact absurd h (conclude_outcome nofun)
    · next hpoll =>
      have hcancelled := poll_stopped_pending hpoll
      split at h
      · next hchannel =>
        obtain ⟨checked, measured, htail, hopen⟩ := ih _ _ h
        exact ⟨checked, measured, .later hcancelled hchannel htail, hopen⟩
      · exact absurd h (conclude_outcome nofun)
      · next hchannel =>
        split at h
        · exact absurd h (conclude_outcome nofun)
        · next hcheck =>
          obtain ⟨hopen, hcancelledAtCheck⟩ := stopped_at_none.mp hcheck
          split at h
          · next hforward =>
            exact ⟨_, _, .now rest hcancelled hchannel hcancelledAtCheck, hopen, hforward⟩
          · exact absurd h (conclude_outcome nofun)
          · split at h
            · exact absurd h (await_reply_spec _ _ _ _).2
            · exact absurd h (conclude_outcome nofun)
            · exact absurd h (conclude_outcome nofun)

/-- The opening that is not over at the check was not over before. -/
theorem await_ready_reaches {clock checked measured : ℕ} {turns : List Turn}
    (h : Readies clock turns checked measured) (hopen : prepared.opening.expiredAt checked = false)
    (hforward : prepared.forward setTimeout measured = none) (sleep : Option ℕ) :
    (prepared.awaitReady setTimeout sleep clock turns).outcome = .panicked := by
  induction h generalizing sleep with
  | @later clock _ _ turn _ hcancelled hchannel htail ih =>
    have hpoll := poll_stopped_open (expired_later htail.le.1 hopen) hcancelled sleep
    unfold PreparedCall.awaitReady
    dsimp only
    split
    · next reason _ hstopped =>
      rw [hstopped] at hpoll
      cases hpoll
    · rw [hchannel]
      exact ih hopen hforward _
  | @now clock turn _ hcancelled hchannel hcheck =>
    have hearlier := expired_later (Nat.le_add_right _ _) hopen
    have hpoll := poll_stopped_open hearlier hcancelled sleep
    unfold PreparedCall.awaitReady
    dsimp only
    split
    · next reason _ hstopped =>
      rw [hstopped] at hpoll
      cases hpoll
    · rw [hchannel]
      dsimp only
      rw [stopped_at_none.mpr ⟨hopen, hcheck⟩]
      dsimp only
      rw [hforward]

end

theorem parse_short {value : Bytes} {duration : ℕ} (h : parseGrpcTimeout value = some duration) :
    duration < longest := by
  obtain ⟨unit, digits, rfl, hne, hlength, hdigits, rfl⟩ := (parse_iff value duration).mp h
  have hlt : readDecimal digits < 10 ^ 8 :=
    Nat.lt_of_lt_of_le (read_decimal_lt hdigits) (Nat.pow_le_pow_right (by decide) hlength)
  calc readDecimal digits * unit.step
      ≤ readDecimal digits * TimeUnit.hours.step := Nat.mul_le_mul_left _ (step_le_hours unit)
    _ < longest := Nat.mul_lt_mul_of_pos_right hlt (by decide)

namespace Hop

variable (hop : Hop)

/-- Nothing but the parent bounds the call, and the parent has more time left than the header can
carry when the channel becomes ready within the local budget. -/
def Overlong : Prop :=
  grpcTimeout hop.headers = none ∧ hop.cancelled = false ∧
    ∃ parent checked measured, hop.parentDeadline = some parent ∧
      Readies hop.start hop.turns checked measured ∧ checked < hop.localCutoff ∧
      measured + longest ≤ parent.origin + parent.budget

structure Kept (setTimeout : ℕ → Option Bytes) : Prop where
  opening : Matches hop.readings.opening hop.prepared.opening.deadline hop.openingCutoff
  lifetime : Matches hop.readings.lifetime hop.prepared.lifetime.deadline hop.lifetimeCutoff
  never_panics : (hop.sent setTimeout).outcome ≠ .panicked
  forwarded : ∀ measured headers, (hop.sent setTimeout).dispatched = some (measured, headers) →
    ∀ cutoff, hop.handedCutoff = some cutoff → ∃ value unit d, headers = [value] ∧
      Written value unit d ∧ parseGrpcTimeout value = some d ∧ d ≤ cutoff - measured ∧
      cutoff - measured - d < unit.step
  grammar : ∀ value d, parseGrpcTimeout value = some d ↔ ∃ unit, Written value unit d

variable {hop} {setTimeout : ℕ → Option Bytes}

theorem sent_dispatched {measured : ℕ} {headers : List Bytes}
    (h : (hop.sent setTimeout).dispatched = some (measured, headers)) :
    hop.readings.forwarded ≤ measured ∧
      hop.prepared.forward setTimeout measured = some (.ok headers) := by
  unfold sent PreparedCall.send at h
  split at h
  · cases h
  · have hready := await_ready_dispatched hop.turns none hop.start h
    exact ⟨Nat.le_trans (Nat.le_add_right _ _) hready.1, hready.2⟩

theorem sent_panics_iff : (hop.sent setTimeout).outcome = .panicked ↔
    hop.cancelled = false ∧ ∃ checked measured, Readies hop.start hop.turns checked measured ∧
      hop.prepared.opening.expiredAt checked = false ∧
      hop.prepared.forward setTimeout measured = none := by
  unfold sent PreparedCall.send
  constructor
  · intro h
    split at h
    · cases h
    · next hstopped =>
      exact ⟨(stopped_at_none.mp hstopped).2, await_ready_panics hop.turns none hop.start h⟩
  · rintro ⟨hcancelled, checked, measured, hready, hopen, hforward⟩
    rw [stopped_at_none.mpr ⟨expired_later hready.le.1 hopen, hcancelled⟩]
    exact await_ready_reaches hready hopen hforward none

theorem start_le (hop : Hop) : hop.readings.forwarded ≤ hop.start := Nat.le_add_right _ _

/-- What is left at an instant after the preparation, as the request's header must carry it. -/
theorem forward_eq {cutoff measured : ℕ} (hcutoff : hop.handedCutoff = some cutoff)
    (hmeasured : hop.readings.forwarded ≤ measured) :
    hop.prepared.forward setTimeout measured =
      if cutoff - measured = 0 then some (.error .deadlineExceeded)
      else (setTimeout (cutoff - measured)).map fun value => .ok [value] := by
  have hmatches := hop.forwarded_matches
  rw [hcutoff] at hmatches
  unfold PreparedCall.forward
  cases hdeadline : hop.prepared.forwarded with
  | none =>
    rw [hdeadline] at hmatches
    exact hmatches.elim
  | some deadline =>
    rw [hdeadline] at hmatches
    simp only [forwardTimeout, hmatches measured hmeasured]

theorem forward_none {measured : ℕ} (hcutoff : hop.handedCutoff = none) :
    hop.prepared.forward setTimeout measured = some (.ok hop.headers) := by
  have hmatches := hop.forwarded_matches
  rw [hcutoff] at hmatches
  unfold PreparedCall.forward
  cases hdeadline : hop.prepared.forwarded with
  | none => rfl
  | some deadline =>
    rw [hdeadline] at hmatches
    exact hmatches.elim

/-- A caller's budget is one the header carried, so it can carry what is left of it. -/
theorem handed_short {budget cutoff measured : ℕ} (hbudget : grpcTimeout hop.headers = some budget)
    (hcutoff : hop.handedCutoff = some cutoff) (hmeasured : hop.readings.origin ≤ measured) :
    cutoff - measured < longest := by
  obtain ⟨value, _, hparse⟩ := Option.bind_eq_some_iff.mp hbudget
  have hshort := parse_short hparse
  have hle : cutoff ≤ hop.readings.origin + budget := by
    unfold handedCutoff callerCutoff at hcutoff
    rw [hbudget, Option.map_some] at hcutoff
    cases hparent : hop.parentCutoff with
    | none =>
      rw [hparent] at hcutoff
      exact Nat.le_of_eq (Option.some.inj hcutoff).symm
    | some limit =>
      rw [hparent] at hcutoff
      rw [← Option.some.inj hcutoff]
      exact Nat.min_le_left _ _
  omega

theorem handed_parent (hcaller : grpcTimeout hop.headers = none) :
    hop.handedCutoff = hop.parentCutoff ∧
      hop.openingCutoff = least (some hop.localCutoff) hop.parentCutoff := by
  unfold handedCutoff openingCutoff callerCutoff
  rw [hcaller]
  exact ⟨rfl, rfl⟩

theorem opening_open_iff {checked limit : ℕ} (hlimit : hop.openingCutoff = some limit)
    (hchecked : hop.readings.opening ≤ checked) :
    hop.prepared.opening.expiredAt checked = false ↔ checked < limit := by
  have hmatches := hop.opening_matches
  rw [hlimit] at hmatches
  unfold OperationContext.expiredAt
  cases hdeadline : hop.prepared.opening.deadline with
  | none =>
    rw [hdeadline] at hmatches
    exact hmatches.elim
  | some deadline =>
    rw [hdeadline] at hmatches
    rw [← Bool.not_eq_true, Deadline.CountsTo.expired_iff hmatches hchecked, Nat.not_le]

theorem panics_iff_overlong (hset : WritesFloor setTimeout) :
    (hop.sent setTimeout).outcome = .panicked ↔ hop.Overlong := by
  have hopening := Nat.le_trans hop.readings_le.2.1 hop.readings_le.2.2
  rw [sent_panics_iff]
  constructor
  · rintro ⟨hcancelled, checked, measured, hready, hopen, hforward⟩
    have hchecked := Nat.le_trans hop.start_le hready.le.1
    have hmeasured := Nat.le_trans hchecked hready.le.2
    cases hcutoff : hop.handedCutoff with
    | none =>
      rw [forward_none hcutoff] at hforward
      cases hforward
    | some cutoff =>
      rw [forward_eq hcutoff hmeasured] at hforward
      split at hforward
      · cases hforward
      · rw [Option.map_eq_none_iff, hset.none_iff] at hforward
        have hcaller : grpcTimeout hop.headers = none := by
          cases hbudget : grpcTimeout hop.headers with
          | none => rfl
          | some budget =>
            have horigin := Nat.le_trans hop.readings_le.1 (Nat.le_trans hopening hmeasured)
            exact absurd (handed_short hbudget hcutoff horigin) (Nat.not_lt.mpr hforward)
        obtain ⟨hhanded, hlimit⟩ := handed_parent hcaller
        rw [hhanded] at hcutoff
        obtain ⟨parent, hparent, rfl⟩ := Option.map_eq_some_iff.mp hcutoff
        rw [hcutoff] at hlimit
        have hlt := (opening_open_iff hlimit (Nat.le_trans hopening hchecked)).mp hopen
        have hpos : 0 < longest := by decide
        exact ⟨hcaller, hcancelled, parent, checked, measured, hparent, hready,
          Nat.lt_of_lt_of_le hlt (Nat.min_le_left _ _), by omega⟩
  · rintro ⟨hcaller, hcancelled, parent, checked, measured, hparent, hready, hlocal, hlong⟩
    have hchecked := Nat.le_trans hop.start_le hready.le.1
    have hmeasured := Nat.le_trans hchecked hready.le.2
    have hpos : 0 < longest := by decide
    have hcutoff : hop.parentCutoff = some (parent.origin + parent.budget) := by
      rw [parentCutoff, hparent, Option.map_some]
    obtain ⟨hhanded, hlimit⟩ := handed_parent hcaller
    rw [hcutoff] at hhanded hlimit
    refine ⟨hcancelled, checked, measured, hready, ?_, ?_⟩
    · rw [opening_open_iff hlimit (Nat.le_trans hopening hchecked)]
      exact Nat.lt_min.mpr ⟨hlocal, by have hle := hready.le.2; omega⟩
    · rw [forward_eq hhanded hmeasured, if_neg (by omega), Option.map_eq_none_iff, hset.none_iff]
      omega

theorem header_carries (hset : WritesFloor setTimeout) {measured cutoff : ℕ} {headers : List Bytes}
    (h : (hop.sent setTimeout).dispatched = some (measured, headers))
    (hcutoff : hop.handedCutoff = some cutoff) :
    ∃ value unit d, headers = [value] ∧ Written value unit d ∧ parseGrpcTimeout value = some d ∧
      d ≤ cutoff - measured ∧ cutoff - measured - d < unit.step := by
  obtain ⟨hmeasured, hforward⟩ := sent_dispatched h
  rw [forward_eq hcutoff hmeasured] at hforward
  split at hforward
  · cases hforward
  · obtain ⟨value, hvalue, hheaders⟩ := Option.map_eq_some_iff.mp hforward
    obtain ⟨unit, d, hwritten, hle, hlt⟩ := hset.read_back hvalue
    exact ⟨value, unit, d, (Except.ok.inj hheaders).symm, hwritten, parse_written hwritten, hle, hlt⟩

end Hop

theorem hop_keeps_deadline {setTimeout : ℕ → Option Bytes} (hset : WritesFloor setTimeout)
    (hop : Hop) : hop.Kept setTimeout ↔ ¬ hop.Overlong := by
  constructor
  · intro hkept hoverlong
    exact hkept.never_panics ((Hop.panics_iff_overlong hset).mpr hoverlong)
  · intro hshort
    exact {
      opening := hop.opening_matches
      lifetime := hop.lifetime_matches
      never_panics := fun hpanics => hshort ((Hop.panics_iff_overlong hset).mp hpanics)
      forwarded := fun _ _ h _ hcutoff => Hop.header_carries hset h hcutoff
      grammar := parse_iff }

def promptTurn : Turn := ⟨0, false, false, .ready, 0, false, 0, .answered, 0, false⟩

def fiveSeconds : Hop where
  policy := .fullRpc (2 * secondNanos)
  headers := [[53, 83]]
  parent := none
  token := 0
  readings := ⟨0, 0, 0, 0⟩
  taken := nofun
  untilSend := 0
  cancelled := false
  turns := [promptTurn]

theorem five_seconds_kept : fiveSeconds.Kept durationToGrpcTimeout := by
  refine (hop_keeps_deadline duration_writes_floor fiveSeconds).mpr fun hoverlong => ?_
  have hnone := hoverlong.1
  revert hnone
  decide

def durationMax : ℕ := 2 ^ 64 * secondNanos - 1

/-- A parent with the greatest finite budget, and no timeout of the caller's own. -/
def hugeParent : Hop where
  policy := .fullRpc (2 * secondNanos)
  headers := []
  parent := some ⟨some ⟨0, durationMax⟩, 0⟩
  token := 1
  readings := ⟨0, 0, 0, 0⟩
  taken := by
    rintro deadline ⟨⟩
    exact Nat.le_refl _
  untilSend := 0
  cancelled := false
  turns := [promptTurn]

theorem huge_parent_panics : (hugeParent.sent durationToGrpcTimeout).outcome = .panicked ∧
    ¬ hugeParent.Kept durationToGrpcTimeout := by
  have hpanics : (hugeParent.sent durationToGrpcTimeout).outcome = .panicked := by decide
  exact ⟨hpanics, fun hkept => hkept.never_panics hpanics⟩

end GrpcDeadlines
