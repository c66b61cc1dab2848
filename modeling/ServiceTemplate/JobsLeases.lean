import ServiceTemplate.JobsFencing
import ServiceTemplate.JobsPayload

/-! Attempts of jobs at any number of workers over the shared table, with one time that the database
and the workers' timers follow. A claim is sent, the database answers it later, and each row of the
answer gets a supervisor that runs the handler, stops it by its local deadline and then writes the
outcome. Outcome messages stay in flight and may arrive late, repeatedly or never. -/
namespace JobsLeases

open TransitionSystem
open JobsTable JobsLedger

def cancelMarginMicros : ℤ := 2000000
def cooperativeGraceMicros : ℤ := 100000
def errorSummaryMaxBytes : ℕ := 1024

inductive Disposition where
  | retry
  | permanent
  | retryAfterAtLeast (floorMicros : ℤ)
  | snooze (delayMicros : ℤ)
  deriving DecidableEq, Repr

structure JobError where
  disposition : Disposition
  summary : String
  deriving DecidableEq, Repr

inductive Category where
  | io
  | syntax_
  | data
  | eof
  deriving DecidableEq, Repr

structure PayloadError where
  category : Category
  line : ℕ
  column : ℕ
  deriving DecidableEq, Repr

inductive Ended where
  | success
  | error (error : JobError)
  | panic
  | payload (error : PayloadError)
  | timeout
  | cancelled
  deriving DecidableEq, Repr

/-- `Transition` of the supervisor. -/
inductive Outcome where
  | complete
  | retry (summary : String) (baseMicros floorMicros : ℤ) (timedOut : Bool)
  | fail (reason : FailureReason) (summary : String)
  | snooze (delayMicros : ℤ) (summary : String)
  | release
  deriving DecidableEq, Repr

def cutSummary (size : ℕ) : List Char → List Char
  | [] => []
  | c :: rest =>
    let c := if JobsPayload.isControl c then ' ' else c
    if errorSummaryMaxBytes < size + c.utf8Size then [] else c :: cutSummary (size + c.utf8Size) rest

def summary (text : String) : String := String.ofList (cutSummary 0 text.toList)

theorem cut_summary_fits (cs : List Char) {size : ℕ} (h : size ≤ errorSummaryMaxBytes) :
    size + (String.ofList (cutSummary size cs)).utf8ByteSize ≤ errorSummaryMaxBytes ∧
      ∀ c ∈ cutSummary size cs, JobsPayload.isControl c = false := by
  induction cs generalizing size with
  | nil => exact ⟨h, fun c hc => by cases hc⟩
  | cons c cs ih =>
    rw [cutSummary]
    generalize hd : (if JobsPayload.isControl c then ' ' else c) = d
    have hplain : JobsPayload.isControl d = false := by
      rw [← hd]
      split
      · decide
      · rename_i hc
        simpa using hc
    split
    · exact ⟨h, fun c hc => by cases hc⟩
    · rename_i hfits
      obtain ⟨hbytes, hrest⟩ := ih (Nat.le_of_not_lt hfits)
      refine ⟨?_, fun x hx => ?_⟩
      · rw [String.ofList_cons, String.utf8ByteSize_append, String.utf8ByteSize_singleton]
        omega
      · rcases List.mem_cons.mp hx with rfl | hx
        · exact hplain
        · exact hrest x hx

theorem summary_fits (text : String) : (summary text).utf8ByteSize ≤ errorSummaryMaxBytes ∧
    ∀ c ∈ (summary text).toList, JobsPayload.isControl c = false := by
  obtain ⟨hbytes, hplain⟩ := cut_summary_fits text.toList (Nat.zero_le _)
  rw [Nat.zero_add] at hbytes
  refine ⟨hbytes, ?_⟩
  rwa [summary, String.toList_ofList]

def Category.text : Category → String
  | .io => "io"
  | .syntax_ => "syntax"
  | .data => "data"
  | .eof => "eof"

def payloadSummary (kind : String) (error : PayloadError) : String :=
  "payload does not decode as " ++ kind ++ ": " ++ error.category.text ++ " error at line " ++
    toString error.line ++ " column " ++ toString error.column

def retry (attempt : ℤ) (policy : Policy) (text : String) (floorMicros : ℤ) (timedOut : Bool) :
    Outcome :=
  if (policy.maxAttempts : ℤ) ≤ attempt then .fail .exhausted (summary text)
  else .retry (summary text) (attempt ^ 4 * 1000000) floorMicros timedOut

/-- `formatDuration` is `humantime::format_duration` of microseconds. -/
def mapOutcome (formatDuration : ℕ → String) (kind : String) (attempt : ℤ) (policy : Policy) :
    Ended → Outcome
  | .success => .complete
  | .cancelled => .release
  | .error error =>
    match error.disposition with
    | .snooze delayMicros => .snooze delayMicros (summary error.summary)
    | .permanent => .fail .permanent (summary error.summary)
    | .retryAfterAtLeast floorMicros => retry attempt policy error.summary floorMicros false
    | .retry => retry attempt policy error.summary 0 false
  | .panic => retry attempt policy "handler panicked" 0 false
  | .payload error => retry attempt policy (payloadSummary kind error) 0 false
  | .timeout =>
    retry attempt policy ("attempt timed out after " ++ formatDuration policy.timeoutMicros) 0 true

def Outcome.text : Outcome → Option String
  | .complete | .release => none
  | .retry text .. | .fail _ text | .snooze _ text => some text

theorem retry_text (attempt : ℤ) (policy : Policy) (text : String) (floorMicros : ℤ)
    (timedOut : Bool) :
    (retry attempt policy text floorMicros timedOut).text = some (summary text) := by
  rw [retry]
  split <;> rfl

/-- Every text that an outcome writes fits its column. -/
theorem map_outcome_text {formatDuration : ℕ → String} {kind : String} {attempt : ℤ}
    {policy : Policy} {ended : Ended} {text : String}
    (h : (mapOutcome formatDuration kind attempt policy ended).text = some text) :
    text.utf8ByteSize ≤ errorSummaryMaxBytes ∧
      ∀ c ∈ text.toList, JobsPayload.isControl c = false := by
  have hsummary : ∃ raw, text = summary raw := by
    cases ended with
    | success | cancelled => cases h
    | panic | payload | timeout => exact ⟨_, (Option.some.inj ((retry_text ..).symm.trans h)).symm⟩
    | error error =>
      obtain ⟨disposition, raw⟩ := error
      cases disposition with
      | retry | retryAfterAtLeast =>
        exact ⟨_, (Option.some.inj ((retry_text ..).symm.trans h)).symm⟩
      | permanent | snooze => exact ⟨raw, (Option.some.inj h).symm⟩
  obtain ⟨raw, rfl⟩ := hsummary
  exact summary_fits raw

/-- The statement of one write; `drawn` is the backoff with the jitter the database drew. -/
def Outcome.statement (drawn : ℤ) : Outcome → Transition
  | .complete => .complete
  | .retry summary _ floorMicros _ => .retry summary drawn floorMicros
  | .fail reason summary => .fail reason summary
  | .snooze delayMicros _ => .snooze delayMicros
  | .release => .release

inductive Result where
  | ok
  | error (error : JobError)
  | panicked
  deriving DecidableEq, Repr

def endedFrom : Result → Ended
  | .ok => .success
  | .error error => .error error
  | .panicked => .panic

def endedAfterCancel (result : Result) (reason : Ended) : Ended :=
  match result with
  | .ok => .success
  | _ => reason

/-- Where a supervisor stands. The handler lives in `running` and `cancelled`; `lost` is an attempt
whose outcome stays unknown to its worker. -/
inductive Stage where
  | drawn
  | running (deadline : Time)
  | cancelled (reason : Ended) (grace : Time)
  | ended (outcome : Outcome)
  | lost
  deriving DecidableEq, Repr

structure Attempt where
  id : JobId
  kind : String
  generation : ℕ
  number : ℤ
  worker : WorkerId
  policy : Policy
  sent : Time
  stage : Stage
  deriving DecidableEq, Repr

/-- `local_deadline` -/
def Attempt.deadline (a : Attempt) : Time :=
  a.sent + a.policy.timeoutMicros + leaseReserveMicros - cancelMarginMicros

def Stage.alive : Stage → Bool
  | .running _ | .cancelled _ _ => true
  | _ => false

def Stage.spent : Stage → Bool
  | .ended _ | .lost => true
  | _ => false

structure Round where
  worker : WorkerId
  registry : Registry
  sent : Time

structure Message where
  id : JobId
  generation : ℕ
  outcome : Outcome
  deriving DecidableEq, Repr

/-- `forced` is the cleanup deadline of each worker whose drain is forced. -/
structure World where
  now : Time
  db : JobsSystem.State
  rounds : List Round
  attempts : List Attempt
  messages : List Message
  forced : WorkerId → Option Time

def Round.draw (round : Round) (c : Change) : Option Attempt :=
  match c.cause, c.after with
  | .claimed _ policy _, some row =>
    if row.state = .running then
      some ⟨row.id, row.kind, row.claimGeneration, row.attempts, round.worker, policy, round.sent,
        .drawn⟩
    else none
  | _, _ => none

def World.cleanupEnded (w : World) (a : Attempt) : Bool :=
  (w.forced a.worker).any fun deadline => deadline ≤ w.now

def World.expired (w : World) (a : Attempt) : Bool :=
  decide (a.deadline ≤ w.now) || w.cleanupEnded a

inductive Event where
  | advance (now : Time)
  | send (worker : WorkerId) (registry : Registry)
  | claim (round : ℕ) (available : String → ℕ) (requested : ℕ) (held order : List JobId)
  | start (i : ℕ) (refused : Option Ended)
  | finish (i : ℕ) (result : Result)
  | cancel (i : ℕ) (reason : Ended)
  | join (i : ℕ) (result : Result)
  | destroy (i : ℕ)
  | abandon (i : ℕ)
  | persist (i : ℕ)
  | deliver (k : ℕ) (drawn : ℤ)
  | deliverBatch (batch : List (JobId × ℕ))
  | force (worker : WorkerId) (budget : ℕ)
  | database (e : JobsSystem.Event)

variable (formatDuration : ℕ → String)

def Attempt.outcome (a : Attempt) (ended : Ended) : Stage :=
  .ended (mapOutcome formatDuration a.kind a.number a.policy ended)

/-- One move of a supervisor. `refused` is a payload that does not decode, or a panic on the way. -/
def World.supervise (w : World) (a : Attempt) : Event → Option Stage
  | .start _ refused =>
    match a.stage with
    | .drawn =>
      if w.expired a then some .lost
      else match refused with
        | some ended => some (a.outcome formatDuration ended)
        | none => some (.running (min (w.now + a.policy.timeoutMicros) a.deadline))
    | _ => none
  | .finish _ result =>
    match a.stage with
    | .running _ => some (a.outcome formatDuration (endedFrom result))
    | _ => none
  | .cancel _ reason =>
    match a.stage with
    | .running deadline =>
      if reason = .cancelled ∧ (w.forced a.worker).isSome = true ∨
          reason = .timeout ∧ deadline ≤ w.now then
        some (.cancelled reason (min (w.now + cooperativeGraceMicros) a.deadline))
      else none
    | _ => none
  | .join _ result =>
    match a.stage with
    | .cancelled reason _ => some (a.outcome formatDuration (endedAfterCancel result reason))
    | _ => none
  | .destroy _ =>
    match a.stage with
    | .cancelled reason grace =>
      if grace ≤ w.now ∨ w.cleanupEnded a = true then
        some (if w.expired a then .lost else a.outcome formatDuration reason)
      else none
    | _ => none
  | .abandon _ => some .lost
  | _ => none

def World.move (w : World) (i : ℕ) (e : Event) : Option World :=
  match w.attempts[i]? with
  | none => none
  | some a =>
    (w.supervise formatDuration a e).map fun stage =>
      { w with attempts := w.attempts.set i { a with stage := stage } }

/-- Outcome writes and claims come from the workers alone. -/
def foreign : JobsSystem.Event → Bool
  | .claim .. | .outcome .. | .completeBatch .. => false
  | _ => true

def step (w : World) (e : Event) : Option World :=
  match e with
  | .advance now => if w.now ≤ now then some { w with now := now } else none
  | .send worker registry => some { w with rounds := w.rounds ++ [⟨worker, registry, w.now⟩] }
  | .claim k available requested held order =>
    match w.rounds[k]? with
    | none => none
    | some round =>
      (JobsSystem.step w.db
        (.claim round.registry available requested round.worker w.now held order)).map fun db =>
          { w with
            db := db
            rounds := w.rounds.eraseIdx k
            attempts := w.attempts ++ (db.log.drop w.db.log.length).filterMap round.draw }
  | .start i _ | .finish i _ | .cancel i _ | .join i _ | .destroy i | .abandon i =>
    w.move formatDuration i e
  | .persist i =>
    match w.attempts[i]? with
    | some a =>
      match a.stage with
      | .ended outcome =>
        if w.expired a then none
        else some { w with messages := w.messages ++ [⟨a.id, a.generation, outcome⟩] }
      | _ => none
    | none => none
  | .deliver k drawn =>
    match w.messages[k]? with
    | none => none
    | some m =>
      (JobsSystem.step w.db (.outcome m.id m.generation (m.outcome.statement drawn) w.now)).map
        fun db => { w with db := db }
  | .deliverBatch batch =>
    if ∀ entry ∈ batch, ⟨entry.1, entry.2, .complete⟩ ∈ w.messages then
      (JobsSystem.step w.db (.completeBatch batch w.now)).map fun db => { w with db := db }
    else none
  | .force worker budget =>
    some { w with
      forced := Function.update w.forced worker
        (some ((w.forced worker).getD (w.now + budget))) }
  | .database e =>
    if foreign e then (JobsSystem.step w.db e).map fun db => { w with db := db } else none

def initial : World := ⟨0, JobsSystem.initial, [], [], [], fun _ => none⟩

def leases : System World Event := ⟨initial, step formatDuration⟩

/-- No supervisor is late for its local deadline by the margin. -/
def punctual (w : World) : Event → Bool
  | .advance now => w.attempts.all fun a =>
      !a.stage.alive || decide (now < a.deadline + cancelMarginMicros)
  | _ => true

/-- When the supervisor's own timer is due: the attempt deadline, then the grace. -/
def Stage.due : Stage → Option Time
  | .running deadline => some deadline
  | .cancelled _ grace => some grace
  | _ => none

/-- No supervisor's own timer fires late by the margin. -/
def prompt (w : World) : Event → Bool
  | .advance now => w.attempts.all fun a =>
      a.stage.due.all fun due => decide (now < due + cancelMarginMicros)
  | _ => true

variable {formatDuration} {w w' : World} {e : Event} {a b : Attempt} {log : List Change} {c : Change}
  {as : List Attempt} {now : Time}

/-- The attempt may still run a handler before another claim can take its job. -/
def Attempt.Active (now : Time) (a : Attempt) : Prop :=
  a.stage.spent = false ∧ now < a.deadline + cancelMarginMicros

/-- The row of the job, if there is one, is still leased to the attempt, or completed for good. -/
def Held (log : List Change) (a : Attempt) : Prop :=
  ∀ row ∈ replay log, row.id = a.id → row.claimGeneration = a.generation ∧
    (row.state = .completed ∨ row.state = .running ∧
      ∃ expires, row.claimExpiresAt = some expires ∧ a.deadline + cancelMarginMicros ≤ expires)

structure Owned (now : Time) (as : List Attempt) (log : List Change) : Prop where
  issued : ∀ a ∈ as, a.generation ∈ drawn log ∧ a.id ∈ created log
  unique : (as.map Attempt.generation).Nodup
  held : ∀ a ∈ as, a.Active now → Held log a
  exclusive : ∀ a ∈ as, ∀ b ∈ as, a.Active now → b.Active now → a.id = b.id → a = b

/-- Claims are made now, and what an unfinished attempt would write is not written for it. -/
structure Permitted (now : Time) (as : List Attempt) (c : Change) : Prop where
  claimed : ∀ worker policy t, c.cause = .claimed worker policy t → t = now
  outcome : ∀ g transition t, c.cause = .outcome g transition t →
    transition = .complete ∨ ∃ a ∈ as, a.generation = g ∧ a.stage.spent = true

theorem Owned.same (h : Owned now as log) (ha : a ∈ as) (hb : b ∈ as)
    (hgeneration : a.generation = b.generation) : a = b :=
  List.inj_on_of_nodup_map h.unique ha hb hgeneration

/-- Neither a due row nor one with an expired lease is held. -/
theorem Held.not_claimable {row : Row} (h : Held log a) (hactive : a.Active now)
    (hrow : row ∈ replay log) (hid : row.id = a.id) :
    ¬(row.dueAt now = true ∨ row.leaseExpiredAt now = true) := by
  obtain ⟨-, hstate⟩ := h row hrow hid
  have hlate := hactive.2
  rintro (hdue | hexpired)
  · rw [Row.dueAt, Bool.and_eq_true, decide_eq_true_eq] at hdue
    rcases hstate with hcompleted | ⟨hrunning, -⟩
    · rw [hcompleted] at hdue
      cases hdue.1
    · rw [hrunning] at hdue
      cases hdue.1
  · rcases hstate with hcompleted | ⟨hrunning, expires, hexpires, hle⟩
    · simp [Row.leaseExpiredAt, hcompleted] at hexpired
    · simp only [Row.leaseExpiredAt, hrunning, hexpires, decide_true, Bool.true_and,
        decide_eq_true_eq] at hexpired
      exact absurd (Int.lt_of_lt_of_le hlate hle) (Int.not_lt.mpr hexpired)

theorem Owned.held_change (h : Owned now as log) (hlog : LegalLog log) (hc : Legal log c)
    (hpermitted : Permitted now as c) (ha : a ∈ as) (hactive : a.Active now) :
    Held (log ++ [c]) a := by
  have hheld := h.held a ha hactive
  intro row hrow hid
  rcases (hc.mem_replay (legal_log_identified hlog)).mp hrow with ⟨hold, -⟩ | hnew
  · exact hheld row hold hid
  · have hcid : c.id = a.id := (hc.after_id row hnew).symm.trans hid
    cases hc with
    | @enqueued job t hfresh =>
      have hjob : job.id = a.id := hcid
      rw [hjob] at hfresh
      exact absurd (h.issued a ha).2 hfresh
    | @claimed before policy worker t g hbefore hdue hbudget hfresh hlater =>
      have ht := hpermitted.claimed worker policy t rfl
      subst ht
      exact absurd hdue (hheld.not_claimable hactive hbefore hcid)
    | @outcome before g transition t hbefore hfenced =>
      cases hnew
      obtain ⟨hgeneration, -⟩ := hheld before hbefore hcid
      obtain ⟨hfence, -⟩ := Row.fenced hfenced
      rcases hpermitted.outcome g transition t rfl with rfl | ⟨b, hb, hbg, hspent⟩
      · exact ⟨by simpa [Row.execute] using hgeneration, .inl rfl⟩
      · have heq := h.same hb ha (hbg.trans (hfence.symm.trans hgeneration))
        rw [heq, hactive.1] at hspent
        cases hspent
    | @redriven before target t g hbefore _ hlocked =>
      obtain ⟨-, -, hfailed, -⟩ := lock_failed_ok hlocked
      rcases (hheld before hbefore hcid).2 with hstate | ⟨hstate, -⟩
      · rw [hstate] at hfailed
        cases hfailed
      · rw [hstate] at hfailed
        cases hfailed
    | discarded | retired => cases hnew

theorem draw_eq_some {round : Round} (hc : Legal log c) (hdraw : round.draw c = some a) :
    ∃ row policy worker t g, row ∈ replay log ∧ row.id = a.id ∧
      (row.dueAt t = true ∨ row.leaseExpiredAt t = true) ∧ g ∉ drawn log ∧
      c = ⟨row.id, .claimed worker policy t, some row, some (row.claim policy worker t g)⟩ ∧
      a.generation = g ∧ a.policy = policy ∧ a.sent = round.sent ∧ a.stage = .drawn ∧
      (row.claim policy worker t g).state = .running := by
  cases hc with
  | @claimed row policy worker t g hrow hdue hbudget hfresh hlater =>
    simp only [Round.draw] at hdraw
    split at hdraw
    · rename_i hrunning
      cases hdraw
      exact ⟨row, policy, worker, t, g, hrow, rfl, hdue, hfresh, rfl, rfl, rfl, rfl, rfl, hrunning⟩
    · cases hdraw
  | enqueued | outcome | redriven | discarded | retired => cases hdraw

theorem draw_drawn {round : Round} (hdraw : round.draw c = some a) : a.stage = .drawn := by
  simp only [Round.draw] at hdraw
  repeat' split at hdraw
  all_goals cases hdraw
  rfl

/-- A claimed row runs with a lease that outlasts the local deadline by the margin. -/
theorem claim_leased {row : Row} {policy : Policy} {worker : WorkerId} {t : Time} {g : ℕ}
    (h : (row.claim policy worker t g).state = .running) :
    (row.claim policy worker t g).claimExpiresAt =
      some (t + policy.timeoutMicros + leaseReserveMicros) := by
  simp only [Row.claim] at h ⊢
  split at h
  · cases h
  · rename_i hbudget
    rw [if_neg hbudget]

theorem Owned.change {fresh : Option Attempt} (h : Owned now as log) (hlog : LegalLog log)
    (hc : Legal log c) (hpermitted : Permitted now as c)
    (hfrom : ∀ new, fresh = some new → ∃ round : Round, round.sent ≤ now ∧ round.draw c = some new) :
    Owned now (as ++ fresh.toList) (log ++ [c]) := by
  have hissued : ∀ a ∈ as, a.generation ∈ drawn (log ++ [c]) ∧ a.id ∈ created (log ++ [c]) :=
    fun a ha => by simp [(h.issued a ha).1, (h.issued a ha).2]
  have hheld := fun a ha hactive => h.held_change hlog hc hpermitted (a := a) ha hactive
  cases fresh with
  | none =>
    rw [Option.toList_none, List.append_nil]
    exact ⟨hissued, h.unique, hheld, h.exclusive⟩
  | some new =>
    obtain ⟨round, hsent, hdraw⟩ := hfrom new rfl
    obtain ⟨row, policy, worker, t, g, hrow, hid, hdue, hfresh, rfl, hgeneration, hpolicy, hnew,
      hstage, hrunning⟩ := draw_eq_some hc hdraw
    obtain rfl : t = now := hpermitted.claimed worker policy t rfl
    have hother : ∀ a ∈ as, a.Active t → a.id ≠ new.id := fun a ha hactive heq =>
      (h.held a ha hactive).not_claimable hactive hrow (hid.trans heq.symm) hdue
    have hgenerations : ∀ a ∈ as, a.generation ≠ new.generation := fun a ha heq =>
      hfresh (hgeneration ▸ heq ▸ (h.issued a ha).1)
    simp only [Option.toList_some]
    refine ⟨fun a ha => ?_, ?_, fun a ha hactive => ?_, fun a ha b hb hactive hactive' heq => ?_⟩
    · rcases List.mem_append.mp ha with ha | ha
      · exact hissued a ha
      · obtain rfl := List.mem_singleton.mp ha
        have hcreated := (legal_log_identified hlog).created row hrow
        rw [hid] at hcreated
        simp [Change.draw, Row.claim, hgeneration, hcreated]
    · rw [List.map_append, List.map_singleton]
      refine List.nodup_append.mpr ⟨h.unique, List.nodup_singleton _, ?_⟩
      rintro x hx y hy rfl
      obtain ⟨a, ha, rfl⟩ := List.mem_map.mp hx
      exact hgenerations a ha (List.mem_singleton.mp hy)
    · rcases List.mem_append.mp ha with ha | ha
      · exact hheld a ha hactive
      · obtain rfl := List.mem_singleton.mp ha
        intro after hafter hafterId
        rcases (hc.mem_replay (legal_log_identified hlog)).mp hafter with ⟨-, hne⟩ | hsome
        · exact absurd (hafterId.trans hid.symm) hne
        · obtain rfl := Option.some.inj hsome
          refine ⟨hgeneration.symm, .inr ⟨hrunning, _, claim_leased hrunning, ?_⟩⟩
          rw [Attempt.deadline, hpolicy, hnew, Int.sub_add_cancel]
          exact Int.add_le_add_right (Int.add_le_add_right hsent _) _
    · rcases List.mem_append.mp ha with hold | hlast <;> rcases List.mem_append.mp hb with hold' | hlast'
      · exact h.exclusive a hold b hold' hactive hactive' heq
      · rw [List.mem_singleton.mp hlast'] at heq
        exact absurd heq (hother a hold hactive)
      · rw [List.mem_singleton.mp hlast] at heq
        exact absurd heq.symm (hother b hold' hactive')
      · rw [List.mem_singleton.mp hlast, List.mem_singleton.mp hlast']

theorem Permitted.more (h : Permitted now as c) (more : List Attempt) :
    Permitted now (as ++ more) c where
  claimed := h.claimed
  outcome g transition t hcause := (h.outcome g transition t hcause).imp_right
    fun ⟨a, ha, hspent⟩ => ⟨a, List.mem_append_left _ ha, hspent⟩

theorem Owned.changes {ws : List Change} (h : Owned now as log) (draw : Change → Option Attempt)
    (hlog : LegalLog (log ++ ws)) (hpermitted : ∀ c ∈ ws, Permitted now as c)
    (hdraw : ∀ c new, draw c = some new →
      ∃ round : Round, round.sent ≤ now ∧ round.draw c = some new) :
    Owned now (as ++ ws.filterMap draw) (log ++ ws) := by
  induction ws using List.reverseRecOn with
  | nil => simpa using h
  | append_singleton ws c ih =>
    rw [← List.append_assoc] at hlog
    obtain ⟨hbefore, hc⟩ := hlog.last
    have hsofar := ih hbefore fun d hd => hpermitted d (List.mem_append_left _ hd)
    have hnext := hsofar.change hbefore hc ((hpermitted c (by simp)).more _) (hdraw c)
    have hlast : (ws ++ [c]).filterMap draw = ws.filterMap draw ++ (draw c).toList := by
      rw [List.filterMap_append]
      cases hc : draw c <;> simp [hc]
    rwa [hlast, ← List.append_assoc, ← List.append_assoc]

theorem Owned.writes {ws : List Change} (h : Owned now as log) (hlog : LegalLog (log ++ ws))
    (hpermitted : ∀ c ∈ ws, Permitted now as c) : Owned now as (log ++ ws) := by
  have hlater := h.changes (fun _ => none) hlog hpermitted (fun _ _ heq => by cases heq)
  rwa [List.filterMap_none, List.append_nil] at hlater

section Database

variable {s t : JobsSystem.State} {P : Change → Prop}

structure Adds (P : Change → Prop) (s t : JobsSystem.State) : Prop where
  txs : t.txs = s.txs
  log : ∃ ws, t.log = s.log ++ ws ∧ ∀ c ∈ ws, P c

theorem Adds.refl (s : JobsSystem.State) : Adds P s s := ⟨rfl, [], by simp, by simp⟩

theorem Adds.record {sequence : ℕ} (hc : P c) :
    Adds P s (JobsSystem.State.record { s with sequence := sequence } c) :=
  ⟨rfl, [c], rfl, by simpa using hc⟩

theorem Adds.trans {u : JobsSystem.State} (h : Adds P s t) (k : Adds P t u) : Adds P s u := by
  obtain ⟨ws, hws, hP⟩ := h.log
  obtain ⟨vs, hvs, hQ⟩ := k.log
  refine ⟨k.txs.trans h.txs, ws ++ vs, by rw [hvs, hws, List.append_assoc], fun c hc => ?_⟩
  exact (List.mem_append.mp hc).elim (hP c) (hQ c)

theorem Adds.foldl {α : Type*} {f : JobsSystem.State → α → JobsSystem.State}
    (hf : ∀ s a, Adds P s (f s a)) (xs : List α) (s : JobsSystem.State) :
    Adds P s (xs.foldl f s) := by
  induction xs generalizing s with
  | nil => exact .refl s
  | cons x xs ih => exact (hf s x).trans (ih (f s x))

theorem claim_adds {registry : Registry} {available : String → ℕ} {requested : ℕ}
    {worker : WorkerId} {held order : List JobId}
    (h : JobsSystem.step s (.claim registry available requested worker now held order) = some t) :
    Adds (fun c => ∃ policy, c.cause = .claimed worker policy now) s t := by
  simp only [JobsSystem.step, JobsSystem.claim] at h
  split at h
  · cases h
    refine Adds.foldl (fun u id => ?_) order s
    simp only [JobsSystem.claimOne]
    repeat' split
    all_goals first | exact .refl u | exact .record ⟨_, rfl⟩
  · cases h

theorem outcome_adds {id : JobId} {g : ℕ} {transition : Transition}
    (h : JobsSystem.outcome s id g transition now = some t) :
    Adds (fun c => c.cause = .outcome g transition now) s t := by
  simp only [JobsSystem.outcome] at h
  repeat' split at h
  all_goals cases h
  all_goals first | exact .refl _ | exact .record rfl

theorem batch_adds {batch : List (JobId × ℕ)} (h : JobsSystem.completeBatch s batch now = some t) :
    Adds (fun c => ∃ g, c.cause = .outcome g .complete now) s t := by
  induction batch generalizing s with
  | nil =>
    cases h
    exact .refl _
  | cons entry rest ih =>
    rw [JobsSystem.completeBatch, List.foldlM_cons] at h
    obtain ⟨u, hu, ht⟩ := Option.bind_eq_some_iff.mp h
    have hfirst := outcome_adds hu
    obtain ⟨ws, hws, hP⟩ := hfirst.log
    exact Adds.trans ⟨hfirst.txs, ws, hws, fun c hc => ⟨_, hP c hc⟩⟩ (ih ht)

structure Plain (c : Change) : Prop where
  claimed : ∀ worker policy t, c.cause ≠ .claimed worker policy t
  outcome : ∀ g transition t, c.cause = .outcome g transition t → transition = .complete

theorem Plain.of_cause (hclaimed : ∀ worker policy t, c.cause ≠ .claimed worker policy t)
    (houtcome : ∀ g transition t, c.cause ≠ .outcome g transition t) : Plain c :=
  ⟨hclaimed, fun g transition t heq => absurd heq (houtcome g transition t)⟩

def PlainWrites (s : JobsSystem.State) : Prop :=
  ∀ x tx c, s.txs x = some tx → c ∈ tx.writes → Plain c

theorem PlainWrites.of_txs (h : PlainWrites s) (htxs : t.txs = s.txs) : PlainWrites t :=
  fun x tx c htx hc => h x tx c (htxs ▸ htx) hc

theorem PlainWrites.update {x : JobsSystem.TxId} {tx : Option JobsSystem.Tx} (h : PlainWrites s)
    (htx : ∀ new, tx = some new → ∀ c ∈ new.writes, Plain c)
    (htxs : t.txs = Function.update s.txs x tx) : PlainWrites t := by
  intro y new c hnew hc
  rw [htxs] at hnew
  by_cases hxy : y = x
  · subst hxy
    rw [Function.update_self] at hnew
    exact htx new hnew c hc
  · rw [Function.update_of_ne hxy] at hnew
    exact h y new c hnew hc

theorem PlainWrites.snoc {x : JobsSystem.TxId} {tx : JobsSystem.Tx} {d : Change} (h : PlainWrites s)
    (htx : s.txs x = some tx) (hd : Plain d) : ∀ c ∈ tx.writes ++ [d], Plain c := by
  intro c hc
  rcases List.mem_append.mp hc with hc | hc
  · exact h x tx c htx hc
  · rwa [List.mem_singleton.mp hc]

theorem Adds.plain (h : Adds Plain s t) (hwrites : PlainWrites s) :
    PlainWrites t ∧ ∃ ws, t.log = s.log ++ ws ∧ ∀ c ∈ ws, Plain c :=
  ⟨hwrites.of_txs h.txs, h.log⟩

theorem redrive_plain {x : JobsSystem.TxId} {target : RecoveryTarget} (hwrites : PlainWrites s)
    (h : JobsSystem.redrive s x target now = some t) : PlainWrites t ∧ t.log = s.log := by
  simp only [JobsSystem.redrive] at h
  split at h
  · cases h
  · rename_i tx htx
    repeat' split at h
    all_goals cases h
    · exact ⟨hwrites, rfl⟩
    · exact ⟨hwrites, rfl⟩
    · refine ⟨hwrites.update (fun new hnew => ?_) rfl, rfl⟩
      obtain rfl := Option.some.inj hnew
      exact fun c hc => hwrites x tx c htx hc
    · refine ⟨hwrites.update (x := x) (fun new hnew => ?_) (JobsSystem.reserve_txs _ _ _), ?_⟩
      · obtain rfl := Option.some.inj hnew
        exact hwrites.snoc htx (.of_cause (by simp) (by simp))
      · exact JobsSystem.reserve_log _ _ _

theorem discard_plain {x : JobsSystem.TxId} {target : RecoveryTarget} (hwrites : PlainWrites s)
    (h : JobsSystem.discard s x target = some t) : PlainWrites t ∧ t.log = s.log := by
  simp only [JobsSystem.discard] at h
  split at h
  · cases h
  · rename_i tx htx
    repeat' split at h
    all_goals cases h
    · exact ⟨hwrites, rfl⟩
    · exact ⟨hwrites, rfl⟩
    · refine ⟨hwrites.update (fun new hnew => ?_) rfl, rfl⟩
      obtain rfl := Option.some.inj hnew
      exact hwrites.snoc htx (.of_cause (by simp) (by simp))

theorem complete_in_tx_plain {x : JobsSystem.TxId} {id : JobId} {g : ℕ} (hwrites : PlainWrites s)
    (h : JobsSystem.completeInTx s x id g now = some t) : PlainWrites t ∧ t.log = s.log := by
  simp only [JobsSystem.completeInTx] at h
  split at h
  · cases h
  · rename_i tx htx
    repeat' split at h
    all_goals cases h
    · exact ⟨hwrites, rfl⟩
    · refine ⟨hwrites.update (fun new hnew => ?_) rfl, rfl⟩
      obtain rfl := Option.some.inj hnew
      refine hwrites.snoc htx ⟨by simp, fun g transition t heq => ?_⟩
      cases heq
      rfl
    · exact ⟨hwrites, rfl⟩

theorem close_plain {x : JobsSystem.TxId} (hwrites : PlainWrites s) : PlainWrites (s.close x) :=
  hwrites.update (fun _ hnew => by cases hnew) rfl

theorem foreign_plain {e : JobsSystem.Event} (hwrites : PlainWrites s) (he : foreign e = true)
    (h : JobsSystem.step s e = some t) :
    PlainWrites t ∧ ∃ ws, t.log = s.log ++ ws ∧ ∀ c ∈ ws, Plain c := by
  cases e with
  | claim | outcome | completeBatch => cases he
  | burn =>
    cases h
    exact ⟨hwrites, [], by simp, by simp⟩
  | enqueue job now =>
    simp only [JobsSystem.step, JobsSystem.enqueue] at h
    repeat' split at h
    all_goals cases h
    · exact ⟨hwrites, [], by simp, by simp⟩
    · exact (Adds.record (.of_cause (by simp) (by simp))).plain hwrites
  | retention ids now =>
    simp only [JobsSystem.step, JobsSystem.retention] at h
    split at h
    · cases h
      refine (Adds.foldl (fun u id => ?_) ids s).plain hwrites
      simp only [JobsSystem.retireOne]
      repeat' split
      all_goals first
        | exact .refl u
        | exact .record (.of_cause (by simp) (by simp))
    · cases h
  | «open» x =>
    simp only [JobsSystem.step, JobsSystem.openTx] at h
    split at h
    · cases h
      refine ⟨hwrites.update (fun new hnew => ?_) rfl, [], by simp, by simp⟩
      obtain rfl := Option.some.inj hnew
      exact fun c hc => by cases hc
    · cases h
  | redrive x target now =>
    obtain ⟨hplain, hlog⟩ := redrive_plain hwrites h
    exact ⟨hplain, [], by simp [hlog], by simp⟩
  | discard x target =>
    obtain ⟨hplain, hlog⟩ := discard_plain hwrites h
    exact ⟨hplain, [], by simp [hlog], by simp⟩
  | completeInTx x id g now =>
    obtain ⟨hplain, hlog⟩ := complete_in_tx_plain hwrites h
    exact ⟨hplain, [], by simp [hlog], by simp⟩
  | commit x =>
    simp only [JobsSystem.step, JobsSystem.commit] at h
    split at h
    · cases h
    · rename_i tx htx
      split at h
      · cases h
      · cases h
        refine ⟨fun y new c hnew hc => close_plain hwrites y new c (x := x) hnew hc, tx.writes, rfl, ?_⟩
        exact fun c hc => hwrites x tx c htx hc
  | rollback x =>
    simp only [JobsSystem.step, JobsSystem.rollback] at h
    split at h
    · cases h
    · cases h
      exact ⟨close_plain hwrites, [], by simp [JobsSystem.State.close], by simp⟩

end Database

structure Inv (w : World) : Prop where
  coupled : JobsSystem.Coupled w.db
  plain : PlainWrites w.db
  owned : Owned w.now w.attempts w.db.log
  sent : ∀ round ∈ w.rounds, round.sent ≤ w.now
  messages : ∀ m ∈ w.messages, ∃ a ∈ w.attempts, a.generation = m.generation ∧ a.stage.spent = true
  alive : ∀ a ∈ w.attempts, a.stage.alive = true → w.now < a.deadline + cancelMarginMicros

/-- What a supervisor's move may do to its attempt: it is spent for good, and only an attempt that is
not late for its deadline starts. -/
structure Advances (now : Time) (old new : Attempt) : Prop where
  same : new.id = old.id ∧ new.generation = old.generation ∧ new.deadline = old.deadline
  spent : old.stage.spent = true → new.stage.spent = true
  alive : new.stage.alive = true → old.stage.alive = true ∨ now < old.deadline

theorem Advances.active (h : Advances now a b) (hactive : b.Active now) : a.Active now := by
  refine ⟨?_, h.same.2.2 ▸ hactive.2⟩
  cases hspent : a.stage.spent with
  | false => rfl
  | true => exact (h.spent hspent).symm.trans hactive.1

theorem supervise_advances {stage : Stage} (h : w.supervise formatDuration a e = some stage) :
    Advances w.now a { a with stage := stage } := by
  have hended : ∀ ended : Ended, (a.outcome formatDuration ended).spent = true := fun _ => rfl
  have hdead : ∀ ended : Ended, (a.outcome formatDuration ended).alive = false := fun _ => rfl
  have hdone : stage.spent = true → stage.alive = false → Advances w.now a { a with stage := stage } :=
    fun hspent hdead => ⟨⟨rfl, rfl, rfl⟩, fun _ => hspent, fun halive => by
      rw [hdead] at halive
      cases halive⟩
  cases e with
  | start i refused =>
    simp only [World.supervise] at h
    split at h
    · rename_i hdrawn
      split at h
      · cases h
        exact hdone rfl rfl
      · rename_i hexpired
        split at h
        · cases h
          exact hdone (hended _) (hdead _)
        · cases h
          refine ⟨⟨rfl, rfl, rfl⟩, fun hspent => ?_, fun _ => .inr ?_⟩
          · rw [hdrawn] at hspent
            cases hspent
          · rw [World.expired, Bool.or_eq_true, not_or, decide_eq_true_eq] at hexpired
            exact Int.not_le.mp hexpired.1
    · cases h
  | finish i result | join i result =>
    simp only [World.supervise] at h
    split at h <;> cases h
    exact hdone (hended _) (hdead _)
  | cancel i reason =>
    simp only [World.supervise] at h
    split at h
    · rename_i hrunning
      split at h
      · cases h
        refine ⟨⟨rfl, rfl, rfl⟩, fun hspent => ?_, fun _ => .inl ?_⟩
        · rw [hrunning] at hspent
          cases hspent
        · rw [hrunning]
          rfl
      · cases h
    · cases h
  | destroy i =>
    simp only [World.supervise] at h
    split at h
    · split at h
      · cases h
        exact hdone (by split <;> rfl) (by split <;> rfl)
      · cases h
    · cases h
  | abandon i =>
    cases h
    exact hdone rfl rfl
  | _ => cases h

theorem Owned.set {i : ℕ} (h : Owned now as log) (hi : as[i]? = some a) (hmove : Advances now a b) :
    Owned now (as.set i b) log := by
  have hmem := List.mem_of_getElem? hi
  have hgenerations : (as.set i b).map Attempt.generation = as.map Attempt.generation := by
    obtain ⟨hlt, hget⟩ := List.getElem?_eq_some_iff.mp hi
    have hlt' : i < (as.map Attempt.generation).length := by simpa using hlt
    have hat : (as.map Attempt.generation)[i] = a.generation := by rw [List.getElem_map, hget]
    rw [List.map_set, hmove.same.2.1, ← hat, List.set_getElem_self]
  have hunique : ((as.set i b).map Attempt.generation).Nodup := hgenerations ▸ h.unique
  -- Each attempt of the new list comes from one of the old list.
  have hfrom : ∀ x ∈ as.set i b, ∃ y ∈ as, x.id = y.id ∧ x.generation = y.generation ∧
      x.deadline = y.deadline ∧ (x.Active now → y.Active now) := by
    intro x hx
    rcases List.mem_or_eq_of_mem_set hx with hx | rfl
    · exact ⟨x, hx, rfl, rfl, rfl, id⟩
    · exact ⟨a, hmem, hmove.same.1, hmove.same.2.1, hmove.same.2.2, hmove.active⟩
  refine ⟨fun x hx => ?_, hunique, fun x hx hactive => ?_, fun x hx y hy hactive hactive' heq => ?_⟩
  · obtain ⟨y, hy, hid, hgeneration, -, -⟩ := hfrom x hx
    rw [hid, hgeneration]
    exact h.issued y hy
  · obtain ⟨y, hy, hid, hgeneration, hdeadline, hback⟩ := hfrom x hx
    intro row hrow hrid
    rw [hgeneration, hdeadline]
    exact h.held y hy (hback hactive) row hrow (hrid.trans hid)
  · obtain ⟨x', hx', hxid, hxg, -, hxback⟩ := hfrom x hx
    obtain ⟨y', hy', hyid, hyg, -, hyback⟩ := hfrom y hy
    have hsame := h.exclusive x' hx' y' hy' (hxback hactive) (hyback hactive')
      (hxid.symm.trans (heq.trans hyid))
    refine List.inj_on_of_nodup_map hunique hx hy ?_
    rw [hxg, hyg, hsame]

theorem Owned.later {later : Time} (h : Owned now as log) (hle : now ≤ later) :
    Owned later as log := by
  have hback : ∀ a : Attempt, a.Active later → a.Active now := fun a hactive =>
    ⟨hactive.1, Int.lt_of_le_of_lt hle hactive.2⟩
  exact ⟨h.issued, h.unique, fun a ha hactive => h.held a ha (hback a hactive),
    fun a ha b hb hactive hactive' => h.exclusive a ha b hb (hback a hactive) (hback b hactive')⟩

theorem Inv.write {db : JobsSystem.State} {ws : List Change} (h : Inv w)
    (hcoupled : JobsSystem.Coupled db) (hplain : PlainWrites db) (hlog : db.log = w.db.log ++ ws)
    (hpermitted : ∀ c ∈ ws, Permitted w.now w.attempts c) : Inv { w with db := db } where
  coupled := hcoupled
  plain := hplain
  owned := by
    have hlegal := hcoupled.legal
    rw [hlog] at hlegal
    show Owned w.now w.attempts db.log
    rw [hlog]
    exact h.owned.writes hlegal hpermitted
  sent := h.sent
  messages := h.messages
  alive := h.alive

theorem Inv.outcome {m : Message} {drawn : ℤ} {db : JobsSystem.State} (h : Inv w)
    (hm : m ∈ w.messages)
    (hstep : JobsSystem.step w.db
      (.outcome m.id m.generation (m.outcome.statement drawn) w.now) = some db) :
    Inv { w with db := db } := by
  have hadds := outcome_adds hstep
  obtain ⟨ws, hlog, hcause⟩ := hadds.log
  refine h.write (JobsSystem.step_coupled h.coupled hstep) (h.plain.of_txs hadds.txs) hlog
    fun c hc => ⟨fun worker policy t heq => ?_, fun g transition t heq => .inr ?_⟩ <;>
    rw [hcause c hc] at heq <;> cases heq
  exact h.messages m hm

theorem Inv.batch {batch : List (JobId × ℕ)} {db : JobsSystem.State} (h : Inv w)
    (hstep : JobsSystem.step w.db (.completeBatch batch w.now) = some db) :
    Inv { w with db := db } := by
  have hadds := batch_adds hstep
  obtain ⟨ws, hlog, hcause⟩ := hadds.log
  refine h.write (JobsSystem.step_coupled h.coupled hstep) (h.plain.of_txs hadds.txs) hlog
    fun c hc => ?_
  obtain ⟨g, hc'⟩ := hcause c hc
  refine ⟨fun worker policy t heq => ?_, fun g transition t heq => .inl ?_⟩ <;>
    rw [hc'] at heq <;> cases heq
  rfl

theorem Inv.foreign {event : JobsSystem.Event} {db : JobsSystem.State} (h : Inv w)
    (hforeign : foreign event = true) (hstep : JobsSystem.step w.db event = some db) :
    Inv { w with db := db } := by
  obtain ⟨hplain, ws, hlog, hcause⟩ := foreign_plain h.plain hforeign hstep
  exact h.write (JobsSystem.step_coupled h.coupled hstep) hplain hlog fun c hc =>
    ⟨fun worker policy t heq => absurd heq ((hcause c hc).claimed worker policy t),
      fun g transition t heq => .inl ((hcause c hc).outcome g transition t heq)⟩

theorem Inv.claim {k : ℕ} {round : Round} {available : String → ℕ} {requested : ℕ}
    {held order : List JobId} {db : JobsSystem.State} (h : Inv w) (hk : w.rounds[k]? = some round)
    (hstep : JobsSystem.step w.db
      (.claim round.registry available requested round.worker w.now held order) = some db) :
    Inv { w with
      db := db
      rounds := w.rounds.eraseIdx k
      attempts := w.attempts ++ (db.log.drop w.db.log.length).filterMap round.draw } := by
  have hadds := claim_adds hstep
  obtain ⟨ws, hlog, hcause⟩ := hadds.log
  have hcoupled := JobsSystem.step_coupled h.coupled hstep
  have hlegal := hcoupled.legal
  rw [hlog] at hlegal
  have hpermitted : ∀ c ∈ ws, Permitted w.now w.attempts c := by
    intro c hc
    obtain ⟨policy, hc'⟩ := hcause c hc
    refine ⟨fun worker policy t heq => ?_, fun g transition t heq => ?_⟩ <;>
      rw [hc'] at heq <;> cases heq
    rfl
  have howned := h.owned.changes round.draw hlegal hpermitted fun c new hdraw =>
    ⟨round, h.sent round (List.mem_of_getElem? hk), hdraw⟩
  have hdrop : db.log.drop w.db.log.length = ws := by rw [hlog, List.drop_left]
  refine ⟨hcoupled, h.plain.of_txs hadds.txs, ?_, fun r hr => h.sent r (List.mem_of_mem_eraseIdx hr),
    fun m hm => ?_, fun a ha halive => ?_⟩
  · show Owned w.now (w.attempts ++ (db.log.drop w.db.log.length).filterMap round.draw) db.log
    rwa [hdrop, hlog]
  · obtain ⟨a, ha, hkept⟩ := h.messages m hm
    exact ⟨a, List.mem_append_left _ ha, hkept⟩
  · rcases List.mem_append.mp ha with ha | hnew
    · exact h.alive a ha halive
    · obtain ⟨c, -, hdraw⟩ := List.mem_filterMap.mp hnew
      rw [draw_drawn hdraw] at halive
      cases halive

theorem Inv.move {i : ℕ} (h : Inv w) (hmove : w.move formatDuration i e = some w') : Inv w' := by
  simp only [World.move] at hmove
  split at hmove
  · cases hmove
  · rename_i a hi
    obtain ⟨stage, hstage, rfl⟩ := Option.map_eq_some_iff.mp hmove
    have hadvances := supervise_advances hstage
    refine ⟨h.coupled, h.plain, h.owned.set hi hadvances, h.sent, fun m hm => ?_,
      fun x hx halive => ?_⟩
    · obtain ⟨x, hx, hgeneration, hspent⟩ := h.messages m hm
      obtain ⟨k, hk⟩ := List.mem_iff_getElem?.mp hx
      by_cases hki : k = i
      · subst hki
        obtain rfl := Option.some.inj (hi.symm.trans hk)
        exact ⟨_, List.mem_set (List.getElem?_eq_some_iff.mp hi).1 _, hgeneration,
          hadvances.spent hspent⟩
      · refine ⟨x, List.mem_of_getElem? (i := k) ?_, hgeneration, hspent⟩
        rwa [List.getElem?_set_ne (Ne.symm hki)]
    · rcases List.mem_or_eq_of_mem_set hx with hx | rfl
      · exact h.alive x hx halive
      · have hdeadline : w.now < a.deadline + cancelMarginMicros := by
          rcases hadvances.alive halive with hbefore | hearly
          · exact h.alive a (List.mem_of_getElem? hi) hbefore
          · exact Int.lt_of_lt_of_le hearly (Int.le_add_of_nonneg_right (by decide))
        exact hdeadline

theorem step_inv (h : Inv w) (hstep : ((leases formatDuration).restrict punctual).step w e = some w') :
    Inv w' := by
  obtain ⟨hpunctual, hstep⟩ := System.restrict_step hstep
  simp only [leases, step] at hstep
  cases e with
  | advance later =>
    simp only at hstep
    split at hstep
    · rename_i hle
      cases hstep
      refine ⟨h.coupled, h.plain, h.owned.later hle, fun round hround =>
        Int.le_trans (h.sent round hround) hle, h.messages, fun a ha halive => ?_⟩
      have hintime := List.all_eq_true.mp hpunctual a ha
      rw [halive] at hintime
      simpa using hintime
    · cases hstep
  | send worker registry =>
    cases hstep
    refine ⟨h.coupled, h.plain, h.owned, fun round hround => ?_, h.messages, h.alive⟩
    rcases List.mem_append.mp hround with hround | hlast
    · exact h.sent round hround
    · obtain rfl := List.mem_singleton.mp hlast
      exact Int.le_refl _
  | claim k available requested held order =>
    simp only at hstep
    split at hstep
    · cases hstep
    · rename_i round hk
      obtain ⟨db, hdb, rfl⟩ := Option.map_eq_some_iff.mp hstep
      exact h.claim hk hdb
  | start | finish | cancel | join | destroy | abandon => exact h.move hstep
  | persist i =>
    simp only at hstep
    repeat' split at hstep
    all_goals cases hstep
    rename_i a hi _ outcome hended _
    refine ⟨h.coupled, h.plain, h.owned, h.sent, fun m hm => ?_, h.alive⟩
    rcases List.mem_append.mp hm with hm | hlast
    · exact h.messages m hm
    · rw [List.mem_singleton.mp hlast]
      exact ⟨a, List.mem_of_getElem? hi, rfl, by rw [hended]; rfl⟩
  | deliver k drawn =>
    simp only at hstep
    split at hstep
    · cases hstep
    · rename_i m hm
      obtain ⟨db, hdb, rfl⟩ := Option.map_eq_some_iff.mp hstep
      exact h.outcome (List.mem_of_getElem? hm) hdb
  | deliverBatch batch =>
    simp only at hstep
    split at hstep
    · obtain ⟨db, hdb, rfl⟩ := Option.map_eq_some_iff.mp hstep
      exact h.batch hdb
    · cases hstep
  | force worker budget =>
    cases hstep
    exact ⟨h.coupled, h.plain, h.owned, h.sent, h.messages, h.alive⟩
  | database event =>
    simp only at hstep
    split at hstep
    · rename_i hforeign
      obtain ⟨db, hdb, rfl⟩ := Option.map_eq_some_iff.mp hstep
      exact h.foreign hforeign hdb
    · cases hstep

theorem initial_inv : Inv initial where
  coupled := JobsSystem.reachable_coupled System.reachable_initial
  plain x tx c htx := by cases htx
  owned := ⟨by simp [initial], by simp [initial], by simp [initial], by simp [initial]⟩
  sent := by simp [initial]
  messages := by simp [initial]
  alive := by simp [initial]

theorem reachable_inv (h : ((leases formatDuration).restrict punctual).Reachable w) : Inv w :=
  h.induction (P := Inv) initial_inv fun _ _ _ _ hw hstep => step_inv hw hstep

/-- Every timer of a supervisor is clamped to the local deadline. -/
theorem supervise_due {stage : Stage} (h : w.supervise formatDuration a e = some stage) :
    ∀ due ∈ stage.due, due ≤ a.deadline := by
  cases e with
  | start i refused =>
    simp only [World.supervise] at h
    repeat' split at h
    all_goals cases h
    · nofun
    · nofun
    · rintro due ⟨⟩
      exact Int.min_le_right _ _
  | cancel i reason =>
    simp only [World.supervise] at h
    repeat' split at h
    all_goals cases h
    rintro due ⟨⟩
    exact Int.min_le_right _ _
  | finish i result | join i result =>
    simp only [World.supervise] at h
    split at h <;> cases h
    nofun
  | destroy i =>
    simp only [World.supervise] at h
    repeat' split at h
    all_goals cases h
    all_goals nofun
  | abandon i =>
    cases h
    nofun
  | _ => cases h

/-- An attempt is an old one, a new one, or one that its supervisor has moved. -/
theorem step_attempts (hstep : step formatDuration w e = some w') (ha : a ∈ w'.attempts) :
    a ∈ w.attempts ∨ a.stage = .drawn ∨
      ∃ b stage, w.supervise formatDuration b e = some stage ∧ a = { b with stage := stage } := by
  have hmove : ∀ i, w.move formatDuration i e = some w' → a ∈ w.attempts ∨ a.stage = .drawn ∨
      ∃ b stage, w.supervise formatDuration b e = some stage ∧ a = { b with stage := stage } := by
    intro i hmove
    simp only [World.move] at hmove
    split at hmove
    · cases hmove
    · rename_i b hi
      obtain ⟨stage, hstage, rfl⟩ := Option.map_eq_some_iff.mp hmove
      rcases List.mem_or_eq_of_mem_set ha with ha | rfl
      · exact .inl ha
      · exact .inr (.inr ⟨b, stage, hstage, rfl⟩)
  cases e with
  | start | finish | cancel | join | destroy | abandon => exact hmove _ hstep
  | claim k available requested held order =>
    simp only [step] at hstep
    split at hstep
    · cases hstep
    · obtain ⟨db, -, rfl⟩ := Option.map_eq_some_iff.mp hstep
      rcases List.mem_append.mp ha with ha | hnew
      · exact .inl ha
      · obtain ⟨c, -, hdraw⟩ := List.mem_filterMap.mp hnew
        exact .inr (.inl (draw_drawn hdraw))
  | send | force =>
    cases hstep
    exact .inl ha
  | advance | persist =>
    simp only [step] at hstep
    repeat' split at hstep
    all_goals cases hstep
    exact .inl ha
  | deliver | deliverBatch | database =>
    simp only [step] at hstep
    split at hstep
    all_goals first | cases hstep | skip
    obtain ⟨db, -, rfl⟩ := Option.map_eq_some_iff.mp hstep
    exact .inl ha

theorem due_le_deadline (h : (leases formatDuration).Reachable w) :
    ∀ a ∈ w.attempts, ∀ due ∈ a.stage.due, due ≤ a.deadline := by
  refine h.induction (P := fun w : World => ∀ a ∈ w.attempts, ∀ due ∈ a.stage.due, due ≤ a.deadline)
    (fun a ha => by cases ha) ?_
  intro s e t _ hs hstep a ha
  rcases step_attempts hstep ha with hold | hdrawn | ⟨b, stage, hstage, rfl⟩
  · exact hs a hold
  · rw [hdrawn]
    nofun
  · exact supervise_due (a := b) hstage

theorem alive_due {stage : Stage} (h : stage.alive = true) : ∃ due, stage.due = some due := by
  cases stage with
  | running deadline => exact ⟨deadline, rfl⟩
  | cancelled reason grace => exact ⟨grace, rfl⟩
  | _ => cases h

/-- Timers that are late by less than the margin keep every supervisor in time. -/
theorem reachable_punctual (h : ((leases formatDuration).restrict prompt).Reachable w) :
    ((leases formatDuration).restrict punctual).Reachable w := by
  refine h.widen fun s e hs hprompt => ?_
  cases e with
  | advance now =>
    refine List.all_eq_true.mpr fun a ha => ?_
    cases halive : a.stage.alive with
    | false => rfl
    | true =>
      obtain ⟨due, hdue⟩ := alive_due halive
      have htimer := List.all_eq_true.mp hprompt a ha
      rw [hdue, Option.all_some, decide_eq_true_eq] at htimer
      have hle := due_le_deadline hs a ha due hdue
      rw [Bool.not_true, Bool.false_or, decide_eq_true_eq]
      exact Int.lt_of_lt_of_le htimer (Int.add_le_add_right hle _)
  | _ => rfl

theorem Inv.active (h : Inv w) (ha : a ∈ w.attempts) (halive : a.stage.alive = true) :
    a.Active w.now := by
  refine ⟨?_, h.alive a ha halive⟩
  cases hstage : a.stage <;> simp_all [Stage.alive, Stage.spent]

/-- While a handler runs, no other handler of its job runs at any worker, and the job's row is
completed or leased to its claim until after now. -/
theorem handlers_exclusive (h : ((leases formatDuration).restrict punctual).Reachable w) :
    (∀ (i j : ℕ) (a b : Attempt), w.attempts[i]? = some a → w.attempts[j]? = some b → a.stage.alive = true →
      b.stage.alive = true → a.id = b.id → i = j) ∧
    ∀ a ∈ w.attempts, a.stage.alive = true → ∀ row ∈ w.db.rows, row.id = a.id →
      row.claimGeneration = a.generation ∧ (row.state = .completed ∨
        row.state = .running ∧ ∃ expires, row.claimExpiresAt = some expires ∧ w.now < expires) := by
  have hinv := reachable_inv h
  refine ⟨fun i j a b hi hj halive halive' hid => ?_, fun a ha halive row hrow hid => ?_⟩
  · have ha := List.mem_of_getElem? hi
    have hb := List.mem_of_getElem? hj
    have heq := hinv.owned.exclusive a ha b hb (hinv.active ha halive) (hinv.active hb halive') hid
    have hlt : i < (w.attempts.map Attempt.generation).length := by
      simpa using (List.getElem?_eq_some_iff.mp hi).1
    refine (List.getElem?_inj hlt hinv.owned.unique).mp ?_
    rw [List.getElem?_map, List.getElem?_map, hi, hj, heq]
  · have hactive := hinv.active ha halive
    rw [hinv.coupled.rows] at hrow
    obtain ⟨hgeneration, hstate⟩ := hinv.owned.held a ha hactive row hrow hid
    exact ⟨hgeneration, hstate.imp_right fun ⟨hrunning, expires, hexpires, hle⟩ =>
      ⟨hrunning, expires, hexpires, Int.lt_of_lt_of_le hactive.2 hle⟩⟩

/-- The handler of worker 8 outlives its timeout and is destroyed, its lease expires before the
retry is delivered, and worker 9 runs the job. -/
def overtakenEvents : List Event :=
  [.database (.enqueue ⟨1, "mail", "null", none, 0, none, none⟩ 0),
    .send 8 JobsRowInvariant.mailRegistry, .claim 0 (fun _ => 0) 4 [] [1], .start 0 none,
    .advance 1000000, .cancel 0 .timeout, .advance 1100000, .destroy 0, .persist 0,
    .advance 61000000, .send 9 JobsRowInvariant.mailRegistry, .claim 0 (fun _ => 0) 4 [] [1],
    .start 1 none, .deliver 0 16000000]

def wholeSeconds (micros : ℕ) : String := toString (micros / 1000000) ++ "s"

theorem handlers_exclusive_overtaken : ∃ w,
    ((leases wholeSeconds).restrict prompt).run initial overtakenEvents = some w ∧
    w.attempts.map (fun a => (a.id, a.generation, a.worker, a.stage.alive)) =
      [(1, 1, 8, false), (1, 2, 9, true)] ∧
    (∀ (i j : ℕ) (a b : Attempt), w.attempts[i]? = some a → w.attempts[j]? = some b →
      a.stage.alive = true → b.stage.alive = true → a.id = b.id → i = j) := by
  have hrun : ∃ w, ((leases wholeSeconds).restrict prompt).run initial overtakenEvents = some w ∧
      w.attempts.map (fun a => (a.id, a.generation, a.worker, a.stage.alive)) =
        [(1, 1, 8, false), (1, 2, 9, true)] :=
    ⟨_, rfl, by decide⟩
  obtain ⟨w, hw, hattempts⟩ := hrun
  exact ⟨w, hw, hattempts, (handlers_exclusive (reachable_punctual (System.reachable_of_run hw))).1⟩

end JobsLeases
