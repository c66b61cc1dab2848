import ServiceTemplate.HealthLatches

/-! A reader that watches readiness: it reads the verdict and then waits for an unseen publication
or for the stale edge of the current check. The watch channel gives every publication a new
version; the publisher, the clock and the reader take their steps in any order. -/
namespace HealthWatch

open TransitionSystem
open HealthReadiness
open HealthLatches

def isReady (p : RefreshPolicy) (s : State) (t : ℕ) : Bool := (verdict p s t).isOk

/-- Whether the channel notifies its readers of the operation. -/
def publishes (p : RefreshPolicy) (s : State) (e : HealthReadiness.Event) : Bool :=
  match e.op with
  | .refresh observed => (refresh p s observed e.instant).modified
  | .startDrain => (startDrain p s e.instant).modified
  | .armProgress => (armProgress p s e.instant).modified
  | .progressLoss => (progressLoss p s e.instant).modified
  | .stopProgress => (stopProgress p s e.instant).modified
  | .verdict => false

/-- The check that can still go stale: draining is monotone and never does. -/
def checkedAt (s : State) : Option ℕ :=
  (s.lastCheck.filter fun _ => !s.draining).map Check.instant

/-- One nanosecond past the bound, once for each check. -/
def staleAt (p : RefreshPolicy) (s : State) (staleEdgeFor : Option ℕ) : Option ℕ :=
  match checkedAt s with
  | some stamp => if staleEdgeFor = some stamp then none else some (stamp + p.staleAfter + 1)
  | none => none

/-- Where the reader is. `unseen` and `current` are inside the wait, before its suspension. -/
inductive Phase where
  | absent
  | idle
  | read
  | unseen
  | current
  | waiting (checked deadline : Option ℕ)
  | ended
  deriving DecidableEq, Repr

/-- The reader; `readOk` and `beganOk` record the readiness at its last verdict and at the start
of its last wait, and no step reads them. -/
structure Reader where
  seen : ℕ
  staleEdgeFor : Option ℕ
  phase : Phase
  readOk : Bool
  beganOk : Bool
  deriving DecidableEq, Repr

structure World where
  now : ℕ
  state : State
  version : ℕ
  owned : Bool
  reader : Reader
  deriving DecidableEq, Repr

inductive Event where
  | advance (now : ℕ)
  | publisher (op : Op)
  | dropOwner
  /-- `Readiness::reader`: a new reader has seen the current version. -/
  | subscribe
  | verdict
  /-- The unseen-version check that starts a wait. -/
  | hasChanged
  /-- Reads the state and arms the timer, if there is one to arm. -/
  | arm
  /-- Completions: an unseen version, the end of the channel, the timer. -/
  | changed
  | closed
  | timer
  deriving DecidableEq, Repr

def Reader.enter (r : Reader) (phase : Phase) : Reader := { r with phase }

def World.enter (w : World) (phase : Phase) : World := { w with reader := w.reader.enter phase }

/-- The reader's step; the state it reads is the channel's current one. -/
def readerStep (p : RefreshPolicy) (w : World) (e : Event) : Option World :=
  match e, w.reader.phase with
  | .subscribe, .absent =>
    if w.owned then some { w with reader := ⟨w.version, none, .idle, false, false⟩ } else none
  | .verdict, .idle =>
    some { w with reader := { w.reader with phase := .read, readOk := isReady p w.state w.now } }
  | .hasChanged, .read =>
    let beganOk := isReady p w.state w.now
    let phase := if !w.owned then .ended else if w.version ≠ w.reader.seen then .unseen else .current
    some { w with reader := { w.reader with phase, beganOk } }
  | .arm, .current => some (w.enter (.waiting (checkedAt w.state) (staleAt p w.state w.reader.staleEdgeFor)))
  | .changed, .unseen => some { w with reader := { w.reader with seen := w.version, phase := .idle } }
  | .changed, .waiting _ _ =>
    if w.version ≠ w.reader.seen then
      some { w with reader := { w.reader with seen := w.version, phase := .idle } }
    else none
  | .closed, .waiting _ _ =>
    if w.version = w.reader.seen ∧ !w.owned then some (w.enter .ended) else none
  | .timer, .waiting checked (some deadline) =>
    if deadline ≤ w.now then
      some { w with reader := { w.reader with staleEdgeFor := checked, phase := .idle } }
    else none
  | _, _ => none

def step (p : RefreshPolicy) (w : World) (e : Event) : Option World :=
  match e with
  | .advance now => if w.now ≤ now then some { w with now } else none
  | .publisher op =>
    if w.owned then
      some { w with
        state := (perform p w.state ⟨w.now, op⟩).1
        version := if publishes p w.state ⟨w.now, op⟩ then w.version + 1 else w.version }
    else none
  | .dropOwner => some { w with owned := false }
  | e => readerStep p w e

def watch (p : RefreshPolicy) : System World Event :=
  ⟨⟨0, .new, 0, true, ⟨0, none, .absent, false, false⟩⟩, step p⟩

def Pending (p : RefreshPolicy) (w : World) : Prop :=
  (∃ checked deadline, w.reader.phase = .waiting checked deadline) ∧
    ∀ e ∈ [Event.changed, .closed, .timer], (watch p).step w e = none

variable {p : RefreshPolicy}

structure SameView (s s' : State) : Prop where
  draining : s'.draining = s.draining
  lastCheck : s'.lastCheck = s.lastCheck
  loss : s.draining = true ∨ s'.progressLoss = s.progressLoss

theorem SameView.refl (s : State) : SameView s s := ⟨rfl, rfl, .inr rfl⟩

theorem SameView.ready {s s' : State} (h : SameView s s') (t : ℕ) :
    isReady p s' t = isReady p s t := by
  rw [Bool.eq_iff_iff, isReady, isReady, isOk_iff, isOk_iff, verdict_ok_iff, verdict_ok_iff,
    h.draining, h.lastCheck]
  rcases h.loss with hdrain | hloss
  · simp [hdrain]
  · rw [hloss]

theorem SameView.checked {s s' : State} (h : SameView s s') : checkedAt s' = checkedAt s := by
  simp only [checkedAt, h.lastCheck, h.draining]

theorem expire_silent {s : State} {now : ℕ}
    (h : (s.expireProgress now p.staleAfter).2.isSome = false) :
    (s.expireProgress now p.staleAfter).1 = s := by
  rcases expire_cases s now p.staleAfter with ⟨hexpire, -⟩ | ⟨check, -, -, -, hexpire⟩
  · rw [hexpire]
  · rw [hexpire] at h
    cases h

theorem start_drain_silent {s : State} {now : ℕ} (h : (startDrain p s now).modified = false) :
    SameView s (startDrain p s now).state := by
  simp only [startDrain, stop_eq, Bool.or_eq_false_iff, Bool.not_eq_false'] at h
  exact ⟨by simp [startDrain, h.1], by simp [startDrain, stop_eq], .inl h.1⟩

theorem arm_silent {s : State} {now : ℕ} (hloss : s.progressLoss = none)
    (h : (arm p s now).modified = false) : SameView s (arm p s now).state := by
  simp only [arm, Bool.or_eq_false_iff] at h
  have hkept := expire_silent h.2
  simp only [arm, hkept]
  exact ⟨rfl, rfl, .inr hloss.symm⟩

theorem arm_progress_silent {s : State} {now : ℕ} (h : (armProgress p s now).modified = false) :
    SameView s (armProgress p s now).state := by
  simp only [armProgress] at h ⊢
  split at h
  · rename_i hclosed
    rw [if_pos hclosed]
    exact .refl s
  · rename_i hopen
    rw [if_neg hopen]
    split at h
    · exact .refl s
    · exact .refl s
    · rename_i check hloss hcheck
      cases hverdict : check.verdict with
      | error reason => exact .refl s
      | ok u =>
        rw [hverdict] at h
        exact arm_silent hloss h

theorem stop_progress_silent {s : State} {now : ℕ} (h : (stopProgress p s now).modified = false) :
    SameView s (stopProgress p s now).state := by
  simp only [stopProgress, decide_eq_false_iff_not, not_or] at h
  have hkept : s.expireProgress now p.staleAfter = (s, none) := by
    rcases expire_cases s now p.staleAfter with ⟨hexpire, -⟩ | ⟨check, harmed, -⟩
    · exact hexpire
    · exact absurd harmed h.2
  refine ⟨by simp [stopProgress, stop_eq], by simp [stopProgress, stop_eq], .inr ?_⟩
  simp only [stopProgress, stop_eq, hkept]
  rcases s with ⟨draining, lastCheck, progress⟩
  cases progress with
  | unarmed => exact absurd rfl h.1
  | armed => exact absurd rfl h.2
  | expired loss => rfl
  | stopped => rfl

/-- An operation that publishes nothing changes nothing a verdict reads. -/
theorem perform_silent {s : State} {e : HealthReadiness.Event} (h : publishes p s e = false) :
    SameView s (perform p s e).1 := by
  rcases e with ⟨now, op⟩
  cases op with
  | refresh observed => cases h
  | startDrain => exact start_drain_silent h
  | armProgress => exact arm_progress_silent h
  | progressLoss =>
    have hkept := expire_silent h
    simp only [perform, progressLoss, hkept]
    exact .refl s
  | stopProgress => exact stop_progress_silent h
  | verdict => exact .refl s

theorem checked_at_eq_some {s : State} {stamp : ℕ} :
    checkedAt s = some stamp ↔
      s.draining = false ∧ ∃ check, s.lastCheck = some check ∧ check.instant = stamp := by
  simp only [checkedAt]
  cases s.lastCheck with
  | none => simp
  | some check => cases hd : s.draining <;> simp [Option.filter]

/-- Every edge delivered so far was behind the instant `r`. -/
def EdgePassed (p : RefreshPolicy) (staleEdgeFor : Option ℕ) (r : ℕ) : Prop :=
  ∀ stamp ∈ staleEdgeFor, stamp + p.staleAfter < r

theorem ready_stable {s : State} {edge : Option ℕ} {r t : ℕ} (hedge : EdgePassed p edge r)
    (hrt : r ≤ t) (hdeadline : ∀ d ∈ staleAt p s edge, t < d) :
    isReady p s t = isReady p s r := by
  rw [Bool.eq_iff_iff, isReady, isReady, isOk_iff, isOk_iff, verdict_ok_iff, verdict_ok_iff]
  refine and_congr_right fun hserving => and_congr_right fun _ => exists_congr fun check =>
    and_congr_right fun hcheck => and_congr_left fun _ => ?_
  have hstamp : checkedAt s = some check.instant := checked_at_eq_some.mpr ⟨hserving, check, hcheck, rfl⟩
  by_cases hdelivered : edge = some check.instant
  · have hpassed := hedge check.instant hdelivered
    omega
  · have harmed : staleAt p s edge = some (check.instant + p.staleAfter + 1) := by
      simp [staleAt, hstamp, hdelivered]
    have hbefore := hdeadline _ harmed
    omega

def Phase.verdictRead : Phase → Bool
  | .read | .unseen | .current | .waiting _ _ => true
  | _ => false

def Phase.inWait : Phase → Bool
  | .unseen | .current | .waiting _ _ => true
  | _ => false

theorem Phase.not_in_wait {phase : Phase} (h : phase.verdictRead = false) :
    phase.inWait = false := by
  cases phase <;> first | rfl | cases h

/-- While the reader has seen the current version, `ok` was the readiness of the current state at
an instant behind every delivered edge. -/
def Known (p : RefreshPolicy) (w : World) (ok : Bool) : Prop :=
  w.version = w.reader.seen →
    ∃ r ≤ w.now, EdgePassed p w.reader.staleEdgeFor r ∧ isReady p w.state r = ok

structure Follows (p : RefreshPolicy) (w : World) : Prop where
  edge : EdgePassed p w.reader.staleEdgeFor w.now
  seen : w.reader.seen ≤ w.version
  read : w.reader.phase.verdictRead = true → Known p w w.reader.readOk
  began : w.reader.phase.inWait = true → Known p w w.reader.beganOk
  armed : ∀ checked deadline, w.reader.phase = .waiting checked deadline →
    (w.version = w.reader.seen → deadline = staleAt p w.state w.reader.staleEdgeFor) ∧
      ∀ d ∈ deadline, ∃ stamp ∈ checked, d = stamp + p.staleAfter + 1

theorem EdgePassed.mono {edge : Option ℕ} {r t : ℕ} (h : EdgePassed p edge r) (hrt : r ≤ t) :
    EdgePassed p edge t := fun stamp hstamp => Nat.lt_of_lt_of_le (h stamp hstamp) hrt

/-- A step outside the reader: the clock, or an operation that shows the reader nothing new
without a new version. -/
theorem Follows.outside {w : World} {now version : ℕ} {s : State} {owned : Bool} (h : Follows p w)
    (hnow : w.now ≤ now) (hversion : w.version ≤ version)
    (hview : version = w.version → SameView w.state s) :
    Follows p { w with now, version, state := s, owned } := by
  have hback : version = w.reader.seen → version = w.version ∧ w.version = w.reader.seen := by
    intro hseen
    have hle := h.seen
    omega
  have hknown : ∀ ok, Known p w ok → Known p { w with now, version, state := s, owned } ok := by
    intro ok hok hseen
    obtain ⟨hsame, hcurrent⟩ := hback hseen
    obtain ⟨r, hr, hpassed, hready⟩ := hok hcurrent
    exact ⟨r, Nat.le_trans hr hnow, hpassed, ((hview hsame).ready r).trans hready⟩
  refine ⟨h.edge.mono hnow, Nat.le_trans h.seen hversion, fun hphase => hknown _ (h.read hphase),
    fun hphase => hknown _ (h.began hphase), ?_⟩
  intro checked deadline hphase
  obtain ⟨hdeadline, htimer⟩ := h.armed checked deadline hphase
  refine ⟨?_, htimer⟩
  intro hseen
  obtain ⟨hsame, hcurrent⟩ := hback hseen
  rw [hdeadline hcurrent]
  simp only [staleAt, (hview hsame).checked]

theorem Follows.publisher {w : World} (h : Follows p w) (op : Op) :
    Follows p { w with
      state := (perform p w.state ⟨w.now, op⟩).1
      version := if publishes p w.state ⟨w.now, op⟩ then w.version + 1 else w.version } := by
  apply h.outside (Nat.le_refl w.now)
  · split <;> omega
  · intro hsame
    apply perform_silent
    by_contra hpublished
    rw [Bool.not_eq_false] at hpublished
    rw [if_pos hpublished] at hsame
    omega

theorem Follows.known_now {w : World} (h : Follows p w) : Known p w (isReady p w.state w.now) :=
  fun _ => ⟨w.now, Nat.le_refl _, h.edge, rfl⟩

/-- Outside the loop's verdict and wait only the edges matter. -/
theorem Follows.idle {w : World} {seen : ℕ} {edge : Option ℕ} (h : EdgePassed p edge w.now)
    (hseen : seen ≤ w.version) {phase : Phase} (hphase : phase.verdictRead = false)
    (readOk beganOk : Bool) :
    Follows p { w with reader := ⟨seen, edge, phase, readOk, beganOk⟩ } := by
  refine ⟨h, hseen, ?_, ?_, ?_⟩
  · intro hread
    cases hphase.symm.trans hread
  · intro hwait
    cases (Phase.not_in_wait hphase).symm.trans hwait
  · rintro checked deadline rfl
    cases hphase

theorem stale_at_eq_some {s : State} {edge : Option ℕ} {d : ℕ} (h : staleAt p s edge = some d) :
    ∃ stamp ∈ checkedAt s, d = stamp + p.staleAfter + 1 := by
  simp only [staleAt] at h
  split at h
  · rename_i stamp hstamp
    split at h
    · cases h
    · exact ⟨stamp, hstamp, (Option.some.inj h).symm⟩
  · cases h

theorem Follows.arm {w : World} (h : Follows p w) (hphase : w.reader.phase = .current) :
    Follows p (w.enter (.waiting (checkedAt w.state) (staleAt p w.state w.reader.staleEdgeFor))) := by
  refine ⟨h.edge, h.seen, fun _ => h.read (by rw [hphase]; rfl),
    fun _ => h.began (by rw [hphase]; rfl), ?_⟩
  intro checked deadline hwaiting
  simp only [World.enter, Reader.enter, Phase.waiting.injEq] at hwaiting
  obtain ⟨rfl, rfl⟩ := hwaiting
  exact ⟨fun _ => rfl, fun d hd => stale_at_eq_some hd⟩

theorem Follows.timer {w : World} (h : Follows p w) {checked : Option ℕ} {deadline : ℕ}
    (hphase : w.reader.phase = .waiting checked (some deadline)) (hdue : deadline ≤ w.now) :
    Follows p { w with reader := { w.reader with staleEdgeFor := checked, phase := .idle } } := by
  obtain ⟨stamp, hstamp, hdeadline⟩ := (h.armed _ _ hphase).2 deadline rfl
  refine Follows.idle ?_ h.seen rfl _ _
  intro other hother
  cases hstamp.symm.trans hother
  omega

theorem Follows.hasChanged {w : World} (h : Follows p w) (hphase : w.reader.phase = .read)
    {phase : Phase} (hnext : phase = .ended ∨ phase = .unseen ∨ phase = .current) :
    Follows p { w with reader := { w.reader with
      phase, beganOk := isReady p w.state w.now } } := by
  refine ⟨h.edge, h.seen, fun _ => h.read (by rw [hphase]; rfl), fun _ => h.known_now, ?_⟩
  rintro checked deadline hwaiting
  rcases hnext with rfl | rfl | rfl <;> cases hwaiting

theorem Follows.reader {w w' : World} {e : Event} (h : Follows p w)
    (hstep : readerStep p w e = some w') : Follows p w' := by
  unfold readerStep at hstep
  split at hstep
  · -- subscribe
    split at hstep
    · cases hstep
      refine Follows.idle ?_ (Nat.le_refl _) rfl _ _
      intro stamp hstamp
      cases hstamp
    · cases hstep
  · -- verdict
    cases hstep
    refine ⟨h.edge, h.seen, fun _ => h.known_now, ?_, ?_⟩
    · intro hwait
      cases hwait
    · intro checked deadline hwaiting
      cases hwaiting
  · -- the unseen-version check
    rename_i hphase
    cases hstep
    apply h.hasChanged hphase
    split
    · exact .inl rfl
    · split
      · exact .inr (.inl rfl)
      · exact .inr (.inr rfl)
  · rename_i hphase
    cases hstep
    exact h.arm hphase
  · cases hstep
    exact Follows.idle h.edge (Nat.le_refl _) rfl _ _
  · split at hstep
    · cases hstep
      exact Follows.idle h.edge (Nat.le_refl _) rfl _ _
    · cases hstep
  · split at hstep
    · cases hstep
      exact Follows.idle h.edge h.seen rfl _ _
    · cases hstep
  · rename_i checked deadline hphase
    split at hstep
    · rename_i hdue
      cases hstep
      exact h.timer hphase hdue
    · cases hstep
  · cases hstep

theorem step_follows {w w' : World} {e : Event} (h : Follows p w)
    (hstep : (watch p).step w e = some w') : Follows p w' := by
  cases e with
  | advance now =>
    simp only [watch, step] at hstep
    split at hstep
    · rename_i hnow
      cases hstep
      exact h.outside hnow (Nat.le_refl _) fun _ => .refl _
    · cases hstep
  | publisher op =>
    simp only [watch, step] at hstep
    split at hstep
    · cases hstep
      exact h.publisher op
    · cases hstep
  | dropOwner =>
    cases hstep
    exact h.outside (Nat.le_refl _) (Nat.le_refl _) fun _ => .refl _
  | subscribe | verdict | hasChanged | arm | changed | closed | timer => exact h.reader hstep

theorem reachable_follows {w : World} (h : (watch p).Reachable w) : Follows p w := by
  refine System.Reachable.induction (P := Follows p) ?_ ?_ h
  · refine ⟨?_, Nat.le_refl 0, ?_, ?_, ?_⟩
    · intro stamp hstamp
      cases hstamp
    · intro hread
      cases hread
    · intro hwait
      cases hwait
    · intro checked deadline hwaiting
      cases hwaiting
  · intro w e w' _ ih hstep
    exact step_follows ih hstep

theorem reader_step_frame {w w' : World} {e : Event} (h : readerStep p w e = some w') :
    w'.now = w.now ∧ w'.state = w.state ∧ w'.version = w.version := by
  unfold readerStep at h
  repeat' split at h
  all_goals cases h
  all_goals exact ⟨rfl, rfl, rfl⟩

/-- What a run leaves of a state while no version is added. -/
structure Unpublished (p : RefreshPolicy) (w w' : World) : Prop where
  version : w.version ≤ w'.version
  now : w.now ≤ w'.now
  ready : w'.version = w.version → ∀ t, isReady p w'.state t = isReady p w.state t

theorem Unpublished.step {w u w' : World} (h : Unpublished p w u) {e : Event}
    (hstep : (watch p).step u e = some w') : Unpublished p w w' := by
  cases e with
  | advance now =>
    simp only [watch, HealthWatch.step] at hstep
    split at hstep
    · rename_i hnow
      cases hstep
      exact ⟨h.version, Nat.le_trans h.now hnow, h.ready⟩
    · cases hstep
  | publisher op =>
    simp only [watch, HealthWatch.step] at hstep
    split at hstep
    · cases hstep
      have hle := h.version
      by_cases hpublished : publishes p u.state ⟨u.now, op⟩ = true
      · simp only [hpublished, if_true]
        refine ⟨Nat.le_succ_of_le hle, h.now, ?_⟩
        intro hsame
        exact absurd hsame (Nat.ne_of_gt (Nat.lt_succ_of_le hle))
      · have hsilent := Bool.not_eq_true _ ▸ hpublished
        simp only [hsilent, Bool.false_eq_true, if_false]
        refine ⟨hle, h.now, ?_⟩
        intro hsame t
        exact ((perform_silent hsilent).ready t).trans (h.ready hsame t)
    · cases hstep
  | dropOwner =>
    cases hstep
    exact ⟨h.version, h.now, h.ready⟩
  | subscribe | verdict | hasChanged | arm | changed | closed | timer =>
    obtain ⟨hnow, hstate, hversion⟩ := reader_step_frame hstep
    exact ⟨hversion ▸ h.version, hnow ▸ h.now, fun hsame t => hstate ▸ h.ready (hversion ▸ hsame) t⟩

theorem execution_unpublished {w w' : World} (h : (watch p).Execution w w') :
    Unpublished p w w' :=
  h.preserves (fun _ _ _ hw hstep => hw.step hstep) ⟨Nat.le_refl _, Nat.le_refl _, fun _ _ => rfl⟩

def Timeless (w : World) : Prop :=
  w.state.draining = true ∨ w.state.lastCheck = none ∨
    ∃ check, w.state.lastCheck = some check ∧ w.reader.staleEdgeFor = some check.instant

theorem stale_at_eq_none {w : World} :
    staleAt p w.state w.reader.staleEdgeFor = none ↔ Timeless w := by
  simp only [staleAt, checkedAt, Timeless]
  cases hlast : w.state.lastCheck with
  | none => simp
  | some check => cases hdrain : w.state.draining <;> simp [Option.filter]

theorem pending_ready {w : World} (h : Follows p w) (hpending : Pending p w) {ok : Bool}
    (hknown : Known p w ok) : isReady p w.state w.now = ok := by
  obtain ⟨⟨checked, deadline, hphase⟩, hstuck⟩ := hpending
  have hseen : w.version = w.reader.seen := by
    have hchanged := hstuck .changed (by simp)
    simpa [watch, step, readerStep, hphase] using hchanged
  obtain ⟨r, hr, hpassed, hready⟩ := hknown hseen
  have hdeadline := (h.armed checked deadline hphase).1 hseen
  rw [← hready]
  refine ready_stable hpassed hr ?_
  rw [← hdeadline]
  rintro d rfl
  have htimer := hstuck .timer (by simp)
  simpa [watch, step, readerStep, hphase] using htimer

/-- A pending wait has not slept through a flip of readiness. -/
theorem no_flip_while_pending {w : World} (h : (watch p).Reachable w) :
    (Pending p w → isReady p w.state w.now = w.reader.beganOk ∧
      isReady p w.state w.now = w.reader.readOk) ∧
    (Timeless w → ∀ w', (watch p).Execution w w' → w'.version = w.version →
      isReady p w'.state w'.now = isReady p w.state w.now) := by
  have hfollows := reachable_follows h
  constructor
  · intro hpending
    obtain ⟨checked, deadline, hphase⟩ := hpending.1
    have hbegan := hfollows.began (by rw [hphase]; rfl)
    have hread := hfollows.read (by rw [hphase]; rfl)
    exact ⟨pending_ready hfollows hpending hbegan, pending_ready hfollows hpending hread⟩
  · intro htimeless w' hrun hversion
    have hunpublished := execution_unpublished hrun
    rw [hunpublished.ready hversion]
    refine ready_stable hfollows.edge hunpublished.now ?_
    rw [stale_at_eq_none.mpr htimeless]
    intro d hd
    cases hd

def watching : World :=
  ⟨16, ⟨false, some ⟨0, .ok (), 0⟩, .unarmed⟩, 1, true,
    ⟨1, none, .waiting (some 0) (some 36), true, true⟩⟩

theorem no_flip_while_pending_fresh :
    isReady strictPolicy watching.state 16 = true ∧
      isReady strictPolicy watching.state 16 = true :=
  (no_flip_while_pending (w := watching) ⟨[.publisher (.refresh (.ok ())), .subscribe, .verdict,
    .hasChanged, .arm, .advance 16], by decide⟩).1 ⟨⟨some 0, some 36, rfl⟩, by decide⟩

end HealthWatch
