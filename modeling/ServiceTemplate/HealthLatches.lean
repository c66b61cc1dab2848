import ServiceTemplate.HealthReadiness

/-! When the reader answers ready, and what the drain and progress latches keep.
The published verdict is a function of the completed rounds alone; the latches only ever
withdraw it. -/
namespace HealthLatches

open TransitionSystem
open HealthReadiness

variable {p : RefreshPolicy}

/-- Round `i` succeeded and still carries the published verdict of the rounds `cs`: only
failures followed it, fewer than the threshold, and no two completions since were further
apart than the stale bound. Rounds are numbered from zero. -/
structure Carries (p : RefreshPolicy) (cs : List Completion) (i : ℕ) : Prop where
  success : ∃ c, cs[i]? = some c ∧ c.observed = .ok ()
  failures : ∀ j c, i < j → cs[j]? = some c → c.observed ≠ .ok ()
  streak : cs.length - (i + 1) = 0 ∨ cs.length - (i + 1) < p.failureThreshold.toNat
  gaps : ∀ j c d, i ≤ j → cs[j]? = some c → cs[j + 1]? = some d →
    d.instant - c.instant ≤ p.staleAfter

theorem Carries.lt {cs : List Completion} {i : ℕ} (h : Carries p cs i) : i < cs.length := by
  obtain ⟨c, hc, -⟩ := h.success
  exact (List.getElem?_eq_some_iff.mp hc).1

theorem getElem?_snoc {α : Type*} (xs : List α) (x : α) (j : ℕ) (y : α) :
    (xs ++ [x])[j]? = some y ↔ xs[j]? = some y ∨ (j = xs.length ∧ x = y) := by
  rcases Nat.lt_trichotomy j xs.length with h | h | h
  · rw [List.getElem?_append_left h]
    constructor
    · exact Or.inl
    · rintro (hy | ⟨rfl, -⟩)
      · exact hy
      · omega
  · subst h
    simp
  · have hnone : xs[j]? = none := List.getElem?_eq_none (by omega)
    have hnone' : (xs ++ [x])[j]? = none := List.getElem?_eq_none (by simp; omega)
    rw [hnone, hnone']
    constructor
    · intro hy
      cases hy
    · rintro (hy | ⟨rfl, -⟩)
      · cases hy
      · omega

theorem carries_success (cs : List Completion) (c : Completion) (hc : c.observed = .ok ()) :
    Carries p (cs ++ [c]) cs.length where
  success := ⟨c, by simp, hc⟩
  failures := by
    intro j d hj hd
    have := (List.getElem?_eq_some_iff.mp hd).1
    simp only [List.length_append, List.length_cons, List.length_nil] at this
    omega
  streak := by simp
  gaps := by
    intro j d e hj hd he
    have := (List.getElem?_eq_some_iff.mp he).1
    simp only [List.length_append, List.length_cons, List.length_nil] at this
    omega

/-- A failed round keeps exactly what was carried across a fresh gap below the threshold. -/
theorem carries_failure (cs : List Completion) (c : Completion) (hc : c.observed ≠ .ok ()) (i : ℕ) :
    Carries p (cs ++ [c]) i ↔ Carries p cs i ∧ cs.length - i < p.failureThreshold.toNat ∧
      ∀ last, cs.getLast? = some last → c.instant - last.instant ≤ p.staleAfter := by
  constructor
  · intro h
    have hlt : i < cs.length := by
      have hle := h.lt
      simp only [List.length_append, List.length_cons, List.length_nil] at hle
      rcases Nat.lt_or_ge i cs.length with hi | hi
      · exact hi
      · obtain ⟨d, hd, hok⟩ := h.success
        rcases (getElem?_snoc cs c i d).mp hd with hd | ⟨-, rfl⟩
        · exact (List.getElem?_eq_some_iff.mp hd).1
        · exact absurd hok hc
    have hstreak := h.streak
    simp only [List.length_append, List.length_cons, List.length_nil] at hstreak
    refine ⟨⟨?_, ?_, by omega, ?_⟩, by omega, ?_⟩
    · obtain ⟨d, hd, hok⟩ := h.success
      rcases (getElem?_snoc cs c i d).mp hd with hd | ⟨rfl, -⟩
      · exact ⟨d, hd, hok⟩
      · omega
    · intro j d hj hd
      exact h.failures j d hj ((getElem?_snoc ..).mpr (.inl hd))
    · intro j d e hj hd he
      exact h.gaps j d e hj ((getElem?_snoc ..).mpr (.inl hd)) ((getElem?_snoc ..).mpr (.inl he))
    · intro last hlast
      rw [List.getLast?_eq_getElem?] at hlast
      apply h.gaps (cs.length - 1) last c (by omega) ((getElem?_snoc ..).mpr (.inl hlast))
      exact (getElem?_snoc ..).mpr (.inr ⟨by omega, rfl⟩)
  · rintro ⟨h, hbound, hgap⟩
    have hlt := h.lt
    refine ⟨?_, ?_, ?_, ?_⟩
    · obtain ⟨d, hd, hok⟩ := h.success
      exact ⟨d, (getElem?_snoc ..).mpr (.inl hd), hok⟩
    · intro j d hj hd
      rcases (getElem?_snoc ..).mp hd with hd | ⟨-, rfl⟩
      · exact h.failures j d hj hd
      · exact hc
    · right
      simp only [List.length_append, List.length_cons, List.length_nil]
      omega
    · intro j d e hj hd he
      rcases (getElem?_snoc ..).mp he with he | ⟨hlen, rfl⟩
      · rcases (getElem?_snoc ..).mp hd with hd | ⟨hlen, -⟩
        · exact h.gaps j d e hj hd he
        · have := (List.getElem?_eq_some_iff.mp he).1
          omega
      · rcases (getElem?_snoc ..).mp hd with hd | ⟨hlen', -⟩
        · apply hgap d
          rw [List.getLast?_eq_getElem?]
          have hj : cs.length - 1 = j := by omega
          rw [hj]
          exact hd
        · omega

/-- What the cached check says about the rounds behind it. -/
structure Published (p : RefreshPolicy) (cs : List Completion) (check : Check) : Prop where
  last : ∃ c, cs.getLast? = some c ∧ c.instant = check.instant
  ready : check.verdict = .ok () ↔ ∃ i, Carries p cs i
  streak : ∀ i, Carries p cs i → check.consecutiveFailures.toNat = cs.length - (i + 1)

theorem isOk_iff (r : Except NotReady Unit) : r.isOk = true ↔ r = .ok () := by
  cases r with
  | error reason => simp [Except.isOk, Except.toBool]
  | ok u => simp [Except.isOk, Except.toBool]

/-- The wrapping counter is exact while the verdict is carried, since the carried streak is
below a 32-bit threshold. -/
theorem streak_succ {cs : List Completion} {check : Check} {i : ℕ} (h : Published p cs check)
    (hi : Carries p cs i) : (check.consecutiveFailures + 1).toNat = cs.length - i := by
  have heq := h.streak i hi
  have hlt := hi.lt
  have hthreshold := p.failureThreshold.toNat_lt
  have hcount : cs.length - (i + 1) + 1 < 2 ^ 32 := by
    rcases hi.streak with hz | hz <;> omega
  rw [UInt32.toNat_add, heq, UInt32.toNat_one, Nat.mod_eq_of_lt hcount]
  omega

/-- When a failed round keeps the last ready verdict. -/
theorem held_verdict_iff (check : Check) (reason : NotReady) (now : ℕ) :
    (applyFailureThreshold (some check) (.error reason) p.failureThreshold now
      p.staleAfter).verdict = .ok () ↔ check.verdict = .ok () ∧
        now - check.instant ≤ p.staleAfter ∧
        check.consecutiveFailures + 1 < p.failureThreshold := by
  have hnot : Except.isOk (Except.error reason : Except NotReady Unit) = false := rfl
  simp only [applyFailureThreshold, wasPublishedReady, consecutiveFailures, hnot]
  split
  · rename_i h
    simp only [Bool.and_eq_true, isOk_iff, decide_eq_true_eq, Bool.not_false, and_true] at h
    rcases h with ⟨⟨hready, hfresh⟩, hbelow⟩
    exact iff_of_true rfl ⟨hready, hfresh, of_decide_eq_true hbelow⟩
  · rename_i h
    simp only [Bool.and_eq_true, isOk_iff, decide_eq_true_eq, Bool.not_false, and_true] at h
    simp only [reduceCtorEq, false_iff]
    rintro ⟨hready, hfresh, hbelow⟩
    exact h ⟨⟨hready, hfresh⟩, decide_eq_true hbelow⟩

theorem publish_success (previous : Option Check) (cs : List Completion) (now : ℕ) :
    Published p (cs ++ [⟨now, .ok ()⟩])
      (applyFailureThreshold previous (.ok ()) p.failureThreshold now p.staleAfter) := by
  have hcarries := carries_success (p := p) cs ⟨now, .ok ()⟩ rfl
  refine ⟨⟨⟨now, .ok ()⟩, by simp, rfl⟩, ?_, ?_⟩
  · constructor
    · intro _
      exact ⟨cs.length, hcarries⟩
    · intro _
      simp [applyFailureThreshold]
  · intro i hi
    -- The latest round succeeded, so no earlier round carries the verdict.
    have hlast : cs.length ≤ i := by
      rcases Nat.lt_or_ge i cs.length with h | h
      · exact absurd rfl (hi.failures cs.length ⟨now, .ok ()⟩ h (by simp))
      · exact h
    simp only [applyFailureThreshold, consecutiveFailures, UInt32.toNat_zero, List.length_append,
      List.length_cons, List.length_nil]
    omega

theorem publish_failure {previous : Option Check} {cs : List Completion} {reason : NotReady}
    (hnone : previous = none → cs = [])
    (hsome : ∀ check, previous = some check → Published p cs check) (now : ℕ) :
    Published p (cs ++ [⟨now, .error reason⟩])
      (applyFailureThreshold previous (.error reason) p.failureThreshold now p.staleAfter) := by
  have hfailed : (⟨now, .error reason⟩ : Completion).observed ≠ .ok () := by simp
  have hiff := carries_failure (p := p) cs ⟨now, .error reason⟩ hfailed
  refine ⟨⟨⟨now, .error reason⟩, by simp, rfl⟩, ?_, ?_⟩
  · cases previous with
    | none =>
      rw [hnone rfl] at hiff ⊢
      constructor
      · intro h
        simp [applyFailureThreshold, wasPublishedReady] at h
      · rintro ⟨i, hi⟩
        have := ((hiff i).mp hi).1.lt
        simp at this
    | some check =>
      have hpub := hsome check rfl
      obtain ⟨last, hlast, hinstant⟩ := hpub.last
      rw [held_verdict_iff]
      constructor
      · rintro ⟨hok, hfresh, hbound⟩
        obtain ⟨i, hi⟩ := hpub.ready.mp hok
        rw [UInt32.lt_iff_toNat_lt, streak_succ hpub hi] at hbound
        refine ⟨i, (hiff i).mpr ⟨hi, hbound, ?_⟩⟩
        intro d hd
        rw [hlast] at hd
        cases hd
        rw [hinstant]
        exact hfresh
      · rintro ⟨i, hi⟩
        obtain ⟨hc, hbound, hgap⟩ := (hiff i).mp hi
        refine ⟨hpub.ready.mpr ⟨i, hc⟩, ?_, ?_⟩
        · have := hgap last hlast
          rw [hinstant] at this
          exact this
        · rw [UInt32.lt_iff_toNat_lt, streak_succ hpub hc]
          exact hbound
  · intro i hi
    obtain ⟨hc, -, -⟩ := (hiff i).mp hi
    cases previous with
    | none =>
      rw [hnone rfl] at hc
      have := hc.lt
      simp at this
    | some check =>
      have := streak_succ (hsome check rfl) hc
      have hlt := hc.lt
      simp only [applyFailureThreshold, consecutiveFailures, List.length_append, List.length_cons,
        List.length_nil]
      omega

@[simp] theorem expire_draining (s : State) (now staleAfter : ℕ) :
    (s.expireProgress now staleAfter).1.draining = s.draining := by
  rcases expire_cases s now staleAfter with ⟨h, -⟩ | ⟨check, -, -, -, h⟩ <;> rw [h]

@[simp] theorem expire_last_check (s : State) (now staleAfter : ℕ) :
    (s.expireProgress now staleAfter).1.lastCheck = s.lastCheck := by
  rcases expire_cases s now staleAfter with ⟨h, -⟩ | ⟨check, -, -, -, h⟩ <;> rw [h]

theorem stop_eq (s : State) (now staleAfter : ℕ) :
    s.stopProgress now staleAfter =
      ({ (s.expireProgress now staleAfter).1 with
          progress := match (s.expireProgress now staleAfter).1.progress with
            | .expired loss => .expired loss
            | _ => .stopped }, (s.expireProgress now staleAfter).2) := by
  simp only [State.stopProgress, State.progressLoss]
  generalize s.expireProgress now staleAfter = r
  rcases r with ⟨⟨draining, lastCheck, progress⟩, newly⟩
  cases progress <;> rfl

theorem arm_progress_last_check (s : State) (now : ℕ) :
    (armProgress p s now).state.lastCheck = s.lastCheck := by
  simp only [armProgress]
  split
  · rfl
  · split
    · rfl
    · rfl
    · split
      · rfl
      · simp [arm]

theorem arm_progress_draining (s : State) (now : ℕ) :
    (armProgress p s now).state.draining = s.draining := by
  simp only [armProgress]
  split
  · rfl
  · split
    · rfl
    · rfl
    · split
      · rfl
      · simp [arm]

theorem perform_last_check (s : State) (e : Event) :
    (perform p s e).1.lastCheck = match e.op with
      | .refresh observed => some (applyFailureThreshold s.lastCheck observed
          p.failureThreshold e.instant p.staleAfter)
      | _ => s.lastCheck := by
  rcases e with ⟨now, op⟩
  cases op with
  | refresh observed => simp [perform, refresh]
  | startDrain => simp [perform, startDrain, stop_eq]
  | armProgress => exact arm_progress_last_check s now
  | progressLoss => simp [perform, progressLoss]
  | stopProgress => simp [perform, stopProgress, stop_eq]
  | verdict => rfl

theorem perform_draining (s : State) (e : Event) :
    (perform p s e).1.draining = (s.draining || decide (e.op = .startDrain)) := by
  rcases e with ⟨now, op⟩
  cases op with
  | refresh observed => simp [perform, refresh]
  | startDrain => simp [perform, startDrain]
  | armProgress => simp [perform, arm_progress_draining]
  | progressLoss => simp [perform, progressLoss]
  | stopProgress => simp [perform, stopProgress, stop_eq]
  | verdict => simp [perform]

/-- The cached check is the one the completed rounds publish. -/
structure Tracks (p : RefreshPolicy) (w : World) : Prop where
  empty : w.state.lastCheck = none → w.checks = []
  published : ∀ check, w.state.lastCheck = some check → Published p w.checks check

theorem reachable_tracks {w : World} (h : (readiness p).Reachable w) : Tracks p w := by
  refine System.Reachable.induction (P := Tracks p) ⟨fun _ => rfl, ?_⟩ ?_ h
  · intro check hcheck
    cases hcheck
  · intro w e w' _ ih hstep
    rcases step_eq_some.mp hstep with ⟨-, rfl⟩
    have hlast := perform_last_check (p := p) w.state e
    cases hop : e.op with
    | refresh observed =>
      simp only [hop] at hlast
      simp only [completed, hop]
      constructor
      · intro hnone
        rw [hlast] at hnone
        cases hnone
      · intro check hcheck
        rw [hlast, Option.some.injEq] at hcheck
        subst hcheck
        cases observed with
        | ok u => exact publish_success w.state.lastCheck w.checks e.instant
        | error reason => exact publish_failure ih.empty ih.published e.instant
    | startDrain | armProgress | progressLoss | stopProgress | verdict =>
      simp only [hop] at hlast
      simp only [completed, hop, List.append_nil]
      exact ⟨fun hnone => ih.empty (hlast ▸ hnone), fun check hcheck =>
        ih.published check (hlast ▸ hcheck)⟩

structure Ready (p : RefreshPolicy) (w : World) (t : ℕ) : Prop where
  serving : w.state.draining = false
  noLoss : w.state.progressLoss = none
  completed : w.checks ≠ []
  carried : ∃ i, Carries p w.checks i
  fresh : ∀ c, w.checks.getLast? = some c → t - c.instant ≤ p.staleAfter

theorem verdict_ok_iff (s : State) (t : ℕ) : verdict p s t = .ok () ↔
    s.draining = false ∧ s.progressLoss = none ∧ ∃ check, s.lastCheck = some check ∧
      t - check.instant ≤ p.staleAfter ∧ check.verdict = .ok () := by
  simp only [verdict]
  split
  · rename_i hd
    simp [hd]
  · rename_i hd
    split
    · rename_i loss hloss
      simp [hloss]
    · rename_i hloss hnone
      simp [hnone]
    · rename_i check hloss hcheck
      split
      · rename_i hstale
        simp only [reduceCtorEq, hcheck, Option.some.injEq, exists_eq_left', false_iff]
        omega
      · rename_i hfresh
        constructor
        · intro hok
          exact ⟨by simpa using hd, hloss, check, hcheck, by omega, hok⟩
        · rintro ⟨-, -, c, hc, -, hok⟩
          rw [hcheck] at hc
          cases hc
          exact hok

theorem verdict_ready {w : World} (h : Tracks p w) (t : ℕ) :
    verdict p w.state t = .ok () ↔ Ready p w t := by
  rw [verdict_ok_iff]
  constructor
  · rintro ⟨hd, hloss, check, hcheck, hfresh, hok⟩
    have hpub := h.published check hcheck
    obtain ⟨last, hlast, hinstant⟩ := hpub.last
    refine ⟨hd, hloss, ?_, hpub.ready.mp hok, ?_⟩
    · intro hnil
      rw [hnil] at hlast
      cases hlast
    · intro c hc
      rw [hlast] at hc
      cases hc
      rw [hinstant]
      exact hfresh
  · rintro ⟨hd, hloss, hne, hcarried, hfresh⟩
    cases hcheck : w.state.lastCheck with
    | none => exact absurd (h.empty hcheck) hne
    | some check =>
      have hpub := h.published check hcheck
      obtain ⟨last, hlast, hinstant⟩ := hpub.last
      exact ⟨hd, hloss, check, rfl, hinstant ▸ hfresh last hlast, hpub.ready.mpr hcarried⟩

def Withdrawn (s : State) : Prop := s.draining = true ∨ s.progressLoss ≠ none

theorem expire_of_loss {s : State} {loss : ProgressLoss} (h : s.progressLoss = some loss)
    (now staleAfter : ℕ) : s.expireProgress now staleAfter = (s, none) := by
  rcases expire_cases s now staleAfter with ⟨hsame, -⟩ | ⟨check, harmed, -⟩
  · exact hsame
  · simp [State.progressLoss, harmed] at h

theorem stop_of_loss {s : State} {loss : ProgressLoss} (h : s.progressLoss = some loss)
    (now staleAfter : ℕ) : s.stopProgress now staleAfter = (s, none) := by
  simp only [State.stopProgress, expire_of_loss h, h]

theorem arm_progress_of_loss {s : State} {loss : ProgressLoss} (h : s.progressLoss = some loss)
    (now : ℕ) : (armProgress p s now).state = s ∧ (armProgress p s now).gauge = [] := by
  simp only [armProgress]
  split
  · exact ⟨rfl, rfl⟩
  · simp [h, refuse]

theorem perform_keeps_loss {s : State} {loss : ProgressLoss} (h : s.progressLoss = some loss)
    (e : Event) : (perform p s e).1.progressLoss = some loss := by
  rcases e with ⟨now, op⟩
  cases op with
  | refresh observed => simpa [perform, refresh, expire_of_loss h, State.progressLoss] using h
  | startDrain => simpa [perform, startDrain, stop_of_loss h, State.progressLoss] using h
  | armProgress => simpa [perform, arm_progress_of_loss h] using h
  | progressLoss => simpa [perform, progressLoss, expire_of_loss h] using h
  | stopProgress => simpa [perform, stopProgress, stop_of_loss h] using h
  | verdict => exact h

theorem withdrawn_writes (newly : Option ProgressLoss) : true ∉ withdrawn newly := by
  cases newly <;> simp [withdrawn]

/-- Only the publication of a ready verdict, with neither latch set, raises the gauge. -/
theorem perform_raises {s : State} {e : Event} (h : true ∈ (perform p s e).2) :
    s.draining = false ∧ s.progressLoss = none := by
  rcases e with ⟨now, op⟩
  cases op with
  | refresh observed =>
    simp only [perform, refresh, List.mem_append, withdrawn_writes, false_or, List.mem_singleton,
      expire_draining] at h
    have hserving := h.symm
    simp only [Bool.and_eq_true, Bool.not_eq_true', Option.isNone_iff_eq_none] at hserving
    constructor
    · exact hserving.1.1
    · cases hloss : s.progressLoss with
      | none => rfl
      | some loss =>
        have hnone := hserving.1.2
        rw [expire_of_loss hloss, hloss] at hnone
        cases hnone
  | startDrain => simp [perform, startDrain, withdrawn_writes] at h
  | armProgress =>
    simp only [perform, armProgress] at h
    split at h
    · simp [refuse] at h
    · split at h
      · simp [refuse] at h
      · simp [refuse] at h
      · split at h
        · simp [refuse] at h
        · simp [arm, withdrawn_writes] at h
  | progressLoss => simp [perform, progressLoss, withdrawn_writes] at h
  | stopProgress => simp [perform, stopProgress, withdrawn_writes] at h
  | verdict => simp [perform] at h

/-- What a withdrawn state keeps along a run: it stays withdrawn with the same evidence, and
the gauge is not raised again. -/
structure Kept (w w' : World) : Prop where
  draining : w.state.draining = true → w'.state.draining = true
  loss : ∀ loss, w.state.progressLoss = some loss → w'.state.progressLoss = some loss
  gauge : ∃ writes, w'.gauge = w.gauge ++ writes ∧ true ∉ writes

theorem Kept.withdrawn {w w' : World} (h : Kept w w') (hw : Withdrawn w.state) :
    Withdrawn w'.state := by
  rcases hw with hd | hloss
  · left
    exact h.draining hd
  · right
    obtain ⟨loss, hloss⟩ := Option.ne_none_iff_exists'.mp hloss
    rw [h.loss loss hloss]
    simp

theorem step_kept {w w' : World} {e : Event} (hw : Withdrawn w.state)
    (h : (readiness p).step w e = some w') : Kept w w' := by
  rcases step_eq_some.mp h with ⟨-, rfl⟩
  refine ⟨?_, ?_, (perform p w.state e).2, rfl, ?_⟩
  · intro hd
    simp [perform_draining, hd]
  · intro loss hloss
    exact perform_keeps_loss hloss e
  · intro hraised
    have hclear := perform_raises hraised
    rcases hw with hd | hloss
    · rw [hclear.1] at hd
      cases hd
    · exact hloss hclear.2

theorem run_kept {w w' : World} (hw : Withdrawn w.state)
    (h : (readiness p).Execution w w') : Kept w w' := by
  refine h.preserves (P := fun v => Kept w v) ?_ ⟨id, fun _ => id, [], by simp, by simp⟩
  intro u e v hu hstep
  have hv := step_kept (hu.withdrawn hw) hstep
  obtain ⟨xs, hxs, hx⟩ := hu.gauge
  obtain ⟨ys, hys, hy⟩ := hv.gauge
  refine ⟨fun hd => hv.draining (hu.draining hd), fun l hl => hv.loss l (hu.loss l hl),
    xs ++ ys, by rw [hys, hxs, List.append_assoc], ?_⟩
  intro hmem
  rcases List.mem_append.mp hmem with hmem | hmem
  · exact hx hmem
  · exact hy hmem

theorem withdrawn_not_ready {s : State} (h : Withdrawn s) (t : ℕ) : verdict p s t ≠ .ok () := by
  intro hok
  obtain ⟨hd, hloss, -⟩ := (verdict_ok_iff s t).mp hok
  rcases h with h | h
  · rw [hd] at h
    cases h
  · exact h hloss

def Overdue (p : RefreshPolicy) (w : World) (t : ℕ) : Prop :=
  ∃ c, w.checks.getLast? = some c ∧ p.staleAfter < t - c.instant

/-- Arming is refused because of the published verdict, before expiry is inspected. -/
def Refused (s : State) (e : Event) : Prop :=
  e.op = .armProgress ∧ ∃ check reason, s.lastCheck = some check ∧ check.verdict = .error reason

def Observes (w : World) (e : Event) : Prop := e.op ≠ .verdict ∧ ¬ Refused w.state e

def Closes (e : Event) : Prop := e.op = .stopProgress ∨ e.op = .startDrain

/-- After a successful `armProgress` at `w`, with nothing in `es` that closes the obligation
and no observing operation of `es` overdue, the observing operation `e` is the first overdue
one. -/
structure FirstOverdue (p : RefreshPolicy) (observes : World → Event → Prop) (w : World)
    (a : ℕ) (es : List Event) (u : World) (e : Event) : Prop where
  armed : (armProgress p w.state a).value = .ok ()
  run : (readiness p).run w (⟨a, .armProgress⟩ :: es) = some u
  kept : ∀ d ∈ es, ¬ Closes d
  timely : ∀ xs d ys v, es = xs ++ d :: ys →
    (readiness p).run w (⟨a, .armProgress⟩ :: xs) = some v → observes v d →
      ¬ Overdue p v d.instant
  observes : observes u e
  overdue : Overdue p u e.instant

/-- The first overdue observing operation retains the gap it saw. -/
def RetainsGap (p : RefreshPolicy) (observes : World → Event → Prop) : Prop :=
  ∀ w a es u e u', (readiness p).Reachable w → FirstOverdue p observes w a es u e →
    (readiness p).step u e = some u' → ∃ c, u.checks.getLast? = some c ∧
      u'.state.progressLoss = some ⟨c.instant, e.instant, p.staleAfter⟩

def Armed (s : State) : Prop := s.draining = false ∧ s.progress = .armed

theorem expire_overdue {s : State} {check : Check} {now staleAfter : ℕ}
    (harmed : s.progress = .armed) (hcheck : s.lastCheck = some check)
    (hgap : staleAfter < now - check.instant) :
    s.expireProgress now staleAfter =
      ({ s with progress := .expired ⟨check.instant, now, staleAfter⟩ },
        some ⟨check.instant, now, staleAfter⟩) := by
  rcases expire_cases s now staleAfter with ⟨-, hfresh⟩ | ⟨check', -, hcheck', -, h⟩
  · have := hfresh harmed check hcheck
    omega
  · rw [hcheck] at hcheck'
    cases hcheck'
    exact h

theorem expire_timely {s : State} {now staleAfter : ℕ}
    (hfresh : ∀ check, s.lastCheck = some check → now - check.instant ≤ staleAfter) :
    s.expireProgress now staleAfter = (s, none) := by
  rcases expire_cases s now staleAfter with ⟨h, -⟩ | ⟨check, -, hcheck, hgap, -⟩
  · exact h
  · have := hfresh check hcheck
    omega

/-- In an armed state arming again either is refused by the published verdict or only
inspects expiry. -/
theorem armed_arm_progress {s : State} (h : Armed s) (now : ℕ)
    (hok : ∀ check, s.lastCheck = some check → check.verdict = .ok ()) :
    (armProgress p s now).state = (s.expireProgress now p.staleAfter).1 := by
  rcases s with ⟨draining, lastCheck, progress⟩
  rcases h with ⟨hd, hp⟩
  simp only at hd hp
  subst hd hp
  cases lastCheck with
  | none => simp [armProgress, State.progressLoss, refuse, State.expireProgress]
  | some check => simp [armProgress, State.progressLoss, hok check rfl, arm]

theorem arm_progress_ok {s : State} {now : ℕ} (h : (armProgress p s now).value = .ok ()) :
    Armed (armProgress p s now).state := by
  simp only [armProgress] at h ⊢
  split at h
  · cases h
  · rename_i hnot
    rw [if_neg hnot]
    split at h
    · cases h
    · cases h
    · split at h
      · cases h
      · simp only [arm] at h ⊢
        rcases expire_cases { s with progress := .armed } now p.staleAfter with
          ⟨hsame, -⟩ | ⟨check, -, -, -, hlost⟩
        · rw [hsame]
          exact ⟨by simpa using fun hd => hnot (.inl hd), rfl⟩
        · rw [hlost] at h
          cases h

theorem not_refused_ok {s : State} {now : ℕ} (h : ¬ Refused s ⟨now, .armProgress⟩) :
    ∀ check, s.lastCheck = some check → check.verdict = .ok () := by
  intro check hcheck
  cases hv : check.verdict with
  | ok u => rfl
  | error reason => exact absurd ⟨rfl, check, reason, hcheck, hv⟩ h

theorem refused_state {s : State} {now : ℕ} (h : Armed s) (hr : Refused s ⟨now, .armProgress⟩) :
    (armProgress p s now).state = s := by
  obtain ⟨-, check, reason, hcheck, hv⟩ := hr
  simp [armProgress, h.1, h.2, State.progressLoss, hcheck, hv, refuse]

theorem perform_armed_timely {s : State} {e : Event} (h : Armed s) (hopen : ¬ Closes e)
    (hfresh : e.op ≠ .verdict → ¬ Refused s e →
      ∀ check, s.lastCheck = some check → e.instant - check.instant ≤ p.staleAfter) :
    Armed (perform p s e).1 := by
  rcases e with ⟨now, op⟩
  cases op with
  | refresh observed =>
    have hsame := expire_timely (hfresh (by simp) (by simp [Refused]))
    simpa [perform, refresh, hsame, Armed] using h
  | startDrain => exact absurd (.inr rfl) hopen
  | armProgress =>
    by_cases hr : Refused s ⟨now, .armProgress⟩
    · simpa [perform, refused_state h hr] using h
    · have hsame := expire_timely (hfresh (by simp) hr)
      simpa [perform, armed_arm_progress h now (not_refused_ok hr), hsame] using h
  | progressLoss =>
    have hsame := expire_timely (hfresh (by simp) (by simp [Refused]))
    simpa [perform, progressLoss, hsame] using h
  | stopProgress => exact absurd (.inl rfl) hopen
  | verdict => exact h

theorem perform_armed_overdue {s : State} {e : Event} {check : Check} (h : Armed s)
    (hverdict : e.op ≠ .verdict) (hr : ¬ Refused s e) (hcheck : s.lastCheck = some check)
    (hgap : p.staleAfter < e.instant - check.instant) :
    (perform p s e).1.progressLoss = some ⟨check.instant, e.instant, p.staleAfter⟩ := by
  have hlost := expire_overdue h.2 hcheck hgap
  rcases e with ⟨now, op⟩
  cases op with
  | refresh observed => simp [perform, refresh, hlost, State.progressLoss]
  | startDrain => simp [perform, startDrain, stop_eq, hlost, State.progressLoss]
  | armProgress =>
    simp [perform, armed_arm_progress h now (not_refused_ok hr), hlost, State.progressLoss]
  | progressLoss => simp [perform, progressLoss, hlost, State.progressLoss]
  | stopProgress => simp [perform, stopProgress, stop_eq, hlost, State.progressLoss]
  | verdict => exact absurd rfl hverdict

theorem tracks_overdue {w : World} (h : Tracks p w) {t : ℕ} (ho : Overdue p w t) :
    ∃ check c, w.state.lastCheck = some check ∧ w.checks.getLast? = some c ∧
      c.instant = check.instant ∧ p.staleAfter < t - check.instant := by
  obtain ⟨c, hc, hgap⟩ := ho
  cases hcheck : w.state.lastCheck with
  | none =>
    rw [h.empty hcheck] at hc
    cases hc
  | some check =>
    obtain ⟨last, hlast, hinstant⟩ := (h.published check hcheck).last
    rw [hlast] at hc
    cases hc
    exact ⟨check, c, rfl, hlast, hinstant, hinstant ▸ hgap⟩

/-- The armed interval, step by step: nothing overdue was observed, so nothing expired. -/
theorem run_armed {w u : World} {es : List Event} (hreach : (readiness p).Reachable w)
    (harmed : Armed w.state) (hrun : (readiness p).run w es = some u)
    (hopen : ∀ d ∈ es, ¬ Closes d)
    (htimely : ∀ xs d ys v, es = xs ++ d :: ys → (readiness p).run w xs = some v →
      Observes v d → ¬ Overdue p v d.instant) : Armed u.state := by
  induction es generalizing w with
  | nil =>
    cases hrun
    exact harmed
  | cons d es ih =>
    obtain ⟨v, hv, hrun⟩ := Option.bind_eq_some_iff.mp hrun
    refine ih (hreach.tail hv) ?_ hrun (fun c hc => hopen c (by simp [hc])) ?_
    · have htracks := reachable_tracks hreach
      rcases step_eq_some.mp hv with ⟨-, rfl⟩
      apply perform_armed_timely harmed (hopen d (by simp))
      intro hne hr check hcheck
      have hd := htimely [] d es w rfl rfl ⟨hne, hr⟩
      obtain ⟨last, hlast, hinstant⟩ := (htracks.published check hcheck).last
      apply Nat.le_of_not_lt
      intro hgap
      exact hd ⟨last, hlast, hinstant.symm ▸ hgap⟩
    · intro xs c ys x heq hx
      exact htimely (d :: xs) c ys x (by rw [heq]; rfl) (by simp [hv, hx])

theorem retains_gap (p : RefreshPolicy) : RetainsGap p Observes := by
  intro w a es u e u' hreach h hstep
  obtain ⟨v, hv, hrun⟩ := Option.bind_eq_some_iff.mp h.run
  have harmed : Armed v.state := by
    rcases step_eq_some.mp hv with ⟨-, rfl⟩
    exact arm_progress_ok h.armed
  have hu : Armed u.state := by
    apply run_armed (hreach.tail hv) harmed hrun h.kept
    intro xs d ys x heq hx
    exact h.timely xs d ys x heq (by simp [hv, hx])
  have htracks := reachable_tracks ((hreach.tail hv).after ⟨es, hrun⟩)
  obtain ⟨check, c, hcheck, hc, hinstant, hgap⟩ := tracks_overdue htracks h.overdue
  rcases step_eq_some.mp hstep with ⟨-, rfl⟩
  refine ⟨c, hc, ?_⟩
  rw [hinstant]
  exact perform_armed_overdue hu h.observes.1 h.observes.2 hcheck hgap

/-- The reader answers ready exactly when a recent enough success carries the verdict; both
latches are absorbing; and an armed completion gap is retained by the first operation that
inspects it. -/
theorem readiness_state_machine (p : RefreshPolicy) :
    (∀ w t, (readiness p).Reachable w → w.now ≤ t →
      (verdict p w.state t = .ok () ↔ Ready p w t)) ∧
    (∀ w w', (readiness p).Reachable w → Withdrawn w.state → (readiness p).Execution w w' →
      Kept w w' ∧ ∀ t, verdict p w'.state t ≠ .ok ()) ∧
    RetainsGap p Observes := by
  refine ⟨?_, ?_, retains_gap p⟩
  · intro w t hw _
    exact verdict_ready (reachable_tracks hw) t
  · intro w w' _ hw hrun
    have hkept := run_kept hw hrun
    exact ⟨hkept, withdrawn_not_ready (hkept.withdrawn hw)⟩

def strictPolicy : RefreshPolicy := ⟨10, 5, 1⟩

def down : NotReady := .probeFailed "postgres" "connection refused"

def admitted : World := ⟨0, ⟨false, some ⟨0, .ok (), 0⟩, .unarmed⟩, [⟨0, .ok ()⟩], [false, true]⟩

def lapsed : World :=
  ⟨1, ⟨false, some ⟨1, .error down, 1⟩, .armed⟩, [⟨0, .ok ()⟩, ⟨1, .error down⟩],
    [false, true, false]⟩

theorem admitted_reachable : (readiness strictPolicy).Reachable admitted :=
  ⟨[⟨0, .refresh (.ok ())⟩], by decide⟩

/-- After the failed round of `lapsed` any operation at 100 is the first overdue one. -/
theorem lapsed_first_overdue {observes : World → Event → Prop} {op : Op}
    (h : observes lapsed ⟨100, op⟩) :
    FirstOverdue strictPolicy observes admitted 0 [⟨1, .refresh (.error down)⟩] lapsed
      ⟨100, op⟩ where
  armed := by decide
  run := by decide
  kept := by
    intro d hd
    simp only [List.mem_singleton] at hd
    subst hd
    simp [Closes]
  timely := by
    intro xs d ys v heq hrun hobs hover
    cases xs with
    | nil =>
      cases heq
      cases hrun
      obtain ⟨c, hc, hgap⟩ := hover
      cases hc
      revert hgap
      decide
    | cons x xs => simp at heq
  observes := h
  overdue := ⟨⟨1, .error down⟩, rfl, show strictPolicy.staleAfter < 100 - 1 by decide⟩

/-- Arming again while the published verdict is not ready runs after the gap and retains
nothing. -/
theorem rearm_skips_expiry : ¬ RetainsGap strictPolicy fun _ e => e.op ≠ .verdict := by
  intro h
  obtain ⟨c, -, hloss⟩ := h admitted 0 _ lapsed ⟨100, .armProgress⟩ _ admitted_reachable
    (lapsed_first_overdue (by simp)) rfl
  have hnone : (perform strictPolicy lapsed.state ⟨100, .armProgress⟩).1.progressLoss = none := by
    decide
  cases hnone.symm.trans hloss

/-- The late round after the lapse retains the gap and cannot make the reader ready. -/
theorem readiness_state_machine_lapsed :
    ∃ w, (readiness strictPolicy).step lapsed ⟨100, .refresh (.ok ())⟩ = some w ∧
      w.state.progressLoss = some ⟨1, 100, 35⟩ ∧ verdict strictPolicy w.state 100 ≠ .ok () ∧
      (verdict strictPolicy admitted.state 35 = .ok () ↔ Ready strictPolicy admitted 35) := by
  have hmachine := readiness_state_machine strictPolicy
  have hreach : (readiness strictPolicy).Reachable lapsed := admitted_reachable.after
    ⟨[⟨0, .armProgress⟩, ⟨1, .refresh (.error down)⟩], by decide⟩
  obtain ⟨w, hw⟩ : ∃ w, (readiness strictPolicy).step lapsed ⟨100, .refresh (.ok ())⟩ = some w :=
    ⟨_, rfl⟩
  obtain ⟨c, hc, hloss⟩ := hmachine.2.2 admitted 0 _ lapsed _ w admitted_reachable
    (lapsed_first_overdue ⟨by simp, by simp [Refused]⟩) hw
  cases hc
  have hwithdrawn : Withdrawn w.state := .inr (by rw [hloss]; simp)
  exact ⟨w, hw, hloss, (hmachine.2.1 w w (hreach.tail hw) hwithdrawn (.refl w)).2 100,
    hmachine.1 admitted 35 admitted_reachable (by decide)⟩

end HealthLatches
