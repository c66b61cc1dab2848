import ServiceTemplate.ServiceLifecycle

/-! What an exit of the service process vouches for, and what becomes of a fault on the way there. -/
namespace ServiceLifecycle

open TransitionSystem
open HealthReadiness (RefreshPolicy)
open HttpSettings (HttpConfig)

variable {p : RefreshPolicy} {http : HttpConfig} {w w' : World} {e : Event} {source : Source}

theorem recv_first (signals : Signals) (interruptFirst : Bool) :
    (signals.recv interruptFirst).2.firstStop = signals.firstStop := by
  simp only [Signals.recv]
  split <;> split <;> rfl

/-- The first stop is the first one that a poll has seen. -/
theorem wait_first (signals : Signals) (interruptFirst : Bool) (now : ℕ) :
    ((signals.wait interruptFirst now).1 = .stop ∧
      (signals.wait interruptFirst now).2.firstStop = some (signals.firstStop.getD now)) ∨
    ((signals.wait interruptFirst now).1 ≠ .stop ∧
      (signals.wait interruptFirst now).2.firstStop = signals.firstStop) := by
  have hfirst := recv_first signals interruptFirst
  by_cases hstop : (signals.recv interruptFirst).1 = .stop
  · exact .inl (by simp [Signals.wait, hstop, hfirst])
  · exact .inr (by simp [Signals.wait, hstop, hfirst])

structure Vouched (http : HttpConfig) (w : World) (exit : Exit) : Prop where
  stop : exit.failure = none →
    ∃ t, w.signals.firstStop = some t ∧ exit.deadline = t + http.gracePeriod
  ends : exit.ends ≤ max exit.began exit.deadline
  prompt : ∀ t, w.signals.firstStop = some t → exit.began ≤ t + http.gracePeriod →
    exit.ends ≤ t + http.gracePeriod
  graceful : exit.code = 0 → ServiceTeardown.Certified http exit.serving exit.outside ∧
    w.latch = none ∧
    ServiceTeardown.endedBy exit.report.background.1 exit.outside.reported = false

def Place.stopped : Place → Bool
  | .checking _ (.admission (.ok false)) | .checking _ .serving | .checking _ .final
  | .stopping none | .tearing none => true
  | _ => false

/-- On the way to the teardown, with nothing left to wait for. -/
def Place.settling : Place → Bool
  | .checking rest (.admission (.ok false)) | .checking rest .serving | .checking rest .final =>
    decide (rest.length ≤ sources.length)
  | .stopping _ | .tearing _ | .exited _ => true
  | _ => false

def Place.early : Place → Bool
  | .startSignals | .startFailure | .startup | .checking _ (.admission _) | .arbitrating => true
  | _ => false

structure Inv (http : HttpConfig) (w : World) : Prop where
  stop : w.place.stopped = true → w.signals.firstStop.isSome = true
  settling : w.signals.firstStop.isSome = true → w.place.settling = true
  early : w.place.early = true → w.admitted = false
  vouched : ∀ exit, w.place = .exited exit → Vouched http w exit

theorem exit_graceful {exit : Exit} (h : exit.code = 0) :
    ServiceTeardown.outcome exit.outside exit.report = .graceful := by
  rw [Exit.code] at h
  split at h
  · cases h
  · split at h
    · assumption
    · cases h

theorem teardown_vouched {failure : Option BootstrapError}
    {drains : ListenerName → ServiceTeardown.Listener} {outside : ServiceTeardown.Outside}
    {runtime : ℕ} (hstop : failure = none → w.signals.firstStop.isSome = true) (exit : Exit)
    (hexit : (w.teardown http failure drains outside runtime).place = .exited exit) :
    Vouched http (w.teardown http failure drains outside runtime) exit := by
  obtain rfl := Place.exited.inj hexit
  have hends := ServiceTeardown.teardown_ends_max http (w.serving drains) (w.outside outside)
    (w.signals.firstStop.getD w.now + http.gracePeriod - ServiceTeardown.runtimeShutdownTimeout)
    w.now
  refine ⟨fun hnone => ?_, ?_, fun t ht hbegan => ?_, fun hcode => ?_⟩
  · obtain ⟨t, ht⟩ := Option.isSome_iff_exists.mp (hstop hnone)
    exact ⟨t, ht, by simp [ht]⟩
  · simp only [World.report, StagedBudget.remaining]
    omega
  · have hfirst : w.signals.firstStop = some t := ht
    simp only [hfirst, Option.getD_some] at hends
    simp only [World.report, StagedBudget.remaining, hfirst, Option.getD_some] at hbegan ⊢
    omega
  · have hgraceful := exit_graceful hcode
    simp only [World.report] at hgraceful ⊢
    have hunreported := ServiceTeardown.graceful_unreported hgraceful
    refine ⟨ServiceTeardown.graceful_certified hgraceful, ?_, hunreported⟩
    cases hlatch : w.latch with
    | none => exact hlatch
    | some failure => simp [World.outside, hlatch, ServiceTeardown.endedBy] at hunreported

theorem initial_inv : Inv http initial where
  stop := by rintro ⟨⟩
  settling := by rintro ⟨⟩
  early _ := rfl
  vouched := by rintro exit ⟨⟩

theorem environment_first (h : w.environment p e = some w') :
    w'.signals.firstStop = w.signals.firstStop ∧ w'.admitted = w.admitted := by
  cases e with
  | advance now | acceptFails name failure =>
    simp only [World.environment] at h
    split at h <;> cases h
    exact ⟨rfl, rfl⟩
  | notify interrupt | close interrupt =>
    cases h
    cases interrupt <;> exact ⟨rfl, rfl⟩
  | record failure =>
    cases h
    exact ⟨rfl, rfl⟩
  | health op =>
    simp only [World.environment] at h
    split at h
    · obtain ⟨s, hs, rfl⟩ := Option.map_eq_some_iff.mp h
      exact ⟨rfl, rfl⟩
    · cases h
  | startup progress | root interruptFirst | unwind | teardown drains outside runtime => cases h

theorem read_first (w : World) (source : Source) :
    (w.read p source).2.signals = w.signals ∧ (w.read p source).2.admitted = w.admitted := by
  cases source with
  | background | listener name => exact ⟨rfl, rfl⟩
  | progress =>
    simp only [World.read]
    cases w.readiness <;> exact ⟨rfl, rfl⟩

theorem check_first (w : World) (rest : List Source) (use : Use) :
    (w.check p rest use).signals = w.signals ∧ (w.check p rest use).admitted = w.admitted := by
  cases rest with
  | nil => exact ⟨rfl, rfl⟩
  | cons source rest => exact read_first w source

/-- A check goes on with its other sources, or to what follows it. -/
theorem check_place (w : World) (rest : List Source) (use : Use) :
    (∃ later, (w.check p rest use).place = .checking later use) ∨
      ∃ found, (w.check p rest use).place = use.follow found := by
  cases rest with
  | nil => exact .inr ⟨none, rfl⟩
  | cons source rest =>
    cases hread : (w.read p source).1 with
    | some error => exact .inr ⟨some error, by simp [World.check, hread]⟩
    | none => exact .inl ⟨rest, by simp [World.check, hread]⟩

theorem checking_stopped {use : Use} {rest later : List Source}
    (h : (Place.checking later use).stopped = true) : (Place.checking rest use).stopped = true := by
  cases use with
  | serving | final => rfl
  | admission admitted =>
    rcases admitted with error | ⟨_ | _⟩
    · cases h
    · rfl
    · cases h

theorem follow_stopped {use : Use} {found : Option BootstrapError} {rest : List Source}
    (h : (use.follow found).stopped = true) : (Place.checking rest use).stopped = true := by
  cases use with
  | serving | final => rfl
  | admission admitted =>
    cases found with
    | some error => cases h
    | none =>
      cases admitted with
      | error error => cases h
      | ok ready =>
        cases ready with
        | true => cases h
        | false => rfl

theorem checking_settling {use : Use} {source : Source} {rest : List Source}
    (h : (Place.checking (source :: rest) use).settling = true) :
    (Place.checking rest use).settling = true := by
  have hlength : ∀ n, (source :: rest).length ≤ n → rest.length ≤ n :=
    fun n hle => Nat.le_trans (Nat.le_succ _) hle
  cases use with
  | serving | final => exact decide_eq_true (hlength _ (of_decide_eq_true h))
  | admission admitted =>
    rcases admitted with error | ⟨_ | _⟩
    · cases h
    · exact decide_eq_true (hlength _ (of_decide_eq_true h))
    · cases h

theorem follow_settling {use : Use} {found : Option BootstrapError} {rest : List Source}
    (h : (Place.checking rest use).settling = true) : (use.follow found).settling = true := by
  cases use with
  | serving | final => rfl
  | admission admitted =>
    rcases admitted with error | ⟨_ | _⟩
    · cases h
    · cases found <;> rfl
    · cases h

theorem check_settling {rest : List Source} {use : Use}
    (h : (Place.checking rest use).settling = true) : (w.check p rest use).place.settling = true := by
  cases rest with
  | nil => exact follow_settling h
  | cons source rest =>
    cases hread : (w.read p source).1 with
    | some error =>
      have hnext : (w.check p (source :: rest) use).place = use.follow (some error) := by
        simp [World.check, hread]
      rw [hnext]
      exact follow_settling h
    | none =>
      have hnext : (w.check p (source :: rest) use).place = .checking rest use := by
        simp [World.check, hread]
      rw [hnext]
      exact checking_settling h

theorem follow_early {use : Use} {found : Option BootstrapError} {rest : List Source}
    (h : (use.follow found).early = true) : (Place.checking rest use).early = true := by
  cases use with
  | admission admitted => rfl
  | serving | final => cases h

theorem check_inv {rest : List Source} {use : Use} (hplace : w.place = .checking rest use)
    (h : Inv http w) : Inv http (w.check p rest use) := by
  obtain ⟨hsignals, hadmitted⟩ := check_first (p := p) w rest use
  have hstop := h.stop
  have hsettling := h.settling
  have hearly := h.early
  rw [hplace] at hstop hsettling hearly
  refine ⟨fun hstopped => ?_, fun hfirst => ?_, fun hbefore => ?_, fun exit hexit => ?_⟩
  · rw [hsignals]
    rcases check_place (p := p) w rest use with ⟨later, hnext⟩ | ⟨found, hnext⟩
    · rw [hnext] at hstopped
      exact hstop (checking_stopped hstopped)
    · rw [hnext] at hstopped
      exact hstop (follow_stopped hstopped)
  · rw [hsignals] at hfirst
    exact check_settling (hsettling hfirst)
  · rw [hadmitted]
    rcases check_place (p := p) w rest use with ⟨later, hnext⟩ | ⟨found, hnext⟩
    · rw [hnext] at hbefore
      cases use <;> exact hearly hbefore
    · rw [hnext] at hbefore
      exact hearly (follow_early hbefore)
  · rcases check_place (p := p) w rest use with ⟨later, hnext⟩ | ⟨found, hnext⟩
    · rw [hnext] at hexit
      cases hexit
    · rw [hnext] at hexit
      cases use with
      | serving | final => cases hexit
      | admission admitted =>
        cases found with
        | some error => cases hexit
        | none => rcases admitted with error | ⟨_ | _⟩ <;> cases hexit

def Place.gone : Place → Bool
  | .exited _ => true
  | _ => false

theorem Inv.of_live (hgone : w.place.gone = false)
    (hstop : w.place.stopped = false ∨ w.signals.firstStop.isSome = true)
    (hsettling : w.place.settling = true ∨ w.signals.firstStop = none)
    (hearly : w.place.early = false ∨ w.admitted = false) : Inv http w where
  stop hstopped := hstop.resolve_left (by rw [hstopped]; decide)
  settling hfirst := hsettling.resolve_right fun hnone => by
    rw [hnone] at hfirst
    cases hfirst
  early hbefore := hearly.resolve_left (by rw [hbefore]; decide)
  vouched exit hexit := by
    rw [hexit] at hgone
    cases hgone

theorem Inv.unstopped (h : Inv http w) (hplace : w.place.settling = false) :
    w.signals.firstStop = none := by
  cases hfirst : w.signals.firstStop with
  | none => rfl
  | some t =>
    have hsettling := h.settling (by rw [hfirst]; rfl)
    rw [hplace] at hsettling
    cases hsettling

/-- Where a poll of the signals leads to, at the places that poll them. -/
theorem signalled_inv {onStop onLost onNothing : Place} {interruptFirst : Bool}
    (hgone : onStop.gone = false ∧ onLost.gone = false ∧ onNothing.gone = false)
    (hunstopped : w.signals.firstStop = none) (hsettling : onStop.settling = true)
    (hstopped : onLost.stopped = false ∧ onNothing.stopped = false)
    (hearly : onStop.early = false ∨ w.admitted = false)
    (hlater : w'.admitted = false ∨ onLost.early = false ∧ onNothing.early = false)
    (hadmitted : w'.admitted = false ∨ (w.signals.wait interruptFirst w.now).1 = .nothing ∨
      w'.admitted = w.admitted)
    (hsignals : w'.signals = (w.signals.wait interruptFirst w.now).2)
    (hplace : w'.place = match (w.signals.wait interruptFirst w.now).1 with
      | .stop => onStop
      | .lost => onLost
      | .nothing => onNothing) : Inv http w' := by
  rcases wait_first w.signals interruptFirst w.now with ⟨hreceived, hfirst⟩ | ⟨hreceived, hfirst⟩
  · rw [hreceived] at hplace hadmitted
    refine .of_live (by rw [hplace]; exact hgone.1) (.inr (by rw [hsignals, hfirst]; rfl))
      (.inl (by rw [hplace]; exact hsettling)) ?_
    rw [hplace]
    rcases hadmitted with hadmitted | hadmitted | hadmitted
    · exact .inr hadmitted
    · cases hadmitted
    · rwa [hadmitted]
  · cases hkind : (w.signals.wait interruptFirst w.now).1 with
    | stop => exact absurd hkind hreceived
    | lost =>
      rw [hkind] at hplace
      refine .of_live (by rw [hplace]; exact hgone.2.1) (.inl (by rw [hplace]; exact hstopped.1))
        (.inr (by rw [hsignals, hfirst, hunstopped])) ?_
      rw [hplace]
      exact hlater.symm.imp_left And.left
    | nothing =>
      rw [hkind] at hplace
      refine .of_live (by rw [hplace]; exact hgone.2.2) (.inl (by rw [hplace]; exact hstopped.2))
        (.inr (by rw [hsignals, hfirst, hunstopped])) ?_
      rw [hplace]
      exact hlater.symm.imp_left And.right

theorem root_inv {interruptFirst : Bool} (hroot : w.root p interruptFirst = some w')
    (h : Inv http w) : Inv http w' := by
  have hstop := h.stop
  have hearly := h.early
  simp only [World.root] at hroot
  cases hplace : w.place with
  | startup | tearing failure | exited exit =>
    rw [hplace] at hroot
    cases hroot
  | checking rest use =>
    rw [hplace] at hroot
    cases hroot
    exact check_inv hplace h
  | stopping failure =>
    rw [hplace] at hroot hstop
    cases hroot
    cases failure with
    | some error => exact .of_live rfl (.inl rfl) (.inl rfl) (.inl rfl)
    | none => exact .of_live rfl (.inr (hstop rfl)) (.inl rfl) (.inl rfl)
  | startFailure =>
    rw [hplace] at hroot hearly
    cases hroot
    have hbefore : w.admitted = false := hearly rfl
    have hunstopped := h.unstopped (by rw [hplace]; rfl)
    cases hlatch : w.latch with
    | none => exact .of_live rfl (.inl rfl) (.inr hunstopped) (.inr hbefore)
    | some failure => exact .of_live rfl (.inl rfl) (.inr hunstopped) (.inr hbefore)
  | servingFailure =>
    rw [hplace] at hroot
    have hunstopped := h.unstopped (by rw [hplace]; rfl)
    cases hroot
    cases hlatch : w.latch with
    | none => exact .of_live rfl (.inl rfl) (.inr hunstopped) (.inl rfl)
    | some failure => exact .of_live rfl (.inl rfl) (.inr hunstopped) (.inl rfl)
  | startSignals =>
    rw [hplace] at hroot hearly
    cases hroot
    have hbefore : w.admitted = false := hearly rfl
    have hunstopped := h.unstopped (by rw [hplace]; rfl)
    exact signalled_inv ⟨rfl, rfl, rfl⟩ hunstopped rfl ⟨rfl, rfl⟩ (.inr hbefore) (.inl hbefore)
      (.inl hbefore) rfl rfl
  | arbitrating =>
    rw [hplace] at hroot
    have hunstopped := h.unstopped (by rw [hplace]; rfl)
    cases hroot
    refine signalled_inv ⟨rfl, rfl, rfl⟩ hunstopped rfl ⟨rfl, rfl⟩ (.inl rfl) (.inr ⟨rfl, rfl⟩) ?_
      rfl rfl
    by_cases hnothing : (w.signals.wait interruptFirst w.now).1 = .nothing
    · exact .inr (.inl hnothing)
    · exact .inl (decide_eq_false hnothing)
  | servingSignals =>
    rw [hplace] at hroot
    have hunstopped := h.unstopped (by rw [hplace]; rfl)
    cases hroot
    exact signalled_inv (w := w) ⟨rfl, rfl, rfl⟩ hunstopped rfl ⟨rfl, rfl⟩ (.inl rfl)
      (.inr ⟨rfl, rfl⟩) (.inr (.inr rfl)) rfl rfl

theorem moves_inv (hmoves : Moves p http w w') (h : Inv http w) : Inv http w' := by
  cases hmoves with
  | root interruptFirst w' hroot => exact root_inv hroot h
  | unwind hguarded => exact .of_live rfl (.inl rfl) (.inl rfl) (.inl rfl)
  | teardown failure drains outside runtime hplace =>
    have hgone : (w.teardown http failure drains outside runtime).place.stopped = false ∧
        (w.teardown http failure drains outside runtime).place.early = false := ⟨rfl, rfl⟩
    refine ⟨fun hstopped => ?_, fun _ => rfl, fun hbefore => ?_, teardown_vouched fun hnone => ?_⟩
    · rw [hgone.1] at hstopped
      cases hstopped
    · rw [hgone.2] at hbefore
      cases hbefore
    · subst hnone
      exact h.stop (by rw [hplace]; rfl)
  | environment e w' hlive henvironment =>
    obtain ⟨hfirst, hadmitted⟩ := environment_first henvironment
    have hplace := environment_place henvironment
    refine ⟨?_, ?_, ?_, fun exit hexit => absurd (hplace.symm.trans hexit) (hlive exit)⟩
    · rw [hplace, hfirst]
      exact h.stop
    · rw [hplace, hfirst]
      exact h.settling
    · rw [hplace, hadmitted]
      exact h.early
  | startup progress w' hstartup =>
    have hstarted := startup_moves hstartup
    obtain ⟨hsignals, -, hadmitted⟩ := hstarted.kept
    have hearly := h.early (by rw [hstarted.place]; rfl)
    rw [← hadmitted] at hearly
    have hunstopped := h.unstopped (by rw [hstarted.place]; rfl)
    rw [← hsignals] at hunstopped
    refine .of_live ?_ (.inl ?_) (.inr hunstopped) (.inr hearly)
    · rcases hstarted.next with hnext | hnext | ⟨admitted, hready, hnext⟩ <;> rw [hnext] <;> rfl
    · rcases hstarted.next with hnext | hnext | ⟨admitted, hready, hnext⟩ <;> rw [hnext]
      · rfl
      · rfl
      · rcases admitted with error | ⟨_ | _⟩
        · rfl
        · exact absurd rfl hready
        · rfl

theorem reachable_inv (h : (lifecycle p http).Reachable w) : Inv http w :=
  h.induction initial_inv fun _ _ _ _ hinv hstep => moves_inv (step_moves hstep) hinv

def Place.unread (source : Source) : Place → Bool
  | .startSignals | .startFailure | .startup => true
  | .checking rest (.admission _) => decide (source ∈ rest)
  | _ => false

end ServiceLifecycle
