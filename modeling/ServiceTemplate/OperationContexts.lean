import ServiceTemplate.Deadlines
import ServiceTemplate.OperationStop
import ServiceTemplate.TransitionSystem

/-! Operation contexts: deadlines handed down a tree, cancellation inherited along it, and the
waits for whichever comes first. -/
namespace OperationContexts

open Deadlines
open OperationStop (Stopped)
open TransitionSystem

/-- `cancellation` numbers the token; clones share it. -/
structure OperationContext where
  deadline : Option Deadline
  cancellation : ℕ
  deriving DecidableEq

/-- The longest sleep of one turn of `Deadline::wait`. -/
def longestSleep : ℕ := 24 * 60 * 60 * 1000000000

/-- A pending `wait_stopped`: the instant its sleep is due, once it sleeps. -/
structure Waiter where
  context : OperationContext
  sleep : Option ℕ
  result : Option Stopped
  deriving DecidableEq

/-- What was given to a scope itself, and the least of that and of all above it. -/
structure Scope where
  own : Option ℕ
  limit : Option ℕ
  deriving DecidableEq, Repr

/-- `deadlines` pairs each deadline at hand with the cutoff it was made for. Scopes, tokens and
the entries of `parents` are numbered alike; `cancels` lists the tokens `cancel` was called on. -/
structure State where
  clock : ℕ
  deadlines : List (Deadline × ℕ)
  contexts : List OperationContext
  parents : List (Option ℕ)
  scopes : List Scope
  cancels : List ℕ
  waiters : List Waiter
  deriving DecidableEq

def initial : State := ⟨0, [], [], [], [], [], []⟩

inductive Event where
  | advance (nanos : ℕ)
  | deadlineNew (origin budget : ℕ)
  | deadlineAt (cutoff : ℕ)
  | earlier (deadline other : ℕ)
  | deadlineOf (context : ℕ)
  | unbounded
  | fromDeadline (deadline : ℕ)
  | withTimeout (budget : ℕ)
  | child (context ceiling : ℕ)
  | childContext (context : ℕ)
  | clone (context : ℕ)
  | cancel (context : ℕ)
  | wait (context : ℕ)
  | poll (waiter : ℕ) (fired : Bool)
  deriving DecidableEq

/-- `CancellationToken::is_cancelled`: the token or one above it was cancelled. -/
def State.isCancelled (s : State) (token : ℕ) : Bool :=
  marked s.parents (fun other => decide (other ∈ s.cancels)) s.parents.length token

def OperationContext.expiredAt (context : OperationContext) (now : ℕ) : Bool :=
  match context.deadline with
  | none => false
  | some deadline => deadline.expiredAt now

def State.stoppedAt (s : State) (context : OperationContext) (now : ℕ) : Option Stopped :=
  if context.expiredAt now then some .deadline
  else if s.isCancelled context.cancellation then some .cancelled
  else none

def OperationContext.remainingAt (context : OperationContext) (now : ℕ) : Option ℕ :=
  context.deadline.map fun deadline => deadline.remainingAt now

/-- The deadline of `child`. -/
def OperationContext.clamp (context : OperationContext) (ceiling now : ℕ) : Deadline :=
  match context.deadline with
  | none => ⟨now, ceiling⟩
  | some parent => parent.earlier ⟨now, ceiling⟩ now

def least : Option ℕ → Option ℕ → Option ℕ
  | none, other => other
  | own, none => own
  | some own, some other => some (min own other)

def State.limitOf (s : State) (scope : ℕ) : Option ℕ := s.scopes[scope]?.bind Scope.limit

def State.ownOf (s : State) (scope : ℕ) : Option ℕ := s.scopes[scope]?.bind Scope.own

def State.spawn (s : State) (parent : Option ℕ) (deadline : Option Deadline) (own : Option ℕ) :
    State :=
  { s with
    contexts := s.contexts ++ [⟨deadline, s.parents.length⟩]
    parents := s.parents ++ [parent]
    scopes := s.scopes ++ [⟨own, least own (parent.bind s.limitOf)⟩] }

/-- One poll of `Deadline::wait`, and what it sleeps on after. A sleep that did not fire is
polled alone; an expired deadline ends the loop, any other goes to sleep again. The source reads the
clock once more for the time remaining and once for the start of the sleep: what passes until then
makes the sleep due that much later, like a timer that fires late, and a cutoff it reaches is that of
a poll made then. -/
def pollDeadline (deadline : Deadline) (now : ℕ) (fired : Bool) (sleep : Option ℕ) :
    Bool × Option ℕ :=
  if sleep.isSome && !fired then (false, sleep)
  else if deadline.expiredAt now then (true, none)
  else (false, some (now + min (deadline.remainingAt now) longestSleep))

/-- One poll of `wait_stopped`: the deadline first. -/
def State.poll (s : State) (waiter : Waiter) (fired : Bool) : Waiter :=
  let deadline := match waiter.context.deadline with
    | none => (false, waiter.sleep)
    | some deadline => pollDeadline deadline s.clock fired waiter.sleep
  { waiter with
    sleep := deadline.2
    result := if deadline.1 then some .deadline
      else if s.isCancelled waiter.context.cancellation then some .cancelled
      else none }

/-- Timers fire late by any amount and never early. -/
def step (s : State) : Event → Option State
  | .advance nanos => some { s with clock := s.clock + nanos }
  | .deadlineNew origin budget =>
    if origin ≤ s.clock then
      some { s with deadlines := s.deadlines ++ [(⟨origin, budget⟩, origin + budget)] }
    else none
  | .deadlineAt cutoff =>
    some { s with deadlines := s.deadlines ++ [(Deadline.atCutoff cutoff s.clock, cutoff)] }
  | .earlier deadline other =>
    match s.deadlines[deadline]?, s.deadlines[other]? with
    | some first, some second =>
      some { s with deadlines := s.deadlines ++
        [(first.1.earlier second.1 s.clock, min first.2 second.2)] }
    | _, _ => none
  | .deadlineOf context =>
    match s.contexts[context]? with
    | some ⟨some deadline, token⟩ =>
      match s.limitOf token with
      | some limit => some { s with deadlines := s.deadlines ++ [(deadline, limit)] }
      | none => none
    | _ => none
  | .unbounded => some (s.spawn none none none)
  | .fromDeadline deadline =>
    match s.deadlines[deadline]? with
    | some (deadline, cutoff) => some (s.spawn none (some deadline) (some cutoff))
    | none => none
  | .withTimeout budget => some (s.spawn none (some ⟨s.clock, budget⟩) (some (s.clock + budget)))
  | .child context ceiling =>
    match s.contexts[context]? with
    | some parent => some (s.spawn (some parent.cancellation)
        (some (parent.clamp ceiling s.clock)) (some (s.clock + ceiling)))
    | none => none
  | .childContext context =>
    match s.contexts[context]? with
    | some parent => some (s.spawn (some parent.cancellation) parent.deadline none)
    | none => none
  | .clone context =>
    match s.contexts[context]? with
    | some original => some { s with contexts := s.contexts ++ [original] }
    | none => none
  | .cancel context =>
    match s.contexts[context]? with
    | some target => some { s with cancels := s.cancels ++ [target.cancellation] }
    | none => none
  | .wait context =>
    match s.contexts[context]? with
    | some target => some { s with waiters := s.waiters ++ [⟨target, none, none⟩] }
    | none => none
  | .poll index fired =>
    match s.waiters[index]? with
    | some waiter =>
      if waiter.result = none ∧ (fired = true → ∀ due ∈ waiter.sleep, due ≤ s.clock) then
        some { s with waiters := s.waiters.set index (s.poll waiter fired) }
      else none
    | none => none

def system : System State Event := ⟨initial, step⟩

def State.Bounds (s : State) (scope cutoff : ℕ) : Prop :=
  ∃ above, Ancestor s.parents scope above ∧ s.ownOf above = some cutoff

def Matches (clock : ℕ) : Option Deadline → Option ℕ → Prop
  | none, none => True
  | some deadline, some limit => deadline.CountsTo clock limit
  | _, _ => False

def Least (bounds : ℕ → Prop) : Option ℕ → Prop
  | none => ∀ cutoff, ¬ bounds cutoff
  | some limit => IsLeast {cutoff | bounds cutoff} limit

structure Sound (s : State) : Prop where
  sizes : s.scopes.length = s.parents.length
  forest : Forest s.parents
  deadlines : ∀ pair ∈ s.deadlines, pair.1.CountsTo s.clock pair.2
  contexts : ∀ context ∈ s.contexts, context.cancellation < s.parents.length ∧
    Matches s.clock context.deadline (s.limitOf context.cancellation)
  limits : ∀ scope, scope < s.parents.length → Least (s.Bounds scope) (s.limitOf scope)
  waiters : ∀ waiter ∈ s.waiters, waiter.context ∈ s.contexts ∧ ∀ due, waiter.sleep = some due →
    ∃ limit, s.limitOf waiter.context.cancellation = some limit ∧ due ≤ limit

theorem Matches.later {clock now : ℕ} {deadline : Option Deadline} {limit : Option ℕ}
    (h : Matches clock deadline limit) (hnow : clock ≤ now) : Matches now deadline limit := by
  cases deadline with
  | none => cases limit <;> exact h
  | some deadline =>
    cases limit with
    | none => exact h
    | some limit => exact Deadline.CountsTo.later h hnow

theorem least_or {bounds above : ℕ → Prop} {own limit : Option ℕ}
    (hbounds : ∀ cutoff, bounds cutoff ↔ own = some cutoff ∨ above cutoff)
    (habove : Least above limit) : Least bounds (least own limit) := by
  cases own with
  | none =>
    have hsame : bounds = above := funext fun cutoff => propext (by simp [hbounds cutoff])
    rw [hsame]
    exact habove
  | some own =>
    cases limit with
    | none =>
      refine ⟨(hbounds own).mpr (.inl rfl), fun cutoff hcutoff => ?_⟩
      rcases (hbounds cutoff).mp hcutoff with hown | hup
      · exact Nat.le_of_eq (Option.some.inj hown)
      · exact absurd hup (habove cutoff)
    | some limit =>
      refine ⟨?_, fun cutoff hcutoff => ?_⟩
      · refine (hbounds _).mpr ?_
        rcases Nat.le_total own limit with hle | hle
        · exact .inl (congrArg some (Nat.min_eq_left hle).symm)
        · rw [Nat.min_eq_right hle]
          exact .inr habove.1
      · rcases (hbounds cutoff).mp hcutoff with hown | hup
        · rw [← Option.some.inj hown]
          exact Nat.min_le_left own limit
        · exact Nat.le_trans (Nat.min_le_right own limit) (habove.2 hup)

section

variable {s t : State}

theorem limit_of_spawn (hsizes : s.scopes.length = s.parents.length) {scope : ℕ}
    (hscope : scope < s.parents.length) (parent : Option ℕ) (deadline : Option Deadline)
    (own : Option ℕ) : (s.spawn parent deadline own).limitOf scope = s.limitOf scope := by
  rw [State.limitOf, State.spawn, List.getElem?_append_left (by rw [hsizes]; exact hscope)]
  rfl

theorem own_of_spawn (hsizes : s.scopes.length = s.parents.length) {scope : ℕ}
    (hscope : scope < s.parents.length) (parent : Option ℕ) (deadline : Option Deadline)
    (own : Option ℕ) : (s.spawn parent deadline own).ownOf scope = s.ownOf scope := by
  rw [State.ownOf, State.spawn, List.getElem?_append_left (by rw [hsizes]; exact hscope)]
  rfl

theorem Sound.bounds_spawn (h : Sound s) {scope : ℕ} (hscope : scope < s.parents.length)
    (parent : Option ℕ) (deadline : Option Deadline) (own : Option ℕ) (cutoff : ℕ) :
    (s.spawn parent deadline own).Bounds scope cutoff ↔ s.Bounds scope cutoff := by
  refine exists_congr fun above => ?_
  have hanc : Ancestor (s.parents ++ [parent]) scope above ↔ Ancestor s.parents scope above :=
    ancestor_snoc h.forest parent hscope
  constructor
  · rintro ⟨hpath, hown⟩
    have hpath := hanc.mp hpath
    exact ⟨hpath, (own_of_spawn h.sizes (hpath.lt h.forest hscope) parent deadline own).symm.trans hown⟩
  · rintro ⟨hpath, hown⟩
    exact ⟨hanc.mpr hpath,
      (own_of_spawn h.sizes (hpath.lt h.forest hscope) parent deadline own).trans hown⟩

theorem Sound.bounds_new (h : Sound s) {parent : Option ℕ}
    (hparent : ∀ p, parent = some p → p < s.parents.length) (deadline : Option Deadline)
    (own : Option ℕ) (cutoff : ℕ) :
    (s.spawn parent deadline own).Bounds s.parents.length cutoff ↔
      own = some cutoff ∨ ∃ p, parent = some p ∧ s.Bounds p cutoff := by
  have hnew : (s.spawn parent deadline own).ownOf s.parents.length = own := by
    rw [State.ownOf, State.spawn, ← h.sizes, List.getElem?_concat_length]
    rfl
  constructor
  · rintro ⟨above, hpath, hown⟩
    rcases (ancestor_new h.forest hparent).mp hpath with rfl | ⟨p, hp, hup⟩
    · exact .inl (hnew.symm.trans hown)
    · have hlt := hup.lt h.forest (hparent p hp)
      exact .inr ⟨p, hp, above, hup, (own_of_spawn h.sizes hlt parent deadline own).symm.trans hown⟩
  · rintro (hown | ⟨p, hp, above, hup, hown⟩)
    · exact ⟨s.parents.length, .refl _, hnew.trans hown⟩
    · have hlt := hup.lt h.forest (hparent p hp)
      exact ⟨above, (ancestor_new h.forest hparent).mpr (.inr ⟨p, hp, hup⟩),
        (own_of_spawn h.sizes hlt parent deadline own).trans hown⟩

theorem Sound.spawn (h : Sound s) {parent : Option ℕ}
    (hparent : ∀ p, parent = some p → p < s.parents.length) {deadline : Option Deadline}
    {own : Option ℕ} (hdeadline : Matches s.clock deadline (least own (parent.bind s.limitOf))) :
    Sound (s.spawn parent deadline own) := by
  have hlimit := fun {scope : ℕ} (hscope : scope < s.parents.length) =>
    limit_of_spawn h.sizes hscope parent deadline own
  have hnew : (s.spawn parent deadline own).limitOf s.parents.length =
      least own (parent.bind s.limitOf) := by
    rw [State.limitOf, State.spawn, ← h.sizes, List.getElem?_concat_length]
    rfl
  have hlength : (s.spawn parent deadline own).parents.length = s.parents.length + 1 := by
    rw [State.spawn, List.length_append, List.length_singleton]
  refine ⟨?_, h.forest.snoc hparent, h.deadlines, ?_, ?_, ?_⟩
  · rw [hlength, State.spawn, List.length_append, List.length_singleton, h.sizes]
  · intro context hcontext
    rw [hlength]
    rcases List.mem_append.mp hcontext with hold | hlast
    · obtain ⟨hscope, hmatches⟩ := h.contexts context hold
      exact ⟨Nat.lt_succ_of_lt hscope, (hlimit hscope).symm ▸ hmatches⟩
    · rw [List.mem_singleton.mp hlast]
      exact ⟨Nat.lt_succ_self _, hnew.symm ▸ hdeadline⟩
  · intro scope hscope
    rw [hlength] at hscope
    rcases Nat.lt_succ_iff_lt_or_eq.mp hscope with hlt | rfl
    · have hsame : (s.spawn parent deadline own).Bounds scope = s.Bounds scope :=
        funext fun cutoff => propext (h.bounds_spawn hlt parent deadline own cutoff)
      rw [hsame, hlimit hlt]
      exact h.limits scope hlt
    · rw [hnew]
      refine least_or (h.bounds_new hparent deadline own) ?_
      cases parent with
      | none => exact fun cutoff hup => Exists.elim hup fun p hp => nomatch hp.1
      | some p =>
        have hsame : (fun cutoff => ∃ q, some p = some q ∧ s.Bounds q cutoff) = s.Bounds p := by
          funext cutoff
          simp
        rw [hsame]
        exact h.limits p (hparent p rfl)
  · intro waiter hwaiter
    obtain ⟨hcontext, hsleep⟩ := h.waiters waiter hwaiter
    refine ⟨List.mem_append_left _ hcontext, fun due hdue => ?_⟩
    rw [hlimit (h.contexts _ hcontext).1]
    exact hsleep due hdue

theorem matches_clamp {clock ceiling : ℕ} {context : OperationContext} {limit : Option ℕ}
    (h : Matches clock context.deadline limit) :
    Matches clock (some (context.clamp ceiling clock)) (least (some (clock + ceiling)) limit) := by
  have hlocal : Deadline.CountsTo ⟨clock, ceiling⟩ clock (clock + ceiling) :=
    Deadline.counts_to_new (Nat.le_refl _) ceiling
  unfold OperationContext.clamp
  cases hdeadline : context.deadline with
  | none =>
    rw [hdeadline] at h
    cases limit with
    | none => exact hlocal
    | some _ => exact h.elim
  | some parent =>
    rw [hdeadline] at h
    cases limit with
    | none => exact h.elim
    | some limit =>
      have hmin : Deadline.CountsTo (parent.earlier ⟨clock, ceiling⟩ clock) clock
          (min limit (clock + ceiling)) := Deadline.CountsTo.earlier h hlocal
      rw [Nat.min_comm] at hmin
      exact hmin

theorem poll_sleep (h : Sound s) {waiter : Waiter} (hwaiter : waiter ∈ s.waiters) {fired : Bool}
    {due : ℕ} (hdue : (s.poll waiter fired).sleep = some due) :
    ∃ limit, s.limitOf waiter.context.cancellation = some limit ∧ due ≤ limit := by
  obtain ⟨hcontext, hsleep⟩ := h.waiters waiter hwaiter
  obtain ⟨-, hmatches⟩ := h.contexts _ hcontext
  simp only [State.poll] at hdue
  cases hdeadline : waiter.context.deadline with
  | none =>
    rw [hdeadline] at hdue
    exact hsleep due hdue
  | some deadline =>
    rw [hdeadline] at hdue hmatches
    simp only [pollDeadline] at hdue
    split at hdue
    · exact hsleep due hdue
    · split at hdue
      · cases hdue
      · next hexpired =>
        cases hlimit : s.limitOf waiter.context.cancellation with
        | none =>
          rw [hlimit] at hmatches
          exact hmatches.elim
        | some limit =>
          rw [hlimit] at hmatches
          have hcounts : deadline.CountsTo s.clock limit := hmatches
          have hopen : ¬ limit ≤ s.clock := fun hle =>
            hexpired ((hcounts.expired_iff (Nat.le_refl _)).mpr hle)
          rw [hcounts s.clock (Nat.le_refl _)] at hdue
          refine ⟨limit, rfl, ?_⟩
          rw [← Option.some.inj hdue]
          omega

theorem sound_move {e : Event} (h : Sound s) (hstep : step s e = some t) : Sound t := by
  have hroot : ∀ p, (none : Option ℕ) = some p → p < s.parents.length := fun _ => nofun
  cases e with
  | advance nanos =>
    cases hstep
    refine ⟨h.sizes, h.forest, fun pair hpair => ?_, fun context hcontext => ?_, h.limits, h.waiters⟩
    · exact (h.deadlines pair hpair).later (Nat.le_add_right _ _)
    · obtain ⟨hscope, hmatches⟩ := h.contexts context hcontext
      exact ⟨hscope, hmatches.later (Nat.le_add_right _ _)⟩
  | deadlineNew origin budget =>
    simp only [step] at hstep
    split at hstep
    · next horigin =>
      cases hstep
      refine ⟨h.sizes, h.forest, fun pair hpair => ?_, h.contexts, h.limits, h.waiters⟩
      rcases List.mem_append.mp hpair with hold | hnew
      · exact h.deadlines pair hold
      · rw [List.mem_singleton.mp hnew]
        exact Deadline.counts_to_new horigin budget
    · cases hstep
  | deadlineAt cutoff =>
    cases hstep
    refine ⟨h.sizes, h.forest, fun pair hpair => ?_, h.contexts, h.limits, h.waiters⟩
    rcases List.mem_append.mp hpair with hold | hnew
    · exact h.deadlines pair hold
    · rw [List.mem_singleton.mp hnew]
      exact Deadline.counts_to_at cutoff s.clock
  | earlier deadline other =>
    simp only [step] at hstep
    split at hstep
    · next first second hfirst hsecond =>
      cases hstep
      refine ⟨h.sizes, h.forest, fun pair hpair => ?_, h.contexts, h.limits, h.waiters⟩
      rcases List.mem_append.mp hpair with hold | hnew
      · exact h.deadlines pair hold
      · rw [List.mem_singleton.mp hnew]
        exact (h.deadlines first (List.mem_of_getElem? hfirst)).earlier
          (h.deadlines second (List.mem_of_getElem? hsecond))
    · cases hstep
  | deadlineOf context =>
    simp only [step] at hstep
    split at hstep
    · next deadline token hcontext =>
      obtain ⟨-, hmatches⟩ := h.contexts _ (List.mem_of_getElem? hcontext)
      split at hstep
      · next limit hlimit =>
        cases hstep
        refine ⟨h.sizes, h.forest, fun pair hpair => ?_, h.contexts, h.limits, h.waiters⟩
        rcases List.mem_append.mp hpair with hold | hnew
        · exact h.deadlines pair hold
        · rw [List.mem_singleton.mp hnew]
          rw [hlimit] at hmatches
          exact hmatches
      · cases hstep
    · cases hstep
  | unbounded =>
    cases hstep
    exact h.spawn hroot trivial
  | fromDeadline deadline =>
    simp only [step] at hstep
    split at hstep
    · next deadline cutoff hget =>
      cases hstep
      exact h.spawn hroot (h.deadlines _ (List.mem_of_getElem? hget))
    · cases hstep
  | withTimeout budget =>
    cases hstep
    exact h.spawn hroot (Deadline.counts_to_new (Nat.le_refl _) budget)
  | child context ceiling =>
    simp only [step] at hstep
    split at hstep
    · next parent hget =>
      cases hstep
      obtain ⟨hscope, hmatches⟩ := h.contexts parent (List.mem_of_getElem? hget)
      refine h.spawn (fun p hp => ?_) (matches_clamp hmatches)
      rw [← Option.some.inj hp]
      exact hscope
    · cases hstep
  | childContext context =>
    simp only [step] at hstep
    split at hstep
    · next parent hget =>
      cases hstep
      obtain ⟨hscope, hmatches⟩ := h.contexts parent (List.mem_of_getElem? hget)
      refine h.spawn (fun p hp => ?_) hmatches
      rw [← Option.some.inj hp]
      exact hscope
    · cases hstep
  | clone context =>
    simp only [step] at hstep
    split at hstep
    · next original hget =>
      cases hstep
      refine ⟨h.sizes, h.forest, h.deadlines, fun context hcontext => ?_, h.limits,
        fun waiter hwaiter => ?_⟩
      · rcases List.mem_append.mp hcontext with hold | hnew
        · exact h.contexts context hold
        · rw [List.mem_singleton.mp hnew]
          exact h.contexts original (List.mem_of_getElem? hget)
      · obtain ⟨hcontext, hsleep⟩ := h.waiters waiter hwaiter
        exact ⟨List.mem_append_left _ hcontext, hsleep⟩
    · cases hstep
  | cancel context =>
    simp only [step] at hstep
    split at hstep
    · cases hstep
      exact ⟨h.sizes, h.forest, h.deadlines, h.contexts, h.limits, h.waiters⟩
    · cases hstep
  | wait context =>
    simp only [step] at hstep
    split at hstep
    · next target hget =>
      cases hstep
      refine ⟨h.sizes, h.forest, h.deadlines, h.contexts, h.limits, fun waiter hwaiter => ?_⟩
      rcases List.mem_append.mp hwaiter with hold | hnew
      · exact h.waiters waiter hold
      · rw [List.mem_singleton.mp hnew]
        exact ⟨List.mem_of_getElem? hget, fun _ => nofun⟩
    · cases hstep
  | poll index fired =>
    simp only [step] at hstep
    split at hstep
    · next waiter hget =>
      split at hstep
      · cases hstep
        refine ⟨h.sizes, h.forest, h.deadlines, h.contexts, h.limits, fun other hother => ?_⟩
        have hmem := List.mem_of_getElem? hget
        rcases List.mem_or_eq_of_mem_set hother with hold | rfl
        · exact h.waiters other hold
        · exact ⟨(h.waiters waiter hmem).1, fun due hdue => poll_sleep h hmem hdue⟩
      · cases hstep
    · cases hstep

theorem sound_initial : Sound initial where
  sizes := rfl
  forest := nofun
  deadlines := nofun
  contexts := nofun
  limits := fun _ h => absurd h (Nat.not_lt_zero _)
  waiters := nofun

theorem sound_reachable (h : system.Reachable s) : Sound s := by
  refine h.induction (P := Sound) sound_initial ?_
  intro s e t _ hs hstep
  exact sound_move hs hstep

theorem Sound.cancelled_iff (h : Sound s) {scope : ℕ} (hscope : scope < s.parents.length) :
    s.isCancelled scope = true ↔ ∃ above ∈ s.cancels, Ancestor s.parents scope above := by
  rw [State.isCancelled, marked_iff h.forest hscope]
  refine exists_congr fun above => ?_
  rw [decide_eq_true_eq]

theorem Sound.expired_iff (h : Sound s) {context : OperationContext} (hcontext : context ∈ s.contexts)
    {now : ℕ} (hnow : s.clock ≤ now) :
    context.expiredAt now = true ↔
      ∃ cutoff, s.Bounds context.cancellation cutoff ∧ cutoff ≤ now := by
  obtain ⟨hscope, hmatches⟩ := h.contexts context hcontext
  have hleast := h.limits _ hscope
  unfold OperationContext.expiredAt
  cases hdeadline : context.deadline with
  | none =>
    rw [hdeadline] at hmatches
    cases hlimit : s.limitOf context.cancellation with
    | none =>
      rw [hlimit] at hleast
      exact ⟨nofun, fun ⟨cutoff, hbound, _⟩ => absurd hbound (hleast cutoff)⟩
    | some _ =>
      rw [hlimit] at hmatches
      exact hmatches.elim
  | some deadline =>
    rw [hdeadline] at hmatches
    cases hlimit : s.limitOf context.cancellation with
    | none =>
      rw [hlimit] at hmatches
      exact hmatches.elim
    | some limit =>
      rw [hlimit] at hmatches hleast
      have hcounts : deadline.CountsTo s.clock limit := hmatches
      refine (hcounts.expired_iff hnow).trans ⟨fun hle => ⟨limit, hleast.1, hle⟩, ?_⟩
      rintro ⟨cutoff, hbound, hle⟩
      exact Nat.le_trans (hleast.2 hbound) hle

theorem Sound.remaining_none (h : Sound s) {context : OperationContext}
    (hcontext : context ∈ s.contexts) (now : ℕ) :
    context.remainingAt now = none ↔ ∀ cutoff, ¬ s.Bounds context.cancellation cutoff := by
  obtain ⟨hscope, hmatches⟩ := h.contexts context hcontext
  have hleast := h.limits _ hscope
  unfold OperationContext.remainingAt
  cases hlimit : s.limitOf context.cancellation with
  | none =>
    rw [hlimit] at hmatches hleast
    cases hdeadline : context.deadline with
    | none => exact ⟨fun _ => hleast, fun _ => rfl⟩
    | some deadline =>
      rw [hdeadline] at hmatches
      exact hmatches.elim
  | some limit =>
    rw [hlimit] at hmatches hleast
    cases hdeadline : context.deadline with
    | none =>
      rw [hdeadline] at hmatches
      exact hmatches.elim
    | some deadline => exact ⟨nofun, fun hno => absurd hleast.1 (hno limit)⟩

theorem Sound.remaining_some (h : Sound s) {context : OperationContext}
    (hcontext : context ∈ s.contexts) {now remaining : ℕ} (hnow : s.clock ≤ now)
    (hremaining : context.remainingAt now = some remaining) :
    ∃ cutoff, IsLeast {cutoff | s.Bounds context.cancellation cutoff} cutoff ∧
      remaining = cutoff - now := by
  obtain ⟨hscope, hmatches⟩ := h.contexts context hcontext
  have hleast := h.limits _ hscope
  obtain ⟨deadline, hdeadline, rfl⟩ := Option.map_eq_some_iff.mp hremaining
  rw [hdeadline] at hmatches
  cases hlimit : s.limitOf context.cancellation with
  | none =>
    rw [hlimit] at hmatches
    exact hmatches.elim
  | some limit =>
    rw [hlimit] at hmatches hleast
    have hcounts : deadline.CountsTo s.clock limit := hmatches
    exact ⟨limit, hleast, hcounts now hnow⟩

theorem Sound.remaining_le (h : Sound s) {context : OperationContext}
    (hcontext : context ∈ s.contexts) {now cutoff : ℕ} (hnow : s.clock ≤ now)
    (hbound : s.Bounds context.cancellation cutoff) :
    ∃ remaining, context.remainingAt now = some remaining ∧ remaining ≤ cutoff - now := by
  cases hremaining : context.remainingAt now with
  | none => exact absurd hbound ((h.remaining_none hcontext now).mp hremaining cutoff)
  | some remaining =>
    obtain ⟨limit, hleast, rfl⟩ := h.remaining_some hcontext hnow hremaining
    exact ⟨_, rfl, Nat.sub_le_sub_right (hleast.2 hbound) now⟩

theorem Sound.remaining_ancestor (h : Sound s) {context above : OperationContext}
    (hcontext : context ∈ s.contexts) (habove : above ∈ s.contexts)
    (hpath : Ancestor s.parents context.cancellation above.cancellation) {now remaining : ℕ}
    (hnow : s.clock ≤ now) (hremaining : above.remainingAt now = some remaining) :
    ∃ own, context.remainingAt now = some own ∧ own ≤ remaining := by
  obtain ⟨cutoff, hleast, rfl⟩ := h.remaining_some habove hnow hremaining
  obtain ⟨source, hup, hown⟩ := hleast.1
  exact h.remaining_le hcontext hnow ⟨source, hpath.trans hup, hown⟩

theorem stopped_deadline {context : OperationContext} {now : ℕ} :
    s.stoppedAt context now = some .deadline ↔ context.expiredAt now = true := by
  unfold State.stoppedAt
  split_ifs with hexpired hcancelled
  · exact ⟨fun _ => hexpired, fun _ => rfl⟩
  · exact ⟨nofun, fun hyes => absurd hyes hexpired⟩
  · exact ⟨nofun, fun hyes => absurd hyes hexpired⟩

theorem stopped_cancelled {context : OperationContext} {now : ℕ} :
    s.stoppedAt context now = some .cancelled ↔
      ¬ context.expiredAt now = true ∧ s.isCancelled context.cancellation = true := by
  unfold State.stoppedAt
  split_ifs with hexpired hcancelled
  · exact ⟨nofun, fun hno => absurd hexpired hno.1⟩
  · exact ⟨fun _ => ⟨hexpired, hcancelled⟩, fun _ => rfl⟩
  · exact ⟨nofun, fun hno => absurd hno.2 hcancelled⟩

/-- The deadline half of a poll: ready only when expired, and when expired pending only in a sleep
that is due and has not fired. -/
theorem poll_deadline (h : Sound s) {waiter : Waiter} (hwaiter : waiter ∈ s.waiters)
    {deadline : Deadline} (hdeadline : waiter.context.deadline = some deadline) (fired : Bool) :
    ((pollDeadline deadline s.clock fired waiter.sleep).1 = true →
      deadline.expiredAt s.clock = true) ∧
    ((pollDeadline deadline s.clock fired waiter.sleep).1 = false →
      deadline.expiredAt s.clock = true →
        ∃ due, waiter.sleep = some due ∧ due ≤ s.clock ∧ fired = false) := by
  unfold pollDeadline
  split_ifs with hasleep hexpired
  · refine ⟨nofun, fun _ hexpired => ?_⟩
    rw [Bool.and_eq_true, Bool.not_eq_true', Option.isSome_iff_exists] at hasleep
    obtain ⟨⟨due, hdue⟩, hfired⟩ := hasleep
    obtain ⟨hcontext, hsleep⟩ := h.waiters waiter hwaiter
    obtain ⟨limit, hlimit, hle⟩ := hsleep due hdue
    have hmatches := (h.contexts _ hcontext).2
    rw [hdeadline, hlimit] at hmatches
    have hcounts : deadline.CountsTo s.clock limit := hmatches
    exact ⟨due, hdue, Nat.le_trans hle ((hcounts.expired_iff (Nat.le_refl _)).mp hexpired), hfired⟩
  · exact ⟨fun _ => hexpired, nofun⟩
  · exact ⟨nofun, fun _ hyes => absurd hyes hexpired⟩

/-- A poll answers as `stopped` would, or in a sleep that is due and has not fired. -/
theorem poll_result (h : Sound s) {waiter : Waiter} (hwaiter : waiter ∈ s.waiters) (fired : Bool) :
    (s.poll waiter fired).result = s.stoppedAt waiter.context s.clock ∨
      (s.stoppedAt waiter.context s.clock = some .deadline ∧
        (s.poll waiter fired).result =
          (if s.isCancelled waiter.context.cancellation then some .cancelled else none) ∧
        ∃ due, waiter.sleep = some due ∧ due ≤ s.clock ∧ fired = false) := by
  cases hdeadline : waiter.context.deadline with
  | none =>
    left
    simp only [State.poll, State.stoppedAt, OperationContext.expiredAt, hdeadline]
  | some deadline =>
    obtain ⟨hready, hlate⟩ := poll_deadline h hwaiter hdeadline fired
    have hsame : waiter.context.expiredAt s.clock = deadline.expiredAt s.clock := by
      rw [OperationContext.expiredAt, hdeadline]
    simp only [State.poll, State.stoppedAt, hdeadline, hsame]
    by_cases hpoll : (pollDeadline deadline s.clock fired waiter.sleep).1 = true
    · left
      rw [if_pos hpoll, if_pos (hready hpoll)]
    · rw [if_neg hpoll]
      by_cases hexpired : deadline.expiredAt s.clock = true
      · right
        rw [if_pos hexpired]
        exact ⟨rfl, rfl, hlate (Bool.not_eq_true _ ▸ hpoll) hexpired⟩
      · left
        rw [if_neg hexpired]

/-- A context reports its deadline iff an instant is at or past some cutoff above it, and else
cancellation iff it, a clone or one above was cancelled; what remains is the least cutoff less the
instant, so never more than above it and never growing; a child starts with no more than its
ceiling and its parent; a wait ends as `stopped` says, except that in a sleep whose timer is late
it may still end by cancellation or go on. -/
theorem contexts_only_shrink {s : State} (h : system.Reachable s) :
    (∀ context ∈ s.contexts, ∀ now, s.clock ≤ now →
      (s.stoppedAt context now = some .deadline ↔
        ∃ cutoff, s.Bounds context.cancellation cutoff ∧ cutoff ≤ now) ∧
      (s.stoppedAt context now = some .cancelled ↔
        (¬ ∃ cutoff, s.Bounds context.cancellation cutoff ∧ cutoff ≤ now) ∧
          ∃ above ∈ s.cancels, Ancestor s.parents context.cancellation above) ∧
      (context.remainingAt now = none ↔ ∀ cutoff, ¬ s.Bounds context.cancellation cutoff) ∧
      (∀ remaining, context.remainingAt now = some remaining →
        ∃ cutoff, IsLeast {cutoff | s.Bounds context.cancellation cutoff} cutoff ∧
          remaining = cutoff - now) ∧
      (∀ above ∈ s.contexts, Ancestor s.parents context.cancellation above.cancellation →
        ∀ remaining, above.remainingAt now = some remaining →
          ∃ own, context.remainingAt now = some own ∧ own ≤ remaining) ∧
      (∀ later remaining rest, now ≤ later → context.remainingAt now = some remaining →
        context.remainingAt later = some rest → rest ≤ remaining)) ∧
    (∀ (index ceiling : ℕ) parent t, s.contexts[index]? = some parent →
      step s (.child index ceiling) = some t →
      ∃ child, t.contexts = s.contexts ++ [child] ∧ ∀ now, s.clock ≤ now →
        ∃ own, child.remainingAt now = some own ∧ own ≤ ceiling ∧
          ∀ remaining, parent.remainingAt now = some remaining → own ≤ remaining) ∧
    (∀ (index : ℕ) waiter fired t, s.waiters[index]? = some waiter →
      step s (.poll index fired) = some t →
      ∃ polled, t.waiters[index]? = some polled ∧
        (polled.result = s.stoppedAt waiter.context s.clock ∨
          s.stoppedAt waiter.context s.clock = some .deadline ∧
            polled.result =
              (if s.isCancelled waiter.context.cancellation then some .cancelled else none) ∧
            ∃ due, waiter.sleep = some due ∧ due ≤ s.clock ∧ fired = false)) := by
  have hsound := sound_reachable h
  refine ⟨?_, ?_, ?_⟩
  · intro context hcontext now hnow
    have hexpired := hsound.expired_iff hcontext hnow
    refine ⟨stopped_deadline.trans hexpired, ?_, hsound.remaining_none hcontext now,
      fun remaining hremaining => hsound.remaining_some hcontext hnow hremaining, ?_, ?_⟩
    · rw [stopped_cancelled, hexpired, hsound.cancelled_iff (hsound.contexts _ hcontext).1]
    · intro above habove hpath remaining hremaining
      exact hsound.remaining_ancestor hcontext habove hpath hnow hremaining
    · intro later remaining rest hlater hremaining hrest
      obtain ⟨cutoff, hleast, rfl⟩ := hsound.remaining_some hcontext hnow hremaining
      obtain ⟨other, hother, rfl⟩ :=
        hsound.remaining_some hcontext (Nat.le_trans hnow hlater) hrest
      rw [hleast.unique hother]
      exact Nat.sub_le_sub_left hlater other
  · intro index ceiling parent t hget hstep
    have hafter := sound_move hsound hstep
    simp only [step, hget] at hstep
    cases hstep
    refine ⟨_, rfl, fun now hnow => ?_⟩
    have hmem : (⟨some (parent.clamp ceiling s.clock), s.parents.length⟩ : OperationContext) ∈
        (s.spawn (some parent.cancellation) (some (parent.clamp ceiling s.clock))
          (some (s.clock + ceiling))).contexts := List.mem_append_right _ List.mem_cons_self
    have hscope : ∀ p, some parent.cancellation = some p → p < s.parents.length := by
      rintro p hp
      rw [← Option.some.inj hp]
      exact (hsound.contexts parent (List.mem_of_getElem? hget)).1
    have hown := (hsound.bounds_new hscope (some (parent.clamp ceiling s.clock))
      (some (s.clock + ceiling)) (s.clock + ceiling)).mpr (.inl rfl)
    obtain ⟨own, hremaining, hle⟩ := hafter.remaining_le hmem hnow hown
    refine ⟨own, hremaining, by omega, fun remaining hparent => ?_⟩
    obtain ⟨cutoff, hleast, rfl⟩ :=
      hsound.remaining_some (List.mem_of_getElem? hget) hnow hparent
    have hup := (hsound.bounds_new hscope (some (parent.clamp ceiling s.clock))
      (some (s.clock + ceiling)) cutoff).mpr (.inr ⟨_, rfl, hleast.1⟩)
    obtain ⟨same, hsame, hbelow⟩ := hafter.remaining_le hmem hnow hup
    rw [hremaining, Option.some.injEq] at hsame
    rw [hsame]
    exact hbelow
  · intro index waiter fired t hget hstep
    simp only [step, hget] at hstep
    split at hstep
    · cases hstep
      have hindex : index < s.waiters.length := (List.getElem?_eq_some_iff.mp hget).1
      exact ⟨_, List.getElem?_set_self hindex,
        poll_result hsound (List.mem_of_getElem? hget) fired⟩
    · cases hstep

def halfMillisecond : List Event :=
  [.withTimeout 1000000, .child 0 500000, .wait 1, .poll 0 false, .advance 600000, .cancel 0]

theorem half_spent : ∃ s, system.run system.initial halfMillisecond = some s ∧
    ∃ context ∈ s.contexts, context.remainingAt s.clock = some 0 ∧
      ∃ cutoff, IsLeast {cutoff | s.Bounds context.cancellation cutoff} cutoff ∧
        0 = cutoff - s.clock := by
  refine ⟨_, rfl, ⟨some ⟨0, 500000⟩, 1⟩, .tail _ (.head _), rfl, ?_⟩
  have hrun : system.run system.initial halfMillisecond = some _ := rfl
  have hreachable : system.Reachable _ := System.reachable_of_run hrun
  exact ((contexts_only_shrink hreachable).1 _ (.tail _ (.head _)) _ (Nat.le_refl _)).2.2.2.1 0 rfl

/-- The sleep is due and its timer is late, so cancellation ends the wait of an expired context. -/
theorem late_timer : ¬ ∀ s, system.Reachable s → ∀ (index : ℕ) waiter fired t,
    s.waiters[index]? = some waiter → step s (.poll index fired) = some t →
    ∀ polled, t.waiters[index]? = some polled → polled.result ≠ none →
      polled.result = s.stoppedAt waiter.context s.clock := by
  intro hclaim
  have hrun : system.run system.initial halfMillisecond = some _ := rfl
  have hreachable : system.Reachable _ := System.reachable_of_run hrun
  have hsame := hclaim _ hreachable 0 _ false _ rfl rfl _ rfl nofun
  cases hsame

end

end OperationContexts
