import ServiceTemplate.TransitionSystem
import Mathlib.Data.List.Induction
import Mathlib.Logic.Function.Basic

/-! The JWKS refresh shared by every request.
Callers take tickets under the watch lock, one worker performs every fetch, and a waiter reads
the store when its ticket is served. `starts` and `results` record the fetches in order, the
startup fetch first among the starts. Ready branches of the worker's select race. -/
namespace JwksRefresh

open TransitionSystem

/-- Nanoseconds of the monotonic clock. -/
abbrev Time := ℕ
abbrev CallerId := ℕ

def refreshInterval : Time := 15 * 60 * 1000000000
def refreshCooldown : Time := 30 * 1000000000
def refreshSpread : Time := 90 * 1000000000

/-- A failed sample counts as zero. -/
def refreshPeriodForSample (sample : Option UInt16) : Time :=
  refreshInterval - refreshSpread * (sample.getD 0).toNat / 65535

inductive RefreshFailure where
  | fetch
  | parse
  | noUsableKeys
  deriving DecidableEq, Repr

/-- The keys stand for shared pointers to key sets; their equality is pointer equality. -/
inductive UnknownKeyRefresh (K : Type*) where
  | refreshed (keys : K)
  | stillUnknown
  | unavailable
  deriving DecidableEq, Repr

inductive Origin where
  | startup
  | unknownKey
  | periodic
  deriving DecidableEq, Repr

structure Start where
  time : Time
  origin : Origin
  deriving DecidableEq, Repr

/-- A caller that holds a ticket. `began` counts the fetches finished when the call began, and
`notifies` says that it issued the ticket and has not woken the worker yet. -/
structure Caller (K : Type*) where
  checked : K
  began : ℕ
  ticket : ℕ
  notifies : Bool

structure Answer (K : Type*) where
  caller : CallerId
  checked : K
  began : ℕ
  finished : ℕ
  time : Time
  stopped : Bool
  outcome : UnknownKeyRefresh K

inductive Worker where
  | selecting
  | draining
  | fetching (ticket : ℕ)
  | stopping
  | done
  deriving DecidableEq, Repr

structure State (K : Type*) where
  clock : Time
  keys : K
  requested : ℕ
  finished : ℕ
  lastStarted : Time
  lastSucceeded : Bool
  stopped : Bool
  wake : Bool
  cancelled : Bool
  worker : Worker
  nextRefresh : Time
  callers : CallerId → Option (Caller K)
  starts : List Start
  results : List (Except RefreshFailure K)
  answers : List (Answer K)

/-- A call reads the clock twice inside its critical section; `between` passes in between. -/
inductive Event (K : Type*) where
  | tick (elapsed : ℕ)
  | call (w : CallerId) (checked : K) (between : ℕ)
  | notify (w : CallerId)
  | resume (w : CallerId)
  | drop (w : CallerId)
  | cancel
  | woken
  | timer (sample : Option UInt16)
  | poll
  | fetched (result : Except RefreshFailure K)
  | leave
  | stop

variable {K : Type*}

def initial (startup : K) (sample : Option UInt16) : State K where
  clock := 0
  keys := startup
  requested := 0
  finished := 0
  lastStarted := 0
  lastSucceeded := true
  stopped := false
  wake := false
  cancelled := false
  worker := .selecting
  nextRefresh := refreshPeriodForSample sample
  callers := fun _ => none
  starts := [⟨0, .startup⟩]
  results := []
  answers := []

def State.answer (s : State K) (w : CallerId) (checked : K) (began : ℕ)
    (outcome : UnknownKeyRefresh K) : State K :=
  { s with answers := s.answers ++ [⟨w, checked, began, s.finished, s.clock, s.stopped, outcome⟩] }

/-- `Instant::elapsed` saturates at zero. -/
def State.cooling (s : State K) : Bool := s.clock - s.lastStarted < refreshCooldown

def State.issue (s : State K) (origin : Origin) : State K :=
  { s with
    requested := s.requested + 1
    lastStarted := s.clock
    starts := s.starts ++ [⟨s.clock, origin⟩] }

def cooldownAnswer [DecidableEq K] (s : State K) (checked : K) : UnknownKeyRefresh K :=
  if s.lastSucceeded then if s.keys = checked then .stillUnknown else .refreshed s.keys
  else .unavailable

/-- The critical section of `refresh_for_unknown_key`. -/
def call [DecidableEq K] (s : State K) (w : CallerId) (checked : K) (between : ℕ) : Option (State K) :=
  match s.callers w with
  | some _ => none
  | none =>
    if s.stopped then some (s.answer w checked s.finished .unavailable)
    else if s.finished < s.requested then
      some { s with
        callers := Function.update s.callers w
          (some ⟨checked, s.finished, s.requested, false⟩) }
    else if s.cooling then some (s.answer w checked s.finished (cooldownAnswer s checked))
    else
      let issued := { s with clock := s.clock + between }.issue .unknownKey
      some { issued with
        callers := Function.update s.callers w
          (some ⟨checked, s.finished, issued.requested, true⟩) }

/-- `notify_one` leaves a permit when the worker does not wait. -/
def notify (s : State K) (w : CallerId) : Option (State K) :=
  match s.callers w with
  | some ⟨checked, began, ticket, true⟩ =>
    some { s with
      wake := true
      callers := Function.update s.callers w (some ⟨checked, began, ticket, false⟩) }
  | _ => none

def State.served (s : State K) (ticket : ℕ) : Bool := s.stopped || ticket ≤ s.finished

def servedAnswer (s : State K) : UnknownKeyRefresh K :=
  if !s.stopped && s.lastSucceeded then .refreshed s.keys else .unavailable

/-- The end of `wait_for`, on the snapshot that satisfied it. -/
def resume (s : State K) (w : CallerId) : Option (State K) :=
  match s.callers w with
  | some ⟨checked, began, ticket, false⟩ =>
    if s.served ticket then
      some ({ s with callers := Function.update s.callers w none }.answer w checked began
        (servedAnswer s))
    else none
  | _ => none

/-- The call is dropped at its only await. -/
def drop (s : State K) (w : CallerId) : Option (State K) :=
  match s.callers w with
  | some ⟨_, _, _, false⟩ => some { s with callers := Function.update s.callers w none }
  | _ => none

def requestPeriodic (s : State K) : State K :=
  if s.finished < s.requested then s else s.issue .periodic

def pending (s : State K) : Option ℕ :=
  if s.finished < s.requested then some s.requested else none

def finish (s : State K) (ticket : ℕ) (replacement : Except RefreshFailure K) : State K :=
  { s with
    keys := match replacement with
      | .ok keys => keys
      | .error _ => s.keys
    finished := ticket
    lastSucceeded := replacement.isOk
    results := s.results ++ [replacement] }

def woken (s : State K) : Option (State K) :=
  if s.worker = .selecting ∧ s.wake then some { s with wake := false, worker := .draining }
  else none

def timer (s : State K) (sample : Option UInt16) : Option (State K) :=
  if s.worker = .selecting ∧ s.nextRefresh ≤ s.clock then
    some { requestPeriodic s with
      worker := .draining, nextRefresh := s.clock + refreshPeriodForSample sample }
  else none

def poll (s : State K) : Option (State K) :=
  if s.worker = .draining then
    some { s with worker := match pending s with
      | some ticket => .fetching ticket
      | none => .selecting }
  else none

def fetched (s : State K) (result : Except RefreshFailure K) : Option (State K) :=
  match s.worker with
  | .fetching ticket => some { finish s ticket result with worker := .draining }
  | _ => none

def Worker.waits : Worker → Bool
  | .selecting | .fetching _ => true
  | _ => false

/-- A cancelled wait breaks the loop; a fetch it was waiting for has no result. -/
def leave (s : State K) : Option (State K) :=
  if s.worker.waits ∧ s.cancelled then some { s with worker := .stopping } else none

def stop (s : State K) : Option (State K) :=
  if s.worker = .stopping then some { s with stopped := true, worker := .done } else none

def step [DecidableEq K] (s : State K) : Event K → Option (State K)
  | .tick elapsed => some { s with clock := s.clock + elapsed }
  | .call w checked between => call s w checked between
  | .notify w => notify s w
  | .resume w => resume s w
  | .drop w => drop s w
  | .cancel => some { s with cancelled := true }
  | .woken => woken s
  | .timer sample => timer s sample
  | .poll => poll s
  | .fetched result => fetched s result
  | .leave => leave s
  | .stop => stop s

def keyStore [DecidableEq K] (startup : K) (sample : Option UInt16) : System (State K) (Event K) :=
  ⟨initial startup sample, step⟩

def replace (keys : K) : Except RefreshFailure K → K
  | .ok keys => keys
  | .error _ => keys

/-- The result of the most recent successful fetch, or the startup set. -/
def installed (startup : K) (results : List (Except RefreshFailure K)) : K :=
  results.foldl replace startup

def succeeded (results : List (Except RefreshFailure K)) : Bool :=
  match results.getLast? with
  | none => true
  | some result => result.isOk

/-- A fetch for an unknown key starts no earlier than a cooldown after every earlier start. -/
def Spaced (starts : List Start) : Prop :=
  ∀ l₁ l₂ start, starts = l₁ ++ start :: l₂ → start.origin = .unknownKey →
    ∀ earlier ∈ l₁, earlier.time + refreshCooldown ≤ start.time

/-- What an answer may say, given the fetches up to the moment it was decided. -/
structure Justified (startup : K) (starts : List Start) (results : List (Except RefreshFailure K))
    (answer : Answer K) : Prop where
  began : answer.began ≤ answer.finished
  finished : answer.finished ≤ results.length
  refreshed : ∀ keys, answer.outcome = .refreshed keys →
    keys = installed startup (results.take answer.finished) ∧ (keys ≠ answer.checked ∨
      ∃ n, answer.began ≤ n ∧ n < answer.finished ∧ results[n]? = some (.ok keys))
  stillUnknown : answer.outcome = .stillUnknown →
    answer.checked = installed startup (results.take answer.finished) ∧
      succeeded (results.take answer.finished) = true ∧
      ∃ start, starts[answer.finished]? = some start ∧
        answer.time - start.time < refreshCooldown
  stopped : answer.stopped = true → answer.outcome = .unavailable

theorem installed_snoc (startup : K) (results : List (Except RefreshFailure K))
    (result : Except RefreshFailure K) :
    installed startup (results ++ [result]) = replace (installed startup results) result := by
  simp [installed]

theorem succeeded_snoc (results : List (Except RefreshFailure K))
    (result : Except RefreshFailure K) : succeeded (results ++ [result]) = result.isOk := by
  simp [succeeded]

theorem installed_latest (startup : K) {results : List (Except RefreshFailure K)}
    (h : succeeded results = true) (hne : results ≠ []) :
    results[results.length - 1]? = some (.ok (installed startup results)) := by
  induction results using List.reverseRecOn with
  | nil => exact absurd rfl hne
  | append_singleton results result _ =>
    rw [succeeded_snoc] at h
    cases result with
    | error failure => cases h
    | ok keys => simp [installed_snoc, replace]

theorem Spaced.snoc {starts : List Start} (h : Spaced starts) {start : Start}
    (hstart : start.origin = .unknownKey → ∀ earlier ∈ starts,
      earlier.time + refreshCooldown ≤ start.time) : Spaced (starts ++ [start]) := by
  intro l₁ l₂ other hsplit horigin
  induction l₂ using List.reverseRecOn with
  | nil =>
    rcases List.append_inj' hsplit rfl with ⟨rfl, hlast⟩
    cases hlast
    exact hstart horigin
  | append_singleton l₂ last _ =>
    rw [← List.cons_append, ← List.append_assoc] at hsplit
    rcases List.append_inj' hsplit rfl with ⟨rfl, -⟩
    exact h l₁ l₂ other rfl horigin

/-- Later fetches change nothing of what justified an answer. -/
theorem Justified.extend {startup : K} {starts : List Start}
    {results : List (Except RefreshFailure K)} {answer : Answer K}
    (h : Justified startup starts results answer) (moreStarts : List Start)
    (moreResults : List (Except RefreshFailure K)) :
    Justified startup (starts ++ moreStarts) (results ++ moreResults) answer := by
  have hfinished := h.finished
  have htake : (results ++ moreResults).take answer.finished = results.take answer.finished :=
    List.take_append_of_le_length hfinished
  refine ⟨h.began, ?_, ?_, ?_, h.stopped⟩
  · rw [List.length_append]
    omega
  · intro keys hkeys
    rcases h.refreshed keys hkeys with ⟨hinstalled, hnew⟩
    refine ⟨htake ▸ hinstalled, hnew.imp_right ?_⟩
    rintro ⟨n, hbegan, hn, hresult⟩
    exact ⟨n, hbegan, hn, by rw [List.getElem?_append_left (by omega), hresult]⟩
  · intro hunknown
    rcases h.stillUnknown hunknown with ⟨hchecked, hlatest, start, hstart, hcooling⟩
    refine ⟨htake ▸ hchecked, htake ▸ hlatest, start, ?_, hcooling⟩
    have hlt := (List.getElem?_eq_some_iff.mp hstart).1
    rw [List.getElem?_append_left hlt, hstart]

/-- A caller's ticket was not served when its call began, and was issued. -/
structure Waiting (requested finished : ℕ) (caller : Caller K) : Prop where
  began : caller.began ≤ finished
  unserved : caller.began < caller.ticket
  issued : caller.ticket ≤ requested

structure Inv (startup : K) (s : State K) : Prop where
  window : s.finished ≤ s.requested ∧ s.requested ≤ s.finished + 1
  flight : ∀ ticket, s.worker = .fetching ticket →
    ticket = s.requested ∧ s.requested = s.finished + 1
  counted : s.results.length = s.finished
  installed : s.keys = installed startup s.results
  succeeded : s.lastSucceeded = succeeded s.results
  started : s.starts.length = s.requested + 1
  last : ∃ origin, s.starts[s.requested]? = some ⟨s.lastStarted, origin⟩
  past : (∀ start ∈ s.starts, start.time ≤ s.lastStarted) ∧ s.lastStarted ≤ s.clock
  spaced : Spaced s.starts
  waiting : ∀ w caller, s.callers w = some caller → Waiting s.requested s.finished caller
  answers : ∀ answer ∈ s.answers, Justified startup s.starts s.results answer

variable {startup : K} {s t : State K}

theorem Inv.answer (h : Inv startup s) {w : CallerId} {checked : K} {began : ℕ}
    {outcome : UnknownKeyRefresh K} {callers : CallerId → Option (Caller K)}
    (hcallers : ∀ v caller, callers v = some caller → s.callers v = some caller)
    (hanswer : Justified startup s.starts s.results
      ⟨w, checked, began, s.finished, s.clock, s.stopped, outcome⟩) :
    Inv startup ({ s with callers := callers }.answer w checked began outcome) := by
  refine { h with waiting := ?_, answers := ?_ }
  · intro v caller hcaller
    exact h.waiting v caller (hcallers v caller hcaller)
  · intro answer hmem
    rcases List.mem_append.mp hmem with hmem | hmem
    · exact h.answers answer hmem
    · rw [List.mem_singleton] at hmem
      subst hmem
      exact hanswer

theorem Inv.issue (h : Inv startup s) (hidle : s.requested ≤ s.finished) (origin : Origin)
    (hspaced : origin = .unknownKey → s.lastStarted + refreshCooldown ≤ s.clock) :
    Inv startup (s.issue origin) := by
  have hwindow := h.window
  refine { h with
    window := ?_, flight := ?_, started := ?_, last := ?_, past := ?_, spaced := ?_, waiting := ?_,
    answers := ?_ }
  · simp only [State.issue]
    omega
  · intro ticket hworker
    have hflight := (h.flight ticket hworker).2
    omega
  · simp [State.issue, h.started]
  · refine ⟨origin, ?_⟩
    simp only [State.issue]
    rw [← h.started, List.getElem?_append_right (Nat.le_refl _)]
    simp
  · refine ⟨?_, Nat.le_refl _⟩
    intro start hstart
    rcases List.mem_append.mp hstart with hstart | hstart
    · exact Nat.le_trans (h.past.1 start hstart) h.past.2
    · rw [List.mem_singleton] at hstart
      subst hstart
      exact Nat.le_refl _
  · refine h.spaced.snoc ?_
    intro horigin earlier hearlier
    have hlast := h.past.1 earlier hearlier
    have hcooled := hspaced horigin
    exact Nat.le_trans (Nat.add_le_add_right hlast _) hcooled
  · intro w caller hcaller
    have hwaiting := h.waiting w caller hcaller
    exact { hwaiting with issued := Nat.le_trans hwaiting.issued (Nat.le_succ _) }
  · intro answer hmem
    have hjustified := (h.answers answer hmem).extend [⟨s.clock, origin⟩] []
    rwa [List.append_nil] at hjustified

theorem Inv.finish (h : Inv startup s) {ticket : ℕ} (hworker : s.worker = .fetching ticket)
    (result : Except RefreshFailure K) :
    Inv startup { finish s ticket result with worker := .draining } := by
  rcases h.flight ticket hworker with ⟨hticket, hrequested⟩
  refine { h with
    window := ?_, flight := by simp, counted := ?_, installed := ?_, succeeded := ?_,
    waiting := ?_, answers := ?_ }
  · simp only [JwksRefresh.finish]
    omega
  · simp only [JwksRefresh.finish, List.length_append, List.length_singleton, h.counted]
    omega
  · simp only [JwksRefresh.finish]
    rw [installed_snoc, ← h.installed]
    cases result <;> rfl
  · simp only [JwksRefresh.finish]
    rw [succeeded_snoc]
  · intro w caller hcaller
    have hwaiting := h.waiting w caller hcaller
    have hbegan := hwaiting.began
    refine { hwaiting with began := ?_ }
    simp only [JwksRefresh.finish]
    omega
  · intro answer hmem
    have hjustified := (h.answers answer hmem).extend [] [result]
    rwa [List.append_nil] at hjustified

theorem Inv.take_all (h : Inv startup s) : s.results.take s.finished = s.results := by
  rw [← h.counted]
  exact List.take_length

/-- Inside the cooldown the latest fetch decides, or the caller has an older set. -/
theorem Inv.cooldown_justified [DecidableEq K] (h : Inv startup s) (hstopped : s.stopped = false)
    (hidle : s.requested ≤ s.finished) (hcooling : s.cooling = true) (w : CallerId) (checked : K) :
    Justified startup s.starts s.results ⟨w, checked, s.finished, s.finished, s.clock, s.stopped,
      cooldownAnswer s checked⟩ := by
  have hwindow := h.window
  have hnow : s.requested = s.finished := by omega
  refine ⟨Nat.le_refl _, Nat.le_of_eq h.counted.symm, ?_, ?_, by simp [hstopped]⟩
  · intro keys hkeys
    rw [h.take_all, ← h.installed]
    simp only [cooldownAnswer] at hkeys
    split at hkeys
    · split at hkeys
      · cases hkeys
      · next hne =>
        cases hkeys
        exact ⟨rfl, .inl hne⟩
    · cases hkeys
  · intro hunknown
    rw [h.take_all, ← h.installed, ← h.succeeded]
    simp only [cooldownAnswer] at hunknown
    split at hunknown
    · next hsucceeded =>
      split at hunknown
      · next heq =>
        rcases h.last with ⟨origin, hlast⟩
        rw [hnow] at hlast
        exact ⟨heq.symm, hsucceeded, _, hlast, by simpa [State.cooling] using hcooling⟩
      · cases hunknown
    · cases hunknown

/-- A served waiter is answered with the result of a fetch that finished after its call. -/
theorem Inv.served_justified (h : Inv startup s) {w : CallerId} {caller : Caller K}
    (hcaller : s.callers w = some caller) (hserved : s.served caller.ticket = true) :
    Justified startup s.starts s.results ⟨w, caller.checked, caller.began, s.finished, s.clock,
      s.stopped, servedAnswer s⟩ := by
  have hwaiting := h.waiting w caller hcaller
  refine ⟨hwaiting.began, Nat.le_of_eq h.counted.symm, ?_, ?_, ?_⟩
  · intro keys hkeys
    rw [h.take_all, ← h.installed]
    simp only [servedAnswer] at hkeys
    split at hkeys
    · next hok =>
      cases hkeys
      refine ⟨rfl, .inr ?_⟩
      simp only [Bool.and_eq_true, Bool.not_eq_true'] at hok
      have hticket : caller.ticket ≤ s.finished := by simpa [State.served, hok.1] using hserved
      have hunserved := hwaiting.unserved
      have hcount := h.counted
      have hne : s.results ≠ [] := by
        intro hempty
        rw [hempty, List.length_nil] at hcount
        omega
      have hlatest := installed_latest startup (h.succeeded ▸ hok.2) hne
      rw [← h.installed, hcount] at hlatest
      have hlow : caller.began ≤ s.finished - 1 := by omega
      have hhigh : s.finished - 1 < s.finished := by omega
      exact ⟨s.finished - 1, hlow, hhigh, hlatest⟩
    · cases hkeys
  · intro hunknown
    simp only [servedAnswer] at hunknown
    split at hunknown <;> cases hunknown
  · intro hstopped
    have hstopped : s.stopped = true := hstopped
    simp [servedAnswer, hstopped]

theorem initial_inv (startup : K) (sample : Option UInt16) :
    Inv startup (initial startup sample) where
  window := by simp [initial]
  flight := by simp [initial]
  counted := rfl
  installed := rfl
  succeeded := rfl
  started := rfl
  last := ⟨.startup, rfl⟩
  past := by simp [initial]
  spaced := by
    intro l₁ l₂ start hsplit horigin
    cases l₁ with
    | nil => simp
    | cons first l₁ => simp [initial] at hsplit
  waiting := by simp [initial]
  answers := by simp [initial]

theorem Inv.waits (h : Inv startup s) {w : CallerId} {caller : Caller K}
    (hcaller : Waiting s.requested s.finished caller) : ∀ v other,
      Function.update s.callers w (some caller) v = some other →
        Waiting s.requested s.finished other := by
  intro v other hother
  by_cases hv : v = w
  · subst hv
    rw [Function.update_self, Option.some.injEq] at hother
    subst hother
    exact hcaller
  · rw [Function.update_of_ne hv] at hother
    exact h.waiting v other hother

theorem call_inv [DecidableEq K] (h : Inv startup s) {w : CallerId} {checked : K} {between : ℕ}
    (hop : call s w checked between = some t) : Inv startup t := by
  simp only [call] at hop
  split at hop
  · cases hop
  by_cases hstopped : s.stopped = true
  · rw [if_pos hstopped] at hop
    cases hop
    exact h.answer (fun _ _ hcaller => hcaller)
      ⟨Nat.le_refl _, Nat.le_of_eq h.counted.symm, by simp, by simp, by simp⟩
  rw [if_neg hstopped] at hop
  by_cases hpending : s.finished < s.requested
  · rw [if_pos hpending] at hop
    cases hop
    exact { h with waiting := h.waits ⟨Nat.le_refl _, hpending, Nat.le_refl _⟩ }
  rw [if_neg hpending] at hop
  have hidle : s.requested ≤ s.finished := Nat.le_of_not_lt hpending
  by_cases hcooling : s.cooling = true
  · rw [if_pos hcooling] at hop
    cases hop
    exact h.answer (fun _ _ hcaller => hcaller)
      (h.cooldown_justified (by simpa using hstopped) hidle hcooling w checked)
  · rw [if_neg hcooling] at hop
    cases hop
    simp only [State.cooling, decide_eq_true_eq, Nat.not_lt] at hcooling
    have hcooled : s.lastStarted + refreshCooldown ≤ s.clock :=
      Nat.add_le_of_le_sub' h.past.2 hcooling
    have hlater : Inv startup { s with clock := s.clock + between } :=
      { h with past := ⟨h.past.1, Nat.le_trans h.past.2 (Nat.le_add_right _ _)⟩ }
    have hissued := hlater.issue hidle .unknownKey fun _ =>
      Nat.le_trans hcooled (Nat.le_add_right _ _)
    have hnew : Waiting (s.requested + 1) s.finished
        (⟨checked, s.finished, s.requested + 1, true⟩ : Caller K) :=
      ⟨Nat.le_refl _, Nat.lt_succ_of_le h.window.1, Nat.le_refl _⟩
    exact { hissued with waiting := hissued.waits hnew }

theorem notify_inv (h : Inv startup s) {w : CallerId} (hop : notify s w = some t) :
    Inv startup t := by
  simp only [notify] at hop
  split at hop
  · next checked began ticket hcaller =>
    cases hop
    have hwaiting : Waiting s.requested s.finished ⟨checked, began, ticket, false⟩ :=
      { h.waiting w _ hcaller with }
    exact { h with waiting := h.waits hwaiting }
  · cases hop

theorem update_none {callers : CallerId → Option (Caller K)} {w v : CallerId} {caller : Caller K}
    (h : Function.update callers w none v = some caller) : callers v = some caller := by
  by_cases hv : v = w
  · subst hv
    simp at h
  · rwa [Function.update_of_ne hv] at h

theorem resume_inv (h : Inv startup s) {w : CallerId} (hop : resume s w = some t) :
    Inv startup t := by
  simp only [resume] at hop
  split at hop
  · next checked began ticket hcaller =>
    split at hop
    · next hserved =>
      cases hop
      exact h.answer (fun _ _ hother => update_none hother) (h.served_justified hcaller hserved)
    · cases hop
  · cases hop

theorem drop_inv (h : Inv startup s) {w : CallerId} (hop : drop s w = some t) :
    Inv startup t := by
  simp only [drop] at hop
  split at hop
  · cases hop
    exact { h with waiting := fun v other hother => h.waiting v other (update_none hother) }
  · cases hop

theorem timer_inv (h : Inv startup s) {sample : Option UInt16} (hop : timer s sample = some t) :
    Inv startup t := by
  simp only [timer] at hop
  split at hop
  · cases hop
    have hrequested : Inv startup (requestPeriodic s) := by
      by_cases hpending : s.finished < s.requested
      · simpa [requestPeriodic, hpending] using h
      · rw [requestPeriodic, if_neg hpending]
        exact h.issue (Nat.le_of_not_lt hpending) .periodic (by simp)
    exact { hrequested with flight := by simp }
  · cases hop

theorem poll_inv (h : Inv startup s) (hop : poll s = some t) : Inv startup t := by
  simp only [poll] at hop
  split at hop
  · cases hop
    refine { h with flight := ?_ }
    intro ticket hworker
    have hwindow := h.window
    by_cases hpending : s.finished < s.requested
    · simp only [pending, hpending, if_true, Worker.fetching.injEq] at hworker
      exact ⟨hworker.symm, by simp only; omega⟩
    · simp [pending, hpending] at hworker
  · cases hop

theorem step_inv [DecidableEq K] {e : Event K} (h : Inv startup s) (hstep : step s e = some t) :
    Inv startup t := by
  -- the worker's bookkeeping alone
  have hworker : ∀ worker wake cancelled stopped, (∀ ticket, worker ≠ .fetching ticket) →
      Inv startup { s with
        worker := worker, wake := wake, cancelled := cancelled, stopped := stopped } := by
    intro worker wake cancelled stopped hidle
    exact { h with flight := fun ticket hfetching => absurd hfetching (hidle ticket) }
  cases e with
  | tick elapsed =>
    cases hstep
    exact { h with past := ⟨h.past.1, Nat.le_trans h.past.2 (Nat.le_add_right _ _)⟩ }
  | call => exact call_inv h hstep
  | notify => exact notify_inv h hstep
  | resume => exact resume_inv h hstep
  | drop => exact drop_inv h hstep
  | cancel =>
    cases hstep
    exact { h with }
  | woken =>
    simp only [step, woken] at hstep
    split at hstep
    · cases hstep
      exact hworker .draining false s.cancelled s.stopped (by simp)
    · cases hstep
  | timer => exact timer_inv h hstep
  | poll => exact poll_inv h hstep
  | fetched result =>
    simp only [step, fetched] at hstep
    split at hstep
    · next ticket hfetching =>
      cases hstep
      exact h.finish hfetching result
    · cases hstep
  | leave =>
    simp only [step, leave] at hstep
    split at hstep
    · cases hstep
      exact hworker .stopping s.wake s.cancelled s.stopped (by simp)
    · cases hstep
  | stop =>
    simp only [step, stop] at hstep
    split at hstep
    · cases hstep
      exact hworker .done s.wake s.cancelled true (by simp)
    · cases hstep

/-- A pending ticket always has the worker on its way to it, or a wake-up that is left or owed. -/
def PickedUp (s : State K) : Prop :=
  s.finished < s.requested → s.worker ≠ .selecting ∨ s.wake = true ∨
    ∃ w caller, s.callers w = some caller ∧ caller.notifies = true

theorem PickedUp.callers {s t : State K} (h : PickedUp s) (hfinished : t.finished = s.finished)
    (hrequested : t.requested = s.requested) (hworker : t.worker = s.worker) (hwake : t.wake = s.wake)
    (hkept : ∀ w caller, s.callers w = some caller → caller.notifies = true →
      t.callers w = some caller) : PickedUp t := by
  intro hpending
  rw [hfinished, hrequested] at hpending
  rw [hworker, hwake]
  refine (h hpending).imp_right (.imp_right ?_)
  rintro ⟨w, caller, hcaller, hnotifies⟩
  exact ⟨w, caller, hkept w caller hcaller hnotifies, hnotifies⟩

theorem update_kept {callers : CallerId → Option (Caller K)} {w v : CallerId}
    {caller other : Caller K} {next : Option (Caller K)} (hw : callers w = some caller)
    (hquiet : caller.notifies = false) (hv : callers v = some other)
    (hnotifies : other.notifies = true) : Function.update callers w next v = some other := by
  by_cases heq : v = w
  · subst heq
    rw [hw, Option.some.injEq] at hv
    subst hv
    rw [hquiet] at hnotifies
    cases hnotifies
  · rwa [Function.update_of_ne heq]

theorem call_picked_up [DecidableEq K] (h : PickedUp s) {w : CallerId} {checked : K} {between : ℕ}
    (hop : call s w checked between = some t) : PickedUp t := by
  simp only [call] at hop
  split at hop
  · cases hop
  next hnew =>
  by_cases hstopped : s.stopped = true
  · rw [if_pos hstopped] at hop
    cases hop
    exact h.callers rfl rfl rfl rfl fun _ _ hcaller _ => hcaller
  rw [if_neg hstopped] at hop
  by_cases hpending : s.finished < s.requested
  · rw [if_pos hpending] at hop
    cases hop
    refine h.callers rfl rfl rfl rfl ?_
    intro v other hother hnotifies
    have hv : v ≠ w := by
      rintro rfl
      rw [hnew] at hother
      cases hother
    exact (Function.update_of_ne hv _ _).trans hother
  rw [if_neg hpending] at hop
  by_cases hcooling : s.cooling = true
  · rw [if_pos hcooling] at hop
    cases hop
    exact h.callers rfl rfl rfl rfl fun _ _ hcaller _ => hcaller
  · rw [if_neg hcooling] at hop
    cases hop
    intro _
    exact .inr (.inr ⟨w, _, Function.update_self _ _ _, rfl⟩)

theorem step_picked_up [DecidableEq K] {e : Event K} (h : PickedUp s) (hstep : step s e = some t) :
    PickedUp t := by
  cases e with
  | tick elapsed =>
    cases hstep
    exact h.callers rfl rfl rfl rfl fun _ _ hcaller _ => hcaller
  | call => exact call_picked_up h hstep
  | notify w =>
    simp only [step, notify] at hstep
    split at hstep
    · cases hstep
      exact fun _ => .inr (.inl rfl)
    · cases hstep
  | resume w =>
    simp only [step, resume] at hstep
    split at hstep
    · next hcaller =>
      split at hstep
      · cases hstep
        exact h.callers rfl rfl rfl rfl fun _ _ hother hnotifies =>
          update_kept hcaller rfl hother hnotifies
      · cases hstep
    · cases hstep
  | drop w =>
    simp only [step, drop] at hstep
    split at hstep
    · next hcaller =>
      cases hstep
      exact h.callers rfl rfl rfl rfl fun _ _ hother hnotifies =>
        update_kept hcaller rfl hother hnotifies
    · cases hstep
  | cancel =>
    cases hstep
    exact h.callers rfl rfl rfl rfl fun _ _ hcaller _ => hcaller
  | poll =>
    simp only [step, poll] at hstep
    split at hstep
    · cases hstep
      intro hpending
      have hpending : s.finished < s.requested := hpending
      exact .inl (by simp [pending, hpending])
    · cases hstep
  | fetched result =>
    simp only [step, fetched] at hstep
    split at hstep
    · cases hstep
      exact fun _ => .inl (by simp)
    · cases hstep
  | woken | timer | leave | stop =>
    simp only [step, woken, timer, leave, stop] at hstep
    split at hstep
    · cases hstep
      exact fun _ => .inl (by simp)
    · cases hstep

/-- Served tickets stay served, and a stopped store stays stopped. -/
theorem step_monotone [DecidableEq K] {e : Event K} (h : Inv startup s) (hstep : step s e = some t) :
    s.finished ≤ t.finished ∧ (s.stopped = true → t.stopped = true) := by
  cases e with
  | fetched result =>
    simp only [step, fetched] at hstep
    split at hstep
    · next ticket hfetching =>
      rcases h.flight ticket hfetching with ⟨hticket, hrequested⟩
      cases hstep
      exact ⟨by simp only [finish]; omega, id⟩
    · cases hstep
  | timer sample =>
    simp only [step, timer] at hstep
    split at hstep
    · cases hstep
      by_cases hpending : s.finished < s.requested
      · exact ⟨by simp [requestPeriodic, hpending], by simp [requestPeriodic, hpending]⟩
      · exact ⟨by simp [requestPeriodic, hpending, State.issue],
          by simp [requestPeriodic, hpending, State.issue]⟩
    · cases hstep
  | _ =>
    simp only [step, call, notify, resume, drop, woken, poll, leave, stop] at hstep
    repeat' split at hstep
    all_goals cases hstep
    all_goals exact ⟨Nat.le_refl _, by simp [State.answer, State.issue]⟩

theorem step_keeps [DecidableEq K] {e : Event K} {w : CallerId} {checked : K} {began ticket : ℕ}
    (hcaller : s.callers w = some ⟨checked, began, ticket, false⟩) (hresume : e ≠ .resume w)
    (hdrop : e ≠ .drop w) (hstep : step s e = some t) :
    t.callers w = some ⟨checked, began, ticket, false⟩ := by
  have hother : ∀ v next, v ≠ w →
      Function.update s.callers v next w = some ⟨checked, began, ticket, false⟩ := by
    intro v next hv
    rwa [Function.update_of_ne (Ne.symm hv)]
  cases e with
  | call v checked' between =>
    simp only [step, call] at hstep
    split at hstep
    · cases hstep
    next hnew =>
    have hv : v ≠ w := by
      rintro rfl
      rw [hnew] at hcaller
      cases hcaller
    repeat' split at hstep
    all_goals cases hstep
    all_goals first | exact hcaller | exact hother v _ hv
  | notify v =>
    simp only [step, notify] at hstep
    split at hstep
    · next hnotifying =>
      cases hstep
      refine hother v _ ?_
      rintro rfl
      rw [hnotifying] at hcaller
      cases hcaller
    · cases hstep
  | resume v =>
    simp only [step, resume] at hstep
    repeat' split at hstep
    all_goals cases hstep
    exact hother v none fun hv => hresume (hv ▸ rfl)
  | drop v =>
    simp only [step, drop] at hstep
    split at hstep
    · cases hstep
      exact hother v none fun hv => hdrop (hv ▸ rfl)
    · cases hstep
  | timer sample =>
    simp only [step, timer] at hstep
    split at hstep
    · cases hstep
      by_cases hpending : s.finished < s.requested
      · simpa [requestPeriodic, hpending] using hcaller
      · simpa [requestPeriodic, hpending, State.issue] using hcaller
    · cases hstep
  | _ =>
    simp only [step, woken, poll, fetched, leave, stop] at hstep
    repeat' split at hstep
    all_goals cases hstep
    all_goals exact hcaller

theorem resume_enabled [DecidableEq K] {w : CallerId} {checked : K} {began ticket : ℕ}
    (hcaller : s.callers w = some ⟨checked, began, ticket, false⟩) :
    (step s (.resume w)).isSome = true ↔ ticket ≤ s.finished ∨ s.stopped = true := by
  simp only [step, resume, hcaller, State.served]
  by_cases hstopped : s.stopped = true <;> by_cases hserved : ticket ≤ s.finished <;>
    simp [hstopped, hserved]

/-- Once its ticket is served a waiter can be answered, until it is. -/
theorem resume_stays_enabled [DecidableEq K] (h : Inv startup s) {w : CallerId} {checked : K}
    {began ticket : ℕ} (hcaller : s.callers w = some ⟨checked, began, ticket, false⟩)
    (hserved : ticket ≤ s.finished ∨ s.stopped = true) {sample : Option UInt16}
    {es : List (Event K)} (hresume : .resume w ∉ es) (hdrop : .drop w ∉ es)
    (hrun : (keyStore startup sample).run s es = some t) :
    (step t (.resume w)).isSome = true := by
  induction es generalizing s with
  | nil =>
    cases hrun
    exact (resume_enabled hcaller).mpr hserved
  | cons e es ih =>
    rcases Option.bind_eq_some_iff.mp hrun with ⟨u, hu, hrest⟩
    have hstep : step s e = some u := hu
    have hmonotone := step_monotone h hstep
    have hkept := step_keeps hcaller (fun heq => hresume (by simp [heq]))
      (fun heq => hdrop (by simp [heq])) hstep
    refine ih (step_inv h hstep) hkept ?_ (fun hmem => hresume (by simp [hmem]))
      (fun hmem => hdrop (by simp [hmem])) hrest
    rcases hserved with hserved | hstopped
    · exact .inl (Nat.le_trans hserved hmonotone.1)
    · exact .inr (hmonotone.2 hstopped)

/-- In a stopped store every new answer is `Unavailable`. -/
theorem stopped_answers [DecidableEq K] {e : Event K} (hstopped : s.stopped = true)
    (hstep : step s e = some t) :
    ∀ answer ∈ t.answers, answer ∈ s.answers ∨ answer.outcome = .unavailable := by
  cases e with
  | call w checked between =>
    simp only [step, call, hstopped, if_true] at hstep
    split at hstep
    · cases hstep
    · cases hstep
      simp +contextual [State.answer, or_imp]
  | resume w =>
    simp only [step, resume] at hstep
    split at hstep
    · split at hstep
      · cases hstep
        simp +contextual [State.answer, servedAnswer, hstopped, or_imp]
      · cases hstep
    · cases hstep
  | timer sample =>
    simp only [step, timer] at hstep
    split at hstep
    · cases hstep
      by_cases hpending : s.finished < s.requested <;>
        simp +contextual [requestPeriodic, hpending, State.issue]
    · cases hstep
  | _ =>
    simp only [step, notify, drop, woken, poll, fetched, leave, stop] at hstep
    repeat' split at hstep
    all_goals cases hstep
    all_goals exact fun _ hmem => .inl hmem

/-- One fetch at a time, and trust that only a successful fetch replaces. -/
structure SingleFlight [DecidableEq K] (startup : K) (sample : Option UInt16) (s : State K) :
    Prop where
  window : s.finished ≤ s.requested ∧ s.requested ≤ s.finished + 1
  flight : ∀ ticket, s.worker = .fetching ticket →
    ticket = s.requested ∧ s.requested = s.finished + 1
  pickedUp : PickedUp s
  counted : s.results.length = s.finished ∧ s.starts.length = s.requested + 1
  installed : s.keys = installed startup s.results
  spaced : Spaced s.starts
  answers : ∀ answer ∈ s.answers, Justified startup s.starts s.results answer
  served : ∀ w caller, s.callers w = some caller → caller.notifies = false →
    ((step s (.resume w)).isSome = true ↔ caller.ticket ≤ s.finished ∨ s.stopped = true)
  stays : ∀ w caller, s.callers w = some caller → caller.notifies = false →
    caller.ticket ≤ s.finished ∨ s.stopped = true → ∀ es t, .resume w ∉ es → .drop w ∉ es →
      (keyStore startup sample).run s es = some t → (step t (.resume w)).isSome = true
  stopped : s.stopped = true → ∀ t, (keyStore startup sample).Execution s t →
    t.stopped = true ∧ ∀ answer ∈ t.answers, answer ∈ s.answers ∨ answer.outcome = .unavailable

/-- Every interleaving of calls, dropped waiters, the worker and shutdown. -/
theorem refresh_single_flight [DecidableEq K] {startup : K} {sample : Option UInt16} {s : State K}
    (h : (keyStore startup sample).Reachable s) : SingleFlight startup sample s := by
  have hinv : Inv startup s := h.induction (P := Inv startup) (initial_inv startup sample)
    fun _ _ _ _ hs hstep => step_inv hs hstep
  have hpicked : PickedUp s := h.induction (P := PickedUp) (by simp [PickedUp, keyStore, initial])
    fun _ _ _ _ hs hstep => step_picked_up hs hstep
  refine ⟨hinv.window, hinv.flight, hpicked, ⟨hinv.counted, hinv.started⟩, hinv.installed,
    hinv.spaced, hinv.answers, ?_, ?_, ?_⟩
  · rintro w ⟨checked, began, ticket, notifies⟩ hcaller rfl
    exact resume_enabled hcaller
  · rintro w ⟨checked, began, ticket, notifies⟩ hcaller rfl hserved es t hresume hdrop hrun
    exact resume_stays_enabled hinv hcaller hserved hresume hdrop hrun
  · intro hstopped t hexecution
    refine (System.Execution.preserves (P := fun t => Inv startup t ∧ t.stopped = true ∧
      ∀ answer ∈ t.answers, answer ∈ s.answers ∨ answer.outcome = .unavailable) ?_ hexecution
      ⟨hinv, hstopped, fun _ hmem => .inl hmem⟩).2
    rintro u e v ⟨hu, hustopped, huanswers⟩ hstep
    refine ⟨step_inv hu hstep, (step_monotone hu hstep).2 hustopped, ?_⟩
    intro answer hmem
    rcases stopped_answers hustopped hstep answer hmem with hold | hunavailable
    · exact huanswers answer hold
    · exact .inr hunavailable

/-- Two callers share one fetch, a third checked an older set, a fourth the installed one, and
the fifth comes after shutdown. -/
def rotationTrace : List (Event ℕ) :=
  [.tick refreshCooldown, .call 1 0 0, .call 2 0 0, .notify 1, .woken, .poll, .fetched (.ok 5),
    .resume 1, .drop 2, .call 3 0 0, .call 4 5 0, .poll, .cancel, .leave, .stop, .call 5 5 0]

theorem refresh_single_flight_rotation : ∃ s, (keyStore 0 none).run (initial 0 none) rotationTrace =
      some s ∧ s.answers.map Answer.outcome =
        [.refreshed 5, .refreshed 5, .stillUnknown, .unavailable] ∧
      SingleFlight 0 none s := by
  have hrun : ∃ s, (keyStore 0 none).run (initial 0 none) rotationTrace = some s ∧
      s.answers.map Answer.outcome = [.refreshed 5, .refreshed 5, .stillUnknown, .unavailable] :=
    ⟨_, rfl, by decide⟩
  rcases hrun with ⟨s, hs, hanswers⟩
  exact ⟨s, hs, hanswers, refresh_single_flight (System.reachable_of_run hs)⟩

end JwksRefresh
