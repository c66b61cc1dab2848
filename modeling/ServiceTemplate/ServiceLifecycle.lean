import ServiceTemplate.HealthReadiness
import ServiceTemplate.ServiceTeardown

/-! The life of the service process, from its signal handlers to its exit code. The root future reads
one thing at a time; between two of its steps the background tasks, the accept loops, the readiness
owner and the signals move on their own. -/
namespace ServiceLifecycle

open TransitionSystem
open HealthReadiness (RefreshPolicy)
open HttpSettings (HttpConfig)

structure BackgroundFailure where
  name : String
  panicked : Bool
  deriving DecidableEq, Repr

inductive AcceptFailure where
  | ended
  | panicked
  deriving DecidableEq, Repr

/-- `startup` is any error of the startup steps themselves, by its text. -/
inductive BootstrapError where
  | signals
  | background (name : String) (panicked : Bool)
  | panicked
  | startup (message : String)
  deriving DecidableEq, Repr

def backgroundError (failure : BackgroundFailure) : BootstrapError :=
  .background failure.name failure.panicked

def progressError : BootstrapError := .background "readiness_progress" false

inductive ListenerName where
  | http
  | diagnostics
  | grpc
  deriving DecidableEq, Repr

def ListenerName.accept : ListenerName → String
  | .http => "http_accept"
  | .diagnostics => "diagnostics_accept"
  | .grpc => "grpc_accept"

/-- Notifications that nobody has received yet are one. -/
structure SignalStream where
  pending : Bool
  closed : Bool
  deriving DecidableEq, Repr

inductive Received where
  | stop
  | lost
  | nothing
  deriving DecidableEq, Repr

def SignalStream.recv (stream : SignalStream) : Received × SignalStream :=
  if stream.pending then (.stop, { stream with pending := false })
  else if stream.closed then (.lost, stream)
  else (.nothing, stream)

structure Signals where
  terminate : SignalStream
  interrupt : SignalStream
  firstStop : Option ℕ
  deriving DecidableEq, Repr

/-- One poll of both streams; which of them it polls first is chosen at random. -/
def Signals.recv (signals : Signals) (interruptFirst : Bool) : Received × Signals :=
  let terminate := signals.terminate.recv
  let interrupt := signals.interrupt.recv
  let byTerminate := (terminate.1, { signals with terminate := terminate.2 })
  let byInterrupt := (interrupt.1, { signals with interrupt := interrupt.2 })
  if interruptFirst then if interrupt.1 = .nothing then byTerminate else byInterrupt
  else if terminate.1 = .nothing then byInterrupt else byTerminate

/-- `wait`, polled once; `pending` is the same poll. -/
def Signals.wait (signals : Signals) (interruptFirst : Bool) (now : ℕ) : Received × Signals :=
  let received := signals.recv interruptFirst
  if received.1 = .stop then
    (.stop, { received.2 with firstStop := some (received.2.firstStop.getD now) })
  else received

/-- What `pending_failure` reads, in its order. -/
inductive Source where
  | background
  | listener (name : ListenerName)
  | progress
  deriving DecidableEq, Repr

def sources : List Source :=
  [.background, .listener .http, .listener .diagnostics, .listener .grpc, .progress]

inductive Use where
  | admission (admitted : Except BootstrapError Bool)
  | serving
  | final
  deriving DecidableEq, Repr

structure Exit where
  failure : Option BootstrapError
  began : ℕ
  deadline : ℕ
  serving : ServiceTeardown.Serving
  outside : ServiceTeardown.Outside
  report : ServiceTeardown.Report
  ends : ℕ

def exitDegradedShutdown : ℕ := 3

/-- The match on the outcome at the end of `run`. -/
def Exit.code (exit : Exit) : ℕ :=
  match exit.failure with
  | some _ => 1
  | none =>
    match ServiceTeardown.outcome exit.outside exit.report with
    | .graceful => 0
    | .degraded => exitDegradedShutdown

/-- Where the root future stands. The places before `stopping` are guarded against unwinding; in a
`checking` place the sources that are not read yet are left. -/
inductive Place where
  | startSignals
  | startFailure
  | startup
  | arbitrating
  | servingSignals
  | servingFailure
  | checking (rest : List Source) (use : Use)
  | stopping (failure : Option BootstrapError)
  | tearing (failure : Option BootstrapError)
  | exited (exit : Exit)

/-- A bound listener has the failure of its accept loop, if any. -/
structure World where
  now : ℕ
  latch : Option BackgroundFailure
  bound : ListenerName → Option (Option AcceptFailure)
  readiness : Option HealthReadiness.State
  signals : Signals
  admitted : Bool
  place : Place

variable (p : RefreshPolicy) (http : HttpConfig)

def World.read (w : World) : Source → Option BootstrapError × World
  | .background => (w.latch.map backgroundError, w)
  | .listener name =>
    ((w.bound name).join.map fun failure =>
      backgroundError ⟨name.accept, decide (failure = .panicked)⟩, w)
  | .progress =>
    match w.readiness with
    | none => (none, w)
    | some s =>
      let loss := HealthReadiness.progressLoss p s w.now
      (loss.value.map fun _ => progressError, { w with readiness := some loss.state })

/-- What follows a use of `pending_failure`. -/
def Use.follow (use : Use) (found : Option BootstrapError) : Place :=
  match use, found with
  | .admission _, some error => .stopping (some error)
  | .admission (.error error), none => .stopping (some error)
  | .admission (.ok true), none => .arbitrating
  | .admission (.ok false), none => .stopping none
  | .serving, found => .stopping found
  | .final, found => .tearing found

def World.check (w : World) (rest : List Source) (use : Use) : World :=
  match rest with
  | [] => { w with place := use.follow none }
  | source :: rest =>
    let read := w.read p source
    { read.2 with place := if read.1.isSome then use.follow read.1 else .checking rest use }

/-- `stop_progress` without its last check. -/
def World.stopProgress (w : World) : World :=
  { w with readiness := w.readiness.map fun s => (HealthReadiness.stopProgress p s w.now).state }

def World.root (w : World) (interruptFirst : Bool) : Option World :=
  let received := w.signals.wait interruptFirst w.now
  match w.place with
  | .startSignals =>
    some { w with
      signals := received.2
      place := match received.1 with
        | .stop => .checking sources (.admission (.ok false))
        | .lost => .checking sources (.admission (.error .signals))
        | .nothing => .startFailure }
  | .startFailure =>
    some { w with
      place := match w.latch with
        | some failure => .checking sources (.admission (.error (backgroundError failure)))
        | none => .startup }
  | .checking rest use => some (w.check p rest use)
  | .arbitrating =>
    some { w with
      signals := received.2
      admitted := decide (received.1 = .nothing)
      place := match received.1 with
        | .stop => .stopping none
        | .lost => .stopping (some .signals)
        | .nothing => .servingSignals }
  | .servingSignals =>
    some { w with
      signals := received.2
      place := match received.1 with
        | .stop => .checking sources .serving
        | .lost => .stopping (some .signals)
        | .nothing => .servingFailure }
  | .servingFailure =>
    some { w with
      place := match w.latch with
        | some failure => .stopping (some (backgroundError failure))
        | none => .servingSignals }
  | .stopping failure =>
    some { w.stopProgress p with
      place := if failure.isSome then .tearing failure else .checking sources .final }
  | .startup | .tearing _ | .exited _ => none

inductive Startup where
  | pending
  | readiness
  | binds (name : ListenerName)
  | done
  | fails (error : BootstrapError)
  deriving DecidableEq, Repr

def World.startup (w : World) (progress : Startup) : Option World :=
  match w.place, progress with
  | .startup, .pending => some { w with place := .startSignals }
  | .startup, .readiness =>
    if w.readiness.isNone then some { w with readiness := some .new } else none
  | .startup, .binds name =>
    if (w.bound name).isNone then
      some { w with bound := fun other => if other = name then some none else w.bound other }
    else none
  | .startup, .done => some { w with place := .checking sources (.admission (.ok true)) }
  | .startup, .fails error => some { w with place := .checking sources (.admission (.error error)) }
  | _, _ => none

def Place.guarded : Place → Bool
  | .checking _ .final | .stopping _ | .tearing _ | .exited _ => false
  | _ => true

/-- `record` of a `BackgroundFailureReporter`; the drop of a `Completion` uses it too, for every end
of a task before the cancellation. -/
def World.record (w : World) (failure : BackgroundFailure) : World :=
  { w with latch := some (w.latch.getD failure) }

/-- An accept loop that panicked also fails the join of the drain. -/
def World.listener (w : World) (drains : ListenerName → ServiceTeardown.Listener)
    (name : ListenerName) : Option ServiceTeardown.Listener :=
  (w.bound name).map fun failure =>
    { drains name with
      acceptFailed := (drains name).acceptFailed || decide (failure = some .panicked) }

def World.serving (w : World) (drains : ListenerName → ServiceTeardown.Listener) :
    ServiceTeardown.Serving :=
  ⟨w.listener drains .http, w.listener drains .grpc, w.listener drains .diagnostics, w.admitted⟩

/-- The join also sees a failure reported before the teardown. -/
def World.outside (w : World) (outside : ServiceTeardown.Outside) : ServiceTeardown.Outside :=
  { outside with reported := if w.latch.isSome then some 0 else outside.reported }

def World.report (w : World) (drains : ListenerName → ServiceTeardown.Listener)
    (outside : ServiceTeardown.Outside) (deadline : ℕ) : ServiceTeardown.Report :=
  ServiceTeardown.run http (w.serving drains) (w.outside outside)
    (deadline - ServiceTeardown.runtimeShutdownTimeout) w.now

/-- The teardown and the shutdown of the runtime, which takes `runtime` if it may. -/
def World.teardown (w : World) (failure : Option BootstrapError)
    (drains : ListenerName → ServiceTeardown.Listener) (outside : ServiceTeardown.Outside)
    (runtime : ℕ) : World :=
  let deadline := w.signals.firstStop.getD w.now + http.gracePeriod
  let report := w.report http drains outside deadline
  let finished := w.now + report.elapsed
  let remaining := StagedBudget.remaining deadline finished ServiceTeardown.runtimeShutdownTimeout
  { w with
    place := .exited ⟨failure, w.now, deadline, w.serving drains, w.outside outside, report,
      finished + min runtime remaining⟩ }

inductive Event where
  | advance (now : ℕ)
  | notify (interrupt : Bool)
  | close (interrupt : Bool)
  | record (failure : BackgroundFailure)
  | acceptFails (name : ListenerName) (failure : AcceptFailure)
  | health (op : HealthReadiness.Op)
  | startup (progress : Startup)
  | root (interruptFirst : Bool)
  | unwind
  | teardown (drains : ListenerName → ServiceTeardown.Listener) (outside : ServiceTeardown.Outside)
      (runtime : ℕ)

/-- The readiness operations of the refresher, the observer and the startup. -/
def ownOp : HealthReadiness.Op → Bool
  | .startDrain | .stopProgress => false
  | _ => true

def World.environment (w : World) : Event → Option World
  | .advance now => if w.now ≤ now then some { w with now := now } else none
  | .notify interrupt =>
    some { w with
      signals := if interrupt then
          { w.signals with interrupt := { w.signals.interrupt with pending := true } }
        else { w.signals with terminate := { w.signals.terminate with pending := true } } }
  | .close interrupt =>
    some { w with
      signals := if interrupt then
          { w.signals with interrupt := { w.signals.interrupt with closed := true } }
        else { w.signals with terminate := { w.signals.terminate with closed := true } } }
  | .record failure => some (w.record failure)
  | .acceptFails name failure =>
    if (w.bound name).isSome then
      some { w with
        bound := fun other =>
          if other = name then some ((w.bound name).join.getD failure) else w.bound other }
    else none
  | .health op =>
    if ownOp op then
      w.readiness.map fun s =>
        { w with readiness := some (HealthReadiness.perform p s ⟨w.now, op⟩).1 }
    else none
  | .startup _ | .root _ | .unwind | .teardown .. => none

def step (w : World) (e : Event) : Option World :=
  match w.place, e with
  | .exited _, _ => none
  | _, .startup progress => w.startup progress
  | _, .root interruptFirst => w.root p interruptFirst
  | place, .unwind =>
    if place.guarded then some { w with place := .stopping (some .panicked) } else none
  | .tearing failure, .teardown drains outside runtime =>
    some (w.teardown http failure drains outside runtime)
  | _, .teardown .. => none
  | _, e => w.environment p e

def initial : World :=
  ⟨0, none, fun _ => none, none, ⟨⟨false, false⟩, ⟨false, false⟩, none⟩, false, .startSignals⟩

def lifecycle : System World Event := ⟨initial, step p http⟩

variable {p http} {w w' : World} {e : Event} {source : Source}

def World.faulty (p : RefreshPolicy) (w : World) (source : Source) : Bool :=
  (w.read p source).1.isSome

def Lost (p : RefreshPolicy) (s : HealthReadiness.State) (now : ℕ) : Prop :=
  (HealthReadiness.progressLoss p s now).value.isSome = true

structure Keeps (p : RefreshPolicy) (w w' : World) : Prop where
  latch : w.latch.isSome = true → w'.latch.isSome = true
  bound : ∀ name, (w.bound name).join.isSome = true → (w'.bound name).join.isSome = true
  progress : ∀ s, w.readiness = some s → Lost p s w.now →
    ∃ s', w'.readiness = some s' ∧ Lost p s' w'.now

theorem faulty_progress : w.faulty p .progress = true ↔
    ∃ s, w.readiness = some s ∧ Lost p s w.now := by
  cases hreadiness : w.readiness with
  | none => simp [World.faulty, World.read, hreadiness]
  | some s => simp [World.faulty, World.read, hreadiness, Lost]

theorem Keeps.faulty (h : Keeps p w w') (hfaulty : w.faulty p source = true) :
    w'.faulty p source = true := by
  cases source with
  | background =>
    simpa [World.faulty, World.read] using h.latch (by simpa [World.faulty, World.read] using hfaulty)
  | listener name =>
    simpa [World.faulty, World.read] using
      h.bound name (by simpa [World.faulty, World.read] using hfaulty)
  | progress =>
    obtain ⟨s, hs, hlost⟩ := faulty_progress.mp hfaulty
    exact faulty_progress.mpr (h.progress s hs hlost)

inductive Moves (p : RefreshPolicy) (http : HttpConfig) (w : World) : World → Prop where
  | startup (progress : Startup) (w' : World) (h : w.startup progress = some w') : Moves p http w w'
  | root (interruptFirst : Bool) (w' : World) (h : w.root p interruptFirst = some w') :
      Moves p http w w'
  | unwind (h : w.place.guarded = true) :
      Moves p http w { w with place := .stopping (some .panicked) }
  | teardown (failure : Option BootstrapError) (drains : ListenerName → ServiceTeardown.Listener)
      (outside : ServiceTeardown.Outside) (runtime : ℕ) (h : w.place = .tearing failure) :
      Moves p http w (w.teardown http failure drains outside runtime)
  | environment (e : Event) (w' : World) (hlive : ∀ exit, w.place ≠ .exited exit)
      (h : w.environment p e = some w') : Moves p http w w'

theorem step_moves (h : (lifecycle p http).step w e = some w') : Moves p http w w' := by
  have hlive : ∀ exit, w.place ≠ .exited exit := fun exit hexit => by
    simp [lifecycle, step, hexit] at h
  simp only [lifecycle, step] at h
  split at h
  · cases h
  · exact .startup _ _ h
  · exact .root _ _ h
  · split at h
    · cases h
      exact .unwind ‹_›
    · cases h
  · cases h
    exact .teardown _ _ _ _ ‹_›
  · cases h
  · exact .environment _ _ hlive h

theorem environment_place (h : w.environment p e = some w') : w'.place = w.place := by
  cases e with
  | advance now | acceptFails name failure =>
    simp only [World.environment] at h
    split at h <;> cases h
    rfl
  | notify interrupt | close interrupt | record failure =>
    cases h
    rfl
  | health op =>
    simp only [World.environment] at h
    split at h
    · obtain ⟨s, hs, rfl⟩ := Option.map_eq_some_iff.mp h
      rfl
    · cases h
  | startup progress | root interruptFirst | unwind | teardown drains outside runtime => cases h

/-- What a poll of the startup does to the root itself. -/
structure Started (w w' : World) : Prop where
  place : w.place = .startup
  next : w'.place = .startup ∨ w'.place = .startSignals ∨
    ∃ admitted, admitted ≠ .ok false ∧ w'.place = .checking sources (.admission admitted)
  kept : w'.signals = w.signals ∧ w'.now = w.now ∧ w'.admitted = w.admitted

theorem startup_moves {progress : Startup} (h : w.startup progress = some w') : Started w w' := by
  cases hplace : w.place with
  | startup =>
    cases progress with
    | pending =>
      simp only [World.startup, hplace] at h
      cases h
      exact ⟨hplace, .inr (.inl rfl), rfl, rfl, rfl⟩
    | readiness | binds name =>
      simp only [World.startup, hplace] at h
      split at h <;> cases h
      exact ⟨hplace, .inl rfl, rfl, rfl, rfl⟩
    | done | fails error =>
      simp only [World.startup, hplace] at h
      cases h
      exact ⟨hplace, .inr (.inr ⟨_, by simp, rfl⟩), rfl, rfl, rfl⟩
  | _ => simp [World.startup, hplace] at h

end ServiceLifecycle
