import ServiceTemplate.HttpSettings
import ServiceTemplate.StagedBudget

/-! The teardown of the service under one process deadline: listeners, diagnostics, background
tasks, dependencies, telemetry and the log. What the outside does in each stage is given by the
delays after which it comes, if it comes at all. -/
namespace ServiceTeardown

open HttpSettings StagedBudget

def diagnosticsShutdown : ℕ := secs 2
def backgroundJoin : ℕ := secs 5
def dependencyClose : ℕ := secs 5
def telemetryFlush : ℕ := secs 5
def shutdownJoinSlack : ℕ := millis 500
def runtimeShutdownTimeout : ℕ := secs 1
def logReserve : ℕ := secs 1

def shutdownTail : ℕ :=
  diagnosticsShutdown + backgroundJoin + dependencyClose + telemetryFlush + shutdownJoinSlack +
    runtimeShutdownTimeout

def graceBudget (http : HttpConfig) : Bool := !decide (http.gracePeriod < http.drainTimeout + shutdownTail)

/-- `accept` and `connections` are the delays after which the accept loop and the last connection
end once the drain has begun. -/
structure Listener where
  accept : Option ℕ
  acceptFailed : Bool
  connections : Option ℕ

inductive Drained where
  | complete
  | timedOut
  | failed
  deriving DecidableEq

def Listener.drain (listener : Listener) (budget : ℕ) : ℕ × Drained :=
  let accepted := wait budget listener.accept
  if accepted.2 then
    let drained := wait budget listener.connections
    (max accepted.1 drained.1,
      if listener.acceptFailed then .failed else if drained.2 then .complete else .timedOut)
  else (accepted.1, .failed)

/-- A task that ends after `ends` once the root token is cancelled, or after `aborted` once it is
aborted. -/
structure Task where
  ends : Option ℕ
  failed : Bool
  aborted : Option ℕ

/-- `queued` is how long the blocking job waits for its thread, `sdk` what the provider then needs,
and `observed` that an export failed during the drain. -/
structure Provider where
  queued : ℕ
  sdk : Option ℕ
  sdkFailed : Bool
  observed : Bool

/-- `completed` is what a log writer that ended in time reports. -/
structure Logger where
  close : Option ℕ
  completed : Bool

structure Serving where
  appListener : Option Listener
  grpcListener : Option Listener
  diagnostics : Option Listener
  admitted : Bool

inductive StageName where
  | listeners
  | diagnostics
  | background
  | backgroundForced
  | dependencies
  | telemetry
  | logger
  deriving DecidableEq

/-- What happens while the service stops: a further stop signal or the loss of the signal stream, the
background tasks and the first failure they report, the pool's close, and the stages that unwind.
Delays count from the start of the stage, those of the tasks from the cancellation. -/
structure Outside where
  secondSignal : Option ℕ
  signalLost : Bool
  tasks : List Task
  reported : Option ℕ
  pool : Option (Option ℕ)
  provider : Option Provider
  signalLostAtEnd : Bool
  logger : Option Logger
  unwinds : StageName → Option ℕ

def stage (unwinds : Option ℕ) (body : ℕ × Bool) : ℕ × Bool :=
  match unwinds with
  | some elapsed => if elapsed ≤ body.1 then (elapsed, true) else body
  | none => body

def drainListener (listener : Option Listener) (budget : ℕ) : ℕ × Bool :=
  match listener with
  | none => (0, false)
  | some listener =>
    let drained := listener.drain budget
    (drained.1, decide (drained.2 ≠ .complete))

/-- The wait in which the listeners still accept, and whether the signal stream was lost in it. -/
def propagation (http : HttpConfig) (serving : Serving) (outside : Outside) (deadline now : ℕ) :
    ℕ × Bool :=
  if serving.admitted then
    let signalled := wait (remaining deadline now http.readinessPropagationDelay) outside.secondSignal
    if remaining deadline now http.readinessPropagationDelay = 0 then (0, false)
    else (signalled.1, signalled.2 && outside.signalLost)
  else (0, false)

def drainBudget (http : HttpConfig) (serving : Serving) (outside : Outside) (deadline now : ℕ) : ℕ :=
  let wanted := if serving.admitted then http.effectiveDrainBudget else http.drainTimeout
  min wanted (min deadline (now + http.drainTimeout) -
    (now + (propagation http serving outside deadline now).1))

def stopServing (http : HttpConfig) (serving : Serving) (outside : Outside) (deadline now : ℕ) :
    ℕ × Bool :=
  let waited := propagation http serving outside deadline now
  let budget := drainBudget http serving outside deadline now
  let app := drainListener serving.appListener budget
  let grpc := drainListener serving.grpcListener budget
  (waited.1 + max app.1 grpc.1, waited.2 || app.2 || grpc.2)

def stopDiagnostics (listener : Option Listener) (budget : ℕ) : ℕ × Bool :=
  match listener with
  | none => (0, false)
  | some listener =>
    let drained := listener.drain budget
    (drained.1, decide (drained.2 = .failed))

def last : List (Option ℕ) → Option ℕ
  | [] => some 0
  | delay :: rest => delay.bind fun first => (last rest).map (max first)

def endedBy (elapsed : ℕ) (delay : Option ℕ) : Bool := delay.any fun delay => delay ≤ elapsed

/-- `join_until` with its outcome, and the wait for aborted tasks likewise. -/
def joinBackground (outside : Outside) (bound : ℕ) : ℕ × Bool :=
  let joined := wait bound (last (outside.tasks.map Task.ends))
  (joined.1, !joined.2 || outside.tasks.any Task.failed || endedBy joined.1 outside.reported)

def forceBackground (tasks : List Task) (bound : ℕ) : ℕ × Bool :=
  if tasks.isEmpty then (0, false) else ((wait bound (last (tasks.map Task.aborted))).1, true)

def closeDependencies (pool : Option (Option ℕ)) (bound : ℕ) : ℕ × Bool :=
  match pool with
  | none => (0, false)
  | some close => ((wait bound close).1, !(wait bound close).2)

def Provider.job (provider : Provider) (sdkBudget allowance : ℕ) : ℕ × Bool :=
  let budget := min sdkBudget (allowance - provider.queued - shutdownJoinSlack)
  let sdk := wait budget provider.sdk
  (provider.queued + sdk.1, sdk.2 && !provider.sdkFailed)

/-- `shutdown_until`; `allowance` is what is left before its deadline. -/
def Provider.shutdownUntil (provider : Provider) (sdkBudget allowance : ℕ) : ℕ × Bool :=
  if allowance ≤ shutdownJoinSlack then (0, true)
  else
    let job := provider.job sdkBudget allowance
    let joined := wait allowance (some job.1)
    (joined.1, !joined.2 || !job.2 || decide (allowance ≤ joined.1) || provider.observed)

def stopTelemetry (provider : Option Provider) (sdkBudget allowance : ℕ) : ℕ × Bool :=
  match provider with
  | none => (0, false)
  | some provider => provider.shutdownUntil sdkBudget allowance

def closeLogger (logger : Option Logger) (bound : ℕ) : ℕ × Bool :=
  match logger with
  | none => (0, false)
  | some logger =>
    let closed := wait bound logger.close
    (closed.1, !(closed.2 && logger.completed))

structure Report where
  listeners : ℕ × Bool
  diagnostics : ℕ × Bool
  background : ℕ × Bool
  forced : ℕ × Bool
  dependencies : ℕ × Bool
  telemetry : ℕ × Bool
  logger : ℕ × Bool

inductive Outcome where
  | graceful
  | degraded
  deriving DecidableEq

/-- The tasks that had not ended when the join stopped. -/
def unjoined (outside : Outside) (elapsed : ℕ) : List Task :=
  outside.tasks.filter fun task => !endedBy elapsed task.ends

/-- The forced join and the close of the dependencies share one allocation. -/
def closeStages (outside : Outside) (tasks : List Task) (allocation : ℕ) :
    (ℕ × Bool) × (ℕ × Bool) :=
  let forced := stage (outside.unwinds .backgroundForced) (forceBackground tasks allocation)
  (forced, stage (outside.unwinds .dependencies)
    (closeDependencies outside.pool (allocation - forced.1)))

/-- `finish_telemetry`: the log keeps a reserve of the allowance. -/
def finishTelemetry (outside : Outside) (allowance : ℕ) : (ℕ × Bool) × (ℕ × Bool) :=
  let reserve := if outside.logger.isSome then min logReserve allowance else 0
  let telemetry := stage (outside.unwinds .telemetry)
    (stopTelemetry outside.provider (telemetryFlush - reserve) (allowance - reserve))
  (telemetry, stage (outside.unwinds .logger) (closeLogger outside.logger (allowance - telemetry.1)))

/-- `run`; `deadline` leaves the runtime its own share. -/
def run (http : HttpConfig) (serving : Serving) (outside : Outside) (deadline start : ℕ) : Report :=
  let listeners := stage (outside.unwinds .listeners) (stopServing http serving outside deadline start)
  let now := start + listeners.1
  let diagnostics := stage (outside.unwinds .diagnostics)
    (stopDiagnostics serving.diagnostics (remaining deadline now diagnosticsShutdown))
  let now := now + diagnostics.1
  let background := stage (outside.unwinds .background)
    (joinBackground outside (remaining deadline now backgroundJoin))
  let now := now + background.1
  let closed := closeStages outside (unjoined outside background.1)
    (remaining deadline now dependencyClose)
  let now := now + (closed.1.1 + closed.2.1)
  let finished := finishTelemetry outside
    (remaining deadline now (telemetryFlush + shutdownJoinSlack))
  ⟨listeners, diagnostics, background, closed.1, closed.2, finished.1, finished.2⟩

def Report.degraded (report : Report) : Bool :=
  report.listeners.2 || report.diagnostics.2 || report.background.2 || report.forced.2 ||
    report.dependencies.2 || report.telemetry.2

def outcome (outside : Outside) (report : Report) : Outcome :=
  if report.degraded || outside.signalLostAtEnd || report.logger.2 then .degraded else .graceful

def Report.elapsed (report : Report) : ℕ :=
  report.listeners.1 + report.diagnostics.1 + report.background.1 + report.forced.1 +
    report.dependencies.1 + report.telemetry.1 + report.logger.1

variable {http : HttpConfig} {serving : Serving} {outside : Outside} {deadline start now bound : ℕ}

theorem stage_le (unwinds : Option ℕ) (body : ℕ × Bool) : (stage unwinds body).1 ≤ body.1 := by
  cases unwinds with
  | none => exact Nat.le_refl _
  | some elapsed => by_cases h : elapsed ≤ body.1 <;> simp [stage, h]

theorem stage_clean {unwinds : Option ℕ} {body : ℕ × Bool} (h : (stage unwinds body).2 = false) :
    stage unwinds body = body ∧ body.2 = false := by
  cases unwinds with
  | none => exact ⟨rfl, h⟩
  | some elapsed =>
    by_cases helapsed : elapsed ≤ body.1
    · simp [stage, helapsed] at h
    · simp only [stage, helapsed, if_false] at h ⊢
      exact ⟨trivial, h⟩

theorem stage_body (unwinds : Option ℕ) (body : ℕ × Bool) :
    stage unwinds body = body ∨ unwinds = some (stage unwinds body).1 := by
  cases unwinds with
  | none => exact .inl rfl
  | some elapsed => by_cases h : elapsed ≤ body.1 <;> simp [stage, h]

theorem drain_le (listener : Listener) (budget : ℕ) : (listener.drain budget).1 ≤ budget := by
  rw [Listener.drain]
  split
  · exact Nat.max_le.mpr ⟨wait_le _ _, wait_le _ _⟩
  · exact wait_le _ _

theorem drain_listener_le (listener : Option Listener) (budget : ℕ) :
    (drainListener listener budget).1 ≤ budget := by
  cases listener with
  | none => exact Nat.zero_le _
  | some listener => exact drain_le listener budget

theorem propagation_le (http : HttpConfig) (serving : Serving) (outside : Outside)
    (deadline now : ℕ) : (propagation http serving outside deadline now).1 ≤
      remaining deadline now http.readinessPropagationDelay := by
  rw [propagation]
  split
  · split
    · exact Nat.zero_le _
    · exact wait_le _ _
  · exact Nat.zero_le _

/-- The propagation wait and the drain share the drain timeout. -/
theorem stop_serving_le (http : HttpConfig) (serving : Serving) (outside : Outside)
    (deadline now : ℕ) : (stopServing http serving outside deadline now).1 ≤
      remaining deadline now (max http.drainTimeout http.readinessPropagationDelay) := by
  have hwait := propagation_le http serving outside deadline now
  have happ := drain_listener_le serving.appListener (drainBudget http serving outside deadline now)
  have hgrpc := drain_listener_le serving.grpcListener (drainBudget http serving outside deadline now)
  have hbudget : drainBudget http serving outside deadline now ≤
      min deadline (now + http.drainTimeout) -
        (now + (propagation http serving outside deadline now).1) := Nat.min_le_right _ _
  have hmax := Nat.max_le.mpr ⟨happ, hgrpc⟩
  rw [remaining] at hwait ⊢
  dsimp only [stopServing]
  omega

theorem stop_diagnostics_le (listener : Option Listener) (budget : ℕ) :
    (stopDiagnostics listener budget).1 ≤ budget := by
  cases listener with
  | none => exact Nat.zero_le _
  | some listener => exact drain_le listener budget

theorem force_background_le (tasks : List Task) (bound : ℕ) :
    (forceBackground tasks bound).1 ≤ bound := by
  rw [forceBackground]
  split
  · exact Nat.zero_le _
  · exact wait_le _ _

theorem close_dependencies_le (pool : Option (Option ℕ)) (bound : ℕ) :
    (closeDependencies pool bound).1 ≤ bound := by
  cases pool with
  | none => exact Nat.zero_le _
  | some close => exact wait_le _ _

theorem stop_telemetry_le (provider : Option Provider) (sdkBudget allowance : ℕ) :
    (stopTelemetry provider sdkBudget allowance).1 ≤ allowance := by
  cases provider with
  | none => exact Nat.zero_le _
  | some provider =>
    simp only [stopTelemetry, Provider.shutdownUntil]
    split
    · exact Nat.zero_le _
    · exact wait_le _ _

theorem close_logger_le (logger : Option Logger) (bound : ℕ) :
    (closeLogger logger bound).1 ≤ bound := by
  cases logger with
  | none => exact Nat.zero_le _
  | some logger => exact wait_le _ _

theorem close_stages_le (outside : Outside) (tasks : List Task) (allocation : ℕ) :
    (closeStages outside tasks allocation).1.1 + (closeStages outside tasks allocation).2.1 ≤
      allocation := by
  dsimp only [closeStages]
  have hforced := Nat.le_trans (stage_le (outside.unwinds .backgroundForced)
    (forceBackground tasks allocation)) (force_background_le tasks allocation)
  refine Nat.le_trans (Nat.add_le_add_left (Nat.le_trans (stage_le _ _)
    (close_dependencies_le _ _)) _) ?_
  exact Nat.le_of_eq (Nat.add_sub_cancel' hforced)

theorem finish_telemetry_le (outside : Outside) (allowance : ℕ) :
    (finishTelemetry outside allowance).1.1 + (finishTelemetry outside allowance).2.1 ≤
      allowance := by
  have htelemetry : (finishTelemetry outside allowance).1.1 ≤ allowance :=
    Nat.le_trans (stage_le _ _) (Nat.le_trans (stop_telemetry_le _ _ _) (Nat.sub_le _ _))
  have hlogger : (finishTelemetry outside allowance).2.1 ≤
      allowance - (finishTelemetry outside allowance).1.1 :=
    Nat.le_trans (stage_le _ _) (close_logger_le _ _)
  omega

/-- The stages by their allocations: the forced join shares that of the dependencies, and the log
that of the telemetry. -/
def Report.stages (report : Report) (listeners : ℕ) : List (ℕ × ℕ) :=
  [(listeners, report.listeners.1), (diagnosticsShutdown, report.diagnostics.1),
    (backgroundJoin, report.background.1),
    (dependencyClose, report.forced.1 + report.dependencies.1),
    (telemetryFlush + shutdownJoinSlack, report.telemetry.1 + report.logger.1)]

theorem run_within (http : HttpConfig) (serving : Serving) (outside : Outside) (deadline start : ℕ) :
    Within deadline start ((run http serving outside deadline start).stages
      (max http.drainTimeout http.readinessPropagationDelay)) := by
  refine ⟨?_, ?_, ?_, ?_, ?_, trivial⟩
  · exact Nat.le_trans (stage_le _ _) (stop_serving_le _ _ _ _ _)
  · exact Nat.le_trans (stage_le _ _) (stop_diagnostics_le _ _)
  · exact Nat.le_trans (stage_le _ _) (wait_le _ _)
  · exact close_stages_le _ _ _
  · exact finish_telemetry_le _ _

theorem taken_stages (report : Report) (listeners : ℕ) :
    taken (report.stages listeners) = report.elapsed := by
  simp only [taken, Report.stages, Report.elapsed]
  omega

theorem last_some {delays : List (Option ℕ)} {d : ℕ} (h : last delays = some d) :
    ∀ delay ∈ delays, ∃ e, delay = some e ∧ e ≤ d := by
  induction delays generalizing d with
  | nil => simp
  | cons delay rest ih =>
    obtain ⟨first, rfl, hrest⟩ := Option.bind_eq_some_iff.mp h
    obtain ⟨later, hlater, rfl⟩ := Option.map_eq_some_iff.mp hrest
    intro other hother
    rcases List.mem_cons.mp hother with rfl | hother
    · exact ⟨first, rfl, Nat.le_max_left _ _⟩
    · obtain ⟨e, he, hle⟩ := ih hlater other hother
      exact ⟨e, he, Nat.le_trans hle (Nat.le_max_right _ _)⟩

theorem last_le {delays : List (Option ℕ)} (h : ∀ delay ∈ delays, ∃ e, delay = some e ∧ e ≤ bound) :
    ∃ d, last delays = some d ∧ d ≤ bound := by
  induction delays with
  | nil => exact ⟨0, rfl, Nat.zero_le _⟩
  | cons delay rest ih =>
    obtain ⟨first, rfl, hfirst⟩ := h delay List.mem_cons_self
    obtain ⟨later, hlater, hle⟩ := ih fun other hother => h other (List.mem_cons_of_mem _ hother)
    exact ⟨max first later, by simp [last, hlater], Nat.max_le.mpr ⟨hfirst, hle⟩⟩

theorem drain_complete {listener : Listener} {budget : ℕ} :
    (listener.drain budget).2 = .complete ↔
      (∃ d, listener.accept = some d ∧ d ≤ budget) ∧ listener.acceptFailed = false ∧
        ∃ d, listener.connections = some d ∧ d ≤ budget := by
  rw [Listener.drain, ← wait_came, ← wait_came]
  cases (wait budget listener.accept).2 <;> cases listener.acceptFailed <;>
    cases hconnections : (wait budget listener.connections).2 <;> simp [hconnections]

theorem drain_accepted {listener : Listener} {budget : ℕ} :
    (listener.drain budget).2 ≠ .failed ↔
      listener.acceptFailed = false ∧ ∃ d, listener.accept = some d ∧ d ≤ budget := by
  rw [Listener.drain, ← wait_came]
  cases (wait budget listener.accept).2 <;> cases listener.acceptFailed <;>
    cases hconnections : (wait budget listener.connections).2 <;> simp [hconnections]

/-- A forced join ends when every task it was left with has ended, or with its allocation, or by
unwinding. -/
theorem forced_custody {outside : Outside} {tasks : List Task} {allocation : ℕ} {task : Task}
    (h : task ∈ tasks) :
    endedBy (closeStages outside tasks allocation).1.1 task.aborted = true ∨
      allocation ≤ (closeStages outside tasks allocation).1.1 ∨
      outside.unwinds .backgroundForced = some (closeStages outside tasks allocation).1.1 := by
  have hforced : (closeStages outside tasks allocation).1 =
      stage (outside.unwinds .backgroundForced) (forceBackground tasks allocation) := rfl
  rw [hforced]
  have hbody : endedBy (forceBackground tasks allocation).1 task.aborted = true ∨
      allocation ≤ (forceBackground tasks allocation).1 := by
    rw [forceBackground, if_neg (by simpa using List.ne_nil_of_mem h)]
    cases hcame : (wait allocation (last (tasks.map Task.aborted))).2 with
    | true =>
      obtain ⟨d, hd, hle⟩ := wait_came.mp hcame
      obtain ⟨e, he, hed⟩ := last_some hd task.aborted (List.mem_map_of_mem h)
      rw [hd, wait_of_le hle]
      exact .inl (by simpa [endedBy, he] using hed)
    | false => exact .inr (Nat.le_of_eq (wait_missed hcame).symm)
  rcases stage_body (outside.unwinds .backgroundForced) (forceBackground tasks allocation) with
    heq | hunwinds
  · rw [heq]
    exact hbody.imp_right .inl
  · exact .inr (.inr hunwinds)

structure Certified (http : HttpConfig) (serving : Serving) (outside : Outside) : Prop where
  listeners : ∀ listener, serving.appListener = some listener ∨ serving.grpcListener = some listener →
    listener.acceptFailed = false ∧ (∃ d, listener.accept = some d ∧ d ≤ http.drainTimeout) ∧
      ∃ d, listener.connections = some d ∧ d ≤ http.drainTimeout
  diagnostics : ∀ listener, serving.diagnostics = some listener →
    listener.acceptFailed = false ∧ ∃ d, listener.accept = some d ∧ d ≤ diagnosticsShutdown
  tasks : ∀ task ∈ outside.tasks, task.failed = false ∧ ∃ d, task.ends = some d ∧ d ≤ backgroundJoin
  pool : ∀ close, outside.pool = some close → ∃ d, close = some d ∧ d ≤ dependencyClose
  provider : ∀ provider, outside.provider = some provider →
    provider.sdkFailed = false ∧ provider.observed = false ∧
      ∃ d, provider.sdk = some d ∧ d ≤ telemetryFlush
  logger : ∀ logger, outside.logger = some logger → logger.completed = true ∧
    ∃ d, logger.close = some d ∧ d ≤ telemetryFlush + shutdownJoinSlack
  signals : outside.signalLostAtEnd = false

theorem drain_listener_clean {listener : Listener} {budget : ℕ}
    (h : (drainListener (some listener) budget).2 = false) :
    (listener.drain budget).2 = .complete := by
  simpa [drainListener] using h

theorem shutdown_until_clean {provider : Provider} {sdkBudget allowance : ℕ}
    (h : (provider.shutdownUntil sdkBudget allowance).2 = false) :
    provider.sdkFailed = false ∧ provider.observed = false ∧
      ∃ d, provider.sdk = some d ∧ d ≤ sdkBudget := by
  rw [Provider.shutdownUntil] at h
  split at h
  · cases h
  · simp only [Bool.or_eq_false_iff, Bool.not_eq_false'] at h
    obtain ⟨⟨⟨-, hjob⟩, -⟩, hobserved⟩ := h
    simp only [Provider.job, Bool.and_eq_true, Bool.not_eq_true'] at hjob
    obtain ⟨d, hd, hle⟩ := wait_came.mp hjob.1
    exact ⟨hjob.2, hobserved, d, hd, Nat.le_trans hle (Nat.min_le_left _ _)⟩

theorem graceful_clean {report : Report} (h : outcome outside report = .graceful) :
    report.degraded = false ∧ outside.signalLostAtEnd = false ∧ report.logger.2 = false := by
  rw [outcome] at h
  split at h
  · cases h
  · rename_i hclean
    simpa only [Bool.not_eq_true, Bool.or_eq_false_iff, and_assoc] using hclean

theorem graceful_unreported
    (h : outcome outside (run http serving outside deadline start) = .graceful) :
    endedBy (run http serving outside deadline start).background.1 outside.reported = false := by
  have hdegraded := (graceful_clean h).1
  simp only [Report.degraded, Bool.or_eq_false_iff] at hdegraded
  obtain ⟨hbody, hjoin⟩ := stage_clean hdegraded.1.1.1.2
  simp only [joinBackground, Bool.or_eq_false_iff] at hjoin
  have htime : (run http serving outside deadline start).background.1 = (joinBackground outside
      (remaining deadline (start + (run http serving outside deadline start).listeners.1 +
        (run http serving outside deadline start).diagnostics.1) backgroundJoin)).1 :=
    congrArg Prod.fst hbody
  rw [htime]
  exact hjoin.2

theorem graceful_certified (h : outcome outside (run http serving outside deadline start) = .graceful) :
    Certified http serving outside := by
  obtain ⟨hdegraded, hsignals, hlogger⟩ := graceful_clean h
  simp only [Report.degraded, Bool.or_eq_false_iff] at hdegraded
  obtain ⟨⟨⟨⟨⟨hlisteners, hdiagnostics⟩, hbackground⟩, -⟩, hdependencies⟩, htelemetry⟩ := hdegraded
  refine ⟨fun listener hlistener => ?_, fun listener hlistener => ?_, fun task htask => ?_,
    fun close hclose => ?_, fun provider hprovider => ?_, fun logger hsome => ?_, hsignals⟩
  · have hbudget : drainBudget http serving outside deadline start ≤ http.drainTimeout := by
      simp only [drainBudget]
      omega
    have hstop := (stage_clean hlisteners).2
    simp only [stopServing, Bool.or_eq_false_iff] at hstop
    have hdone : (listener.drain (drainBudget http serving outside deadline start)).2 = .complete := by
      rcases hlistener with happ | hgrpc
      · exact drain_listener_clean (happ ▸ hstop.1.2)
      · exact drain_listener_clean (hgrpc ▸ hstop.2)
    obtain ⟨⟨a, ha, hale⟩, hfailed, d, hd, hle⟩ := drain_complete.mp hdone
    exact ⟨hfailed, ⟨a, ha, Nat.le_trans hale hbudget⟩, d, hd, Nat.le_trans hle hbudget⟩
  · have hstop := (stage_clean hdiagnostics).2
    rw [hlistener] at hstop
    simp only [stopDiagnostics, decide_eq_false_iff_not] at hstop
    obtain ⟨hfailed, a, ha, hle⟩ := drain_accepted.mp hstop
    exact ⟨hfailed, a, ha, Nat.le_trans hle remaining_le_want⟩
  · have hjoin := (stage_clean hbackground).2
    simp only [joinBackground, Bool.or_eq_false_iff, Bool.not_eq_false'] at hjoin
    obtain ⟨d, hd, hle⟩ := wait_came.mp hjoin.1.1
    obtain ⟨e, he, hed⟩ := last_some hd task.ends (List.mem_map_of_mem htask)
    have hfailed := List.any_eq_false.mp hjoin.1.2 task htask
    rw [Bool.not_eq_true] at hfailed
    exact ⟨hfailed, e, he, Nat.le_trans hed (Nat.le_trans hle remaining_le_want)⟩
  · have hclosed := (stage_clean hdependencies).2
    rw [hclose] at hclosed
    simp only [closeDependencies, Bool.not_eq_false'] at hclosed
    obtain ⟨d, hd, hle⟩ := wait_came.mp hclosed
    exact ⟨d, hd, Nat.le_trans hle (Nat.le_trans (Nat.sub_le _ _) remaining_le_want)⟩
  · have hstop := (stage_clean htelemetry).2
    rw [hprovider] at hstop
    obtain ⟨hfailed, hobserved, d, hd, hle⟩ := shutdown_until_clean hstop
    exact ⟨hfailed, hobserved, d, hd, Nat.le_trans hle (Nat.sub_le _ _)⟩
  · have hclosed := (stage_clean hlogger).2
    rw [hsome] at hclosed
    simp only [closeLogger, Bool.not_eq_false', Bool.and_eq_true] at hclosed
    obtain ⟨d, hd, hle⟩ := wait_came.mp hclosed.1
    exact ⟨hclosed.2, d, hd, Nat.le_trans hle (Nat.le_trans (Nat.sub_le _ _) remaining_le_want)⟩

structure Orderly (http : HttpConfig) (serving : Serving) (outside : Outside) (deadline start : ℕ)
    (report : Report) : Prop where
  ends : start + report.elapsed ≤ deadline
  custody : ∀ task ∈ outside.tasks, endedBy report.background.1 task.ends = true ∨
    endedBy report.forced.1 task.aborted = true ∨
    remaining deadline (start + report.listeners.1 + report.diagnostics.1 + report.background.1)
      dependencyClose ≤ report.forced.1 ∨
    outside.unwinds .backgroundForced = some report.forced.1
  graceful : outcome outside report = .graceful → Certified http serving outside

/-- Started too late, the teardown waits for nothing. -/
theorem teardown_ends_max (http : HttpConfig) (serving : Serving) (outside : Outside)
    (deadline start : ℕ) :
    start + (run http serving outside deadline start).elapsed ≤ max start deadline := by
  have hends := (run_within http serving outside deadline start).ends_by_max
  rwa [taken_stages] at hends

theorem teardown_ends (http : HttpConfig) (serving : Serving) (outside : Outside)
    (deadline start : ℕ) (h : start ≤ deadline) :
    start + (run http serving outside deadline start).elapsed ≤ deadline :=
  Nat.le_trans (teardown_ends_max http serving outside deadline start)
    (Nat.le_of_eq (Nat.max_eq_right h))

/-- Whatever hangs, fails or unwinds, the teardown is over by its deadline, it closes no dependency
under a live background task unless the time of both is used up, and a graceful outcome vouches for
every part of the service. -/
theorem teardown_orderly (http : HttpConfig) (serving : Serving) (outside : Outside)
    (deadline start : ℕ) (h : start ≤ deadline) :
    Orderly http serving outside deadline start (run http serving outside deadline start) := by
  refine ⟨teardown_ends http serving outside deadline start h, fun task htask => ?_,
    graceful_certified⟩
  cases hended : endedBy (run http serving outside deadline start).background.1 task.ends with
  | true => exact .inl rfl
  | false =>
    have hleft : task ∈ unjoined outside (run http serving outside deadline start).background.1 :=
      List.mem_filter.mpr ⟨htask, by rw [hended]; rfl⟩
    exact .inr (forced_custody hleft)

def hungServing : Serving where
  appListener := some ⟨none, false, none⟩
  grpcListener := some ⟨some 0, false, none⟩
  diagnostics := some ⟨none, false, none⟩
  admitted := true

def hungOutside : Outside where
  secondSignal := none
  signalLost := false
  tasks := [⟨none, false, none⟩, ⟨some 0, true, none⟩]
  reported := some 0
  pool := some none
  provider := some ⟨0, none, false, false⟩
  signalLostAtEnd := false
  logger := some ⟨none, true⟩
  unwinds := fun name => if name = .dependencies then some 0 else none

/-- Every part of this service hangs, and the teardown takes what there is. -/
theorem teardown_orderly_hung :
    Orderly HttpConfig.default hungServing hungOutside (secs 44) 0
        (run HttpConfig.default hungServing hungOutside (secs 44) 0) ∧
      (run HttpConfig.default hungServing hungOutside (secs 44) 0).elapsed = millis 42500 :=
  ⟨teardown_orderly HttpConfig.default hungServing hungOutside (secs 44) 0 (by decide), by decide⟩

/-- Every part ends in the time that the settings and the constants give it. -/
structure Nominal (http : HttpConfig) (grpc : GrpcConfig) (serving : Serving) (outside : Outside) :
    Prop where
  quiet : ∀ name, outside.unwinds name = none
  signals : outside.signalLost = false ∧ outside.signalLostAtEnd = false
  app : ∀ listener, serving.appListener = some listener → listener.acceptFailed = false ∧
    (∃ d, listener.accept = some d ∧ d ≤ http.requestTimeout) ∧
    ∃ d, listener.connections = some d ∧ d ≤ http.requestTimeout
  grpc : ∀ listener, serving.grpcListener = some listener → grpc.enabled = true ∧
    listener.acceptFailed = false ∧
    (∃ d, listener.accept = some d ∧ d ≤ grpc.requestTimeout) ∧
    ∃ d, listener.connections = some d ∧ d ≤ grpc.requestTimeout
  diagnostics : ∀ listener, serving.diagnostics = some listener → listener.acceptFailed = false ∧
    ∃ d, listener.accept = some d ∧ d ≤ diagnosticsShutdown
  tasks : outside.reported = none ∧ ∀ task ∈ outside.tasks, task.failed = false ∧
    ∃ d, task.ends = some d ∧ d ≤ backgroundJoin
  pool : ∀ close, outside.pool = some close → ∃ d, close = some d ∧ d ≤ dependencyClose
  provider : ∀ provider, outside.provider = some provider → provider.sdkFailed = false ∧
    provider.observed = false ∧
    ∃ d, provider.sdk = some d ∧ provider.queued + d ≤ telemetryFlush - logReserve
  logger : ∀ logger, outside.logger = some logger → logger.completed = true ∧
    ∃ d, logger.close = some d ∧ d ≤ logReserve

theorem drain_clean {listener : Option Listener} {budget timeout : ℕ} (hle : timeout ≤ budget)
    (h : ∀ l, listener = some l → l.acceptFailed = false ∧
      (∃ d, l.accept = some d ∧ d ≤ timeout) ∧ ∃ d, l.connections = some d ∧ d ≤ timeout) :
    (drainListener listener budget).2 = false := by
  cases listener with
  | none => rfl
  | some l =>
    obtain ⟨hfailed, ⟨a, ha, hale⟩, c, hc, hcle⟩ := h l rfl
    have hdone : (l.drain budget).2 = .complete :=
      drain_complete.mpr ⟨⟨a, ha, Nat.le_trans hale hle⟩, hfailed, c, hc, Nat.le_trans hcle hle⟩
    simp [drainListener, hdone]

theorem diagnostics_clean {listener : Option Listener}
    (h : ∀ l, listener = some l → l.acceptFailed = false ∧
      ∃ d, l.accept = some d ∧ d ≤ bound) : (stopDiagnostics listener bound).2 = false := by
  cases listener with
  | none => rfl
  | some l =>
    obtain ⟨hfailed, a, ha, hle⟩ := h l rfl
    have haccepted : (wait bound l.accept).2 = true := wait_came.mpr ⟨a, ha, hle⟩
    cases hdone : (wait bound l.connections).2 <;>
      simp [stopDiagnostics, Listener.drain, haccepted, hfailed, hdone]

theorem telemetry_clean {provider : Option Provider} {sdkBudget allowance : ℕ}
    (hsdk : telemetryFlush - logReserve ≤ sdkBudget)
    (hallowance : telemetryFlush - logReserve + shutdownJoinSlack ≤ allowance)
    (h : ∀ p, provider = some p → p.sdkFailed = false ∧ p.observed = false ∧
      ∃ d, p.sdk = some d ∧ p.queued + d ≤ telemetryFlush - logReserve) :
    (stopTelemetry provider sdkBudget allowance).2 = false := by
  have hslack : 0 < shutdownJoinSlack := by decide
  have hflush : 0 < telemetryFlush - logReserve := by decide
  cases provider with
  | none => rfl
  | some p =>
    obtain ⟨hfailed, hobserved, d, hd, hle⟩ := h p rfl
    have hjob : p.job sdkBudget allowance = (p.queued + d, true) := by
      have hbudget : d ≤ min sdkBudget (allowance - p.queued - shutdownJoinSlack) := by omega
      simp [Provider.job, hd, wait_of_le hbudget, hfailed]
    have hjoined : wait allowance (some (p.queued + d)) = (p.queued + d, true) :=
      wait_of_le (by omega)
    have hbefore : ¬allowance ≤ p.queued + d := by omega
    rw [stopTelemetry, Provider.shutdownUntil, if_neg (by omega)]
    simp [hjob, hjoined, hobserved, hbefore]

theorem logger_clean {logger : Option Logger} (hbound : logReserve ≤ bound)
    (h : ∀ l, logger = some l → l.completed = true ∧ ∃ d, l.close = some d ∧ d ≤ logReserve) :
    (closeLogger logger bound).2 = false := by
  cases logger with
  | none => rfl
  | some l =>
    obtain ⟨hcompleted, d, hd, hle⟩ := h l rfl
    simp [closeLogger, hd, wait_of_le (Nat.le_trans hle hbound), hcompleted]

theorem effective_le_budget (hlong : start + http.drainTimeout ≤ deadline) :
    http.effectiveDrainBudget ≤ drainBudget http serving outside deadline start := by
  have hwait := Nat.le_trans (propagation_le http serving outside deadline start)
    remaining_le_want
  simp only [drainBudget, HttpConfig.effectiveDrainBudget]
  split <;> omega

theorem serving_clean {grpc : GrpcConfig} (hhttp : http.Valid)
    (hgrpc : grpc.enabled = false ∨ grpc.Valid http) (hnominal : Nominal http grpc serving outside)
    (hlong : start + http.drainTimeout ≤ deadline) :
    (stopServing http serving outside deadline start).2 = false := by
  have hbudget : http.effectiveDrainBudget ≤ drainBudget http serving outside deadline start :=
    effective_le_budget hlong
  have hwait : (propagation http serving outside deadline start).2 = false := by
    rw [propagation]
    split
    · split
      · rfl
      · simp [hnominal.signals.1]
    · rfl
  have happ := drain_clean (Nat.le_trans hhttp.request.2 hbudget) hnominal.app
  have hcalls : (drainListener serving.grpcListener
      (drainBudget http serving outside deadline start)).2 = false := by
    cases hlistener : serving.grpcListener with
    | none => rfl
    | some listener =>
      obtain ⟨henabled, hends⟩ := hnominal.grpc listener hlistener
      rcases hgrpc with hdisabled | hvalid
      · rw [henabled] at hdisabled
        cases hdisabled
      · refine drain_clean (Nat.le_trans hvalid.request.2.2 hbudget) fun l hl => ?_
        cases hl
        exact hends
  simp [stopServing, hwait, happ, hcalls]

theorem join_clean {grpc : GrpcConfig} (hnominal : Nominal http grpc serving outside) :
    (joinBackground outside backgroundJoin).2 = false ∧
      unjoined outside (joinBackground outside backgroundJoin).1 = [] := by
  obtain ⟨hreported, htasks⟩ := hnominal.tasks
  have hends : ∀ delay ∈ outside.tasks.map Task.ends, ∃ e, delay = some e ∧ e ≤ backgroundJoin := by
    intro delay hdelay
    obtain ⟨task, htask, rfl⟩ := List.mem_map.mp hdelay
    exact (htasks task htask).2
  obtain ⟨d, hd, hle⟩ := last_le hends
  have hfailed : outside.tasks.any Task.failed = false :=
    List.any_eq_false.mpr fun task htask => by simp [(htasks task htask).1]
  have hjoined : wait backgroundJoin (last (outside.tasks.map Task.ends)) = (d, true) := by
    rw [hd, wait_of_le hle]
  constructor
  · simp [joinBackground, hjoined, hfailed, hreported, endedBy]
  · refine List.filter_eq_nil_iff.mpr fun task htask => ?_
    obtain ⟨e, he, hed⟩ := last_some hd task.ends (List.mem_map_of_mem htask)
    simp [joinBackground, hjoined, endedBy, he, hed]

theorem finish_clean {grpc : GrpcConfig} (hnominal : Nominal http grpc serving outside) :
    (finishTelemetry outside (telemetryFlush + shutdownJoinSlack)).1.2 = false ∧
      (finishTelemetry outside (telemetryFlush + shutdownJoinSlack)).2.2 = false := by
  have hquiet : ∀ name body, stage (outside.unwinds name) body = body := fun name body => by
    rw [hnominal.quiet]
    rfl
  have hreserve : (if outside.logger.isSome = true then
      min logReserve (telemetryFlush + shutdownJoinSlack) else 0) ≤ logReserve := by
    split
    · exact Nat.min_le_left _ _
    · exact Nat.zero_le _
  have hflush : logReserve ≤ telemetryFlush := by decide
  simp only [finishTelemetry, hquiet]
  refine ⟨telemetry_clean (by omega) (by omega) hnominal.provider, ?_⟩
  cases hlogger : outside.logger with
  | none => rfl
  | some logger =>
    refine logger_clean ?_ fun l hl => hnominal.logger l (hlogger.trans hl)
    have hle := stop_telemetry_le outside.provider
      (telemetryFlush - min logReserve (telemetryFlush + shutdownJoinSlack))
      (telemetryFlush + shutdownJoinSlack - min logReserve (telemetryFlush + shutdownJoinSlack))
    simp only [Option.isSome_some, if_true]
    omega

theorem run_clean {grpc : GrpcConfig} (hhttp : http.Valid)
    (hgrpc : grpc.enabled = false ∨ grpc.Valid http) (hgrace : graceBudget http = true)
    (hnominal : Nominal http grpc serving outside)
    (hdeadline : deadline = start + http.gracePeriod - runtimeShutdownTimeout) :
    outcome outside (run http serving outside deadline start) = .graceful := by
  have hpropagation := hhttp.propagation
  have hgrace' : http.drainTimeout + shutdownTail ≤ http.gracePeriod := by
    simpa [graceBudget] using hgrace
  have hmax : max http.drainTimeout http.readinessPropagationDelay = http.drainTimeout := by omega
  have hwithin := run_within http serving outside deadline start
  rw [hmax] at hwithin
  have hfit : start + wanted ((run http serving outside deadline start).stages http.drainTimeout) ≤
      deadline := by
    rw [hdeadline]
    simp only [wanted, Report.stages, shutdownTail] at hgrace' ⊢
    omega
  -- Every allocation is granted in full, since all of them fit before the deadline.
  have hfull : ∀ before after want took,
      (run http serving outside deadline start).stages http.drainTimeout =
        before ++ (want, took) :: after → remaining deadline (start + taken before) want = want := by
    intro before after want took heq
    rw [heq] at hwithin hfit
    exact hwithin.in_full hfit
  have hdiagnostics := hfull [_] _ _ _ rfl
  have hbackground := hfull [_, _] _ _ _ rfl
  have hclose := hfull [_, _, _] _ _ _ rfl
  have htelemetry := hfull [_, _, _, _] _ _ _ rfl
  simp only [taken, Nat.add_zero, ← Nat.add_assoc] at hdiagnostics hbackground hclose htelemetry
  have hquiet : ∀ name body, stage (outside.unwinds name) body = body := fun name body => by
    rw [hnominal.quiet]
    rfl
  have hlisteners : (run http serving outside deadline start).listeners.2 = false := by
    have hlong : start + http.drainTimeout ≤ deadline := by
      rw [hdeadline]
      simp only [shutdownTail] at hgrace'
      omega
    dsimp only [run]
    rw [hquiet]
    exact serving_clean hhttp hgrpc hnominal hlong
  have hdiag : (run http serving outside deadline start).diagnostics.2 = false := by
    dsimp only [run] at hdiagnostics ⊢
    rw [hdiagnostics, hquiet]
    exact diagnostics_clean hnominal.diagnostics
  have hjoined : (run http serving outside deadline start).background =
      joinBackground outside backgroundJoin := by
    dsimp only [run] at hbackground ⊢
    rw [hbackground, hquiet]
  obtain ⟨hjoin, hleft⟩ := join_clean hnominal
  have hforced : (run http serving outside deadline start).forced = (0, false) := by
    have heq : (run http serving outside deadline start).forced =
        stage (outside.unwinds .backgroundForced) (forceBackground
          (unjoined outside (run http serving outside deadline start).background.1) _) := rfl
    rw [heq, hquiet, hjoined, hleft]
    rfl
  have hpool : (run http serving outside deadline start).dependencies.2 = false := by
    have heq : (run http serving outside deadline start).dependencies =
        stage (outside.unwinds .dependencies) (closeDependencies outside.pool
          (remaining deadline (start + (run http serving outside deadline start).listeners.1 +
            (run http serving outside deadline start).diagnostics.1 +
            (run http serving outside deadline start).background.1) dependencyClose -
            (run http serving outside deadline start).forced.1)) := rfl
    rw [heq, hquiet, hclose, hforced]
    cases hclosing : outside.pool with
    | none => rfl
    | some close =>
      obtain ⟨d, rfl, hle⟩ := hnominal.pool close hclosing
      simp [closeDependencies, wait_of_le hle]
  have hfinished : ((run http serving outside deadline start).telemetry,
      (run http serving outside deadline start).logger) =
        finishTelemetry outside (telemetryFlush + shutdownJoinSlack) := by
    have heq : ((run http serving outside deadline start).telemetry,
        (run http serving outside deadline start).logger) =
          finishTelemetry outside (remaining deadline
            (start + (run http serving outside deadline start).listeners.1 +
              (run http serving outside deadline start).diagnostics.1 +
              (run http serving outside deadline start).background.1 +
              ((run http serving outside deadline start).forced.1 +
                (run http serving outside deadline start).dependencies.1))
            (telemetryFlush + shutdownJoinSlack)) := rfl
    rw [heq, ← Nat.add_assoc, htelemetry]
  obtain ⟨hsdk, hlogger⟩ := finish_clean hnominal
  rw [← hfinished] at hsdk hlogger
  dsimp only at hsdk hlogger
  simp [outcome, Report.degraded, hlisteners, hdiag, hjoined, hjoin, hforced, hpool, hsdk, hlogger,
    hnominal.signals.2]

/-- Settings that pass their validation leave each stage its whole time. A service whose parts all
end in theirs stops gracefully, with the share of the runtime left over. -/
theorem nominal_graceful (formatDuration : ℕ → String) (http : HttpConfig) (grpc : GrpcConfig)
    (serving : Serving) (outside : Outside) (start : ℕ)
    (hhttp : http.validate formatDuration = .ok ())
    (hgrpc : grpc.validate formatDuration http = .ok ()) (hgrace : graceBudget http = true)
    (hnominal : Nominal http grpc serving outside) :
    let report := run http serving outside (start + http.gracePeriod - runtimeShutdownTimeout) start
    outcome outside report = .graceful ∧
      report.elapsed + runtimeShutdownTimeout ≤ http.gracePeriod := by
  have hvalid := http_validate_ok.mp hhttp
  have htail : shutdownTail ≤ http.gracePeriod := by
    have hfits : http.drainTimeout + shutdownTail ≤ http.gracePeriod := by
      simpa [graceBudget] using hgrace
    omega
  simp only [shutdownTail] at htail
  intro report
  refine ⟨run_clean hvalid (grpc_validate_ok.mp hgrpc) hgrace hnominal rfl, ?_⟩
  have hends : start + report.elapsed ≤ start + http.gracePeriod - runtimeShutdownTimeout :=
    (teardown_ends http serving outside _ start (by omega))
  omega

def nominalServing : Serving where
  appListener := some ⟨some 0, false, some (secs 8)⟩
  grpcListener := none
  diagnostics := some ⟨some 0, false, none⟩
  admitted := true

def nominalOutside : Outside where
  secondSignal := none
  signalLost := false
  tasks := [⟨some (secs 1), false, none⟩]
  reported := none
  pool := some (some (secs 2))
  provider := some ⟨0, some (secs 4), false, false⟩
  signalLostAtEnd := false
  logger := some ⟨some (millis 500), true⟩
  unwinds := fun _ => none

theorem nominal_service :
    Nominal HttpConfig.default GrpcConfig.default nominalServing nominalOutside where
  quiet _ := rfl
  signals := ⟨rfl, rfl⟩
  app := by
    rintro listener ⟨⟩
    exact ⟨rfl, ⟨0, rfl, by decide⟩, secs 8, rfl, by decide⟩
  grpc := by
    rintro listener ⟨⟩
  diagnostics := by
    rintro listener ⟨⟩
    exact ⟨rfl, 0, rfl, by decide⟩
  tasks := by
    refine ⟨rfl, fun task htask => ?_⟩
    obtain rfl := List.mem_singleton.mp htask
    exact ⟨rfl, secs 1, rfl, by decide⟩
  pool := by
    rintro close ⟨⟩
    exact ⟨secs 2, rfl, by decide⟩
  provider := by
    rintro provider ⟨⟩
    exact ⟨rfl, rfl, secs 4, rfl, by decide⟩
  logger := by
    rintro logger ⟨⟩
    exact ⟨rfl, millis 500, rfl, by decide⟩

theorem nominal_graceful_default :
    let report := run HttpConfig.default nominalServing nominalOutside
      (0 + HttpConfig.default.gracePeriod - runtimeShutdownTimeout) 0
    outcome nominalOutside report = .graceful ∧
      report.elapsed + runtimeShutdownTimeout ≤ HttpConfig.default.gracePeriod :=
  nominal_graceful toString HttpConfig.default GrpcConfig.default nominalServing nominalOutside 0
    (http_validate_ok.mpr http_default_valid) rfl (by decide) nominal_service

end ServiceTeardown
