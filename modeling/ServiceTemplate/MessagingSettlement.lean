import ServiceTemplate.MessagingConsumer
import ServiceTemplate.MessagingDeadLetter

/-! No delivery is settled without its effect.
The log of one message holds, in order, what its delivery tasks sent and what the broker
accepted; every invariant is about this log and the phase of each task. -/
namespace MessagingSettlement

open TransitionSystem
open ByteFraming
open MessagingText
open MessagingWire
open MessagingDeadLetter
open MessagingConsumer

variable {setup : Setup} {message : Message}

def invokedTask : Action → Option ℕ
  | .invoked i => some i
  | _ => none

def invocations (log : List Action) : List ℕ := log.filterMap invokedTask

theorem invocations_append (xs ys : List Action) :
    invocations (xs ++ ys) = invocations xs ++ invocations ys := List.filterMap_append

def Action.settles (i : ℕ) : Action → Bool
  | .acknowledged j => j = i
  | .requested j _ => j = i
  | _ => false

theorem settles_task {i : ℕ} {a : Action} (h : Action.settles i a = true) : a.task = i := by
  cases a <;> simp_all [Action.settles, Action.task]

def settlements (i : ℕ) (log : List Action) : List Action := log.filter (Action.settles i)

/-- The copy carries the message's bytes under its one transfer id. -/
def Faithful (setup : Setup) (message : Message) (copy : Copy) : Prop :=
  copy.payload = message.payload ∧
    ∃ id, transferId setup message = some id ∧ copy.headers.get natsMsgIdName = some id

/-- Task `i` invoked the handler and it returned success before its deadline, with the task
not cancelled by then. -/
def HandlerSucceeded (i : ℕ) (log : List Action) : Prop :=
  ∃ before after now deadline, log = before ++ .succeeded i now deadline :: after ∧
    now < deadline ∧ .invoked i ∈ before ∧ .cancelled i ∉ before

/-- The broker accepted a dead-letter copy of task `i` with the message's exact bytes. -/
def CopyAccepted (message : Message) (i : ℕ) (log : List Action) : Prop :=
  ∃ copy, .accepted i copy ∈ log ∧ copy.payload = message.payload

def Effect (message : Message) (i : ℕ) (log : List Action) : Prop :=
  HandlerSucceeded i log ∨ CopyAccepted message i log

theorem Effect.append {i : ℕ} {log : List Action} (h : Effect message i log)
    (actions : List Action) : Effect message i (log ++ actions) := by
  rcases h with ⟨before, after, now, deadline, rfl, hrest⟩ | ⟨copy, hmem, hpayload⟩
  · exact .inl ⟨before, after ++ actions, now, deadline, by simp, hrest⟩
  · exact .inr ⟨copy, by simp [hmem], hpayload⟩

/-- Every acknowledgement has its effect before it. -/
def Justified (message : Message) (log : List Action) : Prop :=
  ∀ before after i, log = before ++ .acknowledged i :: after → Effect message i before

theorem Justified.append {log : List Action} (h : Justified message log) {a : Action}
    (ha : ∀ i, a = .acknowledged i → Effect message i log) : Justified message (log ++ [a]) := by
  intro before after i heq
  rcases List.eq_nil_or_concat after with rfl | ⟨after, b, rfl⟩
  · obtain ⟨rfl, hlast⟩ := List.append_inj' heq rfl
    cases hlast
    exact ha i rfl
  · have hsplit : log ++ [a] = (before ++ .acknowledged i :: after) ++ [b] := by
      rw [heq]
      simp
    obtain ⟨rfl, -⟩ := List.append_inj' hsplit rfl
    exact h before after i rfl

inductive Passive (setup : Setup) (message : Message) : Phase → Prop where
  | ended : Passive setup message .ended
  | redeliver (delay : ℕ) : Passive setup message (.settling (.redeliverAfter delay))
  | transferring {copy : Copy} (h : Faithful setup message copy) :
      Passive setup message (.transferring copy)

theorem dead_letter_passive (reason : DeadLetterReason) :
    Passive setup message (deadLetter setup message reason) := by
  simp only [deadLetter]
  split
  · exact .redeliver _
  · rename_i id hid
    split
    · exact .ended
    · rename_i headers hheaders
      exact .transferring ⟨rfl, id, hid, (dead_letter_headers_get hheaders).2.2⟩

theorem process_passive {outcome : Outcome} (h : outcome ≠ .success) (delivered : ℕ) :
    Passive setup message (process setup message delivered outcome) := by
  cases outcome with
  | success => exact absurd rfl h
  | permanent | unhandled | undecodable => exact dead_letter_passive _
  | retryable | timedOut | panicked =>
    simp only [process]
    split
    · exact dead_letter_passive _
    · exact .redeliver _

theorem handle_cases (setup : Setup) (message : Message) (task : Task) (now : ℕ) :
    Passive setup message (handle setup message task now) ∨
      ∃ envelope delivered, task.delivered = some delivered ∧ delivered ≤ maxDeliveries ∧
        handle setup message task now = .running envelope delivered now := by
  cases hdelivered : task.delivered with
  | none =>
    left
    simp only [handle, hdelivered]
    exact .ended
  | some delivered =>
    simp only [handle, hdelivered]
    split
    · left
      exact .ended
    · left
      exact dead_letter_passive _
    · rename_i envelope _
      split
      · left
        exact dead_letter_passive _
      · right
        exact ⟨envelope, delivered, rfl, by omega, rfl⟩

theorem stopped_outcome_ne (reason : Stopped) : reason.outcome ≠ .success := by
  cases reason <;> simp [Stopped.outcome]

theorem finish_outcome_success {stop : Option Stopped} {result : HandlerResult}
    (h : finishOutcome stop result = .success) : stop = none := by
  cases result with
  | ok =>
    cases stop with
    | none => rfl
    | some reason => exact absurd h (stopped_outcome_ne reason)
  | error e => cases e <;> cases h
  | panicked => cases h

theorem not_stopped {now origin : ℕ} {cancelled : Bool} (h : stopped now origin cancelled = none) :
    now < origin + handlerTimeout ∧ cancelled = false := by
  simp only [stopped] at h
  split at h
  · cases h
  · rename_i htime
    split at h
    · cases h
    · rename_i hcancelled
      exact ⟨by omega, by simpa using hcancelled⟩

def PhaseInv (setup : Setup) (message : Message) (log : List Action) (i : ℕ)
    (delivered : Option ℕ) : Phase → Prop
  | .spawned => i ∉ invocations log
  | .running _ n _ => i ∉ invocations log ∧ delivered = some n ∧ n ≤ maxDeliveries
  | .handling _ _ => i ∈ invocations log
  | .transferring copy => Faithful setup message copy
  | .settling .acknowledge => Effect message i log
  | _ => True

structure TaskInv (setup : Setup) (message : Message) (log : List Action) (i : ℕ) (task : Task) :
    Prop where
  unsettled : task.phase ≠ .ended → settlements i log = []
  settledOnce : (settlements i log).length ≤ 1
  cancelled : task.cancelled = false → .cancelled i ∉ log
  budget : i ∈ invocations log → ∃ n, task.delivered = some n ∧ n ≤ maxDeliveries
  phase : PhaseInv setup message log i task.delivered task.phase

theorem PhaseInv.append {log actions : List Action} {i : ℕ} {delivered : Option ℕ} {phase : Phase}
    (h : PhaseInv setup message log i delivered phase) (hnone : i ∉ invocations actions) :
    PhaseInv setup message (log ++ actions) i delivered phase := by
  have hinvoke : i ∈ invocations (log ++ actions) ↔ i ∈ invocations log := by
    rw [invocations_append, List.mem_append]
    exact or_iff_left hnone
  cases phase with
  | spawned => exact fun hmem => h (hinvoke.mp hmem)
  | running envelope n origin => exact ⟨fun hmem => h.1 (hinvoke.mp hmem), h.2⟩
  | handling n origin => exact hinvoke.mpr h
  | transferring copy => exact h
  | awaiting copy => trivial
  | settling settlement =>
    cases settlement with
    | acknowledge => exact Effect.append h actions
    | redeliverAfter delay => trivial
  | ended => trivial

/-- Actions that neither settle nor invoke for task `i` nor cancel it leave it as it was. -/
theorem TaskInv.append {log actions : List Action} {i : ℕ} {task : Task}
    (h : TaskInv setup message log i task) (hsettles : settlements i actions = [])
    (hinvokes : i ∉ invocations actions)
    (hcancels : task.cancelled = false → .cancelled i ∉ actions) :
    TaskInv setup message (log ++ actions) i task := by
  have hsettle : settlements i (log ++ actions) = settlements i log := by
    simp only [settlements, List.filter_append] at hsettles ⊢
    rw [hsettles, List.append_nil]
  refine ⟨?_, ?_, ?_, ?_, h.phase.append hinvokes⟩
  · rw [hsettle]
    exact h.unsettled
  · rw [hsettle]
    exact h.settledOnce
  · intro hcancelled hmem
    rcases List.mem_append.mp hmem with hmem | hmem
    · exact h.cancelled hcancelled hmem
    · exact hcancels hcancelled hmem
  · intro hmem
    rw [invocations_append, List.mem_append] at hmem
    rcases hmem with hmem | hmem
    · exact h.budget hmem
    · exact absurd hmem hinvokes

theorem TaskInv.frame {log actions : List Action} {i : ℕ} {task : Task}
    (h : TaskInv setup message log i task) (hother : ∀ a ∈ actions, a.task ≠ i) :
    TaskInv setup message (log ++ actions) i task := by
  apply h.append
  · rw [settlements, List.filter_eq_nil_iff]
    intro a ha hsettles
    exact hother a ha (settles_task hsettles)
  · intro hmem
    obtain ⟨a, ha, hi⟩ := List.mem_filterMap.mp hmem
    apply hother a ha
    cases a <;> simp_all [invokedTask, Action.task]
  · intro _ hmem
    exact hother _ hmem rfl

theorem TaskInv.move {log : List Action} {i : ℕ} {task : Task} {phase : Phase}
    (h : TaskInv setup message log i task) (hopen : task.phase ≠ .ended ∨ phase = .ended)
    (hphase : PhaseInv setup message log i task.delivered phase) :
    TaskInv setup message log i { task with phase } := by
  refine ⟨?_, h.settledOnce, h.cancelled, h.budget, hphase⟩
  intro hne
  exact h.unsettled (hopen.resolve_right hne)

theorem Passive.phase_inv {phase : Phase} (h : Passive setup message phase) (log : List Action)
    (i : ℕ) (delivered : Option ℕ) : PhaseInv setup message log i delivered phase := by
  cases h with
  | ended => trivial
  | redeliver delay => trivial
  | transferring h => exact h

inductive Emits (setup : Setup) (message : Message) (log : List Action) (i : ℕ) :
    List Action → Prop where
  | nothing : Emits setup message log i []
  | cancelled : Emits setup message log i [.cancelled i]
  | invoked (h : i ∉ invocations log) : Emits setup message log i [.invoked i]
  | succeeded (now deadline : ℕ) : Emits setup message log i [.succeeded i now deadline]
  | sent {copy : Copy} (h : Faithful setup message copy) :
      Emits setup message log i [.sent i copy]
  | acknowledged (h : Effect message i log) : Emits setup message log i [.acknowledged i]
  | requested (delay : ℕ) : Emits setup message log i [.requested i delay]

def Accounted (setup : Setup) (message : Message) (log : List Action) (i : ℕ) (info : Option ℤ)
    (next : Task) (actions : List Action) : Prop :=
  next.info = info ∧ Emits setup message log i actions ∧
    TaskInv setup message (log ++ actions) i next

theorem TaskInv.quiet {log : List Action} {i : ℕ} {task : Task} {phase : Phase}
    (h : TaskInv setup message log i task) (hopen : task.phase ≠ .ended ∨ phase = .ended)
    (hphase : PhaseInv setup message log i task.delivered phase) :
    Accounted setup message log i task.info { task with phase } [] := by
  refine ⟨rfl, .nothing, ?_⟩
  rw [List.append_nil]
  exact h.move hopen hphase

theorem mem_invocations {log : List Action} {i : ℕ} : i ∈ invocations log ↔ .invoked i ∈ log := by
  constructor
  · intro h
    obtain ⟨a, ha, hi⟩ := List.mem_filterMap.mp h
    cases a <;> simp_all [invokedTask]
  · intro h
    exact List.mem_filterMap.mpr ⟨_, h, rfl⟩

theorem finish_accounted {log : List Action} {i now n origin : ℕ} {task : Task}
    (h : TaskInv setup message log i task) (hphase : task.phase = .handling n origin)
    {result : HandlerResult} {outcome : Outcome}
    (houtcome : finishOutcome (stopped now origin task.cancelled) result = outcome) :
    Accounted setup message log i task.info
      { task with phase := process setup message n outcome }
      (finishActions i now origin outcome) := by
  have hopen : task.phase ≠ .ended := by simp [hphase]
  by_cases hsuccess : outcome = .success
  · subst hsuccess
    obtain ⟨htime, hcancelled⟩ := not_stopped (finish_outcome_success houtcome)
    have hinvoked := h.phase
    rw [hphase] at hinvoked
    have happend : TaskInv setup message
        (log ++ [.succeeded i now (origin + handlerTimeout)]) i task := by
      apply h.append
      · rfl
      · simp [invocations, invokedTask]
      · simp
    refine ⟨rfl, .succeeded _ _, happend.move (.inl hopen) ?_⟩
    exact .inl ⟨log, [], now, origin + handlerTimeout, rfl, htime, mem_invocations.mp hinvoked,
      h.cancelled hcancelled⟩
  · have hnone : finishActions i now origin outcome = [] := by simp [finishActions, hsuccess]
    rw [hnone]
    exact h.quiet (.inl hopen) ((process_passive hsuccess n).phase_inv log i _)

theorem settle_accounted {log : List Action} {i : ℕ} {task : Task} {settlement : Settlement}
    (h : TaskInv setup message log i task) (hphase : task.phase = .settling settlement) :
    Accounted setup message log i task.info { task with phase := .ended }
      (if task.hasReply then [settleAction i settlement] else []) := by
  split
  · have hempty := h.unsettled (by simp [hphase])
    have hsettled : settlements i [settleAction i settlement] = [settleAction i settlement] := by
      cases settlement <;> simp [settlements, settleAction, Action.settles]
    have hinvocations : invocations (log ++ [settleAction i settlement]) = invocations log := by
      cases settlement <;> simp [invocations, settleAction, invokedTask]
    refine ⟨rfl, ?_, ?_, ?_, ?_, ?_, trivial⟩
    · cases settlement with
      | acknowledge =>
        have heffect := h.phase
        rw [hphase] at heffect
        exact .acknowledged heffect
      | redeliverAfter delay => exact .requested delay
    · intro hne
      exact absurd rfl hne
    · simp only [settlements, List.filter_append] at hempty hsettled ⊢
      rw [hempty, hsettled]
      simp
    · intro hcancelled hmem
      rcases List.mem_append.mp hmem with hmem | hmem
      · exact h.cancelled hcancelled hmem
      · cases settlement <;> simp [settleAction] at hmem
    · rw [hinvocations]
      exact h.budget
  · exact h.quiet (.inr rfl) trivial

theorem invoke_accounted {log : List Action} {i n origin : ℕ} {task : Task}
    (h : TaskInv setup message log i task) (hopen : task.phase ≠ .ended)
    (hbudget : i ∉ invocations log ∧ task.delivered = some n ∧ n ≤ maxDeliveries) :
    Accounted setup message log i task.info { task with phase := .handling n origin }
      [.invoked i] := by
  have hinvocations : invocations (log ++ [.invoked i]) = invocations log ++ [i] := by
    simp [invocations, invokedTask]
  have hsettlements : settlements i (log ++ [.invoked i]) = settlements i log := by
    simp [settlements, Action.settles]
  refine ⟨rfl, .invoked hbudget.1, ?_, ?_, ?_, ?_, ?_⟩
  · intro _
    rw [hsettlements]
    exact h.unsettled hopen
  · rw [hsettlements]
    exact h.settledOnce
  · intro hcancelled
    simpa using h.cancelled hcancelled
  · intro _
    exact ⟨n, hbudget.2⟩
  · simp [PhaseInv, hinvocations]

theorem task_step_accounted {log : List Action} {i now : ℕ} {task next : Task} {e : TaskEvent}
    {actions : List Action} (h : TaskInv setup message log i task)
    (haccepted : ∀ copy, .accepted i copy ∈ log → Faithful setup message copy)
    (hstep : taskStep setup message now log i task e = some (next, actions)) :
    Accounted setup message log i task.info next actions := by
  have hphaseInv := h.phase
  cases e with
  | begin =>
    simp only [taskStep] at hstep
    split at hstep
    · rename_i hphase
      cases hstep
      apply h.quiet (.inl (by simp [hphase]))
      rcases handle_cases setup message task now with
        hpassive | ⟨envelope, n, hn, hle, hrunning⟩
      · exact hpassive.phase_inv log i _
      · rw [hrunning]
        rw [hphase] at hphaseInv
        exact ⟨hphaseInv, hn, hle⟩
    · cases hstep
  | stop =>
    simp only [taskStep] at hstep
    split at hstep
    · rename_i envelope n origin hphase
      obtain ⟨reason, -, hnext⟩ := Option.map_eq_some_iff.mp hstep
      cases hnext
      exact h.quiet (.inl (by simp [hphase]))
        ((process_passive (stopped_outcome_ne reason) n).phase_inv log i _)
    · rename_i n origin hphase
      obtain ⟨reason, -, hnext⟩ := Option.map_eq_some_iff.mp hstep
      cases hnext
      exact h.quiet (.inl (by simp [hphase]))
        ((process_passive (stopped_outcome_ne reason) n).phase_inv log i _)
    · cases hstep
  | dispatch =>
    simp only [taskStep] at hstep
    split at hstep
    · rename_i envelope n origin hphase
      have hopen : task.phase ≠ .ended := by simp [hphase]
      rw [hphase] at hphaseInv
      split at hstep
      · cases hstep
        exact h.quiet (.inl hopen) ((process_passive (by simp) n).phase_inv log i _)
      · cases hstep
        exact h.quiet (.inl hopen) ((process_passive (by simp) n).phase_inv log i _)
      · cases hstep
        exact invoke_accounted h hopen hphaseInv
    · cases hstep
  | finish result =>
    simp only [taskStep] at hstep
    split at hstep
    · rename_i n origin hphase
      cases hstep
      exact finish_accounted h hphase rfl
    · cases hstep
  | refuse =>
    simp only [taskStep] at hstep
    split at hstep
    · rename_i copy hphase
      cases hstep
      exact h.quiet (.inl (by simp [hphase])) trivial
    · cases hstep
  | send =>
    simp only [taskStep] at hstep
    split at hstep
    · rename_i copy hphase
      rw [hphase] at hphaseInv
      split at hstep
      · cases hstep
      · cases hstep
        have happend : TaskInv setup message (log ++ [.sent i copy]) i task := by
          apply h.append
          · rfl
          · simp [invocations, invokedTask]
          · simp
        exact ⟨rfl, .sent hphaseInv, happend.move (.inl (by simp [hphase])) trivial⟩
    · cases hstep
  | answer result =>
    simp only [taskStep] at hstep
    split at hstep
    · rename_i copy hphase
      have hopen : task.phase ≠ .ended := by simp [hphase]
      cases result with
      | accepted =>
        simp only at hstep
        split at hstep
        · rename_i hany
          cases hstep
          obtain ⟨a, ha, haccepts⟩ := List.any_eq_true.mp hany
          apply h.quiet (.inl hopen)
          obtain ⟨stored, rfl⟩ : ∃ stored, a = .accepted i stored := by
            cases a <;> simp_all [Action.accepts]
          exact .inr ⟨stored, ha, (haccepted stored ha).1⟩
        · cases hstep
      | rejected | ambiguous =>
        cases hstep
        exact h.quiet (.inl hopen) trivial
    · cases hstep
  | settle =>
    simp only [taskStep] at hstep
    split at hstep
    · rename_i settlement hphase
      cases hstep
      exact settle_accounted h hphase
    · cases hstep
  | cancel =>
    cases hstep
    have happend : TaskInv setup message (log ++ [.cancelled i]) i { task with cancelled := true } :=
      TaskInv.append ⟨h.unsettled, h.settledOnce, by simp, h.budget, h.phase⟩ rfl
        (by simp [invocations, invokedTask]) (by simp)
    exact ⟨rfl, .cancelled, happend⟩
  | abort =>
    cases hstep
    exact h.quiet (.inr rfl) trivial

structure Inv (setup : Setup) (message : Message) (w : World) : Prop where
  tasks : ∀ i task, w.tasks[i]? = some task → TaskInv setup message w.log i task
  known : ∀ a ∈ w.log, a.task < w.tasks.length
  copies : ∀ i copy, .sent i copy ∈ w.log ∨ .accepted i copy ∈ w.log →
    Faithful setup message copy
  once : (invocations w.log).Nodup
  justified : Justified message w.log

theorem Emits.owned {log actions : List Action} {i : ℕ} (h : Emits setup message log i actions) :
    ∀ a ∈ actions, a.task = i := by
  cases h <;> simp [Action.task]

theorem Emits.copies {log actions : List Action} {i : ℕ} (h : Emits setup message log i actions)
    {j : ℕ} {copy : Copy} (hmem : .sent j copy ∈ actions ∨ .accepted j copy ∈ actions) :
    Faithful setup message copy := by
  cases h with
  | sent h =>
    simp only [List.mem_singleton, Action.sent.injEq, reduceCtorEq, or_false] at hmem
    exact hmem.2 ▸ h
  | nothing | cancelled | invoked | succeeded | acknowledged | requested => simp at hmem

theorem Emits.once {log actions : List Action} {i : ℕ} (h : Emits setup message log i actions)
    (hnodup : (invocations log).Nodup) : (invocations (log ++ actions)).Nodup := by
  cases h with
  | invoked h =>
    have hsplit : invocations (log ++ [.invoked i]) = invocations log ++ [i] := by
      simp [invocations, invokedTask]
    rw [hsplit]
    exact List.nodup_append.mpr ⟨hnodup, by simp, by
      intro a ha b hb
      simp only [List.mem_singleton] at hb
      rintro rfl
      exact h (hb ▸ ha)⟩
  | nothing | cancelled | succeeded | sent | acknowledged | requested =>
    rw [invocations_append]
    show (invocations log ++ []).Nodup
    rw [List.append_nil]
    exact hnodup

theorem Emits.justified {log actions : List Action} {i : ℕ}
    (h : Emits setup message log i actions) (hlog : Justified message log) :
    Justified message (log ++ actions) := by
  cases h with
  | nothing => simpa using hlog
  | acknowledged h =>
    apply hlog.append
    intro j hj
    cases hj
    exact h
  | cancelled | invoked | succeeded | sent | requested =>
    apply hlog.append
    intro j hj
    cases hj

theorem task_inv_new (info : Option ℤ) (hasReply released : Bool) {log : List Action} {i : ℕ}
    (hfresh : ∀ a ∈ log, a.task ≠ i) :
    TaskInv setup message log i (newTask info hasReply released) := by
  have hempty : TaskInv setup message [] i (newTask info hasReply released) := by
    refine ⟨fun _ => rfl, by simp [settlements], by simp, by simp [invocations], ?_⟩
    cases released
    · simp [newTask, PhaseInv, invocations]
    · trivial
  exact hempty.frame hfresh

theorem deliver_inv {w : World} (h : Inv setup message w) (info : Option ℤ)
    (hasReply released : Bool) :
    Inv setup message { w with tasks := w.tasks ++ [newTask info hasReply released] } := by
  refine ⟨?_, ?_, h.copies, h.once, h.justified⟩
  · intro i task htask
    rcases Nat.lt_or_ge i w.tasks.length with hlt | hge
    · rw [List.getElem?_append_left hlt] at htask
      exact h.tasks i task htask
    · rw [List.getElem?_append_right hge, List.getElem?_singleton] at htask
      split at htask
      · cases htask
        apply task_inv_new
        intro a ha
        have := h.known a ha
        omega
      · cases htask
  · intro a ha
    have := h.known a ha
    simp only [List.length_append, List.length_singleton]
    omega

/-- The stream stores a copy that was sent, once more or for the first time. -/
theorem accept_inv {w : World} (h : Inv setup message w) {i : ℕ} {copy : Copy}
    (hmem : .sent i copy ∈ w.log) :
    Inv setup message { w with log := w.log ++ [.accepted i copy] } := by
  refine ⟨?_, ?_, ?_, ?_, ?_⟩
  · intro j task htask
    apply (h.tasks j task htask).append
    · rfl
    · simp [invocations, invokedTask]
    · simp
  · intro a ha
    rcases List.mem_append.mp ha with ha | ha
    · exact h.known a ha
    · rw [List.mem_singleton.mp ha]
      show i < w.tasks.length
      exact h.known (.sent i copy) hmem
  · intro j stored hstored
    simp only [List.mem_append, List.mem_singleton, reduceCtorEq, or_false,
      Action.accepted.injEq] at hstored
    rcases hstored with hstored | hstored | ⟨-, rfl⟩
    · exact h.copies j stored (.inl hstored)
    · exact h.copies j stored (.inr hstored)
    · exact h.copies i stored (.inl hmem)
  · rw [invocations_append]
    show (invocations w.log ++ []).Nodup
    rw [List.append_nil]
    exact h.once
  · apply h.justified.append
    intro j hj
    cases hj

theorem poll_inv {w : World} (h : Inv setup message w) {i : ℕ} {task next : Task}
    {e : TaskEvent} {actions : List Action} (htask : w.tasks[i]? = some task)
    (hpoll : taskStep setup message w.now w.log i task e = some (next, actions)) :
    Inv setup message { w with tasks := w.tasks.set i next, log := w.log ++ actions } := by
  obtain ⟨-, hemits, hnext⟩ := task_step_accounted (h.tasks i task htask)
    (fun copy hcopy => h.copies i copy (.inr hcopy)) hpoll
  have hi : i < w.tasks.length := (List.getElem?_eq_some_iff.mp htask).1
  refine ⟨?_, ?_, ?_, hemits.once h.once, hemits.justified h.justified⟩
  · intro j other hother
    by_cases hji : j = i
    · subst hji
      rw [List.getElem?_set_self hi] at hother
      cases hother
      exact hnext
    · rw [List.getElem?_set_ne (Ne.symm hji)] at hother
      apply (h.tasks j other hother).frame
      intro a ha heq
      exact hji (heq.symm.trans (hemits.owned a ha))
  · intro a ha
    simp only [List.length_set]
    rcases List.mem_append.mp ha with ha | ha
    · exact h.known a ha
    · rw [hemits.owned a ha]
      exact hi
  · intro j copy hcopy
    simp only [List.mem_append] at hcopy
    rcases hcopy with (hcopy | hcopy) | (hcopy | hcopy)
    · exact h.copies j copy (.inl hcopy)
    · exact hemits.copies (.inl hcopy)
    · exact h.copies j copy (.inr hcopy)
    · exact hemits.copies (.inr hcopy)

theorem step_inv {w w' : World} {e : MessagingConsumer.Event} (h : Inv setup message w)
    (hstep : step setup message w e = some w') : Inv setup message w' := by
  cases e with
  | tick ms =>
    cases hstep
    exact ⟨h.tasks, h.known, h.copies, h.once, h.justified⟩
  | deliver info hasReply released =>
    cases hstep
    exact deliver_inv h info hasReply released
  | accept position =>
    simp only [step] at hstep
    split at hstep
    · rename_i i copy hsent
      cases hstep
      exact accept_inv h (List.mem_of_getElem? hsent)
    · cases hstep
  | task i e =>
    simp only [step] at hstep
    split at hstep
    · cases hstep
    · rename_i task htask
      obtain ⟨⟨next, actions⟩, hpoll, hw⟩ := Option.map_eq_some_iff.mp hstep
      cases hw
      exact poll_inv h htask hpoll

theorem reachable_inv {w : World} (h : (deliveries setup message).Reachable w) :
    Inv setup message w := by
  refine System.Reachable.induction (P := Inv setup message) ?_ ?_ h
  · refine ⟨by simp [deliveries], by simp [deliveries], by simp [deliveries], ?_, ?_⟩
    · simp [deliveries, invocations]
    · intro before after i heq
      simp [deliveries] at heq
  · intro s e t _ hs hstep
    exact step_inv hs hstep

/-- The settlements of a delivery: none, one delayed-redelivery request, or one
acknowledgement that has its effect before it. -/
theorem settlements_cases {w : World} (h : Inv setup message w) (i : ℕ) :
    settlements i w.log = [] ∨ (∃ delay, settlements i w.log = [.requested i delay]) ∨
      (settlements i w.log = [.acknowledged i] ∧ Effect message i w.log) := by
  have hmem : ∀ a ∈ settlements i w.log, a ∈ w.log ∧ Action.settles i a = true := fun a ha =>
    List.mem_filter.mp ha
  have hone : (settlements i w.log).length ≤ 1 := by
    cases htask : w.tasks[i]? with
    | some task => exact (h.tasks i task htask).settledOnce
    | none =>
      have hge := List.getElem?_eq_none_iff.mp htask
      have hempty : settlements i w.log = [] := by
        rw [settlements, List.filter_eq_nil_iff]
        intro a ha hsettles
        have hlt := h.known a ha
        rw [settles_task hsettles] at hlt
        omega
      simp [hempty]
  rcases hlist : settlements i w.log with - | ⟨a, rest⟩
  · left
    rfl
  · right
    rw [hlist] at hmem hone
    have hrest : rest = [] := List.eq_nil_of_length_eq_zero (by
      simp only [List.length_cons] at hone
      omega)
    subst hrest
    obtain ⟨hlog, hsettles⟩ := hmem a (by simp)
    cases a with
    | acknowledged j =>
      right
      simp only [Action.settles, decide_eq_true_eq] at hsettles
      subst hsettles
      obtain ⟨before, after, hsplit⟩ := List.append_of_mem hlog
      refine ⟨rfl, ?_⟩
      rw [hsplit]
      exact (h.justified before after j hsplit).append _
    | requested j delay =>
      left
      simp only [Action.settles, decide_eq_true_eq] at hsettles
      subst hsettles
      exact ⟨delay, rfl⟩
    | cancelled | invoked | succeeded | sent | accepted => cases hsettles

/-- The broker's counter is one at the first delivery and grows by one with each. -/
def CountsDeliveries (w : World) : Prop :=
  ∀ (i : ℕ) task, w.tasks[i]? = some task → task.info = some ((i : ℤ) + 1)

theorem invocations_bounded {w : World} (h : Inv setup message w) (hcount : CountsDeliveries w) :
    (invocations w.log).length ≤ maxDeliveries := by
  have hlt : ∀ i ∈ invocations w.log, i < maxDeliveries := by
    intro i hi
    have hknown := h.known _ (mem_invocations.mp hi)
    simp only [Action.task] at hknown
    obtain ⟨task, htask⟩ : ∃ task, w.tasks[i]? = some task :=
      ⟨_, List.getElem?_eq_getElem hknown⟩
    obtain ⟨n, hn, hle⟩ := (h.tasks i task htask).budget hi
    have hinfo := hcount i task htask
    simp only [Task.delivered, hinfo, Option.bind_some] at hn
    split at hn
    · cases hn
      omega
    · cases hn
  have hsubset : invocations w.log ⊆ List.range maxDeliveries := by
    intro i hi
    exact List.mem_range.mpr (hlt i hi)
  have hlen := (List.subperm_of_subset h.once hsubset).length_le
  rwa [List.length_range] at hlen

/-- In every reachable state of the deliveries of one message: each acknowledgement comes
after a handler success or an accepted copy, every other delivery asks for redelivery at most
once, the handler runs at most as often as the delivery budget, and all copies share one id. -/
theorem settled_only_with_effect {w : World} (h : (deliveries setup message).Reachable w) :
    (∀ before after i, w.log = before ++ .acknowledged i :: after → Effect message i before) ∧
    (∀ i, settlements i w.log = [] ∨ (∃ delay, settlements i w.log = [.requested i delay]) ∨
      (settlements i w.log = [.acknowledged i] ∧ Effect message i w.log)) ∧
    (CountsDeliveries w → (invocations w.log).length ≤ maxDeliveries) ∧
    ∃ id, ∀ i copy, .sent i copy ∈ w.log →
      copy.payload = message.payload ∧ copy.headers.get natsMsgIdName = some id := by
  have hinv := reachable_inv h
  refine ⟨hinv.justified, settlements_cases hinv, invocations_bounded hinv, ?_⟩
  refine ⟨(transferId setup message).getD "", ?_⟩
  intro i copy hsent
  obtain ⟨hpayload, id, hid, hget⟩ := hinv.copies i copy (.inl hsent)
  rw [hid]
  exact ⟨hpayload, hget⟩

def sampleMessage : Message :=
  ⟨"orders.created", some sampleOriginal, [91, 49, 93], "ORDERS", 7, unixEpoch.toOffset⟩

def sourceSha256 : Sha256 := fun _ =>
  #v[0x26, 0x58, 0x60, 0xe0, 0x1e, 0x7c, 0x24, 0x06, 0x56, 0x9d, 0xa5, 0xa4, 0x50, 0xae, 0x12, 0x91,
    0x06, 0x37, 0xbb, 0x80, 0xe6, 0xaf, 0x88, 0x50, 0x47, 0xcc, 0x7e, 0xce, 0x16, 0x46, 0xb0, 0xdc]

def sampleSetup : Setup where
  rfc := epochRfc
  sha256 := sourceSha256
  registry := ⟨[(("order.created", 2), "orders.created")], [(("order.created", 2), fun _ => true)]⟩
  maxPayloadBytes := 1024
  dlqSubject := "dlq.orders"
  dlqStream := "ORDERS_DLQ"

/-- The handler asks for a retry, then rejects the event, and the copy is accepted. -/
def sampleTrace : List MessagingConsumer.Event :=
  [.deliver (some 1) true false, .task 0 .begin, .task 0 .dispatch,
    .task 0 (.finish (.error .retryable)), .task 0 .settle,
    .deliver (some 2) true false, .task 1 .begin, .task 1 .dispatch,
    .task 1 (.finish (.error .permanent)), .task 1 .send, .accept 3,
    .task 1 (.answer .accepted), .task 1 .settle]

theorem settled_only_with_effect_transferred :
    ∃ w, (deliveries sampleSetup sampleMessage).run ⟨0, [], []⟩ sampleTrace = some w ∧
      CountsDeliveries w ∧ (invocations w.log).length ≤ maxDeliveries ∧
      settlements 0 w.log = [.requested 0 1000] ∧ settlements 1 w.log = [.acknowledged 1] ∧
      ∃ before after, w.log = before ++ .acknowledged 1 :: after ∧
        Effect sampleMessage 1 before := by
  obtain ⟨w, hrun, hinfo, hfirst, hsecond, hlast⟩ : ∃ w,
      (deliveries sampleSetup sampleMessage).run ⟨0, [], []⟩ sampleTrace = some w ∧
        w.tasks.map Task.info = [some 1, some 2] ∧ settlements 0 w.log = [.requested 0 1000] ∧
        settlements 1 w.log = [.acknowledged 1] ∧
        w.log.getLast? = some (.acknowledged 1) := ⟨_, rfl, rfl, rfl, rfl, rfl⟩
  have hcounts : CountsDeliveries w := by
    intro i task htask
    have hmap : (w.tasks.map Task.info)[i]? = some task.info := by
      rw [List.getElem?_map, htask]
      rfl
    rw [hinfo] at hmap
    match i, hmap with
    | 0, hmap => exact (Option.some.inj hmap).symm
    | 1, hmap => exact (Option.some.inj hmap).symm
    | n + 2, hmap => cases hmap
  have hsettled := settled_only_with_effect (System.reachable_of_run hrun)
  obtain ⟨before, hlog⟩ := List.getLast?_eq_some_iff.mp hlast
  exact ⟨w, hrun, hcounts, hsettled.2.2.1 hcounts, hfirst, hsecond, before, [], hlog,
    hsettled.1 before [] 1 hlog⟩

end MessagingSettlement
