import ServiceTemplate.TransitionSystem
import ServiceTemplate.MessagingWire

/-! Deliveries of one stored message, from any number of consumer replicas.
A delivery task runs between awaits; it can be aborted at every one of them. The broker may
deliver the message again at any time, and what a task sends may be lost. Times are
milliseconds. -/
namespace MessagingConsumer

open TransitionSystem
open ByteFraming
open MessagingText
open MessagingWire

def handlerTimeout : ℕ := 30000

/-- Delays before the second to fifth delivery; the fifth failure dead-letters. -/
def retryDelays : List ℕ := [1000, 5000, 30000, 120000]

def maxDeliveries : ℕ := retryDelays.length + 1

def settlementRetryDelay : ℕ := 30000

def releaseDelay : ℕ := 1000

/-- The stored message, the same at every delivery. -/
structure Message where
  subject : String
  headers : Option HeaderMap
  payload : Bytes
  stream : String
  streamSequence : UInt64
  published : OffsetDateTime

def Message.original (message : Message) : HeaderMap := message.headers.getD HeaderMap.new

/-- Routes by event type and version; a handler's key with its payload type's acceptance. -/
structure Registry where
  routes : List ((String × UInt16) × String)
  handlers : List ((String × UInt16) × (Bytes → Bool))

inductive HandlerError where
  | retryable
  | permanent
  deriving DecidableEq, Repr

inductive DispatchError where
  | unhandled
  | undecodable
  deriving DecidableEq, Repr

def Registry.dispatch (registry : Registry) (subject : String) (envelope : InboundEnvelope) :
    Except DispatchError Unit :=
  let key := (envelope.eventType, envelope.schemaVersion)
  match registry.routes.lookup key, registry.handlers.lookup key with
  | some route, some decodes =>
    if route ≠ subject then .error .unhandled
    else if decodes envelope.payload then .ok () else .error .undecodable
  | _, _ => .error .unhandled

structure Setup where
  rfc : Rfc3339
  sha256 : Sha256
  registry : Registry
  maxPayloadBytes : ℕ
  dlqSubject : String
  dlqStream : String

structure Copy where
  subject : String
  headers : HeaderMap
  payload : Bytes

inductive Settlement where
  | acknowledge
  | redeliverAfter (delay : ℕ)
  deriving DecidableEq, Repr

inductive Stopped where
  | deadline
  | cancelled
  deriving DecidableEq, Repr

inductive Outcome where
  | success
  | permanent
  | retryable
  | timedOut
  | panicked
  | unhandled
  | undecodable
  deriving DecidableEq, Repr

inductive Phase where
  | spawned
  | running (envelope : InboundEnvelope) (delivered origin : ℕ)
  | handling (delivered origin : ℕ)
  | transferring (copy : Copy)
  | awaiting (copy : Copy)
  | settling (settlement : Settlement)
  | ended

/-- One delivery: the metadata and reply subject it came with, its cancellation token and its
progress. -/
structure Task where
  info : Option ℤ
  hasReply : Bool
  cancelled : Bool
  phase : Phase

/-- The delivery count as a `usize`. -/
def Task.delivered (task : Task) : Option ℕ :=
  task.info.bind fun count => if 0 ≤ count then some count.toNat else none

/-- The handler context's state; the deadline takes precedence. -/
def stopped (now origin : ℕ) (cancelled : Bool) : Option Stopped :=
  if handlerTimeout - (now - origin) = 0 then some .deadline
  else if cancelled then some .cancelled
  else none

def Stopped.outcome : Stopped → Outcome
  | .deadline => .timedOut
  | .cancelled => .retryable

def transferId (setup : Setup) (message : Message) : Option String :=
  (deadLetterId setup.rfc setup.sha256 message.stream message.streamSequence message.published
    (headerValue message.original natsMsgIdName)).toOption

/-- The start of a transfer. Without an identity the source is kept; a header the client
refuses ends the task. -/
def deadLetter (setup : Setup) (message : Message) (reason : DeadLetterReason) : Phase :=
  match transferId setup message with
  | none => .settling (.redeliverAfter settlementRetryDelay)
  | some id =>
    match deadLetterHeaders message.original message.subject setup.dlqStream id reason with
    | .error _ => .ended
    | .ok headers => .transferring ⟨setup.dlqSubject, headers, message.payload⟩

def process (setup : Setup) (message : Message) (delivered : ℕ) : Outcome → Phase
  | .success => .settling .acknowledge
  | .permanent | .unhandled | .undecodable => deadLetter setup message .permanent
  | .retryable | .timedOut | .panicked =>
    if maxDeliveries ≤ delivered then deadLetter setup message .exhausted
    else .settling (.redeliverAfter (retryDelays.getD (delivered - 1) settlementRetryDelay))

def decoded (setup : Setup) (message : Message) : Except Fault InboundEnvelope :=
  if setup.maxPayloadBytes < message.payload.length then .error (.error .bounds)
  else decodeEnvelope setup.rfc message.subject message.original message.payload

def handle (setup : Setup) (message : Message) (task : Task) (now : ℕ) : Phase :=
  match task.delivered with
  | none => .ended
  | some delivered =>
    match decoded setup message with
    | .error .panicked => .ended
    | .error (.error _) => deadLetter setup message .malformed
    | .ok envelope =>
      if maxDeliveries < delivered then deadLetter setup message .exhausted
      else .running envelope delivered now

/-- What leaves a task or reaches it, in order, for the one message. -/
inductive Action where
  | cancelled (task : ℕ)
  | invoked (task : ℕ)
  | succeeded (task now deadline : ℕ)
  | sent (task : ℕ) (copy : Copy)
  | accepted (task : ℕ) (copy : Copy)
  | acknowledged (task : ℕ)
  | requested (task delay : ℕ)

def Action.task : Action → ℕ
  | .cancelled i | .invoked i | .succeeded i _ _ | .sent i _ | .accepted i _ | .acknowledged i
  | .requested i _ => i

def Action.accepts (i : ℕ) : Action → Bool
  | .accepted j _ => j = i
  | _ => false

inductive HandlerResult where
  | ok
  | error (e : HandlerError)
  | panicked
  deriving DecidableEq, Repr

inductive PublishAnswer where
  | accepted
  | rejected
  | ambiguous
  deriving DecidableEq, Repr

inductive TaskEvent where
  | begin
  | stop
  | dispatch
  | finish (result : HandlerResult)
  | refuse
  | send
  | answer (result : PublishAnswer)
  | settle
  | cancel
  | abort
  deriving DecidableEq, Repr

/-- A handler result as the task sees it: a success that crossed the cutoff does not count. -/
def finishOutcome (stop : Option Stopped) : HandlerResult → Outcome
  | .ok => (stop.map Stopped.outcome).getD .success
  | .error .permanent => .permanent
  | .error .retryable => .retryable
  | .panicked => .panicked

def finishActions (i now origin : ℕ) (outcome : Outcome) : List Action :=
  if outcome = .success then [.succeeded i now (origin + handlerTimeout)] else []

def settleAction (i : ℕ) : Settlement → Action
  | .acknowledge => .acknowledged i
  | .redeliverAfter delay => .requested i delay

def taskStep (setup : Setup) (message : Message) (now : ℕ) (log : List Action) (i : ℕ)
    (task : Task) : TaskEvent → Option (Task × List Action)
  | .begin =>
    match task.phase with
    | .spawned => some ({ task with phase := handle setup message task now }, [])
    | _ => none
  | .stop =>
    match task.phase with
    | .running _ delivered origin | .handling delivered origin =>
      (stopped now origin task.cancelled).map fun reason =>
        ({ task with phase := process setup message delivered reason.outcome }, [])
    | _ => none
  | .dispatch =>
    match task.phase with
    -- The stop is polled before the dispatch; it can also arrive between the two.
    | .running envelope delivered origin =>
      match setup.registry.dispatch message.subject envelope with
      | .error .unhandled =>
        some ({ task with phase := process setup message delivered .unhandled }, [])
      | .error .undecodable =>
        some ({ task with phase := process setup message delivered .undecodable }, [])
      | .ok () => some ({ task with phase := .handling delivered origin }, [.invoked i])
    | _ => none
  | .finish result =>
    match task.phase with
    | .handling delivered origin =>
      let outcome := finishOutcome (stopped now origin task.cancelled) result
      some ({ task with phase := process setup message delivered outcome },
        finishActions i now origin outcome)
    | _ => none
  | .refuse =>
    match task.phase with
    | .transferring _ =>
      some ({ task with phase := .settling (.redeliverAfter settlementRetryDelay) }, [])
    | _ => none
  | .send =>
    match task.phase with
    | .transferring copy =>
      if task.cancelled then none
      else some ({ task with phase := .awaiting copy }, [.sent i copy])
    | _ => none
  | .answer result =>
    match task.phase with
    | .awaiting _ =>
      match result with
      | .accepted =>
        -- A positive answer comes from a broker that stored the copy.
        if log.any (Action.accepts i) then
          some ({ task with phase := .settling .acknowledge }, [])
        else none
      | .rejected | .ambiguous =>
        some ({ task with phase := .settling (.redeliverAfter settlementRetryDelay) }, [])
    | _ => none
  | .settle =>
    match task.phase with
    | .settling settlement =>
      some ({ task with phase := .ended },
        if task.hasReply then [settleAction i settlement] else [])
    | _ => none
  | .cancel => some ({ task with cancelled := true }, [.cancelled i])
  | .abort => some ({ task with phase := .ended }, [])

structure World where
  now : ℕ
  tasks : List Task
  log : List Action

/-- A released delivery was buffered by a draining replica and is only returned. -/
inductive Event where
  | tick (ms : ℕ)
  | deliver (info : Option ℤ) (hasReply released : Bool)
  | accept (position : ℕ)
  | task (i : ℕ) (e : TaskEvent)
  deriving DecidableEq, Repr

def newTask (info : Option ℤ) (hasReply released : Bool) : Task :=
  ⟨info, hasReply, false,
    if released then .settling (.redeliverAfter releaseDelay) else .spawned⟩

def step (setup : Setup) (message : Message) (w : World) : Event → Option World
  | .tick ms => some { w with now := w.now + ms }
  | .deliver info hasReply released =>
    some { w with tasks := w.tasks ++ [newTask info hasReply released] }
  | .accept position =>
    match w.log[position]? with
    | some (.sent i copy) => some { w with log := w.log ++ [.accepted i copy] }
    | _ => none
  | .task i e =>
    match w.tasks[i]? with
    | none => none
    | some task =>
      (taskStep setup message w.now w.log i task e).map fun (next, actions) =>
        { w with tasks := w.tasks.set i next, log := w.log ++ actions }

def deliveries (setup : Setup) (message : Message) : System World Event :=
  ⟨⟨0, [], []⟩, step setup message⟩

end MessagingConsumer
