import ServiceTemplate.JsonText
import ServiceTemplate.WebhookProtocol
import ServiceTemplate.JobsFencing

/-! Durable admission and processing of inbound webhooks.
A verified delivery writes its receipt and enqueues its job in one READ COMMITTED transaction.
Cleanup deletes expired receipts, and the processor runs the consumer and the fenced completion
in one transaction of the job table. Every client may stop at any step. -/
namespace WebhookInbound

open TransitionSystem
open ByteFraming
open JsonText
open WebhookProtocol
open JobsTable
open JobsLedger
open JobsFencing
open JobsSystem (TxId)

abbrev DeliveryId := ℕ
abbrev CleanupId := ℕ

def retentionSeconds : ℤ := 14 * 24 * 3600
def retentionMicros : ℤ := retentionSeconds * 1000000
def cleanupBatchRows : ℕ := 500
def maxPayloadBytes : ℕ := 262144
def contentTypeHeader : String := "content-type"

/-- `Incoming::NAME`. No other code enqueues this kind. -/
def kindName : String := "webhooks.process"

inductive ReceiptOutcome where
  | accepted
  | duplicate
  deriving DecidableEq, Repr

structure Rejection where
  reason : String
  deriving DecidableEq, Repr

def protocolReason : ProtocolError → String
  | .invalidKey => "invalid_key"
  | .bodyTooLarge => "body_too_large"
  | .missingHeader => "missing_header"
  | .conflictingHeader => "conflicting_header"
  | .invalidMessageId => "invalid_message_id"
  | .invalidTimestamp => "invalid_timestamp"
  | .timestampOutOfWindow => "timestamp_out_of_window"
  | .invalidSignature => "invalid_signature"

inductive ReceiveError where
  | unknownEndpoint
  | rejected (rejection : Rejection)
  | unavailable
  deriving DecidableEq, Repr

/-- One endpoint's sender authentication: it returns the message identity. -/
abbrev Verifier := HeaderMap → Bytes → ℤ → Except Rejection Bytes

def ringVerifier (hmac : Hmac) (ring : KeyRing) : Verifier := fun headers body now =>
  match ring.verify hmac headers body now with
  | .ok verified => .ok verified.messageId
  | .error error => .error ⟨protocolReason error⟩

theorem ring_verifier_ok {hmac : Hmac} {ring : KeyRing} {headers : HeaderMap} {body id : Bytes}
    {now : ℤ} : ringVerifier hmac ring headers body now = .ok id ↔
      ∃ message, Accepted hmac ring headers body now message ∧ message.messageId = id := by
  simp only [ringVerifier, ← verify_ok]
  cases ring.verify hmac headers body now <;> simp

structure Receiver where
  endpoints : String → Option Verifier

structure Request where
  endpointId : String
  headers : HeaderMap
  body : Bytes
  now : ℤ
  deriving DecidableEq

abbrev Key := String × Bytes

structure Incoming where
  endpointId : String
  messageId : Bytes
  contentType : Option Bytes
  body : Bytes
  deriving DecidableEq, Repr

def Incoming.key (incoming : Incoming) : Key := (incoming.endpointId, incoming.messageId)

def Receiver.verify (receiver : Receiver) (request : Request) : Except ReceiveError Incoming :=
  match receiver.endpoints request.endpointId with
  | none => .error .unknownEndpoint
  | some verifier =>
    match verifier request.headers request.body request.now with
    | .error rejection => .error (.rejected rejection)
    | .ok messageId =>
      if messageId = [] ∨ maxMessageIdBytes < messageId.length then
        .error (.rejected ⟨protocolReason .invalidMessageId⟩)
      else .ok ⟨request.endpointId, messageId, (getAll request.headers contentTypeHeader).head?,
        request.body⟩

def base64Text (bytes : Bytes) : List Char := quote (Base64.encode bytes)

def optionalText : Option Bytes → List Char
  | none => "null".toList
  | some bytes => base64Text bytes

def versionText : List Char := "\x7b\"version\":1,\"endpoint_id\":".toList
def messageIdText : List Char := ",\"message_id\":".toList
def contentTypeText : List Char := ",\"content_type\":".toList
def bodyText : List Char := ",\"body\":".toList
def closeText : List Char := "\x7d".toList

/-- The serialized fields, in declaration order. -/
def Incoming.serialize (incoming : Incoming) : List Char :=
  versionText ++ (quote incoming.endpointId.toList ++ (messageIdText ++
    (base64Text incoming.messageId ++ (contentTypeText ++ (optionalText incoming.contentType ++
      (bodyText ++ (base64Text incoming.body ++ closeText)))))))

def Incoming.payload (incoming : Incoming) : String := String.ofList incoming.serialize

theorem base64_text_self_delimiting : SelfDelimiting fun bytes => some (base64Text bytes) := by
  rintro a b u v x y ⟨⟩ ⟨⟩ h
  rcases quote_self_delimiting rfl rfl h with ⟨hencoded, hrest⟩
  have hdecoded := congrArg Base64.decode hencoded
  rw [Base64.decode_encode, Base64.decode_encode, Option.some.injEq] at hdecoded
  exact ⟨hdecoded, hrest⟩

theorem optional_text_self_delimiting : SelfDelimiting fun bytes => some (optionalText bytes) := by
  rintro a b u v x y ⟨⟩ ⟨⟩ h
  cases a with
  | none =>
    cases b with
    | none => exact ⟨rfl, List.append_cancel_left h⟩
    | some b => exact absurd (congrArg List.head? h) (by simp [optionalText, base64Text, quote])
  | some a =>
    cases b with
    | none => exact absurd (congrArg List.head? h) (by simp [optionalText, base64Text, quote])
    | some b =>
      rcases base64_text_self_delimiting rfl rfl h with ⟨rfl, hrest⟩
      exact ⟨rfl, hrest⟩

/-- The payload text determines the delivery it was made from. -/
theorem payload_injective : Function.Injective Incoming.payload := by
  intro i j h
  have htext : i.serialize = j.serialize := by
    simpa [Incoming.payload] using congrArg String.toList h
  have hfields := List.append_cancel_left htext
  rcases quote_self_delimiting rfl rfl hfields with ⟨hendpoint, htext⟩
  have htext := List.append_cancel_left htext
  rcases base64_text_self_delimiting rfl rfl htext with ⟨hmessage, htext⟩
  have htext := List.append_cancel_left htext
  rcases optional_text_self_delimiting rfl rfl htext with ⟨hcontent, htext⟩
  have htext := List.append_cancel_left htext
  rcases base64_text_self_delimiting rfl rfl htext with ⟨hbody, -⟩
  have hendpoint := String.toList_inj.mp hendpoint
  cases i
  cases j
  simp_all

inductive EnqueueError where
  | invalidKind (kind : String)
  | payloadTooLarge (bytes : ℕ)
  | payloadContainsNul
  deriving DecidableEq, Repr

def nulEscape : Bytes := [117, 48, 48, 48, 48]

/-- A backslash takes its next byte with it. -/
def containsDecodedNul : Bytes → Bool
  | [] | [_] => false
  | byte :: next :: rest =>
    if byte = 92 then (next :: rest).take 5 = nulEscape || containsDecodedNul rest
    else containsDecodedNul (next :: rest)

/-- `prepare` under the default options: no unique key and no delay. -/
def prepare (incoming : Incoming) : Except EnqueueError String :=
  let payload := incoming.payload
  if !isValidKindName kindName then .error (.invalidKind kindName)
  else if maxPayloadBytes < (asBytes payload).length then
    .error (.payloadTooLarge (asBytes payload).length)
  else if containsDecodedNul (asBytes payload) then .error .payloadContainsNul
  else .ok payload

/-- One committed receipt with the delivery that wrote it and the job it enqueued. -/
structure Admission where
  delivery : DeliveryId
  incoming : Incoming
  receivedAt : Time
  job : JobId
  deriving DecidableEq, Repr

def Admission.key (admission : Admission) : Key := admission.incoming.key

inductive Mark where
  | admitted (admission : Admission)
  | removed (key : Key) (stamp : Time)
  deriving DecidableEq, Repr

inductive Phase where
  | begun
  | conflicted
  | inserted
  | enqueued (job : NewJob) (stamp : Time)
  | committed (outcome : ReceiptOutcome)
  | rolledBack
  deriving DecidableEq, Repr

/-- `since` counts the marks when the delivery began; `sent` says that its COMMIT left the
client, and `answered` that the caller has its result or has gone. -/
structure Delivery where
  request : Request
  incoming : Incoming
  receivedAt : Time
  since : ℕ
  phase : Phase
  sent : Bool
  answered : Bool
  deriving DecidableEq

structure Answer where
  delivery : DeliveryId
  result : Except ReceiveError ReceiptOutcome

/-- Who keeps an identity: an uncommitted insert, a cleanup that locked the row, or one that
deleted it and has not committed. -/
inductive Holder where
  | inserting (a : DeliveryId)
  | locking (c : CleanupId)
  | deleting (c : CleanupId)
  deriving DecidableEq, Repr

structure Cleanup where
  keys : List Key
  stamp : Time
  deleted : Bool

inductive Stage where
  | consuming
  | consumed
  | completed
  | failed
  deriving DecidableEq, Repr

structure Processing where
  job : JobId
  generation : ℕ
  incoming : Incoming
  stage : Stage

structure Effect where
  job : JobId
  generation : ℕ
  incoming : Incoming
  deriving DecidableEq, Repr

structure State where
  clock : Time
  jobs : JobsSystem.State
  receipts : Key → Option Time
  holders : Key → Option Holder
  deliveries : DeliveryId → Option Delivery
  cleanups : CleanupId → Option Cleanup
  processings : TxId → Option Processing
  marks : List Mark
  answers : List Answer
  effects : List Effect

inductive Event where
  | tick (elapsed : ℕ)
  | receive (a : DeliveryId) (request : Request)
  | insert (a : DeliveryId)
  | enqueue (a : DeliveryId) (id : JobId) (traceContext traceState : Option String)
  | sendCommit (a : DeliveryId)
  | commit (a : DeliveryId)
  | acknowledge (a : DeliveryId)
  | fail (a : DeliveryId)
  | rollback (a : DeliveryId)
  | cleanupLock (c : CleanupId) (stamp : Time) (keys : List Key)
  | cleanupDelete (c : CleanupId)
  | cleanupCommit (c : CleanupId)
  | cleanupAbort (c : CleanupId)
  | process (x : TxId) (job : JobId) (generation : ℕ) (incoming : Incoming)
  | consume (x : TxId) (accepted : Bool)
  | complete (x : TxId) (now : Time)
  | processCommit (x : TxId)
  | processRollback (x : TxId)
  | jobs (e : JobsSystem.Event)

def initial : State :=
  ⟨0, JobsSystem.initial, fun _ => none, fun _ => none, fun _ => none, fun _ => none,
    fun _ => none, [], [], []⟩

def State.set (s : State) (a : DeliveryId) (d : Delivery) : State :=
  { s with deliveries := Function.update s.deliveries a (some d) }

def State.hold (s : State) (key : Key) (holder : Option Holder) : State :=
  { s with holders := Function.update s.holders key holder }

def State.answer (s : State) (a : DeliveryId) (d : Delivery)
    (result : Except ReceiveError ReceiptOutcome) : State :=
  { s.set a { d with answered := true } with answers := s.answers ++ [⟨a, result⟩] }

/-- `received_at` is the start of the transaction. A refused delivery starts none. -/
def receive (receiver : Receiver) (s : State) (a : DeliveryId) (request : Request) :
    Option State :=
  if (s.deliveries a).isSome ∨ a ∈ s.answers.map Answer.delivery then none
  else match receiver.verify request with
    | .error error => some { s with answers := s.answers ++ [⟨a, .error error⟩] }
    | .ok incoming =>
      some (s.set a ⟨request, incoming, s.clock, s.marks.length, .begun, false, false⟩)

/-- An uncommitted insert or delete of the identity makes the INSERT wait; a mere row lock does
not. -/
def State.blocked (s : State) (key : Key) : Bool :=
  match s.holders key with
  | some (.inserting _) | some (.deleting _) => true
  | some (.locking _) | none => false

def insert (s : State) (a : DeliveryId) : Option State :=
  match s.deliveries a with
  | none => none
  | some d =>
    if d.phase = .begun ∧ !d.answered ∧ !s.blocked d.incoming.key then
      match s.receipts d.incoming.key with
      | some _ => some (s.set a { d with phase := .conflicted })
      | none =>
        some ((s.set a { d with phase := .inserted }).hold d.incoming.key (some (.inserting a)))
    else none

/-- A refused payload or a duplicate job fails the delivery, whose transaction then rolls back. -/
def enqueue (s : State) (a : DeliveryId) (id : JobId) (traceContext traceState : Option String) :
    Option State :=
  match s.deliveries a with
  | none => none
  | some d =>
    if d.phase = .inserted ∧ !d.answered then
      match prepare d.incoming with
      | .error _ => some (s.answer a d (.error .unavailable))
      | .ok payload =>
        let job : NewJob := ⟨id, kindName, payload, none, 0, traceContext, traceState⟩
        if (job.row s.clock).conflictsIn s.jobs.rows then
          some (s.answer a d (.error .unavailable))
        else some (s.set a { d with phase := .enqueued job s.clock })
    else none

def Phase.finished : Phase → Bool
  | .conflicted | .enqueued _ _ => true
  | _ => false

def sendCommit (s : State) (a : DeliveryId) : Option State :=
  match s.deliveries a with
  | none => none
  | some d =>
    if d.phase.finished ∧ !d.answered ∧ !d.sent then some (s.set a { d with sent := true })
    else none

/-- The server commits, whether or not the client still waits. The receipt and the job become
visible together. -/
def commit (s : State) (a : DeliveryId) : Option State :=
  match s.deliveries a with
  | none => none
  | some d =>
    if !d.sent then none
    else match d.phase with
      | .conflicted => some (s.set a { d with phase := .committed .duplicate })
      | .enqueued job stamp =>
        (JobsSystem.enqueue s.jobs job stamp).map fun jobs =>
          { ((s.set a { d with phase := .committed .accepted }).hold d.incoming.key none) with
            jobs := jobs
            receipts := Function.update s.receipts d.incoming.key (some d.receivedAt)
            marks := s.marks ++ [.admitted ⟨a, d.incoming, d.receivedAt, job.id⟩] }
      | _ => none

def acknowledge (s : State) (a : DeliveryId) : Option State :=
  match s.deliveries a with
  | none => none
  | some d =>
    match d.phase with
    | .committed outcome => if d.answered then none else some (s.answer a d (.ok outcome))
    | _ => none

/-- A statement failed, the COMMIT was refused, or its acknowledgement was lost. -/
def fail (s : State) (a : DeliveryId) : Option State :=
  match s.deliveries a with
  | none => none
  | some d => if d.answered then none else some (s.answer a d (.error .unavailable))

def Phase.open : Phase → Bool
  | .begun | .conflicted | .inserted | .enqueued _ _ => true
  | _ => false

def rollback (s : State) (a : DeliveryId) : Option State :=
  match s.deliveries a with
  | none => none
  | some d =>
    if d.phase.open then
      some { s.set a { d with phase := .rolledBack } with
        holders := fun key =>
          if s.holders key = some (.inserting a) then none else s.holders key }
    else none

def State.expired (s : State) (stamp : Time) (key : Key) : Bool :=
  (s.receipts key).any fun receivedAt => receivedAt < stamp - retentionMicros

/-- Locked rows are skipped. Which of the expired receipts a batch takes is left open. -/
def cleanupLock (s : State) (c : CleanupId) (stamp : Time) (keys : List Key) : Option State :=
  if (s.cleanups c).isNone ∧ stamp ≤ s.clock ∧ keys.length ≤ cleanupBatchRows ∧ keys.Nodup ∧
      ∀ key ∈ keys, s.expired stamp key ∧ (s.holders key).isNone then
    some { s with
      cleanups := Function.update s.cleanups c (some ⟨keys, stamp, false⟩)
      holders := fun key => if key ∈ keys then some (.locking c) else s.holders key }
  else none

def cleanupDelete (s : State) (c : CleanupId) : Option State :=
  match s.cleanups c with
  | none => none
  | some batch =>
    if batch.deleted then none
    else some { s with
      cleanups := Function.update s.cleanups c (some { batch with deleted := true })
      holders := fun key => if key ∈ batch.keys then some (.deleting c) else s.holders key }

def State.release (s : State) (c : CleanupId) (keys : List Key) : State :=
  { s with
    cleanups := Function.update s.cleanups c none
    holders := fun key => if key ∈ keys then none else s.holders key }

def cleanupCommit (s : State) (c : CleanupId) : Option State :=
  match s.cleanups c with
  | none => none
  | some batch =>
    if !batch.deleted then none
    else some { s.release c batch.keys with
      receipts := fun key => if key ∈ batch.keys then none else s.receipts key
      marks := s.marks ++ batch.keys.map fun key => .removed key batch.stamp }

def cleanupAbort (s : State) (c : CleanupId) : Option State :=
  (s.cleanups c).map fun batch => s.release c batch.keys

def handed (job : JobId) (generation : ℕ) (c : Change) : Option Row :=
  match c.cause, c.after with
  | .claimed _ _ _, some row =>
    if row.id = job ∧ row.claimGeneration = generation ∧ row.state = .running then some row
    else none
  | _, _ => none

def State.setProcessing (s : State) (x : TxId) (jobs : JobsSystem.State)
    (processing : Option Processing) : State :=
  { s with jobs := jobs, processings := Function.update s.processings x processing }

/-- The handler of a claimed job opens its transaction. The claim may have been superseded
since. Without a bound consumer no transaction starts. -/
def process (bound : String → Bool) (s : State) (x : TxId) (job : JobId) (generation : ℕ)
    (incoming : Incoming) : Option State :=
  match s.jobs.log.findSome? (handed job generation) with
  | none => none
  | some row =>
    if row.kind = kindName ∧ row.payload = incoming.payload ∧ bound incoming.endpointId ∧
        (s.processings x).isNone then
      (JobsSystem.openTx s.jobs x).map fun jobs =>
        s.setProcessing x jobs (some ⟨job, generation, incoming, .consuming⟩)
    else none

def consume (s : State) (x : TxId) (accepted : Bool) : Option State :=
  match s.processings x with
  | some ⟨job, generation, incoming, .consuming⟩ =>
    some (s.setProcessing x s.jobs
      (some ⟨job, generation, incoming, if accepted then .consumed else .failed⟩))
  | _ => none

def completeStage (call : Option JobsSystem.Call) : Stage :=
  if (call.map JobsSystem.Call.result) = some .ok then .completed else .failed

def complete (s : State) (x : TxId) (now : Time) : Option State :=
  match s.processings x with
  | some ⟨job, generation, incoming, .consumed⟩ =>
    (JobsSystem.completeInTx s.jobs x job generation now).map fun jobs =>
      s.setProcessing x jobs
        (some ⟨job, generation, incoming, completeStage jobs.calls.getLast?⟩)
  | _ => none

/-- The consumer's writes and the completion commit together. -/
def processCommit (s : State) (x : TxId) : Option State :=
  match s.processings x with
  | some ⟨job, generation, incoming, .completed⟩ =>
    (JobsSystem.commit s.jobs x).map fun jobs =>
      { s.setProcessing x jobs none with effects := s.effects ++ [⟨job, generation, incoming⟩] }
  | _ => none

def processRollback (s : State) (x : TxId) : Option State :=
  match s.processings x with
  | none => none
  | some _ => (JobsSystem.rollback s.jobs x).map fun jobs => s.setProcessing x jobs none

/-- Whether other code may run the event: the receiver alone enqueues its kind, and a
processor's transaction is its own. -/
def State.foreign (s : State) : JobsSystem.Event → Bool
  | .enqueue job _ => job.kind ≠ kindName
  | e => e.tx.all fun x => (s.processings x).isNone

def jobsStep (s : State) (e : JobsSystem.Event) : Option State :=
  if s.foreign e then (JobsSystem.step s.jobs e).map fun jobs => { s with jobs := jobs } else none

def step (receiver : Receiver) (bound : String → Bool) (s : State) : Event → Option State
  | .tick elapsed => some { s with clock := s.clock + elapsed }
  | .receive a request => receive receiver s a request
  | .insert a => insert s a
  | .enqueue a id traceContext traceState => enqueue s a id traceContext traceState
  | .sendCommit a => sendCommit s a
  | .commit a => commit s a
  | .acknowledge a => acknowledge s a
  | .fail a => fail s a
  | .rollback a => rollback s a
  | .cleanupLock c stamp keys => cleanupLock s c stamp keys
  | .cleanupDelete c => cleanupDelete s c
  | .cleanupCommit c => cleanupCommit s c
  | .cleanupAbort c => cleanupAbort s c
  | .process x job generation incoming => process bound s x job generation incoming
  | .consume x accepted => consume s x accepted
  | .complete x now => complete s x now
  | .processCommit x => processCommit s x
  | .processRollback x => processRollback s x
  | .jobs e => jobsStep s e

def inbound (receiver : Receiver) (bound : String → Bool) : System State Event :=
  ⟨initial, step receiver bound⟩

end WebhookInbound
