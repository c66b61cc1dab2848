import ServiceTemplate.SharedState
import ServiceTemplate.ByteFraming
import ServiceTemplate.OperationStop

/-! An open download: a reader, a timer task and the drop of the handle race for one cell that
holds the body, the admission permit and the operation record. The cell's lock is held while the
body is polled, so a step under the lock is one step here, and only the context may stop while it
lasts. Whoever takes the cell under the lock releases its parts one by one after it. -/
namespace ObjectDownload

open ByteFraming
open TransitionSystem
open SharedState
open OperationStop

inductive ObjectStorageError where
  | notFound
  | alreadyExists
  | tooLarge
  | busy
  | unavailable
  | rejected
  | outcomeUnknown
  | integrity
  deriving DecidableEq, Repr

def stopType : Stopped → String
  | .deadline => "timeout"
  | .cancelled => "cancelled"

inductive Outcome where
  | success
  | failure (error : ObjectStorageError) (errorType : String)
  | cancelled
  deriving DecidableEq

inductive Recorded where
  | ok
  | cancelled
  | failure (error : ObjectStorageError)
  deriving DecidableEq

/-- A poll of the body. `starved` is a read that used up its scheduling budget, so the body was not
polled at all. -/
inductive Polled where
  | starved
  | pending
  | chunk (bytes : Bytes)
  | error (isChecksumMismatch : Bool)
  | ended
  | panicked
  deriving DecidableEq

structure Resources where
  remaining : ℕ
  last : Option Bytes
  deriving DecidableEq

inductive DownloadState where
  | opened (resources : Resources)
  | succeeded (last : Option Bytes)
  | failed (error : ObjectStorageError)
  deriving DecidableEq

def DownloadState.isOpen : DownloadState → Bool
  | .opened _ => true
  | _ => false

inductive ReadStep where
  | buffered
  | empty
  | chunk (chunk : Option Bytes)
  deriving DecidableEq

inductive ReadPoll where
  | pending
  | ready (result : Except ObjectStorageError ReadStep)
  deriving DecidableEq

/-- `State::finish`: the terminal state, with the withheld chunk where the download succeeded. -/
def finish (resources : Resources) : Outcome → DownloadState
  | .success => .succeeded resources.last
  | .failure error _ => .failed error
  | .cancelled => .failed .unavailable

def fail (resources : Resources) (error : ObjectStorageError) (errorType : String) :
    DownloadState × ReadPoll × Option Outcome :=
  (finish resources (.failure error errorType), .ready (.error error),
    some (.failure error errorType))

/-- The body's answer, once the context is known not to have stopped meanwhile. -/
def accept (resources : Resources) : Polled → DownloadState × ReadPoll × Option Outcome
  | .chunk bytes =>
    if bytes = [] then (.opened resources, .ready (.ok .empty), none)
    else if resources.remaining < bytes.length then fail resources .integrity "content_length"
    else if resources.remaining = bytes.length then
      (.opened ⟨0, some bytes⟩, .ready (.ok .buffered), none)
    else (.opened { resources with remaining := resources.remaining - bytes.length },
      .ready (.ok (.chunk (some bytes))), none)
  | .error isChecksumMismatch =>
    if isChecksumMismatch then fail resources .integrity "checksum"
    else fail resources .unavailable "body"
  | .ended =>
    if resources.remaining = 0 then
      (.succeeded none, .ready (.ok (.chunk resources.last)), some .success)
    else fail resources .integrity "content_length"
  | _ => (.opened resources, .pending, none)

/-- `State::poll` of an open download; `after` is the context once the body was polled. -/
def pollOpen (resources : Resources) (before after : OperationContext) (polled : Polled) :
    DownloadState × ReadPoll × Option Outcome :=
  match before.stopped, polled, after.stopped with
  | some stopped, _, _ => fail resources .unavailable (stopType stopped)
  | none, .starved, _ => (.opened resources, .pending, none)
  | none, _, some stopped => fail resources .unavailable (stopType stopped)
  | none, polled, none => accept resources polled

/-- `State::poll`: the new state, what the read gets, and the outcome if this read takes the
cell. -/
def poll (status : DownloadState) (before after : OperationContext) (polled : Polled) :
    DownloadState × ReadPoll × Option Outcome :=
  match status with
  | .opened resources => pollOpen resources before after polled
  | .succeeded last => (.succeeded none, .ready (.ok (.chunk last)), none)
  | .failed error => (.failed error, .ready (.error error), none)

def terminalOutcome (context : OperationContext) (outcome : Outcome) : Outcome :=
  match context.stopped with
  | some stopped => .failure .unavailable (stopType stopped)
  | none => outcome

inductive Party where
  | reader
  | timer
  deriving DecidableEq

inductive Custody where
  | cell
  | held (party : Party)
  | released
  deriving DecidableEq

structure Released where
  bodies : ℕ
  permits : ℕ
  records : List Recorded
  deriving DecidableEq

structure Obtained where
  polled : Polled
  late : Bool
  deriving DecidableEq

abbrev ReadResult := Except ObjectStorageError (Option Bytes)

/-- A result decided under the lock, and where the resources were when the read came for it. -/
structure Handed where
  result : ReadResult
  custody : Custody

/-- A result that reached the caller, and what had been released by then. -/
structure Returned where
  handed : Handed
  released : Released

/-- `joined` is the result of the timer task once it ended. -/
structure Shared where
  context : OperationContext
  status : DownloadState
  custody : Custody
  released : Released
  joined : Option Bool
  obtained : List Obtained
  handed : List Handed
  returned : List Returned

inductive Place where
  | record
  | body
  | guard
  | permit
  deriving DecidableEq

structure Finishing where
  outcome : Outcome
  finalized : Bool
  place : Place
  deriving DecidableEq

def Outcome.recorded : Outcome → Recorded
  | .success => .ok
  | .failure error _ => .failure error
  | .cancelled => .cancelled

def Shared.addRecord (sh : Shared) (recorded : Recorded) : Shared :=
  { sh with released := { sh.released with records := sh.released.records ++ [recorded] } }

/-- The record is written by its outcome, or as cancelled when its guard is dropped. The fields of
the cell are dropped in their order. -/
def Finishing.step (sh : Shared) (finishing : Finishing) : Shared × Option Finishing :=
  match finishing.place with
  | .record =>
    match finishing.outcome with
    | .cancelled => (sh, some { finishing with place := .body })
    | outcome => (sh.addRecord outcome.recorded, some ⟨outcome, true, .body⟩)
  | .body => ({ sh with released := { sh.released with bodies := sh.released.bodies + 1 } },
      some { finishing with place := .guard })
  | .guard =>
    (if finishing.finalized then sh else sh.addRecord .cancelled,
      some { finishing with place := .permit })
  | .permit =>
    ({ sh with
      released := { sh.released with permits := sh.released.permits + 1 }
      custody := .released }, none)

def Shared.take (sh : Shared) (party : Party) (status : DownloadState) : Shared :=
  { sh with status := status, custody := .held party }

/-- The locked part of `terminate`. -/
def terminate (sh : Shared) (party : Party) (outcome : Outcome) : Shared × Option Finishing :=
  match sh.status with
  | .opened resources =>
    let outcome := terminalOutcome sh.context outcome
    (sh.take party (finish resources outcome), some ⟨outcome, false, .record⟩)
  | _ => (sh, none)

/-- What the reader does after it released a cell, or found none to release. -/
inductive After where
  | loop
  | read (result : ReadPoll)
  | panic
  | drop
  deriving DecidableEq

inductive ReaderStage where
  | idle
  | joining
  | terminating (outcome : Outcome) (after : After)
  | looping
  | finishing (finishing : Finishing) (after : After)
  | checking (result : ReadPoll)
  | dropped
  deriving DecidableEq

/-- `exiting` is the drop of the exit guard. -/
inductive TimerStage where
  | waiting
  | terminating (outcome : Outcome) (exiting aborted : Bool)
  | finishing (finishing : Finishing) (exiting aborted : Bool)
  | done
  deriving DecidableEq

/-- `handle` says that the reader still has the timer's join handle. -/
inductive Task where
  | reader (handle : Bool) (stage : ReaderStage)
  | timer (stage : TimerStage)
  deriving DecidableEq

inductive Input where
  | next
  | read
  | unjoined
  | polled (polled : Polled) (during : OperationContext)
  | abort
  | drop
  deriving DecidableEq

def resume : After → ReaderStage
  | .loop => .looping
  | .read result => .checking result
  | .panic => .idle
  | .drop => .dropped

/-- The result a locked step hands to the read in progress, if it ends it. -/
def ReadPoll.result : ReadPoll → Option ReadResult
  | .ready (.ok (.chunk chunk)) => some (.ok chunk)
  | .ready (.error error) => some (.error error)
  | _ => none

def obtainedBy (sh : Shared) (during : OperationContext) (polled : Polled) : List Obtained :=
  match sh.status, sh.context.stopped, polled with
  | .opened _, none, .chunk bytes => [⟨.chunk bytes, (sh.context.join during).stopped.isSome⟩]
  | .opened _, none, .error mismatch =>
    [⟨.error mismatch, (sh.context.join during).stopped.isSome⟩]
  | .opened _, none, .ended => [⟨.ended, (sh.context.join during).stopped.isSome⟩]
  | _, _, _ => []

def Shared.hand (sh : Shared) (result : ReadPoll) : List Handed :=
  sh.handed ++ (result.result.map fun result => ⟨result, sh.custody⟩).toList

def lockedPoll (sh : Shared) (polled : Polled) (during : OperationContext) :
    Shared × ReaderStage :=
  let after := sh.context.join during
  let (status, result, outcome) := poll sh.status sh.context after polled
  let polled := { sh with
    context := after
    obtained := sh.obtained ++ obtainedBy sh during polled
    handed := sh.hand result }
  match outcome with
  | none => ({ polled with status := status }, .checking result)
  | some outcome =>
    (polled.take .reader status, .finishing ⟨outcome, false, .record⟩ (.read result))

def Shared.deliver (sh : Shared) : Shared :=
  { sh with returned := sh.returned ++
      (sh.handed.getLast?.map fun handed => ⟨handed, sh.released⟩).toList }

def readerStep (handle : Bool) (sh : Shared) (stage : ReaderStage) (input : Input) :
    Option (Shared × Task) :=
  match stage, input with
  | .idle, .read => some (sh, .reader handle (if handle then .joining else .looping))
  | .joining, .next =>
    match sh.joined with
    | none => some (sh, .reader handle .looping)
    | some true => some (sh, .reader false .looping)
    | some false =>
      some (sh, .reader false (.terminating (.failure .unavailable "body") .loop))
  | .joining, .unjoined => some (sh, .reader handle .looping)
  | .terminating outcome after, .next =>
    match terminate sh .reader outcome with
    | (sh, some finishing) => some (sh, .reader handle (.finishing finishing after))
    | (sh, none) => some (sh, .reader handle (resume after))
  | .finishing finishing after, .next =>
    match finishing.step sh with
    | (sh, some finishing) => some (sh, .reader handle (.finishing finishing after))
    | (sh, none) => some (sh, .reader handle (resume after))
  | .looping, .polled polled during =>
    match sh.status, sh.context.stopped, polled with
    -- A panicking body unwinds out of the lock, and the reader takes the cell itself.
    | .opened _, none, .panicked =>
      some ({ sh with context := sh.context.join during },
        .reader handle (.terminating .cancelled .panic))
    | _, _, _ =>
      let (sh, stage) := lockedPoll sh polled during
      some (sh, .reader handle stage)
  | .checking result, .next =>
    match result with
    | .pending => some (sh, .reader handle .idle)
    | .ready (.ok .buffered) => some (sh, .reader handle .looping)
    | .ready (.ok .empty) => some (sh, .reader handle .looping)
    | _ => some (sh.deliver, .reader handle .idle)
  | .idle, .drop => some (sh, .reader handle (.terminating .cancelled .drop))
  | _, _ => none

/-- After its own work the timer task drops its exit guard, as it does when it is aborted. -/
def timerStep (sh : Shared) (stage : TimerStage) (input : Input) : Option (Shared × Task) :=
  let exit (sh : Shared) (exiting aborted : Bool) : Shared × Task :=
    if exiting then ({ sh with joined := some !aborted }, .timer .done)
    else (sh, .timer (.terminating (.failure .unavailable "body") true aborted))
  match stage, input with
  | .waiting, .next =>
    match sh.context.stopped with
    | none => none
    | some stopped =>
      some (sh, .timer (.terminating (.failure .unavailable (stopType stopped)) false false))
  | .waiting, .abort =>
    some (sh, .timer (.terminating (.failure .unavailable "body") true true))
  | .terminating outcome exiting aborted, .next =>
    match terminate sh .timer outcome with
    | (sh, some finishing) => some (sh, .timer (.finishing finishing exiting aborted))
    | (sh, none) => some (exit sh exiting aborted)
  | .finishing finishing exiting aborted, .next =>
    match finishing.step sh with
    | (sh, some finishing) => some (sh, .timer (.finishing finishing exiting aborted))
    | (sh, none) => some (exit sh exiting aborted)
  | _, _ => none

def download : Program Party Shared Task Input OperationContext where
  act
    | .reader, sh, .reader handle stage, input => readerStep handle sh stage input
    | .timer, sh, .timer stage, input => timerStep sh stage input
    | _, _, _, _ => none
  env sh stop := some { sh with context := sh.context.join stop }

def opened (size : ℕ) : World Party Shared Task where
  shared := ⟨⟨false, false⟩, .opened ⟨size, none⟩, .cell, ⟨0, 0, []⟩, none, [], [], []⟩
  tasks
    | .reader => .reader true .idle
    | .timer => .timer .waiting

end ObjectDownload
