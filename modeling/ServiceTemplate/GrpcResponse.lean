import ServiceTemplate.SharedState
import ServiceTemplate.CustodyCell
import ServiceTemplate.OperationStop
import ServiceTemplate.ByteFraming

/-! A gRPC response: the reader of its body, a stop timer, the upload and the drop of the response
race for one cell with the inner body, the permit, the upload guard, the cancellation guard and the
call record. The cell's lock is held while the inner body is polled, so a step under the lock is one
step here, and only the context may stop while it lasts. Waking a task and dropping a value do not
panic. -/
namespace GrpcResponse

open ByteFraming
open TransitionSystem
open SharedState
open CustodyCell
open OperationStop

inductive Code where
  | ok
  | cancelled
  | unknown
  | invalidArgument
  | deadlineExceeded
  | notFound
  | alreadyExists
  | permissionDenied
  | resourceExhausted
  | failedPrecondition
  | aborted
  | outOfRange
  | unimplemented
  | internal
  | unavailable
  | dataLoss
  | unauthenticated
  deriving DecidableEq, Repr

/-- A published failure code; `other` has no part in a locally generated status. -/
inductive Catalog where
  | gatewayTimeout
  | internalServerError
  | other (name : String)
  deriving DecidableEq, Repr

/-- A header map, with its status headers decoded. -/
structure HeaderMap where
  status : Option Code
  message : Option String
  failure : Option Catalog
  rest : List (String × Bytes)
  deriving DecidableEq

structure Status where
  code : Code
  message : String
  failure : Option Catalog
  deriving DecidableEq

def Status.addHeader (status : Status) (headers : HeaderMap) : HeaderMap :=
  ⟨some status.code, some status.message, status.failure, headers.rest⟩

def Status.trailers (status : Status) : HeaderMap := status.addHeader ⟨none, none, none, []⟩

inductive Side where
  | server
  | client
  deriving DecidableEq, Repr

def Side.deadline : Side → Status
  | .server => ⟨.deadlineExceeded, "request deadline exceeded", some .gatewayTimeout⟩
  | .client => ⟨.deadlineExceeded, "request deadline exceeded", none⟩

def Side.stopped (side : Side) : Stopped → Status
  | .deadline => side.deadline
  | .cancelled => ⟨.cancelled, "request cancelled", none⟩

def internal : Status := ⟨.internal, "request failed", some .internalServerError⟩

def Side.failure (side : Side) (failure : Option Catalog) : Option Catalog :=
  match side with
  | .server => failure
  | .client => none

variable {Error : Type}

structure Config (Error : Type) where
  side : Side
  errorCode : Error → Code

inductive InnerPoll (Error : Type) where
  | pending
  | data (bytes : Bytes)
  | trailers (headers : HeaderMap)
  | error (error : Error)
  | ended
  | panicked
  deriving DecidableEq

/-- What a poll of the response gives; `generated` are trailers of its own. -/
inductive Answer (Error : Type) where
  | pending
  | data (bytes : Bytes)
  | trailers (headers : HeaderMap)
  | generated (headers : HeaderMap)
  | error (error : Error)
  | ended
  | panicked
  deriving DecidableEq

structure Handled where
  code : Code
  failure : Option Catalog
  deriving DecidableEq

inductive Party where
  | reader
  | timer
  | uploader
  deriving DecidableEq

structure Released where
  bodies : ℕ
  permits : ℕ
  uploads : ℕ
  guards : ℕ
  records : List Handled
  deriving DecidableEq

/-- One poll of the response: whether it found the resources, the context when it began and when it
ended, what the inner body answered if it was polled, and what the reader got. -/
structure PollRecord (Error : Type) where
  found : Bool
  before : OperationContext
  after : OperationContext
  inner : Option (InnerPoll Error)
  answer : Answer Error
  deriving DecidableEq

/-- `source` is the upload's own cell. `header` is the status the peer got with the headers, and
`claimed` the code of whoever took the resources. -/
structure Shared (Error : Type) where
  watched : Bool
  context : OperationContext
  custody : Custody Party
  terminal : Option HeaderMap
  released : Released
  source : Bool
  sources : ℕ
  joined : Option Bool
  header : Option Code
  claimed : Option Code
  abandoned : Bool
  polls : List (PollRecord Error)

inductive Place where
  | record
  | body
  | call
  | permit
  | upload
  | guard
  deriving DecidableEq

/-- The resources on their way out; a dropped response has no outcome of its own. -/
structure Finishing where
  handled : Option Handled
  place : Place
  deriving DecidableEq

def Shared.addRecord (sh : Shared Error) (handled : Handled) : Shared Error :=
  { sh with released := { sh.released with records := sh.released.records ++ [handled] } }

/-- The drop of the upload guard takes what is left of the source. -/
def Shared.takeSource (sh : Shared Error) : Shared Error :=
  { sh with source := false, sources := if sh.source then sh.sources + 1 else sh.sources }

/-- The call is finished, or recorded as cancelled when it is dropped unfinished. The other fields
are dropped in their order. -/
def Finishing.step (sh : Shared Error) (finishing : Finishing) :
    Shared Error × Option Finishing :=
  match finishing.place with
  | .record =>
    match finishing.handled with
    | none => (sh, some { finishing with place := .body })
    | some handled => (sh.addRecord handled, some { finishing with place := .body })
  | .body => ({ sh with released := { sh.released with bodies := sh.released.bodies + 1 } },
      some { finishing with place := .call })
  | .call =>
    match finishing.handled with
    | none => (sh.addRecord ⟨.cancelled, none⟩, some { finishing with place := .permit })
    | some _ => (sh, some { finishing with place := .permit })
  | .permit => ({ sh with released := { sh.released with permits := sh.released.permits + 1 } },
      some { finishing with place := .upload })
  | .upload =>
    ({ sh.takeSource with released := { sh.released with uploads := sh.released.uploads + 1 } },
      some { finishing with place := .guard })
  | .guard =>
    ({ sh with
      released := { sh.released with guards := sh.released.guards + 1 }
      custody := .released }, none)

def Shared.finish (sh : Shared Error) (party : Party) (handled : Handled) :
    Shared Error × Option Finishing :=
  if sh.custody = .cell then
    ({ sh with custody := .held party, claimed := some handled.code }, some ⟨some handled, .record⟩)
  else (sh, none)

/-- `State::status`: a locally generated status ends the response and waits for the reader. -/
def Shared.status (sh : Shared Error) (config : Config Error) (party : Party) (status : Status) :
    Shared Error × Option Finishing :=
  match sh.finish party ⟨status.code, config.side.failure status.failure⟩ with
  | (sh, some finishing) => ({ sh with terminal := some status.trailers }, some finishing)
  | (sh, none) => (sh, none)

def Shared.takeTerminal (sh : Shared Error) : Shared Error × Answer Error :=
  match sh.terminal with
  | some trailers => ({ sh with terminal := none }, .generated trailers)
  | none => (sh, .ended)

def Shared.answerStatus (sh : Shared Error) (config : Config Error) (status : Status) :
    Shared Error × Option Finishing × Answer Error :=
  let (sh, completion) := sh.status config .reader status
  let (sh, answer) := sh.takeTerminal
  (sh, completion, answer)

def Shared.answerFinish (sh : Shared Error) (handled : Handled) (answer : Answer Error) :
    Shared Error × Option Finishing × Answer Error :=
  let (sh, completion) := sh.finish .reader handled
  (sh, completion, answer)

def acceptFrame (config : Config Error) (sh : Shared Error) :
    InnerPoll Error → Shared Error × Option Finishing × Answer Error
  | .data bytes => (sh, none, .data bytes)
  | .trailers headers =>
    sh.answerFinish ⟨headers.status.getD .unknown, config.side.failure headers.failure⟩
      (.trailers headers)
  | .error error => sh.answerFinish ⟨config.errorCode error, none⟩ (.error error)
  | .ended => sh.answerFinish ⟨.unknown, none⟩ .ended
  | _ => (sh, none, .pending)

def pollOpen (config : Config Error) (sh : Shared Error) (inner : InnerPoll Error)
    (during : OperationContext) : Shared Error × Option Finishing × Answer Error :=
  match sh.context.stopped with
  | some stopped => sh.answerStatus config (config.side.stopped stopped)
  | none =>
    let sh := { sh with context := sh.context.join during }
    match inner, config.side, sh.context.stopped with
    | .panicked, .client, _ => sh.answerFinish ⟨.cancelled, none⟩ .panicked
    | .panicked, .server, _ => sh.answerStatus config internal
    | _, _, some stopped => sh.answerStatus config (config.side.stopped stopped)
    | inner, _, none => acceptFrame config sh inner

/-- The locked part of `poll_frame`. -/
def pollFrame (config : Config Error) (sh : Shared Error) (inner : InnerPoll Error)
    (during : OperationContext) : Shared Error × Option Finishing :=
  if sh.custody = .cell then
    let (out, completion, answer) := pollOpen config sh inner during
    let polled := match sh.context.stopped with
      | none => some inner
      | some _ => none
    ({ out with polls := sh.polls ++ [⟨true, sh.context, out.context, polled, answer⟩] }, completion)
  else
    let (out, answer) := sh.takeTerminal
    ({ out with polls := sh.polls ++ [⟨false, sh.context, sh.context, none, answer⟩] }, none)

inductive After where
  | poll
  | idle
  | dropped
  deriving DecidableEq

inductive ReaderStage where
  | idle
  | joining
  | reaping
  | polling
  | finishing (finishing : Finishing) (after : After)
  | dropped
  deriving DecidableEq

inductive TimerStage where
  | waiting
  | terminating (status : Status)
  | finishing (finishing : Finishing)
  | done
  deriving DecidableEq

/-- `handle` says that the reader still has the timer's join handle. -/
inductive Task where
  | reader (handle : Bool) (stage : ReaderStage)
  | timer (stage : TimerStage)
  | uploader
  deriving DecidableEq

inductive Input (Error : Type) where
  | next
  | read
  | unjoined
  | polled (inner : InnerPoll Error) (during : OperationContext)
  | panic
  | abort
  | drop
  | uploaded (ended : Bool)
  deriving DecidableEq

def resume : After → ReaderStage
  | .poll => .polling
  | .idle => .idle
  | .dropped => .dropped

def proceed (completion : Option Finishing) (after : After) : ReaderStage :=
  match completion with
  | some finishing => .finishing finishing after
  | none => resume after

def readerStep (config : Config Error) (sh : Shared Error) (handle : Bool) (stage : ReaderStage)
    (input : Input Error) : Option (Shared Error × Task) :=
  match stage, input with
  | .idle, .read => some (sh, .reader handle (if handle then .joining else .polling))
  | .joining, .next =>
    match sh.joined with
    | none => some (sh, .reader handle .polling)
    | some true => some (sh, .reader false .polling)
    | some false => some (sh, .reader false .reaping)
  | .joining, .unjoined => some (sh, .reader handle .polling)
  | .reaping, .next =>
    let (sh, completion) := sh.status config .reader internal
    some (sh, .reader handle (proceed completion .poll))
  | .polling, .polled inner during =>
    let (sh, completion) := pollFrame config sh inner during
    some (sh, .reader handle (proceed completion .idle))
  | .finishing finishing after, .next =>
    let (sh, completion) := finishing.step sh
    some (sh, .reader handle (proceed completion after))
  | .idle, .drop =>
    if sh.custody = .cell then
      some ({ sh with custody := .held .reader, claimed := some .cancelled, abandoned := true },
        .reader handle (.finishing ⟨none, .record⟩ .dropped))
    else some (sh, .reader handle .dropped)
  | _, _ => none

def settle (completion : Option Finishing) (sh : Shared Error) : Shared Error × Task :=
  match completion with
  | some finishing => (sh, .timer (.finishing finishing))
  | none => ({ sh with joined := some true }, .timer .done)

/-- A panic of the timer is caught and ends the response; an aborted timer just ends. -/
def timerStep (config : Config Error) (sh : Shared Error) (stage : TimerStage)
    (input : Input Error) : Option (Shared Error × Task) :=
  match stage, input with
  | .waiting, .next =>
    sh.context.stopped.map fun stopped =>
      (sh, .timer (.terminating (config.side.stopped stopped)))
  | .waiting, .panic => some (sh, .timer (.terminating internal))
  | .waiting, .abort => some ({ sh with joined := some false }, .timer .done)
  | .terminating status, .next =>
    let (sh, completion) := sh.status config .timer status
    some (settle completion sh)
  | .finishing finishing, .next =>
    let (sh, completion) := finishing.step sh
    some (settle completion sh)
  | _, _ => none

/-- A poll of the upload takes the source when it ended, failed or panicked. -/
def uploaderStep (sh : Shared Error) : Input Error → Option (Shared Error × Task)
  | .uploaded ended => some (if ended then sh.takeSource else sh, .uploader)
  | _ => none

def response (config : Config Error) :
    Program Party (Shared Error) Task (Input Error) OperationContext where
  act
    | .reader, sh, .reader handle stage, input => readerStep config sh handle stage input
    | .timer, sh, .timer stage, input => timerStep config sh stage input
    | .uploader, sh, .uploader, input => uploaderStep sh input
    | _, _, _, _ => none
  env sh stop := if sh.watched then some { sh with context := sh.context.join stop } else none

/-- The response and its lifetime as `attach` gets them. `ended` is the inner body's own word, and
the context may stop between the two looks at it. -/
structure Opening where
  headers : HeaderMap
  watched : Bool
  context : OperationContext
  during : OperationContext
  ended : Bool
  upload : Bool
  calm : watched = false → context = ⟨false, false⟩ ∧ during = ⟨false, false⟩

def Opening.attached (opening : Opening) (config : Config Error) : HeaderMap :=
  match opening.context.stopped with
  | some stopped => (config.side.stopped stopped).addHeader opening.headers
  | none => opening.headers

/-- How `ResponseBody::new` ends a response at once, and the trailers it leaves. -/
def Opening.immediate (opening : Opening) (config : Config Error) :
    Option (Handled × Option HeaderMap) :=
  let headers := opening.attached config
  match headers.status, (opening.context.join opening.during).stopped with
  | some code, _ => some (⟨code, config.side.failure headers.failure⟩, none)
  | none, some stopped =>
    let status := config.side.stopped stopped
    some (⟨status.code, config.side.failure status.failure⟩, some status.trailers)
  | none, none => if opening.ended then some (⟨.unknown, none⟩, none) else none

/-- A response that ends at once is released before any task can see it. -/
def Opening.shared (opening : Opening) (config : Config Error) : Shared Error :=
  let context := opening.context.join opening.during
  let header := (opening.attached config).status
  match opening.immediate config with
  | some (handled, terminal) =>
    ⟨opening.watched, context, .released, terminal, ⟨1, 1, 1, 1, [handled]⟩, false,
      if opening.upload then 1 else 0, none, header, some handled.code, false, []⟩
  | none =>
    ⟨opening.watched, context, .cell, none, ⟨0, 0, 0, 0, []⟩, opening.upload, 0, none, header, none,
      false, []⟩

def Opening.world (opening : Opening) (config : Config Error) :
    World Party (Shared Error) Task where
  shared := opening.shared config
  tasks
    | .reader => .reader ((opening.immediate config).isNone && opening.watched) .idle
    | .timer =>
      .timer (if (opening.immediate config).isNone && opening.watched then .waiting else .done)
    | .uploader => .uploader

end GrpcResponse
