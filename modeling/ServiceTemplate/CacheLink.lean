import ServiceTemplate.OperationStop
import ServiceTemplate.Wakeups

/-! The link to a cache server. One supervisor publishes connection generations, any number of
commands and probes acquire the current one and exchange a command on it, and whoever leaves an
exchange without its reply retires the generation. What a party does under the lock is one step,
and so is each notification, look at a token and poll outside it. -/
namespace CacheLink

open TransitionSystem
open SharedState
open OperationStop

inductive ErrorType where
  | timeout
  | io
  | auth
  | response
  | parse
  | other
  deriving DecidableEq

abbrev Generation := ℕ

inductive Slots where
  | application
  | probes
  deriving DecidableEq

/-- What has happened, in order. A publication and a look under the lock happen when the lock is
held, `retired` and `closed` when the call has returned, and `released` is the permit's, with the
generation of the exchange and whether it completed with a reply. -/
inductive Occurrence where
  | published (generation : Generation)
  | acquired (client : ℕ) (generation : Generation)
  | dispatched (client : ℕ) (generation : Generation)
  | retired (generation : Generation)
  | closed
  | released (client : ℕ) (exchange : Option (Generation × Bool))
  deriving DecidableEq

/-- `cancelled` are the generations' tokens, `created` counts them, and `retirements` is the
counter, by the generation each increment is for. -/
structure Shared where
  current : Option Generation
  closed : Bool
  error : Option ErrorType
  notifications : ℕ
  cancelled : Generation → Bool
  created : ℕ
  retirements : List Generation
  free : Slots → ℕ
  refused : ℕ
  inFlight : ℕ
  history : List Occurrence

namespace Shared

def cancel (sh : Shared) (generation : Generation) : Shared :=
  { sh with cancelled := Function.update sh.cancelled generation true }

def record (sh : Shared) (occurrence : Occurrence) : Shared :=
  { sh with history := sh.history ++ [occurrence] }

def notifyWaiters (sh : Shared) : Shared := { sh with notifications := sh.notifications + 1 }

def evict (sh : Shared) (generation : Generation) : Shared :=
  { sh with current := none, retirements := sh.retirements ++ [generation] }

def retire (sh : Shared) (generation : Generation) : Shared :=
  if sh.current = some generation then (sh.cancel generation).evict generation
  else sh.cancel generation

def close (sh : Shared) : Shared :=
  match sh.current with
  | some generation => { (sh.cancel generation).evict generation with closed := true }
  | none => { sh with closed := true }

/-- A turn of `Shared::acquire` under the lock. -/
def look (sh : Shared) : Option (Except ErrorType Generation) :=
  if sh.closed then some (.error .io)
  else
    match sh.current.filter (fun generation => !sh.cancelled generation) with
    | some generation => some (.ok generation)
    | none => sh.error.map .error

def publish (sh : Shared) (generation : Generation) : Shared :=
  { sh with current := some generation }.record (.published generation)

/-- `Link::admit` where a slot is free. -/
def admission (sh : Shared) (slots : Slots) : Shared :=
  { sh with
    free := Function.update sh.free slots (sh.free slots - 1)
    inFlight := sh.inFlight + 1 }

def dropAdmission (sh : Shared) (slots : Slots) : Shared :=
  { sh with
    free := Function.update sh.free slots (sh.free slots + 1)
    inFlight := sh.inFlight - 1 }

end Shared

/-- `seen` is how many notifications there were when the waiter was registered, and `sent` says that
the command may have been dispatched. -/
inductive ClientStage where
  | idle
  | admitted
  | registered (seen : ℕ)
  | waiting (seen : ℕ)
  | acquired (generation : Generation)
  | selecting (generation : Generation) (sent : Bool)
  | querying (generation : Generation) (sent : Bool)
  | parked (generation : Generation) (sent : Bool)
  | retiring (generation : Generation)
  | retired (generation : Generation)
  | dropping (generation : Generation) (completed : Bool)
  | dropped (generation : Generation)
  | releasing (exchange : Option (Generation × Bool))
  | done
  deriving DecidableEq

inductive Input where
  | next
  | stop (stopped : Stopped)
  | pending
  | answer (ok : Bool)
  | connected (result : Except ErrorType Unit)
  | refreshed (result : Except ErrorType Unit)
  | pinged (result : Except ErrorType Unit)
  | drop

/-- The first poll of a query is its dispatch. -/
def Shared.dispatch (sh : Shared) (client : ℕ) (generation : Generation) (sent : Bool) : Shared :=
  if sent then sh else sh.record (.dispatched client generation)

/-- `Link::command` on application slots, and `Link::probe`, which has no context. A call can be
dropped where it waits; a timeout of a probe is an answer that is no reply. -/
def clientStep (client : ℕ) (slots : Slots) (sh : Shared) :
    ClientStage → Input → Option (Shared × ClientStage)
  | .idle, .stop _ => if slots = .application then some (sh, .done) else none
  | .idle, .next =>
    if sh.free slots = 0 then some ({ sh with refused := sh.refused + 1 }, .done)
    else some (sh.admission slots, .admitted)
  | .admitted, .stop _ => if slots = .application then some (sh, .releasing none) else none
  | .admitted, .next => some (sh, .registered sh.notifications)
  | .registered seen, .next =>
    match sh.look with
    | some (.ok generation) =>
      some (sh.record (.acquired client generation), .acquired generation)
    | some (.error _) => some (sh, .releasing none)
    | none => some (sh, .waiting seen)
  | .waiting seen, .next => if sh.notifications = seen then none else some (sh, .admitted)
  | .waiting _, .stop _ => if slots = .application then some (sh, .releasing none) else none
  | .waiting _, .drop => some (sh, .releasing none)
  | .acquired _, .stop _ => if slots = .application then some (sh, .releasing none) else none
  | .acquired generation, .next => some (sh, .selecting generation false)
  | .selecting generation _, .stop .deadline =>
    if slots = .application then some (sh, .retiring generation) else none
  | .selecting generation _, .stop .cancelled =>
    if slots = .application then some (sh, .dropping generation false) else none
  | .selecting generation sent, .next =>
    if sh.cancelled generation then some (sh, .dropping generation false)
    else some (sh, .querying generation sent)
  | .querying generation sent, .pending =>
    some (sh.dispatch client generation sent, .parked generation true)
  | .querying generation sent, .answer ok =>
    some (sh.dispatch client generation sent, .dropping generation ok)
  | .parked generation sent, .next => some (sh, .selecting generation sent)
  | .parked generation _, .drop => some (sh, .dropping generation false)
  | .retiring generation, .next => some (sh.retire generation, .retired generation)
  | .retired generation, .next =>
    some (sh.notifyWaiters.record (.retired generation), .dropping generation false)
  | .dropping generation true, .next => some (sh, .releasing (some (generation, true)))
  | .dropping generation false, .next => some (sh.retire generation, .dropped generation)
  | .dropped generation, .next =>
    some (sh.notifyWaiters.record (.retired generation), .releasing (some (generation, false)))
  | .releasing exchange, .next =>
    some ((sh.dropAdmission slots).record (.released client exchange), .done)
  | _, _ => none

/-- `again` is the retirement of `maintain`, before the one that always follows. -/
inductive SupervisorStage where
  | unstarted
  | sleeping
  | connecting (generation : Generation)
  | publishing (generation : Generation)
  | published (generation : Generation)
  | maintaining (generation : Generation)
  | retiring (generation : Generation) (again : Bool)
  | retired (generation : Generation) (again : Bool)
  | failing (error : ErrorType)
  | failed
  | exiting
  | closing
  | exited
  deriving DecidableEq

/-- The supervisor may be cancelled or aborted where it waits; its exit guard then closes the link,
unless it never started. -/
def supervisorStep (sh : Shared) : SupervisorStage → Input → Option (Shared × SupervisorStage)
  | .unstarted, .next => some (sh, .sleeping)
  | .unstarted, .drop => some (sh, .exited)
  | .sleeping, .next =>
    if sh.closed then some (sh, .exiting)
    else some ({ sh with error := none, created := sh.created + 1 }, .connecting sh.created)
  | .sleeping, .drop => some (sh, .exiting)
  | .connecting _, .connected (.error error) => some (sh, .failing error)
  | .connecting generation, .connected (.ok ()) =>
    if sh.cancelled generation then some (sh, .failing .io) else some (sh, .publishing generation)
  | .connecting _, .drop => some (sh, .exiting)
  | .publishing generation, .next =>
    if sh.closed then some (sh, .exiting)
    else some (sh.publish generation, .published generation)
  | .published generation, .next => some (sh.notifyWaiters, .maintaining generation)
  | .maintaining generation, .next =>
    if sh.cancelled generation then some (sh, .retiring generation false) else none
  | .maintaining generation, .refreshed result =>
    match result with
    | .ok () | .error .auth => some (sh, .maintaining generation)
    | .error _ => some (sh, .retiring generation true)
  | .maintaining generation, .pinged result =>
    match result with
    | .ok () => some (sh, .maintaining generation)
    | .error _ => some (sh, .retiring generation true)
  | .maintaining _, .drop => some (sh, .exiting)
  | .retiring generation again, .next => some (sh.retire generation, .retired generation again)
  | .retired generation again, .next =>
    some (sh.notifyWaiters.record (.retired generation),
      if again then .retiring generation false else .sleeping)
  | .failing error, .next =>
    if sh.closed then some (sh, .exiting) else some ({ sh with error := some error }, .failed)
  | .failed, .next => some (sh.notifyWaiters, .sleeping)
  | .exiting, .next => some (sh.close, .closing)
  | .closing, .next => some (sh.notifyWaiters.record .closed, .exited)
  | _, _ => none

inductive LinkStage where
  | held
  | closing
  | dropped
  deriving DecidableEq

/-- The drop of the link closes it. -/
def linkStep (sh : Shared) : LinkStage → Input → Option (Shared × LinkStage)
  | .held, .drop => some (sh.close, .closing)
  | .closing, .next => some (sh.notifyWaiters.record .closed, .dropped)
  | _, _ => none

inductive Party where
  | supervisor
  | link
  | client (client : ℕ)
  deriving DecidableEq

inductive Task where
  | supervisor (stage : SupervisorStage)
  | link (stage : LinkStage)
  | client (stage : ClientStage)
  deriving DecidableEq

def act (slots : ℕ → Slots) : Party → Shared → Task → Input → Option (Shared × Task)
  | .supervisor, sh, .supervisor stage, input =>
    (supervisorStep sh stage input).map fun out => (out.1, .supervisor out.2)
  | .link, sh, .link stage, input =>
    (linkStep sh stage input).map fun out => (out.1, .link out.2)
  | .client client, sh, .client stage, input =>
    (clientStep client (slots client) sh stage input).map fun out => (out.1, .client out.2)
  | _, _, _, _ => none

/-- A disconnection is pushed to the token of its own connection, at any time. -/
def disconnect (sh : Shared) (generation : Generation) : Option Shared :=
  if generation < sh.created then some (sh.cancel generation) else none

def program (slots : ℕ → Slots) : Program Party Shared Task Input Generation :=
  ⟨act slots, disconnect⟩

def start : World Party Shared Task :=
  ⟨⟨none, false, none, 0, fun _ => false, 0, [], fun slots =>
      match slots with
      | .application => 256
      | .probes => 1, 0, 0, []⟩,
    fun party =>
      match party with
      | .supervisor => .supervisor .unstarted
      | .link => .link .held
      | .client _ => .client .idle⟩

/-- The link with any number of commands and probes. -/
def link (slots : ℕ → Slots) : System (World Party Shared Task) (Move Party Input Generation) :=
  (program slots).system start

end CacheLink
