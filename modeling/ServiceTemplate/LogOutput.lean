import ServiceTemplate.TransitionSystem
import Mathlib.Data.List.Perm.Basic

/-! Bounded local log output: the threads that submit records, the one thread that touches the
sink, and the guard that shuts both down. The admission lock is held from the look at `closed` to
the send, and every access to `closed` takes it, so each is one step. -/
namespace LogOutput

open TransitionSystem

def maxRecordBytes : ℕ := 16 * 1024
def queueRecords : ℕ := 512

/-- The bytes before `len`. -/
structure Record where
  bytes : List UInt8
  fits : bytes.length ≤ maxRecordBytes

structure Item where
  ticket : ℕ
  record : Record

inductive DropReason where
  | queueFull | oversize | spanCapacity | busy | reentrant | closed
  deriving DecidableEq

inductive SinkError where
  | write | flush | worker
  deriving DecidableEq

abbrev Bits := BitVec 32

def draining : Bits := 1#32 <<< 31

namespace LoggerIncomplete

def deadline : Bits := 1#32
def worker : Bits := 1#32 <<< 1
def write : Bits := 1#32 <<< 2
def flush : Bits := 1#32 <<< 3
def dropped : Bits := 1#32 <<< 4

end LoggerIncomplete

structure LogSnapshot where
  dropped : DropReason → BitVec 64
  sinkErrors : SinkError → BitVec 64

inductive LoggerShutdown where
  | completed (snapshot : LogSnapshot)
  | incomplete (reasons : Bits) (snapshot : LogSnapshot)

/-- A call of `submit` or `dropped` that has not returned. -/
inductive Call where
  | submitting (item : Item)
  | dropping (item : Option Item) (reason : DropReason)
  | latching

inductive Report where
  | write | idleFlush | finalFlush | panic
  deriving DecidableEq

inductive Writer where
  | receiving
  | timedOut
  | lastReceive
  | writing
  | idleFlush
  | finalFlush
  | counting (report : Report)
  | latching (report : Report)
  | dropRecords
  | dropSink
  | unwinding
  | dropPayload
  | acknowledging
  | ending
  | finished
  | died
  deriving DecidableEq

inductive Guard where
  | held
  | closing
  | waiting
  | joining (reasons : Bits)
  | counting (reasons : Bits)
  | latching (reasons : Bits)
  | checking (reasons : Bits)
  | reading (reasons : Bits)
  | summing (reasons : Bits)
  | leaving (result : LoggerShutdown)
  | returned (result : LoggerShutdown)
  | dropped

/-- The fields from `submitted` on are observations: the submissions so far, the records by their
fate, whether the writer panicked, the records handed over at the last flush that succeeded, and
the failures reported since the marker, up to now and at the final read. -/
structure State where
  closed : Bool
  drain : Bits
  dropped : DropReason → BitVec 64
  sinkErrors : SinkError → BitVec 64
  queue : List Item
  receiver : Bool
  completion : Bool
  output : Bool
  calls : List Call
  writer : Writer
  dirty : Bool
  guard : Guard
  submitted : ℕ
  admitted : List Item
  handed : List Item
  lost : List Item
  counted : List (Item × DropReason)
  panicked : Bool
  flushedAt : Option ℕ
  failures : List Bits
  finalRead : Option (List Bits)

def start : State where
  closed := false
  drain := 0
  dropped _ := 0
  sinkErrors _ := 0
  queue := []
  receiver := true
  completion := false
  output := true
  calls := []
  writer := .receiving
  dirty := false
  guard := .held
  submitted := 0
  admitted := []
  handed := []
  lost := []
  counted := []
  panicked := false
  flushedAt := none
  failures := []
  finalRead := none

def Marked (drain : Bits) : Prop := drain &&& draining ≠ 0

instance (drain : Bits) : Decidable (Marked drain) := inferInstanceAs (Decidable (_ ≠ _))

def finalFailure (s : State) (reason : Bits) : State :=
  if Marked s.drain then
    { s with drain := s.drain ||| reason, failures := s.failures ++ [reason] }
  else s

def countSinkError (s : State) (kind : SinkError) : State :=
  { s with sinkErrors := fun k => if k = kind then s.sinkErrors k + 1 else s.sinkErrors k }

def latchSinkError (s : State) : SinkError → State
  | .write => finalFailure s LoggerIncomplete.write
  | .flush => finalFailure s LoggerIncomplete.flush
  | .worker => { s with drain := s.drain ||| LoggerIncomplete.worker }

def countDropped (s : State) (reason : DropReason) : State :=
  { s with dropped := fun r => if r = reason then s.dropped r + 1 else s.dropped r }

/-- The admission of one record; a receiver that is gone is seen before a full queue. -/
def send (s : State) (item : Item) (rest : List Call) : State :=
  if s.closed = true ∨ s.receiver = false then
    { s with calls := .dropping (some item) .closed :: rest }
  else if s.queue.length < queueRecords then
    { s with queue := s.queue ++ [item], admitted := s.admitted ++ [item], calls := rest }
  else { s with calls := .dropping (some item) .queueFull :: rest }

def callStep (s : State) (i : ℕ) : Option State :=
  let rest := s.calls.eraseIdx i
  match s.calls[i]? with
  | none => none
  | some (.submitting item) => some (send s item rest)
  | some (.dropping item reason) =>
    some { countDropped s reason with
      calls := .latching :: rest
      counted := s.counted ++ (item.map fun item => (item, reason)).toList }
  | some .latching => some { finalFailure s LoggerIncomplete.dropped with calls := rest }

def Report.kind : Report → SinkError
  | .write => .write
  | .idleFlush => .flush
  | .finalFlush => .flush
  | .panic => .worker

def Report.resume : Report → Writer
  | .write => .receiving
  | .idleFlush => .receiving
  | .finalFlush => .dropRecords
  | .panic => .dropPayload

/-- How an operation ends that can end in several ways. -/
inductive Outcome where
  | ok | failed | panicked | timeout
  deriving DecidableEq

def hand (s : State) (item : Item) (rest : List Item) : State :=
  { s with queue := rest, handed := s.handed ++ [item], writer := .writing }

def dropReceiver (s : State) (next : Writer) : State :=
  { s with receiver := false, queue := [], lost := s.lost ++ s.queue, writer := next }

def flushed (s : State) (next : Writer) : State :=
  { s with flushedAt := some s.handed.length, writer := next }

/-- The loop of `write_records`, then its end, `catch_unwind` and the acknowledgement. -/
def writerStep (s : State) : Outcome → Option State
  | .timeout =>
    match s.writer with
    | .receiving => some { s with writer := .timedOut }
    | _ => none
  | .failed =>
    match s.writer with
    | .writing => some { s with dirty := true, writer := .counting .write }
    | .idleFlush => some { s with dirty := false, writer := .counting .idleFlush }
    | .finalFlush => some { s with writer := .counting .finalFlush }
    | _ => none
  | .panicked =>
    match s.writer with
    | .writing => some { s with panicked := true, writer := .unwinding }
    | .idleFlush => some { s with panicked := true, writer := .unwinding }
    | .finalFlush => some { s with panicked := true, writer := .unwinding }
    | .dropSink => some { s with panicked := true, writer := .counting .panic }
    | .dropPayload => some { s with writer := .died }
    | _ => none
  | .ok =>
    match s.writer with
    | .receiving =>
      match s.queue with
      | item :: rest => some (hand s item rest)
      -- an empty queue blocks until no sender is left
      | [] => if s.output then none else some { s with writer := .finalFlush }
    | .timedOut =>
      if s.closed then some { s with writer := .lastReceive }
      else if s.dirty then some { s with writer := .idleFlush }
      else some { s with writer := .receiving }
    | .lastReceive =>
      match s.queue with
      | item :: rest => some (hand s item rest)
      | [] => some { s with writer := .finalFlush }
    | .writing => some { s with dirty := true, writer := .receiving }
    | .idleFlush => some { flushed s .receiving with dirty := false }
    | .finalFlush => some (flushed s .dropRecords)
    | .counting report =>
      some { countSinkError s report.kind with writer := .latching report }
    | .latching report => some { latchSinkError s report.kind with writer := report.resume }
    | .dropRecords => some (dropReceiver s .dropSink)
    | .dropSink => some { s with writer := .acknowledging }
    | .unwinding => some (dropReceiver s (.counting .panic))
    | .dropPayload => some { s with writer := .acknowledging }
    | .acknowledging => some { s with completion := true, writer := .ending }
    | .ending => some { s with writer := .finished }
    | .finished => none
    | .died => none

def beginShutdown (s : State) : State := { s with drain := s.drain ||| draining }

def close (s : State) : State := { s with closed := true }

def snapshot (s : State) : LogSnapshot := ⟨s.dropped, s.sinkErrors⟩

def Writer.isFinished (w : Writer) : Bool := decide (w = .finished ∨ w = .died)

/-- The steps of `shutdown` after the marker; `timeout` is a look at the clock at or after the
deadline. -/
def guardStep (s : State) : Outcome → Option State
  | .timeout =>
    match s.guard with
    | .waiting => some { s with guard := .checking LoggerIncomplete.deadline }
    | .joining reasons =>
      if s.writer.isFinished then none
      else some { s with guard := .checking (reasons ||| LoggerIncomplete.deadline) }
    | .checking reasons => some { s with guard := .reading (reasons ||| LoggerIncomplete.deadline) }
    | _ => none
  | .ok =>
    match s.guard with
    | .closing => some { close s with guard := .waiting }
    | .waiting =>
      if s.completion then some { s with completion := false, guard := .joining 0 }
      else if s.writer.isFinished then some { s with guard := .joining LoggerIncomplete.worker }
      else none
    | .joining reasons =>
      match s.writer with
      | .finished => some { s with guard := .checking reasons }
      | .died => some { s with guard := .counting reasons }
      | _ => none
    | .counting reasons => some { countSinkError s .worker with guard := .latching reasons }
    | .latching reasons =>
      some { latchSinkError s .worker with guard := .checking (reasons ||| LoggerIncomplete.worker) }
    | .checking reasons => some { s with guard := .reading reasons }
    | .reading reasons =>
      some { s with
        finalRead := some s.failures
        guard := .summing (reasons ||| (s.drain &&& ~~~draining)) }
    | .summing reasons =>
      if reasons = 0 then some { s with guard := .leaving (.completed (snapshot s)) }
      else some { s with guard := .leaving (.incomplete reasons (snapshot s)) }
    | .leaving result => some { close s with guard := .returned result }
    | _ => none
  | _ => none

inductive Event where
  | submit (record : Record)
  | refuse (reason : DropReason)
  | call (i : ℕ)
  | dropOutput
  | writer (outcome : Outcome)
  | beginShutdown
  | shutdown
  | guard (outcome : Outcome)
  | dropGuard

def step (s : State) : Event → Option State
  | .submit record =>
    if s.output then
      some { s with
        calls := .submitting ⟨s.submitted, record⟩ :: s.calls
        submitted := s.submitted + 1 }
    else none
  -- the layer's own drops: it never reports a full queue or a closed output
  | .refuse reason =>
    if s.output ∧ reason ≠ .queueFull ∧ reason ≠ .closed then
      some { s with calls := .dropping none reason :: s.calls }
    else none
  | .call i => callStep s i
  | .dropOutput =>
    if s.output ∧ s.calls.isEmpty then some { s with output := false } else none
  | .writer outcome => writerStep s outcome
  | .beginShutdown =>
    match s.guard with
    | .held => some (beginShutdown s)
    | _ => none
  | .shutdown =>
    match s.guard with
    | .held => some { beginShutdown s with guard := .closing }
    | _ => none
  | .guard outcome => guardStep s outcome
  | .dropGuard =>
    match s.guard with
    | .held => some { close s with guard := .dropped }
    | _ => none

def logger : System State Event := ⟨start, step⟩

inductive WriterMove (s : State) : State → Prop
  | expire (phase : s.writer = .receiving) : WriterMove s { s with writer := .timedOut }
  | take {item rest} (phase : s.writer = .receiving ∨ s.writer = .lastReceive)
      (queue : s.queue = item :: rest) : WriterMove s (hand s item rest)
  | disconnect (phase : s.writer = .receiving) (queue : s.queue = []) (output : s.output = false) :
      WriterMove s { s with writer := .finalFlush }
  | seeClosed (phase : s.writer = .timedOut) (closed : s.closed = true) :
      WriterMove s { s with writer := .lastReceive }
  | seeOpen {next} (phase : s.writer = .timedOut) (either : next = .idleFlush ∨ next = .receiving) :
      WriterMove s { s with writer := next }
  | drained (phase : s.writer = .lastReceive) (queue : s.queue = []) :
      WriterMove s { s with writer := .finalFlush }
  | written (phase : s.writer = .writing) : WriterMove s { s with dirty := true, writer := .receiving }
  | writeFailed (phase : s.writer = .writing) :
      WriterMove s { s with dirty := true, writer := .counting .write }
  | flushedIdle (phase : s.writer = .idleFlush) :
      WriterMove s { flushed s .receiving with dirty := false }
  | idleFailed (phase : s.writer = .idleFlush) :
      WriterMove s { s with dirty := false, writer := .counting .idleFlush }
  | flushedLast (phase : s.writer = .finalFlush) : WriterMove s (flushed s .dropRecords)
  | lastFailed (phase : s.writer = .finalFlush) :
      WriterMove s { s with writer := .counting .finalFlush }
  | panic (phase : s.writer = .writing ∨ s.writer = .idleFlush ∨ s.writer = .finalFlush) :
      WriterMove s { s with panicked := true, writer := .unwinding }
  | count {report} (phase : s.writer = .counting report) :
      WriterMove s { countSinkError s report.kind with writer := .latching report }
  | latch {report} (phase : s.writer = .latching report) :
      WriterMove s { latchSinkError s report.kind with writer := report.resume }
  | dropRecords (phase : s.writer = .dropRecords) : WriterMove s (dropReceiver s .dropSink)
  | dropSink (phase : s.writer = .dropSink) : WriterMove s { s with writer := .acknowledging }
  | sinkPanic (phase : s.writer = .dropSink) :
      WriterMove s { s with panicked := true, writer := .counting .panic }
  | unwind (phase : s.writer = .unwinding) :
      WriterMove s (dropReceiver s (.counting .panic))
  | dropPayload (phase : s.writer = .dropPayload) : WriterMove s { s with writer := .acknowledging }
  | payloadPanic (phase : s.writer = .dropPayload) : WriterMove s { s with writer := .died }
  | acknowledge (phase : s.writer = .acknowledging) :
      WriterMove s { s with completion := true, writer := .ending }
  | finish (phase : s.writer = .ending) : WriterMove s { s with writer := .finished }

variable {s t : State}

theorem writer_step_cases {outcome : Outcome} (h : writerStep s outcome = some t) :
    WriterMove s t := by
  cases outcome with
  | timeout =>
    simp only [writerStep] at h
    split at h
    · rename_i hw
      exact Option.some.inj h ▸ .expire hw
    · cases h
  | failed =>
    simp only [writerStep] at h
    split at h
    · rename_i hw
      exact Option.some.inj h ▸ .writeFailed hw
    · rename_i hw
      exact Option.some.inj h ▸ .idleFailed hw
    · rename_i hw
      exact Option.some.inj h ▸ .lastFailed hw
    · cases h
  | panicked =>
    simp only [writerStep] at h
    split at h
    · rename_i hw
      exact Option.some.inj h ▸ .panic (.inl hw)
    · rename_i hw
      exact Option.some.inj h ▸ .panic (.inr (.inl hw))
    · rename_i hw
      exact Option.some.inj h ▸ .panic (.inr (.inr hw))
    · rename_i hw
      exact Option.some.inj h ▸ .sinkPanic hw
    · rename_i hw
      exact Option.some.inj h ▸ .payloadPanic hw
    · cases h
  | ok =>
    cases hw : s.writer with
    | receiving =>
      simp only [writerStep, hw] at h
      split at h
      · rename_i hq
        exact Option.some.inj h ▸ .take (.inl hw) hq
      · rename_i hq
        split at h
        · cases h
        · rename_i ho
          exact Option.some.inj h ▸ .disconnect hw hq (Bool.eq_false_iff.mpr ho)
    | timedOut =>
      simp only [writerStep, hw] at h
      split at h
      · rename_i hc
        exact Option.some.inj h ▸ .seeClosed hw hc
      · split at h
        · exact Option.some.inj h ▸ .seeOpen hw (.inl rfl)
        · exact Option.some.inj h ▸ .seeOpen hw (.inr rfl)
    | lastReceive =>
      simp only [writerStep, hw] at h
      split at h
      · rename_i hq
        exact Option.some.inj h ▸ .take (.inr hw) hq
      · rename_i hq
        exact Option.some.inj h ▸ .drained hw hq
    | writing => simp only [writerStep, hw, Option.some.injEq] at h; exact h ▸ .written hw
    | idleFlush => simp only [writerStep, hw, Option.some.injEq] at h; exact h ▸ .flushedIdle hw
    | finalFlush => simp only [writerStep, hw, Option.some.injEq] at h; exact h ▸ .flushedLast hw
    | counting report =>
      simp only [writerStep, hw, Option.some.injEq] at h; exact h ▸ .count hw
    | latching report =>
      simp only [writerStep, hw, Option.some.injEq] at h; exact h ▸ .latch hw
    | dropRecords =>
      simp only [writerStep, hw, Option.some.injEq] at h; exact h ▸ .dropRecords hw
    | dropSink => simp only [writerStep, hw, Option.some.injEq] at h; exact h ▸ .dropSink hw
    | unwinding => simp only [writerStep, hw, Option.some.injEq] at h; exact h ▸ .unwind hw
    | dropPayload =>
      simp only [writerStep, hw, Option.some.injEq] at h; exact h ▸ .dropPayload hw
    | acknowledging =>
      simp only [writerStep, hw, Option.some.injEq] at h; exact h ▸ .acknowledge hw
    | ending => simp only [writerStep, hw, Option.some.injEq] at h; exact h ▸ .finish hw
    | finished => simp only [writerStep, hw] at h; cases h
    | died => simp only [writerStep, hw] at h; cases h

/-- The calls in flight are a bag: a step takes one out and may put its next stage back. -/
inductive CallMove (s : State) : State → Prop
  | refuse {item rest} (call : s.calls.Perm (.submitting item :: rest))
      (gone : s.closed = true ∨ s.receiver = false) :
      CallMove s { s with calls := .dropping (some item) .closed :: rest }
  | accept {item rest} (call : s.calls.Perm (.submitting item :: rest)) (closed : s.closed = false)
      (receiver : s.receiver = true) :
      CallMove s { s with
        queue := s.queue ++ [item], admitted := s.admitted ++ [item], calls := rest }
  | full {item rest} (call : s.calls.Perm (.submitting item :: rest)) :
      CallMove s { s with calls := .dropping (some item) .queueFull :: rest }
  | count {item reason rest} (call : s.calls.Perm (.dropping item reason :: rest)) :
      CallMove s { countDropped s reason with
        calls := .latching :: rest
        counted := s.counted ++ (item.map fun item => (item, reason)).toList }
  | latch {rest} (call : s.calls.Perm (.latching :: rest)) :
      CallMove s { finalFailure s LoggerIncomplete.dropped with calls := rest }

theorem call_step_cases {i : ℕ} (h : callStep s i = some t) : CallMove s t := by
  have hbag : ∀ call, s.calls[i]? = some call → s.calls.Perm (call :: s.calls.eraseIdx i) := by
    intro call hcall
    obtain ⟨hi, rfl⟩ := List.getElem?_eq_some_iff.mp hcall
    exact (List.getElem_cons_eraseIdx_perm hi).symm
  simp only [callStep] at h
  split at h
  · cases h
  · rename_i item hcall
    rw [Option.some.injEq] at h
    subst h
    rw [send]
    split
    · rename_i hgone
      exact .refuse (hbag _ hcall) hgone
    · rename_i hopen
      rw [not_or, Bool.not_eq_true, Bool.not_eq_false] at hopen
      split
      · exact .accept (hbag _ hcall) hopen.1 hopen.2
      · exact .full (hbag _ hcall)
  · rename_i hcall
    exact Option.some.inj h ▸ .count (hbag _ hcall)
  · rename_i hcall
    exact Option.some.inj h ▸ .latch (hbag _ hcall)

inductive GuardMove (s : State) : State → Prop
  | expire (phase : s.guard = .waiting) :
      GuardMove s { s with guard := .checking LoggerIncomplete.deadline }
  | joinExpire {reasons} (phase : s.guard = .joining reasons) :
      GuardMove s { s with guard := .checking (reasons ||| LoggerIncomplete.deadline) }
  | checkExpire {reasons} (phase : s.guard = .checking reasons) :
      GuardMove s { s with guard := .reading (reasons ||| LoggerIncomplete.deadline) }
  | close (phase : s.guard = .closing) : GuardMove s { close s with guard := .waiting }
  | receive (phase : s.guard = .waiting) (completion : s.completion = true) :
      GuardMove s { s with completion := false, guard := .joining 0 }
  | disconnected (phase : s.guard = .waiting) :
      GuardMove s { s with guard := .joining LoggerIncomplete.worker }
  | join {reasons} (phase : s.guard = .joining reasons) (writer : s.writer = .finished) :
      GuardMove s { s with guard := .checking reasons }
  | joinPanic {reasons} (phase : s.guard = .joining reasons) (writer : s.writer = .died) :
      GuardMove s { s with guard := .counting reasons }
  | count {reasons} (phase : s.guard = .counting reasons) :
      GuardMove s { countSinkError s .worker with guard := .latching reasons }
  | latch {reasons} (phase : s.guard = .latching reasons) :
      GuardMove s { latchSinkError s .worker with
        guard := .checking (reasons ||| LoggerIncomplete.worker) }
  | check {reasons} (phase : s.guard = .checking reasons) :
      GuardMove s { s with guard := .reading reasons }
  | read {reasons} (phase : s.guard = .reading reasons) :
      GuardMove s { s with
        finalRead := some s.failures
        guard := .summing (reasons ||| (s.drain &&& ~~~draining)) }
  | complete (phase : s.guard = .summing 0) :
      GuardMove s { s with guard := .leaving (.completed (snapshot s)) }
  | incomplete {reasons} (phase : s.guard = .summing reasons) (reasons_ne : reasons ≠ 0) :
      GuardMove s { s with guard := .leaving (.incomplete reasons (snapshot s)) }
  | leave {result} (phase : s.guard = .leaving result) :
      GuardMove s { LogOutput.close s with guard := .returned result }

theorem guard_step_cases {outcome : Outcome} (h : guardStep s outcome = some t) :
    GuardMove s t := by
  cases outcome with
  | failed => cases h
  | panicked => cases h
  | timeout =>
    simp only [guardStep] at h
    split at h
    · rename_i hg
      exact Option.some.inj h ▸ .expire hg
    · rename_i hg
      split at h
      · cases h
      · exact Option.some.inj h ▸ .joinExpire hg
    · rename_i hg
      exact Option.some.inj h ▸ .checkExpire hg
    · cases h
  | ok =>
    simp only [guardStep] at h
    split at h
    · rename_i hg
      exact Option.some.inj h ▸ .close hg
    · rename_i hg
      split at h
      · rename_i hcompletion
        exact Option.some.inj h ▸ .receive hg hcompletion
      · split at h
        · exact Option.some.inj h ▸ .disconnected hg
        · cases h
    · rename_i hg
      split at h
      · rename_i hw
        exact Option.some.inj h ▸ .join hg hw
      · rename_i hw
        exact Option.some.inj h ▸ .joinPanic hg hw
      · cases h
    · rename_i hg
      exact Option.some.inj h ▸ .count hg
    · rename_i hg
      exact Option.some.inj h ▸ .latch hg
    · rename_i hg
      exact Option.some.inj h ▸ .check hg
    · rename_i hg
      exact Option.some.inj h ▸ .read hg
    · rename_i hg
      split at h
      · rename_i hzero
        exact Option.some.inj h ▸ .complete (hzero ▸ hg)
      · rename_i hne
        exact Option.some.inj h ▸ .incomplete hg hne
    · rename_i hg
      exact Option.some.inj h ▸ .leave hg
    · cases h

inductive Move (s : State) : State → Prop
  | submit (record) (output : s.output = true) : Move s { s with
      calls := .submitting ⟨s.submitted, record⟩ :: s.calls
      submitted := s.submitted + 1 }
  | refuse {reason} (output : s.output = true) (own : reason ≠ .queueFull ∧ reason ≠ .closed) :
      Move s { s with calls := .dropping none reason :: s.calls }
  | call {t : State} (move : CallMove s t) : Move s t
  | dropOutput (calls : s.calls = []) : Move s { s with output := false }
  | writer {t : State} (move : WriterMove s t) : Move s t
  | beginShutdown (phase : s.guard = .held) : Move s (beginShutdown s)
  | shutdown (phase : s.guard = .held) : Move s { beginShutdown s with guard := .closing }
  | guard {t : State} (move : GuardMove s t) : Move s t
  | dropGuard (phase : s.guard = .held) : Move s { close s with guard := .dropped }

theorem step_cases {e : Event} (h : step s e = some t) : Move s t := by
  cases e with
  | submit record =>
    simp only [step] at h
    split at h
    · rename_i houtput
      exact Option.some.inj h ▸ .submit record houtput
    · cases h
  | refuse reason =>
    simp only [step] at h
    split at h
    · rename_i hown
      exact Option.some.inj h ▸ .refuse hown.1 hown.2
    · cases h
  | call i => exact .call (call_step_cases h)
  | dropOutput =>
    simp only [step] at h
    split at h
    · rename_i hcalls
      exact Option.some.inj h ▸ .dropOutput (List.isEmpty_iff.mp hcalls.2)
    · cases h
  | writer outcome => exact .writer (writer_step_cases h)
  | beginShutdown =>
    simp only [step] at h
    split at h
    · rename_i hg
      exact Option.some.inj h ▸ .beginShutdown hg
    · cases h
  | shutdown =>
    simp only [step] at h
    split at h
    · rename_i hg
      exact Option.some.inj h ▸ .shutdown hg
    · cases h
  | guard outcome => exact .guard (guard_step_cases h)
  | dropGuard =>
    simp only [step] at h
    split at h
    · rename_i hg
      exact Option.some.inj h ▸ .dropGuard hg
    · cases h

end LogOutput
