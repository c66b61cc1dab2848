import ServiceTemplate.ByteFraming
import ServiceTemplate.PrefixMatch
import ServiceTemplate.TransitionSystem

/-! The socket whose reads fail while the protocol of a new connection is undecided at the
deadline: one connection over any interleaving of polls, arriving bytes and the timer. -/
namespace SniffDeadline

open ByteFraming (Bytes)
open PrefixMatch
open TransitionSystem

def http2Preface : Bytes :=
  "PRI * HTTP/2.0\r\n\r\nSM\r\n\r\n".toList.map fun c => UInt8.ofNat c.toNat

inductive Poll (α : Type*) where
  | ready (value : α)
  | pending
  deriving DecidableEq, Repr

structure ReadBuf where
  filled : Bytes
  capacity : ℕ
  fits : filled.length ≤ capacity

def ReadBuf.remaining (buf : ReadBuf) : ℕ := buf.capacity - buf.filled.length

def ReadBuf.put (buf : ReadBuf) (chunk : Bytes) (h : chunk.length ≤ buf.remaining) : ReadBuf where
  filled := buf.filled ++ chunk
  capacity := buf.capacity
  fits := by
    have hfits := buf.fits
    rw [ReadBuf.remaining] at h
    rw [List.length_append]
    omega

/-- What the inner stream answers to one poll. A read without bytes is its end. -/
inductive Answer (E : Type*) where
  | read (chunk : Bytes) (nonempty : chunk ≠ [])
  | ended
  | pending
  | failed (error : E)

def Answer.bytes {E : Type*} : Answer E → Bytes
  | .read chunk _ => chunk
  | _ => []

def Answer.isEnded {E : Type*} : Answer E → Bool
  | .ended => true
  | _ => false

def Answer.isPending {E : Type*} : Answer E → Bool
  | .pending => true
  | _ => false

def sliceFrom (bytes : Bytes) (start : ℕ) : Option Bytes :=
  if start ≤ bytes.length then some (bytes.drop start) else none

structure Call (W E : Type*) where
  waker : W
  buf : ReadBuf
  answer : Answer E
  fits : answer.bytes.length ≤ buf.remaining

/-- The inner stream's `poll_read`: the buffer after it and its result. -/
def Call.innerPollRead {W E : Type*} (call : Call W E) : ReadBuf × Poll (Except E Unit) :=
  (call.buf.put call.answer.bytes call.fits,
    match call.answer with
    | .read _ _ => .ready (.ok ())
    | .ended => .ready (.ok ())
    | .pending => .pending
    | .failed error => .ready (.error error))

/-- The bytes matched so far, the buffer and the result behind one poll, and whether the timer was
polled. -/
structure Polled (E : Type*) where
  undecided : Option ℕ
  buf : ReadBuf
  result : Poll (Except E Unit)
  timerPolled : Bool

section Model

variable {W E : Type*} (timedOut : E)

/-- `poll_read`: none is a slice out of bounds. -/
def pollRead (undecided : Option ℕ) (fired : Bool) (call : Call W E) : Option (Polled E) :=
  let (buf, result) := call.innerPollRead
  match undecided with
  | none => some ⟨none, buf, result, false⟩
  | some matched =>
    let filled := call.buf.filled.length
    match result with
    | .ready (.ok ()) =>
      (sliceFrom buf.filled filled).bind fun read =>
      (sliceFrom http2Preface matched).bind fun rest =>
        if read ≠ [] ∧ read.length < rest.length ∧ read <+: rest then
          some ⟨some (matched + read.length), buf, .ready (.ok ()), false⟩
        else some ⟨none, buf, .ready (.ok ()), false⟩
    | .pending =>
      some ⟨some matched, buf, if fired then .ready (.error timedOut) else .pending, true⟩
    | .ready (.error error) => some ⟨some matched, buf, .ready (.error error), false⟩

/-- A connection under the wrapper: who is woken by the stream and by the timer, the task that was
told to wait and was not woken since, and what the stream has yielded and the callers have found
behind what was in their buffers. -/
structure Connection (W : Type*) where
  undecided : Option ℕ
  fired : Bool
  ioWaker : Option W
  timerWaker : Option W
  waiting : Option W
  received : Bytes
  ended : Bool
  delivered : Bytes
  deriving DecidableEq, Repr

def Connection.new : Connection W := ⟨some 0, false, none, none, none, [], false, []⟩

def Polled.found (polled : Polled E) (call : Call W E) : Bytes :=
  match polled.result with
  | .ready (.ok ()) => polled.buf.filled.drop call.buf.filled.length
  | _ => []

/-- Who is told to wait is woken by the stream when that is pending, and by the timer when that was
polled and has not fired. The timer is dropped with the decision. -/
def Connection.poll (c : Connection W) (call : Call W E) : Option (Connection W × Polled E) :=
  (pollRead timedOut c.undecided c.fired call).map fun polled =>
    ({ undecided := polled.undecided
       fired := c.fired
       ioWaker := if call.answer.isPending then some call.waker else c.ioWaker
       timerWaker := if polled.undecided = none then none
         else if polled.timerPolled ∧ c.fired = false then some call.waker else c.timerWaker
       waiting := match polled.result with
         | .pending => some call.waker
         | .ready _ => none
       received := c.received ++ call.answer.bytes
       ended := c.ended || call.answer.isEnded
       delivered := c.delivered ++ polled.found call }, polled)

def outcome (undecided : Option ℕ) (fired : Bool) : Answer E → Poll (Except E Unit)
  | .read _ _ => .ready (.ok ())
  | .ended => .ready (.ok ())
  | .failed error => .ready (.error error)
  | .pending => if undecided.isSome ∧ fired = true then .ready (.error timedOut) else .pending

structure Polls (received : Bytes) (ended fired : Bool) (call : Call W E) (polled : Polled E) :
    Prop where
  undecided : polled.undecided =
    position http2Preface (received ++ call.answer.bytes) (ended || call.answer.isEnded)
  buf : polled.buf.filled = call.buf.filled ++ call.answer.bytes
  result : polled.result =
    outcome timedOut (position http2Preface received ended) fired call.answer
  timer : polled.timerPolled =
    ((position http2Preface received ended).isSome && call.answer.isPending)

theorem slice_from_ok {bytes : Bytes} {start : ℕ} (h : start ≤ bytes.length) :
    sliceFrom bytes start = some (bytes.drop start) := if_pos h

/-- The slices of a poll are in bounds, and it moves the match by the bytes that were read. -/
theorem poll_read_polls (received : Bytes) (ended fired : Bool) (call : Call W E) :
    ∃ polled, pollRead timedOut (position http2Preface received ended) fired call = some polled ∧
      Polls timedOut received ended fired call polled := by
  obtain ⟨waker, buf, answer, fits⟩ := call
  cases hposition : position http2Preface received ended with
  | none =>
    refine ⟨_, rfl, ?_, rfl, ?_, ?_⟩
    · exact (position_extend hposition answer.bytes answer.isEnded).symm
    · cases answer <;> simp [hposition, outcome]
    · simp [hposition]
  | some matched =>
    obtain ⟨hended, hwithin, hmatched⟩ := position_eq_some.mp hposition
    have hbound : matched ≤ http2Preface.length := by
      have hlt := hwithin.2
      omega
    cases answer with
    | read chunk nonempty =>
      have hread : sliceFrom (buf.filled ++ chunk) buf.filled.length = some chunk := by
        rw [slice_from_ok (by simp), List.drop_left]
      have hadvance := advance_position hposition nonempty
      simp only [pollRead, Call.innerPollRead, ReadBuf.put, Answer.bytes, hread,
        slice_from_ok hbound, Option.bind_some]
      split_ifs with hmatch
      · refine ⟨_, rfl, ?_, rfl, rfl, by simp [Answer.isPending]⟩
        rw [advance, if_pos hmatch] at hadvance
        simpa [Answer.bytes, Answer.isEnded] using hadvance
      · refine ⟨_, rfl, ?_, rfl, rfl, by simp [Answer.isPending]⟩
        rw [advance, if_neg hmatch] at hadvance
        simpa [Answer.bytes, Answer.isEnded] using hadvance
    | ended =>
      have hread : sliceFrom (buf.filled ++ []) buf.filled.length = some [] := by
        rw [slice_from_ok (by simp), List.drop_left]
      simp only [pollRead, Call.innerPollRead, ReadBuf.put, Answer.bytes, hread,
        slice_from_ok hbound, Option.bind_some]
      exact ⟨_, rfl, by simp [Answer.isEnded, position_ended], rfl, rfl,
        by simp [Answer.isPending]⟩
    | pending =>
      refine ⟨_, rfl, ?_, rfl, ?_, ?_⟩
      · simp [Answer.bytes, Answer.isEnded, hposition]
      · simp [outcome, hposition]
      · simp [Answer.isPending, hposition]
    | failed error =>
      refine ⟨_, rfl, ?_, rfl, rfl, ?_⟩
      · simp [Answer.bytes, Answer.isEnded, hposition]
      · simp [Answer.isPending]

/-- The wrapper knows of the stream only how far it matches the preface. -/
structure Follows (c : Connection W) : Prop where
  undecided : c.undecided = position http2Preface c.received c.ended
  delivered : c.delivered = c.received
  /-- A task that waits on an undecided connection is woken by the stream and by the timer. -/
  waiting : ∀ waker, c.waiting = some waker → c.undecided.isSome = true →
    c.fired = false ∧ c.ioWaker = some waker ∧ c.timerWaker = some waker

theorem outcome_pending {undecided : Option ℕ} {fired : Bool} {answer : Answer E} :
    outcome timedOut undecided fired answer = .pending ↔
      answer.isPending = true ∧ (undecided.isSome = true → fired = false) := by
  cases answer <;> simp [outcome, Answer.isPending]

theorem outcome_ready (undecided : Option ℕ) (fired : Bool) (answer : Answer E) :
    outcome timedOut undecided fired answer = .ready (.ok ()) ∨ answer.bytes = [] := by
  cases answer <;> simp [outcome, Answer.bytes]

theorem Polls.found {received : Bytes} {ended fired : Bool} {call : Call W E} {polled : Polled E}
    (h : Polls timedOut received ended fired call polled) :
    polled.found call = call.answer.bytes := by
  have hbehind : polled.buf.filled.drop call.buf.filled.length = call.answer.bytes := by
    rw [h.buf, List.drop_left]
  rcases outcome_ready timedOut (position http2Preface received ended) fired call.answer with
    hready | hnone
  · rw [Polled.found, h.result, hready]
    exact hbehind
  · rw [Polled.found]
    split
    · exact hbehind
    · exact hnone.symm

/-- While it says pending, a poll leaves its waker with both who can wake it. -/
theorem Polls.registers {received : Bytes} {ended fired : Bool} {call : Call W E}
    {polled : Polled E} (h : Polls timedOut received ended fired call polled)
    (hpending : polled.result = .pending) (hundecided : polled.undecided.isSome = true) :
    call.answer.isPending = true ∧ fired = false ∧ polled.timerPolled = true := by
  rw [h.result, outcome_pending] at hpending
  obtain ⟨hanswer, hfired⟩ := hpending
  have hbefore : (position http2Preface received ended).isSome = true := by
    cases hposition : position http2Preface received ended with
    | some matched => rfl
    | none =>
      rw [h.undecided, position_extend hposition] at hundecided
      cases hundecided
  exact ⟨hanswer, hfired hbefore, by rw [h.timer, hbefore, hanswer]; rfl⟩

theorem Follows.poll {c : Connection W} (h : Follows c) (call : Call W E) :
    ∃ c' polled, c.poll timedOut call = some (c', polled) ∧ Follows c' ∧
      Polls timedOut c.received c.ended c.fired call polled := by
  obtain ⟨polled, hread, hpolls⟩ :=
    poll_read_polls timedOut c.received c.ended c.fired call
  rw [← h.undecided] at hread
  refine ⟨_, polled, by rw [Connection.poll, hread]; rfl, ⟨hpolls.undecided, ?_, ?_⟩, hpolls⟩
  · rw [h.delivered, hpolls.found]
  · intro waker hwaiting hundecided
    cases hresult : polled.result with
    | ready value =>
      simp only [hresult] at hwaiting
      cases hwaiting
    | pending =>
      obtain ⟨hanswer, hfired, htimer⟩ := hpolls.registers timedOut hresult hundecided
      have hsome : polled.undecided ≠ none := Option.isSome_iff_ne_none.mp hundecided
      simp only [hresult] at hwaiting
      simp [hanswer, hfired, htimer, hsome, hwaiting]

theorem polled_of_poll {c c' : Connection W} {call : Call W E} {polled : Polled E}
    (h : Follows c) (hpoll : c.poll timedOut call = some (c', polled)) :
    Follows c' ∧ Polls timedOut c.received c.ended c.fired call polled := by
  obtain ⟨after, read, hread, hfollows, hpolls⟩ := h.poll timedOut call
  rw [hpoll] at hread
  cases hread
  exact ⟨hfollows, hpolls⟩

theorem waiting_of_poll {c c' : Connection W} {call : Call W E} {polled : Polled E}
    (hpoll : c.poll timedOut call = some (c', polled)) (h : polled.result = .pending) :
    c'.waiting = some call.waker := by
  obtain ⟨read, -, hread⟩ := Option.map_eq_some_iff.mp hpoll
  cases hread
  simp only [h]

variable [DecidableEq W]

inductive Event (W E : Type*) where
  | poll (call : Call W E)
  /-- The timer fires and wakes who registered with it. -/
  | deadline
  /-- The stream has news and wakes who registered with it. -/
  | arrival

def Connection.wake (c : Connection W) (waker : Option W) : Option W :=
  if waker = c.waiting then none else c.waiting

def step (c : Connection W) : Event W E → Option (Connection W)
  | .poll call => (c.poll timedOut call).map Prod.fst
  | .deadline =>
    if c.undecided.isSome ∧ c.fired = false then
      some { c with fired := true, timerWaker := none, waiting := c.wake c.timerWaker }
    else none
  | .arrival => some { c with ioWaker := none, waiting := c.wake c.ioWaker }

def system : System (Connection W) (Event W E) := ⟨.new, step timedOut⟩

theorem step_poll {c c' : Connection W} {call : Call W E}
    (h : step timedOut c (.poll call) = some c') :
    ∃ polled, c.poll timedOut call = some (c', polled) := by
  obtain ⟨⟨after, polled⟩, hpoll, rfl⟩ := Option.map_eq_some_iff.mp h
  exact ⟨polled, hpoll⟩

theorem Follows.step {c c' : Connection W} {event : Event W E} (h : Follows c)
    (hstep : step timedOut c event = some c') : Follows c' := by
  cases event with
  | poll call =>
    obtain ⟨polled, hpoll⟩ := step_poll timedOut hstep
    exact (polled_of_poll timedOut h hpoll).1
  | deadline =>
    simp only [SniffDeadline.step] at hstep
    split_ifs at hstep with henabled
    cases hstep
    refine ⟨h.undecided, h.delivered, ?_⟩
    intro waker hwaiting
    exfalso
    rw [Connection.wake] at hwaiting
    split_ifs at hwaiting with hsame
    exact hsame ((h.waiting waker hwaiting henabled.1).2.2.trans hwaiting.symm)
  | arrival =>
    cases hstep
    refine ⟨h.undecided, h.delivered, ?_⟩
    intro waker hwaiting hundecided
    exfalso
    rw [Connection.wake] at hwaiting
    split_ifs at hwaiting with hsame
    exact hsame ((h.waiting waker hwaiting hundecided).2.1.trans hwaiting.symm)

omit [DecidableEq W] in
theorem new_follows : Follows (Connection.new : Connection W) where
  undecided := (position_eq_some.mpr ⟨rfl, ⟨List.nil_prefix, by decide⟩, rfl⟩).symm
  delivered := rfl
  waiting := by
    intro waker hwaiting
    cases hwaiting

theorem reachable_follows {c : Connection W} (h : (system timedOut).Reachable c) : Follows c := by
  refine h.induction (P := Follows) new_follows ?_
  intro s event t _ hs hstep
  exact hs.step timedOut hstep

theorem step_decided {c c' : Connection W} {event : Event W E} (h : c.undecided = none)
    (hstep : step timedOut c event = some c') : c'.undecided = none := by
  cases event with
  | poll call =>
    obtain ⟨polled, hpoll⟩ := step_poll timedOut hstep
    rw [Connection.poll, h] at hpoll
    cases hpoll
    rfl
  | deadline =>
    simp only [SniffDeadline.step] at hstep
    split_ifs at hstep with henabled
    rw [h] at henabled
    exact absurd henabled.1 (by decide)
  | arrival =>
    cases hstep
    exact h

/-- The wrapper over every run of polls, arrivals and the timer. -/
structure ChunkingIndependent : Prop where
  /-- Undecided while the bytes read are a strict prefix of the preface and the stream has not
  ended, however the bytes were cut. -/
  undecided : ∀ {c : Connection W}, (system timedOut).Reachable c →
    (c.undecided.isSome = true ↔
      c.ended = false ∧ c.received <+: http2Preface ∧ c.received.length < http2Preface.length)
  chunking : ∀ {c d : Connection W}, (system timedOut).Reachable c → (system timedOut).Reachable d →
    c.received = d.received → c.ended = d.ended → c.undecided = d.undecided
  decided : ∀ {c c' : Connection W}, (system timedOut).Execution c c' →
    c.undecided = none → c'.undecided = none
  delivered : ∀ {c : Connection W}, (system timedOut).Reachable c → c.delivered = c.received
  /-- No slice is out of bounds: every poll has an answer. -/
  answered : ∀ {c : Connection W} (call : Call W E), (system timedOut).Reachable c →
    ∃ c' polled, c.poll timedOut call = some (c', polled)
  /-- The buffer keeps what it held and gains the bytes of the inner stream. -/
  buffer : ∀ {c c' : Connection W} {call : Call W E} {polled : Polled E},
    (system timedOut).Reachable c → c.poll timedOut call = some (c', polled) →
    polled.buf.filled = call.buf.filled ++ call.answer.bytes
  timed_out : ∀ {c c' : Connection W} {call : Call W E} {polled : Polled E},
    (system timedOut).Reachable c → c.poll timedOut call = some (c', polled) →
    (polled.result = .ready (.error timedOut) ↔
      (c.undecided.isSome = true ∧ call.answer = .pending ∧ c.fired = true) ∨
        call.answer = .failed timedOut)
  registered : ∀ {c c' : Connection W} {call : Call W E} {polled : Polled E},
    (system timedOut).Reachable c → c.poll timedOut call = some (c', polled) →
    polled.result = .pending → c'.undecided.isSome = true →
    c'.ioWaker = some call.waker ∧ c'.timerWaker = some call.waker
  /-- The deadline wakes the task that waits on an undecided connection. -/
  woken : ∀ {c : Connection W} {waker : W}, (system timedOut).Reachable c →
    c.undecided.isSome = true → c.waiting = some waker → c.timerWaker = some waker ∧
      ∃ c', step timedOut c .deadline = some c' ∧ c'.waiting = none

theorem outcome_timed_out {undecided : Option ℕ} {fired : Bool} {answer : Answer E} :
    outcome timedOut undecided fired answer = .ready (.error timedOut) ↔
      (undecided.isSome = true ∧ answer = .pending ∧ fired = true) ∨
        answer = .failed timedOut := by
  cases answer <;> simp [outcome]

theorem position_is_some {received : Bytes} {ended : Bool} :
    (position http2Preface received ended).isSome = true ↔
      ended = false ∧ received <+: http2Preface ∧ received.length < http2Preface.length := by
  rw [position]
  split_ifs with h
  · exact ⟨fun _ => h, fun _ => rfl⟩
  · exact ⟨fun hsome => absurd hsome (by decide), fun hwithin => absurd hwithin h⟩

theorem sniff_chunking_independent : ChunkingIndependent (W := W) timedOut where
  undecided := by
    intro c h
    rw [(reachable_follows timedOut h).undecided]
    exact position_is_some
  chunking := by
    intro c d hc hd hreceived hended
    rw [(reachable_follows timedOut hc).undecided, (reachable_follows timedOut hd).undecided,
      hreceived, hended]
  decided := by
    intro c c' h hnone
    exact h.preserves (P := fun c => c.undecided = none)
      (fun s event t hs hstep => step_decided timedOut hs hstep) hnone
  delivered := fun h => (reachable_follows timedOut h).delivered
  answered := by
    intro c call h
    obtain ⟨c', polled, hpoll, -⟩ := (reachable_follows timedOut h).poll timedOut call
    exact ⟨c', polled, hpoll⟩
  buffer := by
    intro c c' call polled h hpoll
    obtain ⟨-, hpolls⟩ := polled_of_poll timedOut (reachable_follows timedOut h) hpoll
    exact hpolls.buf
  timed_out := by
    intro c c' call polled h hpoll
    have hfollows := reachable_follows timedOut h
    obtain ⟨-, hpolls⟩ := polled_of_poll timedOut hfollows hpoll
    rw [hpolls.result, hfollows.undecided]
    exact outcome_timed_out timedOut
  registered := by
    intro c c' call polled h hpoll hpending hundecided
    obtain ⟨hfollows, -⟩ := polled_of_poll timedOut (reachable_follows timedOut h) hpoll
    obtain ⟨-, hio, htimer⟩ := hfollows.waiting call.waker (waiting_of_poll timedOut hpoll hpending) hundecided
    exact ⟨hio, htimer⟩
  woken := by
    intro c waker h hundecided hwaiting
    obtain ⟨hfired, -, htimer⟩ := (reachable_follows timedOut h).waiting waker hwaiting hundecided
    refine ⟨htimer, _, if_pos ⟨hundecided, hfired⟩, ?_⟩
    rw [Connection.wake, htimer, hwaiting]
    exact if_pos rfl

end Model

inductive ErrorKind where
  | timedOut
  | connectionReset
  deriving DecidableEq, Repr

/-- A first read that fails inside the socket with the same kind of error is handed on, with the
timer still running. -/
theorem inner_timeout_passed_on :
    ¬ ∀ (c c' : Connection Unit) (call : Call Unit ErrorKind) (polled : Polled ErrorKind),
      (system ErrorKind.timedOut).Reachable c →
      c.poll ErrorKind.timedOut call = some (c', polled) →
      (polled.result = .ready (.error .timedOut) ↔
        c.undecided.isSome = true ∧ call.answer = .pending ∧ c.fired = true) := by
  intro h
  let call : Call Unit ErrorKind := ⟨(), ⟨[], 64, by decide⟩, .failed .timedOut, by decide⟩
  obtain ⟨c', polled, hpoll, -, hpolls⟩ := new_follows.poll ErrorKind.timedOut call
  have hresult : polled.result = .ready (.error .timedOut) := hpolls.result
  have hfired := ((h _ _ _ _ System.reachable_initial hpoll).mp hresult).2.2
  exact absurd hfired (by decide)

end SniffDeadline
