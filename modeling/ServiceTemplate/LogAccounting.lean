import ServiceTemplate.LogOutput
import Mathlib.Data.List.Basic

/-! Every submitted record has one fate, over every interleaving of the submitting threads, the
writer and the guard, and a completed shutdown vouches for all that was admitted. -/
namespace LogAccounting

open LogOutput
open TransitionSystem

variable {s t : State}

def Latched (drain reason : Bits) : Prop := drain ||| reason = drain

theorem Latched.or {drain reason : Bits} (h : Latched drain reason) (more : Bits) :
    Latched (drain ||| more) reason := by
  rw [Latched, BitVec.or_assoc, BitVec.or_comm more, ← BitVec.or_assoc, h]

theorem latched_or (drain reason : Bits) : Latched (drain ||| reason) reason := by
  rw [Latched, BitVec.or_assoc, BitVec.or_self]

theorem latched_self (drain : Bits) : Latched drain drain := BitVec.or_self

theorem marked_mono {drain : Bits} (h : Marked drain) (more : Bits) : Marked (drain ||| more) := by
  rw [Marked, BitVec.and_or_distrib_right] at *
  exact fun hzero => h (BitVec.or_eq_zero_iff.mp hzero).1

theorem marked_or (drain : Bits) : Marked (drain ||| draining) := by
  rw [Marked, BitVec.and_or_distrib_right]
  exact fun hzero => absurd (BitVec.or_eq_zero_iff.mp hzero).2 (by decide)

/-- No reason is latched in a state without one, the marker apart. -/
theorem unlatched {drain reason : Bits} (hclean : drain &&& ~~~draining = 0)
    (hreason : reason &&& ~~~draining ≠ 0) : ¬ Latched drain reason := by
  intro h
  rw [← h, BitVec.and_or_distrib_right] at hclean
  exact hreason (BitVec.or_eq_zero_iff.mp hclean).2

theorem final_failure_fields (s : State) (reason : Bits) :
    finalFailure s reason =
      { s with drain := (finalFailure s reason).drain, failures := (finalFailure s reason).failures } := by
  rw [finalFailure]
  split
  · rfl
  · rfl

theorem latch_sink_fields (s : State) (kind : SinkError) :
    latchSinkError s kind =
      { s with
        drain := (latchSinkError s kind).drain, failures := (latchSinkError s kind).failures } := by
  cases kind with
  | write => exact final_failure_fields s _
  | flush => exact final_failure_fields s _
  | worker => rfl

def released : Writer → Bool
  | .dropSink | .counting .panic | .latching .panic | .dropPayload => true
  | .acknowledging | .ending | .finished | .died => true
  | _ => false

def leaving : Writer → Bool
  | .finalFlush | .counting .finalFlush | .latching .finalFlush | .dropRecords => true
  | _ => false

/-- The last flush is over, unless there was a panic. -/
def left : Writer → Bool
  | .dropRecords | .dropSink | .acknowledging | .ending | .finished => true
  | _ => false

def unwound : Writer → Bool
  | .unwinding | .counting .panic | .latching .panic => true
  | _ => false

def Flushed (s : State) : Prop :=
  s.flushedAt = some s.handed.length ∨ Latched s.drain LoggerIncomplete.flush ∨
    s.guard = .dropped ∨ s.output = false

structure Ending (s : State) : Prop where
  receiver : s.receiver = !released s.writer
  lost : s.receiver = true → s.lost = []
  queue : s.receiver = false → s.queue = []
  calls : s.output = false → s.calls = []
  seen : s.writer = .lastReceive → s.closed = true
  stopped : leaving s.writer = true → s.queue = [] ∧ (s.closed = true ∨ s.output = false)
  panicked : unwound s.writer = true ∨ s.writer = .dropPayload → s.panicked = true
  lost_panicked : s.lost ≠ [] → s.panicked = true
  reported : s.panicked = true → unwound s.writer = true ∨ Latched s.drain LoggerIncomplete.worker
  marked : s.closed = true → Marked s.drain ∨ s.guard = .dropped
  begun : Marked s.drain ∨ s.guard = .held ∨ s.guard = .dropped
  flushed : left s.writer = true → s.panicked = false → Flushed s
  acknowledged : s.completion = true → s.writer = .ending ∨ s.writer = .finished

/-- A step of the writer that is about its own place. -/
theorem Ending.goto (h : Ending s) {w : Writer} {d : Bool} {e : SinkError → BitVec 64}
    {f : Option ℕ} (hreleased : released w = released s.writer)
    (hseen : w = .lastReceive → s.closed = true)
    (hleaving : leaving w = true →
      leaving s.writer = true ∨ s.queue = [] ∧ (s.closed = true ∨ s.output = false))
    (hpanicked : unwound w = true ∨ w = .dropPayload → s.panicked = true)
    (hunwound : unwound s.writer = true →
      unwound w = true ∨ Latched s.drain LoggerIncomplete.worker)
    (hleft : left w = true → s.panicked = false → Flushed { s with flushedAt := f })
    (hcompletion : s.completion = true → w = .ending ∨ w = .finished) :
    Ending { s with writer := w, dirty := d, sinkErrors := e, flushedAt := f } where
  receiver := by rw [hreleased]; exact h.receiver
  lost := h.lost
  queue := h.queue
  calls := h.calls
  seen := hseen
  stopped hw := (hleaving hw).elim h.stopped id
  panicked := hpanicked
  lost_panicked := h.lost_panicked
  reported hp := (h.reported hp).elim hunwound .inr
  marked := h.marked
  begun := h.begun
  flushed := hleft
  acknowledged := hcompletion

def looping : Writer → Bool
  | .receiving | .timedOut | .lastReceive | .writing | .idleFlush => true
  | .counting .write | .latching .write | .counting .idleFlush | .latching .idleFlush => true
  | _ => false

theorem looping_place {w : Writer} (h : looping w = true) : released w = false ∧
    leaving w = false ∧ left w = false ∧ unwound w = false ∧ w ≠ .dropPayload ∧ w ≠ .ending ∧
    w ≠ .finished := by
  cases w with
  | counting report =>
    cases report with
    | write => decide
    | idleFlush => decide
    | finalFlush => cases h
    | panic => cases h
  | latching report =>
    cases report with
    | write => decide
    | idleFlush => decide
    | finalFlush => cases h
    | panic => cases h
  | _ => first | decide | cases h

theorem Ending.not_acknowledged (h : Ending s) (hs : s.writer ≠ .ending ∧ s.writer ≠ .finished) :
    s.completion ≠ true := fun hc => (h.acknowledged hc).elim hs.1 hs.2

theorem Ending.loop (h : Ending s) {w : Writer} {d : Bool} {e : SinkError → BitVec 64}
    {f : Option ℕ} (hs : looping s.writer = true) (hw : looping w = true)
    (hseen : w = .lastReceive → s.closed = true) :
    Ending { s with writer := w, dirty := d, sinkErrors := e, flushedAt := f } := by
  obtain ⟨hrs, hls, hfs, hus, -, hends⟩ := looping_place hs
  obtain ⟨hrw, hlw, hfw, huw, hpw, -⟩ := looping_place hw
  refine h.goto (hrw.trans hrs.symm) hseen ?_ ?_ ?_ ?_ ?_
  · simp [hlw]
  · simp [huw, hpw]
  · simp [hus]
  · simp [hfw]
  · exact fun hc => absurd hc (h.not_acknowledged hends)

theorem Ending.take (h : Ending s) (hs : looping s.writer = true) (item : Item)
    (rest : List Item) : Ending (hand s item rest) := by
  have hup : s.receiver = true := by rw [h.receiver, (looping_place hs).1]; rfl
  have hback := h.not_acknowledged (looping_place hs).2.2.2.2.2
  exact {
    receiver := hup
    lost := h.lost
    queue := fun hdown => absurd (hup.symm.trans hdown) (by decide)
    calls := h.calls
    seen := nofun
    stopped := nofun
    panicked := nofun
    lost_panicked := h.lost_panicked
    reported := fun hp => (h.reported hp).imp_left fun hu => by
      rw [(looping_place hs).2.2.2.1] at hu
      cases hu
    marked := h.marked
    begun := h.begun
    flushed := nofun
    acknowledged := fun hc => absurd hc hback }

/-- The receiver goes at the end of a loop with an empty queue, or behind a panic. -/
theorem Ending.drop_receiver (h : Ending s) {w : Writer} (hreleased : released w = true)
    (hleaving : leaving w = false) (hlost : s.panicked = true ∨ s.lost ++ s.queue = [])
    (hpanicked : unwound w = true ∨ w = .dropPayload → s.panicked = true)
    (hunwound : unwound s.writer = true → unwound w = true)
    (hleft : left w = true → s.panicked = false → Flushed s)
    (hcompletion : s.completion ≠ true) :
    Ending (dropReceiver s w) where
  receiver := by
    have hdown : (dropReceiver s w).writer = w := rfl
    rw [hdown, hreleased]
    rfl
  lost := nofun
  queue _ := rfl
  calls := h.calls
  seen hw := by
    rw [show w = .lastReceive from hw] at hreleased
    cases hreleased
  stopped hw := by
    rw [show leaving (dropReceiver s w).writer = leaving w from rfl, hleaving] at hw
    cases hw
  panicked := hpanicked
  lost_panicked hne := hlost.resolve_right hne
  reported hp := (h.reported hp).imp_left hunwound
  marked := h.marked
  begun := h.begun
  flushed := hleft
  acknowledged hc := absurd hc hcompletion

theorem Ending.panic (h : Ending s) {w : Writer} (hreleased : released w = released s.writer)
    (hunwound : unwound w = true) (hleaving : leaving w = false)
    (hcompletion : s.completion ≠ true) : Ending { s with panicked := true, writer := w } where
  receiver := by rw [hreleased]; exact h.receiver
  lost := h.lost
  queue := h.queue
  calls := h.calls
  seen hw := by
    rw [show w = .lastReceive from hw] at hunwound
    cases hunwound
  stopped hw := absurd (hleaving.symm.trans hw) (by decide)
  panicked _ := rfl
  lost_panicked _ := rfl
  reported _ := .inl hunwound
  marked := h.marked
  begun := h.begun
  flushed := nofun
  acknowledged hc := absurd hc hcompletion

theorem Ending.latch (h : Ending s) {drain : Bits} (hdrain : ∃ more, drain = s.drain ||| more)
    (failures : List Bits) : Ending { s with drain := drain, failures := failures } := by
  obtain ⟨more, rfl⟩ := hdrain
  exact {
    receiver := h.receiver
    lost := h.lost
    queue := h.queue
    calls := h.calls
    seen := h.seen
    stopped := h.stopped
    panicked := h.panicked
    lost_panicked := h.lost_panicked
    reported := fun hp => (h.reported hp).imp_right fun hl => hl.or more
    marked := fun hc => (h.marked hc).imp_left fun hm => marked_mono hm more
    begun := h.begun.imp_left fun hm => marked_mono hm more
    flushed := fun hw hp => (h.flushed hw hp).imp_right (Or.imp_left fun hl => hl.or more)
    acknowledged := h.acknowledged }

theorem final_failure_drain (s : State) (reason : Bits) :
    ∃ more, (finalFailure s reason).drain = s.drain ||| more := by
  rw [finalFailure]
  split
  · exact ⟨reason, rfl⟩
  · exact ⟨0, BitVec.or_zero.symm⟩

theorem latch_sink_drain (s : State) (kind : SinkError) :
    ∃ more, (latchSinkError s kind).drain = s.drain ||| more := by
  cases kind with
  | write => exact final_failure_drain s _
  | flush => exact final_failure_drain s _
  | worker => exact ⟨_, rfl⟩

theorem Ending.final_failure (h : Ending s) (reason : Bits) : Ending (finalFailure s reason) := by
  rw [final_failure_fields]
  exact h.latch (final_failure_drain s reason) _

theorem Ending.latch_sink (h : Ending s) (kind : SinkError) : Ending (latchSinkError s kind) := by
  rw [latch_sink_fields]
  exact h.latch (latch_sink_drain s kind) _

theorem Ending.acknowledge (h : Ending s) (hw : s.writer = .ending) :
    Ending { s with completion := true } where
  receiver := h.receiver
  lost := h.lost
  queue := h.queue
  calls := h.calls
  seen := h.seen
  stopped := h.stopped
  panicked := h.panicked
  lost_panicked := h.lost_panicked
  reported := h.reported
  marked := h.marked
  begun := h.begun
  flushed := h.flushed
  acknowledged _ := .inl hw

/-- Behind a closed output the marker is set, so the failure of the last flush is latched. -/
theorem Ending.flush_failed (h : Ending s) (hw : s.writer = .latching .finalFlush) :
    Flushed (latchSinkError s .flush) := by
  rw [latch_sink_fields]
  rcases (h.stopped (by rw [hw]; rfl)).2 with hclosed | houtput
  · rcases h.marked hclosed with hmarked | hdropped
    · refine .inr (.inl ?_)
      change Latched (finalFailure s LoggerIncomplete.flush).drain _
      rw [finalFailure, if_pos hmarked]
      exact latched_or _ _
    · exact .inr (.inr (.inl hdropped))
  · exact .inr (.inr (.inr houtput))

theorem count_ending (h : Ending s) {report : Report} (phase : s.writer = .counting report) :
    Ending { countSinkError s report.kind with writer := .latching report } := by
  cases report with
  | write => exact h.loop (by rw [phase]; rfl) rfl nofun
  | idleFlush => exact h.loop (by rw [phase]; rfl) rfl nofun
  | finalFlush =>
    exact h.goto (by rw [phase]; rfl) nofun (fun _ => .inl (by rw [phase]; rfl)) nofun
      (by rw [phase]; nofun) nofun fun hc => absurd hc (h.not_acknowledged (by rw [phase]; decide))
  | panic =>
    exact h.goto (by rw [phase]; rfl) nofun nofun (fun _ => h.panicked (.inl (by rw [phase]; rfl)))
      (fun _ => .inl rfl) nofun fun hc => absurd hc (h.not_acknowledged (by rw [phase]; decide))

theorem latch_ending (h : Ending s) {report : Report} (phase : s.writer = .latching report) :
    Ending { latchSinkError s report.kind with writer := report.resume } := by
  have hlatch := h.latch_sink report.kind
  have hphase : (latchSinkError s report.kind).writer = .latching report := by
    rw [latch_sink_fields]
    exact phase
  have hback := hlatch.not_acknowledged (by rw [hphase]; exact ⟨nofun, nofun⟩)
  cases report with
  | write => exact hlatch.loop (by rw [hphase]; rfl) rfl nofun
  | idleFlush => exact hlatch.loop (by rw [hphase]; rfl) rfl nofun
  | finalFlush =>
    exact hlatch.goto (by rw [hphase]; rfl) nofun (fun _ => .inl (by rw [hphase]; rfl)) nofun
      (by rw [hphase]; nofun) (fun _ _ => h.flush_failed phase) fun hc => absurd hc hback
  | panic =>
    exact hlatch.goto (by rw [hphase]; rfl) nofun nofun
      (fun _ => hlatch.panicked (.inl (by rw [hphase]; rfl)))
      (fun _ => .inr (latched_or _ _)) nofun fun hc => absurd hc hback

theorem writer_ending (h : Ending s) (move : WriterMove s t) : Ending t := by
  cases move with
  | expire phase => exact h.loop (by rw [phase]; rfl) rfl nofun
  | @take item rest phase _ => exact h.take (by rcases phase with hw | hw <;> rw [hw] <;> rfl) _ _
  | seeClosed phase hclosed => exact h.loop (by rw [phase]; rfl) rfl fun _ => hclosed
  | seeOpen phase either =>
    rcases either with rfl | rfl
    · exact h.loop (by rw [phase]; rfl) rfl nofun
    · exact h.loop (by rw [phase]; rfl) rfl nofun
  | written phase => exact h.loop (by rw [phase]; rfl) rfl nofun
  | writeFailed phase => exact h.loop (by rw [phase]; rfl) rfl nofun
  | flushedIdle phase => exact h.loop (by rw [phase]; rfl) rfl nofun
  | idleFailed phase => exact h.loop (by rw [phase]; rfl) rfl nofun
  | disconnect phase hqueue houtput =>
    exact h.goto (by rw [phase]; rfl) nofun (fun _ => .inr ⟨hqueue, .inr houtput⟩) nofun
      (by rw [phase]; nofun) nofun fun hc => absurd hc (h.not_acknowledged (by rw [phase]; decide))
  | drained phase hqueue =>
    exact h.goto (by rw [phase]; rfl) nofun (fun _ => .inr ⟨hqueue, .inl (h.seen phase)⟩) nofun
      (by rw [phase]; nofun) nofun fun hc => absurd hc (h.not_acknowledged (by rw [phase]; decide))
  | flushedLast phase =>
    exact h.goto (by rw [phase]; rfl) nofun (fun _ => .inl (by rw [phase]; rfl)) nofun
      (by rw [phase]; nofun) (fun _ _ => .inl rfl)
      fun hc => absurd hc (h.not_acknowledged (by rw [phase]; decide))
  | lastFailed phase =>
    exact h.goto (by rw [phase]; rfl) nofun (fun _ => .inl (by rw [phase]; rfl)) nofun
      (by rw [phase]; nofun) nofun fun hc => absurd hc (h.not_acknowledged (by rw [phase]; decide))
  | panic phase =>
    rcases phase with hw | hw | hw
    · exact h.panic (by rw [hw]; rfl) rfl rfl (h.not_acknowledged (by rw [hw]; decide))
    · exact h.panic (by rw [hw]; rfl) rfl rfl (h.not_acknowledged (by rw [hw]; decide))
    · exact h.panic (by rw [hw]; rfl) rfl rfl (h.not_acknowledged (by rw [hw]; decide))
  | count phase => exact count_ending h phase
  | latch phase => exact latch_ending h phase
  | dropRecords phase =>
    have hup : s.receiver = true := by rw [h.receiver, phase]; rfl
    have hqueue := (h.stopped (by rw [phase]; rfl)).1
    exact h.drop_receiver rfl rfl (.inr (by rw [h.lost hup, hqueue]; rfl)) nofun
      (by rw [phase]; nofun) (fun _ => h.flushed (by rw [phase]; rfl))
      (h.not_acknowledged (by rw [phase]; decide))
  | dropSink phase =>
    exact h.goto (by rw [phase]; rfl) nofun nofun nofun (by rw [phase]; nofun)
      (fun _ => h.flushed (by rw [phase]; rfl))
      fun hc => absurd hc (h.not_acknowledged (by rw [phase]; decide))
  | sinkPanic phase =>
    exact h.panic (by rw [phase]; rfl) rfl rfl (h.not_acknowledged (by rw [phase]; decide))
  | unwind phase =>
    have hpanicked := h.panicked (.inl (by rw [phase]; rfl))
    exact h.drop_receiver rfl rfl (.inl hpanicked) (fun _ => hpanicked) (fun _ => rfl) nofun
      (h.not_acknowledged (by rw [phase]; decide))
  | dropPayload phase =>
    have hpanicked := h.panicked (.inr phase)
    exact h.goto (by rw [phase]; rfl) nofun nofun nofun (by rw [phase]; nofun)
      (fun _ hp => absurd (hpanicked.symm.trans hp) (by decide))
      fun hc => absurd hc (h.not_acknowledged (by rw [phase]; decide))
  | payloadPanic phase =>
    exact h.goto (by rw [phase]; rfl) nofun nofun nofun (by rw [phase]; nofun) nofun
      fun hc => absurd hc (h.not_acknowledged (by rw [phase]; decide))
  | acknowledge phase =>
    have hending : Ending { s with writer := .ending } :=
      h.goto (by rw [phase]; rfl) nofun nofun nofun (by rw [phase]; nofun)
        (fun _ => h.flushed (by rw [phase]; rfl)) fun _ => .inl rfl
    exact hending.acknowledge rfl
  | finish phase =>
    exact h.goto (by rw [phase]; rfl) nofun nofun nofun (by rw [phase]; nofun)
      (fun _ => h.flushed (by rw [phase]; rfl)) fun _ => .inr rfl

theorem Ending.calling (h : Ending s) (houtput : s.output = true) (calls : List Call)
    (dropped : DropReason → BitVec 64) (counted : List (Item × DropReason)) (submitted : ℕ) :
    Ending { s with
      calls := calls, dropped := dropped, counted := counted, submitted := submitted } where
  receiver := h.receiver
  lost := h.lost
  queue := h.queue
  calls ho := absurd (houtput.symm.trans ho) (by decide)
  seen := h.seen
  stopped := h.stopped
  panicked := h.panicked
  lost_panicked := h.lost_panicked
  reported := h.reported
  marked := h.marked
  begun := h.begun
  flushed := h.flushed
  acknowledged := h.acknowledged

theorem call_ending (h : Ending s) (move : CallMove s t) : Ending t := by
  have hlive : ∀ {call rest}, s.calls.Perm (call :: rest) → s.output = true := by
    intro call rest hcall
    by_contra hgone
    rw [h.calls (Bool.eq_false_iff.mpr hgone)] at hcall
    exact List.cons_ne_nil _ _ hcall.nil_eq.symm
  cases move with
  | @refuse item rest hcall => exact h.calling (hlive hcall) _ s.dropped s.counted s.submitted
  | @full item rest hcall => exact h.calling (hlive hcall) _ s.dropped s.counted s.submitted
  | @count item reason rest hcall => exact h.calling (hlive hcall) _ _ _ s.submitted
  | @latch rest hcall =>
    have houtput : (finalFailure s LoggerIncomplete.dropped).output = true := by
      rw [final_failure_fields]
      exact hlive hcall
    exact (h.final_failure _).calling houtput rest _ _ _
  | @accept item rest hcall hopen hup =>
    have hcalling := h.calling (hlive hcall) rest s.dropped s.counted s.submitted
    exact { hcalling with
      queue := fun hdown => absurd (hup.symm.trans hdown) (by decide)
      stopped := fun hleaving => by
        rcases (h.stopped hleaving).2 with hclosed | houtput
        · exact absurd (hopen.symm.trans hclosed) (by decide)
        · exact absurd ((hlive hcall).symm.trans houtput) (by decide) }

theorem Ending.guarding (h : Ending s) (hmarked : Marked s.drain) (hguard : s.guard ≠ .dropped)
    {closed completion : Bool} (hclosed : s.closed = true → closed = true)
    (hcompletion : completion = true → s.completion = true) (guard : Guard)
    (sinkErrors : SinkError → BitVec 64) (finalRead : Option (List Bits)) :
    Ending { s with
      closed := closed, completion := completion, guard := guard, sinkErrors := sinkErrors
      finalRead := finalRead } where
  receiver := h.receiver
  lost := h.lost
  queue := h.queue
  calls := h.calls
  seen hw := hclosed (h.seen hw)
  stopped hw := ⟨(h.stopped hw).1, (h.stopped hw).2.imp_left hclosed⟩
  panicked := h.panicked
  lost_panicked := h.lost_panicked
  reported := h.reported
  marked _ := .inl hmarked
  begun := .inl hmarked
  flushed hw hp := (h.flushed hw hp).imp_right (Or.imp_right (Or.imp_left fun hd => absurd hd hguard))
  acknowledged hc := h.acknowledged (hcompletion hc)

theorem guard_shut (move : GuardMove s t) : s.guard ≠ .held ∧ s.guard ≠ .dropped := by
  cases move with
  | close phase | leave phase | receive phase | disconnected phase | join phase | joinPanic phase =>
    rw [phase]
    exact ⟨nofun, nofun⟩
  | expire phase | joinExpire phase | checkExpire phase | count phase | latch phase | check phase =>
    rw [phase]
    exact ⟨nofun, nofun⟩
  | read phase | complete phase | incomplete phase =>
    rw [phase]
    exact ⟨nofun, nofun⟩

theorem guard_ending (h : Ending s) (move : GuardMove s t) : Ending t := by
  obtain ⟨hheld, hguard⟩ := guard_shut move
  have hmarked : Marked s.drain := h.begun.resolve_right fun hends => hends.elim hheld hguard
  cases move with
  | close => exact h.guarding hmarked hguard (fun _ => rfl) id _ s.sinkErrors s.finalRead
  | leave => exact h.guarding hmarked hguard (fun _ => rfl) id _ s.sinkErrors s.finalRead
  | receive =>
    have hnone : false = true → s.completion = true := fun h => absurd h (by decide)
    exact h.guarding hmarked hguard id hnone _ s.sinkErrors s.finalRead
  | count => exact h.guarding hmarked hguard id id _ _ s.finalRead
  | read => exact h.guarding hmarked hguard id id _ s.sinkErrors _
  | latch =>
    exact (h.latch_sink .worker).guarding (marked_mono hmarked _) hguard id id _ s.sinkErrors
      s.finalRead
  | _ => exact h.guarding hmarked hguard id id _ s.sinkErrors s.finalRead

theorem move_ending (h : Ending s) (move : Move s t) : Ending t := by
  cases move with
  | submit record houtput => exact h.calling houtput _ s.dropped s.counted _
  | refuse houtput => exact h.calling houtput _ s.dropped s.counted s.submitted
  | call move => exact call_ending h move
  | dropOutput hcalls =>
    exact { h with
      calls := fun _ => hcalls
      stopped := fun hleaving => ⟨(h.stopped hleaving).1, .inr rfl⟩
      flushed := fun _ _ => .inr (.inr (.inr rfl)) }
  | writer move => exact writer_ending h move
  | beginShutdown => exact h.latch ⟨draining, rfl⟩ s.failures
  | shutdown phase =>
    have hbegun : Ending (beginShutdown s) := h.latch ⟨draining, rfl⟩ s.failures
    have hguard : (beginShutdown s).guard ≠ .dropped := by
      rw [show (beginShutdown s).guard = .held from phase]
      nofun
    exact hbegun.guarding (marked_or _) hguard id id _ s.sinkErrors s.finalRead
  | guard move => exact guard_ending h move
  | dropGuard =>
    exact { h with
      seen := fun _ => rfl
      stopped := fun hleaving => ⟨(h.stopped hleaving).1, .inl rfl⟩
      marked := fun _ => .inr rfl
      begun := .inr (.inr rfl)
      flushed := fun _ _ => .inr (.inr (.inl rfl)) }

theorem reachable_ending (h : logger.Reachable s) : Ending s := by
  refine h.induction ?_ fun s e t _ hs (hstep : step s e = some t) =>
    move_ending hs (step_cases hstep)
  exact {
    receiver := rfl
    lost := fun _ => rfl
    queue := fun _ => rfl
    calls := fun _ => rfl
    seen := nofun
    stopped := nofun
    panicked := nofun
    lost_panicked := fun hlost => absurd rfl hlost
    reported := nofun
    marked := nofun
    begun := .inr (.inl rfl)
    flushed := nofun
    acknowledged := nofun }

def Call.item : Call → Option Item
  | .submitting item => some item
  | .dropping item _ => item
  | .latching => none

/-- A submission is counted under a full queue or a closed output, the layer's own drops under the
other reasons. -/
def Call.Proper : Call → Prop
  | .dropping (some _) reason => reason = .queueFull ∨ reason = .closed
  | .dropping none reason => reason ≠ .queueFull ∧ reason ≠ .closed
  | _ => True

def tickets (s : State) : List ℕ :=
  (s.calls.filterMap Call.item ++ s.admitted ++ s.counted.map Prod.fst).map Item.ticket

structure Accounts (s : State) : Prop where
  places : s.admitted = s.handed ++ s.lost ++ s.queue
  tickets : (tickets s).Perm (List.range s.submitted)
  proper : ∀ call ∈ s.calls, Call.Proper call
  reasons : ∀ entry ∈ s.counted, entry.2 = .queueFull ∨ entry.2 = .closed
  counters : ∀ reason, reason = .queueFull ∨ reason = .closed →
    s.dropped reason = BitVec.ofNat 64 (s.counted.countP fun entry => entry.2 = reason)

theorem writer_accounts (h : Accounts s) (hending : Ending s) (move : WriterMove s t) :
    Accounts t := by
  obtain ⟨hplaces, htickets, hproper, hreasons, hcounters⟩ := h
  cases move with
  | @take item rest phase hqueue =>
    have hup : s.receiver = true := by
      rw [hending.receiver]
      rcases phase with hw | hw <;> rw [hw] <;> rfl
    refine ⟨?_, htickets, hproper, hreasons, hcounters⟩
    simp [hand, hplaces, hqueue, hending.lost hup]
  | dropRecords =>
    refine ⟨?_, htickets, hproper, hreasons, hcounters⟩
    simp [dropReceiver, hplaces]
  | unwind =>
    refine ⟨?_, htickets, hproper, hreasons, hcounters⟩
    simp [dropReceiver, hplaces]
  | latch =>
    rw [latch_sink_fields]
    exact ⟨hplaces, htickets, hproper, hreasons, hcounters⟩
  | _ => exact ⟨hplaces, htickets, hproper, hreasons, hcounters⟩

theorem tickets_call {call : Call} {rest : List Call} (h : s.calls.Perm (call :: rest)) :
    (tickets s).Perm (((Call.item call).toList ++ (rest.filterMap Call.item ++ s.admitted ++
      s.counted.map Prod.fst)).map Item.ticket) := by
  apply List.Perm.map
  rw [List.append_assoc, List.append_assoc, ← List.append_assoc (Call.item call).toList]
  apply List.Perm.append_right
  cases hitem : Call.item call with
  | none => simpa [hitem] using h.filterMap Call.item
  | some item => simpa [hitem] using h.filterMap Call.item

theorem call_accounts (h : Accounts s) (move : CallMove s t) : Accounts t := by
  obtain ⟨hplaces, htickets, hproper, hreasons, hcounters⟩ := h
  cases move with
  | @refuse item rest hcall =>
    have hrest := List.forall_mem_cons.mp fun call hmem => hproper call (hcall.mem_iff.mpr hmem)
    refine ⟨hplaces, ?_, List.forall_mem_cons.mpr ⟨.inr rfl, hrest.2⟩, hreasons, hcounters⟩
    exact (tickets_call hcall).symm.trans htickets
  | @full item rest hcall =>
    have hrest := List.forall_mem_cons.mp fun call hmem => hproper call (hcall.mem_iff.mpr hmem)
    refine ⟨hplaces, ?_, List.forall_mem_cons.mpr ⟨.inl rfl, hrest.2⟩, hreasons, hcounters⟩
    exact (tickets_call hcall).symm.trans htickets
  | @accept item rest hcall =>
    have hrest := List.forall_mem_cons.mp fun call hmem => hproper call (hcall.mem_iff.mpr hmem)
    refine ⟨?_, ?_, hrest.2, hreasons, hcounters⟩
    · simp only [hplaces, List.append_assoc]
    · refine List.Perm.trans (List.Perm.map _ ?_) ((tickets_call hcall).symm.trans htickets)
      rw [← List.append_assoc, List.append_assoc]
      exact List.perm_middle
  | @count item reason rest hcall =>
    have hrest := List.forall_mem_cons.mp fun call hmem => hproper call (hcall.mem_iff.mpr hmem)
    obtain ⟨hown, hothers⟩ := hrest
    have hcall' := (tickets_call hcall).symm.trans htickets
    have hproper' : ∀ call ∈ Call.latching :: rest, Call.Proper call :=
      List.forall_mem_cons.mpr ⟨trivial, hothers⟩
    cases item with
    | none =>
      have hcounted : s.counted ++ ((none : Option Item).map fun item => (item, reason)).toList =
          s.counted := List.append_nil _
      refine ⟨hplaces, ?_, hproper', by rwa [hcounted], ?_⟩
      · simp only [tickets, hcounted]
        exact hcall'
      · intro r hr
        have hne : r ≠ reason := by
          rintro rfl
          exact hr.elim hown.1 hown.2
        simp only [countDropped, hne, if_false, hcounted]
        exact hcounters r hr
    | some item =>
      refine ⟨hplaces, ?_, hproper', ?_, ?_⟩
      · refine List.Perm.trans (List.Perm.map _ ?_) hcall'
        simp only [Option.map_some, Option.toList_some, List.map_append, List.map_cons, List.map_nil]
        rw [← List.append_assoc]
        exact List.perm_append_singleton _ _
      · intro entry hentry
        rcases List.mem_append.mp hentry with hentry | hentry
        · exact hreasons entry hentry
        · exact List.mem_singleton.mp hentry ▸ hown
      · intro r hr
        have hbefore := hcounters r hr
        by_cases hreason : r = reason
        · subst hreason
          simp [countDropped, hbefore, BitVec.ofNat_add]
        · simp [countDropped, hbefore, hreason, Ne.symm hreason]
  | @latch rest hcall =>
    have hrest := List.forall_mem_cons.mp fun call hmem => hproper call (hcall.mem_iff.mpr hmem)
    rw [final_failure_fields]
    exact ⟨hplaces, (tickets_call hcall).symm.trans htickets, hrest.2, hreasons, hcounters⟩

theorem guard_accounts (h : Accounts s) (move : GuardMove s t) : Accounts t := by
  obtain ⟨hplaces, htickets, hproper, hreasons, hcounters⟩ := h
  cases move with
  | _ => exact ⟨hplaces, htickets, hproper, hreasons, hcounters⟩

theorem move_accounts (h : Accounts s) (hending : Ending s) (move : Move s t) : Accounts t := by
  obtain ⟨hplaces, htickets, hproper, hreasons, hcounters⟩ := id h
  cases move with
  | submit record =>
    refine ⟨hplaces, ?_, List.forall_mem_cons.mpr ⟨trivial, hproper⟩, hreasons, hcounters⟩
    rw [List.range_succ]
    exact (htickets.cons _).trans (List.perm_append_singleton _ _).symm
  | refuse _ hown =>
    exact ⟨hplaces, htickets, List.forall_mem_cons.mpr ⟨hown, hproper⟩, hreasons, hcounters⟩
  | call move => exact call_accounts h move
  | writer move => exact writer_accounts h hending move
  | guard move => exact guard_accounts h move
  | _ => exact ⟨hplaces, htickets, hproper, hreasons, hcounters⟩

theorem reachable_accounts (h : logger.Reachable s) : Accounts s := by
  refine h.induction ?_ fun s e t hr hs (hstep : step s e = some t) =>
    move_accounts hs (reachable_ending hr) (step_cases hstep)
  exact ⟨rfl, .nil, nofun, nofun, fun _ _ => rfl⟩

def Failures (s : State) : Prop :=
  ∀ reason ∈ s.failures, Latched s.drain reason ∧ reason &&& ~~~draining ≠ 0

theorem failures_or (h : Failures s) (more : Bits) :
    Failures { s with drain := s.drain ||| more } := fun reason hmem =>
  ⟨(h reason hmem).1.or more, (h reason hmem).2⟩

theorem failures_final (h : Failures s) {reason : Bits} (hreason : reason &&& ~~~draining ≠ 0) :
    Failures (finalFailure s reason) := by
  rw [finalFailure]
  split
  · intro other hmem
    rcases List.mem_append.mp hmem with hmem | hmem
    · exact failures_or h reason other hmem
    · rw [List.mem_singleton.mp hmem]
      exact ⟨latched_or _ _, hreason⟩
  · exact h

theorem failures_sink (h : Failures s) (kind : SinkError) : Failures (latchSinkError s kind) := by
  cases kind with
  | write => exact failures_final h (by decide)
  | flush => exact failures_final h (by decide)
  | worker => exact failures_or h _

theorem move_failures (h : Failures s) (move : Move s t) : Failures t := by
  cases move with
  | call move =>
    cases move with
    | latch => exact failures_final h (by decide)
    | _ => exact h
  | writer move =>
    cases move with
    | @latch report => exact failures_sink h report.kind
    | _ => exact h
  | guard move =>
    cases move with
    | latch => exact failures_or h _
    | _ => exact h
  | beginShutdown => exact failures_or h _
  | shutdown => exact failures_or h _
  | _ => exact h

theorem reachable_failures (h : logger.Reachable s) : Failures s := by
  refine h.induction ?_ fun s e t _ hs (hstep : step s e = some t) =>
    move_failures hs (step_cases hstep)
  exact nofun

def shut : Guard → Bool
  | .held | .closing => false
  | _ => true

/-- The shutdown is about to return, or has returned, that all is complete. -/
def Complete : Guard → Prop
  | .summing reasons => reasons = 0
  | .leaving (.completed _) | .returned (.completed _) => True
  | _ => False

structure Vouched (s : State) : Prop where
  writer : s.writer = .finished
  panicked : s.panicked = false
  flushed : s.output = true → s.flushedAt = some s.handed.length
  finalRead : s.finalRead = some []

structure Clean (s : State) : Prop where
  shut : shut s.guard = true → s.closed = true
  joined : s.guard = .joining 0 → s.writer = .ending ∨ s.writer = .finished
  checked : s.guard = .checking 0 ∨ s.guard = .reading 0 → s.writer = .finished
  complete : Complete s.guard → Vouched s

theorem unfinished {w : Writer} (phase : s.writer = w) (hw : w ≠ .finished ∧ w ≠ .ending) :
    s.writer ≠ .finished ∧ (s.writer = .ending → t.writer = .finished) :=
  ⟨phase ▸ hw.1, fun he => absurd (phase.symm.trans he) hw.2⟩

/-- A finished writer takes no step, and the last step finishes it. -/
theorem writer_unfinished (move : WriterMove s t) :
    s.writer ≠ .finished ∧ (s.writer = .ending → t.writer = .finished) := by
  cases move with
  | finish phase => exact ⟨by rw [phase]; decide, fun _ => rfl⟩
  | take phase =>
    rcases phase with hw | hw
    · exact unfinished hw (by decide)
    · exact unfinished hw (by decide)
  | panic phase =>
    rcases phase with hw | hw | hw
    · exact unfinished hw (by decide)
    · exact unfinished hw (by decide)
    · exact unfinished hw (by decide)
  | count phase | latch phase => exact unfinished phase ⟨nofun, nofun⟩
  | expire phase | disconnect phase | seeClosed phase | seeOpen phase | drained phase =>
    exact unfinished phase (by decide)
  | written phase | writeFailed phase | flushedIdle phase | idleFailed phase | flushedLast phase =>
    exact unfinished phase (by decide)
  | lastFailed phase | dropRecords phase | dropSink phase | sinkPanic phase | unwind phase =>
    exact unfinished phase (by decide)
  | dropPayload phase | payloadPanic phase | acknowledge phase => exact unfinished phase (by decide)

theorem writer_frame (move : WriterMove s t) : t.guard = s.guard ∧ t.closed = s.closed := by
  cases move with
  | latch =>
    rw [latch_sink_fields]
    exact ⟨rfl, rfl⟩
  | _ => exact ⟨rfl, rfl⟩

theorem writer_clean (h : Clean s) (move : WriterMove s t) : Clean t := by
  obtain ⟨hguard, hclosed⟩ := writer_frame move
  obtain ⟨hunfinished, hlast⟩ := writer_unfinished move
  constructor
  · rw [hguard, hclosed]
    exact h.shut
  · rw [hguard]
    exact fun hjoining => (h.joined hjoining).elim (fun hw => .inr (hlast hw))
      fun hw => absurd hw hunfinished
  · rw [hguard]
    exact fun hchecked => absurd (h.checked hchecked) hunfinished
  · rw [hguard]
    exact fun hcomplete => absurd (h.complete hcomplete).writer hunfinished

theorem call_clean (h : Clean s) (move : CallMove s t) : Clean t := by
  cases move with
  | latch =>
    rw [final_failure_fields]
    exact ⟨h.shut, h.joined, h.checked, fun hc => ⟨(h.complete hc).writer, (h.complete hc).panicked,
      (h.complete hc).flushed, (h.complete hc).finalRead⟩⟩
  | _ =>
    exact ⟨h.shut, h.joined, h.checked, fun hc => ⟨(h.complete hc).writer, (h.complete hc).panicked,
      (h.complete hc).flushed, (h.complete hc).finalRead⟩⟩

theorem or_ne_zero {a b : Bits} (h : b ≠ 0) : a ||| b ≠ 0 := fun hzero =>
  h (BitVec.or_eq_zero_iff.mp hzero).2

/-- No reason at the final read: no panic, no failure since the marker, and a last flush. -/
theorem read_vouched (h : Clean s) (hending : Ending s) (hfailures : Failures s) {reasons : Bits}
    (phase : s.guard = .reading reasons) (hzero : reasons ||| (s.drain &&& ~~~draining) = 0) :
    Vouched { s with
      finalRead := some s.failures, guard := .summing (reasons ||| (s.drain &&& ~~~draining)) } := by
  obtain ⟨rfl, hdrain⟩ := BitVec.or_eq_zero_iff.mp hzero
  have hfinished := h.checked (.inr phase)
  have hpanicked : s.panicked = false := by
    by_contra hpanic
    rcases hending.reported (Bool.not_eq_false _ ▸ hpanic) with hunwound | hworker
    · rw [hfinished] at hunwound
      cases hunwound
    · exact unlatched hdrain (by decide) hworker
  refine ⟨hfinished, hpanicked, fun houtput => ?_, ?_⟩
  · rcases hending.flushed (by rw [hfinished]; rfl) hpanicked with hflush | hlatched | hgone | hgone
    · exact hflush
    · exact absurd hlatched (unlatched hdrain (by decide))
    · rw [phase] at hgone
      cases hgone
    · exact absurd (houtput.symm.trans hgone) (by decide)
  · rw [Option.some.injEq, List.eq_nil_iff_forall_not_mem]
    exact fun reason hmem => unlatched hdrain (hfailures reason hmem).2 (hfailures reason hmem).1

theorem unclean {g : Guard} {reasons : Bits} (hreasons : reasons ≠ 0)
    (hg : g = .checking reasons ∨ g = .reading reasons) :
    g ≠ .joining 0 ∧ ¬ (g = .checking 0 ∨ g = .reading 0) ∧ ¬ Complete g := by
  rcases hg with rfl | rfl
  · refine ⟨nofun, ?_, nofun⟩
    rintro (hzero | hzero)
    · exact hreasons (Guard.checking.inj hzero)
    · cases hzero
  · refine ⟨nofun, ?_, nofun⟩
    rintro (hzero | hzero)
    · cases hzero
    · exact hreasons (Guard.reading.inj hzero)

theorem guard_clean (h : Clean s) (hending : Ending s) (hfailures : Failures s)
    (move : GuardMove s t) : Clean t := by
  cases move with
  | expire phase =>
    obtain ⟨hj, hc, hv⟩ := unclean (g := .checking LoggerIncomplete.deadline) (by decide) (.inl rfl)
    exact ⟨fun _ => h.shut (by rw [phase]; rfl), fun he => absurd he hj, fun he => absurd he hc,
      fun he => absurd he hv⟩
  | @joinExpire reasons phase =>
    obtain ⟨hj, hc, hv⟩ := unclean (g := .checking (reasons ||| LoggerIncomplete.deadline))
      (or_ne_zero (by decide)) (.inl rfl)
    exact ⟨fun _ => h.shut (by rw [phase]; rfl), fun he => absurd he hj, fun he => absurd he hc,
      fun he => absurd he hv⟩
  | @checkExpire reasons phase =>
    obtain ⟨hj, hc, hv⟩ := unclean (g := .reading (reasons ||| LoggerIncomplete.deadline))
      (or_ne_zero (by decide)) (.inr rfl)
    exact ⟨fun _ => h.shut (by rw [phase]; rfl), fun he => absurd he hj, fun he => absurd he hc,
      fun he => absurd he hv⟩
  | @latch reasons phase =>
    obtain ⟨hj, hc, hv⟩ := unclean (g := .checking (reasons ||| LoggerIncomplete.worker))
      (or_ne_zero (by decide)) (.inl rfl)
    exact ⟨fun _ => h.shut (by rw [phase]; rfl), fun he => absurd he hj, fun he => absurd he hc,
      fun he => absurd he hv⟩
  | close => exact ⟨fun _ => rfl, nofun, nofun, nofun⟩
  | receive phase hcompletion =>
    exact ⟨fun _ => h.shut (by rw [phase]; rfl), fun _ => hending.acknowledged hcompletion, nofun,
      nofun⟩
  | disconnected phase =>
    refine ⟨fun _ => h.shut (by rw [phase]; rfl), fun he => ?_, nofun, nofun⟩
    exact absurd (Guard.joining.inj he) (by decide)
  | join phase hwriter =>
    exact ⟨fun _ => h.shut (by rw [phase]; rfl), nofun, fun _ => hwriter, nofun⟩
  | joinPanic phase | count phase =>
    exact ⟨fun _ => h.shut (by rw [phase]; rfl), nofun, nofun, nofun⟩
  | check phase =>
    refine ⟨fun _ => h.shut (by rw [phase]; rfl), nofun, fun he => h.checked ?_, nofun⟩
    rcases he with he | he
    · cases he
    · exact .inl (by rw [phase, Guard.reading.inj he])
  | read phase =>
    exact ⟨fun _ => h.shut (by rw [phase]; rfl), nofun, nofun, read_vouched h hending hfailures phase⟩
  | complete phase =>
    have hvouched := h.complete (by rw [phase]; rfl)
    exact ⟨fun _ => h.shut (by rw [phase]; rfl), nofun, nofun, fun _ =>
      ⟨hvouched.writer, hvouched.panicked, hvouched.flushed, hvouched.finalRead⟩⟩
  | incomplete phase => exact ⟨fun _ => h.shut (by rw [phase]; rfl), nofun, nofun, nofun⟩
  | @leave result phase =>
    refine ⟨fun _ => rfl, nofun, nofun, fun he => ?_⟩
    have hcomplete : Complete (.leaving result) := by
      cases result with
      | completed => trivial
      | incomplete => exact he
    have hvouched := h.complete (phase ▸ hcomplete)
    exact ⟨hvouched.writer, hvouched.panicked, hvouched.flushed, hvouched.finalRead⟩

theorem move_clean (h : Clean s) (hending : Ending s) (hfailures : Failures s) (move : Move s t) :
    Clean t := by
  cases move with
  | call move => exact call_clean h move
  | writer move => exact writer_clean h move
  | guard move => exact guard_clean h hending hfailures move
  | dropOutput =>
    exact ⟨h.shut, h.joined, h.checked, fun hc => ⟨(h.complete hc).writer, (h.complete hc).panicked,
      nofun, (h.complete hc).finalRead⟩⟩
  | shutdown phase => exact ⟨nofun, nofun, nofun, nofun⟩
  | dropGuard phase => exact ⟨fun _ => rfl, nofun, nofun, nofun⟩
  | submit | refuse | beginShutdown =>
    exact ⟨h.shut, h.joined, h.checked, fun hc => ⟨(h.complete hc).writer, (h.complete hc).panicked,
      (h.complete hc).flushed, (h.complete hc).finalRead⟩⟩

theorem reachable_clean (h : logger.Reachable s) : Clean s := by
  refine h.induction ?_ fun s e t hr hs (hstep : step s e = some t) =>
    move_clean hs (reachable_ending hr) (reachable_failures hr) (step_cases hstep)
  exact ⟨nofun, nofun, nofun, nofun⟩

structure Grows (s t : State) : Prop where
  drain : Latched t.drain s.drain
  closed : s.closed = true → t.closed = true ∧ t.admitted = s.admitted
  handed : s.handed <+: t.handed

theorem Grows.refl (s : State) : Grows s s := ⟨latched_self _, fun h => ⟨h, rfl⟩, List.prefix_rfl⟩

theorem Grows.trans {u : State} (h : Grows s t) (k : Grows t u) : Grows s u where
  drain := by
    rw [Latched, ← k.drain, BitVec.or_assoc, h.drain]
  closed hc := by
    obtain ⟨hclosed, hadmitted⟩ := h.closed hc
    obtain ⟨hclosed', hadmitted'⟩ := k.closed hclosed
    exact ⟨hclosed', hadmitted'.trans hadmitted⟩
  handed := h.handed.trans k.handed

theorem grows_latch (h : ∃ more, t.drain = s.drain ||| more) (hclosed : t.closed = s.closed)
    (hadmitted : t.admitted = s.admitted) (hhanded : t.handed = s.handed) : Grows s t where
  drain := by
    obtain ⟨more, hdrain⟩ := h
    rw [hdrain]
    exact (latched_self s.drain).or more
  closed hc := ⟨hclosed.trans hc, hadmitted⟩
  handed := hhanded ▸ List.prefix_rfl

theorem grows_final (s : State) (reason : Bits) : Grows s (finalFailure s reason) := by
  have h := final_failure_drain s reason
  rw [final_failure_fields] at h ⊢
  exact grows_latch h rfl rfl rfl

theorem grows_sink (s : State) (kind : SinkError) : Grows s (latchSinkError s kind) := by
  have h := latch_sink_drain s kind
  rw [latch_sink_fields] at h ⊢
  exact grows_latch h rfl rfl rfl

theorem writer_grows (move : WriterMove s t) : Grows s t := by
  cases move with
  | take => exact ⟨latched_self _, fun h => ⟨h, rfl⟩, List.prefix_append _ _⟩
  | @latch report =>
    have h := grows_sink s report.kind
    exact ⟨h.drain, h.closed, h.handed⟩
  | _ => exact ⟨latched_self _, fun h => ⟨h, rfl⟩, List.prefix_rfl⟩

theorem move_grows (move : Move s t) : Grows s t := by
  cases move with
  | call move =>
    cases move with
    | accept _ hopen =>
      refine ⟨latched_self _, fun hclosed => ?_, List.prefix_rfl⟩
      exact absurd (hopen.symm.trans hclosed) (by decide)
    | latch =>
      have h := grows_final s LoggerIncomplete.dropped
      exact ⟨h.drain, h.closed, h.handed⟩
    | _ => exact ⟨latched_self _, fun h => ⟨h, rfl⟩, List.prefix_rfl⟩
  | writer move => exact writer_grows move
  | guard move =>
    cases move with
    | latch => exact grows_latch ⟨LoggerIncomplete.worker, rfl⟩ rfl rfl rfl
    | close | leave => exact ⟨latched_self _, fun _ => ⟨rfl, rfl⟩, List.prefix_rfl⟩
    | _ => exact ⟨latched_self _, fun h => ⟨h, rfl⟩, List.prefix_rfl⟩
  | beginShutdown => exact grows_latch ⟨draining, rfl⟩ rfl rfl rfl
  | shutdown => exact grows_latch ⟨draining, rfl⟩ rfl rfl rfl
  | dropGuard => exact ⟨latched_self _, fun _ => ⟨rfl, rfl⟩, List.prefix_rfl⟩
  | _ => exact ⟨latched_self _, fun h => ⟨h, rfl⟩, List.prefix_rfl⟩

theorem execution_grows (h : logger.Execution s t) : Grows s t :=
  h.preserves (fun _ _ _ hs (hstep : step _ _ = some _) => hs.trans (move_grows (step_cases hstep)))
    (Grows.refl s)

/-- A record in every reachable state is with its submitting call, handed to the sink in the order
of admission, lost with the queue of a panicked writer, queued, or counted. -/
theorem records_accounted (s : State) (h : logger.Reachable s) :
    (s.admitted = s.handed ++ s.lost ++ s.queue ∧
      ((s.calls.filterMap Call.item ++ (s.handed ++ s.lost ++ s.queue) ++
        s.counted.map Prod.fst).map Item.ticket).Perm (List.range s.submitted)) ∧
    (∀ entry ∈ s.counted, entry.2 = .queueFull ∨ entry.2 = .closed) ∧
    (∀ reason, reason = .queueFull ∨ reason = .closed →
      s.dropped reason = BitVec.ofNat 64 (s.counted.countP fun entry => entry.2 = reason)) ∧
    (s.lost ≠ [] → s.panicked = true ∧
      (unwound s.writer = true ∨ Latched s.drain LoggerIncomplete.worker)) ∧
    (∀ summary, s.guard = .returned (.completed summary) → s.closed = true ∧
      s.handed = s.admitted ∧ (s.output = true → s.flushedAt = some s.admitted.length) ∧
      s.finalRead = some []) ∧
    ∀ t, logger.Execution s t → Latched t.drain s.drain ∧
      (s.closed = true → t.admitted = s.admitted) ∧ s.handed <+: t.handed := by
  have haccounts := reachable_accounts h
  have hending := reachable_ending h
  have hclean := reachable_clean h
  refine ⟨⟨haccounts.places, ?_⟩, haccounts.reasons, haccounts.counters, ?_, ?_, ?_⟩
  · rw [← haccounts.places]
    exact haccounts.tickets
  · intro hlost
    have hpanicked := hending.lost_panicked hlost
    exact ⟨hpanicked, hending.reported hpanicked⟩
  · intro summary hguard
    have hvouched := hclean.complete (by rw [hguard]; trivial)
    have hlost : s.lost = [] := by
      by_contra hlost
      exact absurd (hvouched.panicked.symm.trans (hending.lost_panicked hlost)) (by decide)
    have hqueue : s.queue = [] := hending.queue (by rw [hending.receiver, hvouched.writer]; rfl)
    have hhanded : s.handed = s.admitted := by
      rw [haccounts.places, hlost, hqueue, List.append_nil, List.append_nil]
    exact ⟨hclean.shut (by rw [hguard]; rfl), hhanded,
      fun houtput => hhanded ▸ hvouched.flushed houtput, hvouched.finalRead⟩
  · intro t ht
    have hgrows := execution_grows ht
    exact ⟨hgrows.drain, fun hc => (hgrows.closed hc).2, hgrows.handed⟩

/-- One record is submitted, written and flushed, and the shutdown completes. -/
def oneRecord : List Event :=
  [.submit ⟨[], Nat.zero_le _⟩, .call 0, .writer .ok, .shutdown, .writer .ok, .guard .ok,
    .writer .timeout, .writer .ok, .writer .ok, .writer .ok, .writer .ok, .writer .ok, .writer .ok,
    .writer .ok, .guard .ok, .guard .ok, .guard .ok, .guard .ok, .guard .ok, .guard .ok]

theorem one_record_accounted : ∃ s summary, logger.run start oneRecord = some s ∧
    s.guard = .returned (.completed summary) ∧ s.handed.length = 1 ∧ s.handed = s.admitted ∧
    s.flushedAt = some 1 := by
  refine ⟨_, _, rfl, rfl, rfl, ?_⟩
  have h := records_accounted _ ⟨oneRecord, rfl⟩
  exact ⟨(h.2.2.2.2.1 _ rfl).2.1, (h.2.2.2.2.1 _ rfl).2.2.1 rfl⟩

end LogAccounting
