import ServiceTemplate.JobsBatch
import ServiceTemplate.TransitionSystem

/-! Supervisors completing their jobs through one shared queue. The writer lock holder takes the
whole queue as a batch, prunes it, sends one statement and answers every entry; registrations,
answers, failures and cancellation interleave at every step of it. -/
namespace JobsCompletion

open JobsTable
open JobsBatch
open TransitionSystem

/-- `reply` numbers the registration: it names its membership, its slots and its sender. -/
structure QueuedCompletion where
  id : JobId
  generation : ℕ
  deadline : ℕ
  reply : ℕ
  deriving DecidableEq, Repr

def QueuedCompletion.key (queued : QueuedCompletion) : Key := (queued.id, queued.generation)

structure CompletionBatch where
  queued : List QueuedCompletion
  ids : List JobId
  generations : List ℕ
  prunedReplies : List ℕ
  deriving DecidableEq, Repr

def CompletionBatch.new (queued : List QueuedCompletion) : CompletionBatch := ⟨queued, [], [], []⟩

/-- `prune` of the entry at `index`; its custody ends beside. -/
def CompletionBatch.prune (batch : CompletionBatch) (index : ℕ) (reply : ℕ) : CompletionBatch :=
  { batch with
    queued := swapRemove batch.queued index, prunedReplies := batch.prunedReplies ++ [reply] }

def CompletionBatch.deadline (batch : CompletionBatch) : Option ℕ :=
  (batch.queued.map QueuedCompletion.deadline).min?

def CompletionBatch.bind (batch : CompletionBatch) : CompletionBatch :=
  { batch with
    ids := batch.ids ++ batch.queued.map QueuedCompletion.id
    generations := batch.generations ++ batch.queued.map QueuedCompletion.generation }

def CompletionBatch.keys (batch : CompletionBatch) : List Key := batch.ids.zip batch.generations

/-- `retire` frees the two arrays before the first entry. -/
def CompletionBatch.unbind (batch : CompletionBatch) : CompletionBatch :=
  { batch with ids := [], generations := [] }

inductive Reply where
  | waiting
  | sent (answer : Answer)
  | closed
  deriving DecidableEq

/-- A sender is given an answer or dropped. -/
def Reply.ofAnswer : Option Answer → Reply
  | none => .closed
  | some answer => .sent answer

/-- `zip`: a sender without a result is dropped. -/
def zipAnswers : List ℕ → List Answer → List (ℕ × Option Answer)
  | [], _ => []
  | reply :: replies, answers => (reply, answers.head?) :: zipAnswers replies answers.tail

/-- What `finish` sends, the pruned senders closed first, or what a dropped batch closes. -/
def owed (pruned senders : List ℕ) : Option (List Answer) → List (ℕ × Option Answer)
  | none => (senders ++ pruned).map fun reply => (reply, none)
  | some answers => pruned.map (fun reply => (reply, none)) ++ zipAnswers senders answers

inductive Stage where
  | free
  | taking (owner : Key)
  | pruning (owner : Key) (batch : CompletionBatch) (index : ℕ)
  | executing (owner : Key) (batch : CompletionBatch) (deadline : ℕ)
      (completed : Option (List Key))
  | retiring (owner : Key) (batch : CompletionBatch) (senders : List ℕ)
      (answers : Option (List Answer))
  | delivering (owner : Key) (owed : List (ℕ × Option Answer))

/-- The supervisor of one claim. It registers again only after an answer that does not end
`persist`, and never after it was cancelled. -/
inductive Waiter where
  | idle
  | locking (reply : ℕ)
  | writing (reply : ℕ) (cancelled : Bool)
  | awaiting (reply : ℕ)
  | abandoned (reply : ℕ)
  | leaving (reply : ℕ) (cancelled : Bool)
  | gone (reply : ℕ)
  deriving DecidableEq, Repr

def Waiter.reply : Waiter → Option ℕ
  | .idle => none
  | .locking reply | .writing reply _ | .awaiting reply | .abandoned reply | .leaving reply _
  | .gone reply => some reply

/-- After `drop(writer)`. -/
def Waiter.unlocked : Waiter → Waiter
  | .writing reply false => .awaiting reply
  | .writing reply true => .abandoned reply
  | waiter => waiter

/-- After the registration was dropped with this reply. -/
def Waiter.after (reply : ℕ) (cancelled : Bool) (answer : Reply) : Waiter :=
  if cancelled then .gone reply
  else match answer with
    | .sent (.ok _) => .gone reply
    | _ => .idle

/-- The fields from `registered` on are what was observed of each registration: its pair, the
batch that took it, what it still owns, its sender, whether its receiver lives, what the
statement did to its row and whether an answer of the statement was read. -/
structure State where
  rows : List Row
  clock : ℕ
  ended : Bool
  queue : List QueuedCompletion
  stage : Stage
  waiters : Key → Waiter
  registered : ℕ
  batches : ℕ
  keyOf : ℕ → Key
  batchOf : ℕ → Option ℕ
  membership : ℕ → Bool
  slots : ℕ → Bool
  retired : List ℕ
  replies : ℕ → Reply
  receivers : ℕ → Bool
  completed : ℕ → Option Bool
  answered : ℕ → Bool

def initial : State where
  rows := []
  clock := 0
  ended := false
  queue := []
  stage := .free
  waiters := fun _ => .idle
  registered := 0
  batches := 0
  keyOf := fun _ => (0, 0)
  batchOf := fun _ => none
  membership := fun _ => false
  slots := fun _ => false
  retired := []
  replies := fun _ => .waiting
  receivers := fun _ => false
  completed := fun _ => none
  answered := fun _ => false

inductive Event where
  | register (key : Key) (deadline : ℕ)
  | lock (key : Key)
  | advance
  | run (now : Time)
  | answer (positions : List ℤ)
  | fail
  | expire
  | receive (key : Key)
  | cancel (key : Key)
  | dropResponse (key : Key)
  | dropRegistration (key : Key)
  | tick (micros : ℕ)
  | endCleanup
  | environment (rows : List Row)

def State.expired (s : State) (deadline : ℕ) : Bool := deadline ≤ s.clock || s.ended

def State.setWaiter (s : State) (key : Key) (waiter : Waiter) : State :=
  { s with waiters := fun other => if other = key then waiter else s.waiters other }

def State.register (s : State) (key : Key) (deadline : ℕ) : State :=
  let reply := s.registered
  { s.setWaiter key (.locking reply) with
    queue := s.queue ++ [⟨key.1, key.2, deadline, reply⟩]
    registered := s.registered + 1
    keyOf := fun other => if other = reply then key else s.keyOf other
    membership := fun other => if other = reply then true else s.membership other
    slots := fun other => if other = reply then true else s.slots other
    receivers := fun other => if other = reply then true else s.receivers other }

/-- `mem::take` of the queue. -/
def State.take (s : State) (owner : Key) : State :=
  { s with
    queue := []
    stage := .pruning owner (.new s.queue) 0
    batches := s.batches + 1
    batchOf := fun reply =>
      if reply ∈ s.queue.map QueuedCompletion.reply then some s.batches else s.batchOf reply }

/-- The membership and the slots of one entry go; its sender stays. -/
def State.retire (s : State) (reply : ℕ) : State :=
  { s with
    membership := fun other => if other = reply then false else s.membership other
    slots := fun other => if other = reply then false else s.slots other
    retired := s.retired ++ [reply] }

def State.settle (s : State) (reply : ℕ) (answer : Option Answer) : State :=
  { s with replies := fun other => if other = reply then .ofAnswer answer else s.replies other }

def State.setStage (s : State) (stage : Stage) : State := { s with stage := stage }

/-- The next step of the lock holder between two awaits. -/
def State.advance (s : State) : Option State :=
  match s.stage with
  | .free => none
  | .executing _ _ _ _ => none
  | .taking owner => some (s.take owner)
  | .pruning owner batch index =>
    match batch.queued[index]? with
    | some queued =>
      if !s.receivers queued.reply || s.expired queued.deadline then
        some ((s.retire queued.reply).setStage
          (.pruning owner (batch.prune index queued.reply) index))
      else some (s.setStage (.pruning owner batch (index + 1)))
    | none =>
      match batch.deadline with
      | none => some (s.setStage (.retiring owner batch.unbind [] none))
      | some deadline => some (s.setStage (.executing owner batch.bind deadline none))
  | .retiring owner batch senders answers =>
    match batch.queued with
    | queued :: rest =>
      some ((s.retire queued.reply).setStage
        (.retiring owner { batch with queued := rest } (senders ++ [queued.reply]) answers))
    | [] => some (s.setStage (.delivering owner (owed batch.prunedReplies senders answers)))
  | .delivering owner ((reply, answer) :: rest) =>
    some ((s.settle reply answer).setStage (.delivering owner rest))
  | .delivering owner [] =>
    some ((s.setWaiter owner (s.waiters owner).unlocked).setStage .free)

def State.run (s : State) (owner : Key) (batch : CompletionBatch) (deadline : ℕ) (now : Time) :
    State :=
  let done := completedBy s.rows batch.keys
  { s with
    rows := completeBatch now s.rows batch.keys
    stage := .executing owner batch deadline (some done)
    completed := fun reply =>
      if reply ∈ batch.queued.map QueuedCompletion.reply then some (decide (s.keyOf reply ∈ done))
      else s.completed reply }

def State.answer (s : State) (owner : Key) (batch : CompletionBatch) (positions : List ℤ) : State :=
  { s with
    stage := .retiring owner batch.unbind [] (some (applied batch.queued.length positions))
    answered := fun reply =>
      if reply ∈ batch.queued.map QueuedCompletion.reply then true else s.answered reply }

/-- `CompletionRegistration::drop`: the first queued entry with its pair goes, custody before its
sender. -/
def State.dropRegistration (s : State) (key : Key) : State :=
  match s.queue[s.queue.findIdx fun queued => queued.key = key]? with
  | none => s
  | some queued =>
    { (s.retire queued.reply).settle queued.reply none with
      queue := swapRemove s.queue (s.queue.findIdx fun queued => queued.key = key) }

/-- The statement may have executed when its answer fails, expires or is given up; rows change
in any other way between. -/
def step (s : State) : Event → Option State
  | .register key deadline => if s.waiters key = .idle then some (s.register key deadline) else none
  | .lock key =>
    match s.waiters key, s.stage with
    | .locking reply, .free =>
      some ((s.setWaiter key (.writing reply false)).setStage (.taking key))
    | _, _ => none
  | .advance => s.advance
  | .run now =>
    match s.stage with
    | .executing owner batch deadline none => some (s.run owner batch deadline now)
    | _ => none
  | .answer positions =>
    match s.stage with
    | .executing owner batch _ (some done) =>
      if Answers batch.keys done positions then some (s.answer owner batch positions) else none
    | _ => none
  | .fail =>
    match s.stage with
    | .executing owner batch _ _ =>
      some (s.setStage (.retiring owner batch.unbind []
        (some (List.replicate batch.queued.length (.error ())))))
    | _ => none
  | .expire =>
    match s.stage with
    | .executing owner batch deadline _ =>
      if s.expired deadline then some (s.setStage (.retiring owner batch.unbind [] none)) else none
    | _ => none
  | .receive key =>
    match s.waiters key with
    | .awaiting reply =>
      if s.replies reply ≠ .waiting then some (s.setWaiter key (.leaving reply false)) else none
    | _ => none
  | .cancel key =>
    match s.waiters key with
    | .locking reply | .awaiting reply => some (s.setWaiter key (.abandoned reply))
    | .writing reply false =>
      match s.stage with
      | .executing owner batch _ _ =>
        if owner = key then
          some ((s.setWaiter key (.writing reply true)).setStage
            (.retiring owner batch.unbind [] none))
        else none
      | _ => none
    | _ => none
  | .dropResponse key =>
    match s.waiters key with
    | .abandoned reply =>
      some { s.setWaiter key (.leaving reply true) with
        receivers := fun other => if other = reply then false else s.receivers other }
    | _ => none
  | .dropRegistration key =>
    match s.waiters key with
    | .leaving reply cancelled =>
      some ((s.dropRegistration key).setWaiter key (.after reply cancelled (s.replies reply)))
    | _ => none
  | .tick micros => some { s with clock := s.clock + micros }
  | .endCleanup => some { s with ended := true }
  | .environment rows => if UniqueIds rows then some { s with rows := rows } else none

def system : System State Event := ⟨initial, step⟩

inductive Move (s : State) : State → Prop
  | register {key : Key} {deadline : ℕ} (h : s.waiters key = .idle) : Move s (s.register key deadline)
  | lock {key : Key} {reply : ℕ} (h : s.waiters key = .locking reply) (hfree : s.stage = .free) :
    Move s ((s.setWaiter key (.writing reply false)).setStage (.taking key))
  | take {owner : Key} (h : s.stage = .taking owner) : Move s (s.take owner)
  | prune {owner : Key} {batch : CompletionBatch} {index : ℕ} {queued : QueuedCompletion}
    (h : s.stage = .pruning owner batch index) (hget : batch.queued[index]? = some queued) :
    Move s ((s.retire queued.reply).setStage
      (.pruning owner (batch.prune index queued.reply) index))
  | keep {owner : Key} {batch : CompletionBatch} {index : ℕ}
    (h : s.stage = .pruning owner batch index) :
    Move s (s.setStage (.pruning owner batch (index + 1)))
  | bind {owner : Key} {batch : CompletionBatch} {index deadline : ℕ}
    (h : s.stage = .pruning owner batch index) :
    Move s (s.setStage (.executing owner batch.bind deadline none))
  | run {owner : Key} {batch : CompletionBatch} {deadline : ℕ} {now : Time}
    (h : s.stage = .executing owner batch deadline none) : Move s (s.run owner batch deadline now)
  | answer {owner : Key} {batch : CompletionBatch} {deadline : ℕ} {done : List Key}
    {positions : List ℤ} (h : s.stage = .executing owner batch deadline (some done))
    (hanswer : Answers batch.keys done positions) : Move s (s.answer owner batch positions)
  | fail {owner : Key} {batch : CompletionBatch} {deadline : ℕ} {done : Option (List Key)}
    (h : s.stage = .executing owner batch deadline done) :
    Move s (s.setStage (.retiring owner batch.unbind []
      (some (List.replicate batch.queued.length (.error ())))))
  | dropPruned {owner : Key} {batch : CompletionBatch} {index : ℕ}
    (h : s.stage = .pruning owner batch index) :
    Move s (s.setStage (.retiring owner batch.unbind [] none))
  | dropExecuting {owner : Key} {batch : CompletionBatch} {deadline : ℕ} {done : Option (List Key)}
    (h : s.stage = .executing owner batch deadline done) :
    Move s (s.setStage (.retiring owner batch.unbind [] none))
  | retire {owner : Key} {batch : CompletionBatch} {senders : List ℕ}
    {answers : Option (List Answer)} {queued : QueuedCompletion} {rest : List QueuedCompletion}
    (h : s.stage = .retiring owner batch senders answers) (hqueued : batch.queued = queued :: rest) :
    Move s ((s.retire queued.reply).setStage
      (.retiring owner { batch with queued := rest } (senders ++ [queued.reply]) answers))
  | gather {owner : Key} {batch : CompletionBatch} {senders : List ℕ}
    {answers : Option (List Answer)} (h : s.stage = .retiring owner batch senders answers)
    (hqueued : batch.queued = []) :
    Move s (s.setStage (.delivering owner (owed batch.prunedReplies senders answers)))
  | settle {owner : Key} {reply : ℕ} {answer : Option Answer} {rest : List (ℕ × Option Answer)}
    (h : s.stage = .delivering owner ((reply, answer) :: rest)) :
    Move s ((s.settle reply answer).setStage (.delivering owner rest))
  | unlock {owner : Key} (h : s.stage = .delivering owner []) :
    Move s ((s.setWaiter owner (s.waiters owner).unlocked).setStage .free)
  | receive {key : Key} {reply : ℕ} (h : s.waiters key = .awaiting reply)
    (hreply : s.replies reply ≠ .waiting) : Move s (s.setWaiter key (.leaving reply false))
  | cancel {key : Key} {reply : ℕ} (h : (s.waiters key).reply = some reply) :
    Move s (s.setWaiter key (.abandoned reply))
  | cancelWriter {owner : Key} {reply : ℕ} {batch : CompletionBatch} {deadline : ℕ}
    {done : Option (List Key)} (h : s.waiters owner = .writing reply false)
    (hstage : s.stage = .executing owner batch deadline done) :
    Move s ((s.setWaiter owner (.writing reply true)).setStage
      (.retiring owner batch.unbind [] none))
  | dropResponse {key : Key} {reply : ℕ} (h : s.waiters key = .abandoned reply) :
    Move s { s.setWaiter key (.leaving reply true) with
      receivers := fun other => if other = reply then false else s.receivers other }
  | dropRegistration {key : Key} {reply : ℕ} {cancelled : Bool}
    (h : s.waiters key = .leaving reply cancelled) :
    Move s ((s.dropRegistration key).setWaiter key (.after reply cancelled (s.replies reply)))
  | tick {micros : ℕ} : Move s { s with clock := s.clock + micros }
  | endCleanup : Move s { s with ended := true }
  | environment {rows : List Row} (h : UniqueIds rows) : Move s { s with rows := rows }

theorem advance_cases {s t : State} (h : s.advance = some t) : Move s t := by
  unfold State.advance at h
  cases hstage : s.stage with
  | free => rw [hstage] at h; cases h
  | executing owner batch deadline done => rw [hstage] at h; cases h
  | taking owner =>
    rw [hstage] at h
    cases h
    exact .take hstage
  | pruning owner batch index =>
    rw [hstage] at h
    simp only at h
    cases hget : batch.queued[index]? with
    | some queued =>
      rw [hget] at h
      simp only at h
      split at h
      · cases h
        exact .prune hstage hget
      · cases h
        exact .keep hstage
    | none =>
      rw [hget] at h
      simp only at h
      split at h
      · cases h
        exact .dropPruned hstage
      · cases h
        exact .bind hstage
  | retiring owner batch senders answers =>
    rw [hstage] at h
    simp only at h
    split at h
    · next hqueued =>
      cases h
      exact .retire hstage hqueued
    · next hqueued =>
      cases h
      exact .gather hstage hqueued
  | delivering owner owed =>
    rw [hstage] at h
    cases owed with
    | nil =>
      cases h
      exact .unlock hstage
    | cons first rest =>
      cases h
      exact .settle hstage

theorem step_cases {s t : State} {e : Event} (h : step s e = some t) : Move s t := by
  cases e with
  | advance => exact advance_cases h
  | register key deadline =>
    simp only [step] at h
    split at h
    · next hidle =>
      cases h
      exact .register hidle
    · cases h
  | lock key =>
    simp only [step] at h
    split at h
    · next hlocking hfree =>
      cases h
      exact .lock hlocking hfree
    · cases h
  | run now =>
    simp only [step] at h
    split at h
    · next hstage =>
      cases h
      exact .run hstage
    · cases h
  | answer positions =>
    simp only [step] at h
    split at h
    · next hstage =>
      split at h
      · next hanswer =>
        cases h
        exact .answer hstage hanswer
      · cases h
    · cases h
  | fail =>
    simp only [step] at h
    split at h
    · next hstage =>
      cases h
      exact .fail hstage
    · cases h
  | expire =>
    simp only [step] at h
    split at h
    · next hstage =>
      split at h
      · cases h
        exact .dropExecuting hstage
      · cases h
    · cases h
  | receive key =>
    simp only [step] at h
    split at h
    · next hawaiting =>
      split at h
      · next hreply =>
        cases h
        exact .receive hawaiting hreply
      · cases h
    · cases h
  | cancel key =>
    simp only [step] at h
    split at h
    · next hwaiter =>
      cases h
      exact .cancel (by rw [hwaiter]; rfl)
    · next hwaiter =>
      cases h
      exact .cancel (by rw [hwaiter]; rfl)
    · next hwriting =>
      split at h
      · next hstage =>
        split at h
        · next howner =>
          subst howner
          cases h
          exact .cancelWriter hwriting hstage
        · cases h
      · cases h
    · cases h
  | dropResponse key =>
    simp only [step] at h
    split at h
    · next habandoned =>
      cases h
      exact .dropResponse habandoned
    · cases h
  | dropRegistration key =>
    simp only [step] at h
    split at h
    · next hleaving =>
      cases h
      exact .dropRegistration hleaving
    · cases h
  | tick micros =>
    cases h
    exact .tick
  | endCleanup =>
    cases h
    exact .endCleanup
  | environment rows =>
    simp only [step] at h
    split at h
    · next hrows =>
      cases h
      exact .environment hrows
    · cases h

/-- A dropped registration takes at most one entry from the queue, and that has its pair. -/
theorem drop_registration_cases (s : State) (key : Key) :
    s.dropRegistration key = s ∨
      ∃ index queued, s.queue[index]? = some queued ∧ queued.key = key ∧
        s.dropRegistration key =
          { (s.retire queued.reply).settle queued.reply none with
            queue := swapRemove s.queue index } := by
  unfold State.dropRegistration
  split
  · exact .inl rfl
  · next queued hget =>
    refine .inr ⟨_, queued, hget, ?_, rfl⟩
    obtain ⟨hindex, hsame⟩ := List.getElem?_eq_some_iff.mp hget
    have hfound := List.findIdx_getElem (w := hindex)
    rw [hsame] at hfound
    exact of_decide_eq_true hfound

end JobsCompletion
