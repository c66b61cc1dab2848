import ServiceTemplate.TransitionSystem
import Mathlib.Data.List.Perm.Basic
import Mathlib.Data.List.Nodup
import Mathlib.Data.List.Range

/-! The pull loop of a consumer: free slots are reserved before each pull, received messages are
spawned or sent back, and admitted deliveries are joined. Completions, answers of the broker, stop
and force interleave at every await. -/
namespace PullLoop

open TransitionSystem

inductive ConsumerError where
  | consumerLost
  | drainTimedOut
  | close
  deriving DecidableEq, Repr

/-- An open batch: how many messages it asked for and how many came, and what the client holds of
it that was not taken; no message is an error. -/
structure Batch where
  requested : ℕ
  arrived : ℕ
  buffer : List (Option ℕ)
  ended : Bool
  deriving DecidableEq, Repr

/-- Where `consume` is. `stopped` tells what follows a release; no result of `done` is `Ok(())`. -/
inductive Phase where
  | waiting
  | checking
  | backoff
  | requesting (slots : ℕ)
  | failedRequest
  | receiving (batch : Batch) (remaining : ℕ) (failure : Bool)
  | releasing (batch : Batch) (stopped failure : Bool)
  | returning (stopped failure : Bool)
  | failedBatch (failure : Bool)
  | draining
  | done (result : Option ConsumerError)
  deriving DecidableEq, Repr

/-- `deliveries` is the join set: spawned and not joined. `completed` are those of them that ended,
and whether by a panic. `prefetched` is what `release` took. The fields from `arrivals` on are what
was observed: messages numbered as they came, those taken from a batch, spawned, asked back, joined,
and left in a dropped batch; each pull with the deliveries at the time; whether stop was seen, and
whether a durable was found gone. -/
structure State where
  phase : Phase
  stop : Bool
  force : Bool
  deliveries : List ℕ
  completed : List (ℕ × Bool)
  prefetched : List ℕ
  arrivals : ℕ
  taken : List ℕ
  handled : List ℕ
  returned : List ℕ
  joined : List ℕ
  dropped : List ℕ
  pulls : List (ℕ × ℕ)
  observed : Bool
  gone : Bool
  deriving DecidableEq

def initial : State :=
  ⟨.waiting, false, false, [], [], [], 0, [], [], [], [], [], [], false, false⟩

/-- What the broker does to an open batch; an error status ends it. -/
inductive Arrival where
  | message
  | error
  | last
  deriving DecidableEq, Repr

inductive Event where
  | stop
  | force
  | complete (delivery : ℕ) (panicked : Bool)
  | arrive (arrival : Arrival)
  | turn
  | observeStop
  | join (delivery : ℕ) (panicked : Bool)
  | info (answer : Option Bool)
  | slept
  | created (ok : Bool)
  | next
  | expire
  | leave
  | drain
  | redeliver
  | finish
  | abort
  deriving DecidableEq, Repr

def messages (buffer : List (Option ℕ)) : List ℕ := buffer.filterMap id

def held : Phase → List ℕ
  | .receiving batch _ _ | .releasing batch _ _ => messages batch.buffer
  | _ => []

/-- A new phase; a batch is dropped with the old one. -/
def State.goto (s : State) (phase : Phase) : State :=
  { s with phase := phase, dropped := s.dropped ++ held s.phase }

def State.stay (s : State) (phase : Phase) : State := { s with phase := phase }

def Batch.arrive (batch : Batch) (message : ℕ) : Arrival → Option Batch
  | .message =>
    if batch.arrived < batch.requested ∧ batch.ended = false then
      some { batch with arrived := batch.arrived + 1, buffer := batch.buffer ++ [some message] }
    else none
  | .error =>
    if batch.ended = false then some { batch with buffer := batch.buffer ++ [none], ended := true }
    else none
  | .last => some { batch with ended := true }

def counted (arrivals : ℕ) : Arrival → ℕ
  | .message => arrivals + 1
  | _ => arrivals

/-- `join_next` is polled here, after stop was found unset where a select asks it first. -/
def State.joins (s : State) (concurrency : ℕ) : Bool :=
  match s.phase with
  | .waiting => s.deliveries.length = concurrency && !s.stop
  | .requesting _ => !s.stop
  | .receiving _ remaining failure => 0 < remaining && !failure && !s.stop
  | .draining => true
  | _ => false

def State.joinOne (s : State) (delivery : ℕ) (panicked : Bool) : State :=
  { s with
    deliveries := s.deliveries.erase delivery
    completed := s.completed.erase (delivery, panicked)
    joined := s.joined ++ [delivery] }

/-- The message is taken and its task spawned, with no await between. -/
def State.admitMessage (s : State) (batch : Batch) (remaining message : ℕ) : State :=
  { s with
    phase := .receiving batch (remaining - 1) false
    taken := s.taken ++ [message]
    deliveries := s.deliveries ++ [message]
    handled := s.handled ++ [message] }

/-- `release` took a message. -/
def State.prefetch (s : State) (batch : Batch) (stopped failure : Bool) (message : ℕ) : State :=
  { s with
    phase := .releasing batch stopped failure
    taken := s.taken ++ [message]
    prefetched := s.prefetched ++ [message] }

/-- The durable is gone or another one. -/
def State.lost (s : State) : State := { s.stay (.done (some .consumerLost)) with gone := true }

def step (concurrency : ℕ) (s : State) : Event → Option State
  | .stop => some { s with stop := true }
  | .force => some { s with force := true }
  | .complete delivery panicked =>
    if delivery ∈ s.deliveries ∧ delivery ∉ s.completed.map Prod.fst then
      some { s with completed := s.completed ++ [(delivery, panicked)] }
    else none
  | .arrive arrival =>
    match s.phase with
    | .receiving batch remaining failure =>
      (batch.arrive s.arrivals arrival).map fun batch =>
        { s with
          phase := .receiving batch remaining failure, arrivals := counted s.arrivals arrival }
    | .releasing batch stopped failure =>
      (batch.arrive s.arrivals arrival).map fun batch =>
        { s with
          phase := .releasing batch stopped failure, arrivals := counted s.arrivals arrival }
    | _ => none
  | .turn =>
    match s.phase with
    | .waiting =>
      if s.deliveries.length = concurrency then none
      else if s.stop then some { s.stay .draining with observed := true }
      else some (s.stay .checking)
    | _ => none
  | .observeStop =>
    if s.stop then
      match s.phase with
      | .waiting =>
        if s.deliveries.length = concurrency then some { s.stay .draining with observed := true }
        else none
      | .requesting _ => some { s.stay .draining with observed := true }
      | .receiving batch remaining failure =>
        if 0 < remaining ∧ failure = false then
          some { s.stay (.releasing batch true false) with observed := true }
        else none
      | _ => none
    else none
  | .join delivery panicked =>
    if s.joins concurrency ∧ delivery ∈ s.deliveries ∧ (delivery, panicked) ∈ s.completed then
      let joined := s.joinOne delivery panicked
      if panicked then some (joined.goto (.done (some .close))) else some joined
    else none
  | .info answer =>
    match s.phase with
    | .checking =>
      match answer with
      | some false =>
        let slots := concurrency - s.deliveries.length
        some { s.stay (.requesting slots) with
          pulls := s.pulls ++ [(slots, s.deliveries.length)] }
      | some true => some s.lost
      | none => some (s.stay .backoff)
    | .failedRequest => if answer = some true then some s.lost else some (s.stay .backoff)
    | .failedBatch failure =>
      if answer = some true then some s.lost
      else if failure then some (s.stay .backoff)
      else some (s.stay .waiting)
    | _ => none
  | .slept =>
    match s.phase with
    | .backoff => some (s.stay .waiting)
    | _ => none
  | .created ok =>
    match s.phase with
    | .requesting slots =>
      if s.stop then none
      else if ok then some (s.stay (.receiving ⟨slots, 0, [], false⟩ slots false))
      else some (s.stay .failedRequest)
    | _ => none
  | .next =>
    match s.phase with
    | .receiving batch remaining failure =>
      if 0 < remaining ∧ failure = false ∧ s.stop = false then
        match batch.buffer with
        | some message :: rest => some (s.admitMessage { batch with buffer := rest } remaining message)
        | none :: rest =>
          some (s.stay (.receiving { batch with buffer := rest } remaining true))
        | [] => if batch.ended then some (s.stay (.releasing batch false false)) else none
      else none
    | _ => none
  | .expire =>
    match s.phase with
    | .receiving batch remaining failure =>
      if 0 < remaining ∧ failure = false ∧ s.stop = false ∧ batch.buffer = [] then
        some (s.stay (.receiving batch remaining true))
      else none
    | _ => none
  | .leave =>
    match s.phase with
    | .receiving batch remaining failure =>
      if remaining = 0 then some (s.goto .waiting)
      else if failure then some (s.stay (.releasing batch false true))
      else none
    | _ => none
  | .drain =>
    match s.phase with
    | .releasing batch stopped failure =>
      match batch.buffer with
      | some message :: rest => some (s.prefetch { batch with buffer := rest } stopped failure message)
      | none :: rest => some (s.stay (.releasing { batch with buffer := rest } stopped failure))
      | [] => some (s.goto (.returning stopped failure))
    | _ => none
  | .redeliver =>
    match s.phase with
    | .returning stopped failure =>
      match s.prefetched with
      | message :: rest =>
        some { s with prefetched := rest, returned := s.returned ++ [message] }
      | [] => some (s.stay (if stopped then .draining else .failedBatch failure))
    | _ => none
  | .finish =>
    match s.phase with
    | .draining => if s.deliveries = [] then some (s.stay (.done none)) else none
    | _ => none
  | .abort =>
    match s.phase with
    | .done _ => none
    | _ => if s.force then some (s.goto (.done (some .drainTimedOut))) else none

def loop (concurrency : ℕ) : System State Event := ⟨initial, step concurrency⟩

inductive Move (concurrency : ℕ) (s : State) : State → Prop
  | note {stop force : Bool} {completed : List (ℕ × Bool)} :
    Move concurrency s { s with stop := stop, force := force, completed := completed }
  | arrive {batch grown : Batch} {remaining : ℕ} {failure : Bool} {arrival : Arrival}
    (h : s.phase = .receiving batch remaining failure)
    (hgrown : batch.arrive s.arrivals arrival = some grown) :
    Move concurrency s { s with
      phase := .receiving grown remaining failure, arrivals := counted s.arrivals arrival }
  | arriveLate {batch grown : Batch} {stopped failure : Bool} {arrival : Arrival}
    (h : s.phase = .releasing batch stopped failure)
    (hgrown : batch.arrive s.arrivals arrival = some grown) :
    Move concurrency s { s with
      phase := .releasing grown stopped failure, arrivals := counted s.arrivals arrival }
  | check (h : s.phase = .waiting) (hfree : s.deliveries.length ≠ concurrency) :
    Move concurrency s (s.stay .checking)
  | seeStop (h : held s.phase = [])
    (hphase : s.phase = .waiting ∨ ∃ slots, s.phase = .requesting slots) :
    Move concurrency s { s.stay .draining with observed := true }
  | seeStopReceiving {batch : Batch} {remaining : ℕ} {failure : Bool}
    (h : s.phase = .receiving batch remaining failure) :
    Move concurrency s { s.stay (.releasing batch true false) with observed := true }
  | join {delivery : ℕ} {panicked : Bool} (h : delivery ∈ s.deliveries)
    (hjoins : s.joins concurrency = true) : Move concurrency s (s.joinOne delivery panicked)
  | joinPanicked {delivery : ℕ} (h : delivery ∈ s.deliveries)
    (hjoins : s.joins concurrency = true) :
    Move concurrency s ((s.joinOne delivery true).goto (.done (some .close)))
  | pull (h : s.phase = .checking) :
    Move concurrency s { s.stay (.requesting (concurrency - s.deliveries.length)) with
      pulls := s.pulls ++ [(concurrency - s.deliveries.length, s.deliveries.length)] }
  | rest {phase : Phase} (h : s.phase = .checking ∨ s.phase = .failedRequest ∨ s.phase = .backoff ∨
      (∃ failure, s.phase = .failedBatch failure) ∨ ∃ slots, s.phase = .requesting slots)
    (hphase : phase = .backoff ∨ phase = .waiting ∨ phase = .failedRequest) :
    Move concurrency s (s.stay phase)
  | lose (h : s.phase = .checking ∨ s.phase = .failedRequest ∨
      ∃ failure, s.phase = .failedBatch failure) :
    Move concurrency s s.lost
  | create {slots : ℕ} (h : s.phase = .requesting slots) :
    Move concurrency s (s.stay (.receiving ⟨slots, 0, [], false⟩ slots false))
  | next {batch : Batch} {remaining message : ℕ} {rest : List (Option ℕ)}
    (h : s.phase = .receiving batch remaining false) (hstop : s.stop = false)
    (hpos : 0 < remaining) (hbuffer : batch.buffer = some message :: rest) :
    Move concurrency s (s.admitMessage { batch with buffer := rest } remaining message)
  | fail {batch : Batch} {remaining : ℕ} {rest : List (Option ℕ)}
    (h : s.phase = .receiving batch remaining false)
    (hbuffer : batch.buffer = none :: rest ∨ batch.buffer = [] ∧ rest = []) :
    Move concurrency s (s.stay (.receiving { batch with buffer := rest } remaining true))
  | release {batch : Batch} {remaining : ℕ} {failure : Bool}
    (h : s.phase = .receiving batch remaining failure) :
    Move concurrency s (s.stay (.releasing batch false failure))
  | leave {batch : Batch} {failure : Bool} (h : s.phase = .receiving batch 0 failure) :
    Move concurrency s (s.goto .waiting)
  | prefetch {batch : Batch} {stopped failure : Bool} {message : ℕ} {rest : List (Option ℕ)}
    (h : s.phase = .releasing batch stopped failure)
    (hbuffer : batch.buffer = some message :: rest) :
    Move concurrency s (s.prefetch { batch with buffer := rest } stopped failure message)
  | skip {batch : Batch} {stopped failure : Bool} {rest : List (Option ℕ)}
    (h : s.phase = .releasing batch stopped failure) (hbuffer : batch.buffer = none :: rest) :
    Move concurrency s (s.stay (.releasing { batch with buffer := rest } stopped failure))
  | emptied {batch : Batch} {stopped failure : Bool}
    (h : s.phase = .releasing batch stopped failure) (hbuffer : batch.buffer = []) :
    Move concurrency s (s.goto (.returning stopped failure))
  | redeliver {stopped failure : Bool} {message : ℕ} {rest : List ℕ}
    (h : s.phase = .returning stopped failure) (hprefetched : s.prefetched = message :: rest) :
    Move concurrency s { s with prefetched := rest, returned := s.returned ++ [message] }
  | returned {stopped failure : Bool} (h : s.phase = .returning stopped failure)
    (hprefetched : s.prefetched = []) :
    Move concurrency s (s.stay (if stopped then .draining else .failedBatch failure))
  | finish (h : s.phase = .draining) (hdeliveries : s.deliveries = []) :
    Move concurrency s (s.stay (.done none))
  | abort (h : ∀ result, s.phase ≠ .done result) :
    Move concurrency s (s.goto (.done (some .drainTimedOut)))

theorem info_cases {concurrency : ℕ} {s t : State} {answer : Option Bool}
    (h : step concurrency s (.info answer) = some t) : Move concurrency s t := by
  simp only [step] at h
  split at h
  · next hphase =>
    split at h
    · cases h
      exact .pull hphase
    · cases h
      exact .lose (.inl hphase)
    · cases h
      exact .rest (.inl hphase) (.inl rfl)
  · next hphase =>
    split at h
    · cases h
      exact .lose (.inr (.inl hphase))
    · cases h
      exact .rest (.inr (.inl hphase)) (.inl rfl)
  · next failure hphase =>
    split at h
    · cases h
      exact .lose (.inr (.inr ⟨failure, hphase⟩))
    · split at h
      · cases h
        exact .rest (.inr (.inr (.inr (.inl ⟨failure, hphase⟩)))) (.inl rfl)
      · cases h
        exact .rest (.inr (.inr (.inr (.inl ⟨failure, hphase⟩)))) (.inr (.inl rfl))
  · cases h

theorem step_cases {concurrency : ℕ} {s t : State} {e : Event}
    (h : step concurrency s e = some t) : Move concurrency s t := by
  cases e with
  | info answer => exact info_cases h
  | stop =>
    cases h
    exact .note
  | force =>
    cases h
    exact .note
  | complete delivery panicked =>
    simp only [step] at h
    split at h
    · cases h
      exact .note
    · cases h
  | arrive arrival =>
    simp only [step] at h
    split at h
    · next hphase =>
      obtain ⟨grown, hgrown, rfl⟩ := Option.map_eq_some_iff.mp h
      exact .arrive hphase hgrown
    · next hphase =>
      obtain ⟨grown, hgrown, rfl⟩ := Option.map_eq_some_iff.mp h
      exact .arriveLate hphase hgrown
    · cases h
  | turn =>
    simp only [step] at h
    split at h
    · next hphase =>
      split_ifs at h with hfull hstop
      · cases h
        exact .seeStop (by rw [hphase]; rfl) (.inl hphase)
      · cases h
        exact .check hphase hfull
    · cases h
  | observeStop =>
    simp only [step] at h
    split at h
    · split at h
      · next hphase =>
        split at h
        · cases h
          exact .seeStop (by rw [hphase]; rfl) (.inl hphase)
        · cases h
      · next slots hphase =>
        cases h
        exact .seeStop (by rw [hphase]; rfl) (.inr ⟨slots, hphase⟩)
      · next hphase =>
        split at h
        · cases h
          exact .seeStopReceiving hphase
        · cases h
      · cases h
    · cases h
  | join delivery panicked =>
    simp only [step] at h
    split_ifs at h with hjoin hpanicked
    · cases h
      subst hpanicked
      exact .joinPanicked hjoin.2.1 hjoin.1
    · cases h
      exact .join hjoin.2.1 hjoin.1
  | slept =>
    simp only [step] at h
    split at h
    · next hphase =>
      cases h
      exact .rest (.inr (.inr (.inl hphase))) (.inr (.inl rfl))
    · cases h
  | created ok =>
    simp only [step] at h
    split at h
    · next slots hphase =>
      split_ifs at h with hstop hok
      · cases h
        exact .create hphase
      · cases h
        exact .rest (.inr (.inr (.inr (.inr ⟨slots, hphase⟩)))) (.inr (.inr rfl))
    · cases h
  | next =>
    simp only [step] at h
    split at h
    · next batch remaining failure hphase =>
      split at h
      · next hopen =>
        obtain ⟨hpos, rfl, hstop⟩ := hopen
        split at h
        · next hbuffer =>
          cases h
          exact .next hphase hstop hpos hbuffer
        · next hbuffer =>
          cases h
          exact .fail hphase (.inl hbuffer)
        · split at h
          · cases h
            exact .release hphase
          · cases h
      · cases h
    · cases h
  | expire =>
    simp only [step] at h
    split at h
    · next batch remaining failure hphase =>
      split_ifs at h with hopen
      obtain ⟨-, rfl, -, hbuffer⟩ := hopen
      cases h
      have hmove : Move concurrency s
          (s.stay (.receiving { batch with buffer := [] } remaining true)) :=
        .fail hphase (.inr ⟨hbuffer, rfl⟩)
      rw [← hbuffer] at hmove
      exact hmove
    · cases h
  | leave =>
    simp only [step] at h
    split at h
    · next batch remaining failure hphase =>
      split_ifs at h with hempty hfailure
      · cases h
        subst hempty
        exact .leave hphase
      · cases h
        subst hfailure
        exact .release hphase
    · cases h
  | drain =>
    simp only [step] at h
    split at h
    · next hphase =>
      split at h
      · next hbuffer =>
        cases h
        exact .prefetch hphase hbuffer
      · next hbuffer =>
        cases h
        exact .skip hphase hbuffer
      · next hbuffer =>
        cases h
        exact .emptied hphase hbuffer
    · cases h
  | redeliver =>
    simp only [step] at h
    split at h
    · next hphase =>
      split at h
      · next hprefetched =>
        cases h
        exact .redeliver hphase hprefetched
      · next hprefetched =>
        cases h
        exact .returned hphase hprefetched
    · cases h
  | finish =>
    simp only [step] at h
    split at h
    · next hphase =>
      split_ifs at h with hdeliveries
      cases h
      exact .finish hphase hdeliveries
    · cases h
  | abort =>
    simp only [step] at h
    split at h
    · cases h
    · next hopen =>
      split_ifs at h
      cases h
      exact .abort fun result hresult => hopen result hresult

def expected : Phase → ℕ
  | .requesting slots => slots
  | .receiving _ remaining _ => remaining
  | _ => 0

/-- What a batch still owes and what the client holds of it fill the remaining slots. -/
def Reserved (concurrency deliveries : ℕ) : Phase → Prop
  | .checking => deliveries < concurrency
  | .receiving batch remaining _ => batch.arrived ≤ batch.requested ∧
    (messages batch.buffer).length + (batch.requested - batch.arrived) = remaining
  | _ => True

structure Capacity (concurrency : ℕ) (s : State) : Prop where
  bounded : s.deliveries.length + expected s.phase ≤ concurrency
  reserved : Reserved concurrency s.deliveries.length s.phase
  pulls : ∀ pull ∈ s.pulls, 1 ≤ pull.1 ∧ pull.1 + pull.2 = concurrency

section

variable {concurrency : ℕ} {s t : State}

theorem Capacity.pass (h : Capacity concurrency s) (hphase : t.phase = s.phase)
    (hdeliveries : t.deliveries.length ≤ s.deliveries.length) (hpulls : t.pulls = s.pulls) :
    Capacity concurrency t := by
  refine ⟨?_, ?_, hpulls ▸ h.pulls⟩
  · rw [hphase]
    exact Nat.le_trans (Nat.add_le_add_right hdeliveries _) h.bounded
  · have hreserved := h.reserved
    rw [hphase]
    cases hcase : s.phase with
    | checking =>
      rw [hcase] at hreserved
      exact Nat.lt_of_le_of_lt hdeliveries hreserved
    | receiving batch remaining failure =>
      rw [hcase] at hreserved
      exact hreserved
    | _ => exact trivial

theorem Capacity.rest (h : Capacity concurrency s) {phase : Phase} (hphase : t.phase = phase)
    (hexpected : expected phase = 0) (hreserved : Reserved concurrency s.deliveries.length phase)
    (hdeliveries : t.deliveries.length ≤ s.deliveries.length) (hpulls : t.pulls = s.pulls) :
    Capacity concurrency t := by
  refine ⟨?_, ?_, hpulls ▸ h.pulls⟩
  · rw [hphase, hexpected]
    exact Nat.le_trans hdeliveries (Nat.le_trans (Nat.le_add_right _ _) h.bounded)
  · rw [hphase]
    cases phase with
    | checking => exact Nat.lt_of_le_of_lt hdeliveries hreserved
    | receiving batch remaining failure => exact hreserved
    | _ => exact trivial

/-- Stop was observed: what is left is to return, to join and to end. -/
def closing : Phase → Bool
  | .releasing _ stopped _ | .returning stopped _ => stopped
  | .draining | .done _ => true
  | _ => false

structure Ledger (s : State) : Prop where
  arrived : (s.taken ++ held s.phase ++ s.dropped).Perm (List.range s.arrivals)
  taken : s.taken.Perm (s.handled ++ s.returned ++ s.prefetched)
  handled : s.handled.Perm (s.deliveries ++ s.joined)
  prefetched : s.prefetched ≠ [] → (∃ batch stopped failure, s.phase = .releasing batch stopped failure) ∨
    (∃ stopped failure, s.phase = .returning stopped failure) ∨ s.phase = .done (some .drainTimedOut)
  dropped : s.dropped ≠ [] → s.phase = .done (some .drainTimedOut) ∨ s.phase = .done (some .close)
  observed : s.observed = true → closing s.phase = true
  gone : s.gone = true → ∃ result, s.phase = .done result
  finished : s.phase = .done none → s.deliveries = []

/-- Messages that `release` took may wait for their request here. -/
def holds : Phase → Bool
  | .releasing _ _ _ | .returning _ _ => true
  | .done result => result = some .drainTimedOut
  | _ => false

def forced : Phase → Bool
  | .done result => result = some .drainTimedOut || result = some .close
  | _ => false

theorem Ledger.empty_handed (h : Ledger s) (hphase : holds s.phase = false) : s.prefetched = [] := by
  by_contra hne
  rcases h.prefetched hne with ⟨batch, stopped, failure, hcase⟩ | ⟨stopped, failure, hcase⟩ | hcase
  · rw [hcase] at hphase
    cases hphase
  · rw [hcase] at hphase
    cases hphase
  · rw [hcase] at hphase
    cases hphase

theorem Ledger.nothing_dropped (h : Ledger s) (hphase : forced s.phase = false) : s.dropped = [] := by
  by_contra hne
  rcases h.dropped hne with hcase | hcase
  · rw [hcase] at hphase
    cases hphase
  · rw [hcase] at hphase
    cases hphase

/-- A change of phase that keeps the messages where they are. -/
theorem Ledger.stay (h : Ledger s) {old : Phase} (hold : s.phase = old) (phase : Phase)
    (hheld : held phase = held old) (hholds : holds old = false ∨
      (∃ batch stopped failure, phase = .releasing batch stopped failure) ∨
        ∃ stopped failure, phase = .returning stopped failure)
    (hforced : forced old = false) (hclosing : closing old = true → closing phase = true)
    (hdone : ∀ result, old ≠ .done result) (hfinished : phase = .done none → s.deliveries = []) :
    Ledger (s.stay phase) := by
  subst hold
  refine ⟨?_, h.taken, h.handled, fun hne => ?_, fun hne => ?_, fun hobserved => ?_,
    fun hgone => ?_, hfinished⟩
  · show (s.taken ++ held phase ++ s.dropped).Perm _
    rw [hheld]
    exact h.arrived
  · rcases hholds with hempty | hcase | hcase
    · exact absurd (h.empty_handed hempty) hne
    · exact .inl hcase
    · exact .inr (.inl hcase)
  · exact absurd (h.nothing_dropped hforced) hne
  · exact hclosing (h.observed hobserved)
  · obtain ⟨result, hresult⟩ := h.gone hgone
    exact absurd hresult (hdone result)

theorem Ledger.drop (h : Ledger s) (result : ConsumerError)
    (hresult : result = .drainTimedOut ∨ result = .close ∧ s.prefetched = []) :
    Ledger (s.goto (.done (some result))) := by
  refine ⟨?_, h.taken, h.handled, fun hne => ?_, fun _ => ?_, fun _ => rfl,
    fun _ => ⟨_, rfl⟩, nofun⟩
  · show (s.taken ++ [] ++ (s.dropped ++ held s.phase)).Perm _
    rw [List.append_nil]
    refine List.Perm.trans ?_ h.arrived
    rw [List.append_assoc]
    exact List.perm_append_comm.append_left _
  · rcases hresult with rfl | ⟨rfl, hempty⟩
    · exact .inr (.inr rfl)
    · exact absurd hempty hne
  · rcases hresult with rfl | ⟨rfl, -⟩
    · exact .inl rfl
    · exact .inr rfl

theorem Ledger.joinOne (h : Ledger s) {delivery : ℕ} (panicked : Bool)
    (hmem : delivery ∈ s.deliveries) : Ledger (s.joinOne delivery panicked) := by
  refine ⟨h.arrived, h.taken, ?_, h.prefetched, h.dropped, h.observed, h.gone, fun hdone => ?_⟩
  · refine h.handled.trans ?_
    show (s.deliveries ++ s.joined).Perm (s.deliveries.erase delivery ++ (s.joined ++ [delivery]))
    rw [← List.append_assoc]
    have hlast : ([delivery] ++ (s.deliveries.erase delivery ++ s.joined)).Perm
        (s.deliveries.erase delivery ++ s.joined ++ [delivery]) := List.perm_append_comm
    exact ((List.perm_cons_erase hmem).append_right _).trans hlast
  · rw [h.finished hdone] at hmem
    cases hmem

end

end PullLoop
