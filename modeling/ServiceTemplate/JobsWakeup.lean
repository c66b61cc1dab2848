import ServiceTemplate.JobsCapacity

/-! The claim loop between its rounds, over the engine's slots: when it sends its next claim, the
wake that is stored for it, and the drops of kind slots, each of which reads the free places,
releases its own and then wakes the loop. -/
namespace JobsWakeup

open TransitionSystem
open JobsTable JobsCapacity

inductive Next where
  | now
  | soon
  | idle
  deriving DecidableEq, Repr

/-- Where the drop of a kind slot stands: it has read whether the kind was full, or it has released
the place and is about to wake the loop. -/
inductive Drop where
  | read (wasFull : Bool)
  | waking
  deriving DecidableEq, Repr

/-- `binds` are those of the last claim, and `stored` the wake that `Notify` keeps. -/
structure ClaimLoop where
  engine : Engine
  next : Next
  stored : Bool
  drops : ℕ → Option Drop
  binds : List PolicyBind

/-- `engine` is a step of the engine other than the release of a kind's place. -/
inductive Event where
  | engine (event : JobsCapacity.Event)
  | tick
  | woken
  | notify
  | readPlaces (i : ℕ)
  | release (i : ℕ)
  | wake (i : ℕ)

def isWaiting : Stage → Bool
  | .waiting => true
  | _ => false

variable (registry : Registry)

def claimBinds (e : Engine) : List PolicyBind :=
  match e.stage with
  | .binding limits _ => policyBinds registry limits (asI64 e.held)
  | _ => []

def finishRound (requested : ℕ) (rows : List Row) : Next :=
  if rows.length = requested then .now else if rows = [] then .idle else .soon

/-- A step of the engine, with what the loop decides by it. After the wait for a wake or the tick
the loop goes on as after a round that found work. -/
def ClaimLoop.engineStep (c : ClaimLoop) (event : JobsCapacity.Event) : Option ClaimLoop :=
  match event with
  | .releaseKind _ => none
  | .acquire =>
    if c.next = .idle then none
    else (JobsCapacity.step registry c.engine .acquire).map fun e => { c with engine := e }
  | .answer rows locked now drawn =>
    (JobsCapacity.step registry c.engine (.answer rows locked now drawn)).map fun e =>
      { c with
        engine := e
        next := finishRound c.engine.held drawn
        binds := claimBinds registry c.engine }
  | .fail =>
    (JobsCapacity.step registry c.engine .fail).map fun e =>
      { c with engine := e, next := .idle, binds := claimBinds registry c.engine }
  | event => (JobsCapacity.step registry c.engine event).map fun e => { c with engine := e }

def step (c : ClaimLoop) : Event → Option ClaimLoop
  | .engine event => c.engineStep registry event
  | .tick =>
    if isWaiting c.engine.stage ∧ c.next = .idle then some { c with next := .soon } else none
  | .woken =>
    if isWaiting c.engine.stage ∧ c.next = .idle ∧ c.stored then
      some { c with next := .soon, stored := false }
    else none
  | .notify => some { c with stored := true }
  | .readPlaces i =>
    match c.engine.attempts[i]?, c.drops i with
    | some attempt, none =>
      if !attempt.slot && attempt.kindSlot then
        some { c with
          drops := Function.update c.drops i
            (some (.read (decide (c.engine.kindFree attempt.kind = 0)))) }
      else none
    | _, _ => none
  | .release i =>
    match c.drops i with
    | some (.read wasFull) =>
      (JobsCapacity.step registry c.engine (.releaseKind i)).map fun e =>
        { c with
          engine := e
          drops := Function.update c.drops i (if wasFull then some .waking else none) }
    | _ => none
  | .wake i =>
    match c.drops i with
    | some .waking => some { c with stored := true, drops := Function.update c.drops i none }
    | _ => none

def initial (maxWorkers : ℕ) : ClaimLoop :=
  ⟨JobsCapacity.initial registry maxWorkers, .idle, false, fun _ => none, []⟩

def claimLoop (maxWorkers : ℕ) : System ClaimLoop Event :=
  ⟨initial registry maxWorkers, step registry⟩

/-- The loop waits for a wake or the tick with no wake stored, and no drop is between its read and
its wake. -/
def Settled (c : ClaimLoop) : Prop :=
  isWaiting c.engine.stage = true ∧ c.next = .idle ∧ c.stored = false ∧
    ∀ i < c.engine.attempts.length, c.drops i = none

/-- A kind with a limit for which the last claim bound none is still full. -/
def NoLostWake (c : ClaimLoop) : Prop :=
  Settled c → ∀ bind ∈ c.binds, bind.policy.maxRunning.isSome = true → bind.claimLimit = 0 →
    c.engine.kindFree bind.kind = 0

instance (c : ClaimLoop) : Decidable (Settled c) :=
  inferInstanceAs (Decidable (_ ∧ _ ∧ _ ∧ _))

instance (c : ClaimLoop) : Decidable (NoLostWake c) :=
  inferInstanceAs (Decidable (_ → _))

/-- A drop of this kind read a free place and has not released its own yet, and meanwhile the kind
became full. -/
def overtaken (c : ClaimLoop) (kind : String) : Bool :=
  c.engine.kindFree kind = 0 && (List.range c.engine.attempts.length).any fun i =>
    (c.engine.attempts[i]?.any fun attempt => attempt.kind = kind) &&
      decide (c.drops i = some (.read false))

/-- The loop reads the places of a kind only while the kind is not overtaken. -/
def steady (c : ClaimLoop) : Event → Bool
  | .engine .bind =>
    match c.engine.stage with
    | .binding _ (entry :: _) => !overtaken c entry.name
    | _ => true
  | _ => true

/-- The kind is full, and whichever drop releases a place of it wakes the loop. -/
def Calm (c : ClaimLoop) (kind : String) : Prop :=
  c.engine.kindFree kind = 0 ∧ ∀ i attempt, c.engine.attempts[i]? = some attempt →
    attempt.kind = kind → c.drops i ≠ some (.read false)

def Due (c : ClaimLoop) : Prop :=
  c.stored = true ∨ ∃ i < c.engine.attempts.length, c.drops i = some .waking

def Attended (c : ClaimLoop) (kind : String) : Prop := Calm c kind ∨ Due c

def resting (c : ClaimLoop) : Bool :=
  decide (c.next = .idle) &&
    match c.engine.stage with
    | .waiting | .dispatching _ => true
    | _ => false

def asking : Stage → Bool
  | .counting | .merging _ | .taken | .binding _ _ => true
  | _ => false

structure Inv (c : ClaimLoop) : Prop where
  asking : asking c.engine.stage = true → 0 < c.engine.held
  fresh : ∀ i, c.engine.attempts.length ≤ i → c.drops i = none
  rows : ∀ rows, c.engine.stage = .dispatching rows → c.next = .idle → rows = []
  read : ∀ limits rest, c.engine.stage = .binding limits rest →
    ∀ entry ∈ registry.entries, entry ∉ rest → limits entry.name = 0 → Attended c entry.name
  resting : resting c = true → ∀ bind ∈ c.binds, bind.policy.maxRunning.isSome = true →
    bind.claimLimit = 0 → Attended c bind.kind

theorem as_i64_eq_zero {count : ℕ} : asI64 count = 0 ↔ count = 0 := by
  rw [asI64]
  split <;> omega

variable {registry} {maxWorkers : ℕ} {c c' : ClaimLoop}

theorem calm_of_not_overtaken {kind : String} (hfree : c.engine.kindFree kind = 0)
    (h : overtaken c kind = false) : Calm c kind := by
  refine ⟨hfree, fun i attempt hget hkind hread => ?_⟩
  obtain ⟨hi, -⟩ := List.getElem?_eq_some_iff.mp hget
  have hover : overtaken c kind = true := by
    simp only [overtaken, hfree, decide_true, Bool.true_and, List.any_eq_true, List.mem_range,
      Bool.and_eq_true, decide_eq_true_eq]
    exact ⟨i, hi, by rw [hget]; exact decide_eq_true hkind, hread⟩
  rw [hover] at h
  cases h

/-- A kind stays attended while no place comes back and no drop is forgotten. -/
theorem Attended.mono {kind : String} (h : Attended c kind)
    (hfree : c'.engine.kindFree kind ≤ c.engine.kindFree kind)
    (hattempts : ∀ i attempt, c'.engine.attempts[i]? = some attempt → attempt.kind = kind →
      c'.drops i = some (.read false) →
      ∃ before, c.engine.attempts[i]? = some before ∧ before.kind = kind ∧
        c.drops i = some (.read false))
    (hdue : Due c → Due c') : Attended c' kind := by
  rcases h with ⟨hzero, hreads⟩ | h
  · refine .inl ⟨by omega, fun i attempt hget hkind hread => ?_⟩
    obtain ⟨before, hbefore, hsame, hdrop⟩ := hattempts i attempt hget hkind hread
    exact hreads i before hbefore hsame hdrop
  · exact .inr (hdue h)

/-- What a step of the engine other than the release of a place leaves alone. -/
structure Frame (e e' : Engine) : Prop where
  free : ∀ kind, e'.kindFree kind ≤ e.kindFree kind
  longer : e.attempts.length ≤ e'.attempts.length
  kinds : ∀ i attempt, e'.attempts[i]? = some attempt → i < e.attempts.length →
    ∃ before, e.attempts[i]? = some before ∧ before.kind = attempt.kind

theorem Frame.of_eq {e e' : Engine} (hfree : e'.kindFree = e.kindFree)
    (hattempts : e'.attempts = e.attempts) : Frame e e' where
  free kind := by rw [hfree]
  longer := by rw [hattempts]
  kinds i attempt hget _ := ⟨attempt, by rw [← hattempts]; exact hget, rfl⟩

theorem dispatch_frame (e : Engine) (row : JobsTable.Row) (rest : List JobsTable.Row) :
    Frame e (e.dispatch registry row rest) := by
  rw [Engine.dispatch]
  split
  · exact .of_eq rfl rfl
  · split
    · exact .of_eq rfl rfl
    · refine ⟨fun kind => ?_, by simp, fun i attempt hget hi => ?_⟩
      · dsimp only
        split
        · by_cases hkind : kind = row.kind
          · rw [hkind, Function.update_self]
            exact Nat.sub_le _ _
          · rw [Function.update_of_ne hkind]
        · exact Nat.le_refl _
      · rw [List.getElem?_append_left hi] at hget
        exact ⟨attempt, hget, rfl⟩

theorem dispatch_stage (e : Engine) (row : JobsTable.Row) (rest : List JobsTable.Row) :
    ∃ rows, (e.dispatch registry row rest).stage = .dispatching rows := by
  rw [Engine.dispatch]
  split
  · exact ⟨rest, rfl⟩
  · split
    · exact ⟨[], rfl⟩
    · exact ⟨rest, rfl⟩

theorem release_slot_frame {e : Engine} {i : ℕ} {attempt : Attempt} (other : Attempt)
    (hget : e.attempts[i]? = some attempt) (hkind : other.kind = attempt.kind) (free : ℕ) :
    Frame e { e with free := free, attempts := e.attempts.set i other } where
  free _ := Nat.le_refl _
  longer := by simp
  kinds j found hfound hj := by
    by_cases hji : i = j
    · subst hji
      rw [List.getElem?_set_self hj, Option.some.injEq] at hfound
      exact ⟨attempt, hget, by rw [← hfound, hkind]⟩
    · rw [List.getElem?_set_ne hji] at hfound
      exact ⟨found, hfound, rfl⟩

theorem Inv.attended (h : Inv registry c) (c' : ClaimLoop)
    (hengine : Frame c.engine c'.engine)
    (hdrops : c'.drops = c.drops) (hstored : c'.stored = c.stored) {kind : String}
    (hkind : Attended c kind) : Attended c' kind := by
  refine hkind.mono (hengine.free kind) (fun i attempt hget hsame hread => ?_) fun hdue => ?_
  · rw [hdrops] at hread
    have hi : i < c.engine.attempts.length := by
      by_contra hi
      rw [h.fresh i (Nat.le_of_not_lt hi)] at hread
      cases hread
    obtain ⟨before, hbefore, heq⟩ := hengine.kinds i attempt hget hi
    exact ⟨before, hbefore, heq.trans hsame, hread⟩
  · rcases hdue with hdue | ⟨i, hi, hwaking⟩
    · exact .inl (hstored.trans hdue)
    · exact .inr ⟨i, Nat.lt_of_lt_of_le hi hengine.longer, by rw [hdrops]; exact hwaking⟩

theorem Inv.fresh_engine (h : Inv registry c) (c' : ClaimLoop)
    (hengine : Frame c.engine c'.engine)
    (hdrops : c'.drops = c.drops) (i : ℕ) (hi : c'.engine.attempts.length ≤ i) :
    c'.drops i = none := by
  rw [hdrops]
  exact h.fresh i (Nat.le_trans hengine.longer hi)

/-- The binds of a claim about to be answered are zero only for kinds that were read as full. -/
theorem Inv.bound (h : Inv registry c) {limits : String → ℕ}
    (hstage : c.engine.stage = .binding limits []) {bind : PolicyBind}
    (hbind : bind ∈ claimBinds registry c.engine) (hcapped : bind.policy.maxRunning.isSome = true)
    (hzero : bind.claimLimit = 0) : Attended c bind.kind := by
  have hheld : 0 < c.engine.held := h.asking (by rw [hstage]; rfl)
  simp only [claimBinds, hstage, policyBinds] at hbind
  obtain ⟨entry, hentry, rfl⟩ := List.mem_map.mp hbind
  obtain ⟨limit, hlimit⟩ := Option.isSome_iff_exists.mp hcapped
  dsimp only at hlimit hzero ⊢
  rw [hlimit] at hzero
  have hasked : asI64 c.engine.held ≠ 0 := fun h => by
    rw [as_i64_eq_zero] at h
    omega
  have hlimits : limits entry.name = 0 := by
    dsimp only at hzero
    omega
  exact h.read limits [] hstage entry hentry List.not_mem_nil hlimits

theorem initial_inv : Inv registry (initial registry maxWorkers) where
  asking h := by cases h
  fresh _ _ := rfl
  rows rows h := by cases h
  read limits rest h := by cases h
  resting _ bind hbind := by cases hbind

theorem as_rounds {requested : ℕ} {rows : List JobsTable.Row} (h : finishRound requested rows = .idle) :
    rows = [] := by
  rw [finishRound] at h
  split at h
  · cases h
  · split at h
    · assumption
    · cases h

/-- The steps of the engine after which the loop waits no more than before and asks for no other
limits. -/
theorem Inv.engine (h : Inv registry c) {e' : Engine} (hengine : Frame c.engine e')
    (hasking : JobsWakeup.asking e'.stage = true → 0 < e'.held)
    (hrows : ∀ rows, e'.stage = .dispatching rows → c.next = .idle → rows = [])
    (hread : ∀ limits rest, e'.stage = .binding limits rest → ∀ entry ∈ registry.entries,
      entry ∉ rest → limits entry.name = 0 → Attended c entry.name)
    (hresting : JobsWakeup.resting { c with engine := e' } = true →
      JobsWakeup.resting c = true) :
    Inv registry { c with engine := e' } where
  asking := hasking
  fresh := h.fresh_engine { c with engine := e' } hengine rfl
  rows := hrows
  read limits rest hstage entry hentry hmem hzero :=
    h.attended { c with engine := e' } hengine rfl rfl (hread limits rest hstage entry hentry hmem hzero)
  resting hrest bind hbind hcapped hzero :=
    h.attended { c with engine := e' } hengine rfl rfl (h.resting (hresting hrest) bind hbind hcapped hzero)

theorem engine_step_inv {event : JobsCapacity.Event} (h : Inv registry c)
    (hsteady : steady c (.engine event) = true)
    (hstep : c.engineStep registry event = some c') : Inv registry c' := by
  cases event with
  | releaseKind i => cases hstep
  | acquire =>
    rw [ClaimLoop.engineStep] at hstep
    split at hstep
    · cases hstep
    · rename_i hnext
      obtain ⟨e', he, rfl⟩ := Option.map_eq_some_iff.mp hstep
      rw [JobsCapacity.step] at he
      split at he
      · obtain ⟨-, heq⟩ := Option.ite_none_right_eq_some.mp he
        cases heq
        refine h.engine (.of_eq rfl rfl) (fun _ => Nat.one_pos) (fun _ heq => by cases heq) (fun _ _ heq => by cases heq)
          fun hrest => ?_
        simp [resting] at hrest
      · cases he
  | answer rows locked now drawn =>
    obtain ⟨e', he, rfl⟩ := Option.map_eq_some_iff.mp hstep
    rw [JobsCapacity.step] at he
    split at he
    · rename_i limits hstage
      obtain ⟨-, heq⟩ := Option.ite_none_right_eq_some.mp he
      cases heq
      refine ⟨(fun heq => by cases heq), h.fresh, fun rows' hrows hnext => ?_,
        (fun _ _ heq => by cases heq), fun _ bind hbind hcapped hzero => ?_⟩
      · cases hrows
        exact as_rounds hnext
      · exact h.attended _ (.of_eq rfl rfl) rfl rfl (h.bound hstage hbind hcapped hzero)
    · cases he
  | fail =>
    obtain ⟨e', he, rfl⟩ := Option.map_eq_some_iff.mp hstep
    rw [JobsCapacity.step] at he
    split at he
    · rename_i limits hstage
      cases he
      refine ⟨(fun heq => by cases heq), h.fresh, (fun _ heq => by cases heq),
        (fun _ _ heq => by cases heq), fun _ bind hbind hcapped hzero => ?_⟩
      exact h.attended _ (.of_eq rfl rfl) rfl rfl (h.bound hstage hbind hcapped hzero)
    · cases he
  | count =>
    obtain ⟨e', he, rfl⟩ := Option.map_eq_some_iff.mp hstep
    rw [JobsCapacity.step] at he
    split at he
    · rename_i hstage
      cases he
      exact h.engine (.of_eq rfl rfl) (fun _ => h.asking (by rw [hstage]; rfl))
        (fun _ heq => by cases heq) (fun _ _ heq => by cases heq)
        fun hrest => by simp [resting] at hrest
    · cases he
  | merge =>
    obtain ⟨e', he, rfl⟩ := Option.map_eq_some_iff.mp hstep
    rw [JobsCapacity.step] at he
    split at he
    · rename_i extra hstage
      have hheld := h.asking (by rw [hstage]; rfl)
      split at he
      · cases he
        exact h.engine (.of_eq rfl rfl) (fun _ => Nat.add_pos_left hheld _)
          (fun _ heq => by cases heq) (fun _ _ heq => by cases heq)
          fun hrest => by simp [resting] at hrest
      · cases he
        exact h.engine (.of_eq rfl rfl) (fun _ => hheld) (fun _ heq => by cases heq)
          (fun _ _ heq => by cases heq)
          fun hrest => by simp [resting] at hrest
    · cases he
  | bind =>
    obtain ⟨e', he, rfl⟩ := Option.map_eq_some_iff.mp hstep
    rw [JobsCapacity.step] at he
    split at he
    · rename_i hstage
      cases he
      refine h.engine (.of_eq rfl rfl) (fun _ => h.asking (by rw [hstage]; rfl))
        (fun _ heq => by cases heq) ?_
        fun hrest => by simp [resting] at hrest
      intro limits rest hbinding entry hentry hmem
      cases hbinding
      exact absurd hentry hmem
    · rename_i limits entry rest hstage
      cases he
      refine h.engine (.of_eq rfl rfl) (fun _ => h.asking (by rw [hstage]; rfl))
        (fun _ heq => by cases heq) ?_
        fun hrest => by simp [resting] at hrest
      intro limits' rest' hbinding other hother hmem hzero
      cases hbinding
      by_cases hname : other.name = entry.name
      · -- The kind just read: it is full, and no drop of it has read a free place.
        rw [hname, Function.update_self, as_i64_eq_zero] at hzero
        rw [hname]
        refine .inl (calm_of_not_overtaken hzero ?_)
        simpa [steady, hstage] using hsteady
      · rw [Function.update_of_ne hname] at hzero
        refine h.read limits (entry :: rest) hstage other hother (fun hcons => ?_) hzero
        rcases List.mem_cons.mp hcons with rfl | hcons
        · exact hname rfl
        · exact hmem hcons
    · cases he
  | dispatch =>
    obtain ⟨e', he, rfl⟩ := Option.map_eq_some_iff.mp hstep
    rw [JobsCapacity.step] at he
    split at he
    · rename_i hstage
      cases he
      exact h.engine (.of_eq rfl rfl) (fun heq => by cases heq) (fun _ heq => by cases heq)
        (fun _ _ heq => by cases heq) fun hrest => by
        simpa [resting, hstage, Engine.giveBack] using hrest
    · rename_i row rest hstage
      cases he
      obtain ⟨rows, hrows⟩ : ∃ rows, (c.engine.dispatch registry row rest).stage = .dispatching rows :=
        dispatch_stage c.engine row rest
      refine h.engine (dispatch_frame _ row rest) (fun hask => ?_) (fun _ _ hnext => ?_)
        (fun _ _ hbinding => ?_) fun hrest => ?_
      · rw [hrows] at hask
        cases hask
      · cases h.rows (row :: rest) hstage hnext
      · rw [hrows] at hbinding
        cases hbinding
      · simpa [resting, hrows, hstage] using hrest
    · cases he
  | stop =>
    obtain ⟨e', he, rfl⟩ := Option.map_eq_some_iff.mp hstep
    rw [JobsCapacity.step] at he
    split at he
    · cases he
      exact h.engine (.of_eq rfl rfl) (fun heq => by cases heq) (fun _ heq => by cases heq)
        (fun _ _ heq => by cases heq) fun hrest => by
        simp [resting, Engine.giveBack] at hrest
    · cases he
      exact h.engine (.of_eq rfl rfl) (fun heq => by cases heq) (fun _ heq => by cases heq)
        (fun _ _ heq => by cases heq) fun hrest => by
        simp [resting, Engine.giveBack] at hrest
    · cases he
  | releaseSlot i =>
    obtain ⟨e', he, rfl⟩ := Option.map_eq_some_iff.mp hstep
    rw [JobsCapacity.step] at he
    split at he
    · rename_i attempt hget
      obtain ⟨-, heq⟩ := Option.ite_none_right_eq_some.mp he
      cases heq
      exact h.engine (release_slot_frame { attempt with slot := false } hget rfl _) h.asking h.rows h.read id
    · cases he

/-- A place that comes back to a full kind comes with a wake. -/
theorem release_inv {i : ℕ} (h : Inv registry c) {wasFull : Bool}
    (hdrop : c.drops i = some (.read wasFull)) {e' : Engine}
    (he : JobsCapacity.step registry c.engine (.releaseKind i) = some e') :
    Inv registry { c with
      engine := e'
      drops := Function.update c.drops i (if wasFull then some .waking else none) } := by
  rw [JobsCapacity.step] at he
  split at he
  · rename_i attempt hget
    obtain ⟨-, heq⟩ := Option.ite_none_right_eq_some.mp he
    cases heq
    have hi : i < c.engine.attempts.length := (List.getElem?_eq_some_iff.mp hget).1
    have hattended : ∀ kind, Attended c kind → Attended { c with
        engine := { c.engine with
          kindFree := Function.update c.engine.kindFree attempt.kind
            (c.engine.kindFree attempt.kind + 1)
          attempts := c.engine.attempts.set i { attempt with kindSlot := false } }
        drops := Function.update c.drops i (if wasFull then some .waking else none) } kind := by
      intro kind hkind
      rcases hkind with ⟨hzero, hreads⟩ | hstored | ⟨j, hj, hwaking⟩
      · by_cases hsame : attempt.kind = kind
        · -- The kind was read as full, so the drop goes on to wake the loop.
          cases wasFull with
          | false => exact absurd hdrop (hreads i attempt hget hsame)
          | true => exact .inr (.inr ⟨i, by simpa using hi, by simp⟩)
        · refine .inl ⟨?_, fun j found hfound hkind => ?_⟩
          · dsimp only
            rw [Function.update_of_ne (Ne.symm hsame)]
            exact hzero
          · dsimp only at hfound ⊢
            by_cases hji : j = i
            · subst hji
              rw [Function.update_self]
              cases wasFull <;> simp
            · rw [Function.update_of_ne hji]
              rw [List.getElem?_set_ne (Ne.symm hji)] at hfound
              exact hreads j found hfound hkind
      · exact .inr (.inl hstored)
      · have hji : j ≠ i := by
          rintro rfl
          rw [hdrop] at hwaking
          cases hwaking
        exact .inr (.inr ⟨j, by simpa using hj, by
          dsimp only
          rw [Function.update_of_ne hji]
          exact hwaking⟩)
    refine ⟨h.asking, fun j hj => ?_, h.rows, ?_, ?_⟩
    · have hj' : c.engine.attempts.length ≤ j := by simpa using hj
      dsimp only
      rw [Function.update_of_ne (by omega)]
      exact h.fresh j hj'
    · exact fun limits rest hstage entry hentry hmem hzero =>
        hattended _ (h.read limits rest hstage entry hentry hmem hzero)
    · exact fun hrest bind hbind hcapped hzero =>
        hattended _ (h.resting hrest bind hbind hcapped hzero)
  · cases he

/-- A wake that is stored, or a drop that has read the places, leaves every kind attended. -/
theorem Inv.drop (h : Inv registry c) {i : ℕ} (hi : i < c.engine.attempts.length)
    {drop : Option Drop} {stored : Bool}
    (hattended : ∀ kind, Attended c kind →
      Attended { c with stored := stored, drops := Function.update c.drops i drop } kind) :
    Inv registry { c with stored := stored, drops := Function.update c.drops i drop } where
  asking := h.asking
  fresh j hj := by
    dsimp only at hj ⊢
    rw [Function.update_of_ne (by omega)]
    exact h.fresh j hj
  rows := h.rows
  read limits rest hstage entry hentry hmem hzero :=
    hattended _ (h.read limits rest hstage entry hentry hmem hzero)
  resting hrest bind hbind hcapped hzero :=
    hattended _ (h.resting hrest bind hbind hcapped hzero)

theorem read_inv (h : Inv registry c) {i : ℕ} {attempt : Attempt}
    (hget : c.engine.attempts[i]? = some attempt) (hdrop : c.drops i = none) :
    Inv registry { c with
      drops := Function.update c.drops i
        (some (.read (decide (c.engine.kindFree attempt.kind = 0)))) } := by
  refine h.drop (List.getElem?_eq_some_iff.mp hget).1 fun kind hkind => ?_
  rcases hkind with ⟨hzero, hreads⟩ | hstored | ⟨j, hj, hwaking⟩
  · refine .inl ⟨hzero, fun j found hfound hsame => ?_⟩
    dsimp only at hfound ⊢
    by_cases hji : j = i
    · subst hji
      rw [Function.update_self]
      rw [hget, Option.some.injEq] at hfound
      rw [hfound, hsame]
      simp [hzero]
    · rw [Function.update_of_ne hji]
      exact hreads j found hfound hsame
  · exact .inr (.inl hstored)
  · have hji : j ≠ i := by
      rintro rfl
      rw [hdrop] at hwaking
      cases hwaking
    exact .inr (.inr ⟨j, hj, by
      dsimp only
      rw [Function.update_of_ne hji]
      exact hwaking⟩)

theorem step_inv {event : Event} (h : Inv registry c) (hsteady : steady c event = true)
    (hstep : step registry c event = some c') : Inv registry c' := by
  cases event with
  | engine event => exact engine_step_inv h hsteady hstep
  | tick =>
    obtain ⟨⟨hwaiting, -⟩, heq⟩ := Option.ite_none_right_eq_some.mp hstep
    cases heq
    exact ⟨h.asking, h.fresh, (fun _ _ hnext => by cases hnext), h.read,
      fun hrest => by simp [resting] at hrest⟩
  | woken =>
    obtain ⟨⟨hwaiting, -⟩, heq⟩ := Option.ite_none_right_eq_some.mp hstep
    cases heq
    refine ⟨h.asking, h.fresh, (fun _ _ hnext => by cases hnext), fun limits rest hstage => ?_,
      fun hrest => ?_⟩
    · dsimp only at hstage
      rw [hstage] at hwaiting
      cases hwaiting
    · simp [resting] at hrest
  | notify =>
    cases hstep
    exact ⟨h.asking, h.fresh, h.rows, fun _ _ _ _ _ _ _ => .inr (.inl rfl),
      fun _ _ _ _ _ => .inr (.inl rfl)⟩
  | readPlaces i =>
    rw [step] at hstep
    split at hstep
    · rename_i attempt hget hdrop
      obtain ⟨-, heq⟩ := Option.ite_none_right_eq_some.mp hstep
      cases heq
      exact read_inv h hget hdrop
    · cases hstep
  | release i =>
    rw [step] at hstep
    split at hstep
    · rename_i wasFull hdrop
      obtain ⟨e', he, rfl⟩ := Option.map_eq_some_iff.mp hstep
      exact release_inv h hdrop he
    · cases hstep
  | wake i =>
    rw [step] at hstep
    split at hstep
    · rename_i hdrop
      cases hstep
      have hi : i < c.engine.attempts.length := by
        by_contra hi
        rw [h.fresh i (Nat.le_of_not_lt hi)] at hdrop
        cases hdrop
      exact h.drop hi fun _ _ => .inr (.inl rfl)
    · cases hstep

theorem reachable_inv (h : ((claimLoop registry maxWorkers).restrict steady).Reachable c) :
    Inv registry c := by
  refine System.Reachable.induction initial_inv (fun s event t _ hs hstep => ?_) h
  obtain ⟨hsteady, hstep⟩ := System.restrict_step hstep
  exact step_inv hs hsteady hstep

/-- While no kind is overtaken when the loop reads its places, a place freed in a kind that was full
at the last claim always wakes the loop. -/
theorem no_lost_wake (registry : Registry) (maxWorkers : ℕ) (c : ClaimLoop)
    (h : ((claimLoop registry maxWorkers).restrict steady).Reachable c) : NoLostWake c := by
  rintro ⟨hwaiting, hnext, hstored, hdrops⟩ bind hbind hcapped hzero
  have hrest : resting c = true := by
    rw [resting, hnext]
    cases hstage : c.engine.stage <;> simp_all [isWaiting]
  rcases (reachable_inv h).resting hrest bind hbind hcapped hzero with hcalm | hdue | ⟨i, hi, hwaking⟩
  · exact hcalm.1
  · rw [hstored] at hdue
    cases hdue
  · rw [hdrops i hi] at hwaking
    cases hwaking

def mailRegistry : Registry := ⟨[⟨"mail", ⟨5, 1000000, some 2⟩⟩], by decide⟩

def mailRow (id : ℕ) : JobsTable.Row := (⟨id, "mail", "null", none, 5, none, none⟩ : NewJob).row 0

def mailRound (rows : List JobsTable.Row) : List Event :=
  [.engine .acquire, .engine .count, .engine .merge, .engine .bind, .engine .bind,
    .engine (.answer rows (fun _ => false) 9 rows)] ++
    rows.map (fun _ => .engine .dispatch) ++ [.engine .dispatch]

/-- Both places are taken, and the round after that finds the kind full. -/
def fullTrace : List Event :=
  .tick :: mailRound [mailRow 1, mailRow 2] ++ mailRound []

theorem no_lost_wake_mail : ∃ c, ((claimLoop mailRegistry 4).restrict steady).Reachable c ∧
    Settled c ∧ NoLostWake c := by
  have hrun : (((claimLoop mailRegistry 4).restrict steady).run
      ((claimLoop mailRegistry 4).restrict steady).initial fullTrace).any
        (fun c => decide (Settled c)) = true := by
    decide
  obtain ⟨c, hc, hsettled⟩ := (Option.any_eq_true _ _).mp hrun
  have hreach : ((claimLoop mailRegistry 4).restrict steady).Reachable c := ⟨fullTrace, hc⟩
  exact ⟨c, hreach, of_decide_eq_true hsettled, no_lost_wake mailRegistry 4 c hreach⟩

/-- A drop reads the place that another drop has just freed, a round takes that place, and the round
after it finds the kind full. -/
def overtakenTrace : List Event :=
  .tick :: mailRound [mailRow 1, mailRow 2] ++
    [.engine (.releaseSlot 0), .engine (.releaseSlot 1), .readPlaces 1, .release 1, .wake 1,
      .readPlaces 0] ++ mailRound [mailRow 3] ++ mailRound [] ++ [.woken] ++ mailRound [] ++
    [.release 0]

theorem overtaken_loses_wake : ∃ c, (claimLoop mailRegistry 4).Reachable c ∧ ¬NoLostWake c := by
  have hrun : ((claimLoop mailRegistry 4).run (claimLoop mailRegistry 4).initial
      overtakenTrace).any (fun c => decide (¬NoLostWake c)) = true := by
    decide
  obtain ⟨c, hc, hlost⟩ := (Option.any_eq_true _ _).mp hrun
  exact ⟨c, ⟨overtakenTrace, hc⟩, of_decide_eq_true hlost⟩

end JobsWakeup
