import ServiceTemplate.TransitionSystem

/-! The transaction seam: one call of `transaction`, from the pool's connection through `BEGIN`,
the closure's statements, the liveness probe and `COMMIT`, against a server session that holds
an open transaction with an aborted flag and pending writes. -/
namespace PostgresTransaction

open TransitionSystem

inductive Isolation where
  | serverDefault
  | readCommitted
  | repeatableRead
  | serializable
  deriving DecidableEq, Repr

structure TxOptions where
  isolation : Isolation
  readOnly : Bool
  deriving DecidableEq, Repr

def TxOptions.beginStatement (options : TxOptions) : Option String :=
  match options.isolation, options.readOnly with
  | .serverDefault, false => none
  | .serverDefault, true => some "BEGIN READ ONLY"
  | .readCommitted, false => some "BEGIN ISOLATION LEVEL READ COMMITTED"
  | .readCommitted, true => some "BEGIN ISOLATION LEVEL READ COMMITTED READ ONLY"
  | .repeatableRead, false => some "BEGIN ISOLATION LEVEL REPEATABLE READ"
  | .repeatableRead, true => some "BEGIN ISOLATION LEVEL REPEATABLE READ READ ONLY"
  | .serializable, false => some "BEGIN ISOLATION LEVEL SERIALIZABLE"
  | .serializable, true => some "BEGIN ISOLATION LEVEL SERIALIZABLE READ ONLY"

/-- The methods of the executor. The others of the trait are built from these. -/
inductive Method where
  | fetchMany
  | fetchOptional
  | prepareWith
  | describe
  deriving DecidableEq, Repr

/-- How a call ends. `closure` is the closure's own error, `cancelled` a dropped future. -/
inductive Outcome where
  | acquire
  | begin
  | closure
  | commitFailed
  | commitUnknown
  | committed
  | cancelled
  deriving DecidableEq, Repr

/-- The SQLSTATE of a driver error, if it has one of the server's form. -/
def sqlstate (code : Option String) : Option String :=
  code.filter fun code =>
    code.toList.length = 5 ∧ code.toList.all fun c => c.isUpper || c.isDigit

def startsWith (code start : String) : Bool := start.toList.isPrefixOf code.toList

def rejected (code : String) : Bool :=
  startsWith code "23" || (startsWith code "40" && code != "40003") || code == "25P02"

def classifyCommit (error : Option String) : Outcome :=
  if (sqlstate error).any rejected then .commitFailed else .commitUnknown

/-- The server's side of the session. A session that is not connected has lost its
transaction. -/
structure Server (ω : Type) where
  connected : Bool
  opened : Bool
  aborted : Bool
  pending : List ω
  deriving DecidableEq, Repr

namespace Server

variable {ω : Type}

def idle (connected : Bool) : Server ω := ⟨connected, false, false, []⟩

def fresh : Server ω := ⟨true, true, false, []⟩

def alive (s : Server ω) : Bool := s.connected && s.opened && !s.aborted

/-- What a statement without a complete answer, or code that holds the connection itself, may
leave behind: the transaction stays open, aborted or not and with any pending writes, or the
session is lost. Transaction control is not issued inside the closure. -/
def mayBecome (s t : Server ω) : Bool :=
  if t.connected then s.connected && t.opened == s.opened else !t.opened

end Server

inductive Phase where
  | acquiring
  | beginning (statement : Option String)
  | closure
  | statement (method : Method) (failed : Bool)
  | probing
  | committing
  | awaiting
  | ended (outcome : Outcome)
  deriving DecidableEq, Repr

/-- Where the pooled connection is. Returning it sends what is queued on it first. -/
inductive Link where
  | absent
  | held
  | returning
  | pooled
  | closed
  deriving DecidableEq, Repr

/-- One call. `visible` are the writes other sessions can see. The last fields record what
happened: whether the server answered `BEGIN`, whether the probe was answered, whether the
transaction was alive when `COMMIT` was sent, whether it was acknowledged, the error it was
answered with, and whether the server committed. -/
structure State (ω : Type) where
  phase : Phase
  notAborted : Bool
  discard : Bool
  link : Link
  server : Server ω
  visible : List ω
  begun : Bool
  probed : Bool
  aliveAtCommit : Option Bool
  acknowledged : Bool
  failure : Option (Option String)
  durable : Bool
  deriving DecidableEq, Repr

inductive Event (ω : Type) where
  | acquired (connected : Bool)
  | acquireFailed
  | begun
  | beginFailed (t : Server ω)
  | start (method : Method)
  | item
  | itemFailed (t : Server ω)
  | streamEnded (writes : List ω)
  | answered (writes : List ω) (t : Server ω)
  | answerFailed (t : Server ω)
  | dropped (t : Server ω)
  | connection (t : Server ω)
  | returned (ok : Bool)
  | probeAnswered
  | probeFailed (t : Server ω)
  | sendCommit
  | commitAcknowledged
  | commitFailed (error : Option String) (applied : Bool) (t : Server ω)
  | cancelled (applied : Bool) (t : Server ω)
  | pinged
  | pingFailed

section Steps

variable {ω : Type}

def initial : State ω :=
  ⟨.acquiring, false, true, .absent, Server.idle true, [], false, false, none, false, none, false⟩

/-- Leaves the call. The guard closes the connection while `discard` is set; otherwise the
dropped transaction has queued its rollback and the connection goes back to the pool. -/
def State.leave (s : State ω) (outcome : Outcome) : State ω :=
  { s with
    phase := .ended outcome
    link := if s.link = .absent then .absent else if s.discard then .closed else .returning }

def State.apply (s : State ω) (applied : Bool) (t : Server ω) : State ω :=
  { s with
    server := t
    visible := if applied then s.visible ++ s.server.pending else s.visible
    durable := s.durable || applied }

def State.prove (s : State ω) (writes : List ω) : State ω :=
  { s with
    phase := .closure
    notAborted := true
    server := { s.server with pending := s.server.pending ++ writes } }

/-- `aborts` are the SQLSTATEs with which the server refuses a `COMMIT` and rolls back. -/
def step (options : TxOptions) (aborts : String → Bool) (s : State ω) :
    Event ω → Option (State ω)
  | .acquired connected =>
    if s.phase = .acquiring then
      some { s with
        phase := .beginning options.beginStatement
        link := .held
        discard := true
        server := Server.idle connected }
    else none
  | .acquireFailed => if s.phase = .acquiring then some (s.leave .acquire) else none
  | .begun =>
    if s.phase = .beginning options.beginStatement ∧ s.server.connected then
      some { s with
        phase := .closure
        discard := false
        notAborted := true
        server := Server.fresh
        begun := true }
    else none
  | .beginFailed t =>
    if s.phase = .beginning options.beginStatement then
      some (State.leave { s with server := t } .begin)
    else none
  | .start method =>
    if s.phase = .closure then some { s with phase := .statement method false, notAborted := false }
    else none
  | .item =>
    match s.phase with
    | .statement .fetchMany _ => some s
    | _ => none
  | .itemFailed t =>
    match s.phase with
    | .statement .fetchMany _ =>
      if s.server.mayBecome t then
        some { s with phase := .statement .fetchMany true, server := t }
      else none
    | _ => none
  | .streamEnded writes =>
    match s.phase with
    | .statement .fetchMany false => if s.server.alive then some (s.prove writes) else none
    -- The stream also ends after an error it yielded.
    | .statement .fetchMany true => some { s with phase := .closure, notAborted := false }
    | _ => none
  | .answered writes t =>
    match s.phase with
    | .statement .fetchOptional _ => if s.server.alive then some (s.prove writes) else none
    | .statement .prepareWith _ | .statement .describe _ =>
      if s.server.mayBecome t then some { s with phase := .closure, server := t } else none
    | _ => none
  | .answerFailed t =>
    match s.phase with
    | .statement .fetchMany _ => none
    | .statement _ _ =>
      if s.server.mayBecome t then some { s with phase := .closure, server := t } else none
    | _ => none
  | .dropped t =>
    match s.phase with
    | .statement _ _ =>
      if s.server.mayBecome t then some { s with phase := .closure, server := t } else none
    | _ => none
  | .connection t =>
    if s.phase = .closure ∧ s.server.mayBecome t then
      some { s with notAborted := false, server := t }
    else none
  | .returned ok =>
    if s.phase = .closure then
      if ok then
        some { s with
          phase := if options.readOnly || s.notAborted then .committing else .probing }
      else some (s.leave .closure)
    else none
  | .probeAnswered =>
    if s.phase = .probing ∧ s.server.alive then
      some { s with phase := .committing, probed := true }
    else none
  | .probeFailed t =>
    if s.phase = .probing ∧ s.server.mayBecome t then
      some (State.leave { s with server := t } .commitFailed)
    else none
  | .sendCommit =>
    if s.phase = .committing then
      some { s with phase := .awaiting, aliveAtCommit := some s.server.alive }
    else none
  | .commitAcknowledged =>
    -- An aborted transaction is rolled back under the same answer.
    if s.phase = .awaiting ∧ s.server.connected ∧ s.server.opened then
      some (State.leave
        { s.apply s.server.alive (Server.idle true) with acknowledged := true } .committed)
    else none
  | .commitFailed error applied t =>
    if s.phase = .awaiting ∧ (applied → s.server.alive ∧ t.opened = false) ∧
        ((sqlstate error).any aborts → applied = false) then
      some (State.leave { s.apply applied t with failure := some error } (classifyCommit error))
    else none
  | .cancelled applied t =>
    match s.phase with
    | .acquiring => some (s.leave .cancelled)
    | .beginning _ => some (State.leave { s with server := t } .cancelled)
    | .closure | .statement _ _ | .probing | .committing =>
      if s.server.mayBecome t then some (State.leave { s with server := t } .cancelled) else none
    | .awaiting =>
      if applied → s.server.alive ∧ t.opened = false then
        some ((s.apply applied t).leave .cancelled)
      else none
    | .ended _ => none
  | .pinged =>
    if s.link = .returning ∧ s.server.connected then
      some { s with link := .pooled, server := Server.idle true }
    else none
  | .pingFailed => if s.link = .returning then some { s with link := .closed } else none

def seam (ω : Type) (options : TxOptions) (aborts : String → Bool) : System (State ω) (Event ω) :=
  ⟨initial, step options aborts⟩

end Steps

/-- What PostgreSQL documents of a `COMMIT` it answers with an error of these classes: the
transaction is rolled back. -/
structure CommitRules (aborts : String → Bool) : Prop where
  integrityConstraint : ∀ code, startsWith code "23" = true → aborts code = true
  transactionRollback : ∀ code, startsWith code "40" = true → code ≠ "40003" → aborts code = true
  inFailedTransaction : aborts "25P02" = true

theorem rejected_aborts {aborts : String → Bool} (rules : CommitRules aborts) {code : String}
    (h : rejected code = true) : aborts code = true := by
  simp only [rejected, Bool.or_eq_true, Bool.and_eq_true, bne_iff_ne, beq_iff_eq] at h
  rcases h with (h | ⟨h, hne⟩) | h
  · exact rules.integrityConstraint code h
  · exact rules.transactionRollback code h hne
  · rw [h]
    exact rules.inFailedTransaction

section Safety

variable {ω : Type} {options : TxOptions} {aborts : String → Bool} {s t : State ω}

structure Unsent (s : State ω) : Prop where
  visible : s.visible = []
  durable : s.durable = false
  aliveAtCommit : s.aliveAtCommit = none
  acknowledged : s.acknowledged = false
  failure : s.failure = none

structure Begun (s : State ω) : Prop where
  begun : s.begun = true
  discard : s.discard = false
  link : s.link = .held

/-- The tracker's proof is right, and without it a commit needs the probe's. -/
structure Proven (options : TxOptions) (s : State ω) : Prop where
  tracker : s.notAborted = true → s.server.alive = true
  alive : options.readOnly = false → s.server.alive = true
  suspected : options.readOnly = false → s.notAborted = false → s.probed = true

structure Ended (options : TxOptions) (aborts : String → Bool) (s : State ω) (outcome : Outcome) :
    Prop where
  visible : s.durable = false → s.visible = []
  alive : s.durable = true → s.aliveAtCommit = some true
  suspected : s.durable = true → options.readOnly = false → s.notAborted = false → s.probed = true
  committed : outcome = .committed → s.acknowledged = true ∧
    (options.readOnly = false → s.aliveAtCommit = some true ∧ s.durable = true)
  refused : outcome ∈ [.acquire, .begin, .closure, .commitFailed] → s.durable = false
  undecided : ∀ error, s.failure = some error →
    (∀ code, sqlstate error = some code → aborts code = false) → outcome = .commitUnknown
  unbegun : s.begun = false → s.link = .absent ∨ s.link = .closed
  pooled : s.link = .pooled → s.server.opened = false

def Inv (options : TxOptions) (aborts : String → Bool) (s : State ω) : Prop :=
  match s.phase with
  | .acquiring => Unsent s ∧ s.begun = false ∧ s.link = .absent ∧ s.notAborted = false
  | .beginning _ =>
    Unsent s ∧ s.begun = false ∧ s.link = .held ∧ s.discard = true ∧ s.notAborted = false
  | .closure => Unsent s ∧ Begun s ∧ (s.notAborted = true → s.server.alive = true)
  | .statement _ _ => Unsent s ∧ Begun s ∧ s.notAborted = false
  | .probing => Unsent s ∧ Begun s ∧ s.notAborted = false ∧ options.readOnly = false
  | .committing => Unsent s ∧ Begun s ∧ Proven options s
  | .awaiting => s.visible = [] ∧ s.durable = false ∧ s.acknowledged = false ∧ s.failure = none ∧
      s.aliveAtCommit = some s.server.alive ∧ Begun s ∧ Proven options s
  | .ended outcome => Ended options aborts s outcome

theorem Unsent.leave {outcome : Outcome} (h : Unsent s) (hne : outcome ≠ .committed)
    (hlink : s.begun = false → s.link = .absent ∨ s.discard = true) :
    Ended options aborts (s.leave outcome) outcome where
  visible := fun _ => h.visible
  alive := fun hdurable => absurd (h.durable.symm.trans hdurable) Bool.false_ne_true
  suspected := fun hdurable => absurd (h.durable.symm.trans hdurable) Bool.false_ne_true
  committed := fun heq => absurd heq hne
  refused := fun _ => h.durable
  undecided := by
    intro error hfailure
    exact absurd (h.failure.symm.trans hfailure) (by simp)
  unbegun := by
    intro hbegun
    simp only [State.leave]
    rcases hlink hbegun with habsent | hdiscard
    · simp [habsent]
    · by_cases habsent : s.link = .absent
      · simp [habsent]
      · simp [habsent, hdiscard]
  pooled := by
    simp only [State.leave]
    split_ifs <;> simp

theorem Unsent.closure_left {outcome : Outcome} (h : Unsent s) (hb : Begun s)
    (hne : outcome ≠ .committed) : Ended options aborts (s.leave outcome) outcome :=
  h.leave hne fun hbegun => absurd (hb.begun.symm.trans hbegun) (by simp)

/-- A complete answer without an error restores the proof. -/
theorem Unsent.proved (h : Unsent s) (hb : Begun s) (halive : s.server.alive = true)
    (writes : List ω) : Inv options aborts (s.prove writes) :=
  ⟨{ h with }, { hb with }, fun _ => halive⟩

/-- Any other end of a statement leaves it withdrawn. -/
theorem Unsent.interrupted (h : Unsent s) (hb : Begun s) {proof : Bool} (hproof : proof = false)
    (u : Server ω) : Inv options aborts
      { s with phase := .closure, notAborted := proof, server := u } :=
  ⟨{ h with }, { hb with }, fun h => absurd (hproof.symm.trans h) (by simp)⟩

theorem interrupted_step {method : Method} {failed : Bool} {u : Server ω}
    (hphase : s.phase = .statement method failed) (hinv : Inv options aborts s)
    (h : (if s.server.mayBecome u then some { s with phase := .closure, server := u } else none) =
      some t) : Inv options aborts t := by
  simp only [Option.ite_none_right_eq_some, Option.some.injEq] at h
  obtain ⟨-, rfl⟩ := h
  simp only [Inv, hphase] at hinv
  exact hinv.1.interrupted hinv.2.1 hinv.2.2 u

theorem awaiting_left (hinv : Inv options aborts s) (hphase : s.phase = .awaiting)
    {applied : Bool} (hserver : applied = true → s.server.alive = true) (u : Server ω)
    {outcome : Outcome} (hne : outcome ≠ .committed)
    (hrefused : outcome ∈ [.acquire, .begin, .closure, .commitFailed] → applied = false)
    {failure : Option (Option String)} (hundecided : ∀ error, failure = some error →
      (∀ code, sqlstate error = some code → aborts code = false) → outcome = .commitUnknown) :
    Ended options aborts (State.leave { s.apply applied u with failure := failure } outcome)
      outcome := by
  simp only [Inv, hphase] at hinv
  obtain ⟨hvisible, hdurable, -, -, halive, hbegun, hproven⟩ := hinv
  have happlied : (s.apply applied u).durable = applied := by
    simp [State.apply, hdurable]
  exact {
    visible := by
      intro h
      have : applied = false := happlied.symm.trans h
      simp [State.leave, State.apply, this, hvisible]
    alive := by
      intro h
      exact halive.trans (congrArg some (hserver (happlied.symm.trans h)))
    suspected := fun _ => hproven.suspected
    committed := fun heq => absurd heq hne
    refused := fun hmem => happlied.trans (hrefused hmem)
    undecided := hundecided
    unbegun := fun h => absurd (hbegun.begun.symm.trans h) (by simp)
    pooled := by
      simp [State.leave, State.apply, hbegun.link, hbegun.discard] }

theorem classify_commit_error (error : Option String) : classifyCommit error ≠ .committed := by
  simp only [classifyCommit]
  split_ifs <;> simp

theorem classify_commit_aborts (rules : CommitRules aborts) {error : Option String}
    (h : classifyCommit error ∈ [.acquire, .begin, .closure, .commitFailed]) :
    (sqlstate error).any aborts = true := by
  by_cases hrejected : (sqlstate error).any rejected = true
  · rw [Option.any_eq_true] at hrejected ⊢
    obtain ⟨code, hcode, hcodeRejected⟩ := hrejected
    exact ⟨code, hcode, rejected_aborts rules hcodeRejected⟩
  · simp [classifyCommit, hrejected] at h

theorem classify_commit_open (rules : CommitRules aborts) {error : Option String}
    (h : ∀ code, sqlstate error = some code → aborts code = false) :
    classifyCommit error = .commitUnknown := by
  by_cases hrejected : (sqlstate error).any rejected = true
  · rw [Option.any_eq_true] at hrejected
    obtain ⟨code, hcode, hcodeRejected⟩ := hrejected
    exact absurd ((h code hcode).symm.trans (rejected_aborts rules hcodeRejected)) (by simp)
  · simp [classifyCommit, hrejected]

theorem cancelled_step {u : Server ω} (hunsent : Unsent s) (hbegun : Begun s)
    (h : (if s.server.mayBecome u then some (State.leave { s with server := u } .cancelled)
      else none) = some t) : Inv options aborts t := by
  simp only [Option.ite_none_right_eq_some, Option.some.injEq] at h
  obtain ⟨-, rfl⟩ := h
  have hkept : Unsent { s with server := u } := { hunsent with }
  exact hkept.closure_left { hbegun with } (by simp)

theorem inv_returning (hinv : Inv options aborts s) (hlink : s.link = .returning) :
    ∃ outcome, s.phase = .ended outcome ∧ Ended options aborts s outcome := by
  have hheld : ¬ Begun s := fun h => by simp [h.link] at hlink
  cases hphase : s.phase with
  | ended outcome =>
    simp only [Inv, hphase] at hinv
    exact ⟨outcome, rfl, hinv⟩
  | acquiring =>
    simp only [Inv, hphase] at hinv
    simp [hinv.2.2.1] at hlink
  | beginning statement =>
    simp only [Inv, hphase] at hinv
    simp [hinv.2.2.1] at hlink
  | awaiting =>
    simp only [Inv, hphase] at hinv
    exact absurd hinv.2.2.2.2.2.1 hheld
  | closure | statement | probing | committing =>
    simp only [Inv, hphase] at hinv
    exact absurd hinv.2.1 hheld

theorem step_preserves_inv (rules : CommitRules aborts) {e : Event ω}
    (hstep : step options aborts s e = some t) (hinv : Inv options aborts s) :
    Inv options aborts t := by
  cases e with
  | acquired connected =>
    simp only [step, Option.ite_none_right_eq_some, Option.some.injEq] at hstep
    obtain ⟨hphase, rfl⟩ := hstep
    simp only [Inv, hphase] at hinv
    obtain ⟨hunsent, hbegun, -, htracker⟩ := hinv
    exact ⟨{ hunsent with }, hbegun, rfl, rfl, htracker⟩
  | acquireFailed =>
    simp only [step, Option.ite_none_right_eq_some, Option.some.injEq] at hstep
    obtain ⟨hphase, rfl⟩ := hstep
    simp only [Inv, hphase] at hinv
    exact hinv.1.leave (by simp) fun _ => .inl hinv.2.2.1
  | begun =>
    simp only [step, Option.ite_none_right_eq_some, Option.some.injEq] at hstep
    obtain ⟨⟨hphase, -⟩, rfl⟩ := hstep
    simp only [Inv, hphase] at hinv
    exact ⟨{ hinv.1 with }, ⟨rfl, rfl, hinv.2.2.1⟩, fun _ => rfl⟩
  | beginFailed u =>
    simp only [step, Option.ite_none_right_eq_some, Option.some.injEq] at hstep
    obtain ⟨hphase, rfl⟩ := hstep
    simp only [Inv, hphase] at hinv
    have hunsent : Unsent { s with server := u } := { hinv.1 with }
    exact hunsent.leave (by simp) fun _ => .inr hinv.2.2.2.1
  | start method =>
    simp only [step, Option.ite_none_right_eq_some, Option.some.injEq] at hstep
    obtain ⟨hphase, rfl⟩ := hstep
    simp only [Inv, hphase] at hinv
    exact ⟨{ hinv.1 with }, { hinv.2.1 with }, rfl⟩
  | item =>
    simp only [step] at hstep
    split at hstep
    · cases hstep
      exact hinv
    · cases hstep
  | itemFailed u =>
    simp only [step] at hstep
    split at hstep
    · rename_i hphase
      simp only [Option.ite_none_right_eq_some, Option.some.injEq] at hstep
      obtain ⟨-, rfl⟩ := hstep
      simp only [Inv, hphase] at hinv
      exact ⟨{ hinv.1 with }, { hinv.2.1 with }, hinv.2.2⟩
    · cases hstep
  | streamEnded writes =>
    simp only [step] at hstep
    split at hstep
    · rename_i hphase
      simp only [Option.ite_none_right_eq_some, Option.some.injEq] at hstep
      obtain ⟨halive, rfl⟩ := hstep
      simp only [Inv, hphase] at hinv
      exact Unsent.proved hinv.1 hinv.2.1 halive writes
    · rename_i hphase
      cases hstep
      simp only [Inv, hphase] at hinv
      exact Unsent.interrupted hinv.1 hinv.2.1 rfl s.server
    · cases hstep
  | answered writes u =>
    simp only [step] at hstep
    split at hstep
    · rename_i hphase
      simp only [Option.ite_none_right_eq_some, Option.some.injEq] at hstep
      obtain ⟨halive, rfl⟩ := hstep
      simp only [Inv, hphase] at hinv
      exact Unsent.proved hinv.1 hinv.2.1 halive writes
    · rename_i hphase
      exact interrupted_step hphase hinv hstep
    · rename_i hphase
      exact interrupted_step hphase hinv hstep
    · cases hstep
  | answerFailed u =>
    simp only [step] at hstep
    split at hstep
    · cases hstep
    · rename_i hphase
      exact interrupted_step hphase hinv hstep
    · cases hstep
  | dropped u =>
    simp only [step] at hstep
    split at hstep
    · rename_i hphase
      exact interrupted_step hphase hinv hstep
    · cases hstep
  | connection u =>
    simp only [step, Option.ite_none_right_eq_some, Option.some.injEq] at hstep
    obtain ⟨⟨hphase, -⟩, rfl⟩ := hstep
    simp only [Inv, hphase] at hinv
    simp only [Inv, hphase]
    exact ⟨{ hinv.1 with }, { hinv.2.1 with }, by simp⟩
  | returned ok =>
    simp only [step, Option.ite_none_right_eq_some] at hstep
    obtain ⟨hphase, hstep⟩ := hstep
    simp only [Inv, hphase] at hinv
    obtain ⟨hunsent, hbegun, htracker⟩ := hinv
    cases ok with
    | false =>
      cases hstep
      exact hunsent.closure_left hbegun (by simp)
    | true =>
      cases hstep
      by_cases hskip : (options.readOnly || s.notAborted) = true
      · simp only [hskip, if_true]
        have hproof : options.readOnly = false → s.notAborted = true := by
          intro hwrites
          simpa [hwrites] using hskip
        refine ⟨{ hunsent with }, { hbegun with }, htracker, ?_, ?_⟩
        · intro hwrites
          exact htracker (hproof hwrites)
        · intro hwrites hsuspected
          exact absurd ((hproof hwrites).symm.trans hsuspected) (by simp)
      · simp only [hskip]
        rw [Bool.or_eq_true, not_or, Bool.not_eq_true, Bool.not_eq_true] at hskip
        exact ⟨{ hunsent with }, { hbegun with }, hskip.2, hskip.1⟩
  | probeAnswered =>
    simp only [step, Option.ite_none_right_eq_some, Option.some.injEq] at hstep
    obtain ⟨⟨hphase, halive⟩, rfl⟩ := hstep
    simp only [Inv, hphase] at hinv
    obtain ⟨hunsent, hbegun, -, -⟩ := hinv
    exact ⟨{ hunsent with }, { hbegun with }, fun _ => halive, fun _ => halive, fun _ _ => rfl⟩
  | probeFailed u =>
    simp only [step, Option.ite_none_right_eq_some, Option.some.injEq] at hstep
    obtain ⟨⟨hphase, -⟩, rfl⟩ := hstep
    simp only [Inv, hphase] at hinv
    have hunsent : Unsent { s with server := u } := { hinv.1 with }
    exact hunsent.closure_left { hinv.2.1 with } (by simp)
  | sendCommit =>
    simp only [step, Option.ite_none_right_eq_some, Option.some.injEq] at hstep
    obtain ⟨hphase, rfl⟩ := hstep
    simp only [Inv, hphase] at hinv
    obtain ⟨hunsent, hbegun, hproven⟩ := hinv
    exact ⟨hunsent.visible, hunsent.durable, hunsent.acknowledged, hunsent.failure, rfl,
      { hbegun with }, { hproven with }⟩
  | commitAcknowledged =>
    simp only [step, Option.ite_none_right_eq_some, Option.some.injEq] at hstep
    obtain ⟨⟨hphase, -⟩, rfl⟩ := hstep
    simp only [Inv, hphase] at hinv
    obtain ⟨hvisible, hdurable, -, hfailure, halive, hbegun, hproven⟩ := hinv
    have happlied : (s.apply s.server.alive (Server.idle true)).durable = s.server.alive := by
      simp [State.apply, hdurable]
    exact {
      visible := by
        intro h
        have hdead : s.server.alive = false := happlied.symm.trans h
        simp [State.leave, State.apply, hdead, hvisible]
      alive := fun h => halive.trans (congrArg some (happlied.symm.trans h))
      suspected := fun _ => hproven.suspected
      committed := by
        intro _
        refine ⟨rfl, ?_⟩
        intro hwrites
        have hserver := hproven.alive hwrites
        exact ⟨halive.trans (congrArg some hserver), happlied.trans hserver⟩
      refused := by simp
      undecided := by
        intro error h
        exact absurd (hfailure.symm.trans h) (by simp)
      unbegun := fun h => absurd (hbegun.begun.symm.trans h) (by simp)
      pooled := fun _ => rfl }
  | commitFailed error applied u =>
    simp only [step, Option.ite_none_right_eq_some, Option.some.injEq] at hstep
    obtain ⟨⟨hphase, hserver, haborts⟩, rfl⟩ := hstep
    apply awaiting_left hinv hphase fun h => (hserver h).1
    · exact classify_commit_error error
    · intro hmem
      exact haborts (classify_commit_aborts rules hmem)
    · rintro _ ⟨⟩ hopen
      exact classify_commit_open rules hopen
  | cancelled applied u =>
    simp only [step] at hstep
    split at hstep
    · rename_i hphase
      cases hstep
      simp only [Inv, hphase] at hinv
      exact hinv.1.leave (by simp) fun _ => .inl hinv.2.2.1
    · rename_i hphase
      cases hstep
      simp only [Inv, hphase] at hinv
      have hunsent : Unsent { s with server := u } := { hinv.1 with }
      exact hunsent.leave (by simp) fun _ => .inr hinv.2.2.2.1
    · rename_i hphase
      simp only [Inv, hphase] at hinv
      exact cancelled_step hinv.1 hinv.2.1 hstep
    · rename_i hphase
      simp only [Inv, hphase] at hinv
      exact cancelled_step hinv.1 hinv.2.1 hstep
    · rename_i hphase
      simp only [Inv, hphase] at hinv
      exact cancelled_step hinv.1 hinv.2.1 hstep
    · rename_i hphase
      simp only [Inv, hphase] at hinv
      exact cancelled_step hinv.1 hinv.2.1 hstep
    · rename_i hphase
      simp only [Option.ite_none_right_eq_some, Option.some.injEq] at hstep
      obtain ⟨hserver, rfl⟩ := hstep
      have hfailure : s.failure = none := by
        simp only [Inv, hphase] at hinv
        exact hinv.2.2.2.1
      apply awaiting_left hinv hphase fun h => (hserver h).1
      · simp
      · simp
      · intro error h
        exact absurd (hfailure.symm.trans h) (by simp)
    · cases hstep
  | pinged =>
    simp only [step, Option.ite_none_right_eq_some, Option.some.injEq] at hstep
    obtain ⟨⟨hlink, -⟩, rfl⟩ := hstep
    obtain ⟨outcome, hphase, hended⟩ := inv_returning hinv hlink
    simp only [Inv, hphase]
    have hbegun : s.begun ≠ false := by
      intro h
      rcases hended.unbegun h with habsent | hclosed
      · simp [habsent] at hlink
      · simp [hclosed] at hlink
    exact { hended with
      unbegun := fun h => absurd h hbegun
      pooled := fun _ => rfl }
  | pingFailed =>
    simp only [step, Option.ite_none_right_eq_some, Option.some.injEq] at hstep
    obtain ⟨hlink, rfl⟩ := hstep
    obtain ⟨outcome, hphase, hended⟩ := inv_returning hinv hlink
    simp only [Inv, hphase]
    exact { hended with unbegun := fun _ => .inr rfl, pooled := by simp }

theorem reachable_inv (rules : CommitRules aborts) (h : (seam ω options aborts).Reachable s) :
    Inv options aborts s := by
  apply System.Reachable.induction (M := seam ω options aborts) _ _ h
  · exact ⟨⟨rfl, rfl, rfl, rfl, rfl⟩, rfl, rfl, rfl⟩
  · intro u e v _ hinv hstep
    exact step_preserves_inv rules hstep hinv

/-- Before the call has ended nothing is visible and nothing was returned to the pool. -/
theorem inv_running (hinv : Inv options aborts s) (h : ∀ outcome, s.phase ≠ .ended outcome) :
    s.visible = [] ∧ s.failure = none ∧ (s.link = .absent ∨ s.link = .held) ∧
      (s.notAborted = true → s.server.alive = true) := by
  have hwithdrawn : s.notAborted = false → s.notAborted = true → s.server.alive = true :=
    fun hfalse htrue => absurd (hfalse.symm.trans htrue) (by simp)
  cases hphase : s.phase with
  | ended outcome => exact absurd hphase (h outcome)
  | acquiring =>
    simp only [Inv, hphase] at hinv
    exact ⟨hinv.1.visible, hinv.1.failure, .inl hinv.2.2.1, hwithdrawn hinv.2.2.2⟩
  | beginning statement =>
    simp only [Inv, hphase] at hinv
    exact ⟨hinv.1.visible, hinv.1.failure, .inr hinv.2.2.1, hwithdrawn hinv.2.2.2.2⟩
  | closure =>
    simp only [Inv, hphase] at hinv
    exact ⟨hinv.1.visible, hinv.1.failure, .inr hinv.2.1.link, hinv.2.2⟩
  | statement method failed =>
    simp only [Inv, hphase] at hinv
    exact ⟨hinv.1.visible, hinv.1.failure, .inr hinv.2.1.link, hwithdrawn hinv.2.2⟩
  | probing =>
    simp only [Inv, hphase] at hinv
    exact ⟨hinv.1.visible, hinv.1.failure, .inr hinv.2.1.link, hwithdrawn hinv.2.2.1⟩
  | committing =>
    simp only [Inv, hphase] at hinv
    exact ⟨hinv.1.visible, hinv.1.failure, .inr hinv.2.1.link, hinv.2.2.tracker⟩
  | awaiting =>
    simp only [Inv, hphase] at hinv
    obtain ⟨hvisible, -, -, hfailure, -, hbegun, hproven⟩ := hinv
    exact ⟨hvisible, hfailure, .inr hbegun.link, hproven.tracker⟩

/-- Visible writes were committed by a live transaction, on the tracker's or the probe's proof. -/
theorem visible_proven (hinv : Inv options aborts s) (hvisible : s.visible ≠ []) :
    ∃ outcome, s.phase = .ended outcome ∧ s.durable = true ∧ Ended options aborts s outcome := by
  by_cases hended : ∃ outcome, s.phase = .ended outcome
  · obtain ⟨outcome, hphase⟩ := hended
    simp only [Inv, hphase] at hinv
    refine ⟨outcome, hphase, ?_, hinv⟩
    by_contra hdurable
    exact hvisible (hinv.visible (by simpa using hdurable))
  · rw [not_exists] at hended
    exact absurd (inv_running hinv hended).1 hvisible

/-- In every state of every call: (a) a transaction that may write is reported committed only if
it was alive when `COMMIT` was sent and the acknowledged `COMMIT` took effect; (b) nothing is
visible after the closure's error, of a transaction that was not alive at `COMMIT`, or of one
that was suspected to be aborted and not probed; (c) nothing is visible after `commitFailed`, and
an answer that leaves the outcome open is `commitUnknown`; (d) while the call runs, the tracker's
proof is right; (e) a connection whose `BEGIN` was not answered is not returned to the pool, and
no connection in the pool is inside a transaction. -/
theorem reports_only_durable_commits (rules : CommitRules aborts)
    (h : (seam ω options aborts).Reachable s) :
    (s.phase = .ended .committed → options.readOnly = false →
      s.aliveAtCommit = some true ∧ s.acknowledged = true ∧ s.durable = true) ∧
    ((s.phase = .ended .closure → s.visible = []) ∧
      (s.aliveAtCommit ≠ some true → s.visible = []) ∧
      (options.readOnly = false → s.notAborted = false → s.probed = false → s.visible = [])) ∧
    ((s.phase = .ended .commitFailed → s.visible = []) ∧
      ∀ error, s.failure = some error →
        (∀ code, sqlstate error = some code → aborts code = false) →
          s.phase = .ended .commitUnknown) ∧
    (s.notAborted = true → (∀ outcome, s.phase ≠ .ended outcome) → s.server.alive = true) ∧
    ((s.begun = false → s.link ≠ .returning ∧ s.link ≠ .pooled) ∧
      (s.link = .pooled → s.server.opened = false)) := by
  have hinv := reachable_inv rules h
  have hended : ∀ {outcome}, s.phase = .ended outcome → Ended options aborts s outcome := by
    intro outcome hphase
    simpa only [Inv, hphase] using hinv
  have hquiet : ∀ {outcome}, s.phase = .ended outcome →
      outcome ∈ [.acquire, .begin, .closure, .commitFailed] → s.visible = [] := by
    intro outcome hphase hmem
    exact (hended hphase).visible ((hended hphase).refused hmem)
  refine ⟨?_, ⟨?_, ?_, ?_⟩, ⟨?_, ?_⟩, ?_, ?_, ?_⟩
  · intro hphase hwrites
    obtain ⟨hacknowledged, hcommit⟩ := (hended hphase).committed rfl
    exact ⟨(hcommit hwrites).1, hacknowledged, (hcommit hwrites).2⟩
  · intro hphase
    exact hquiet hphase (by simp)
  · intro hdead
    by_contra hvisible
    obtain ⟨outcome, -, hdurable, hend⟩ := visible_proven hinv hvisible
    exact hdead (hend.alive hdurable)
  · intro hwrites hsuspected hprobed
    by_contra hvisible
    obtain ⟨outcome, -, hdurable, hend⟩ := visible_proven hinv hvisible
    exact absurd (hprobed.symm.trans (hend.suspected hdurable hwrites hsuspected)) (by simp)
  · intro hphase
    exact hquiet hphase (by simp)
  · intro error hfailure hopen
    by_cases hend : ∃ outcome, s.phase = .ended outcome
    · obtain ⟨outcome, hphase⟩ := hend
      rw [hphase, (hended hphase).undecided error hfailure hopen]
    · rw [not_exists] at hend
      exact absurd ((inv_running hinv hend).2.1.symm.trans hfailure) (by simp)
  · intro hproof hrunning
    exact (inv_running hinv hrunning).2.2.2 hproof
  · intro hbegun
    by_cases hend : ∃ outcome, s.phase = .ended outcome
    · obtain ⟨outcome, hphase⟩ := hend
      rcases (hended hphase).unbegun hbegun with hlink | hlink <;> simp [hlink]
    · rw [not_exists] at hend
      rcases (inv_running hinv hend).2.2.1 with hlink | hlink <;> simp [hlink]
  · intro hpooled
    by_cases hend : ∃ outcome, s.phase = .ended outcome
    · obtain ⟨outcome, hphase⟩ := hend
      exact (hended hphase).pooled hpooled
    · rw [not_exists] at hend
      rcases (inv_running hinv hend).2.2.1 with hlink | hlink <;> simp [hlink] at hpooled

end Safety

theorem rejected_rules : CommitRules rejected where
  integrityConstraint := by
    intro code h
    simp [rejected, h]
  transactionRollback := by
    intro code h hne
    simp [rejected, h, hne]
  inFailedTransaction := by decide

/-- A closure writes, swallows the failure of its next statement and returns `Ok`: the probe is
refused and nothing is visible. -/
def swallowedFailure : List (Event ℕ) :=
  [.acquired true, .begun, .start .fetchOptional, .answered [7] Server.fresh, .start .fetchMany,
    .itemFailed ⟨true, true, true, [7]⟩, .streamEnded [], .returned true,
    .probeFailed ⟨true, true, true, [7]⟩]

def swallowedState : State ℕ :=
  ⟨.ended .commitFailed, false, false, .returning, ⟨true, true, true, [7]⟩, [], true, false, none,
    false, none, false⟩

theorem reports_only_durable_commits_swallowed :
    (seam ℕ ⟨.serverDefault, false⟩ rejected).run initial swallowedFailure = some swallowedState ∧
      swallowedState.phase = .ended .commitFailed ∧ swallowedState.visible = [] := by
  have hrun : (seam ℕ ⟨.serverDefault, false⟩ rejected).run initial swallowedFailure =
      some swallowedState := by rfl
  have hreach : (seam ℕ ⟨.serverDefault, false⟩ rejected).Reachable swallowedState :=
    ⟨swallowedFailure, hrun⟩
  exact ⟨hrun, rfl, (reports_only_durable_commits rejected_rules hreach).2.2.1.1 rfl⟩

end PostgresTransaction
