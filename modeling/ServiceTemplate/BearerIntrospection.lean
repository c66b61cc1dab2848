import ServiceTemplate.TransitionSystem
import ServiceTemplate.FormText
import ServiceTemplate.BearerClaims
import Mathlib.Data.Set.Function
import Mathlib.Logic.Function.Basic

/-! Opaque-token introspection with a cache of positive results.
Concurrent misses of one key share a run of the fill cache. The calendar clock moves freely
between any two reads of it; the caches use the monotonic clock. A read of the retained cache may
miss, and what it returns was inserted under its key less than the entry's lifetime ago. -/
namespace BearerIntrospection

open TransitionSystem
open ByteFraming
open FormText
open BearerClaims

abbrev CallerId := ℕ
abbrev RunId := ℕ
abbrev Key := Bytes

def maxEntryBytes : ℕ := 64 * 1024
def nanos : ℕ := 1000000000

def maxSystemSeconds : ℕ := 2 ^ 63 - 1

/-- A capacity of 1 to 1024 entries and a TTL of 1 to 300 seconds, in nanoseconds. -/
structure IntrospectionCacheOptions where
  capacity : ℕ
  ttl : ℕ
  checked : (1 ≤ capacity ∧ capacity ≤ 1024) ∧ nanos ≤ ttl ∧ ttl ≤ 300 * nanos

structure Config where
  decoder : Decoder
  policy : ClaimPolicy
  cache : Option IntrospectionCacheOptions
  sha256 : Bytes → Key

def Config.key (config : Config) (token : String) : Key := config.sha256 (asBytes token)

/-- Usable Unix time in seconds of a calendar time in nanoseconds. -/
def unixTime (calendar : ℤ) : Except VerificationError ℕ :=
  if calendar < 0 then .error ⟨.unavailable, .clock⟩ else .ok (calendar / nanos).toNat

/-- The earlier of the TTL and the token expiry, without leeway. -/
def retention (principal : Principal) (ttl : ℕ) (now : ℤ) : ℕ :=
  if now < 0 ∨ maxEntryBytes < principal.payloadLen then 0
  else if maxSystemSeconds < principal.expiresAt then ttl
  else if ((principal.expiresAt * nanos : ℕ) : ℤ) < now then 0
  else min ((principal.expiresAt * nanos : ℕ) - now).toNat ttl

def tokenPair : List Char := "token=".toList
def hintPair : List Char := "token_type_hint=access_token".toList

def formBody (token : String) : List Char :=
  tokenPair ++ (byteSerialize (asBytes token) ++ '&' :: hintPair)

structure Evidence where
  run : RunId
  token : String
  request : List Char
  response : Bytes
  now : ℕ
  value : VerifiedIntrospection
  deriving DecidableEq

/-- One insertion into the retained cache at a monotonic time. -/
structure Entry where
  key : Key
  evidence : Evidence
  time : ℕ
  lifetime : ℕ
  deriving DecidableEq

/-- `readAt` is when the retained cache supplied the entry. -/
inductive Fill where
  | fresh (evidence : Evidence)
  | retained (entry : Entry) (readAt : ℕ)
  deriving DecidableEq

/-- The steps of one initializer, each followed by a new read of some clock. -/
inductive Stage where
  | starting
  | reading
  | read (entry : Entry) (readAt : ℕ)
  | requesting
  | requested
  | responded (response : Bytes)
  | validated (evidence : Evidence)
  | settled (result : Except VerificationError Fill)

/-- A run is polled by its leader; a shared one by the fill cache's first caller of the key. -/
structure Run where
  leader : CallerId
  token : String
  shared : Bool
  stage : Stage

inductive Phase where
  | looping
  | read (entry : Entry) (readAt : ℕ)
  | filling
  | joined (r : RunId)
  | filled (r : RunId) (result : Except VerificationError Fill)
  | done

structure Caller where
  token : String
  phase : Phase

/-- One principal that was returned, with the calendar second it was decided at and the
monotonic time. -/
structure Answer where
  caller : CallerId
  token : String
  principal : Principal
  source : Fill
  now : ℕ
  time : ℕ
  deriving DecidableEq

/-- What only grows: presented tokens, joined runs, verified exchanges and insertions. -/
structure Ledger where
  tokens : List String
  joins : List (CallerId × RunId)
  exchanges : List Evidence
  inserted : List Entry

structure State where
  monotonic : ℕ
  calendar : ℤ
  ledger : Ledger
  runs : RunId → Option Run
  active : Key → Option RunId
  callers : CallerId → Option Caller
  answers : List Answer
  refusals : List (CallerId × VerificationError)

inductive Event where
  | advance (elapsed : ℕ)
  | setCalendar (now : ℤ)
  | verify (c : CallerId) (token : String) (live : Bool)
  | lookup (c : CallerId) (hit : Option Entry)
  | check (c : CallerId)
  | fill (c : CallerId) (r : RunId)
  | deliver (c : CallerId)
  | cancel (c : CallerId)
  | start (r : RunId)
  | reread (r : RunId) (hit : Option Entry)
  | recheck (r : RunId)
  | request (r : RunId) (permit : Bool)
  | respond (r : RunId) (result : Except ProviderFailure Bytes)
  | validate (r : RunId)
  | insert (r : RunId)
  | share (r : RunId)

def initial : State :=
  ⟨0, 0, ⟨[], [], [], []⟩, fun _ => none, fun _ => none, fun _ => none, [], []⟩

def State.now (s : State) : Except VerificationError ℕ := unixTime s.calendar

def State.setCaller (s : State) (c : CallerId) (caller : Caller) : State :=
  { s with callers := Function.update s.callers c (some caller) }

def State.refuse (s : State) (c : CallerId) (token : String) (error : VerificationError) : State :=
  { s.setCaller c ⟨token, .done⟩ with refusals := s.refusals ++ [(c, error)] }

def State.answer (s : State) (c : CallerId) (token : String) (principal : Principal)
    (source : Fill) (now : ℕ) : State :=
  { s.setCaller c ⟨token, .done⟩ with
    answers := s.answers ++ [⟨c, token, principal, source, now, s.monotonic⟩] }

def timedOut : VerificationError := ⟨.unavailable, .provider .timeout⟩

def verify (config : Config) (s : State) (c : CallerId) (token : String) (live : Bool) :
    Option State :=
  match s.callers c with
  | some _ => none
  | none =>
    let s := { s with ledger := { s.ledger with tokens := s.ledger.tokens ++ [token] } }
    if !live then some (s.refuse c token timedOut)
    else match s.now with
      | .error error => some (s.refuse c token error)
      | .ok _ =>
        some (s.setCaller c ⟨token, if config.cache.isSome then .looping else .filling⟩)

/-- What the retained cache may return for a key now. -/
def State.hits (s : State) (key : Key) (entry : Entry) : Bool :=
  entry ∈ s.ledger.inserted ∧ entry.key = key ∧ s.monotonic < entry.time + entry.lifetime

def lookup (config : Config) (s : State) (c : CallerId) (hit : Option Entry) : Option State :=
  match s.callers c with
  | some ⟨token, .looping⟩ =>
    match hit with
    | none => some (s.setCaller c ⟨token, .filling⟩)
    | some entry =>
      if s.hits (config.key token) entry then
        some (s.setCaller c ⟨token, .read entry s.monotonic⟩)
      else none
  | _ => none

/-- `reusable_at(now()?)` of a value the loop itself read. -/
def check (s : State) (c : CallerId) : Option State :=
  match s.callers c with
  | some ⟨token, .read entry readAt⟩ =>
    match s.now with
    | .error error => some (s.refuse c token error)
    | .ok now =>
      if entry.evidence.value.reusableAt now then
        some (s.answer c token entry.evidence.value.principal (.retained entry readAt) now)
      else some (s.setCaller c ⟨token, .filling⟩)
  | _ => none

def State.join (s : State) (c : CallerId) (token : String) (r : RunId) : State :=
  { s.setCaller c ⟨token, .joined r⟩ with
    ledger := { s.ledger with joins := s.ledger.joins ++ [(c, r)] } }

/-- `try_get_with` joins the run of the key or becomes its leader. Without a cache the call has a
run of its own. -/
def fill (config : Config) (s : State) (c : CallerId) (r : RunId) : Option State :=
  match s.callers c with
  | some ⟨token, .filling⟩ =>
    let key := config.key token
    match config.cache, s.active key with
    | some _, some active => if r = active then some (s.join c token active) else none
    | some _, none =>
      if (s.runs r).isSome ∨ r ∈ s.ledger.joins.map Prod.snd then none
      else some { s.join c token r with
        runs := Function.update s.runs r (some ⟨c, token, true, .starting⟩)
        active := Function.update s.active key (some r) }
    | none, _ =>
      if (s.runs r).isSome ∨ r ∈ s.ledger.joins.map Prod.snd then none
      else some { s.join c token r with
        runs := Function.update s.runs r (some ⟨c, token, false, .requesting⟩) }
  | _ => none

def deliver (s : State) (c : CallerId) : Option State :=
  match s.callers c with
  | some ⟨token, .filled _ (.error error)⟩ => some (s.refuse c token error)
  | some ⟨token, .filled _ (.ok fill)⟩ =>
    match s.now with
    | .error error => some (s.refuse c token error)
    | .ok now =>
      match fill with
      | .fresh evidence =>
        match evidence.value.deliver now with
        | .error error => some (s.refuse c token error)
        | .ok principal => some (s.answer c token principal (.fresh evidence) now)
      | .retained entry readAt =>
        if entry.evidence.value.reusableAt now then
          some (s.answer c token entry.evidence.value.principal (.retained entry readAt) now)
        else some (s.setCaller c ⟨token, .looping⟩)
  | _ => none

def leaveRun (r : RunId) (phase : Phase) (caller : Caller) : Caller :=
  match caller.phase with
  | .joined joined => if joined = r then ⟨caller.token, phase⟩ else caller
  | _ => caller

def State.endRun (s : State) (r : RunId) (phase : Phase) : State :=
  { s with
    runs := Function.update s.runs r none
    active := fun key => if s.active key = some r then none else s.active key
    callers := fun c => (s.callers c).map (leaveRun r phase) }

/-- A dropped leader takes its run along, and the callers that joined it fill again. -/
def cancel (s : State) (c : CallerId) : Option State :=
  match s.callers c with
  | none => none
  | some ⟨token, phase⟩ =>
    let gone := s.setCaller c ⟨token, .done⟩
    match phase with
    | .joined r =>
      if (s.runs r).any fun run => run.leader = c then
        some (gone.endRun r .filling)
      else some gone
    | _ => some gone

def State.setStage (s : State) (r : RunId) (run : Run) (stage : Stage) : State :=
  { s with runs := Function.update s.runs r (some { run with stage := stage }) }

def State.settle (s : State) (r : RunId) (run : Run) (error : VerificationError) : State :=
  s.setStage r run (.settled (.error error))

def start (s : State) (r : RunId) : Option State :=
  match s.runs r with
  | none => none
  | some run =>
    match run.stage, s.now with
    | .starting, .ok _ => some (s.setStage r run .reading)
    | .starting, .error error => some (s.settle r run error)
    | _, _ => none

def reread (config : Config) (s : State) (r : RunId) (hit : Option Entry) : Option State :=
  match s.runs r with
  | none => none
  | some run =>
    match run.stage, hit with
    | .reading, none => some (s.setStage r run .requesting)
    | .reading, some entry =>
      if s.hits (config.key run.token) entry then
        some (s.setStage r run (.read entry s.monotonic))
      else none
    | _, _ => none

def recheck (s : State) (r : RunId) : Option State :=
  match s.runs r with
  | none => none
  | some run =>
    match run.stage, s.now with
    | .read _ _, .error error => some (s.settle r run error)
    | .read entry readAt, .ok now =>
      if entry.evidence.value.reusableAt now then
        some (s.setStage r run (.settled (.ok (.retained entry readAt))))
      else some (s.setStage r run .requesting)
    | _, _ => none

/-- The head of `introspect`: a clock read, then a permit or a refusal. -/
def request (s : State) (r : RunId) (permit : Bool) : Option State :=
  match s.runs r with
  | none => none
  | some run =>
    match run.stage, s.now with
    | .requesting, .error error => some (s.settle r run error)
    | .requesting, .ok _ =>
      if permit then some (s.setStage r run .requested)
      else some (s.settle r run ⟨.unavailable, .capacity⟩)
    | _, _ => none

def respond (s : State) (r : RunId) (result : Except ProviderFailure Bytes) : Option State :=
  match s.runs r with
  | none => none
  | some run =>
    match run.stage, result with
    | .requested, .ok response => some (s.setStage r run (.responded response))
    | .requested, .error failure => some (s.settle r run ⟨.unavailable, .provider failure⟩)
    | _, _ => none

def validate (config : Config) (s : State) (r : RunId) : Option State :=
  match s.runs r with
  | none => none
  | some run =>
    match run.stage, s.now with
    | .responded _, .error error => some (s.settle r run error)
    | .responded response, .ok now =>
      match validateIntrospectionClaims config.decoder response config.policy now run.token with
      | .error error => some (s.settle r run error)
      | .ok value =>
        let evidence : Evidence := ⟨r, run.token, formBody run.token, response, now, value⟩
        some { s.setStage r run (.validated evidence) with
          ledger := { s.ledger with exchanges := s.ledger.exchanges ++ [evidence] } }
    | _, _ => none

/-- The entry's lifetime is fixed by the calendar at its insertion. -/
def insert (config : Config) (s : State) (r : RunId) : Option State :=
  match s.runs r with
  | none => none
  | some run =>
    match run.stage, config.cache with
    | .validated evidence, some cache =>
      let entry : Entry := ⟨config.key run.token, evidence, s.monotonic,
        retention evidence.value.principal cache.ttl s.calendar⟩
      some { s.setStage r run (.settled (.ok (.fresh evidence))) with
        ledger := { s.ledger with inserted := s.ledger.inserted ++ [entry] } }
    | .validated evidence, none => some (s.setStage r run (.settled (.ok (.fresh evidence))))
    | _, _ => none

/-- The result goes to the callers that joined the run, and to no later one. -/
def share (s : State) (r : RunId) : Option State :=
  match s.runs r with
  | none => none
  | some run =>
    match run.stage with
    | .settled result => some (s.endRun r (.filled r result))
    | _ => none

def step (config : Config) (s : State) : Event → Option State
  | .advance elapsed => some { s with monotonic := s.monotonic + elapsed }
  | .setCalendar now => some { s with calendar := now }
  | .verify c token live => verify config s c token live
  | .lookup c hit => lookup config s c hit
  | .check c => check s c
  | .fill c r => fill config s c r
  | .deliver c => deliver s c
  | .cancel c => cancel s c
  | .start r => start s r
  | .reread r hit => reread config s r hit
  | .recheck r => recheck s r
  | .request r permit => request s r permit
  | .respond r result => respond s r result
  | .validate r => validate config s r
  | .insert r => insert config s r
  | .share r => share s r

def verifier (config : Config) : System State Event := ⟨initial, step config⟩

structure Hit (L : Ledger) (key : Key) (entry : Entry) (readAt : ℕ) : Prop where
  inserted : entry ∈ L.inserted
  key : entry.key = key
  after : entry.time ≤ readAt
  within : readAt < entry.time + entry.lifetime

/-- A shared result is the run's own exchange or a hit of the retained cache. -/
def FillSound (config : Config) (L : Ledger) (key : Key) (r : RunId) : Fill → Prop
  | .fresh evidence => evidence ∈ L.exchanges ∧ config.key evidence.token = key ∧ evidence.run = r
  | .retained entry readAt => Hit L key entry readAt

def StageSound (config : Config) (L : Ledger) (r : RunId) (token : String) : Stage → Prop
  | .read entry readAt => Hit L (config.key token) entry readAt
  | .validated evidence => FillSound config L (config.key token) r (.fresh evidence)
  | .settled (.ok fill) => FillSound config L (config.key token) r fill
  | _ => True

def PhaseSound (config : Config) (L : Ledger) (c : CallerId) (token : String) : Phase → Prop
  | .read entry readAt => Hit L (config.key token) entry readAt
  | .joined r => (c, r) ∈ L.joins
  | .filled r (.ok fill) => (c, r) ∈ L.joins ∧ FillSound config L (config.key token) r fill
  | _ => True

/-- A fresh principal went to a caller that joined its exchange, within the leeway; a retained one
was still reusable. -/
def AnswerSound (config : Config) (L : Ledger) (answer : Answer) : Prop :=
  match answer.source with
  | .fresh evidence => FillSound config L (config.key answer.token) evidence.run (.fresh evidence) ∧
      (answer.caller, evidence.run) ∈ L.joins ∧ evidence.value.deliver answer.now = .ok answer.principal
  | .retained entry readAt => Hit L (config.key answer.token) entry readAt ∧
      answer.principal = entry.evidence.value.principal ∧
      entry.evidence.value.reusableAt answer.now = true

structure Valid (config : Config) (evidence : Evidence) : Prop where
  request : evidence.request = formBody evidence.token
  validated : validateIntrospectionClaims config.decoder evidence.response config.policy
    evidence.now evidence.token = .ok evidence.value

structure Inserted (config : Config) (exchanges : List Evidence) (monotonic : ℕ) (entry : Entry) :
    Prop where
  evidence : entry.evidence ∈ exchanges
  key : entry.key = config.key entry.evidence.token
  past : entry.time ≤ monotonic
  lifetime : ∃ cache calendar, config.cache = some cache ∧
    entry.lifetime = retention entry.evidence.value.principal cache.ttl calendar

structure Inv (config : Config) (s : State) : Prop where
  exchanges : ∀ evidence ∈ s.ledger.exchanges,
    Valid config evidence ∧ evidence.token ∈ s.ledger.tokens
  inserted : ∀ entry ∈ s.ledger.inserted,
    Inserted config s.ledger.exchanges s.monotonic entry
  runs : ∀ r run, s.runs r = some run → run.token ∈ s.ledger.tokens ∧
    StageSound config s.ledger r run.token run.stage
  callers : ∀ c caller, s.callers c = some caller → caller.token ∈ s.ledger.tokens ∧
    PhaseSound config s.ledger c caller.token caller.phase
  joined : ∀ c caller r run, s.callers c = some caller → caller.phase = .joined r →
    s.runs r = some run → config.key run.token = config.key caller.token
  active : ∀ key r, s.active key = some r → r ∈ s.ledger.joins.map Prod.snd ∧
    ∀ run, s.runs r = some run → config.key run.token = key
  answers : ∀ answer ∈ s.answers, answer.token ∈ s.ledger.tokens ∧
    AnswerSound config s.ledger answer

structure Ledger.Extends (L L' : Ledger) : Prop where
  tokens : ∀ token ∈ L.tokens, token ∈ L'.tokens
  joins : ∀ join ∈ L.joins, join ∈ L'.joins
  exchanges : ∀ evidence ∈ L.exchanges, evidence ∈ L'.exchanges
  inserted : ∀ entry ∈ L.inserted, entry ∈ L'.inserted

variable {config : Config} {L L' : Ledger} {s t : State}

theorem Hit.extend (hL : L.Extends L') {key : Key} {entry : Entry} {readAt : ℕ}
    (h : Hit L key entry readAt) : Hit L' key entry readAt :=
  { h with inserted := hL.inserted entry h.inserted }

theorem FillSound.extend (hL : L.Extends L') {key : Key} {r : RunId} {fill : Fill}
    (h : FillSound config L key r fill) : FillSound config L' key r fill := by
  cases fill with
  | fresh evidence => exact ⟨hL.exchanges evidence h.1, h.2⟩
  | retained entry readAt => exact Hit.extend hL h

theorem StageSound.extend (hL : L.Extends L') {r : RunId} {token : String} {stage : Stage}
    (h : StageSound config L r token stage) : StageSound config L' r token stage := by
  cases stage with
  | read entry readAt => exact Hit.extend hL h
  | validated evidence => exact ⟨hL.exchanges evidence h.1, h.2⟩
  | settled result =>
    cases result with
    | error error => exact trivial
    | ok fill => exact FillSound.extend hL h
  | _ => exact trivial

theorem PhaseSound.extend (hL : L.Extends L') {c : CallerId} {token : String} {phase : Phase}
    (h : PhaseSound config L c token phase) : PhaseSound config L' c token phase := by
  cases phase with
  | read entry readAt => exact Hit.extend hL h
  | joined r => exact hL.joins _ h
  | filled r result =>
    cases result with
    | error error => exact trivial
    | ok fill => exact ⟨hL.joins _ h.1, h.2.extend hL⟩
  | _ => exact trivial

theorem AnswerSound.extend (hL : L.Extends L') {answer : Answer} (h : AnswerSound config L answer) :
    AnswerSound config L' answer := by
  simp only [AnswerSound] at h ⊢
  split at h
  · exact ⟨h.1.extend hL, hL.joins _ h.2.1, h.2.2⟩
  · exact ⟨h.1.extend hL, h.2⟩

theorem Inv.extend (h : Inv config s) (hL : s.ledger.Extends L')
    (hexchanges : ∀ evidence ∈ L'.exchanges, Valid config evidence ∧ evidence.token ∈ L'.tokens)
    (hinserted : ∀ entry ∈ L'.inserted, Inserted config L'.exchanges s.monotonic entry) :
    Inv config { s with ledger := L' } where
  exchanges := hexchanges
  inserted := hinserted
  runs r run hrun := ⟨hL.tokens _ (h.runs r run hrun).1, (h.runs r run hrun).2.extend hL⟩
  callers c caller hcaller :=
    ⟨hL.tokens _ (h.callers c caller hcaller).1, (h.callers c caller hcaller).2.extend hL⟩
  joined := h.joined
  active key r hactive := by
    rcases h.active key r hactive with ⟨hjoined, hruns⟩
    rcases List.mem_map.mp hjoined with ⟨join, hmem, hr⟩
    exact ⟨List.mem_map.mpr ⟨join, hL.joins join hmem, hr⟩, hruns⟩
  answers answer hmem :=
    ⟨hL.tokens _ (h.answers answer hmem).1, (h.answers answer hmem).2.extend hL⟩

theorem Inv.set_caller (h : Inv config s) {c : CallerId} {caller : Caller}
    (htoken : caller.token ∈ s.ledger.tokens)
    (hphase : PhaseSound config s.ledger c caller.token caller.phase)
    (hjoined : ∀ r run, caller.phase = .joined r → s.runs r = some run →
      config.key run.token = config.key caller.token) :
    Inv config (s.setCaller c caller) := by
  refine { h with callers := ?_, joined := ?_ }
  · intro v other hother
    by_cases hv : v = c
    · subst hv
      simp only [State.setCaller, Function.update_self, Option.some.injEq] at hother
      subst hother
      exact ⟨htoken, hphase⟩
    · simp only [State.setCaller, Function.update_of_ne hv] at hother
      exact h.callers v other hother
  · intro v other r run hother hjoin hrun
    by_cases hv : v = c
    · subst hv
      simp only [State.setCaller, Function.update_self, Option.some.injEq] at hother
      subst hother
      exact hjoined r run hjoin hrun
    · simp only [State.setCaller, Function.update_of_ne hv] at hother
      exact h.joined v other r run hother hjoin hrun

theorem Inv.refuse (h : Inv config s) {c : CallerId} {token : String}
    (htoken : token ∈ s.ledger.tokens) (error : VerificationError) :
    Inv config (s.refuse c token error) := by
  have hset : Inv config (s.setCaller c ⟨token, .done⟩) := h.set_caller htoken trivial (by simp)
  exact { hset with }

theorem Inv.answer (h : Inv config s) {c : CallerId} {token : String} {principal : Principal}
    {source : Fill} {now : ℕ} (htoken : token ∈ s.ledger.tokens)
    (hanswer : AnswerSound config s.ledger ⟨c, token, principal, source, now, s.monotonic⟩) :
    Inv config (s.answer c token principal source now) := by
  have hset : Inv config (s.setCaller c ⟨token, .done⟩) := h.set_caller htoken trivial (by simp)
  refine { hset with answers := ?_ }
  intro answer hmem
  rcases List.mem_append.mp hmem with hmem | hmem
  · exact h.answers answer hmem
  · rw [List.mem_singleton] at hmem
    subst hmem
    exact ⟨htoken, hanswer⟩

theorem Inv.set_stage (h : Inv config s) {r : RunId} {run : Run} (hrun : s.runs r = some run)
    (stage : Stage) (hstage : StageSound config s.ledger r run.token stage) :
    Inv config (s.setStage r run stage) := by
  have hsame : ∀ r' run', Function.update s.runs r (some { run with stage := stage }) r' =
      some run' → ∃ old, s.runs r' = some old ∧ old.token = run'.token := by
    intro r' run' hrun'
    by_cases hr : r' = r
    · subst hr
      rw [Function.update_self, Option.some.injEq] at hrun'
      subst hrun'
      exact ⟨run, hrun, rfl⟩
    · rw [Function.update_of_ne hr] at hrun'
      exact ⟨run', hrun', rfl⟩
  refine { h with runs := ?_, joined := ?_, active := ?_ }
  · intro r' run' hrun'
    by_cases hr : r' = r
    · subst hr
      simp only [State.setStage, Function.update_self, Option.some.injEq] at hrun'
      subst hrun'
      exact ⟨(h.runs r' run hrun).1, hstage⟩
    · simp only [State.setStage, Function.update_of_ne hr] at hrun'
      exact h.runs r' run' hrun'
  · intro c caller r' run' hcaller hjoin hrun'
    rcases hsame r' run' hrun' with ⟨old, hold, htoken⟩
    exact htoken ▸ h.joined c caller r' old hcaller hjoin hold
  · intro key r' hactive
    rcases h.active key r' hactive with ⟨hjoined, hruns⟩
    refine ⟨hjoined, fun run' hrun' => ?_⟩
    rcases hsame r' run' hrun' with ⟨old, hold, htoken⟩
    exact htoken ▸ hruns old hold

theorem leave_run_cases (r : RunId) (phase : Phase) (caller : Caller) :
    (caller.phase = .joined r ∧ leaveRun r phase caller = ⟨caller.token, phase⟩) ∨
      leaveRun r phase caller = caller := by
  simp only [leaveRun]
  split
  · next joined hphase =>
    split
    · next heq => exact .inl ⟨heq ▸ hphase, rfl⟩
    · exact .inr rfl
  · exact .inr rfl

theorem Inv.end_run (h : Inv config s) {r : RunId} {phase : Phase} (hout : ∀ r', phase ≠ .joined r')
    (hphase : ∀ c caller, s.callers c = some caller → caller.phase = .joined r →
      PhaseSound config s.ledger c caller.token phase) : Inv config (s.endRun r phase) := by
  have hruns : ∀ r' run, (s.endRun r phase).runs r' = some run → s.runs r' = some run := by
    intro r' run hrun
    by_cases hr : r' = r
    · subst hr
      simp [State.endRun] at hrun
    · simpa [State.endRun, hr] using hrun
  refine { h with runs := ?_, callers := ?_, joined := ?_, active := ?_ }
  · intro r' run hrun
    exact h.runs r' run (hruns r' run hrun)
  · intro c caller hcaller
    rcases Option.map_eq_some_iff.mp hcaller with ⟨old, hold, rfl⟩
    rcases h.callers c old hold with ⟨htoken, hsound⟩
    rcases leave_run_cases r phase old with ⟨hjoin, hleft⟩ | hkept
    · rw [hleft]
      exact ⟨htoken, hphase c old hold hjoin⟩
    · rw [hkept]
      exact ⟨htoken, hsound⟩
  · intro c caller r' run hcaller hjoin hrun
    rcases Option.map_eq_some_iff.mp hcaller with ⟨old, hold, rfl⟩
    rcases leave_run_cases r phase old with ⟨-, hleft⟩ | hkept
    · rw [hleft] at hjoin
      exact absurd hjoin (hout r')
    · rw [hkept] at hjoin ⊢
      exact h.joined c old r' run hold hjoin (hruns r' run hrun)
  · intro key r' hactive
    simp only [State.endRun] at hactive
    split at hactive
    · cases hactive
    · rcases h.active key r' hactive with ⟨hjoined, hkey⟩
      exact ⟨hjoined, fun run hrun => hkey run (hruns r' run hrun)⟩

theorem initial_inv : Inv config initial := by
  constructor <;> simp [initial]

theorem verify_inv (h : Inv config s) {c : CallerId} {token : String} {live : Bool}
    (hop : verify config s c token live = some t) : Inv config t := by
  simp only [verify] at hop
  split at hop
  · cases hop
  have hpresented : Inv config
      { s with ledger := { s.ledger with tokens := s.ledger.tokens ++ [token] } } := by
    refine h.extend ⟨by simp +contextual, by simp, by simp, by simp⟩ ?_ h.inserted
    intro evidence hmem
    exact ⟨(h.exchanges evidence hmem).1, List.mem_append_left _ (h.exchanges evidence hmem).2⟩
  have htoken : token ∈ s.ledger.tokens ++ [token] := by simp
  by_cases hlive : live = true
  · simp only [hlive, Bool.not_true, Bool.false_eq_true, if_false] at hop
    split at hop
    · cases hop
      exact hpresented.refuse htoken _
    · cases hop
      by_cases hcache : config.cache.isSome = true
      · exact hpresented.set_caller htoken (by simp [hcache, PhaseSound]) (by simp [hcache])
      · exact hpresented.set_caller htoken (by simp [hcache, PhaseSound]) (by simp [hcache])
  · simp only [hlive, Bool.not_false, if_true] at hop
    cases hop
    exact hpresented.refuse htoken _

theorem Inv.hit (h : Inv config s) {key : Key} {entry : Entry} (hhit : s.hits key entry = true) :
    Hit s.ledger key entry s.monotonic := by
  simp only [State.hits, decide_eq_true_eq] at hhit
  rcases hhit with ⟨hmem, hkey, hwithin⟩
  exact ⟨hmem, hkey, (h.inserted entry hmem).past, hwithin⟩

theorem lookup_inv (h : Inv config s) {c : CallerId} {hit : Option Entry}
    (hop : lookup config s c hit = some t) : Inv config t := by
  simp only [lookup] at hop
  split at hop
  · next token hcaller =>
    have htoken := (h.callers c _ hcaller).1
    split at hop
    · cases hop
      exact h.set_caller htoken trivial (by simp)
    · split at hop
      · next hhit =>
        cases hop
        exact h.set_caller htoken (h.hit hhit) (by simp)
      · cases hop
  · cases hop

theorem check_inv (h : Inv config s) {c : CallerId} (hop : check s c = some t) :
    Inv config t := by
  simp only [check] at hop
  split at hop
  · next token entry readAt hcaller =>
    rcases h.callers c _ hcaller with ⟨htoken, hhit⟩
    split at hop
    · cases hop
      exact h.refuse htoken _
    · split at hop
      · next hreusable =>
        cases hop
        exact h.answer htoken ⟨hhit, rfl, hreusable⟩
      · cases hop
        exact h.set_caller htoken trivial (by simp)
  · cases hop

theorem Ledger.Extends.join (L : Ledger) (c : CallerId) (r : RunId) :
    L.Extends { L with joins := L.joins ++ [(c, r)] } :=
  ⟨by simp, by simp +contextual, by simp, by simp⟩

theorem Inv.join (h : Inv config s) {c : CallerId} {token : String} {r : RunId}
    (htoken : token ∈ s.ledger.tokens)
    (hkey : ∀ run, s.runs r = some run → config.key run.token = config.key token) :
    Inv config (s.join c token r) := by
  have hjoined := h.extend (Ledger.Extends.join s.ledger c r) h.exchanges h.inserted
  have hset : Inv config ({ s with
      ledger := { s.ledger with joins := s.ledger.joins ++ [(c, r)] } }.setCaller c
        ⟨token, .joined r⟩) := by
    refine hjoined.set_caller htoken (by simp [PhaseSound]) ?_
    rintro r' run ⟨⟩ hrun
    exact hkey run hrun
  exact { hset with }

theorem Inv.lead (h : Inv config s) {c : CallerId} {token : String} {r : RunId}
    (htoken : token ∈ s.ledger.tokens) (hunused : s.runs r = none)
    (hfresh : r ∉ s.ledger.joins.map Prod.snd) (run : Run) (hrun : run.token = token)
    (hstage : ∀ L, StageSound config L r token run.stage) {active : Key → Option RunId}
    (hactive : ∀ key r', active key = some r' → s.active key = some r' ∨
      key = config.key token ∧ r' = r) :
    Inv config { s.join c token r with
      runs := Function.update s.runs r (some run), active := active } := by
  have hjoin : Inv config (s.join c token r) := h.join htoken (by simp [hunused])
  have hcases : ∀ r' run', Function.update s.runs r (some run) r' = some run' →
      (r' = r ∧ run' = run) ∨ (r' ≠ r ∧ s.runs r' = some run') := by
    intro r' run' hrun'
    by_cases hr : r' = r
    · subst hr
      rw [Function.update_self, Option.some.injEq] at hrun'
      exact .inl ⟨rfl, hrun'.symm⟩
    · rw [Function.update_of_ne hr] at hrun'
      exact .inr ⟨hr, hrun'⟩
  refine { hjoin with runs := ?_, joined := ?_, active := ?_ }
  · intro r' run' hrun'
    rcases hcases r' run' hrun' with ⟨rfl, rfl⟩ | ⟨-, hold⟩
    · rw [hrun]
      exact ⟨htoken, hstage _⟩
    · exact hjoin.runs r' run' hold
  · intro v caller r' run' hcaller hphase hrun'
    rcases hcases r' run' hrun' with ⟨rfl, rfl⟩ | ⟨-, hold⟩
    · by_cases hv : v = c
      · subst hv
        simp only [State.join, State.setCaller, Function.update_self, Option.some.injEq] at hcaller
        subst hcaller
        rw [hrun]
      · simp only [State.join, State.setCaller, Function.update_of_ne hv] at hcaller
        have hsound := (h.callers v caller hcaller).2
        rw [hphase] at hsound
        exact absurd (List.mem_map.mpr ⟨(v, r'), hsound, rfl⟩) hfresh
    · exact hjoin.joined v caller r' run' hcaller hphase hold
  · intro key r' hkey
    rcases hactive key r' hkey with hold | ⟨rfl, rfl⟩
    · have hactive' := hjoin.active key r' hold
      refine ⟨hactive'.1, fun run' hrun' => ?_⟩
      rcases hcases r' run' hrun' with ⟨rfl, rfl⟩ | ⟨-, hsome⟩
      · exact absurd (h.active key r' hold).1 hfresh
      · exact hactive'.2 run' hsome
    · refine ⟨by simp [State.join], fun run' hrun' => ?_⟩
      rcases hcases r' run' hrun' with ⟨-, rfl⟩ | ⟨hne, -⟩
      · rw [hrun]
      · exact absurd rfl hne

theorem fill_inv (h : Inv config s) {c : CallerId} {r : RunId}
    (hop : fill config s c r = some t) : Inv config t := by
  simp only [fill] at hop
  split at hop
  · next token hcaller =>
    have htoken := (h.callers c _ hcaller).1
    split at hop
    · next active hcache hactive =>
      split at hop
      · cases hop
        exact h.join htoken (h.active _ _ hactive).2
      · cases hop
    · next hcache hactive =>
      split at hop
      · cases hop
      · next hfree =>
        cases hop
        rw [not_or] at hfree
        refine h.lead htoken (by simpa using hfree.1) hfree.2 ⟨c, token, true, .starting⟩ rfl
          (fun _ => trivial) ?_
        intro key r' hkey
        by_cases heq : key = config.key token
        · subst heq
          rw [Function.update_self, Option.some.injEq] at hkey
          exact .inr ⟨rfl, hkey.symm⟩
        · rw [Function.update_of_ne heq] at hkey
          exact .inl hkey
    · split at hop
      · cases hop
      · next hfree =>
        cases hop
        rw [not_or] at hfree
        exact h.lead htoken (by simpa using hfree.1) hfree.2 ⟨c, token, false, .requesting⟩ rfl
          (fun _ => trivial) fun _ _ hkey => .inl hkey
  · cases hop

theorem deliver_inv (h : Inv config s) {c : CallerId} (hop : deliver s c = some t) :
    Inv config t := by
  simp only [deliver] at hop
  split at hop
  · next token r error hcaller =>
    cases hop
    exact h.refuse (h.callers c _ hcaller).1 _
  · next token r fill hcaller =>
    rcases h.callers c _ hcaller with ⟨htoken, hjoined, hsound⟩
    split at hop
    · cases hop
      exact h.refuse htoken _
    · next now hnow =>
      split at hop
      · next evidence =>
        rcases hsound with ⟨hexchange, hkey, hrun⟩
        split at hop
        · cases hop
          exact h.refuse htoken _
        · next principal hdelivered =>
          cases hop
          exact h.answer htoken ⟨⟨hexchange, hkey, rfl⟩, hrun ▸ hjoined, hdelivered⟩
      · next entry readAt =>
        split at hop
        · next hreusable =>
          cases hop
          exact h.answer htoken ⟨hsound, rfl, hreusable⟩
        · cases hop
          exact h.set_caller htoken trivial (by simp)
  · cases hop

theorem cancel_inv (h : Inv config s) {c : CallerId} (hop : cancel s c = some t) :
    Inv config t := by
  simp only [cancel] at hop
  split at hop
  · cases hop
  next token phase hcaller =>
  have hgone : Inv config (s.setCaller c ⟨token, .done⟩) :=
    h.set_caller (h.callers c _ hcaller).1 trivial (by simp)
  split at hop
  · split at hop
    · cases hop
      exact hgone.end_run (by simp) fun _ _ _ _ => trivial
    · cases hop
      exact hgone
  · cases hop
    exact hgone

theorem start_inv (h : Inv config s) {r : RunId} (hop : start s r = some t) : Inv config t := by
  simp only [start] at hop
  split at hop
  · cases hop
  next run hrun =>
  split at hop
  · cases hop
    exact h.set_stage hrun _ trivial
  · cases hop
    exact h.set_stage hrun _ trivial
  · cases hop

theorem reread_inv (h : Inv config s) {r : RunId} {hit : Option Entry}
    (hop : reread config s r hit = some t) : Inv config t := by
  simp only [reread] at hop
  split at hop
  · cases hop
  next run hrun =>
  split at hop
  · cases hop
    exact h.set_stage hrun _ trivial
  · split at hop
    · next hhit =>
      cases hop
      exact h.set_stage hrun _ (h.hit hhit)
    · cases hop
  · cases hop

theorem recheck_inv (h : Inv config s) {r : RunId} (hop : recheck s r = some t) :
    Inv config t := by
  simp only [recheck] at hop
  split at hop
  · cases hop
  next run hrun =>
  split at hop
  · cases hop
    exact h.set_stage hrun _ trivial
  · next entry readAt now hstage hnow =>
    have hsound := (h.runs r run hrun).2
    rw [hstage] at hsound
    split at hop
    · cases hop
      exact h.set_stage hrun _ hsound
    · cases hop
      exact h.set_stage hrun _ trivial
  · cases hop

theorem request_inv (h : Inv config s) {r : RunId} {permit : Bool}
    (hop : request s r permit = some t) : Inv config t := by
  simp only [request] at hop
  split at hop
  · cases hop
  next run hrun =>
  split at hop
  · cases hop
    exact h.set_stage hrun _ trivial
  · split at hop
    · cases hop
      exact h.set_stage hrun _ trivial
    · cases hop
      exact h.set_stage hrun _ trivial
  · cases hop

theorem respond_inv (h : Inv config s) {r : RunId} {result : Except ProviderFailure Bytes}
    (hop : respond s r result = some t) : Inv config t := by
  simp only [respond] at hop
  split at hop
  · cases hop
  next run hrun =>
  split at hop
  · cases hop
    exact h.set_stage hrun _ trivial
  · cases hop
    exact h.set_stage hrun _ trivial
  · cases hop

theorem validate_inv (h : Inv config s) {r : RunId} (hop : validate config s r = some t) :
    Inv config t := by
  simp only [validate] at hop
  split at hop
  · cases hop
  next run hrun =>
  split at hop
  · cases hop
    exact h.set_stage hrun _ trivial
  · next response now hstage hnow =>
    split at hop
    · cases hop
      exact h.set_stage hrun _ trivial
    · next value hvalue =>
      cases hop
      have hgrown : Inv config { s with ledger := { s.ledger with exchanges :=
          s.ledger.exchanges ++ [⟨r, run.token, formBody run.token, response, now, value⟩] } } := by
        refine h.extend ⟨by simp, by simp, by simp +contextual, by simp⟩ ?_ ?_
        · intro evidence hmem
          rcases List.mem_append.mp hmem with hmem | hmem
          · exact h.exchanges evidence hmem
          · rw [List.mem_singleton] at hmem
            subst hmem
            exact ⟨⟨rfl, hvalue⟩, (h.runs r run hrun).1⟩
        · intro entry hmem
          have hentry := h.inserted entry hmem
          exact { hentry with evidence := List.mem_append_left _ hentry.evidence }
      have hset := hgrown.set_stage hrun
        (.validated ⟨r, run.token, formBody run.token, response, now, value⟩) ⟨by simp, rfl, rfl⟩
      exact { hset with }
  · cases hop

theorem insert_inv (h : Inv config s) {r : RunId}
    (hop : BearerIntrospection.insert config s r = some t) : Inv config t := by
  simp only [BearerIntrospection.insert] at hop
  split at hop
  · cases hop
  next run hrun =>
  split at hop
  · next evidence cache hstage hcache =>
    have hsound := (h.runs r run hrun).2
    rw [hstage] at hsound
    cases hop
    have hgrown : Inv config { s with ledger := { s.ledger with inserted :=
        s.ledger.inserted ++ [⟨config.key run.token, evidence, s.monotonic,
          retention evidence.value.principal cache.ttl s.calendar⟩] } } := by
      refine h.extend ⟨by simp, by simp, by simp, by simp +contextual⟩ h.exchanges ?_
      intro entry hmem
      rcases List.mem_append.mp hmem with hmem | hmem
      · exact h.inserted entry hmem
      · rw [List.mem_singleton] at hmem
        subst hmem
        exact ⟨hsound.1, hsound.2.1.symm, Nat.le_refl _, cache, s.calendar, hcache, rfl⟩
    have hset := hgrown.set_stage hrun (.settled (.ok (.fresh evidence))) hsound
    exact { hset with }
  · next evidence hstage hcache =>
    have hsound := (h.runs r run hrun).2
    rw [hstage] at hsound
    cases hop
    exact h.set_stage hrun _ hsound
  · cases hop

theorem share_inv (h : Inv config s) {r : RunId} (hop : share s r = some t) : Inv config t := by
  simp only [share] at hop
  split at hop
  · cases hop
  next run hrun =>
  split at hop
  · next result hstage =>
    cases hop
    refine h.end_run (by simp) ?_
    intro c caller hcaller hphase
    have hsound := (h.runs r run hrun).2
    have hjoined := (h.callers c caller hcaller).2
    rw [hstage] at hsound
    rw [hphase] at hjoined
    cases result with
    | error error => exact trivial
    | ok fill => exact ⟨hjoined, h.joined c caller r run hcaller hphase hrun ▸ hsound⟩
  · cases hop

theorem step_inv {e : Event} (h : Inv config s) (hstep : step config s e = some t) :
    Inv config t := by
  cases e with
  | advance elapsed =>
    cases hstep
    refine { h with inserted := ?_ }
    intro entry hmem
    have hentry := h.inserted entry hmem
    exact { hentry with past := Nat.le_trans hentry.past (Nat.le_add_right _ _) }
  | setCalendar now =>
    cases hstep
    exact { h with }
  | verify => exact verify_inv h hstep
  | lookup => exact lookup_inv h hstep
  | check => exact check_inv h hstep
  | fill => exact fill_inv h hstep
  | deliver => exact deliver_inv h hstep
  | cancel => exact cancel_inv h hstep
  | start => exact start_inv h hstep
  | reread => exact reread_inv h hstep
  | recheck => exact recheck_inv h hstep
  | request => exact request_inv h hstep
  | respond => exact respond_inv h hstep
  | validate => exact validate_inv h hstep
  | insert => exact insert_inv h hstep
  | share => exact share_inv h hstep

theorem reachable_inv (h : (verifier config).Reachable s) : Inv config s :=
  h.induction (P := Inv config) initial_inv fun _ _ _ _ hs hstep => step_inv hs hstep

theorem form_body_injective : Function.Injective formBody := by
  intro token other h
  have hbytes : asBytes token = asBytes other :=
    byte_serialize_apart (fun _ => by simp [decodeByte, plainByte]) (List.append_cancel_left h)
  exact as_bytes_injective hbytes

theorem retention_le_ttl (principal : Principal) (ttl : ℕ) (now : ℤ) :
    retention principal ttl now ≤ ttl := by
  simp only [retention]
  split
  · exact Nat.zero_le _
  split
  · exact Nat.le_refl _
  split
  · exact Nat.zero_le _
  · exact Nat.min_le_right _ _

theorem retention_before_expiry {principal : Principal} {ttl : ℕ} {now : ℤ}
    (hexpiry : principal.expiresAt ≤ maxSystemSeconds) (hpos : 0 < retention principal ttl now) :
    now + retention principal ttl now ≤ (principal.expiresAt * nanos : ℕ) := by
  simp only [retention] at hpos ⊢
  by_cases hunusable : now < 0 ∨ maxEntryBytes < principal.payloadLen
  · simp [hunusable] at hpos
  by_cases hpast : ((principal.expiresAt * nanos : ℕ) : ℤ) < now
  · simp only [hunusable, if_false, Nat.not_lt.mpr hexpiry, hpast, if_true] at hpos
    omega
  · simp only [hunusable, if_false, Nat.not_lt.mpr hexpiry, hpast]
    omega

structure Backed (config : Config) (L : Ledger) (answer : Answer) (evidence : Evidence) : Prop where
  /-- The provider was asked about exactly this token, said that it is active, and its answer
  passed validation. -/
  exchanged : evidence ∈ L.exchanges
  asked : ∀ token, evidence.request = formBody token ↔ token = answer.token
  active : ∃ text, Utf8Text.fromUtf8 evidence.response = some text ∧
    config.decoder.envelope (trimMatches text) = some true
  validated : validateIntrospectionClaims config.decoder evidence.response config.policy
    evidence.now answer.token = .ok evidence.value
  principal : answer.principal = evidence.value.principal
  /-- The lifetime held, with the leeway, when the answer was decided. -/
  expiry : answer.now ≤ answer.principal.expiresAt + leewaySeconds
  notBefore : ∀ start, evidence.value.notBefore = some start → start ≤ answer.now + leewaySeconds
  /-- A retained answer had not reached its expiry, and the retained cache supplied it less than
  the TTL after it was inserted. -/
  retained : ∀ entry readAt, answer.source = .retained entry readAt →
    entry.evidence = evidence ∧ answer.now < answer.principal.expiresAt ∧ entry.time ≤ readAt ∧
      ∃ cache, config.cache = some cache ∧ readAt < entry.time + cache.ttl
  /-- Past the expiry only callers of the exchange itself are answered. -/
  leeway : answer.principal.expiresAt ≤ answer.now →
    answer.source = .fresh evidence ∧ (answer.caller, evidence.run) ∈ L.joins

theorem Config.key_injective {tokens : List String}
    (injective : Set.InjOn config.sha256 (Set.image asBytes {token | token ∈ tokens}))
    {token other : String} (htoken : token ∈ tokens) (hother : other ∈ tokens)
    (h : config.key token = config.key other) : token = other :=
  as_bytes_injective (injective ⟨token, htoken, rfl⟩ ⟨other, hother, rfl⟩ h)

theorem Inv.backed (h : Inv config s)
    (injective : Set.InjOn config.sha256 (Set.image asBytes {token | token ∈ s.ledger.tokens}))
    {answer : Answer} (hmem : answer ∈ s.answers) :
    ∃ evidence, Backed config s.ledger answer evidence := by
  rcases h.answers answer hmem with ⟨htoken, hsound⟩
  -- the evidence behind either source, with its key
  have hevidence : ∃ evidence ∈ s.ledger.exchanges,
      config.key evidence.token = config.key answer.token ∧
      answer.principal = evidence.value.principal ∧
      checkLifetime evidence.value.principal.expiresAt evidence.value.notBefore answer.now = .ok () ∧
      (∀ entry readAt, answer.source = .retained entry readAt → entry.evidence = evidence ∧
        answer.now < answer.principal.expiresAt ∧ entry.time ≤ readAt ∧
          ∃ cache, config.cache = some cache ∧ readAt < entry.time + cache.ttl) ∧
      (answer.principal.expiresAt ≤ answer.now →
        answer.source = .fresh evidence ∧ (answer.caller, evidence.run) ∈ s.ledger.joins) := by
    simp only [AnswerSound] at hsound
    split at hsound
    · next evidence hsource =>
      rcases hsound with ⟨⟨hexchange, hkey, -⟩, hjoined, hdelivered⟩
      rcases deliver_ok.mp hdelivered with ⟨hprincipal, hlifetime⟩
      exact ⟨evidence, hexchange, hkey, hprincipal, hlifetime, by simp [hsource],
        fun _ => ⟨hsource, hjoined⟩⟩
    · next entry readAt hsource =>
      rcases hsound with ⟨hhit, hprincipal, hreusable⟩
      rcases reusable_at_iff.mp hreusable with ⟨hexpiry, hlifetime⟩
      have hinserted := h.inserted entry hhit.inserted
      rcases hinserted.lifetime with ⟨cache, calendar, hcache, hretention⟩
      have hbound : entry.lifetime ≤ cache.ttl := hretention ▸ retention_le_ttl _ _ _
      have hwithin := hhit.within
      refine ⟨entry.evidence, hinserted.evidence, hinserted.key ▸ hhit.key, hprincipal, hlifetime,
        ?_, ?_⟩
      · intro other readAt' hother
        rw [hsource] at hother
        cases hother
        exact ⟨rfl, hprincipal ▸ hexpiry, hhit.after, cache, hcache, by omega⟩
      · intro hlate
        rw [hprincipal] at hlate
        omega
  rcases hevidence with ⟨evidence, hexchange, hkey, hprincipal, hlifetime, hretained, hleeway⟩
  rcases h.exchanges evidence hexchange with ⟨hvalid, hpresented⟩
  have hsame : evidence.token = answer.token := config.key_injective injective hpresented htoken hkey
  rcases validate_introspection_ok hvalid.validated with ⟨text, htext, hactive, -⟩
  rcases check_lifetime_ok hlifetime with ⟨hexpiry, hstart⟩
  refine ⟨evidence, hexchange, ?_, ⟨text, htext, hactive⟩, hsame ▸ hvalid.validated, hprincipal,
    hprincipal ▸ hexpiry, hstart, hretained, hleeway⟩
  intro token
  rw [hvalid.request, hsame]
  exact ⟨fun heq => (form_body_injective heq).symm, fun heq => heq ▸ rfl⟩

/-- Every interleaving of calls, provider answers, evictions and movements of the calendar. -/
theorem introspection_within_evidence (h : (verifier config).Reachable s)
    (injective : Set.InjOn config.sha256 (Set.image asBytes {token | token ∈ s.ledger.tokens})) :
    (∀ answer ∈ s.answers, ∃ evidence, Backed config s.ledger answer evidence) ∧
    ∀ principal ttl now, retention principal ttl now ≤ ttl ∧
      (principal.expiresAt ≤ maxSystemSeconds → 0 < retention principal ttl now →
        now + retention principal ttl now ≤ (principal.expiresAt * nanos : ℕ)) :=
  ⟨fun _ hmem => (reachable_inv h).backed injective hmem, fun principal ttl now =>
    ⟨retention_le_ttl principal ttl now, retention_before_expiry⟩⟩

/-- A one-second TTL and a token that expires at second 100. -/
def samplePayload : String :=
  "\x7b\"active\":true,\"iss\":\"https://id\",\"aud\":\"api\",\"exp\":100,\"sub\":\"u\"\x7d"

def sampleClaims : ActiveClaims :=
  ⟨some "https://id", some (.one "api"), some 100, none, some "u", none, none, none, none⟩

def sampleSha256 (bytes : Bytes) : Key :=
  if bytes = [116] then
    [227, 185, 138, 77, 163, 26, 18, 125, 75, 222, 110, 67, 3, 63, 102, 186, 39, 76, 171, 14, 183,
      235, 28, 112, 236, 65, 64, 43, 246, 39, 61, 216]
  else []

def sampleConfig : Config where
  decoder := ⟨fun text => if text = samplePayload then some true else none,
    fun text => if text = samplePayload then some sampleClaims else none⟩
  policy := ⟨"https://id", ["api"], by decide⟩
  cache := some ⟨1, nanos, by decide⟩
  sha256 := sampleSha256

/-- The second caller misses before the first one's insertion and leads the next run. It finds the
retained value in time, but resumes two seconds later. -/
def lateTrace (entry : Entry) : List Event :=
  [.verify 1 "t" true, .lookup 1 none, .verify 2 "t" true, .lookup 2 none, .fill 1 0, .start 0,
    .reread 0 none, .request 0 true, .respond 0 (.ok (asBytes samplePayload)), .validate 0,
    .insert 0, .share 0, .deliver 1, .fill 2 1, .start 1, .reread 1 (some entry), .recheck 1,
    .share 1, .advance (2 * nanos), .deliver 2]

def samplePrincipal : Principal :=
  ⟨"https://id", some "u", none, [], samplePayload, "t", none, 100⟩

def sampleEvidence : Evidence :=
  ⟨0, "t", formBody "t", asBytes samplePayload, 0, ⟨samplePrincipal, none⟩⟩

def sampleEntry : Entry := ⟨sampleSha256 [116], sampleEvidence, 0, nanos⟩

theorem late_run : ∃ s, (verifier sampleConfig).run initial (lateTrace sampleEntry) = some s ∧
    s.answers = [⟨1, "t", samplePrincipal, .fresh sampleEvidence, 0, 0⟩,
      ⟨2, "t", samplePrincipal, .retained sampleEntry 0, 0, 2 * nanos⟩] ∧
    s.ledger.tokens = ["t", "t"] := by
  exact ⟨_, rfl, rfl, rfl⟩

theorem sample_key_injective {tokens : List String} (h : ∀ token ∈ tokens, token = "t") :
    Set.InjOn sampleSha256 (Set.image asBytes {token | token ∈ tokens}) := by
  rintro _ ⟨token, htoken, rfl⟩ _ ⟨other, hother, rfl⟩ -
  rw [h token htoken, h other hother]

theorem introspection_within_evidence_late :
    ∃ s, (verifier sampleConfig).run initial (lateTrace sampleEntry) = some s ∧
      s.answers.map Answer.caller = [1, 2] ∧
      (∀ answer ∈ s.answers, ∃ evidence, Backed sampleConfig s.ledger answer evidence) ∧
      ∀ principal ttl now, retention principal ttl now ≤ ttl ∧
        (principal.expiresAt ≤ maxSystemSeconds → 0 < retention principal ttl now →
          now + retention principal ttl now ≤ (principal.expiresAt * nanos : ℕ)) := by
  rcases late_run with ⟨s, hrun, hanswers, htokens⟩
  refine ⟨s, hrun, by rw [hanswers]; rfl, ?_⟩
  refine introspection_within_evidence (System.reachable_of_run hrun) (sample_key_injective ?_)
  simp [htokens]

/-- A shared retained value reaches a caller after the TTL, and past the expiry there is no
nonnegative retention that ends before it. -/
theorem retained_past_ttl :
    (∃ s, (verifier sampleConfig).Reachable s ∧
      Set.InjOn sampleConfig.sha256 (Set.image asBytes {token | token ∈ s.ledger.tokens}) ∧
      ∃ answer ∈ s.answers, ∃ entry readAt cache, answer.source = .retained entry readAt ∧
        sampleConfig.cache = some cache ∧ ¬answer.time < entry.time + cache.ttl) ∧
    samplePrincipal.expiresAt ≤ maxSystemSeconds ∧
      ¬((200 * nanos : ℕ) : ℤ) + retention samplePrincipal nanos (200 * nanos : ℕ) ≤
        (samplePrincipal.expiresAt * nanos : ℕ) := by
  refine ⟨?_, by decide, by decide⟩
  rcases late_run with ⟨s, hrun, hanswers, htokens⟩
  refine ⟨s, System.reachable_of_run hrun, sample_key_injective (by simp [htokens]), ?_⟩
  refine ⟨⟨2, "t", samplePrincipal, .retained sampleEntry 0, 0, 2 * nanos⟩, ?_,
    sampleEntry, 0, ⟨1, nanos, by decide⟩, rfl, rfl, by decide⟩
  rw [hanswers]
  exact List.mem_cons_of_mem _ (List.mem_singleton_self _)

end BearerIntrospection
