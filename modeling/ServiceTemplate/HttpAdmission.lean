import ServiceTemplate.Deadlines
import ServiceTemplate.FairSemaphore
import ServiceTemplate.OperationStop
import ServiceTemplate.TransitionSystem

/-! Requests in the hardened chain: in-flight admission, the opening deadline and the lifetime of
the response work. A request is one task that is polled or dropped; times are nanoseconds of the
monotonic clock. -/
namespace HttpAdmission

open Deadlines
open FairSemaphore
open OperationStop (Stopped)
open TransitionSystem

structure HardenOptions where
  requestTimeout : ℕ
  maxInFlight : Option ℕ
  positive : ∀ limit, maxInFlight = some limit → 0 < limit

inductive Code where
  | serviceUnavailable
  | gatewayTimeout
  deriving DecidableEq, Repr

/-- `http_status` -/
def Code.status : Code → ℕ
  | .serviceUnavailable => 503
  | .gatewayTimeout => 504

structure Problem where
  code : Code
  detail : Option String
  retryAfter : Option ℕ
  deriving DecidableEq, Repr

def shedRetryAfterSeconds : ℕ := 1

def atCapacity : Problem :=
  ⟨.serviceUnavailable, some "server is at capacity", some shedRetryAfterSeconds⟩

def timeout : Problem :=
  ⟨.gatewayTimeout, some "request budget expired before a response could be committed", none⟩

inductive Answer where
  | shed
  | stopped (reason : Stopped)
  | handler (status : ℕ)
  deriving DecidableEq, Repr

/-- `stopped_response` and the refusal of `admit`. -/
def Answer.problem : Answer → Option Problem
  | .shed => some atCapacity
  | .stopped .deadline => some timeout
  | .stopped .cancelled => some ⟨.serviceUnavailable, none, none⟩
  | .handler _ => none

/-- A spent budget is the one gateway timeout, and only a shed request is asked to come again. -/
theorem problem_kinds {answer : Answer} {problem : Problem} (h : answer.problem = some problem) :
    (problem.code.status = 504 ↔ answer = .stopped .deadline) ∧
      (problem.retryAfter.isSome = true ↔ answer = .shed) := by
  cases answer with
  | shed =>
    cases h
    decide
  | stopped reason => cases reason <;> cases h <;> decide
  | handler status => cases h

/-- `arrived` has read its clock; `refused` has found no free permit and is about to queue;
`granted` has its permit but was not polled since; `opened` runs the handler, with a permit unless
it is a probe or there is no bound; `streaming` has sent its head. -/
inductive Stage where
  | arrived
  | refused
  | waiting
  | granted
  | opened (permit : Bool)
  | streaming
  | closed
  deriving DecidableEq, Repr

/-- `since` is the start of the request's patience; `cancelled` is the token that the opening and
the response work share; `own` says that the handler has cancelled it itself. -/
structure Request where
  probe : Bool
  arrived : ℕ
  since : ℕ
  stage : Stage
  cancelled : Bool
  own : Bool
  head : Option (Answer × ℕ)
  deriving DecidableEq, Repr

/-- `turns` lists the requests in the order in which they took a free permit or joined the queue,
`grants` in the order of their permits. -/
structure World where
  now : ℕ
  permits : Option (Semaphore ℕ)
  requests : List Request
  turns : List ℕ
  grants : List ℕ

inductive Event where
  | advance (now : ℕ)
  | arrive (probe : Bool)
  | tryAcquire (i : ℕ)
  | acquire (i : ℕ)
  | poll (i : ℕ)
  | shed (i : ℕ)
  | stop (i : ℕ)
  | respond (i : ℕ) (status : ℕ) (ended : Bool)
  | cancel (i : ℕ)
  | finish (i : ℕ)
  | disconnect (i : ℕ)
  deriving DecidableEq, Repr

variable (options : HardenOptions)

def Request.deadline (r : Request) : Deadline := ⟨r.arrived, options.requestTimeout⟩

def World.stopped (w : World) (r : Request) : Option Stopped :=
  OperationStop.OperationContext.stopped ⟨(r.deadline options).expiredAt w.now, r.cancelled⟩

def World.put (w : World) (i : ℕ) (r : Request) : World := { w with requests := w.requests.set i r }

/-- A permit returns to the semaphore, which may give it to a waiter. -/
def World.release (w : World) : World :=
  match w.permits with
  | none => w
  | some semaphore =>
    match semaphore.release with
    | (none, semaphore) => { w with permits := some semaphore }
    | (some j, semaphore) =>
      match w.requests[j]? with
      | none => { w with permits := some semaphore }
      | some r =>
        { w.put j { r with stage := .granted } with
          permits := some semaphore
          grants := w.grants ++ [j] }

def World.returnPermit (w : World) (permit : Bool) : World := if permit then w.release else w

/-- A probe passes by the semaphore, and so does every request where there is no bound. -/
def arrive (w : World) (probe : Bool) : World :=
  let stage : Stage :=
    match w.permits, probe with
    | some _, false => .arrived
    | _, _ => .opened false
  { w with requests := w.requests ++ [⟨probe, w.now, w.now, stage, false, false, none⟩] }

def World.permit (w : World) (i : ℕ) (r : Request) (semaphore : Semaphore ℕ) : World :=
  { w.put i { r with stage := .opened true } with
    permits := some semaphore
    turns := w.turns ++ [i]
    grants := w.grants ++ [i] }

/-- `try_acquire`: without a free permit the request's patience begins. -/
def tryAcquire (w : World) (i : ℕ) : Option World :=
  match w.requests[i]?, w.permits with
  | some r, some semaphore =>
    if r.stage = .arrived then
      match semaphore.acquire i with
      | (true, semaphore) => some (w.permit i r semaphore)
      | (false, _) => some (w.put i { r with stage := .refused, since := w.now })
    else none
  | _, _ => none

/-- The first poll of `acquire`: a permit that came free since is taken, else the request queues. -/
def acquire (w : World) (i : ℕ) : Option World :=
  match w.requests[i]?, w.permits with
  | some r, some semaphore =>
    if r.stage = .refused then
      match semaphore.acquire i with
      | (true, semaphore) => some (w.permit i r semaphore)
      | (false, semaphore) =>
        some { w.put i { r with stage := .waiting } with
          permits := some semaphore, turns := w.turns ++ [i] }
    else none
  | _, _ => none

/-- The opening ends without the handler; its guard cancels the token. -/
def World.stopOpening (w : World) (i : ℕ) (r : Request) (permit : Bool) (reason : Stopped) : World :=
  (w.put i { r with
    stage := .closed, cancelled := true, head := some (.stopped reason, w.now) }).returnPermit permit

def poll (w : World) (i : ℕ) : Option World :=
  match w.requests[i]? with
  | some r => if r.stage = .granted then some (w.put i { r with stage := .opened true }) else none
  | none => none

def shed (w : World) (i : ℕ) : Option World :=
  match w.requests[i]? with
  | some r =>
    if r.stage = .waiting ∧ r.since + options.requestTimeout ≤ w.now then
      some { w.put i { r with stage := .closed, head := some (.shed, w.now) } with
        permits := w.permits.map fun semaphore => semaphore.leave i }
    else none
  | none => none

def stop (w : World) (i : ℕ) : Option World :=
  match w.requests[i]? with
  | some r =>
    match r.stage with
    | .opened permit => (w.stopped options r).map (w.stopOpening i r permit)
    | _ => none
  | none => none

/-- The handler has answered or panicked; `ended` is a body that has nothing to send. -/
def respond (w : World) (i status : ℕ) (ended : Bool) : Option World :=
  match w.requests[i]? with
  | some r =>
    match r.stage with
    | .opened permit =>
      match w.stopped options r with
      | some reason => some (w.stopOpening i r permit reason)
      | none =>
        some ((w.put i { r with
          stage := if ended then .closed else .streaming
          cancelled := ended
          head := some (.handler status, w.now) }).returnPermit permit)
    | _ => none
  | none => none

/-- A handler, or the response work it has left behind, cancels its own context. -/
def cancel (w : World) (i : ℕ) : Option World :=
  match w.requests[i]? with
  | some r =>
    match r.stage with
    | .opened _ | .streaming => some (w.put i { r with cancelled := true, own := true })
    | _ => none
  | none => none

def finish (w : World) (i : ℕ) : Option World :=
  match w.requests[i]? with
  | some r =>
    if r.stage = .streaming then some (w.put i { r with stage := .closed, cancelled := true }) else none
  | none => none

/-- The client is gone before the head: the request's future is dropped. -/
def disconnect (w : World) (i : ℕ) : Option World :=
  match w.requests[i]? with
  | some r =>
    match r.stage with
    | .waiting =>
      some { w.put i { r with stage := .closed } with
        permits := w.permits.map fun semaphore => semaphore.leave i }
    | .granted => some (w.put i { r with stage := .closed }).release
    | .opened permit =>
      some ((w.put i { r with stage := .closed, cancelled := true }).returnPermit permit)
    | _ => none
  | none => none

def step (w : World) : Event → Option World
  | .advance now => if w.now ≤ now then some { w with now := now } else none
  | .arrive probe => some (arrive w probe)
  | .tryAcquire i => tryAcquire w i
  | .acquire i => acquire w i
  | .poll i => poll w i
  | .shed i => shed options w i
  | .stop i => stop options w i
  | .respond i status ended => respond options w i status ended
  | .cancel i => cancel w i
  | .finish i => finish w i
  | .disconnect i => disconnect w i

def initial : World := ⟨0, options.maxInFlight.map Semaphore.ofPermits, [], [], []⟩

def harden : System World Event := ⟨initial options, step options⟩

variable {options} {w w' : World} {s : Semaphore ℕ} {limit loose i : ℕ} {r r' : Request} {e : Event}

def Stage.holds : Stage → Bool
  | .granted | .opened true => true
  | _ => false

/-- Before the request has taken a permit or its place in the queue. -/
def Stage.enters : Stage → Bool
  | .arrived | .refused => true
  | _ => false

def Stage.queues : Stage → Bool
  | .arrived | .refused | .waiting => true
  | _ => false

theorem Stage.queues_cases {stage : Stage} :
    stage.queues = true ↔ stage.enters = true ∨ stage = .waiting := by
  cases stage <;> simp [Stage.queues, Stage.enters]

theorem Stage.queues_false {stage : Stage} (h : stage.queues = false) :
    stage.enters = false ∧ stage ≠ .waiting := by
  cases stage <;> simp_all [Stage.queues, Stage.enters]

def held (requests : List Request) : ℕ := requests.countP fun r => r.stage.holds

theorem held_append (requests : List Request) (r : Request) :
    held (requests ++ [r]) = held requests + if r.stage.holds then 1 else 0 := by
  simp [held, List.countP_append, List.countP_singleton]

/-- `loose` permits are on their way back to the semaphore. -/
structure Queued (limit loose : ℕ) (w : World) (s : Semaphore ℕ) : Prop where
  waiting : ∀ i, i ∈ s.queue ↔ ∃ r, w.requests[i]? = some r ∧ r.stage = .waiting
  ordered : (w.grants ++ s.queue).Sublist w.turns
  distinct : w.turns.Nodup
  entered : ∀ i ∈ w.turns, ∃ r, w.requests[i]? = some r ∧ r.stage.enters = false
  holders : ∀ i r, w.requests[i]? = some r → r.stage.holds = true → i ∈ w.grants
  conserved : held w.requests + s.free + loose = limit

theorem held_put (hi : w.requests[i]? = some r) (r' : Request) :
    held (w.put i r').requests + (if r.stage.holds then 1 else 0) =
      held w.requests + if r'.stage.holds then 1 else 0 := by
  obtain ⟨hlt, rfl⟩ := List.getElem?_eq_some_iff.mp hi
  have hle := List.boole_getElem_le_countP (p := fun r : Request => r.stage.holds) hlt
  simp only [held, World.put]
  rw [List.countP_set hlt]
  omega

theorem put_cases {j : ℕ} {x : Request} (h : (w.put i r').requests[j]? = some x) :
    j = i ∧ x = r' ∨ j ≠ i ∧ w.requests[j]? = some x := by
  simp only [World.put, List.getElem?_set] at h
  split at h
  · split at h
    · exact .inl ⟨by omega, (Option.some.inj h).symm⟩
    · cases h
  · exact .inr ⟨by omega, h⟩

theorem put_self (hi : w.requests[i]? = some r) (r' : Request) :
    (w.put i r').requests[i]? = some r' := by
  obtain ⟨hlt, -⟩ := List.getElem?_eq_some_iff.mp hi
  simp [World.put, hlt]

theorem put_other {j : ℕ} (hj : j ≠ i) (r' : Request) :
    (w.put i r').requests[j]? = w.requests[j]? := by
  simp [World.put, Ne.symm hj]

theorem Queued.entered_put {j : ℕ} (h : Queued limit loose w s) (hi : w.requests[i]? = some r)
    (henters : r.stage.enters = false → r'.stage.enters = false) (hj : j ∈ w.turns) :
    ∃ x, (w.put i r').requests[j]? = some x ∧ x.stage.enters = false := by
  obtain ⟨x, hx, hentered⟩ := h.entered j hj
  by_cases heq : j = i
  · subst heq
    rw [hi] at hx
    cases hx
    exact ⟨r', put_self hi r', henters hentered⟩
  · exact ⟨x, by rw [put_other heq, hx], hentered⟩

/-- A request that neither waits nor starts to wait changes its stage. -/
theorem Queued.put {returned : ℕ} (h : Queued limit loose w s) (hi : w.requests[i]? = some r)
    (hwaiting : r.stage ≠ .waiting) (hwaiting' : r'.stage ≠ .waiting)
    (henters : r.stage.enters = false → r'.stage.enters = false)
    (hreturned : (if r.stage.holds then 1 else 0) =
      (if r'.stage.holds then 1 else 0) + returned) :
    Queued limit (loose + returned) (w.put i r') s where
  waiting j := by
    rw [h.waiting j]
    by_cases hj : j = i
    · subst hj
      rw [hi, put_self hi]
      constructor
      · rintro ⟨x, hx, hstage⟩
        cases hx
        exact absurd hstage hwaiting
      · rintro ⟨x, hx, hstage⟩
        cases hx
        exact absurd hstage hwaiting'
    · rw [put_other hj]
  ordered := h.ordered
  distinct := h.distinct
  entered j hj := h.entered_put hi henters hj
  holders j x hx hholds := by
    obtain ⟨rfl, rfl⟩ | ⟨-, hold⟩ := put_cases hx
    · refine h.holders j r hi ?_
      cases hbefore : r.stage.holds with
      | true => rfl
      | false =>
        simp only [hbefore, hholds, Bool.false_eq_true, if_false, if_true] at hreturned
        omega
    · exact h.holders j x hold hholds
  conserved := by
    have hheld := held_put hi r'
    have hconserved := h.conserved
    omega

theorem Queued.leave (h : Queued limit loose w s) (hi : w.requests[i]? = some r)
    (hwaiting : r.stage = .waiting) (hclosed : r'.stage = .closed) :
    Queued limit loose (w.put i r') (s.leave i) where
  waiting j := by
    rw [Semaphore.mem_leave, h.waiting j]
    by_cases hj : j = i
    · subst hj
      rw [put_self hi]
      constructor
      · rintro ⟨-, hne⟩
        exact absurd rfl hne
      · rintro ⟨x, hx, hstage⟩
        cases hx
        rw [hclosed] at hstage
        cases hstage
    · rw [put_other hj]
      exact and_iff_left hj
  ordered := ((List.Sublist.refl _).append (s.leave_sublist i)).trans h.ordered
  distinct := h.distinct
  entered j hj := h.entered_put hi (fun _ => by rw [hclosed]; rfl) hj
  holders j x hx hholds := by
    obtain ⟨rfl, rfl⟩ | ⟨-, hold⟩ := put_cases hx
    · rw [hclosed] at hholds
      cases hholds
    · exact h.holders j x hold hholds
  conserved := by
    have hheld := held_put hi r'
    have hconserved := h.conserved
    simp only [hwaiting, hclosed, Stage.holds, Bool.false_eq_true, if_false] at hheld
    rw [Semaphore.leave_free]
    omega

/-- The first waiter gets the permit that came back. -/
theorem Queued.grant {j : ℕ} {t : Semaphore ℕ} (h : Queued limit (loose + 1) w s)
    (hqueue : s.queue = j :: t.queue) (hfree : t.free = s.free)
    (hr : w.requests[j]? = some r) (hwaiting : r.stage = .waiting) :
    Queued limit loose { w.put j { r with stage := .granted } with
      permits := some t, grants := w.grants ++ [j] } t := by
  have hnodup := (List.nodup_append.mp (h.ordered.nodup h.distinct)).2.1
  rw [hqueue, List.nodup_cons] at hnodup
  refine ⟨fun k => ?_, ?_, h.distinct, fun k hk => h.entered_put hr (fun _ => rfl) hk,
    fun k x hx hholds => ?_, ?_⟩
  · show k ∈ t.queue ↔ ∃ x, (w.put j { r with stage := .granted }).requests[k]? = some x ∧
        x.stage = .waiting
    have hold := h.waiting k
    rw [hqueue, List.mem_cons] at hold
    by_cases hk : k = j
    · subst hk
      rw [put_self hr]
      constructor
      · intro hmem
        exact absurd hmem hnodup.1
      · rintro ⟨x, hx, hstage⟩
        cases hx
        cases hstage
    · rw [put_other hk, ← hold]
      simp [hk]
  · have hordered := h.ordered
    rw [hqueue] at hordered
    simpa [World.put] using hordered
  · obtain ⟨rfl, -⟩ | ⟨-, hold⟩ := put_cases hx
    · exact List.mem_append_right _ (List.mem_singleton.mpr rfl)
    · exact List.mem_append_left _ (h.holders k x hold hholds)
  · have hheld := held_put hr { r with stage := .granted }
    have hconserved := h.conserved
    rw [hwaiting] at hheld
    simp only [Stage.holds, if_true, Bool.false_eq_true, if_false] at hheld
    show held (w.put j { r with stage := .granted }).requests + t.free + loose = limit
    omega

theorem Queued.release (h : Queued limit (loose + 1) w s) (hs : w.permits = some s) :
    ∃ t, w.release.permits = some t ∧ Queued limit loose w.release t := by
  cases hrelease : s.release with
  | mk first t =>
    cases first with
    | none =>
      obtain ⟨hfree, hqueue, hrest⟩ := Semaphore.release_none hrelease
      refine ⟨t, by simp [World.release, hs, hrelease], ?_⟩
      have hconserved := h.conserved
      refine ⟨fun j => ?_, ?_, ?_, fun j hj => ?_, fun j x hx hholds => ?_, ?_⟩
      · simpa [World.release, hs, hrelease, hrest, hqueue] using h.waiting j
      · simpa [World.release, hs, hrelease, hrest, hqueue] using h.ordered
      · simpa [World.release, hs, hrelease] using h.distinct
      · simp only [World.release, hs, hrelease] at hj ⊢
        exact h.entered j hj
      · simp only [World.release, hs, hrelease] at hx ⊢
        exact h.holders j x hx hholds
      · simp only [World.release, hs, hrelease]
        omega
    | some j =>
      obtain ⟨hfree, hqueue⟩ := Semaphore.release_some hrelease
      obtain ⟨r, hr, hwaiting⟩ := (h.waiting j).mp (by simp [hqueue])
      refine ⟨t, by simp [World.release, hs, hrelease, hr], ?_⟩
      have hworld : w.release = { w.put j { r with stage := .granted } with
          permits := some t, grants := w.grants ++ [j] } := by
        simp [World.release, hs, hrelease, hr]
      rw [hworld]
      exact h.grant hqueue hfree hr hwaiting

theorem Queued.turns_fresh (h : Queued limit loose w s) (hi : w.requests[i]? = some r)
    (henters : r.stage.enters = true) : i ∉ w.turns := by
  intro hmem
  obtain ⟨x, hx, hentered⟩ := h.entered i hmem
  rw [hi] at hx
  cases hx
  rw [henters] at hentered
  cases hentered

theorem Queued.entered_turn (h : Queued limit loose w s) (hi : w.requests[i]? = some r)
    (hentered : r'.stage.enters = false) {j : ℕ} (hj : j ∈ w.turns ++ [i]) :
    ∃ x, (w.put i r').requests[j]? = some x ∧ x.stage.enters = false := by
  obtain hj | hj := List.mem_append.mp hj
  · exact h.entered_put hi (fun _ => hentered) hj
  · rw [List.mem_singleton.mp hj]
    exact ⟨r', put_self hi r', hentered⟩

theorem Queued.distinct_turn (h : Queued limit loose w s) (hi : w.requests[i]? = some r)
    (henters : r.stage.enters = true) : (w.turns ++ [i]).Nodup :=
  List.nodup_append.mpr ⟨h.distinct, by simp, fun j hj k hk heq =>
    h.turns_fresh hi henters (by rwa [← List.mem_singleton.mp hk, ← heq])⟩

theorem enters_waiting {stage : Stage} (h : stage.enters = true) : stage ≠ .waiting := by
  rintro rfl
  cases h

theorem enters_holds {stage : Stage} (h : stage.enters = true) : stage.holds = false := by
  cases stage <;> first | rfl | cases h

theorem Queued.permit {t : Semaphore ℕ} (h : Queued limit 0 w s) (hi : w.requests[i]? = some r)
    (henters : r.stage.enters = true) (hacquire : s.acquire i = (true, t)) :
    Queued limit 0 (w.permit i r t) t := by
  obtain ⟨hfree, hqueue, hrest⟩ := Semaphore.acquire_granted hacquire
  refine ⟨fun j => ?_, ?_, h.distinct_turn hi henters, fun j hj => h.entered_turn hi rfl hj,
    fun j x hx hholds => ?_, ?_⟩
  · have hold := h.waiting j
    rw [hqueue, ← hrest] at hold
    rw [hold]
    by_cases hj : j = i
    · subst hj
      constructor
      · rintro ⟨x, hx, hstage⟩
        rw [hi] at hx
        cases hx
        exact absurd hstage (enters_waiting henters)
      · rintro ⟨x, hx, hstage⟩
        obtain ⟨-, rfl⟩ | ⟨hne, -⟩ := put_cases hx
        · cases hstage
        · exact absurd rfl hne
    · show _ ↔ ∃ x, (w.put i { r with stage := .opened true }).requests[j]? = some x ∧ _
      rw [put_other hj]
  · have hordered := h.ordered
    rw [hqueue, List.append_nil] at hordered
    rw [hrest, List.append_nil]
    exact hordered.append (List.Sublist.refl [i])
  · obtain ⟨rfl, -⟩ | ⟨-, hold⟩ := put_cases hx
    · exact List.mem_append_right _ (List.mem_singleton.mpr rfl)
    · exact List.mem_append_left _ (h.holders j x hold hholds)
  · have hheld := held_put hi { r with stage := .opened true }
    have hconserved := h.conserved
    rw [enters_holds henters] at hheld
    simp only [Stage.holds, if_true, Bool.false_eq_true, if_false] at hheld
    show held (w.put i { r with stage := .opened true }).requests + t.free + 0 = limit
    omega

theorem Queued.join {t : Semaphore ℕ} (h : Queued limit 0 w s) (hi : w.requests[i]? = some r)
    (henters : r.stage.enters = true) (hacquire : s.acquire i = (false, t)) :
    Queued limit 0 { w.put i { r with stage := .waiting } with
      permits := some t, turns := w.turns ++ [i] } t := by
  obtain ⟨hfree, hqueue⟩ := Semaphore.acquire_queued hacquire
  refine ⟨fun j => ?_, ?_, h.distinct_turn hi henters, fun j hj => h.entered_turn hi rfl hj,
    fun j x hx hholds => ?_, ?_⟩
  · rw [hqueue, List.mem_append, h.waiting j, List.mem_singleton]
    show _ ↔ ∃ x, (w.put i { r with stage := .waiting }).requests[j]? = some x ∧ _
    by_cases hj : j = i
    · subst hj
      rw [put_self hi]
      exact ⟨fun _ => ⟨_, rfl, rfl⟩, fun _ => .inr rfl⟩
    · rw [put_other hj]
      exact or_iff_left hj
  · rw [hqueue, ← List.append_assoc]
    exact h.ordered.append (List.Sublist.refl [i])
  · obtain ⟨-, rfl⟩ | ⟨-, hold⟩ := put_cases hx
    · cases hholds
    · exact h.holders j x hold hholds
  · have hheld := held_put hi { r with stage := .waiting }
    have hconserved := h.conserved
    rw [enters_holds henters] at hheld
    simp only [Stage.holds, Bool.false_eq_true, if_false] at hheld
    show held (w.put i { r with stage := .waiting }).requests + t.free + 0 = limit
    omega

theorem Queued.append (h : Queued limit loose w s) (hwaiting : r.stage ≠ .waiting)
    (hholds : r.stage.holds = false) :
    Queued limit loose { w with requests := w.requests ++ [r] } s := by
  have hnew : ∀ {j : ℕ} {x : Request}, (w.requests ++ [r])[j]? = some x →
      w.requests[j]? = some x ∨ x = r := by
    intro j x hx
    rw [List.getElem?_append] at hx
    split at hx
    · exact .inl hx
    · exact .inr (List.mem_singleton.mp (List.mem_of_getElem? hx))
  have hold : ∀ {j : ℕ} {x : Request}, w.requests[j]? = some x →
      (w.requests ++ [r])[j]? = some x := by
    intro j x hx
    rwa [List.getElem?_append_left (List.getElem?_eq_some_iff.mp hx).1]
  refine ⟨fun j => ?_, h.ordered, h.distinct, fun j hj => ?_, fun j x hx hheld => ?_, ?_⟩
  · rw [h.waiting j]
    constructor
    · rintro ⟨x, hx, hstage⟩
      exact ⟨x, hold hx, hstage⟩
    · rintro ⟨x, hx, hstage⟩
      obtain hx | rfl := hnew hx
      · exact ⟨x, hx, hstage⟩
      · exact absurd hstage hwaiting
  · obtain ⟨x, hx, hentered⟩ := h.entered j hj
    exact ⟨x, hold hx, hentered⟩
  · obtain hx | rfl := hnew hx
    · exact h.holders j x hx hheld
    · rw [hholds] at hheld
      cases hheld
  · rw [held_append, hholds]
    exact h.conserved

/-- Without a bound nobody waits or holds a permit. -/
def Balanced (options : HardenOptions) (loose : ℕ) (w : World) : Prop :=
  (options.maxInFlight = none ∧ w.permits = none ∧ w.grants = [] ∧ w.turns = [] ∧
    ∀ r ∈ w.requests, r.stage ≠ .waiting ∧ r.stage.holds = false) ∨
  ∃ limit s, options.maxInFlight = some limit ∧ w.permits = some s ∧ Queued limit loose w s

theorem put_mem {x : Request} (h : x ∈ (w.put i r').requests) : x = r' ∨ x ∈ w.requests :=
  (List.mem_or_eq_of_mem_set h).symm

theorem Balanced.put (h : Balanced options loose w) (returned : ℕ) (hi : w.requests[i]? = some r)
    (hwaiting : r.stage ≠ .waiting) (hwaiting' : r'.stage ≠ .waiting)
    (henters : r.stage.enters = false → r'.stage.enters = false)
    (hreturned : (if r.stage.holds then 1 else 0) =
      (if r'.stage.holds then 1 else 0) + returned) :
    Balanced options (loose + returned) (w.put i r') := by
  obtain ⟨hnone, hpermits, hgrants, hturns, hfree⟩ | ⟨limit, s, hsome, hpermits, hqueued⟩ := h
  · refine .inl ⟨hnone, hpermits, hgrants, hturns, fun x hx => ?_⟩
    obtain rfl | hx := put_mem hx
    · refine ⟨hwaiting', ?_⟩
      rw [(hfree r (List.mem_of_getElem? hi)).2] at hreturned
      cases hholds : x.stage.holds with
      | false => rfl
      | true =>
        simp only [hholds, Bool.false_eq_true, if_false, if_true] at hreturned
        omega
    · exact hfree x hx
  · exact .inr ⟨limit, s, hsome, hpermits, hqueued.put hi hwaiting hwaiting' henters hreturned⟩

theorem Balanced.leave (h : Balanced options loose w) (hi : w.requests[i]? = some r)
    (hwaiting : r.stage = .waiting) (hclosed : r'.stage = .closed) :
    Balanced options loose { w.put i r' with
      permits := w.permits.map fun semaphore => semaphore.leave i } := by
  obtain ⟨-, -, -, -, hfree⟩ | ⟨limit, s, hsome, hpermits, hqueued⟩ := h
  · exact absurd hwaiting (hfree r (List.mem_of_getElem? hi)).1
  · obtain ⟨hq, hordered, hdistinct, hentered, hholders, hconserved⟩ :=
      hqueued.leave hi hwaiting hclosed
    exact .inr ⟨limit, s.leave i, hsome, by simp [hpermits], hq, hordered, hdistinct, hentered,
      hholders, hconserved⟩

theorem Balanced.release (h : Balanced options (loose + 1) w) :
    Balanced options loose w.release := by
  obtain ⟨hnone, hpermits, hgrants, hturns, hfree⟩ | ⟨limit, s, hsome, hpermits, hqueued⟩ := h
  · have hsame : w.release = w := by simp [World.release, hpermits]
    exact .inl ⟨hnone, by rw [hsame, hpermits], by rw [hsame, hgrants],
      by rw [hsame, hturns], by rwa [hsame]⟩
  · obtain ⟨t, ht, hreleased⟩ := hqueued.release hpermits
    exact .inr ⟨limit, t, hsome, ht, hreleased⟩

theorem release_now (w : World) : w.release.now = w.now := by
  simp only [World.release]
  repeat' split
  all_goals rfl

theorem Balanced.released {x : Request} (h : Balanced options loose w)
    (hx : x ∈ w.release.requests) :
    x ∈ w.requests ∨ ∃ r ∈ w.requests, r.stage = .waiting ∧ x = { r with stage := .granted } := by
  obtain ⟨-, hpermits, -⟩ | ⟨limit, s, -, hpermits, hqueued⟩ := h
  · simp only [World.release, hpermits] at hx
    exact .inl hx
  · cases hrelease : s.release with
    | mk first t =>
      cases first with
      | none =>
        simp only [World.release, hpermits, hrelease] at hx
        exact .inl hx
      | some j =>
        obtain ⟨-, hqueue⟩ := Semaphore.release_some hrelease
        obtain ⟨r, hr, hwaiting⟩ := (hqueued.waiting j).mp (by simp [hqueue])
        simp only [World.release, hpermits, hrelease, hr] at hx
        obtain rfl | hx := put_mem hx
        · exact .inr ⟨r, List.mem_of_getElem? hr, hwaiting, rfl⟩
        · exact .inl hx

def Timely (options : HardenOptions) (r : Request) : Answer → ℕ → Prop
  | .shed, time => r.probe = false ∧ r.arrived + options.requestTimeout ≤ time
  | .stopped .deadline, time => r.arrived + options.requestTimeout ≤ time
  | .stopped .cancelled, time => r.own = true ∧ time < r.arrived + options.requestTimeout
  | .handler _, time => time < r.arrived + options.requestTimeout

structure Sound (options : HardenOptions) (now : ℕ) (r : Request) : Prop where
  arrived : r.arrived ≤ now
  since : r.arrived ≤ r.since
  probe : r.probe = true → r.stage.queues = false ∧ r.stage.holds = false
  fresh : r.stage.queues = true ∨ r.stage = .granted → r.cancelled = false
  unanswered : r.head ≠ none → r.stage = .streaming ∨ r.stage = .closed
  head : ∀ answer time, r.head = some (answer, time) → Timely options r answer time
  streaming : r.stage = .streaming → ∃ status time, r.head = some (.handler status, time)
  cancelled : r.cancelled = true → r.own = true ∨ r.stage = .closed
  ended : r.stage = .closed → ∀ status time, r.head = some (.handler status, time) → r.cancelled = true

structure Inv (options : HardenOptions) (w : World) : Prop where
  sound : ∀ r ∈ w.requests, Sound options w.now r
  balanced : Balanced options 0 w

theorem Sound.waiting_fresh {now : ℕ} (h : Sound options now r) (hwaiting : r.stage = .waiting) :
    r.cancelled = false :=
  h.fresh (.inl (Stage.queues_cases.mpr (.inr hwaiting)))

theorem Sound.granted {now : ℕ} (h : Sound options now r) (hwaiting : r.stage = .waiting) :
    Sound options now { r with stage := .granted } where
  arrived := h.arrived
  since := h.since
  probe hprobe := absurd hwaiting (Stage.queues_false (h.probe hprobe).1).2
  fresh _ := h.waiting_fresh hwaiting
  unanswered hhead := by
    obtain hstage | hstage := h.unanswered hhead <;> rw [hwaiting] at hstage <;> cases hstage
  head := h.head
  streaming hstage := by cases hstage
  cancelled hcancelled := by
    rw [h.waiting_fresh hwaiting] at hcancelled
    cases hcancelled
  ended hstage := by cases hstage

theorem Inv.put (h : Inv options w) (hi : w.requests[i]? = some r) (hwaiting : r.stage ≠ .waiting)
    (hwaiting' : r'.stage ≠ .waiting) (henters : r.stage.enters = false → r'.stage.enters = false)
    (hholds : r.stage.holds = r'.stage.holds) (hsound : Sound options w.now r') :
    Inv options (w.put i r') where
  sound x hx := by
    obtain rfl | hx := put_mem hx
    · exact hsound
    · exact h.sound x hx
  balanced := h.balanced.put 0 hi hwaiting hwaiting' henters (by rw [hholds, Nat.add_zero])

theorem Inv.leave (h : Inv options w) (hi : w.requests[i]? = some r) (hwaiting : r.stage = .waiting)
    (hclosed : r'.stage = .closed) (hsound : Sound options w.now r') :
    Inv options { w.put i r' with permits := w.permits.map fun semaphore => semaphore.leave i } where
  sound x hx := by
    obtain rfl | hx := put_mem hx
    · exact hsound
    · exact h.sound x hx
  balanced := h.balanced.leave hi hwaiting hclosed

theorem Inv.settle (h : Inv options w) (hi : w.requests[i]? = some r) (r' : Request)
    (hwaiting : r.stage ≠ .waiting) (hqueues' : r'.stage.queues = false)
    (hholds' : r'.stage.holds = false) (hsound : Sound options w.now r') :
    Inv options ((w.put i r').returnPermit r.stage.holds) := by
  obtain ⟨henters', hwaiting'⟩ := Stage.queues_false hqueues'
  have hput : ∀ x ∈ (w.put i r').requests, Sound options w.now x := by
    intro x hx
    obtain rfl | hx := put_mem hx
    · exact hsound
    · exact h.sound x hx
  cases hholds : r.stage.holds with
  | false =>
    refine ⟨hput, h.balanced.put 0 hi hwaiting hwaiting' (fun _ => henters') ?_⟩
    rw [hholds, hholds', Nat.add_zero]
  | true =>
    have hbalanced : Balanced options 1 (w.put i r') :=
      Nat.zero_add 1 ▸ h.balanced.put 1 hi hwaiting hwaiting' (fun _ => henters')
        (by simp [hholds, hholds'])
    refine ⟨fun x hx => ?_, hbalanced.release⟩
    show Sound options (w.put i r').release.now x
    rw [release_now]
    obtain hx | ⟨y, hy, hstage, rfl⟩ := hbalanced.released hx
    · exact hput x hx
    · exact (hput y hy).granted hstage

theorem Sound.expired {now : ℕ} (h : Sound options now r) :
    (r.deadline options).expiredAt now = true ↔ r.arrived + options.requestTimeout ≤ now :=
  (Deadline.counts_to_new (Nat.le_refl r.arrived) options.requestTimeout).expired_iff h.arrived

theorem stopped_none (h : Sound options w.now r) (hnone : w.stopped options r = none) :
    r.cancelled = false ∧ w.now < r.arrived + options.requestTimeout := by
  rw [World.stopped, OperationStop.OperationContext.stopped_none] at hnone
  injection hnone with hexpired hcancelled
  have hiff := h.expired
  rw [hexpired] at hiff
  exact ⟨hcancelled, by simpa using hiff⟩

/-- A handler that is stopped before it answers is late or has cancelled itself. -/
theorem stopped_timely {permit : Bool} {reason : Stopped} (h : Sound options w.now r)
    (hopened : r.stage = .opened permit) (hstopped : w.stopped options r = some reason) :
    Timely options r (.stopped reason) w.now := by
  have hiff := h.expired
  simp only [World.stopped, OperationStop.OperationContext.stopped] at hstopped
  split at hstopped
  · rename_i hexpired
    cases hstopped
    exact hiff.mp hexpired
  · rename_i hexpired
    split at hstopped
    · rename_i hcancelled
      cases hstopped
      refine ⟨?_, Nat.lt_of_not_le fun hle => hexpired (hiff.mpr hle)⟩
      obtain hown | hclosed := h.cancelled hcancelled
      · exact hown
      · rw [hopened] at hclosed
        cases hclosed
    · cases hstopped

theorem stop_opening_inv {permit : Bool} {reason : Stopped} (h : Inv options w)
    (hi : w.requests[i]? = some r) (hopened : r.stage = .opened permit)
    (hstopped : w.stopped options r = some reason) :
    Inv options (w.stopOpening i r permit reason) := by
  have hsound := h.sound r (List.mem_of_getElem? hi)
  have hpermit : r.stage.holds = permit := by
    rw [hopened]
    cases permit <;> rfl
  have hsettled := h.settle hi { r with
    stage := .closed, cancelled := true, head := some (.stopped reason, w.now) } (by simp [hopened])
    rfl rfl ?_
  · rwa [hpermit] at hsettled
  · refine ⟨hsound.arrived, hsound.since, fun _ => ⟨rfl, rfl⟩, by simp [Stage.queues],
      fun _ => .inr rfl, ?_, by simp, fun _ => .inr rfl, fun _ _ _ _ => rfl⟩
    have htimely := stopped_timely hsound hopened hstopped
    rintro answer time heq
    cases heq
    cases reason <;> exact htimely

theorem poll_inv (h : Inv options w) (hstep : poll w i = some w') : Inv options w' := by
  simp only [poll] at hstep
  split at hstep
  · rename_i r hi
    split at hstep
    · rename_i hgranted
      cases hstep
      have hsound := h.sound r (List.mem_of_getElem? hi)
      have hcancelled := hsound.fresh (.inr hgranted)
      refine h.put hi (by simp [hgranted]) (by simp) (fun _ => rfl)
        (by simp [hgranted, Stage.holds]) ?_
      refine ⟨hsound.arrived, hsound.since, fun hprobe => ?_, by simp [Stage.queues], fun hhead => ?_,
        hsound.head, by simp, fun hset => ?_, by simp⟩
      · have hfree := (hsound.probe hprobe).2
        rw [hgranted] at hfree
        cases hfree
      · obtain hstage | hstage := hsound.unanswered hhead <;>
          rw [hgranted] at hstage <;> cases hstage
      · rw [hcancelled] at hset
        cases hset
    · cases hstep
  · cases hstep

theorem shed_inv (h : Inv options w) (hstep : shed options w i = some w') : Inv options w' := by
  simp only [shed] at hstep
  split at hstep
  · rename_i r hi
    split at hstep
    · rename_i hshed
      obtain ⟨hwaiting, hlate⟩ := hshed
      cases hstep
      have hsound := h.sound r (List.mem_of_getElem? hi)
      refine h.leave hi hwaiting rfl ⟨hsound.arrived, hsound.since, fun _ => ⟨rfl, rfl⟩,
        by simp [Stage.queues], fun _ => .inr rfl, ?_, by simp, fun _ => .inr rfl, ?_⟩
      · rintro answer time heq
        cases heq
        refine ⟨?_, Nat.le_trans (Nat.add_le_add_right hsound.since _) hlate⟩
        cases hprobe : r.probe with
        | false => rfl
        | true => exact absurd hwaiting (Stage.queues_false (hsound.probe hprobe).1).2
      · rintro - status time heq
        cases heq
    · cases hstep
  · cases hstep

theorem stop_inv (h : Inv options w) (hstep : stop options w i = some w') : Inv options w' := by
  simp only [stop] at hstep
  split at hstep
  · rename_i r hi
    split at hstep
    · rename_i permit hopened
      obtain ⟨reason, hstopped, rfl⟩ := Option.map_eq_some_iff.mp hstep
      exact stop_opening_inv h hi hopened hstopped
    · cases hstep
  · cases hstep

theorem respond_inv {status : ℕ} {ended : Bool} (h : Inv options w)
    (hstep : respond options w i status ended = some w') : Inv options w' := by
  simp only [respond] at hstep
  split at hstep
  · rename_i r hi
    split at hstep
    · rename_i permit hopened
      split at hstep
      · rename_i reason hstopped
        cases hstep
        exact stop_opening_inv h hi hopened hstopped
      · rename_i hnone
        cases hstep
        have hsound := h.sound r (List.mem_of_getElem? hi)
        obtain ⟨hclear, hearly⟩ := stopped_none hsound hnone
        have hpermit : r.stage.holds = permit := by
          rw [hopened]
          cases permit <;> rfl
        have hsettled := h.settle hi { r with
          stage := if ended then .closed else .streaming
          cancelled := ended
          head := some (.handler status, w.now) } (by simp [hopened])
          (by cases ended <;> rfl) (by cases ended <;> rfl) ?_
        · rwa [hpermit] at hsettled
        · refine ⟨hsound.arrived, hsound.since,
            fun _ => ⟨by cases ended <;> rfl, by cases ended <;> rfl⟩, ?_, ?_,
            ?_, fun _ => ⟨status, w.now, rfl⟩, ?_, ?_⟩
          · cases ended <;> simp [Stage.queues]
          · cases ended <;> simp
          · rintro answer time heq
            cases heq
            exact hearly
          · rintro rfl
            exact .inr rfl
          · cases ended <;> simp
    · cases hstep
  · cases hstep

theorem cancel_inv (h : Inv options w) (hstep : cancel w i = some w') : Inv options w' := by
  have hkept : ∀ r, w.requests[i]? = some r → r.stage.queues = false → r.stage ≠ .granted →
      Inv options (w.put i { r with cancelled := true, own := true }) := by
    intro r hi hqueues hgranted
    have hsound := h.sound r (List.mem_of_getElem? hi)
    obtain ⟨-, hwaiting⟩ := Stage.queues_false hqueues
    refine h.put hi hwaiting hwaiting (fun henters => henters) rfl ⟨hsound.arrived, hsound.since,
      hsound.probe, ?_, hsound.unanswered, ?_, hsound.streaming, fun _ => .inl rfl, fun _ _ _ _ => rfl⟩
    · rintro (hstage | hstage)
      · rw [hqueues] at hstage
        cases hstage
      · exact absurd hstage hgranted
    · intro answer time hhead
      have htimely := hsound.head answer time hhead
      cases answer with
      | shed | handler => exact htimely
      | stopped reason =>
        cases reason with
        | deadline => exact htimely
        | cancelled => exact ⟨rfl, htimely.2⟩
  simp only [cancel] at hstep
  split at hstep
  · rename_i r hi
    split at hstep
    · rename_i hopened
      cases hstep
      exact hkept r hi (by rw [hopened]; rfl) (by rw [hopened]; simp)
    · rename_i hstreaming
      cases hstep
      exact hkept r hi (by rw [hstreaming]; rfl) (by rw [hstreaming]; simp)
    · cases hstep
  · cases hstep

theorem finish_inv (h : Inv options w) (hstep : finish w i = some w') : Inv options w' := by
  simp only [finish] at hstep
  split at hstep
  · rename_i r hi
    split at hstep
    · rename_i hstreaming
      cases hstep
      have hsound := h.sound r (List.mem_of_getElem? hi)
      refine h.put hi (by simp [hstreaming]) (by simp) (fun _ => rfl)
        (by simp [hstreaming, Stage.holds]) ?_
      exact ⟨hsound.arrived, hsound.since, fun _ => ⟨rfl, rfl⟩, by simp [Stage.queues],
        fun _ => .inr rfl, hsound.head, by simp, fun _ => .inr rfl, fun _ _ _ _ => rfl⟩
    · cases hstep
  · cases hstep

theorem disconnect_inv (h : Inv options w) (hstep : disconnect w i = some w') : Inv options w' := by
  have hgone : ∀ r ∈ w.requests, ∀ cancelled, (r.stage = .streaming → False) →
      (r.stage = .closed → False) →
      Sound options w.now { r with stage := .closed, cancelled := cancelled } := by
    intro r hr cancelled hstreaming hclosed
    have hsound := h.sound r hr
    refine ⟨hsound.arrived, hsound.since, fun _ => ⟨rfl, rfl⟩, by simp [Stage.queues],
      fun _ => .inr rfl, hsound.head, by simp, fun _ => .inr rfl, fun _ status time hhead => ?_⟩
    have hstage := hsound.unanswered (by simp only at hhead; simp [hhead])
    exact (hstage.elim hstreaming hclosed).elim
  simp only [disconnect] at hstep
  split at hstep
  · rename_i r hi
    have hr := List.mem_of_getElem? hi
    split at hstep
    · rename_i hwaiting
      cases hstep
      exact h.leave hi hwaiting rfl
        (hgone r hr r.cancelled (by simp [hwaiting]) (by simp [hwaiting]))
    · rename_i hgranted
      cases hstep
      have hsettled := h.settle hi { r with stage := .closed } (by simp [hgranted]) rfl rfl
        (hgone r hr r.cancelled (by simp [hgranted]) (by simp [hgranted]))
      rw [hgranted] at hsettled
      exact hsettled
    · rename_i permit hopened
      cases hstep
      have hpermit : r.stage.holds = permit := by
        rw [hopened]
        cases permit <;> rfl
      have hsettled := h.settle hi { r with stage := .closed, cancelled := true }
        (by simp [hopened])
        rfl rfl (hgone r hr true (by simp [hopened]) (by simp [hopened]))
      rwa [hpermit] at hsettled
    · cases hstep
  · cases hstep

theorem Inv.append (h : Inv options w) (hwaiting : r.stage ≠ .waiting)
    (hholds : r.stage.holds = false) (hsound : Sound options w.now r) :
    Inv options { w with requests := w.requests ++ [r] } where
  sound x hx := by
    obtain hx | hx := List.mem_append.mp hx
    · exact h.sound x hx
    · rw [List.mem_singleton.mp hx]
      exact hsound
  balanced := by
    obtain ⟨hnone, hpermits, hgrants, hturns, hfree⟩ |
      ⟨limit, s, hsome, hpermits, hqueued⟩ := h.balanced
    · refine .inl ⟨hnone, hpermits, hgrants, hturns, fun x hx => ?_⟩
      obtain hx | hx := List.mem_append.mp hx
      · exact hfree x hx
      · rw [List.mem_singleton.mp hx]
        exact ⟨hwaiting, hholds⟩
    · exact .inr ⟨limit, s, hsome, hpermits, hqueued.append hwaiting hholds⟩

theorem arrive_inv (h : Inv options w) (probe : Bool) : Inv options (arrive w probe) := by
  have hnew : ∀ stage : Stage, (probe = true → stage.queues = false) → stage ≠ .waiting →
      stage.holds = false → stage ≠ .streaming →
      Inv options { w with
        requests := w.requests ++ [⟨probe, w.now, w.now, stage, false, false, none⟩] } := by
    intro stage hprobe hwaiting hholds hstreaming
    refine h.append hwaiting hholds ⟨Nat.le_refl _, Nat.le_refl _, fun hset => ⟨hprobe hset, hholds⟩,
      fun _ => rfl, fun hhead => absurd rfl hhead, ?_, fun hstage => absurd hstage hstreaming, ?_, ?_⟩
    · rintro answer time heq
      cases heq
    · rintro heq
      cases heq
    · rintro - status time heq
      cases heq
  simp only [arrive]
  split
  · exact hnew .arrived (fun heq => by cases heq) (by simp) rfl (by simp)
  · exact hnew (.opened false) (fun _ => rfl) (by simp) rfl (by simp)

/-- A request that is admitted or queues, or finds no permit at its first look. -/
theorem Sound.entered {now since : ℕ} {stage : Stage} (h : Sound options now r)
    (henters : r.stage.enters = true) (hsince : r.arrived ≤ since)
    (hstreaming : stage ≠ .streaming) (hclosed : stage ≠ .closed) :
    Sound options now { r with stage := stage, since := since } where
  arrived := h.arrived
  since := hsince
  probe hprobe := by
    have hqueues := (Stage.queues_false (h.probe hprobe).1).1
    rw [henters] at hqueues
    cases hqueues
  fresh _ := h.fresh (.inl (Stage.queues_cases.mpr (.inl henters)))
  unanswered hhead := by
    obtain hstage | hstage := h.unanswered hhead <;> rw [hstage] at henters <;> cases henters
  head := h.head
  streaming hstage := absurd hstage hstreaming
  cancelled hcancelled := by
    rw [h.fresh (.inl (Stage.queues_cases.mpr (.inl henters)))] at hcancelled
    cases hcancelled
  ended hstage := absurd hstage hclosed

theorem Inv.queued (h : Inv options w) (hs : w.permits = some s) :
    ∃ limit, options.maxInFlight = some limit ∧ Queued limit 0 w s := by
  obtain ⟨-, hpermits, -⟩ | ⟨limit, t, hsome, hpermits, hqueued⟩ := h.balanced
  · rw [hs] at hpermits
    cases hpermits
  · rw [hs] at hpermits
    cases hpermits
    exact ⟨limit, hsome, hqueued⟩

theorem admit_inv {t : Semaphore ℕ} (h : Inv options w) (hi : w.requests[i]? = some r)
    (hs : w.permits = some s) (henters : r.stage.enters = true)
    (hacquire : s.acquire i = (true, t)) : Inv options (w.permit i r t) := by
  have hsound := h.sound r (List.mem_of_getElem? hi)
  obtain ⟨limit, hsome, hqueued⟩ := h.queued hs
  refine ⟨fun x hx => ?_, .inr ⟨limit, t, hsome, rfl, hqueued.permit hi henters hacquire⟩⟩
  obtain rfl | hx := put_mem hx
  · exact hsound.entered henters hsound.since (by simp) (by simp)
  · exact h.sound x hx

theorem try_acquire_inv (h : Inv options w) (hstep : tryAcquire w i = some w') :
    Inv options w' := by
  simp only [tryAcquire] at hstep
  split at hstep
  · rename_i r s hi hs
    split at hstep
    · rename_i harrived
      have hsound := h.sound r (List.mem_of_getElem? hi)
      have henters : r.stage.enters = true := by rw [harrived]; rfl
      split at hstep
      · cases hstep
        exact admit_inv h hi hs henters ‹_›
      · cases hstep
        refine h.put hi (by simp [harrived]) (by simp) (fun hentered => ?_)
          (by simp [harrived, Stage.holds])
          (hsound.entered henters hsound.arrived (by simp) (by simp))
        rw [henters] at hentered
        cases hentered
    · cases hstep
  · cases hstep

theorem acquire_inv (h : Inv options w) (hstep : acquire w i = some w') : Inv options w' := by
  simp only [acquire] at hstep
  split at hstep
  · rename_i r s hi hs
    split at hstep
    · rename_i hrefused
      have hsound := h.sound r (List.mem_of_getElem? hi)
      have henters : r.stage.enters = true := by rw [hrefused]; rfl
      split at hstep
      · cases hstep
        exact admit_inv h hi hs henters ‹_›
      · cases hstep
        obtain ⟨limit, hsome, hqueued⟩ := h.queued hs
        refine ⟨fun x hx => ?_, .inr ⟨limit, _, hsome, rfl, hqueued.join hi henters ‹_›⟩⟩
        obtain rfl | hx := put_mem hx
        · exact hsound.entered henters hsound.since (by simp) (by simp)
        · exact h.sound x hx
    · cases hstep
  · cases hstep

theorem step_inv (h : Inv options w) (hstep : (harden options).step w e = some w') :
    Inv options w' := by
  simp only [harden, step] at hstep
  cases e with
  | advance now =>
    simp only at hstep
    split at hstep <;> cases hstep
    refine ⟨fun r hr => ?_, h.balanced.imp (fun hfree => hfree)
      fun ⟨limit, s, hsome, hpermits, hq⟩ =>
        ⟨limit, s, hsome, hpermits, hq.waiting, hq.ordered, hq.distinct, hq.entered, hq.holders,
          hq.conserved⟩⟩
    have hsound := h.sound r hr
    exact { hsound with arrived := Nat.le_trans hsound.arrived ‹_› }
  | arrive probe =>
    cases hstep
    exact arrive_inv h probe
  | tryAcquire => exact try_acquire_inv h hstep
  | acquire => exact acquire_inv h hstep
  | poll => exact poll_inv h hstep
  | shed => exact shed_inv h hstep
  | stop => exact stop_inv h hstep
  | respond => exact respond_inv h hstep
  | cancel => exact cancel_inv h hstep
  | finish => exact finish_inv h hstep
  | disconnect => exact disconnect_inv h hstep

theorem initial_inv (options : HardenOptions) : Inv options (initial options) := by
  refine ⟨by simp [initial], ?_⟩
  cases hlimit : options.maxInFlight with
  | none => exact .inl ⟨hlimit, by simp [initial, hlimit], rfl, rfl, by simp [initial]⟩
  | some limit =>
    refine .inr ⟨limit, .ofPermits limit, hlimit, by simp [initial, hlimit], ?_, ?_, ?_, ?_, ?_, ?_⟩
    · simp [initial, Semaphore.ofPermits]
    · simp [initial, Semaphore.ofPermits]
    · simp [initial]
    · simp [initial]
    · simp [initial]
    · simp [initial, Semaphore.ofPermits, held]

theorem reachable_inv (h : (harden options).Reachable w) : Inv options w :=
  h.induction (P := Inv options) (initial_inv options) fun _ _ _ _ hw hstep => step_inv hw hstep

end HttpAdmission
