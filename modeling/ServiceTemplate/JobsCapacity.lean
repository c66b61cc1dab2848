import ServiceTemplate.JobsSelection
import ServiceTemplate.TransitionSystem
import Mathlib.Logic.Function.Basic

/-! The slots of one engine. The claim loop alone takes them: it counts the free ones before it
sends the claim statement, while attempts of earlier rounds give theirs back at any time. -/
namespace JobsCapacity

open TransitionSystem
open JobsTable

def asI64 (count : ℕ) : ℕ := if count < 2 ^ 63 then count else 1

/-- An attempt by what it still holds: its engine slot and its place in its kind. -/
structure Attempt where
  kind : String
  slot : Bool
  kindSlot : Bool
  deriving DecidableEq

/-- `limits` are the free places already read, and `rest` the kinds still to read. -/
inductive Stage where
  | waiting
  | counting
  | merging (extra : ℕ)
  | taken
  | binding (limits : String → ℕ) (rest : List Registered)
  | dispatching (rows : List Row)
  | stopped

/-- `free` and `kindFree` are the free permits, and `held` the claim loop's. `exceeded` is the
`job_claim_exceeded_slots` error. -/
structure Engine where
  free : ℕ
  kindFree : String → ℕ
  held : ℕ
  attempts : List Attempt
  stage : Stage
  exceeded : Bool

inductive Event where
  | acquire
  | count
  | merge
  | bind
  | answer (rows : List Row) (locked : JobId → Bool) (now : Time) (drawn : List Row)
  | fail
  | dispatch
  | stop
  | releaseSlot (i : ℕ)
  | releaseKind (i : ℕ)

variable (registry : Registry)

def get (kind : String) : Option Registered :=
  registry.entries.find? fun entry => entry.name = kind

def maxRunning (kind : String) : Option ℕ := (get registry kind).bind fun entry =>
  entry.policy.maxRunning

/-- A claimed row whose attempts are spent only leaves a record. -/
def exhausted (row : Row) : Bool :=
  (get registry row.kind).any fun entry => (entry.policy.maxAttempts : ℤ) ≤ row.attempts

/-- Drops the permits the claim loop still holds. -/
def Engine.giveBack (e : Engine) (stage : Stage) : Engine :=
  { e with free := e.free + e.held, held := 0, stage := stage }

/-- One row of `dispatch_known`. -/
def Engine.dispatch (e : Engine) (row : Row) (rest : List Row) : Engine :=
  if exhausted registry row then { e with stage := .dispatching rest }
  else if e.held = 0 then { e with exceeded := true, stage := .dispatching [] }
  else
    let kindSlot := (maxRunning registry row.kind).isSome && 0 < e.kindFree row.kind
    { e with
      held := e.held - 1
      kindFree := if kindSlot then
        Function.update e.kindFree row.kind (e.kindFree row.kind - 1) else e.kindFree
      attempts := e.attempts ++ [⟨row.kind, true, kindSlot⟩]
      stage := .dispatching rest }

/-- The claim loop, and the attempts. An attempt gives its engine slot back before its place in its
kind. -/
def step (e : Engine) : Event → Option Engine
  | .acquire =>
    match e.stage with
    | .waiting =>
      if 0 < e.free then some { e with free := e.free - 1, held := 1, stage := .counting } else none
    | _ => none
  | .count =>
    match e.stage with
    | .counting => some { e with stage := .merging e.free }
    | _ => none
  | .merge =>
    match e.stage with
    | .merging extra =>
      if extra ≤ e.free then
        some { e with free := e.free - extra, held := e.held + extra, stage := .taken }
      else some { e with stage := .taken }
    | _ => none
  | .bind =>
    match e.stage with
    | .taken => some { e with stage := .binding (fun _ => 0) registry.entries }
    | .binding limits (entry :: rest) =>
      some { e with
        stage := .binding (Function.update limits entry.name (asI64 (e.kindFree entry.name))) rest }
    | _ => none
  | .answer rows locked now drawn =>
    match e.stage with
    | .binding limits [] =>
      if (rows.map Row.id).Nodup ∧
          Drawn rows locked (policyBinds registry limits (asI64 e.held)) (asI64 e.held) now drawn then
        some { e with stage := .dispatching drawn }
      else none
    | _ => none
  | .fail =>
    match e.stage with
    | .binding _ [] => some (e.giveBack .waiting)
    | _ => none
  | .dispatch =>
    match e.stage with
    | .dispatching [] => some (e.giveBack .waiting)
    | .dispatching (row :: rest) => some (e.dispatch registry row rest)
    | _ => none
  | .stop =>
    match e.stage with
    | .waiting | .taken => some (e.giveBack .stopped)
    | _ => none
  | .releaseSlot i =>
    match e.attempts[i]? with
    | some attempt =>
      if attempt.slot then
        some { e with
          free := e.free + 1
          attempts := e.attempts.set i { attempt with slot := false } }
      else none
    | none => none
  | .releaseKind i =>
    match e.attempts[i]? with
    | some attempt =>
      if !attempt.slot && attempt.kindSlot then
        some { e with
          kindFree := Function.update e.kindFree attempt.kind (e.kindFree attempt.kind + 1)
          attempts := e.attempts.set i { attempt with kindSlot := false } }
      else none
    | none => none

def initial (maxWorkers : ℕ) : Engine :=
  ⟨maxWorkers, fun kind => (maxRunning registry kind).getD 0, 0, [], .waiting, false⟩

def engine (maxWorkers : ℕ) : System Engine Event := ⟨initial registry maxWorkers, step registry⟩

theorem check_entries_nodup {seen : List String} {entries : List Registered}
    (h : checkEntries seen entries = .ok ()) :
    (entries.map Registered.name).Nodup ∧ ∀ entry ∈ entries, entry.name ∉ seen := by
  induction entries generalizing seen with
  | nil => simp
  | cons entry entries ih =>
    rw [checkEntries] at h
    split at h
    · cases h
    · split at h
      · cases h
      · rename_i hseen
        split at h
        · cases h
        · split at h
          · cases h
          · obtain ⟨hnodup, hfresh⟩ := ih h
            refine ⟨List.nodup_cons.mpr ⟨?_, hnodup⟩, ?_⟩
            · intro hmem
              rcases List.mem_map.mp hmem with ⟨other, hother, heq⟩
              exact hfresh other hother (heq ▸ List.mem_cons_self)
            · intro other hother
              rcases List.mem_cons.mp hother with rfl | hother
              · exact hseen
              · exact fun hmem => hfresh other hother (List.mem_cons_of_mem _ hmem)

theorem names_nodup : (registry.entries.map Registered.name).Nodup := by
  have h := registry.checked
  rw [validate] at h
  split at h
  · cases h
  · exact (check_entries_nodup h).1

theorem binds_kinds (limits : String → ℕ) (requested : ℕ) :
    ((policyBinds registry limits requested).map PolicyBind.kind).Nodup := by
  rw [policyBinds, List.map_map]
  exact names_nodup registry

theorem as_i64_le (count : ℕ) : asI64 count ≤ count := by
  rw [asI64]
  split
  · exact Nat.le_refl _
  · omega

theorem mem_of_max_running {kind : String} {limit : ℕ} (h : maxRunning registry kind = some limit) :
    ∃ entry ∈ registry.entries, entry.name = kind ∧ entry.policy.maxRunning = some limit := by
  obtain ⟨entry, hentry, hlimit⟩ := Option.bind_eq_some_iff.mp h
  have hname := List.find?_some hentry
  exact ⟨entry, List.mem_of_find?_eq_some hentry, of_decide_eq_true hname, hlimit⟩

def needing (rows : List Row) : ℕ := rows.countP fun row => !exhausted registry row

def needingOf (rows : List Row) (kind : String) : ℕ :=
  rows.countP fun row => !exhausted registry row && row.kind = kind

/-- The permits cover what the claim loop goes on to do with them. -/
def StageCovered (e : Engine) : Stage → Prop
  | .waiting => e.held = 0
  | .counting => e.held = 1
  | .merging extra => e.held = 1 ∧ extra ≤ e.free
  | .taken => True
  | .binding limits rest => ∀ entry ∈ registry.entries, entry ∉ rest →
      ∀ limit, maxRunning registry entry.name = some limit → limits entry.name ≤ e.kindFree entry.name
  | .dispatching rows => needing registry rows ≤ e.held ∧
      ∀ kind limit, maxRunning registry kind = some limit →
        needingOf registry rows kind ≤ e.kindFree kind
  | .stopped => True

def slotsHeld (attempts : List Attempt) : ℕ := attempts.countP Attempt.slot

def placesHeld (attempts : List Attempt) (kind : String) : ℕ :=
  attempts.countP fun attempt => attempt.kindSlot && attempt.kind = kind

structure Inv (maxWorkers : ℕ) (e : Engine) : Prop where
  slots : e.free + e.held + slotsHeld e.attempts = maxWorkers
  places : ∀ kind limit, maxRunning registry kind = some limit →
    e.kindFree kind + placesHeld e.attempts kind = limit
  owned : ∀ attempt ∈ e.attempts, attempt.slot = true →
    (maxRunning registry attempt.kind).isSome → attempt.kindSlot = true
  calm : e.exceeded = false
  covered : StageCovered registry e e.stage

variable {registry} {maxWorkers : ℕ} {e e' : Engine}

theorem initial_inv : Inv registry maxWorkers (initial registry maxWorkers) where
  slots := rfl
  places kind limit h := by simp [initial, h, placesHeld]
  owned := by simp [initial]
  calm := rfl
  covered := rfl

theorem StageCovered.mono {stage : Stage} {free : ℕ} {kindFree : String → ℕ}
    {attempts : List Attempt} (h : StageCovered registry e stage) (hfree : e.free ≤ free)
    (hkind : ∀ kind, e.kindFree kind ≤ kindFree kind) :
    StageCovered registry { e with free := free, kindFree := kindFree, attempts := attempts } stage := by
  cases stage with
  | merging extra => exact ⟨h.1, Nat.le_trans h.2 hfree⟩
  | binding limits rest =>
    exact fun entry hentry hrest limit hlimit =>
      Nat.le_trans (h entry hentry hrest limit hlimit) (hkind _)
  | dispatching rows =>
    exact ⟨h.1, fun kind limit hlimit => Nat.le_trans (h.2 kind limit hlimit) (hkind kind)⟩
  | _ => exact h

theorem count_set (p : Attempt → Bool) {attempts : List Attempt} {i : ℕ} {attempt : Attempt}
    (h : attempts[i]? = some attempt) (other : Attempt) :
    (attempts.set i other).countP p + (if p attempt then 1 else 0) =
      attempts.countP p + if p other then 1 else 0 := by
  obtain ⟨hi, hget⟩ := List.getElem?_eq_some_iff.mp h
  have hpos : p attempt = true → 0 < attempts.countP p := fun hp =>
    List.countP_pos_iff.mpr ⟨attempt, List.mem_of_getElem? h, hp⟩
  rw [List.countP_set hi, hget]
  split <;> rename_i hp
  · have := hpos hp
    omega
  · omega

theorem Inv.give_back (h : Inv registry maxWorkers e) {stage : Stage}
    (hstage : StageCovered registry (e.giveBack stage) stage) :
    Inv registry maxWorkers (e.giveBack stage) where
  slots := h.slots
  places := h.places
  owned := h.owned
  calm := h.calm
  covered := hstage

theorem release_slot_inv (h : Inv registry maxWorkers e) {i : ℕ} {attempt : Attempt}
    (hget : e.attempts[i]? = some attempt) (hslot : attempt.slot = true) :
    Inv registry maxWorkers { e with
      free := e.free + 1
      attempts := e.attempts.set i { attempt with slot := false } } where
  slots := by
    have hcount := count_set Attempt.slot hget { attempt with slot := false }
    have hslots := h.slots
    simp only [hslot, if_true, Bool.false_eq_true, if_false, Nat.add_zero] at hcount
    simp only [slotsHeld] at hslots ⊢
    omega
  places kind limit hlimit := by
    have hcount := count_set (fun attempt => attempt.kindSlot && attempt.kind = kind) hget
      { attempt with slot := false }
    have hplaces := h.places kind limit hlimit
    dsimp only at hcount
    simp only [placesHeld] at hplaces ⊢
    omega
  owned other hother hheld := by
    rcases List.mem_or_eq_of_mem_set hother with hmem | rfl
    · exact h.owned other hmem hheld
    · cases hheld
  calm := h.calm
  covered := h.covered.mono (Nat.le_succ _) fun _ => Nat.le_refl _

theorem release_kind_inv (h : Inv registry maxWorkers e) {i : ℕ} {attempt : Attempt}
    (hget : e.attempts[i]? = some attempt) (hslot : attempt.slot = false)
    (hplace : attempt.kindSlot = true) :
    Inv registry maxWorkers { e with
      kindFree := Function.update e.kindFree attempt.kind (e.kindFree attempt.kind + 1)
      attempts := e.attempts.set i { attempt with kindSlot := false } } where
  slots := by
    have hcount := count_set Attempt.slot hget { attempt with kindSlot := false }
    have hslots := h.slots
    dsimp only at hcount
    simp only [slotsHeld] at hslots ⊢
    omega
  places kind limit hlimit := by
    have hcount := count_set (fun attempt => attempt.kindSlot && attempt.kind = kind) hget
      { attempt with kindSlot := false }
    have hplaces := h.places kind limit hlimit
    simp only [hplace, Bool.true_and, Bool.false_and, Bool.false_eq_true, if_false,
      decide_eq_true_eq, Nat.add_zero] at hcount
    simp only [placesHeld] at hplaces ⊢
    by_cases hkind : kind = attempt.kind
    · subst hkind
      rw [Function.update_self]
      rw [if_pos rfl] at hcount
      omega
    · rw [Function.update_of_ne hkind]
      rw [if_neg (Ne.symm hkind)] at hcount
      omega
  owned other hother hheld := by
    rcases List.mem_or_eq_of_mem_set hother with hmem | rfl
    · exact h.owned other hmem hheld
    · cases hslot.symm.trans hheld
  calm := h.calm
  covered := by
    refine h.covered.mono (Nat.le_refl _) fun kind => ?_
    by_cases hkind : kind = attempt.kind
    · subst hkind
      rw [Function.update_self]
      exact Nat.le_succ _
    · rw [Function.update_of_ne hkind]

theorem needing_cons {row : Row} (h : exhausted registry row = false) (rest : List Row) :
    needing registry (row :: rest) = needing registry rest + 1 := by
  simp [needing, h]

theorem needing_of_cons {row : Row} (h : exhausted registry row = false) (rest : List Row)
    (kind : String) : needingOf registry (row :: rest) kind =
      needingOf registry rest kind + if row.kind = kind then 1 else 0 := by
  simp [needingOf, List.countP_cons, h]

/-- A running row finds its slot, and its place where its kind has a limit. -/
theorem dispatch_inv (h : Inv registry maxWorkers e) {row : Row} {rest : List Row}
    (hstage : e.stage = .dispatching (row :: rest)) :
    Inv registry maxWorkers (e.dispatch registry row rest) := by
  have hcovered := h.covered
  rw [hstage] at hcovered
  obtain ⟨hneeding, hplaces⟩ := hcovered
  rw [Engine.dispatch]
  split
  · rename_i hexhausted
    refine { h with covered := ⟨?_, fun kind limit hlimit => ?_⟩ }
    · simpa [needing, hexhausted] using hneeding
    · simpa [needingOf, hexhausted] using hplaces kind limit hlimit
  · rename_i hexhausted
    rw [Bool.not_eq_true] at hexhausted
    rw [needing_cons hexhausted] at hneeding
    split
    · omega
    · have hslots := h.slots
      have hheld : e.held - 1 + 1 = e.held := by omega
      cases hcapped : maxRunning registry row.kind with
      | none =>
        simp only [Option.isSome_none, Bool.false_and, Bool.false_eq_true, if_false]
        constructor
        · simp only [slotsHeld, List.countP_append, List.countP_singleton, if_true] at hslots ⊢
          omega
        · intro kind limit hlimit
          simpa [placesHeld] using h.places kind limit hlimit
        · intro attempt hattempt hslot hsome
          rcases List.mem_append.mp hattempt with hattempt | hattempt
          · exact h.owned attempt hattempt hslot hsome
          · rw [List.mem_singleton.mp hattempt, hcapped] at hsome
            cases hsome
        · exact h.calm
        · refine ⟨by dsimp only; omega, fun kind limit hlimit => ?_⟩
          have hplace := hplaces kind limit hlimit
          rw [needing_of_cons hexhausted] at hplace
          exact Nat.le_trans (Nat.le_add_right _ _) hplace
      | some limit =>
        have hplace := hplaces row.kind limit hcapped
        rw [needing_of_cons hexhausted, if_pos rfl] at hplace
        have hfree : 0 < e.kindFree row.kind := by omega
        simp only [Option.isSome_some, hfree, decide_true, Bool.and_self, if_true]
        constructor
        · simp only [slotsHeld, List.countP_append, List.countP_singleton, if_true] at hslots ⊢
          omega
        · intro kind limit' hlimit
          have hbefore := h.places kind limit' hlimit
          by_cases hkind : kind = row.kind
          · subst hkind
            simp only [placesHeld, List.countP_append, List.countP_singleton, Bool.true_and,
              decide_true, if_true, Function.update_self] at hbefore ⊢
            omega
          · simpa [placesHeld, Function.update_of_ne hkind, Ne.symm hkind] using hbefore
        · intro attempt hattempt hslot hsome
          rcases List.mem_append.mp hattempt with hattempt | hattempt
          · exact h.owned attempt hattempt hslot hsome
          · rw [List.mem_singleton.mp hattempt]
        · exact h.calm
        · refine ⟨by dsimp only; omega, fun kind limit' hlimit => ?_⟩
          have hbefore := hplaces kind limit' hlimit
          rw [needing_of_cons hexhausted] at hbefore
          by_cases hkind : kind = row.kind
          · subst hkind
            dsimp only
            rw [Function.update_self]
            omega
          · dsimp only
            rw [Function.update_of_ne hkind]
            exact Nat.le_trans (Nat.le_add_right _ _) hbefore

/-- The statement draws no more than was counted, and what was counted is still there. -/
theorem answer_covered (h : Inv registry maxWorkers e) {limits : String → ℕ}
    (hstage : e.stage = .binding limits []) {rows drawn : List Row} {locked : JobId → Bool}
    {now : Time} (hids : (rows.map Row.id).Nodup)
    (hdrawn : Drawn rows locked (policyBinds registry limits (asI64 e.held)) (asI64 e.held) now drawn) :
    StageCovered registry { e with stage := .dispatching drawn } (.dispatching drawn) := by
  have hcovered := h.covered
  rw [hstage] at hcovered
  constructor
  · calc needing registry drawn ≤ drawn.length := List.countP_le_length
      _ ≤ asI64 e.held := hdrawn.length
      _ ≤ e.held := as_i64_le _
  · intro kind limit hlimit
    obtain ⟨entry, hentry, rfl, hpolicy⟩ := mem_of_max_running registry hlimit
    have hbind : (⟨entry.name, entry.policy, min (asI64 e.held) (limits entry.name)⟩ : PolicyBind) ∈
        policyBinds registry limits (asI64 e.held) := by
      refine List.mem_map.mpr ⟨entry, hentry, ?_⟩
      rw [hpolicy]
    calc needingOf registry drawn entry.name
        ≤ drawn.countP (fun row => row.kind = entry.name) := by
          apply List.countP_mono_left
          intro row _ hrow
          simp only [Bool.and_eq_true] at hrow
          exact hrow.2
      _ ≤ min (asI64 e.held) (limits entry.name) :=
          hdrawn.kind_le hids (binds_kinds registry limits _) hbind
      _ ≤ limits entry.name := Nat.min_le_right _ _
      _ ≤ e.kindFree entry.name := hcovered entry hentry List.not_mem_nil limit hlimit

theorem step_inv {event : Event} (h : Inv registry maxWorkers e)
    (hstep : step registry e event = some e') : Inv registry maxWorkers e' := by
  have hcovered := h.covered
  have hslots := h.slots
  cases event with
  | acquire =>
    rw [step] at hstep
    split at hstep
    · rename_i hstage
      obtain ⟨hfree, heq⟩ := Option.ite_none_right_eq_some.mp hstep
      rw [hstage] at hcovered
      have hheld : e.held = 0 := hcovered
      cases heq
      refine { h with slots := ?_, covered := rfl }
      dsimp only
      omega
    · cases hstep
  | count =>
    rw [step] at hstep
    split at hstep
    · rename_i hstage
      rw [hstage] at hcovered
      cases hstep
      exact { h with covered := ⟨hcovered, Nat.le_refl _⟩ }
    · cases hstep
  | merge =>
    rw [step] at hstep
    split at hstep
    · rename_i extra hstage
      rw [hstage] at hcovered
      obtain ⟨hheld, hextra⟩ := hcovered
      rw [if_pos hextra] at hstep
      cases hstep
      refine { h with slots := ?_, covered := trivial }
      dsimp only
      omega
    · cases hstep
  | bind =>
    rw [step] at hstep
    split at hstep
    · cases hstep
      exact { h with covered := fun entry hentry hrest => absurd hentry hrest }
    · rename_i limits entry rest hstage
      rw [hstage] at hcovered
      cases hstep
      refine { h with covered := fun other hother hrest limit hlimit => ?_ }
      by_cases hname : other.name = entry.name
      · rw [hname, Function.update_self]
        exact as_i64_le _
      · rw [Function.update_of_ne hname]
        refine hcovered other hother (fun hmem => ?_) limit hlimit
        rcases List.mem_cons.mp hmem with rfl | hmem
        · exact hname rfl
        · exact hrest hmem
    · cases hstep
  | answer rows locked now drawn =>
    rw [step] at hstep
    split at hstep
    · rename_i limits hstage
      obtain ⟨⟨hids, hdrawn⟩, heq⟩ := Option.ite_none_right_eq_some.mp hstep
      cases heq
      exact { h with covered := answer_covered h hstage hids hdrawn }
    · cases hstep
  | fail =>
    rw [step] at hstep
    split at hstep
    · cases hstep
      exact h.give_back rfl
    · cases hstep
  | dispatch =>
    rw [step] at hstep
    split at hstep
    · cases hstep
      exact h.give_back rfl
    · rename_i row rest hstage
      cases hstep
      exact dispatch_inv h hstage
    · cases hstep
  | stop =>
    rw [step] at hstep
    split at hstep
    · cases hstep
      exact h.give_back trivial
    · cases hstep
      exact h.give_back trivial
    · cases hstep
  | releaseSlot i =>
    rw [step] at hstep
    split at hstep
    · rename_i attempt hget
      obtain ⟨hslot, heq⟩ := Option.ite_none_right_eq_some.mp hstep
      cases heq
      exact release_slot_inv h hget hslot
    · cases hstep
  | releaseKind i =>
    rw [step] at hstep
    split at hstep
    · rename_i attempt hget
      obtain ⟨hheld, heq⟩ := Option.ite_none_right_eq_some.mp hstep
      rw [Bool.and_eq_true, Bool.not_eq_true'] at hheld
      cases heq
      exact release_kind_inv h hget hheld.1 hheld.2
    · cases hstep

theorem reachable_inv (h : (engine registry maxWorkers).Reachable e) : Inv registry maxWorkers e :=
  h.induction (P := Inv registry maxWorkers) initial_inv fun _ _ _ _ hinv hstep => step_inv hinv hstep

def running (attempts : List Attempt) (kind : String) : ℕ :=
  attempts.countP fun attempt => attempt.slot && attempt.kind = kind

/-- No round runs out of slots, every attempt of a limited kind has its place, and the limits hold. -/
structure Within (registry : Registry) (maxWorkers : ℕ) (e : Engine) : Prop where
  calm : e.exceeded = false
  placed : ∀ attempt ∈ e.attempts, attempt.slot = true →
    (maxRunning registry attempt.kind).isSome → attempt.kindSlot = true
  total : slotsHeld e.attempts ≤ maxWorkers
  kind : ∀ kind limit, maxRunning registry kind = some limit → running e.attempts kind ≤ limit

theorem Inv.within (h : Inv registry maxWorkers e) : Within registry maxWorkers e where
  calm := h.calm
  placed := h.owned
  total := by
    have hslots := h.slots
    omega
  kind kind limit hlimit := by
    have hplaces := h.places kind limit hlimit
    have hle : running e.attempts kind ≤ placesHeld e.attempts kind := by
      refine List.countP_mono_left fun attempt hattempt hrunning => ?_
      simp only [Bool.and_eq_true, decide_eq_true_eq] at hrunning ⊢
      obtain ⟨hslot, rfl⟩ := hrunning
      exact ⟨h.owned attempt hattempt hslot (by rw [hlimit]; rfl), rfl⟩
    omega

/-- The claim statement picks what its plain description says, for any table, locks and limits, and
an engine that asks for its free permits stays within its limits. -/
theorem claim_selects {rows : List Row} (hids : (rows.map Row.id).Nodup) {binds : List PolicyBind}
    (hkinds : (binds.map PolicyBind.kind).Nodup) (locked : JobId → Bool) (requested : ℕ)
    (now : Time) :
    (∀ id, id ∈ picked rows locked binds requested now ↔
      id ∈ selection rows locked binds requested now) ∧
    (∀ drawn, Drawn rows locked binds requested now drawn → drawn.length ≤ requested ∧
      ∀ bind ∈ binds, drawn.countP (fun row => row.kind = bind.kind) ≤ bind.claimLimit) ∧
    ∀ registry maxWorkers e, (engine registry maxWorkers).Reachable e →
      Within registry maxWorkers e :=
  ⟨picked_selection hids hkinds, fun _ hdrawn => ⟨hdrawn.length, fun _ => hdrawn.kind_le hids hkinds⟩,
    fun _ _ _ h => (reachable_inv h).within⟩

def dueRows : List Row :=
  [(⟨1, "mail", "null", none, 5, none, none⟩ : NewJob).row 0,
    (⟨2, "mail", "null", none, 3, none, none⟩ : NewJob).row 0]

theorem claim_selects_due :
    (2 ∈ picked dueRows (fun _ => false) [⟨"mail", ⟨5, 1000000, some 1⟩, 1⟩] 4 9 ↔
    2 ∈ selection dueRows (fun _ => false) [⟨"mail", ⟨5, 1000000, some 1⟩, 1⟩] 4 9) ∧
    ∀ registry maxWorkers e, (engine registry maxWorkers).Reachable e →
      Within registry maxWorkers e :=
  have hids : (dueRows.map Row.id).Nodup := by decide
  have hkinds : ([⟨"mail", ⟨5, 1000000, some 1⟩, 1⟩].map PolicyBind.kind).Nodup := by decide
  have h := claim_selects hids hkinds (fun _ => false) 4 9
  ⟨h.1 2, h.2.2⟩

end JobsCapacity
