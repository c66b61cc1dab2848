import ServiceTemplate.ByteFraming

/-! An upload body held to its declared length. The frame that completes the length is kept back
until the inner body confirms that it has nothing more, so a sender that stops polling at the
declared length has sent the whole body. -/
namespace ExactLength

open ByteFraming

variable {τ ε : Type*}

inductive Frame (τ : Type*) where
  | data (bytes : Bytes)
  | trailers (trailers : τ)
  deriving DecidableEq

inductive Polled (τ ε : Type*) where
  | pending
  | frame (frame : Frame τ)
  | error (error : ε)
  | ended
  deriving DecidableEq

inductive BoxError (ε : Type*) where
  | inner (error : ε)
  | lengthMismatch
  deriving DecidableEq

/-- `inner` is a place in the answers of the inner body. -/
structure Body (τ : Type*) where
  inner : ℕ
  remaining : ℕ
  held : Option Bytes
  trailers : Option τ
  ended : Bool
  mismatch : Bool
  deriving DecidableEq

abbrev Answer (τ ε : Type*) := Polled τ (BoxError ε)

def new (len : ℕ) : Body τ := ⟨0, len, none, none, false, false⟩

namespace Body

def refuse (body : Body τ) : Body τ × Option (Answer τ ε) :=
  ({ body with mismatch := true, ended := true, held := none }, some (.error .lengthMismatch))

/-- `woken` says that the task was woken. -/
structure Step (τ ε : Type*) where
  body : Body τ
  answer : Answer τ ε
  woken : Bool

def finish (body : Body τ) : Step τ ε :=
  match body.held with
  | some bytes => ⟨{ body with held := none }, .frame (.data bytes), false⟩
  | none =>
    match body.trailers with
    | some trailers => ⟨{ body with trailers := none }, .frame (.trailers trailers), false⟩
    | none => ⟨body, .ended, false⟩

/-- One turn of the loop: what an answer of the inner body does, and what the caller gets if the
turn is the last. -/
def accept (body : Body τ) : Polled τ ε → Body τ × Option (Answer τ ε)
  | .pending => (body, some .pending)
  | .frame (.trailers trailers) =>
    if body.remaining ≠ 0 then body.refuse
    else if body.held.isSome then ({ body with ended := true, trailers := some trailers }, none)
    else ({ body with ended := true }, some (.frame (.trailers trailers)))
  | .frame (.data bytes) =>
    if bytes.length = 0 then (body, none)
    else if body.held.isSome then body.refuse
    else if body.remaining < bytes.length then body.refuse
    else if body.remaining - bytes.length = 0 then
      ({ body with remaining := 0, held := some bytes }, none)
    else ({ body with remaining := body.remaining - bytes.length },
      some (.frame (.data bytes)))
  | .error error => (body, some (.error (.inner error)))
  | .ended => if body.remaining ≠ 0 then body.refuse else ({ body with ended := true }, none)

def pollLoop (inner : ℕ → Polled τ ε) (body : Body τ) (pollsRemaining : ℕ) : Step τ ε :=
  if body.ended then body.finish
  else
    match pollsRemaining with
    | 0 => ⟨body, .pending, true⟩
    | pollsRemaining + 1 =>
      match { body with inner := body.inner + 1 }.accept (inner body.inner) with
      | (body, some answer) => ⟨body, answer, false⟩
      | (body, none) => pollLoop inner body pollsRemaining

def pollFrame (inner : ℕ → Polled τ ε) (body : Body τ) : Step τ ε := body.pollLoop inner 64

def sizeHint (body : Body τ) : ℕ := body.remaining + (body.held.getD []).length

end Body

structure Run (τ ε : Type*) where
  body : Body τ
  answers : List (Answer τ ε)

def Run.poll (inner : ℕ → Polled τ ε) (run : Run τ ε) : Run τ ε :=
  ⟨(run.body.pollFrame inner).body, run.answers ++ [(run.body.pollFrame inner).answer]⟩

def polls (inner : ℕ → Polled τ ε) (len : ℕ) : ℕ → Run τ ε
  | 0 => ⟨new len, []⟩
  | k + 1 => (polls inner len k).poll inner

def Polled.bytes : Polled τ ε → Bytes
  | .frame (.data bytes) => bytes
  | _ => []

def Run.yielded (run : Run τ ε) : Bytes := run.answers.flatMap Polled.bytes

def Polled.ends : Polled τ ε → Bool
  | .ended | .frame (.trailers _) => true
  | _ => false

def Polled.isData : Polled τ ε → Bool
  | .frame (.data _) => true
  | _ => false

def Polled.isTrailers : Polled τ ε → Bool
  | .frame (.trailers _) => true
  | _ => false

def Polled.isError : Polled τ ε → Bool
  | .error _ => true
  | _ => false

def data (inner : ℕ → Polled τ ε) (count : ℕ) : Bytes :=
  (List.range count).flatMap fun i => (inner i).bytes

def Open (inner : ℕ → Polled τ ε) (q : ℕ) : Prop := ∀ r < q, (inner r).ends = false

structure WholeAt (inner : ℕ → Polled τ ε) (len q : ℕ) : Prop where
  started : Open inner q
  ends : (inner q).ends = true
  length : (data inner q).length = len

structure FaultAt (inner : ℕ → Polled τ ε) (len q : ℕ) : Prop where
  started : Open inner q
  fault : (inner q).ends = true ∧ (data inner q).length < len ∨
    len < (data inner (q + 1)).length

theorem data_succ (inner : ℕ → Polled τ ε) (count : ℕ) :
    data inner (count + 1) = data inner count ++ (inner count).bytes := by
  simp [data, List.range_succ]

theorem data_mono (inner : ℕ → Polled τ ε) {p q : ℕ} (h : p ≤ q) :
    data inner p <+: data inner q := by
  induction q, h using Nat.le_induction with
  | base => exact List.prefix_rfl
  | succ q _ ih =>
    rw [data_succ]
    exact ih.trans (List.prefix_append _ _)

theorem Polled.bytes_ends {polled : Polled τ ε} (h : polled.ends = true) : polled.bytes = [] := by
  cases polled with
  | frame frame =>
    cases frame with
    | data bytes => cases h
    | trailers _ => rfl
  | _ => rfl

theorem WholeAt.faultless {inner : ℕ → Polled τ ε} {len p q : ℕ} (h : WholeAt inner len p) :
    ¬ FaultAt inner len q := by
  intro hfault
  rcases Nat.lt_trichotomy p q with hlt | rfl | hlt
  · have hopen := hfault.started p hlt
    rw [h.ends] at hopen
    cases hopen
  · have hlength := h.length
    rcases hfault.fault with ⟨_, hshort⟩ | hover
    · omega
    · rw [data_succ, Polled.bytes_ends h.ends, List.append_nil] at hover
      omega
  · rcases hfault.fault with ⟨hends, _⟩ | hover
    · have hopen := h.started q hlt
      rw [hends] at hopen
      cases hopen
    · have hlength := (data_mono inner (show q + 1 ≤ p by omega)).length_le
      have := h.length
      omega

structure Flowing (inner : ℕ → Polled τ ε) (len : ℕ) (body : Body τ) (out : Bytes) : Prop where
  calm : body.mismatch = false
  split : data inner body.inner = out ++ body.held.getD []
  counted : body.remaining + (data inner body.inner).length = len
  held : ∀ bytes, body.held = some bytes → body.remaining = 0 ∧ bytes ≠ []
  running : body.ended = false → Open inner body.inner ∧ body.trailers = none
  unheld : body.ended = false → body.held = none → 0 < body.remaining ∨ len = 0
  spent : body.ended = true → ∃ q, body.inner = q + 1 ∧ WholeAt inner len q

structure Drained (body : Body τ) : Prop where
  ended : body.ended = true
  held : body.held = none
  trailers : body.trailers = none

structure Refused (inner : ℕ → Polled τ ε) (len : ℕ) (body : Body τ) (out : Bytes) : Prop where
  flagged : body.mismatch = true
  drained : Drained body
  fault : ∃ q, body.inner = q + 1 ∧ FaultAt inner len q
  sent : out <+: data inner body.inner
  short : out.length < len ∨ out = []

def Sound (inner : ℕ → Polled τ ε) (len : ℕ) (body : Body τ) (out : Bytes) : Prop :=
  Flowing inner len body out ∨ Refused inner len body out

theorem new_flowing (inner : ℕ → Polled τ ε) (len : ℕ) :
    Flowing inner len (new len : Body τ) [] where
  calm := rfl
  split := rfl
  counted := rfl
  held := by simp [new]
  running _ := ⟨fun r hr => absurd hr (Nat.not_lt_zero r), rfl⟩
  unheld _ _ := Nat.eq_zero_or_pos len |>.symm
  spent h := by cases h

section
variable {inner : ℕ → Polled τ ε} {len : ℕ} {body : Body τ} {out : Bytes}

theorem Sound.flowing (h : Sound inner len body out) (hcalm : body.mismatch = false) :
    Flowing inner len body out := by
  rcases h with h | h
  · exact h
  · rw [h.flagged] at hcalm
    cases hcalm

theorem Sound.refused (h : Sound inner len body out) (hflag : body.mismatch = true) :
    Refused inner len body out := by
  rcases h with h | h
  · rw [h.calm] at hflag
    cases hflag
  · exact h

theorem Flowing.short (h : Flowing inner len body out) (hended : body.ended = false) :
    out.length < len ∨ out = [] := by
  have hcounted := h.counted
  rw [h.split, List.length_append] at hcounted
  cases hheld : body.held with
  | none =>
    rcases h.unheld hended hheld with hpos | hzero
    · omega
    · exact .inr (List.eq_nil_of_length_eq_zero (by omega))
  | some bytes =>
    have hne := List.length_pos_iff.mpr (h.held bytes hheld).2
    rw [hheld, Option.getD_some] at hcounted
    omega

theorem Open.succ {q : ℕ} (h : Open inner q) (hq : (inner q).ends = false) :
    Open inner (q + 1) := by
  intro r hr
  rcases Nat.lt_succ_iff_lt_or_eq.mp hr with hlt | rfl
  · exact h r hlt
  · exact hq

/-- An answer without data that does not end the body leaves everything as it is. -/
theorem Flowing.skip (h : Flowing inner len body out) (hended : body.ended = false)
    (hbytes : (inner body.inner).bytes = []) (hends : (inner body.inner).ends = false) :
    Flowing inner len { body with inner := body.inner + 1 } out := by
  have hdata : data inner (body.inner + 1) = data inner body.inner := by
    rw [data_succ, hbytes, List.append_nil]
  obtain ⟨hopen, htrailers⟩ := h.running hended
  constructor
  · exact h.calm
  · exact hdata.trans h.split
  · change body.remaining + (data inner (body.inner + 1)).length = len
    rw [hdata]
    exact h.counted
  · exact h.held
  · intro _
    exact ⟨hopen.succ hends, htrailers⟩
  · exact h.unheld
  · intro hend
    rw [hended] at hend
    cases hend

theorem Flowing.close (h : Flowing inner len body out) (hended : body.ended = false)
    (hremaining : body.remaining = 0) (hends : (inner body.inner).ends = true)
    (trailers : Option τ) :
    Flowing inner len
      { body with inner := body.inner + 1, ended := true, trailers := trailers } out := by
  have hdata : data inner (body.inner + 1) = data inner body.inner := by
    rw [data_succ, Polled.bytes_ends hends, List.append_nil]
  have hcounted := h.counted
  constructor
  · exact h.calm
  · exact hdata.trans h.split
  · change body.remaining + (data inner (body.inner + 1)).length = len
    rw [hdata]
    exact hcounted
  · exact h.held
  · intro hend
    cases hend
  · intro hend
    cases hend
  · intro _
    exact ⟨body.inner, rfl, (h.running hended).1, hends, by omega⟩

theorem Flowing.refuse (h : Flowing inner len body out) (hended : body.ended = false)
    (hfault : (inner body.inner).ends = true ∧ body.remaining ≠ 0 ∨
      body.remaining < (inner body.inner).bytes.length) :
    Refused inner len
      { body with inner := body.inner + 1, mismatch := true, ended := true, held := none } out := by
  obtain ⟨hopen, htrailers⟩ := h.running hended
  have hcounted := h.counted
  constructor
  · rfl
  · exact ⟨rfl, rfl, htrailers⟩
  · refine ⟨body.inner, rfl, hopen, ?_⟩
    rcases hfault with ⟨hends, hremaining⟩ | hover
    · exact .inl ⟨hends, by omega⟩
    · refine .inr ?_
      rw [data_succ, List.length_append]
      omega
  · have hprefix : out <+: data inner body.inner := h.split ▸ List.prefix_append _ _
    exact hprefix.trans (data_mono inner (Nat.le_succ _))
  · exact h.short hended

theorem Flowing.hold (h : Flowing inner len body out) (hended : body.ended = false)
    (hheld : body.held = none) {bytes : Bytes} (hpolled : inner body.inner = .frame (.data bytes))
    (hbytes : bytes ≠ []) (hfits : body.remaining = bytes.length) :
    Flowing inner len
      { body with inner := body.inner + 1, remaining := 0, held := some bytes } out := by
  have hdata : data inner (body.inner + 1) = data inner body.inner ++ bytes := by
    rw [data_succ, hpolled]
    rfl
  have hsplit := h.split
  have hcounted := h.counted
  rw [hheld, Option.getD_none, List.append_nil] at hsplit
  obtain ⟨hopen, htrailers⟩ := h.running hended
  constructor
  · exact h.calm
  · change data inner (body.inner + 1) = out ++ bytes
    rw [hdata, hsplit]
  · change 0 + (data inner (body.inner + 1)).length = len
    rw [hdata, List.length_append]
    omega
  · intro other hother
    cases hother
    exact ⟨rfl, hbytes⟩
  · intro _
    exact ⟨hopen.succ (by rw [hpolled]; rfl), htrailers⟩
  · intro _ hnone
    cases hnone
  · intro hend
    rw [hended] at hend
    cases hend

theorem Flowing.pass (h : Flowing inner len body out) (hended : body.ended = false)
    (hheld : body.held = none) {bytes : Bytes} (hpolled : inner body.inner = .frame (.data bytes))
    (hfits : bytes.length < body.remaining) :
    Flowing inner len
      { body with inner := body.inner + 1, remaining := body.remaining - bytes.length }
      (out ++ bytes) := by
  have hdata : data inner (body.inner + 1) = data inner body.inner ++ bytes := by
    rw [data_succ, hpolled]
    rfl
  have hsplit := h.split
  have hcounted := h.counted
  rw [hheld, Option.getD_none, List.append_nil] at hsplit
  obtain ⟨hopen, htrailers⟩ := h.running hended
  constructor
  · exact h.calm
  · change data inner (body.inner + 1) = out ++ bytes ++ body.held.getD []
    rw [hdata, hsplit, hheld, Option.getD_none, List.append_nil]
  · change body.remaining - bytes.length + (data inner (body.inner + 1)).length = len
    rw [hdata, List.length_append]
    omega
  · intro other hother
    rw [hheld] at hother
    cases hother
  · intro _
    exact ⟨hopen.succ (by rw [hpolled]; rfl), htrailers⟩
  · intro _ _
    exact .inl (Nat.sub_pos_of_lt hfits)
  · intro hend
    rw [hended] at hend
    cases hend

def given : Option (Answer τ ε) → Bytes
  | some answer => answer.bytes
  | none => []

structure Turned (inner : ℕ → Polled τ ε) (len : ℕ) (body : Body τ) (out : Bytes)
    (turn : Body τ × Option (Answer τ ε)) : Prop where
  inner_eq : turn.1.inner = body.inner + 1
  sound : Sound inner len turn.1 (out ++ given turn.2)
  flagged : turn.1.mismatch = true → turn.2 = some (.error .lengthMismatch)
  pending : turn.2 = some .pending → inner body.inner = .pending
  error : ∀ error, inner body.inner = .error error → turn.2 = some (.error (.inner error))
  trailers : ∀ answer, turn.2 = some answer → answer.isTrailers = true → Drained turn.1

theorem Flowing.refuse_turned (h : Flowing inner len body out) (hended : body.ended = false)
    (hfault : (inner body.inner).ends = true ∧ body.remaining ≠ 0 ∨
      body.remaining < (inner body.inner).bytes.length) :
    Turned inner len body out { body with inner := body.inner + 1 }.refuse where
  inner_eq := rfl
  sound := .inr (by
    change Refused inner len _ (out ++ [])
    rw [List.append_nil]
    exact h.refuse hended hfault)
  flagged _ := rfl
  pending hpending := by cases hpending
  error error herror := by
    rw [herror] at hfault
    simp [Polled.ends, Polled.bytes] at hfault
  trailers answer hanswer htrailers := by
    cases hanswer
    cases htrailers

theorem turned_quiet {turn : Body τ × Option (Answer τ ε)} (hinner : turn.1.inner = body.inner + 1)
    (h : Flowing inner len turn.1 out) (hgiven : given turn.2 = [])
    (hpending : turn.2 = some .pending → inner body.inner = .pending)
    (herror : ∀ error, inner body.inner = .error error → turn.2 = some (.error (.inner error)))
    (htrailers : ∀ answer, turn.2 = some answer → answer.isTrailers = true → Drained turn.1) :
    Turned inner len body out turn where
  inner_eq := hinner
  sound := .inl (by rwa [hgiven, List.append_nil])
  flagged hflag := by
    rw [h.calm] at hflag
    cases hflag
  pending := hpending
  error := herror
  trailers := htrailers

theorem Flowing.accept_trailers (h : Flowing inner len body out) (hended : body.ended = false)
    {trailers : τ} (hpolled : inner body.inner = .frame (.trailers trailers)) :
    Turned inner len body out
      ({ body with inner := body.inner + 1 }.accept (inner body.inner)) := by
  have hends : (inner body.inner).ends = true := by
    rw [hpolled]
    rfl
  by_cases hremaining : body.remaining = 0
  · obtain ⟨_, htrailers⟩ := h.running hended
    have hclose := h.close hended hremaining hends
    by_cases hheld : body.held.isSome = true
    · apply turned_quiet <;> simp [hpolled, Body.accept, hremaining, hheld, given]
      simpa [hremaining] using hclose (some trailers)
    · rw [Bool.not_eq_true, Option.isSome_eq_false_iff, Option.isNone_iff_eq_none] at hheld
      apply turned_quiet <;>
        simp [hpolled, Body.accept, hremaining, hheld, given, Polled.bytes, Polled.isTrailers]
      · simpa [hremaining, hheld, htrailers] using hclose none
      · exact ⟨rfl, rfl, htrailers⟩
  · have hrefuse := h.refuse_turned hended (.inl ⟨hends, hremaining⟩)
    simpa [hpolled, Body.accept, hremaining] using hrefuse

theorem Flowing.accept_data (h : Flowing inner len body out) (hended : body.ended = false)
    {bytes : Bytes} (hpolled : inner body.inner = .frame (.data bytes)) :
    Turned inner len body out
      ({ body with inner := body.inner + 1 }.accept (inner body.inner)) := by
  by_cases hempty : bytes.length = 0
  · apply turned_quiet <;> simp [hpolled, Body.accept, hempty, given]
    apply h.skip hended
    · rw [hpolled]
      exact List.eq_nil_of_length_eq_zero hempty
    · rw [hpolled]
      rfl
  · have hbytes : bytes ≠ [] := fun hnil => hempty (by rw [hnil]; rfl)
    by_cases hover : body.remaining < bytes.length
    · have hrefuse := h.refuse_turned hended (.inr (by rw [hpolled]; exact hover))
      simpa [hpolled, Body.accept, hempty, hover] using hrefuse
    · cases hheld : body.held with
      | some other =>
        have hzero := (h.held other hheld).1
        omega
      | none =>
        by_cases hfits : body.remaining = bytes.length
        · have hsub : body.remaining - bytes.length = 0 := by omega
          apply turned_quiet <;> simp [hpolled, Body.accept, hempty, hover, hsub, given]
          simpa using h.hold hended hheld hpolled hbytes hfits
        · have hlt : bytes.length < body.remaining := by omega
          have hsub : body.remaining - bytes.length ≠ 0 := by omega
          have hpass := h.pass hended hheld hpolled hlt
          constructor <;>
            simp [hpolled, Body.accept, hempty, hover, hsub, given, Polled.isTrailers]
          · exact .inl (by simpa [hheld, Polled.bytes] using hpass)
          · simp [h.calm]

theorem Flowing.accept (h : Flowing inner len body out) (hended : body.ended = false) :
    Turned inner len body out
      ({ body with inner := body.inner + 1 }.accept (inner body.inner)) := by
  cases hpolled : inner body.inner with
  | pending =>
    apply turned_quiet <;> simp [hpolled, Body.accept, given, Polled.bytes, Polled.isTrailers]
    apply h.skip hended <;> (rw [hpolled]; rfl)
  | error error =>
    apply turned_quiet <;> simp [hpolled, Body.accept, given, Polled.bytes, Polled.isTrailers]
    apply h.skip hended <;> (rw [hpolled]; rfl)
  | ended =>
    have hends : (inner body.inner).ends = true := by
      rw [hpolled]
      rfl
    by_cases hremaining : body.remaining = 0
    · obtain ⟨_, htrailers⟩ := h.running hended
      apply turned_quiet <;> simp [hpolled, Body.accept, hremaining, given]
      simpa [hremaining, htrailers] using h.close hended hremaining hends none
    · have hrefuse := h.refuse_turned hended (.inl ⟨hends, hremaining⟩)
      simpa [hpolled, Body.accept, hremaining] using hrefuse
  | frame frame =>
    cases frame with
    | data bytes => exact hpolled ▸ h.accept_data hended hpolled
    | trailers trailers => exact hpolled ▸ h.accept_trailers hended hpolled

/-- What one poll comes to when it may ask the inner body `polls` times. -/
structure Answered (inner : ℕ → Polled τ ε) (len : ℕ) (body : Body τ) (out : Bytes) (polls : ℕ)
    (step : Body.Step τ ε) : Prop where
  sound : Sound inner len step.body (out ++ step.answer.bytes)
  flagged : body.mismatch = false → step.body.mismatch = true →
    step.answer = .error .lengthMismatch
  lower : body.inner ≤ step.body.inner
  upper : step.body.inner ≤ body.inner + polls
  progress : 0 < polls → step.body.ended = true ∨ body.inner < step.body.inner
  pending : step.answer = .pending →
    step.woken = true ∧ step.body.inner = body.inner + polls ∨
      step.woken = false ∧ ∃ p, step.body.inner = p + 1 ∧ inner p = .pending
  error : ∀ r error, body.inner ≤ r → r < step.body.inner → inner r = .error error →
    step.answer = .error (.inner error)
  trailers : step.answer.isTrailers = true → Drained step.body

theorem Flowing.finish (h : Flowing inner len body out) (hended : body.ended = true) (polls : ℕ) :
    Answered inner len body out polls body.finish := by
  obtain ⟨q, hinner, hwhole⟩ := h.spent hended
  have hcounted := h.counted
  have hsplit := h.split
  rcases body with ⟨place, remaining, held, trailers, ended, mismatch⟩
  cases hended
  cases h.calm
  have flowing : ∀ (rest : Option τ) (more : Bytes),
      data inner place = out ++ more → Flowing inner len ⟨place, remaining, none, rest, true, false⟩
        (out ++ more) := by
    intro rest more hmore
    constructor
    · rfl
    · exact hmore.trans (List.append_nil _).symm
    · exact hcounted
    · intro bytes hbytes
      cases hbytes
    · intro hend
      cases hend
    · intro hend
      cases hend
    · intro _
      exact ⟨q, hinner, hwhole⟩
  cases held with
  | some bytes =>
    constructor <;> simp [Body.finish, Polled.bytes, Polled.isTrailers]
    · exact .inl (flowing trailers bytes hsplit)
    · omega
  | none =>
    cases trailers with
    | some trailers =>
      constructor <;> simp [Body.finish, Polled.bytes, Polled.isTrailers]
      · exact .inl (by simpa using flowing none [] hsplit)
      · omega
      · exact ⟨rfl, rfl, rfl⟩
    | none =>
      constructor <;> simp [Body.finish, Polled.bytes, Polled.isTrailers]
      · exact .inl (by simpa using flowing none [] hsplit)
      · omega

theorem Drained.finish (h : Drained body) : (body.finish : Body.Step τ ε) = ⟨body, .ended, false⟩ := by
  simp [Body.finish, h.held, h.trailers]

theorem Refused.finish (h : Refused inner len body out) (polls : ℕ) :
    Answered inner len body out polls body.finish := by
  rw [h.drained.finish]
  constructor <;> simp [Polled.bytes, Polled.isTrailers, h.flagged, h.drained.ended]
  · exact .inr h
  · omega

theorem Sound.finish (h : Sound inner len body out) (hended : body.ended = true) (polls : ℕ) :
    Answered inner len body out polls body.finish := by
  rcases h with h | h
  · exact h.finish hended polls
  · exact h.finish polls

/-- The induction is on the polls of the inner body that are left. -/
theorem Sound.answer (h : Sound inner len body out) (polls : ℕ) :
    Answered inner len body out polls (body.pollLoop inner polls) := by
  induction polls generalizing body with
  | zero =>
    rw [Body.pollLoop]
    split
    · rename_i hended
      exact h.finish hended 0
    · constructor <;> simp [Polled.bytes, Polled.isTrailers]
      · exact h
      · omega
  | succ polls ih =>
    rw [Body.pollLoop]
    split
    · rename_i hended
      exact h.finish hended (polls + 1)
    · rename_i hended
      rw [Bool.not_eq_true] at hended
      have hflowing : Flowing inner len body out := by
        rcases h with h | h
        · exact h
        · rw [h.drained.ended] at hended
          cases hended
      have hturn := hflowing.accept hended
      generalize { body with inner := body.inner + 1 }.accept (inner body.inner) = turn at hturn
      obtain ⟨next, answer⟩ := turn
      have hinner : next.inner = body.inner + 1 := hturn.inner_eq
      cases answer with
      | some answer =>
        change Answered inner len body out (polls + 1) ⟨next, answer, false⟩
        constructor
        · exact hturn.sound
        · intro _ hflag
          exact Option.some.inj (hturn.flagged hflag)
        · change body.inner ≤ next.inner
          omega
        · change next.inner ≤ body.inner + (polls + 1)
          omega
        · intro _
          exact .inr (show body.inner < next.inner by omega)
        · intro hpending
          exact .inr ⟨rfl, body.inner, hinner, hturn.pending (congrArg some hpending)⟩
        · intro r error hlower hupper herror
          have hr : r = body.inner := by
            change r < next.inner at hupper
            omega
          subst hr
          exact Option.some.inj (hturn.error error herror)
        · intro htrailers
          exact hturn.trailers answer rfl htrailers
      | none =>
        have hcalm : next.mismatch = false := by
          by_contra hflag
          have hnone := hturn.flagged (by simpa using hflag)
          cases hnone
        have hsound : Sound inner len next out := by
          simpa [given] using hturn.sound
        have hrest := ih hsound
        have hlower := hrest.lower
        have hupper := hrest.upper
        change Answered inner len body out (polls + 1) (next.pollLoop inner polls)
        constructor
        · exact hrest.sound
        · intro _ hflag
          exact hrest.flagged hcalm hflag
        · omega
        · omega
        · intro _
          exact .inr (by omega)
        · intro hpending
          rcases hrest.pending hpending with ⟨hwoken, hall⟩ | hpend
          · exact .inl ⟨hwoken, by omega⟩
          · exact .inr hpend
        · intro r error hrlower hrupper herror
          by_cases hr : r = body.inner
          · subst hr
            have hanswer := hturn.error error herror
            cases hanswer
          · exact hrest.error r error (by omega) hrupper herror
        · exact hrest.trailers

theorem Drained.poll_frame (h : Drained body) : body.pollFrame inner = ⟨body, .ended, false⟩ := by
  rw [Body.pollFrame, Body.pollLoop, if_pos h.ended, h.finish]

theorem Sound.fault_refused (h : Sound inner len body out) {q : ℕ} (hfault : FaultAt inner len q)
    (hreach : q < body.inner ∨ body.ended = true) : Refused inner len body out := by
  rcases h with h | h
  · exfalso
    cases hended : body.ended with
    | true =>
      obtain ⟨p, _, hwhole⟩ := h.spent hended
      exact hwhole.faultless hfault
    | false =>
      have hq : q < body.inner := by simpa [hended] using hreach
      have hcounted := h.counted
      rcases hfault.fault with ⟨hends, _⟩ | hover
      · have hopen := (h.running hended).1 q hq
        rw [hends] at hopen
        cases hopen
      · have hlength := (data_mono inner (show q + 1 ≤ body.inner from hq)).length_le
        omega
  · exact h

theorem Sound.sent (h : Sound inner len body out) : out <+: data inner body.inner := by
  rcases h with h | h
  · exact h.split ▸ List.prefix_append _ _
  · exact h.sent

theorem Sound.complete (h : Sound inner len body out) (hlen : 0 < len) (hout : len ≤ out.length) :
    ∃ q < body.inner, WholeAt inner len q ∧ out = data inner q := by
  have hne : out ≠ [] := List.ne_nil_of_length_pos (by omega)
  rcases h with h | h
  · cases hended : body.ended with
    | false =>
      rcases h.short hended with hshort | hnil
      · omega
      · exact absurd hnil hne
    | true =>
      obtain ⟨q, hinner, hwhole⟩ := h.spent hended
      have hdata : data inner body.inner = data inner q := by
        rw [hinner, data_succ, Polled.bytes_ends hwhole.ends, List.append_nil]
      have hprefix : out <+: data inner q := hdata ▸ h.split ▸ List.prefix_append _ _
      refine ⟨q, by omega, hwhole, hprefix.eq_of_length_le ?_⟩
      rw [hwhole.length]
      exact hout
  · rcases h.short with hshort | hnil
    · omega
    · exact absurd hnil hne

theorem Flowing.size_hint (h : Flowing inner len body out) :
    body.sizeHint + out.length = len := by
  have hcounted := h.counted
  rw [h.split, List.length_append] at hcounted
  rw [Body.sizeHint]
  omega

end

structure RunInv (inner : ℕ → Polled τ ε) (len k : ℕ) (run : Run τ ε) : Prop where
  sound : Sound inner len run.body run.yielded
  flagged : run.body.mismatch = true → .error .lengthMismatch ∈ run.answers
  error : ∀ r < run.body.inner, ∀ error, inner r = .error error →
    .error (.inner error) ∈ run.answers
  trailers : (∃ answer ∈ run.answers, answer.isTrailers = true) →
    Drained run.body ∧ run.body.mismatch = false
  order : run.answers.Pairwise fun a b => a.isTrailers = true → b.isData = false
  moved : run.body.ended = true ∨ k ≤ run.body.inner

section
variable {inner : ℕ → Polled τ ε} {len k : ℕ} {run : Run τ ε}

theorem Run.poll_yielded (run : Run τ ε) :
    (run.poll inner).yielded = run.yielded ++ (run.body.pollFrame inner).answer.bytes := by
  simp [Run.poll, Run.yielded]

theorem finish_ended (body : Body τ) :
    (body.finish : Body.Step τ ε).body.ended = body.ended := by
  rcases body with ⟨inner, remaining, held, trailers, ended, mismatch⟩
  cases held <;> cases trailers <;> rfl

theorem RunInv.after_trailers (h : RunInv inner len k run)
    (htrailers : ∃ answer ∈ run.answers, answer.isTrailers = true) :
    run.body.pollFrame inner = ⟨run.body, .ended, false⟩ :=
  (h.trailers htrailers).1.poll_frame

theorem RunInv.poll (h : RunInv inner len k run) : RunInv inner len (k + 1) (run.poll inner) := by
  have hanswered := h.sound.answer 64
  change Answered inner len run.body run.yielded 64 (run.body.pollFrame inner) at hanswered
  have hmem : ∀ answer, answer ∈ (run.poll inner).answers ↔
      answer ∈ run.answers ∨ answer = (run.body.pollFrame inner).answer := by
    simp [Run.poll]
  constructor
  · rw [Run.poll_yielded]
    exact hanswered.sound
  · intro hflag
    rw [hmem]
    cases hbefore : run.body.mismatch with
    | true => exact .inl (h.flagged hbefore)
    | false => exact .inr (hanswered.flagged hbefore hflag).symm
  · intro r hr error herror
    rw [hmem]
    by_cases hbefore : r < run.body.inner
    · exact .inl (h.error r hbefore error herror)
    · exact .inr (hanswered.error r error (by omega) hr herror).symm
  · rintro ⟨answer, hanswer, htrailers⟩
    rcases (hmem answer).mp hanswer with hold | hnew
    · have hafter := h.after_trailers ⟨answer, hold, htrailers⟩
      have hkept : (run.poll inner).body = run.body := by
        rw [Run.poll, hafter]
      rw [hkept]
      exact h.trailers ⟨answer, hold, htrailers⟩
    · subst hnew
      refine ⟨hanswered.trailers htrailers, ?_⟩
      by_contra hflag
      rw [Bool.not_eq_false] at hflag
      cases hbefore : run.body.mismatch with
      | true =>
        rw [(h.sound.refused hbefore).drained.poll_frame] at htrailers
        cases htrailers
      | false =>
        rw [hanswered.flagged hbefore hflag] at htrailers
        cases htrailers
  · refine List.pairwise_append.mpr ⟨h.order, List.pairwise_singleton _ _, ?_⟩
    intro a ha b hb htrailers
    rw [List.mem_singleton.mp hb, h.after_trailers ⟨a, ha, htrailers⟩]
    rfl
  · cases hended : run.body.ended with
    | true =>
      refine .inl ?_
      change (run.body.pollLoop inner 64).body.ended = true
      rw [Body.pollLoop, if_pos hended, finish_ended, hended]
    | false =>
      have hplace : k ≤ run.body.inner := by simpa [hended] using h.moved
      rcases hanswered.progress (by decide) with hend | hmore
      · exact .inl hend
      · exact .inr (Nat.lt_of_le_of_lt hplace hmore)

end

theorem polls_inv (inner : ℕ → Polled τ ε) (len k : ℕ) :
    RunInv inner len k (polls inner len k) := by
  induction k with
  | zero =>
    constructor
    · exact .inl (new_flowing inner len)
    · intro hflag
      cases hflag
    · intro r hr
      cases hr
    · rintro ⟨answer, hanswer, _⟩
      cases hanswer
    · exact .nil
    · exact .inr (Nat.zero_le _)
  | succ k ih => exact ih.poll

theorem polls_refused {inner : ℕ → Polled τ ε} {len k q : ℕ} (hfault : FaultAt inner len q)
    (hreach : q < (polls inner len k).body.inner ∨ q < k) :
    Refused inner len (polls inner len k).body (polls inner len k).yielded := by
  have h := polls_inv inner len k
  apply h.sound.fault_refused hfault
  rcases h.moved with hended | hplace
  · exact .inr hended
  · rcases hreach with hreach | hreach
    · exact .inl hreach
    · exact .inl (by omega)

theorem mismatch_iff (inner : ℕ → Polled τ ε) (len k : ℕ) :
    (polls inner len k).body.mismatch = true ↔
      ∃ q < (polls inner len k).body.inner, FaultAt inner len q := by
  constructor
  · intro hflag
    obtain ⟨q, hinner, hfault⟩ := ((polls_inv inner len k).sound.refused hflag).fault
    exact ⟨q, by omega, hfault⟩
  · rintro ⟨q, hq, hfault⟩
    exact (polls_refused hfault (.inl hq)).flagged

def ErrorFree (inner : ℕ → Polled τ ε) (q : ℕ) : Prop := ∀ r < q, (inner r).isError = false

/-- Where an inner error came before the fault, the sender has seen it and polled on. -/
theorem RunInv.flag_origin {inner : ℕ → Polled τ ε} {len k : ℕ} {run : Run τ ε}
    (h : RunInv inner len k run) (hflag : run.body.mismatch = true) :
    (∃ q < run.body.inner, FaultAt inner len q ∧ ErrorFree inner q) ∨
      ∃ error, .error (.inner error) ∈ run.answers := by
  obtain ⟨q, hinner, hfault⟩ := (h.sound.refused hflag).fault
  by_cases hfree : ErrorFree inner q
  · exact .inl ⟨q, by omega, hfault, hfree⟩
  · simp only [ErrorFree, not_forall, Bool.not_eq_false] at hfree
    obtain ⟨r, hr, herror⟩ := hfree
    cases hpolled : inner r with
    | error error => exact .inr ⟨error, h.error r (by omega) error hpolled⟩
    | _ =>
      rw [hpolled] at herror
      cases herror

/-- The flag is set for faults before an inner error only. -/
def FlagBeforeErrors (inner : ℕ → Polled τ ε) (len k : ℕ) : Prop :=
  (polls inner len k).body.mismatch = true →
    ∃ q < (polls inner len k).body.inner, FaultAt inner len q ∧ ErrorFree inner q

/-- A sender that polls on after an error of the inner body meets its short end. -/
theorem flag_after_error :
    ¬ ∀ (inner : ℕ → Polled Unit Unit) (len k : ℕ), FlagBeforeErrors inner len k := by
  intro h
  obtain ⟨q, _, hfault, hfree⟩ := h (fun i => if i = 0 then .error () else .ended) 4 2 rfl
  cases q with
  | zero =>
    rcases hfault.fault with ⟨hends, _⟩ | hover
    · cases hends
    · exact absurd hover (by decide)
  | succ q =>
    have hzero := hfree 0 (Nat.succ_pos q)
    cases hzero

theorem RunInv.all_data {inner : ℕ → Polled τ ε} {len k : ℕ} {run : Run τ ε}
    (h : RunInv inner len k run) (htrailers : ∃ answer ∈ run.answers, answer.isTrailers = true) :
    run.yielded = data inner run.body.inner ∧ run.yielded.length = len := by
  obtain ⟨hdrained, hcalm⟩ := h.trailers htrailers
  have hflowing := h.sound.flowing hcalm
  have hsplit := hflowing.split
  rw [hdrained.held, Option.getD_none, List.append_nil] at hsplit
  obtain ⟨q, hinner, hwhole⟩ := hflowing.spent hdrained.ended
  refine ⟨hsplit.symm, ?_⟩
  rw [← hsplit, hinner, data_succ, Polled.bytes_ends hwhole.ends, List.append_nil]
  exact hwhole.length

/-- A body with a fault is never completed, however often it is polled. -/
theorem never_completed {inner : ℕ → Polled τ ε} {len q : ℕ} (hfault : FaultAt inner len q)
    (k : ℕ) : (polls inner len k).yielded.length < len ∨ (polls inner len k).yielded = [] := by
  have hsound := (polls_inv inner len k).sound
  by_cases hout : (polls inner len k).yielded.length < len
  · exact .inl hout
  · rcases Nat.eq_zero_or_pos len with hzero | hpos
    · refine .inr ?_
      rcases hsound with h | h
      · have hhint := h.size_hint
        exact List.eq_nil_of_length_eq_zero (by omega)
      · exact h.short.resolve_left hout
    · obtain ⟨p, _, hwhole, _⟩ := hsound.complete hpos (by omega)
      exact absurd hfault hwhole.faultless

end ExactLength
