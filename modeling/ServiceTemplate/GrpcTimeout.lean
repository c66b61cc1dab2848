import Mathlib.Data.List.Basic
import Mathlib.Data.Nat.Basic
import Mathlib.Tactic.NormNum
import ServiceTemplate.ByteFraming

/-! The `grpc-timeout` header: at most eight decimal digits and a unit. The parser accepts that
grammar and nothing else, and a floor written in the finest unit that fits is read back short by
less than one step. -/
namespace GrpcTimeout

open ByteFraming (Bytes)

inductive TimeUnit where
  | hours
  | minutes
  | seconds
  | millis
  | micros
  | nanos
  deriving DecidableEq, Repr

def TimeUnit.letter : TimeUnit → UInt8
  | .hours => 72
  | .minutes => 77
  | .seconds => 83
  | .millis => 109
  | .micros => 117
  | .nanos => 110

def secondNanos : ℕ := 1000000000

/-- One step in nanoseconds. -/
def TimeUnit.step : TimeUnit → ℕ
  | .hours => 60 * 60 * secondNanos
  | .minutes => 60 * secondNanos
  | .seconds => secondNanos
  | .millis => 1000000
  | .micros => 1000
  | .nanos => 1

def isAsciiDigit (byte : UInt8) : Bool := 48 ≤ byte.toNat && byte.toNat ≤ 57

def readDigit (value : ℕ) (byte : UInt8) : ℕ := value * 10 + (byte.toNat - 48)

def readDecimal (digits : Bytes) : ℕ := digits.foldl readDigit 0

def writeDecimal (value : ℕ) : Bytes := (Nat.toDigits 10 value).map fun c => UInt8.ofNat c.toNat

def u64Max : ℕ := 2 ^ 64 - 1

def parseU64 (digits : Bytes) : Option ℕ :=
  if digits = [] then none
  else digits.foldlM (fun value byte =>
    if readDigit value byte ≤ u64Max then some (readDigit value byte) else none) 0

theorem read_digit_lt {value bound : ℕ} {byte : UInt8} (hvalue : value < bound)
    (hbyte : isAsciiDigit byte = true) : readDigit value byte < bound * 10 := by
  simp only [isAsciiDigit, Bool.and_eq_true, decide_eq_true_eq] at hbyte
  unfold readDigit
  omega

theorem le_read_digits (digits : Bytes) (value : ℕ) : value ≤ digits.foldl readDigit value := by
  induction digits generalizing value with
  | nil => exact Nat.le_refl _
  | cons byte rest ih =>
    have hdigit : value ≤ readDigit value byte := by
      unfold readDigit
      omega
    exact Nat.le_trans hdigit (ih _)

theorem read_digits_lt {digits : Bytes} (h : digits.all isAsciiDigit = true) {value bound : ℕ}
    (hvalue : value < bound) : digits.foldl readDigit value < bound * 10 ^ digits.length := by
  induction digits generalizing value bound with
  | nil => simpa using hvalue
  | cons byte rest ih =>
    rw [List.all_cons, Bool.and_eq_true] at h
    have hlt := ih h.2 (read_digit_lt hvalue h.1)
    rw [List.foldl_cons, List.length_cons, Nat.pow_succ']
    rw [Nat.mul_assoc] at hlt
    exact hlt

/-- Each digit is checked, but only the last check can be the one that fails. -/
theorem fold_checked {digits : Bytes} {value : ℕ}
    (h : digits.foldl readDigit value ≤ u64Max) :
    digits.foldlM (fun value byte =>
      if readDigit value byte ≤ u64Max then some (readDigit value byte) else none) value =
      some (digits.foldl readDigit value) := by
  induction digits generalizing value with
  | nil => rfl
  | cons byte rest ih =>
    have hfirst := Nat.le_trans (le_read_digits rest (readDigit value byte)) h
    rw [List.foldlM_cons, if_pos hfirst]
    exact ih h

theorem read_decimal_lt {digits : Bytes} (h : digits.all isAsciiDigit = true) :
    readDecimal digits < 10 ^ digits.length := by
  have hlt := read_digits_lt h (show 0 < 1 by decide)
  rwa [Nat.one_mul] at hlt

theorem parse_u64_short {digits : Bytes} (hdigits : digits.all isAsciiDigit = true)
    (hne : digits ≠ []) (hlength : digits.length ≤ 8) :
    parseU64 digits = some (readDecimal digits) := by
  have hlt : readDecimal digits < 10 ^ 8 :=
    Nat.lt_of_lt_of_le (read_decimal_lt hdigits) (Nat.pow_le_pow_right (by decide) hlength)
  rw [parseU64, if_neg hne]
  exact fold_checked (Nat.le_trans (Nat.le_of_lt hlt) (by decide))

theorem read_char {c : Char} (h : c.isDigit = true) (value : ℕ) :
    readDigit value (UInt8.ofNat c.toNat) = 10 * value + (c.toNat - '0'.toNat) ∧
      isAsciiDigit (UInt8.ofNat c.toNat) = true := by
  rw [Char.isDigit_iff_toNat] at h
  change 48 ≤ c.toNat ∧ c.toNat ≤ 57 at h
  have hbyte : (UInt8.ofNat c.toNat).toNat = c.toNat := by
    rw [UInt8.toNat_ofNat']
    exact Nat.mod_eq_of_lt (by omega)
  have hzero : '0'.toNat = 48 := rfl
  simp only [readDigit, isAsciiDigit, hbyte, hzero, Bool.and_eq_true, decide_eq_true_eq]
  omega

theorem to_digits_digit {value : ℕ} {c : Char} (h : c ∈ Nat.toDigits 10 value) :
    c.isDigit = true := Nat.isDigit_of_mem_toDigits (by decide) (by decide) h

theorem write_decimal_digits (value : ℕ) : (writeDecimal value).all isAsciiDigit = true := by
  simp only [writeDecimal, List.all_map, List.all_eq_true, Function.comp]
  intro c hc
  exact (read_char (to_digits_digit hc) 0).2

theorem read_write_decimal (value : ℕ) : readDecimal (writeDecimal value) = value := by
  have hfold : ∀ (text : List Char), (∀ c ∈ text, c.isDigit = true) → ∀ start,
      (text.map fun c => UInt8.ofNat c.toNat).foldl readDigit start =
        Nat.ofDigitChars 10 text start := by
    intro text
    induction text with
    | nil => exact fun _ _ => rfl
    | cons c rest ih =>
      intro htext start
      rw [List.map_cons, List.foldl_cons, (read_char (htext c List.mem_cons_self) start).1,
        Nat.ofDigitChars_cons]
      exact ih (fun d hd => htext d (List.mem_cons_of_mem c hd)) _
  rw [readDecimal, writeDecimal, hfold _ (fun c hc => to_digits_digit hc),
    Nat.ofDigitChars_ten_toDigits]

theorem write_decimal_ne_nil (value : ℕ) : writeDecimal value ≠ [] := by
  rw [writeDecimal, ne_eq, List.map_eq_nil_iff]
  exact Nat.toDigits_ne_nil

theorem write_decimal_length {value : ℕ} (h : value < 10 ^ 8) :
    (writeDecimal value).length ≤ 8 := by
  rw [writeDecimal, List.length_map]
  exact (Nat.length_toDigits_le_iff (by decide) (by decide)).mpr h

def checkedMul (amount factor : ℕ) : Option ℕ :=
  if amount * factor ≤ u64Max then some (amount * factor) else none

def parseGrpcTimeout (value : Bytes) : Option ℕ :=
  if value = [] ∨ value.length > 9 then none
  else
    match value.getLast? with
    | none => none
    | some unit =>
      let digits := value.dropLast
      if digits.all isAsciiDigit = false then none
      else
        match parseU64 digits with
        | none => none
        | some amount =>
          match Char.ofNat unit.toNat with
          | 'H' => (checkedMul amount (60 * 60)).map (· * secondNanos)
          | 'M' => (checkedMul amount 60).map (· * secondNanos)
          | 'S' => some (amount * secondNanos)
          | 'm' => some (amount * 1000000)
          | 'u' => some (amount * 1000)
          | 'n' => some amount
          | _ => none

def Written (value : Bytes) (unit : TimeUnit) (duration : ℕ) : Prop :=
  ∃ digits, value = digits ++ [unit.letter] ∧ digits ≠ [] ∧ digits.length ≤ 8 ∧
    digits.all isAsciiDigit = true ∧ duration = readDecimal digits * unit.step

theorem checked_mul_short {amount factor : ℕ} (h : amount < 10 ^ 8) (hfactor : factor ≤ 3600) :
    checkedMul amount factor = some (amount * factor) := by
  have hmul : amount * factor ≤ 10 ^ 8 * 3600 := Nat.mul_le_mul (Nat.le_of_lt h) hfactor
  rw [checkedMul, if_pos (Nat.le_trans hmul (by decide))]

theorem parse_written {value : Bytes} {unit : TimeUnit} {duration : ℕ}
    (h : Written value unit duration) : parseGrpcTimeout value = some duration := by
  obtain ⟨digits, rfl, hne, hlength, hdigits, rfl⟩ := h
  have hlt : readDecimal digits < 10 ^ 8 :=
    Nat.lt_of_lt_of_le (read_decimal_lt hdigits) (Nat.pow_le_pow_right (by decide) hlength)
  have hsize : ¬ (digits ++ [unit.letter] = [] ∨ (digits ++ [unit.letter]).length > 9) := by
    rw [List.length_append, List.length_singleton]
    simp only [List.append_eq_nil_iff, List.cons_ne_nil, and_false, false_or]
    omega
  have hhour := checked_mul_short hlt (show 60 * 60 ≤ 3600 by decide)
  have hminute := checked_mul_short hlt (show 60 ≤ 3600 by decide)
  rw [parseGrpcTimeout, if_neg hsize, List.getLast?_concat]
  simp only [List.dropLast_concat, hdigits, Bool.true_eq_false, if_false,
    parse_u64_short hdigits hne hlength]
  cases unit with
  | hours =>
    change (checkedMul (readDecimal digits) (60 * 60)).map (· * secondNanos) = _
    rw [hhour, Option.map_some, Nat.mul_assoc]
    rfl
  | minutes =>
    change (checkedMul (readDecimal digits) 60).map (· * secondNanos) = _
    rw [hminute, Option.map_some, Nat.mul_assoc]
    rfl
  | seconds => rfl
  | millis => rfl
  | micros => rfl
  | nanos => exact congrArg some (Nat.mul_one _).symm

theorem letter_of_char {letter : UInt8} {c : Char} (h : Char.ofNat letter.toNat = c) :
    letter = UInt8.ofNat c.toNat := by
  subst h
  have hvalid : letter.toNat.isValidChar := Or.inl (Nat.lt_trans letter.toNat_lt (by decide))
  have hchar : (Char.ofNat letter.toNat).toNat = letter.toNat := by
    rw [Char.ofNat, dif_pos hvalid]
    rfl
  rw [hchar, UInt8.ofNat_toNat]

theorem parse_iff (value : Bytes) (duration : ℕ) :
    parseGrpcTimeout value = some duration ↔ ∃ unit, Written value unit duration := by
  constructor
  · intro h
    have hparse := h
    unfold parseGrpcTimeout at h
    split at h
    · cases h
    · next hsize =>
      rw [not_or] at hsize
      split at h
      · cases h
      · next letter hlast =>
        have hvalue := List.dropLast_append_getLast? letter hlast
        dsimp only at h
        split at h
        · cases h
        · next hdigits =>
          rw [Bool.not_eq_false] at hdigits
          have hlength : value.dropLast.length ≤ 8 := by
            rw [List.length_dropLast]
            omega
          split at h
          · cases h
          · next amount hamount =>
            have hne : value.dropLast ≠ [] := by
              intro hnil
              rw [hnil] at hamount
              cases hamount
            -- Whatever letter was accepted, the parser's answer is the grammar's.
            have hunit : ∃ unit : TimeUnit, letter = unit.letter := by
              split at h
              · next hc => exact ⟨.hours, letter_of_char hc⟩
              · next hc => exact ⟨.minutes, letter_of_char hc⟩
              · next hc => exact ⟨.seconds, letter_of_char hc⟩
              · next hc => exact ⟨.millis, letter_of_char hc⟩
              · next hc => exact ⟨.micros, letter_of_char hc⟩
              · next hc => exact ⟨.nanos, letter_of_char hc⟩
              · cases h
            obtain ⟨unit, rfl⟩ := hunit
            have hwritten : Written value unit (readDecimal value.dropLast * unit.step) :=
              ⟨value.dropLast, hvalue.symm, hne, hlength, hdigits, rfl⟩
            rw [parse_written hwritten, Option.some.injEq] at hparse
            exact ⟨unit, hparse ▸ hwritten⟩
  · rintro ⟨unit, hwritten⟩
    exact parse_written hwritten

def mostDigits : ℕ := 99999999

def TimeUnit.Fits (unit : TimeUnit) (duration : ℕ) : Prop := duration / unit.step ≤ mostDigits

instance (unit : TimeUnit) (duration : ℕ) : Decidable (unit.Fits duration) :=
  inferInstanceAs (Decidable (_ ≤ _))

def encode (unit : TimeUnit) (duration : ℕ) : Bytes :=
  writeDecimal (duration / unit.step) ++ [unit.letter]

/-- `Request::set_timeout`, where `none` is a panic: the floor in the finest unit that needs no
more than eight digits, and no way to write what needs more. -/
structure WritesFloor (setTimeout : ℕ → Option Bytes) : Prop where
  writes : ∀ (unit : TimeUnit) (duration : ℕ), unit.Fits duration →
    (∀ finer : TimeUnit, finer.step < unit.step → ¬ finer.Fits duration) →
    setTimeout duration = some (encode unit duration)
  panics : ∀ duration, (∀ unit : TimeUnit, ¬ unit.Fits duration) → setTimeout duration = none

def finestFirst : List TimeUnit := [.nanos, .micros, .millis, .seconds, .minutes, .hours]

def durationToGrpcTimeout (duration : ℕ) : Option Bytes :=
  (finestFirst.find? fun unit => decide (unit.Fits duration)).map fun unit => encode unit duration

def longest : ℕ := (mostDigits + 1) * TimeUnit.hours.step

theorem fits_mono {unit coarser : TimeUnit} {duration : ℕ} (h : unit.Fits duration)
    (hstep : unit.step ≤ coarser.step) : coarser.Fits duration := by
  have hpos : 0 < unit.step := by cases unit <;> decide
  exact Nat.le_trans (Nat.div_le_div_left hstep hpos) h

theorem step_le_hours (unit : TimeUnit) : unit.step ≤ TimeUnit.hours.step := by
  cases unit <;> decide

theorem fits_hours_iff (duration : ℕ) : TimeUnit.hours.Fits duration ↔ duration < longest := by
  rw [TimeUnit.Fits, longest, ← Nat.lt_succ_iff, Nat.div_lt_iff_lt_mul (by decide)]

theorem finest_exists {duration : ℕ} (h : duration < longest) :
    ∃ unit : TimeUnit, unit.Fits duration ∧
      ∀ finer : TimeUnit, finer.step < unit.step → ¬ finer.Fits duration := by
  have hhours := (fits_hours_iff duration).mpr h
  obtain ⟨unit, hfits, hleast⟩ := (measure TimeUnit.step).wf.has_min
    (fun unit : TimeUnit => unit.Fits duration) ⟨.hours, hhours⟩
  exact ⟨unit, hfits, fun finer hfiner hfinerFits => hleast finer hfinerFits hfiner⟩

/-- The two properties are those of the first unit of the list that fits. -/
theorem duration_writes_floor : WritesFloor durationToGrpcTimeout where
  writes unit duration hfits hfiner := by
    have hno : ∀ finer : TimeUnit, finer.step < unit.step → decide (finer.Fits duration) = false :=
      fun finer hlt => decide_eq_false (hfiner finer hlt)
    have hyes : decide (unit.Fits duration) = true := decide_eq_true hfits
    cases unit with
    | nanos => simp [durationToGrpcTimeout, finestFirst, hyes]
    | micros => simp [durationToGrpcTimeout, finestFirst, List.find?, hyes, hno .nanos (by decide)]
    | millis =>
      simp [durationToGrpcTimeout, finestFirst, List.find?, hyes, hno .nanos (by decide),
        hno .micros (by decide)]
    | seconds =>
      simp [durationToGrpcTimeout, finestFirst, List.find?, hyes, hno .nanos (by decide),
        hno .micros (by decide), hno .millis (by decide)]
    | minutes =>
      simp [durationToGrpcTimeout, finestFirst, List.find?, hyes, hno .nanos (by decide),
        hno .micros (by decide), hno .millis (by decide), hno .seconds (by decide)]
    | hours =>
      simp [durationToGrpcTimeout, finestFirst, List.find?, hyes, hno .nanos (by decide),
        hno .micros (by decide), hno .millis (by decide), hno .seconds (by decide),
        hno .minutes (by decide)]
  panics duration hnone := by
    rw [durationToGrpcTimeout, List.find?_eq_none.mpr, Option.map_none]
    intro unit _
    rw [decide_eq_true_eq]
    exact hnone unit

section Written

variable {setTimeout : ℕ → Option Bytes} (hset : WritesFloor setTimeout)
include hset

theorem WritesFloor.none_iff (duration : ℕ) : setTimeout duration = none ↔ longest ≤ duration := by
  constructor
  · intro hnone
    rw [← Nat.not_lt]
    intro hlt
    obtain ⟨unit, hfits, hfiner⟩ := finest_exists hlt
    rw [hset.writes unit duration hfits hfiner] at hnone
    cases hnone
  · intro hle
    refine hset.panics duration fun unit hfits => ?_
    have hhours := (fits_hours_iff duration).mp (fits_mono hfits (step_le_hours unit))
    exact absurd hhours (Nat.not_lt.mpr hle)

/-- What is written stands for the floor in its own unit. -/
theorem WritesFloor.read_back {duration : ℕ} {value : Bytes}
    (h : setTimeout duration = some value) :
    ∃ unit d, Written value unit d ∧ d ≤ duration ∧ duration - d < unit.step := by
  have hlt : duration < longest := by
    rw [← Nat.not_le, ← hset.none_iff, h]
    nofun
  obtain ⟨unit, hfits, hfiner⟩ := finest_exists hlt
  rw [hset.writes unit duration hfits hfiner, Option.some.injEq] at h
  subst h
  have hpos : 0 < unit.step := by cases unit <;> decide
  have hdigits : duration / unit.step < 10 ^ 8 := Nat.lt_of_le_of_lt hfits (by decide)
  refine ⟨unit, duration / unit.step * unit.step, ?_, Nat.div_mul_le_self _ _, ?_⟩
  · exact ⟨_, rfl, write_decimal_ne_nil _, write_decimal_length hdigits,
      write_decimal_digits _, by rw [read_write_decimal]⟩
  · have hmod := Nat.mod_lt duration hpos
    have hsplit := Nat.div_add_mod duration unit.step
    rw [Nat.mul_comm] at hsplit
    omega

end Written

end GrpcTimeout
