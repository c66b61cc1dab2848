import ServiceTemplate.LogCapture
import ServiceTemplate.TransitionSystem

/-! The caches of the spans of a process: compaction in place, and every span's cache over any
sequence of callbacks, exact or absent. -/
namespace SpanCaches

open ByteFraming
open JsonText
open LogCapture
open TransitionSystem

/-- The loop of `compact_span` over the first `len` entries of a table: kept entries overwrite the
table from its start while the rest of it is still to be read. -/
def compactLoop (values : Bytes) (len : ℕ) : ℕ → ℕ → List Entry → Buffer → ℕ →
    Option (List Entry × Buffer × ℕ)
  | 0, _, table, line, kept => some (table, line, kept)
  | steps + 1, index, table, line, kept =>
    match table[index]? with
    | none => none
    | some field =>
      if ((table.take len).drop (index + 1)).any (fun next => next.key = field.key) then
        compactLoop values len steps (index + 1) table line kept
      else if kept = spanFields then none
      else
        let start := line.bytes.length
        let line := line.append (field.slice values)
        compactLoop values len steps (index + 1)
          (table.set kept ⟨field.key, start, line.bytes.length⟩) line (kept + 1)

/-- `compact_span` and `replace` for a scratch whose table goes on with `spare` entries. -/
def compactInPlace (scratch : Scratch) (spare : List Entry) : Option SpanFields :=
  if scratch.values.failed then none
  else
    match compactLoop scratch.values.bytes scratch.fields.length scratch.fields.length 0
      (scratch.fields ++ spare) (.empty spanBytes) 0 with
    | none => none
    | some (table, line, kept) => if line.failed then none else some ⟨line.bytes, table.take kept⟩

/-- What is kept so far lies before what is still read. -/
theorem compact_loop_eq (values : Bytes) {len : ℕ} {rest : List Entry} {index kept : ℕ}
    {table : List Entry} {line : Buffer} (hlen : len ≤ table.length) (hkept : kept ≤ index)
    (hrest : (table.take len).drop index = rest) :
    (match compactLoop values len rest.length index table line kept with
      | none => none
      | some (table, line, kept) =>
        if line.failed then none else some ⟨line.bytes, table.take kept⟩) =
      compactFrom values rest line (table.take kept) := by
  induction rest generalizing index kept table line with
  | nil => rfl
  | cons field rest ih =>
    have hindex : index < len := by
      by_contra hout
      have hempty : (table.take len).drop index = [] :=
        List.drop_eq_nil_of_le (by rw [List.length_take]; omega)
      rw [hempty] at hrest
      cases hrest
    have hfield : table[index]? = some field := by
      have hhead := congrArg List.head? hrest
      rw [List.head?_drop, List.getElem?_take_of_lt hindex] at hhead
      exact hhead
    have htail : (table.take len).drop (index + 1) = rest := by
      rw [← List.tail_drop, hrest, List.tail_cons]
    simp only [List.length_cons, compactLoop, hfield, htail, compactFrom]
    by_cases hlater : rest.any (fun next => next.key = field.key) = true
    · rw [if_pos hlater, if_pos hlater]
      exact ih hlen (by omega) htail
    · rw [if_neg hlater, if_neg hlater]
      have hcount : (table.take kept).length = kept := by rw [List.length_take]; omega
      rw [hcount]
      by_cases hfull : kept = spanFields
      · rw [if_pos hfull, if_pos hfull]
      · rw [if_neg hfull, if_neg hfull]
        generalize (⟨field.key, line.bytes.length,
          (line.append (field.slice values)).bytes.length⟩ : Entry) = entry
        have hnext : (table.set kept entry).take (kept + 1) = table.take kept ++ [entry] := by
          rw [List.take_add_one, List.getElem?_set_self (by omega), List.take_set,
            List.set_eq_of_length_le (Nat.le_of_eq hcount)]
          rfl
        have hdrop : ((table.set kept entry).take len).drop (index + 1) = rest := by
          rw [List.take_set, List.drop_set_of_lt (by omega), htail]
        rw [← hnext]
        exact ih (by rw [List.length_set]; exact hlen) (by omega) hdrop

theorem compact_in_place (scratch : Scratch) (spare : List Entry) :
    compactInPlace scratch spare = scratch.compactSpan := by
  unfold compactInPlace Scratch.compactSpan
  by_cases hfailed : scratch.values.failed = true
  · rw [if_pos hfailed, if_pos hfailed]
  · rw [if_neg hfailed, if_neg hfailed]
    refine compact_loop_eq _ ?_ (Nat.le_refl 0) ?_
    · rw [List.length_append]
      omega
    · rw [List.take_left, List.drop_zero]

def lastWritten (key : String) : List (String × Scalar) → Option Scalar
  | [] => none
  | field :: rest => (lastWritten key rest).or (if field.1 = key then some field.2 else none)

theorem last_written_append (key : String) (xs ys : List (String × Scalar)) :
    lastWritten key (xs ++ ys) = (lastWritten key ys).or (lastWritten key xs) := by
  induction xs with
  | nil => simp [lastWritten]
  | cons field xs ih => rw [List.cons_append, lastWritten, ih, lastWritten, Option.or_assoc]

theorem last_written_none {key : String} {fields : List (String × Scalar)} :
    lastWritten key fields = none ↔ (fields.any fun field => field.1 = key) = false := by
  induction fields with
  | nil => simp [lastWritten]
  | cons field rest ih =>
    rw [lastWritten, Option.or_eq_none_iff, ih, List.any_cons, Bool.or_eq_false_iff, and_comm]
    simp

theorem last_written_wins (key : String) (fields : List (String × Scalar)) :
    lastWritten key (lastWins fields) = lastWritten key fields := by
  induction fields with
  | nil => rfl
  | cons field rest ih =>
    rw [lastWins]
    by_cases hlater : (rest.any fun next => next.1 = field.1) = true
    · rw [if_pos hlater, ih, lastWritten]
      by_cases hkey : field.1 = key
      · cases hlast : lastWritten key rest with
        | none =>
          rw [last_written_none, ← hkey, hlater] at hlast
          cases hlast
        | some value => rfl
      · rw [if_neg hkey, Option.or_none]
    · rw [if_neg hlater, lastWritten, ih, lastWritten]

theorem last_written_filter (keep : String → Bool) {key : String} (h : keep key = true)
    (fields : List (String × Scalar)) :
    lastWritten key (fields.filter fun field => keep field.1) = lastWritten key fields := by
  induction fields with
  | nil => rfl
  | cons field rest ih =>
    rw [List.filter_cons]
    by_cases hkeep : keep field.1 = true
    · rw [if_pos hkeep, lastWritten, ih, lastWritten]
    · have hne : field.1 ≠ key := by
        rintro rfl
        exact hkeep h
      rw [if_neg hkeep, ih, lastWritten, if_neg hne, Option.or_none]

theorem last_written_removed (keep : String → Bool) {key : String} (h : keep key = false)
    (fields : List (String × Scalar)) :
    lastWritten key (fields.filter fun field => keep field.1) = none := by
  rw [last_written_none, List.any_eq_false]
  intro field hfield hkey
  rw [List.mem_filter, of_decide_eq_true hkey, h] at hfield
  cases hfield.2

section Callbacks

variable {F : Type} {f64 : F → Scalar}

/-- What an admitted callback adds to what was written: nothing when it unwinds. -/
def written (f64 : F → Scalar) (values : List (String × Value F)) : List (String × Scalar) :=
  if (values.foldlM (recordSpan f64) (Scratch.new spanBytes)).isNone then []
  else shown f64 values

/-- An update leaves under every key what was written last. -/
theorem last_written_updated (key : String) (fields : List (String × Scalar))
    (values : List (String × Value F)) :
    lastWritten key (updated f64 fields values) =
      lastWritten key (fields ++ written f64 values) := by
  unfold updated written
  by_cases hunwound : (values.foldlM (recordSpan f64) (Scratch.new spanBytes)).isNone = true
  · rw [if_pos hunwound, if_pos hunwound, List.append_nil]
  · rw [if_neg hunwound, if_neg hunwound, last_written_wins, last_written_append,
      last_written_append]
    by_cases hdelta : ((shown f64 values).any fun next => next.1 = key) = true
    · cases hlast : lastWritten key (shown f64 values) with
      | none =>
        rw [last_written_none, hdelta] at hlast
        cases hlast
      | some value =>
        have hout : (!(shown f64 values).any fun next => next.1 = key) = false := by rw [hdelta]; rfl
        rw [last_written_removed (fun name => !(shown f64 values).any fun next => next.1 = name) hout]
        rfl
    · rw [Bool.not_eq_true] at hdelta
      rw [last_written_none.mpr hdelta, Option.or_none, Option.none_or]
      have hkeep : (!(shown f64 values).any fun next => next.1 = key) = true := by rw [hdelta]; rfl
      exact last_written_filter
        (fun name => !(shown f64 values).any fun next => next.1 = name) hkeep fields

theorem append_length {buffer : Buffer} (h : buffer.bytes.length ≤ buffer.limit) (bytes : Bytes) :
    (buffer.append bytes).bytes.length ≤ (buffer.append bytes).limit := by
  unfold Buffer.append
  split_ifs with hcase
  · exact h
  · have hroom : bytes.length ≤ buffer.room := by
      by_contra hfull
      exact hcase (by simp [Nat.not_le.mp hfull])
    rw [Buffer.room] at hroom
    simp only [List.length_append]
    omega

theorem append_limit (buffer : Buffer) (bytes : Bytes) :
    (buffer.append bytes).limit = buffer.limit := by
  unfold Buffer.append
  split_ifs
  · rfl
  · rfl

theorem compact_from_bounds {values : Bytes} {entries kept : List Entry} {line : Buffer}
    {cached : SpanFields} (h : compactFrom values entries line kept = some cached)
    (hline : line.bytes.length ≤ line.limit) (hkept : kept.length ≤ spanFields) :
    cached.bytes.length ≤ line.limit ∧ cached.fields.length ≤ spanFields := by
  induction entries generalizing line kept with
  | nil =>
    simp only [compactFrom, Option.ite_none_left_eq_some, Option.some.injEq] at h
    obtain ⟨-, rfl⟩ := h
    exact ⟨hline, hkept⟩
  | cons entry entries ih =>
    simp only [compactFrom] at h
    split_ifs at h with hlater hfull
    · exact ih h hline hkept
    · rw [← append_limit line (entry.slice values)]
      refine ih h (append_length hline _) ?_
      rw [List.length_append, List.length_singleton]
      omega

theorem compact_span_bounds {scratch : Scratch} {cached : SpanFields}
    (h : scratch.compactSpan = some cached) :
    cached.bytes.length ≤ spanBytes ∧ cached.fields.length ≤ spanFields := by
  unfold Scratch.compactSpan at h
  split_ifs at h
  exact compact_from_bounds h (Nat.zero_le _) (Nat.zero_le _)

theorem layout_within (start : ℕ) (fields : List (String × Scalar)) :
    ∀ entry ∈ layout start fields,
      start ≤ entry.start ∧ entry.start ≤ entry.stop ∧
        entry.stop ≤ start + (valuesOf fields).length := by
  induction fields generalizing start with
  | nil => nofun
  | cons field rest ih =>
    intro entry hentry
    have hlength : (valuesOf (field :: rest)).length =
        (encoded field.2).length + (valuesOf rest).length := by
      rw [← List.singleton_append, values_of_append, values_of_singleton, List.length_append]
    rw [layout, List.mem_cons] at hentry
    rcases hentry with rfl | hentry
    · simp only
      omega
    · have hrest := ih _ entry hentry
      omega

structure Exact (cached : SpanFields) (history : List (String × Scalar)) : Prop where
  fields : cached.fields.length ≤ spanFields
  bytes : cached.bytes.length ≤ spanBytes
  distinct : (cached.fields.map Entry.key).Nodup
  within : ∀ field ∈ cached.fields, field.start ≤ field.stop ∧ field.stop ≤ cached.bytes.length
  values : ∀ key, (cached.fields.find? fun field => field.key = key).map
    (fun field => field.slice cached.bytes) = (lastWritten key history).map encoded

/-- The first entry of a key holds its last value, since there is no other. -/
theorem find_stands {bytes : Bytes} {entries : List Entry} {fields : List (String × Scalar)}
    (h : List.Forall₂ (Stands bytes) entries fields) (hdistinct : (fields.map Prod.fst).Nodup)
    (key : String) :
    (entries.find? fun field => field.key = key).map (fun field => field.slice bytes) =
      (lastWritten key fields).map encoded := by
  induction h with
  | nil => rfl
  | @cons entry field entries fields hhead _ ih =>
    rw [List.map_cons, List.nodup_cons] at hdistinct
    rw [List.find?_cons, hhead.1, lastWritten]
    by_cases hkey : field.1 = key
    · have hnone : lastWritten key fields = none := by
        rw [last_written_none, List.any_eq_false]
        intro other hother hsame
        refine hdistinct.1 (List.mem_map.mpr ⟨other, hother, ?_⟩)
        rw [hkey]
        exact of_decide_eq_true hsame
      simp [hkey, hnone, hhead.2]
    · simp only [hkey, decide_false, if_false, Option.or_none]
      exact ih hdistinct.2

theorem holds_exact {cached : SpanFields} {fields history : List (String × Scalar)}
    (h : cached.Holds fields) (hbytes : cached.bytes.length ≤ spanBytes)
    (hfields : cached.fields.length ≤ spanFields)
    (hsame : ∀ key, lastWritten key fields = lastWritten key history) : Exact cached history where
  fields := hfields
  bytes := hbytes
  distinct := by
    rw [h.entries, layout_keys]
    exact h.distinct
  within field hfield := by
    rw [h.entries] at hfield
    have hwithin := layout_within 0 fields field hfield
    rw [h.bytes]
    exact ⟨hwithin.2.1, by omega⟩
  values key := by
    rw [find_stands h.stands h.distinct, hsame]

def maxSpans : ℕ := 1024

/-- A span with what the admitted callbacks wrote to it, once its first callback is over. -/
inductive Slot (F : Type) where
  | creating (attributes : List (String × Value F)) (name : String)
  | opened (cached : Option SpanFields) (history : List (String × Scalar))
  | closed

/-- `permits` is the counter of span caches; the permit of a dropped cache is given back after it. -/
structure State (F : Type) where
  permits : ℕ
  releasing : ℕ
  slots : List (Slot F)

def start : State F := ⟨0, 0, []⟩

/-- A callback is refused by `Callback::enter`, or admitted. -/
inductive Event (F : Type) where
  | newSpan (attributes : List (String × Value F)) (name : String) (entered : Bool)
  | create (id : ℕ) (registered : Bool)
  | record (id : ℕ) (values : List (String × Value F)) (entered : Bool)
  | close (id : ℕ)
  | release

/-- The cache goes, and its permit is due. -/
def drop (s : State F) (id : ℕ) (slot : Slot F) : State F :=
  { s with releasing := s.releasing + 1, slots := s.slots.set id slot }

def keep (s : State F) (id : ℕ) (slot : Slot F) : State F :=
  { s with slots := s.slots.set id slot }

def step (f64 : F → Scalar) (s : State F) : Event F → Option (State F)
  | .newSpan attributes name entered =>
    if entered && decide (s.permits < maxSpans) then
      some { s with
        permits := s.permits + 1, slots := s.slots ++ [.creating attributes name] }
    else some { s with slots := s.slots ++ [.opened none []] }
  | .create id registered =>
    match s.slots[id]? with
    | some (.creating attributes name) =>
      let history := written f64 attributes ++ [("name", .string name.toList)]
      match if registered then onNewSpan f64 attributes name else none with
      | some cached => some (keep s id (.opened (some cached) history))
      | none => some (drop s id (.opened none history))
    | _ => none
  | .record id values entered =>
    match s.slots[id]? with
    | some (.opened cached history) =>
      if !entered then some s
      else
        match cached with
        | none => some (keep s id (.opened none (history ++ written f64 values)))
        | some fields =>
          match onRecord f64 fields values with
          | some fields =>
            some (keep s id (.opened (some fields) (history ++ written f64 values)))
          | none => some (drop s id (.opened none (history ++ written f64 values)))
    | _ => none
  | .close id =>
    match s.slots[id]? with
    | some (.opened (some _) _) => some (drop s id .closed)
    | some (.opened none _) => some (keep s id .closed)
    | _ => none
  | .release =>
    match s.releasing with
    | 0 => none
    | releasing + 1 => some { s with permits := s.permits - 1, releasing }

def layer (f64 : F → Scalar) : System (State F) (Event F) := ⟨start, step f64⟩

variable {s t : State F}

inductive Move (f64 : F → Scalar) (s : State F) : State F → Prop
  | refused : Move f64 s { s with slots := s.slots ++ [.opened none []] }
  | reserved {attributes name} (room : s.permits < maxSpans) :
      Move f64 s { s with
        permits := s.permits + 1, slots := s.slots ++ [.creating attributes name] }
  | created {id attributes name cached} (slot : s.slots[id]? = some (.creating attributes name))
      (new : onNewSpan f64 attributes name = some cached) :
      Move f64 s (keep s id
        (.opened (some cached) (written f64 attributes ++ [("name", .string name.toList)])))
  | unfit {id attributes name history} (slot : s.slots[id]? = some (.creating attributes name)) :
      Move f64 s (drop s id (.opened none history))
  | rejected : Move f64 s s
  | absent {id history more} (slot : s.slots[id]? = some (.opened none history)) :
      Move f64 s (keep s id (.opened none more))
  | updated {id before after history values}
      (slot : s.slots[id]? = some (.opened (some before) history))
      (update : onRecord f64 before values = some after) :
      Move f64 s (keep s id (.opened (some after) (history ++ written f64 values)))
  | outgrown {id before history more} (slot : s.slots[id]? = some (.opened (some before) history)) :
      Move f64 s (drop s id (.opened none more))
  | closeCached {id before history} (slot : s.slots[id]? = some (.opened (some before) history)) :
      Move f64 s (drop s id .closed)
  | closeAbsent {id history} (slot : s.slots[id]? = some (.opened none history)) :
      Move f64 s (keep s id .closed)
  | release {releasing} (due : s.releasing = releasing + 1) :
      Move f64 s { s with permits := s.permits - 1, releasing }

theorem step_cases {e : Event F} (h : step f64 s e = some t) : Move f64 s t := by
  cases e with
  | newSpan attributes name entered =>
    simp only [step] at h
    split at h
    · rename_i hentered
      rw [Bool.and_eq_true, decide_eq_true_eq] at hentered
      exact Option.some.inj h ▸ .reserved hentered.2
    · exact Option.some.inj h ▸ .refused
  | create id registered =>
    simp only [step] at h
    split at h
    · rename_i attributes name hslot
      split at h
      · rename_i cached hnew
        rw [Option.ite_none_right_eq_some] at hnew
        exact Option.some.inj h ▸ .created hslot hnew.2
      · exact Option.some.inj h ▸ .unfit hslot
    · cases h
  | record id values entered =>
    simp only [step] at h
    split at h
    · rename_i cached history hslot
      split at h
      · exact Option.some.inj h ▸ .rejected
      · split at h
        · exact Option.some.inj h ▸ .absent hslot
        · split at h
          · rename_i hupdate
            exact Option.some.inj h ▸ .updated hslot hupdate
          · exact Option.some.inj h ▸ .outgrown hslot
    · cases h
  | close id =>
    simp only [step] at h
    split at h
    · rename_i hslot
      exact Option.some.inj h ▸ .closeCached hslot
    · rename_i hslot
      exact Option.some.inj h ▸ .closeAbsent hslot
    · cases h
  | release =>
    simp only [step] at h
    split at h
    · cases h
    · rename_i hdue
      exact Option.some.inj h ▸ .release hdue

def Slot.holds : Slot F → Bool
  | .creating _ _ => true
  | .opened cached _ => cached.isSome
  | .closed => false

def Slot.live : Slot F → Bool
  | .opened (some _) _ => true
  | _ => false

structure Counted (s : State F) : Prop where
  permits : s.permits = s.releasing + s.slots.countP Slot.holds
  limit : s.permits ≤ maxSpans

theorem count_set {slots : List (Slot F)} {id : ℕ} {before : Slot F} (after : Slot F)
    (h : slots[id]? = some before) :
    (slots.set id after).countP Slot.holds + before.holds.toNat =
      slots.countP Slot.holds + after.holds.toNat := by
  induction slots generalizing id with
  | nil => cases h
  | cons slot slots ih =>
    cases id with
    | zero =>
      cases h
      rw [List.set_cons_zero, List.countP_cons, List.countP_cons]
      cases before.holds <;> cases after.holds <;> simp
    | succ id =>
      have hrest := ih h
      rw [List.set_cons_succ, List.countP_cons, List.countP_cons]
      omega

theorem keep_counted (h : Counted s) {id : ℕ} {before after : Slot F}
    (hslot : s.slots[id]? = some before) (hsame : after.holds = before.holds) :
    Counted (keep s id after) := by
  have hcount := count_set after hslot
  rw [hsame] at hcount
  refine ⟨?_, h.limit⟩
  have hpermits := h.permits
  simp only [keep]
  omega

theorem drop_counted (h : Counted s) {id : ℕ} {before after : Slot F}
    (hslot : s.slots[id]? = some before) (hbefore : before.holds = true)
    (hafter : after.holds = false) : Counted (drop s id after) := by
  have hcount := count_set after hslot
  rw [hbefore, hafter] at hcount
  refine ⟨?_, h.limit⟩
  have hpermits := h.permits
  simp only [drop, Bool.toNat_true, Bool.toNat_false] at hcount ⊢
  omega

theorem move_counted (h : Counted s) (move : Move f64 s t) : Counted t := by
  have hpermits := h.permits
  have hlimit := h.limit
  cases move with
  | refused => exact ⟨by simpa [Slot.holds] using hpermits, hlimit⟩
  | reserved hroom =>
    refine ⟨?_, Nat.succ_le_of_lt hroom⟩
    simp only [List.countP_append, List.countP_singleton, Slot.holds, if_true]
    omega
  | created hslot => exact keep_counted h hslot rfl
  | unfit hslot => exact drop_counted h hslot rfl rfl
  | rejected => exact h
  | absent hslot => exact keep_counted h hslot rfl
  | updated hslot => exact keep_counted h hslot rfl
  | outgrown hslot => exact drop_counted h hslot rfl rfl
  | closeCached hslot => exact drop_counted h hslot rfl rfl
  | closeAbsent hslot => exact keep_counted h hslot rfl
  | release hdue =>
    constructor
    · simp only
      omega
    · exact Nat.le_trans (Nat.sub_le _ _) hlimit

theorem live_le (h : Counted s) : s.slots.countP Slot.live ≤ maxSpans := by
  have hholds : s.slots.countP Slot.live ≤ s.slots.countP Slot.holds := by
    refine List.countP_mono_left fun slot _ hlive => ?_
    cases slot with
    | creating => rfl
    | opened cached history =>
      cases cached with
      | none => cases hlive
      | some cached => rfl
    | closed => cases hlive
  have hpermits := h.permits
  have hlimit := h.limit
  omega

def Agrees (f64 : F → Scalar) (cached : SpanFields) (history : List (String × Scalar)) : Prop :=
  ∃ fields, SpanCache f64 (some cached) fields ∧ cached.bytes.length ≤ spanBytes ∧
    cached.fields.length ≤ spanFields ∧
    ∀ key, lastWritten key fields = lastWritten key history

def Slot.Sound (f64 : F → Scalar) : Slot F → Prop
  | .opened (some cached) history => Agrees f64 cached history
  | _ => True

theorem new_agrees {attributes : List (String × Value F)} {name : String} {cached : SpanFields}
    (h : onNewSpan f64 attributes name = some cached) :
    Agrees f64 cached (written f64 attributes ++ [("name", .string name.toList)]) := by
  have hcache : SpanCache f64 (onNewSpan f64 attributes name)
      (lastWins (shown f64 attributes ++ [("name", .string name.toList)])) := .new attributes name
  rw [h] at hcache
  obtain ⟨scratch, hscratch, hcompact⟩ := Option.bind_eq_some_iff.mp h
  obtain ⟨hbytes, hfields⟩ := compact_span_bounds hcompact
  refine ⟨_, hcache, hbytes, hfields, fun key => ?_⟩
  rw [last_written_wins, written, hscratch]
  rfl

theorem update_agrees {before after : SpanFields} {history : List (String × Scalar)}
    {values : List (String × Value F)} (h : Agrees f64 before history)
    (hupdate : onRecord f64 before values = some after) :
    Agrees f64 after (history ++ written f64 values) := by
  obtain ⟨fields, hcache, hbytes, hfields, hsame⟩ := h
  have hafter : SpanCache f64 (onRecord f64 before values) (updated f64 fields values) :=
    .record values hcache
  have hbounds : after.bytes.length ≤ spanBytes ∧ after.fields.length ≤ spanFields := by
    unfold onRecord at hupdate
    split at hupdate
    · cases hupdate
      exact ⟨hbytes, hfields⟩
    · exact compact_span_bounds hupdate
  refine ⟨_, hupdate ▸ hafter, hbounds.1, hbounds.2, fun key => ?_⟩
  rw [last_written_updated, last_written_append, last_written_append, hsame]

theorem forall_set {P : Slot F → Prop} {slots : List (Slot F)} (h : ∀ slot ∈ slots, P slot)
    {after : Slot F} (hafter : P after) (id : ℕ) : ∀ slot ∈ slots.set id after, P slot := by
  intro slot hslot
  rcases List.mem_or_eq_of_mem_set hslot with hslot | rfl
  · exact h slot hslot
  · exact hafter

theorem forall_snoc {P : Slot F → Prop} {slots : List (Slot F)} (h : ∀ slot ∈ slots, P slot)
    {last : Slot F} (hlast : P last) : ∀ slot ∈ slots ++ [last], P slot := by
  intro slot hslot
  rcases List.mem_append.mp hslot with hslot | hslot
  · exact h slot hslot
  · exact List.mem_singleton.mp hslot ▸ hlast

theorem move_sound (h : ∀ slot ∈ s.slots, Slot.Sound f64 slot) (move : Move f64 s t) :
    ∀ slot ∈ t.slots, Slot.Sound f64 slot := by
  have hclosed : Slot.Sound f64 .closed := trivial
  have hnone : ∀ history, Slot.Sound f64 (.opened none history) := fun _ => trivial
  cases move with
  | refused => exact forall_snoc h (hnone _)
  | @reserved attributes name =>
    have hcreating : Slot.Sound f64 (.creating attributes name) := trivial
    exact forall_snoc h hcreating
  | @created id attributes name cached _ hnew =>
    have hsound : Slot.Sound f64 (.opened (some cached) _) := new_agrees hnew
    exact forall_set h hsound _
  | unfit => exact forall_set h (hnone _) _
  | rejected => exact h
  | absent => exact forall_set h (hnone _) _
  | @updated id before after history values hslot hupdate =>
    have hsound : Slot.Sound f64 (.opened (some after) _) :=
      update_agrees (h _ (List.mem_of_getElem? hslot)) hupdate
    exact forall_set h hsound _
  | outgrown => exact forall_set h (hnone _) _
  | closeCached => exact forall_set h hclosed _
  | closeAbsent => exact forall_set h hclosed _
  | release => exact h

def Absent (s : State F) (id : ℕ) : Prop :=
  (∃ history, s.slots[id]? = some (.opened none history)) ∨ s.slots[id]? = some .closed

theorem absent_set {id other : ℕ} {before after : Slot F} (h : Absent s id)
    (hslot : s.slots[other]? = some before)
    (hafter : (∃ history, before = .opened none history) ∨ before = .closed →
      (∃ history, after = .opened none history) ∨ after = .closed) :
    Absent (keep s other after) id := by
  by_cases hsame : other = id
  · subst hsame
    have hbound := (List.getElem?_eq_some_iff.mp hslot).1
    have hset : (keep s other after).slots[other]? = some after := List.getElem?_set_self hbound
    have hbefore : (∃ history, before = .opened none history) ∨ before = .closed := by
      rcases h with ⟨history, h⟩ | h
      · exact .inl ⟨history, Option.some.inj (hslot.symm.trans h)⟩
      · exact .inr (Option.some.inj (hslot.symm.trans h))
    rw [Absent, hset]
    exact (hafter hbefore).imp (fun ⟨history, h⟩ => ⟨history, congrArg some h⟩) (congrArg some)
  · have hset : (keep s other after).slots[id]? = s.slots[id]? := List.getElem?_set_ne hsame
    rw [Absent, hset]
    exact h

theorem absent_append {id : ℕ} (h : Absent s id) (more : List (Slot F)) :
    Absent { s with slots := s.slots ++ more } id := by
  have hkept : ∀ {slot}, s.slots[id]? = some slot → (s.slots ++ more)[id]? = some slot := by
    intro slot hslot
    rw [List.getElem?_append_left (List.getElem?_eq_some_iff.mp hslot).1, hslot]
  exact h.imp (fun ⟨history, h⟩ => ⟨history, hkept h⟩) hkept

theorem move_absent {id : ℕ} (h : Absent s id) (move : Move f64 s t) : Absent t id := by
  cases move with
  | refused => exact absent_append h _
  | reserved => exact absent_append h _
  | created hslot => exact absent_set h hslot nofun
  | unfit hslot => exact absent_set h hslot nofun
  | rejected => exact h
  | absent hslot => exact absent_set h hslot fun _ => .inl ⟨_, rfl⟩
  | updated hslot => exact absent_set h hslot nofun
  | outgrown hslot => exact absent_set h hslot nofun
  | closeCached hslot => exact absent_set h hslot nofun
  | closeAbsent hslot => exact absent_set h hslot fun _ => .inr rfl
  | release => exact h

theorem reachable_counted (h : (layer f64).Reachable s) : Counted s := by
  refine h.induction (P := Counted) ⟨rfl, Nat.zero_le _⟩ ?_
  intro s e t _ hs hstep
  exact move_counted hs (step_cases hstep)

theorem reachable_sound (h : (layer f64).Reachable s) : ∀ slot ∈ s.slots, Slot.Sound f64 slot := by
  refine h.induction (P := fun s => ∀ slot ∈ s.slots, Slot.Sound f64 slot) ?_ ?_
  · exact fun slot hslot => nomatch hslot
  · intro s e t _ hs hstep
    exact move_sound hs (step_cases hstep)

/-- A span's cache is exact at every point, or absent for good; a callback that is refused changes
nothing, and there are never more caches than permits. -/
theorem span_cache_exact_or_absent (f64 : F → Scalar) (s : State F)
    (h : (layer f64).Reachable s) :
    (∀ (id : ℕ) cached history, s.slots[id]? = some (.opened (some cached) history) →
      Exact cached history) ∧
    (∀ id, Absent s id → ∀ t, (layer f64).Execution s t → Absent t id) ∧
    (∀ id values t, step f64 s (.record id values false) = some t → t = s) ∧
    (∀ attributes name, step f64 s (.newSpan attributes name false) =
      some { s with slots := s.slots ++ [Slot.opened none []] }) ∧
    s.slots.countP Slot.live ≤ maxSpans := by
  refine ⟨?_, ?_, ?_, fun attributes name => rfl, live_le (reachable_counted h)⟩
  · intro id cached history hslot
    obtain ⟨fields, hcache, hbytes, hfields, hsame⟩ :=
      reachable_sound h _ (List.mem_of_getElem? hslot)
    exact holds_exact (span_cache_holds hcache cached rfl) hbytes hfields hsame
  · intro id habsent t ht
    refine ht.preserves (P := fun s => Absent s id) ?_ habsent
    intro s e t hs hstep
    exact move_absent hs (step_cases hstep)
  · intro id values t hstep
    simp only [step] at hstep
    split at hstep
    · exact (Option.some.inj hstep).symm
    · cases hstep

def twice : List (Event Unit) :=
  [.newSpan [("a", .bool true), ("a", .bool false)] "s" true, .create 0 true]

theorem twice_exact : ∃ s cached history, (layer fun _ => .null).run start twice = some s ∧
    s.slots[0]? = some (.opened (some cached) history) ∧ cached.fields.length = 2 ∧
    Exact cached history := by
  refine ⟨_, _, _, rfl, rfl, by decide, ?_⟩
  exact (span_cache_exact_or_absent (fun _ => .null) _ ⟨twice, rfl⟩).1 0 _ _ rfl

end Callbacks

end SpanCaches
