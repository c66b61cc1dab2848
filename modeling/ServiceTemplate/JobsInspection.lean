import ServiceTemplate.JobsTable
import ServiceTemplate.JsonText
import ServiceTemplate.KeysetPaging
import ServiceTemplate.Utf8Text

/-! Paged inspection of `background_jobs`. A page bounds the scanned rows before the filter, so
completeness is a fact about the scan; the cursor between two pages is a text. -/
namespace JobsInspection

open ByteFraming
open Utf8Text
open JobsTable
open KeysetPaging

/-- The uuid library: its parser of all textual forms and its canonical text. -/
structure UuidText where
  tryParse : String → Option JobId
  toText : JobId → String

/-- What the cursor relies on: the canonical text has 36 bytes and is read back. -/
structure UuidText.Lawful (u : UuidText) : Prop where
  try_parse_to_text : ∀ id < 2 ^ 128, u.tryParse (u.toText id) = some id
  text_length : ∀ id < 2 ^ 128, (asBytes (u.toText id)).length = 36

variable {u : UuidText}

inductive InputError where
  | id
  | cursor
  | limit
  | handledKinds
  deriving DecidableEq, Repr

def parseId (u : UuidText) (value : String) : Except InputError JobId :=
  match u.tryParse value with
  | none => .error .id
  | some id => if id = 0 then .error .id else .ok id

def maxPage : ℕ := 500
def maxHandledKinds : ℕ := 1024
def maxHandledBytes : ℕ := maxHandledKinds * 65 - 1

inductive Filter where
  | failed
  | unhandled (kinds : List String)
  deriving DecidableEq, Repr

inductive Inspection where
  | one (id : JobId)
  | page (after : Option JobId) (limit : ℕ) (filter : Filter)
  deriving DecidableEq, Repr

def Inspection.ofId (u : UuidText) (id : String) : Except InputError Inspection :=
  match parseId u id with
  | .ok id => .ok (.one id)
  | .error e => .error e

def stripVersion : List Char → Option (List Char)
  | 'v' :: '1' :: ':' :: text => some text
  | _ => none

/-- Only the canonical text of a non-nil id is a cursor. -/
def parseCursor (u : UuidText) (cursor : String) : Except InputError JobId :=
  if (asBytes cursor).length ≠ 39 then .error .cursor
  else
    match stripVersion cursor.toList with
    | none => .error .cursor
    | some text =>
      match parseId u (String.ofList text) with
      | .error _ => .error .cursor
      | .ok id => if u.toText id ≠ String.ofList text then .error .cursor else .ok id

def parseAfter (u : UuidText) : Option String → Except InputError (Option JobId)
  | none => .ok none
  | some cursor =>
    match parseCursor u cursor with
    | .ok id => .ok (some id)
    | .error e => .error e

/-- `Inspection::page`. -/
def admitPage (u : UuidText) (after : Option String) (limit : ℕ) (filter : Filter) :
    Except InputError Inspection :=
  if ¬ (1 ≤ limit ∧ limit ≤ maxPage) then .error .limit
  else
    match parseAfter u after with
    | .ok after => .ok (.page after limit filter)
    | .error e => .error e

def Inspection.failed (u : UuidText) (after : Option String) (limit : ℕ) :
    Except InputError Inspection :=
  admitPage u after limit .failed

/-- An empty text declares that no kinds are handled. -/
def Inspection.unhandled (u : UuidText) (handledKinds : String) (after : Option String)
    (limit : ℕ) : Except InputError Inspection :=
  if maxHandledBytes < (asBytes handledKinds).length ∨
      (handledKinds ≠ "" ∧ maxHandledKinds ≤ (asBytes handledKinds).count 44) then
    .error .handledKinds
  else
    let kinds := if handledKinds = "" then []
      else (handledKinds.toList.splitOn ',').map String.ofList
    if kinds.all isValidKindName then admitPage u after limit (.unhandled kinds)
    else .error .handledKinds

def Inspection.Bounded : Inspection → Prop
  | .one id => id ≠ 0
  | .page after limit filter => (∀ id ∈ after, id ≠ 0) ∧ 1 ≤ limit ∧ limit ≤ maxPage ∧
      ∀ kinds, filter = .unhandled kinds → ∀ kind ∈ kinds, isValidKindName kind = true

theorem parse_id_ok {value : String} {id : JobId} (h : parseId u value = .ok id) : id ≠ 0 := by
  unfold parseId at h
  split at h
  · cases h
  · split at h <;> cases h
    assumption

theorem parse_after_ok {after : Option String} {id : Option JobId} (h : parseAfter u after = .ok id) :
    ∀ id' ∈ id, id' ≠ 0 := by
  cases after with
  | none =>
    cases h
    nofun
  | some cursor =>
    simp only [parseAfter, parseCursor] at h
    repeat' split at h
    all_goals cases h
    rename_i hcursor
    rintro _ ⟨⟩
    repeat' split at hcursor
    all_goals cases hcursor
    exact parse_id_ok ‹_›

theorem admit_page_bounded {after : Option String} {limit : ℕ} {filter : Filter}
    {inspection : Inspection} (hkinds : ∀ kinds, filter = .unhandled kinds →
      ∀ kind ∈ kinds, isValidKindName kind = true)
    (h : admitPage u after limit filter = .ok inspection) : inspection.Bounded := by
  unfold admitPage at h
  split at h
  · cases h
  · rename_i hlimit
    split at h
    · rename_i hafter
      cases h
      obtain ⟨hlow, hhigh⟩ := not_not.mp hlimit
      exact ⟨parse_after_ok hafter, hlow, hhigh, hkinds⟩
    · cases h

theorem of_id_bounded {id : String} {inspection : Inspection}
    (h : Inspection.ofId u id = .ok inspection) : inspection.Bounded := by
  unfold Inspection.ofId at h
  split at h <;> cases h
  exact parse_id_ok ‹_›

theorem failed_bounded {after : Option String} {limit : ℕ} {inspection : Inspection}
    (h : Inspection.failed u after limit = .ok inspection) : inspection.Bounded :=
  admit_page_bounded (fun _ heq => by cases heq) h

theorem unhandled_bounded {handledKinds : String} {after : Option String} {limit : ℕ}
    {inspection : Inspection} (h : Inspection.unhandled u handledKinds after limit = .ok inspection) :
    inspection.Bounded := by
  unfold Inspection.unhandled at h
  split at h
  · cases h
  · dsimp only at h
    generalize (if handledKinds = "" then [] else
      (handledKinds.toList.splitOn ',').map String.ofList) = listed at h
    split at h
    · rename_i hvalid
      refine admit_page_bounded (fun kinds heq kind hkind => ?_) h
      cases heq
      exact List.all_eq_true.mp hvalid kind hkind
    · cases h

/-- The columns one inspection statement reads. `to_char` is left to the database: timestamps
stay instants. -/
structure SnapshotRow where
  id : JobId
  kind : String
  state : String
  version : String
  attempts : ℤ
  failureReason : Option String
  createdAt : Time
  notBefore : Time
  claimExpiresAt : Option Time
  finishedAt : Option Time
  recoveryCount : ℕ
  deriving DecidableEq, Repr

structure JobSnapshot where
  id : JobId
  kind : String
  state : JobState
  version : String
  attempts : ℤ
  failureReason : Option FailureReason
  createdAt : Time
  notBefore : Time
  claimExpiresAt : Option Time
  finishedAt : Option Time
  recoveryCount : ℕ
  deriving DecidableEq, Repr

def stateText : JobState → String
  | .pending => "pending"
  | .running => "running"
  | .completed => "completed"
  | .failed => "failed"

def parseState : String → Option JobState
  | "pending" => some .pending
  | "running" => some .running
  | "completed" => some .completed
  | "failed" => some .failed
  | _ => none

def reasonText : FailureReason → String
  | .permanent => "permanent"
  | .exhausted => "exhausted"

def parseReason : String → Option FailureReason
  | "permanent" => some .permanent
  | "exhausted" => some .exhausted
  | _ => none

def SnapshotRow.ofRow (row : Row) : SnapshotRow where
  id := row.id
  kind := row.kind
  state := stateText row.state
  version := Nat.repr row.claimGeneration
  attempts := row.attempts
  failureReason := row.failureReason.map reasonText
  createdAt := row.createdAt
  notBefore := row.notBefore
  claimExpiresAt := row.claimExpiresAt
  finishedAt := row.finishedAt
  recoveryCount := row.recoveryHistory.length

inductive InspectError where
  | invalidStoredState
  deriving DecidableEq, Repr

def parseFailure : Option String → Except InspectError (Option FailureReason)
  | none => .ok none
  | some text =>
    match parseReason text with
    | some reason => .ok (some reason)
    | none => .error .invalidStoredState

def JobSnapshot.tryFrom (row : SnapshotRow) : Except InspectError JobSnapshot :=
  match parseState row.state with
  | none => .error .invalidStoredState
  | some state =>
    match parseFailure row.failureReason with
    | .error e => .error e
    | .ok failureReason => .ok {
        id := row.id
        kind := row.kind
        state
        version := row.version
        attempts := row.attempts
        failureReason
        createdAt := row.createdAt
        notBefore := row.notBefore
        claimExpiresAt := row.claimExpiresAt
        finishedAt := row.finishedAt
        recoveryCount := row.recoveryCount }

def Filter.includes (filter : Filter) (item : JobSnapshot) : Bool :=
  match filter with
  | .failed => item.state = .failed
  | .unhandled kinds =>
    (item.state = .pending || item.state = .running) && !kinds.contains item.kind

structure Page where
  observedAt : Time
  scanned : ℕ
  items : List JobSnapshot
  complete : Bool
  nextCursor : Option String
  deriving DecidableEq, Repr

inductive InspectionResult where
  | one (observedAt : Time) (item : Option JobSnapshot)
  | page (page : Page)
  deriving DecidableEq, Repr

/-- `background_jobs` as one statement sees it: a primary key of 128-bit ids. -/
structure Table where
  observedAt : Time
  rows : List Row
  distinct : (rows.map Row.id).Nodup
  nonNil : ∀ row ∈ rows, row.id ≠ 0
  bounded : ∀ row ∈ rows, row.id < 2 ^ 128

/-- The page query, with a cursor or without. -/
def scanRows (rows : List Row) (after : Option JobId) (limit : ℕ) : List Row :=
  match after with
  | some after =>
    ((rows.filter fun row => after < row.id).insertionSort fun row other => row.id ≤ other.id).take
      limit
  | none => (rows.insertionSort fun row other => row.id ≤ other.id).take limit

def inspect (u : UuidText) (table : Table) : Inspection → Except InspectError InspectionResult
  | .one id => do
    let item ← ((table.rows.find? fun row => row.id = id).map SnapshotRow.ofRow).mapM
      JobSnapshot.tryFrom
    return .one table.observedAt item
  | .page after limit filter => do
    let rows := (scanRows table.rows after limit).map SnapshotRow.ofRow
    let scanned := rows.length
    let complete := decide (scanned < limit)
    let nextCursor := if complete then none
      else rows.getLast?.map fun row => "v1:" ++ u.toText row.id
    let snapshots ← rows.mapM JobSnapshot.tryFrom
    return .page {
      observedAt := table.observedAt
      scanned
      items := snapshots.filter filter.includes
      complete
      nextCursor }

inductive Refusal where
  | input (e : InputError)
  | inspect (e : InspectError)
  deriving DecidableEq, Repr

def readPage (u : UuidText) (limit : ℕ) (filter : Filter) (after : Option String) (table : Table) :
    Except Refusal InspectionResult :=
  match admitPage u after limit filter with
  | .error e => .error (.input e)
  | .ok request =>
    match inspect u table request with
    | .error e => .error (.inspect e)
    | .ok result => .ok result

/-- Inspects the tables seen one after another, each from the cursor of the page before it, up
to the first complete page. -/
def readPages (u : UuidText) (limit : ℕ) (filter : Filter) :
    Option String → List Table → Except Refusal (List Page)
  | _, [] => .ok []
  | after, table :: tables =>
    match readPage u limit filter after table with
    | .error e => .error e
    | .ok (.one _ _) => .ok []
    | .ok (.page page) =>
      if page.complete then .ok [page]
      else
        match readPages u limit filter page.nextCursor tables with
        | .error e => .error e
        | .ok pages => .ok (page :: pages)

def items (pages : List Page) : List JobSnapshot := pages.flatMap Page.items

def Complete (pages : List Page) : Prop := ∃ last ∈ pages.getLast?, last.complete = true

def snapshotOf (row : Row) : JobSnapshot where
  id := row.id
  kind := row.kind
  state := row.state
  version := Nat.repr row.claimGeneration
  attempts := row.attempts
  failureReason := row.failureReason
  createdAt := row.createdAt
  notBefore := row.notBefore
  claimExpiresAt := row.claimExpiresAt
  finishedAt := row.finishedAt
  recoveryCount := row.recoveryHistory.length

theorem parse_state_text (state : JobState) : parseState (stateText state) = some state := by
  cases state <;> rfl

theorem parse_failure_text (reason : Option FailureReason) :
    parseFailure (reason.map reasonText) = .ok reason := by
  rcases reason with - | - | - <;> rfl

theorem try_from_of_row (row : Row) :
    JobSnapshot.tryFrom (SnapshotRow.ofRow row) = .ok (snapshotOf row) := by
  simp [JobSnapshot.tryFrom, SnapshotRow.ofRow, parse_state_text, parse_failure_text, snapshotOf]

theorem try_from_rows (rows : List Row) :
    (rows.map SnapshotRow.ofRow).mapM JobSnapshot.tryFrom = .ok (rows.map snapshotOf) := by
  induction rows with
  | nil => rfl
  | cons row rows ih =>
    rw [List.map_cons, List.mapM_cons, try_from_of_row, ih]
    rfl

theorem scan_rows_eq (rows : List Row) (after : Option JobId) (limit : ℕ) :
    scanRows rows after limit = KeysetPaging.page Row.id after limit rows := by
  cases after with
  | none => simp [scanRows, KeysetPaging.page, After]
  | some after => simp [scanRows, KeysetPaging.page, After]

def cursorOf (u : UuidText) (id : JobId) : String := "v1:" ++ u.toText id

theorem parse_cursor_of (law : u.Lawful) {id : JobId} (hnil : id ≠ 0) (hid : id < 2 ^ 128) :
    parseCursor u (cursorOf u id) = .ok id := by
  have hlength : (asBytes (cursorOf u id)).length = 39 := by
    have hprefix : (asBytes "v1:").length = 3 := by decide
    rw [cursorOf, as_bytes_append, List.length_append, hprefix, law.text_length id hid]
  have hstrip : stripVersion (cursorOf u id).toList = some (u.toText id).toList := by
    simp [cursorOf, stripVersion]
  simp [parseCursor, hlength, hstrip, parseId, law.try_parse_to_text id hid, hnil]

def Given (after : Option JobId) : Prop := ∀ id ∈ after, id ≠ 0 ∧ id < 2 ^ 128

theorem parse_after_given (law : u.Lawful) {after : Option JobId} (h : Given after) :
    parseAfter u (after.map (cursorOf u)) = .ok after := by
  cases after with
  | none => rfl
  | some id =>
    obtain ⟨hnil, hid⟩ := h id rfl
    simp [parseAfter, parse_cursor_of law hnil hid]

def answer (u : UuidText) (limit : ℕ) (filter : Filter) (observedAt : Time) (read : List Row) :
    Page where
  observedAt
  scanned := read.length
  items := (read.map snapshotOf).filter filter.includes
  complete := decide (read.length < limit)
  nextCursor := if read.length < limit then none
    else (read.getLast?.map Row.id).map (cursorOf u)

theorem read_page_eq (law : u.Lawful) {limit : ℕ} (hlimit : 1 ≤ limit ∧ limit ≤ maxPage)
    (filter : Filter) {after : Option JobId} (hafter : Given after) (table : Table) :
    readPage u limit filter (after.map (cursorOf u)) table = .ok (.page
      (answer u limit filter table.observedAt
        (KeysetPaging.page Row.id after limit table.rows))) := by
  have hadmitted : admitPage u (after.map (cursorOf u)) limit filter =
      .ok (.page after limit filter) := by
    simp [admitPage, hlimit, parse_after_given law hafter]
  simp only [readPage, hadmitted, inspect, scan_rows_eq, try_from_rows]
  simp [answer, bind, Except.bind, pure, Except.pure]
  rfl

theorem given_last {after : Option JobId} {limit : ℕ} (table : Table) :
    Given ((KeysetPaging.page Row.id after limit table.rows).getLast?.map Row.id) := by
  intro id hid
  obtain ⟨row, hlast, rfl⟩ := Option.map_eq_some_iff.mp hid
  have hrow := (mem_page (List.mem_of_getLast? hlast)).1
  exact ⟨table.nonNil row hrow, table.bounded row hrow⟩

/-- What an operator reads is the keyset paging of the tables. -/
structure ReadsAs (limit : ℕ) (filter : Filter) (pages : List Page) (read : List (List Row)) :
    Prop where
  length : pages.length = read.length
  items : items pages = (read.flatten.map snapshotOf).filter filter.includes
  complete : Complete pages ↔ Finished limit read

theorem answer_items (limit : ℕ) (filter : Filter) (observedAt : Time) (read : List Row)
    (pages : List Page) :
    items (answer u limit filter observedAt read :: pages) =
      (read.map snapshotOf).filter filter.includes ++ items pages := rfl

theorem answer_complete (limit : ℕ) (filter : Filter) (observedAt : Time) (read : List Row) :
    (answer u limit filter observedAt read).complete = decide (read.length < limit) := rfl

theorem answer_next {limit : ℕ} {read : List Row} (hfull : ¬ read.length < limit)
    (filter : Filter) (observedAt : Time) :
    (answer u limit filter observedAt read).nextCursor =
      (read.getLast?.map Row.id).map (cursorOf u) := if_neg hfull

theorem ReadsAs.single {limit : ℕ} {filter : Filter} {read : List Row}
    (hshort : read.length < limit) (observedAt : Time) :
    ReadsAs limit filter [answer u limit filter observedAt read] [read] := by
  refine ⟨rfl, ?_, ?_⟩
  · rw [answer_items]
    simp [JobsInspection.items]
  · simp [Complete, Finished, answer, hshort]

theorem ReadsAs.cons {limit : ℕ} {filter : Filter} {read : List Row} {pages : List Page}
    {rest : List (List Row)} (hfull : ¬ read.length < limit) (h : ReadsAs limit filter pages rest)
    (observedAt : Time) :
    ReadsAs limit filter (answer u limit filter observedAt read :: pages) (read :: rest) := by
  refine ⟨congrArg Nat.succ h.length, ?_, ?_⟩
  · rw [answer_items, h.items, List.flatten_cons, List.map_append, List.filter_append]
  · rw [finished_cons hfull, ← h.complete]
    cases pages with
    | nil => simp [Complete, answer, Nat.not_lt.mp hfull]
    | cons next pages => simp [Complete, List.getLast?_cons_cons]

theorem given_none : Given none := by
  simp [Given]

theorem read_pages_eq (law : u.Lawful) {limit : ℕ} (hlimit : 1 ≤ limit ∧ limit ≤ maxPage)
    (filter : Filter) {after : Option JobId} (hafter : Given after) (tables : List Table) :
    ∃ pages, readPages u limit filter (after.map (cursorOf u)) tables = .ok pages ∧
      ReadsAs limit filter pages
        (KeysetPaging.pages Row.id limit after (tables.map Table.rows)) := by
  induction tables generalizing after with
  | nil => exact ⟨[], rfl, rfl, rfl, by simp [Complete, Finished, KeysetPaging.pages]⟩
  | cons table tables ih =>
    simp only [readPages, read_page_eq law hlimit filter hafter table, List.map_cons,
      KeysetPaging.pages]
    by_cases hshort : (KeysetPaging.page Row.id after limit table.rows).length < limit
    · simp only [answer_complete, hshort, decide_true, if_true]
      exact ⟨_, rfl, ReadsAs.single hshort table.observedAt⟩
    · have hgiven : Given ((KeysetPaging.page Row.id after limit table.rows).getLast?.map Row.id) :=
        given_last table
      obtain ⟨pages, hpages, hreads⟩ := ih hgiven
      simp only [answer_complete, hshort, decide_false, if_false, Bool.false_eq_true,
        answer_next hshort, hpages]
      exact ⟨_, rfl, hreads.cons hshort table.observedAt⟩

theorem filter_items_id {filter : Filter} {read : List Row} {row : Row}
    (hsorted : read.Pairwise fun row other => row.id < other.id) (hrow : row ∈ read)
    (hincluded : filter.includes (snapshotOf row) = true) :
    ((read.map snapshotOf).filter filter.includes).filter (fun item => item.id = row.id) =
      [snapshotOf row] := by
  induction read with
  | nil => cases hrow
  | cons head read ih =>
    obtain ⟨hhead, hread⟩ := List.pairwise_cons.mp hsorted
    rw [List.map_cons]
    rcases List.mem_cons.mp hrow with rfl | hrow
    · rw [List.filter_cons_of_pos hincluded, List.filter_cons_of_pos (by simp [snapshotOf])]
      congr 1
      rw [List.filter_eq_nil_iff]
      intro item hitem
      obtain ⟨other, hother, rfl⟩ := List.mem_map.mp (List.mem_filter.mp hitem).1
      have hlt := hhead other hother
      have hne : (snapshotOf other).id ≠ row.id := (ne_of_lt hlt).symm
      simpa using hne
    · have hne : (snapshotOf head).id ≠ row.id := ne_of_lt (hhead row hrow)
      rw [List.filter_cons]
      split
      · rw [List.filter_cons_of_neg (by simpa using hne)]
        exact ih hread hrow
      · exact ih hread hrow

/-- Exactly the rows of the filter, in the order of their ids. -/
structure ExactItems (filter : Filter) (table : Table) (found : List JobSnapshot) : Prop where
  sorted : found.Pairwise fun item other => item.id < other.id
  exact : ∀ item, item ∈ found ↔
    ∃ row ∈ table.rows, item = snapshotOf row ∧ filter.includes item = true

theorem tables_distinct {tables : List Table} :
    ∀ rows ∈ tables.map Table.rows, (rows.map Row.id).Nodup := by
  intro rows hrows
  obtain ⟨table, -, rfl⟩ := List.mem_map.mp hrows
  exact table.distinct

theorem items_sorted {filter : Filter} {read : List Row}
    (hsorted : read.Pairwise fun row other => row.id < other.id) :
    ((read.map snapshotOf).filter filter.includes).Pairwise
      fun item other => item.id < other.id := by
  apply List.Pairwise.sublist List.filter_sublist
  exact List.pairwise_map.mpr hsorted

theorem read_pages_exact (law : u.Lawful) {limit : ℕ} (hlimit : 1 ≤ limit ∧ limit ≤ maxPage)
    (filter : Filter) (table : Table) :
    ∃ pages, readPages u limit filter none
        (List.replicate (table.rows.length / limit + 1) table) = .ok pages ∧
      Complete pages ∧ pages.length ≤ table.rows.length / limit + 1 ∧
      ExactItems filter table (items pages) := by
  obtain ⟨pages, hpages, hreads⟩ := read_pages_eq law hlimit filter given_none
    (List.replicate (table.rows.length / limit + 1) table)
  rw [List.map_replicate] at hreads
  have hremaining : (remaining Row.id none table.rows).length / limit + 1 ≤
      table.rows.length / limit + 1 :=
    Nat.succ_le_succ (Nat.div_le_div_right (List.length_filter_le _ _))
  have hfinished := pages_finished hlimit.1 table.distinct hremaining
  have hkeys : ∀ rows ∈ List.replicate (table.rows.length / limit + 1) table.rows,
      (rows.map Row.id).Nodup := by
    intro rows hrows
    rw [(List.mem_replicate.mp hrows).2]
    exact table.distinct
  have hmem : ∀ row, row ∈ (KeysetPaging.pages Row.id limit none
      (List.replicate (table.rows.length / limit + 1) table.rows)).flatten ↔ row ∈ table.rows := by
    intro row
    constructor
    · intro h
      obtain ⟨rows, hrows, hrow⟩ := mem_pages h
      exact (List.mem_replicate.mp hrows).2 ▸ hrow
    · intro hrow
      refine mem_pages_of_persistent hlimit.1 hkeys hfinished (by simp [After]) ?_
      intro rows hrows
      rw [(List.mem_replicate.mp (List.mem_of_mem_take hrows)).2]
      exact hrow
  refine ⟨pages, hpages, hreads.complete.mpr hfinished, ?_, ?_, ?_⟩
  · rw [hreads.length]
    exact Nat.le_trans (pages_length_le _ _ _) (by simp)
  · rw [hreads.items]
    exact items_sorted (pages_sorted hlimit.1 hkeys)
  · intro item
    rw [hreads.items, List.mem_filter, List.mem_map]
    constructor
    · rintro ⟨⟨row, hrow, rfl⟩, hincluded⟩
      exact ⟨row, (hmem row).mp hrow, rfl, hincluded⟩
    · rintro ⟨row, hrow, rfl, hincluded⟩
      exact ⟨⟨row, (hmem row).mpr hrow, rfl⟩, hincluded⟩

/-- Paged inspection is complete, whatever happens to other rows between two pages. -/
theorem inspection_complete (law : u.Lawful) {limit : ℕ} (hlimit : 1 ≤ limit ∧ limit ≤ maxPage)
    (filter : Filter) :
    (∀ tables, ∃ pages, readPages u limit filter none tables = .ok pages) ∧
    (∀ table, ∃ pages, readPages u limit filter none
        (List.replicate (table.rows.length / limit + 1) table) = .ok pages ∧
      Complete pages ∧ pages.length ≤ table.rows.length / limit + 1 ∧
      ExactItems filter table (items pages)) ∧
    (∀ tables pages, readPages u limit filter none tables = .ok pages → Complete pages →
      ∀ row, (∀ table ∈ tables.take pages.length, row ∈ table.rows) →
        filter.includes (snapshotOf row) = true →
          (items pages).filter (fun item => item.id = row.id) = [snapshotOf row]) := by
  have heq := fun tables => read_pages_eq law hlimit filter given_none tables
  refine ⟨fun tables => ?_, read_pages_exact law hlimit filter, ?_⟩
  · obtain ⟨pages, hpages, -⟩ := heq tables
    exact ⟨pages, hpages⟩
  · intro tables pages hpages hcomplete row hrow hincluded
    obtain ⟨same, hsame, hreads⟩ := heq tables
    cases hsame.symm.trans hpages
    rw [hreads.items]
    refine filter_items_id (pages_sorted hlimit.1 tables_distinct) ?_ hincluded
    refine mem_pages_of_persistent hlimit.1 tables_distinct (hreads.complete.mp hcomplete)
      (by simp [After]) ?_
    intro rows hrows
    rw [← List.map_take, ← hreads.length] at hrows
    obtain ⟨table, htable, rfl⟩ := List.mem_map.mp hrows
    exact hrow table htable

def hexText : ℕ → ℕ → List Char
  | 0, _ => []
  | width + 1, n => hexText width (n / 16) ++ [JsonText.hexDigit (n % 16)]

def readHex (digits : List Char) : ℕ :=
  digits.foldl (fun n c => 16 * n + JsonText.hexValue c) 0

def hyphenate (digits : List Char) : List Char :=
  digits.take 8 ++ '-' :: ((digits.drop 8).take 4 ++ '-' :: ((digits.drop 12).take 4 ++
    '-' :: ((digits.drop 16).take 4 ++ '-' :: digits.drop 20)))

/-- The uuid library on canonical texts; it reads further forms. -/
def canonicalText : UuidText where
  tryParse text :=
    let digits := text.toList.filter (· ≠ '-')
    if digits.length = 32 ∧ hyphenate digits = text.toList ∧
        digits.all (fun c => c ∈ "0123456789abcdef".toList) then
      some (readHex digits)
    else none
  toText id := String.ofList (hyphenate (hexText 32 id))

theorem hex_text_length (width n : ℕ) : (hexText width n).length = width := by
  induction width generalizing n with
  | zero => rfl
  | succ width ih => simp [hexText, ih]

theorem hex_digit_facts {n : ℕ} (h : n < 16) :
    JsonText.hexDigit n ∈ "0123456789abcdef".toList ∧ JsonText.hexValue (JsonText.hexDigit n) = n := by
  have hall : ∀ m < 16, JsonText.hexDigit m ∈ "0123456789abcdef".toList ∧
      JsonText.hexValue (JsonText.hexDigit m) = m := by decide
  exact hall n h

theorem hex_text_mem {width n : ℕ} {c : Char} (h : c ∈ hexText width n) :
    c ∈ "0123456789abcdef".toList := by
  induction width generalizing n with
  | zero => cases h
  | succ width ih =>
    rcases List.mem_append.mp h with h | h
    · exact ih h
    · rw [List.mem_singleton.mp h]
      exact (hex_digit_facts (Nat.mod_lt n (by decide))).1

theorem read_hex_text (width n : ℕ) : readHex (hexText width n) = n % 16 ^ width := by
  induction width generalizing n with
  | zero => simp [hexText, readHex, Nat.mod_one]
  | succ width ih =>
    have hdigit := (hex_digit_facts (Nat.mod_lt n (show 0 < 16 by decide))).2
    simp only [readHex, hexText, List.foldl_append, List.foldl_cons, List.foldl_nil] at ih ⊢
    rw [ih, hdigit, Nat.pow_succ', Nat.mod_mul]
    omega

theorem hyphenate_filter {digits : List Char} (h : '-' ∉ digits) :
    (hyphenate digits).filter (· ≠ '-') = digits := by
  have hkept : ∀ part ⊆ digits, part.filter (· ≠ '-') = part := by
    intro part hpart
    rw [List.filter_eq_self]
    intro c hc
    have hne : c ≠ '-' := fun heq => h (heq ▸ hpart hc)
    simpa using hne
  have htake : ∀ n m, (digits.drop n).take m ⊆ digits := fun n m =>
    fun c hc => List.drop_subset n digits (List.take_subset m _ hc)
  have hdrop : (digits.drop 16).take 4 ++ digits.drop 20 = digits.drop 16 := by
    simpa [List.drop_drop] using List.take_append_drop 4 (digits.drop 16)
  have hdrop' : (digits.drop 12).take 4 ++ digits.drop 16 = digits.drop 12 := by
    simpa [List.drop_drop] using List.take_append_drop 4 (digits.drop 12)
  have hdrop'' : (digits.drop 8).take 4 ++ digits.drop 12 = digits.drop 8 := by
    simpa [List.drop_drop] using List.take_append_drop 4 (digits.drop 8)
  have hdash : ∀ rest : List Char, ('-' :: rest).filter (· ≠ '-') = rest.filter (· ≠ '-') :=
    fun _ => rfl
  simp only [hyphenate, List.filter_append, hdash, hkept _ (List.take_subset 8 digits), hkept _ (htake 8 4), hkept _ (htake 12 4),
    hkept _ (htake 16 4), hkept _ (List.drop_subset 20 digits), hdrop, hdrop', hdrop'',
    List.take_append_drop]

theorem canonical_text_lawful : canonicalText.Lawful := by
  have hdash : ∀ id, '-' ∉ hexText 32 id := fun id h =>
    absurd (hex_text_mem h) (by decide)
  constructor
  · intro id hid
    have hdigits : (hexText 32 id).all (fun c => c ∈ "0123456789abcdef".toList) = true :=
      List.all_eq_true.mpr fun c hc => decide_eq_true (hex_text_mem hc)
    simp only [canonicalText, String.toList_ofList, hyphenate_filter (hdash id), hex_text_length,
      hdigits, read_hex_text, and_self, if_true, Option.some.injEq]
    exact Nat.mod_eq_of_lt (Nat.lt_of_lt_of_eq hid (by decide))
  · intro id _
    have hascii : ∀ c ∈ hyphenate (hexText 32 id), c.toNat < 128 := by
      intro c hc
      by_cases hne : c = '-'
      · subst hne
        decide
      · have hkept : c ∈ (hyphenate (hexText 32 id)).filter (· ≠ '-') := by simp [hc, hne]
        rw [hyphenate_filter (hdash id)] at hkept
        have hall : ∀ d ∈ "0123456789abcdef".toList, d.toNat < 128 := by decide
        exact hall c (hex_text_mem hkept)
    have hbytes : asBytes (String.ofList (hyphenate (hexText 32 id))) =
        (hyphenate (hexText 32 id)).map fun c => UInt8.ofNat c.toNat := by
      rw [as_bytes_ascii (by simpa using hascii), String.toList_ofList]
    rw [canonicalText, hbytes]
    simp [hyphenate, hex_text_length]

def failedRow : Row where
  id := 7
  createdAt := 0
  kind := "mail"
  payload := "1"
  uniqueKey := none
  state := .failed
  failureReason := some .permanent
  attempts := 1
  claimGeneration := 3
  notBefore := 0
  claimExpiresAt := none
  attemptedBy := some 1
  finishedAt := some 5
  errorSummary := some "refused"
  traceContext := none
  traceState := none
  errors := [⟨1, 5, "refused"⟩]
  recoveryHistory := []

def sampleTable : Table where
  observedAt := 10
  rows := [NewJob.row ⟨9, "mail", "2", none, 0, none, none⟩ 6, failedRow]
  distinct := by decide
  nonNil := by decide
  bounded := by decide

theorem inspection_complete_sample :
    ∃ pages, readPages canonicalText 1 .failed none (List.replicate 3 sampleTable) = .ok pages ∧
      Complete pages ∧ pages.length ≤ 3 ∧ ExactItems .failed sampleTable (items pages) :=
  (inspection_complete canonical_text_lawful ⟨by decide, by decide⟩ .failed).2.1 sampleTable

end JobsInspection
