import ServiceTemplate.OrderedExtension
import ServiceTemplate.SharedState
import Mathlib.Data.List.Infix

/-! Migration runs against one database. Runs of any releases interleave: each takes the advisory
lock of its session, reads the history, applies what its release embeds beyond it, and may lose its
client or its session at any point. A service admits the history it finds at its start. -/
namespace MigrationRuns

open TransitionSystem
open SharedState

/-- `no_tx` migrations run outside a transaction. -/
structure Migration where
  version : ℤ
  checksum : List UInt8
  noTx : Bool
  deriving DecidableEq, Repr

structure HistoryRow where
  version : ℤ
  checksum : List UInt8
  success : Bool
  deriving DecidableEq, Repr

structure AppliedMigration where
  version : ℤ
  checksum : List UInt8
  deriving DecidableEq, Repr

inductive MigrateError where
  | dirty (version : ℤ)
  | versionMismatch (version : ℤ)
  | versionMissing (version : ℤ)
  | execute (sqlstate : Option String)
  deriving DecidableEq, Repr

inductive HistoryError where
  | pending
  | mismatch
  | unavailable
  deriving DecidableEq, Repr

inductive RunError where
  | invalidIndexes (version : ℤ) (indexes : String)
  | migrate (error : MigrateError)
  deriving DecidableEq, Repr

structure Report where
  before : Option ℤ
  applied : List ℤ
  deriving DecidableEq, Repr

def undefinedTable : String := "42P01"
def uniqueViolation : String := "23505"

def Migration.row (m : Migration) : HistoryRow := ⟨m.version, m.checksum, true⟩

def HistoryRow.applied (row : HistoryRow) : AppliedMigration := ⟨row.version, row.checksum⟩

def dirtyVersion (rows : List HistoryRow) : Option ℤ :=
  ((rows.filter fun row => !row.success).map HistoryRow.version).min?

def listApplied (rows : List HistoryRow) : List AppliedMigration :=
  (OrderedExtension.ordered HistoryRow.version rows).map HistoryRow.applied

def appliedHistory (rows : List HistoryRow) : Except MigrateError (List AppliedMigration) :=
  match dirtyVersion rows with
  | some version => .error (.dirty version)
  | none => .ok (listApplied rows)

def checkApplied (migrator : List Migration) (applied : AppliedMigration) :
    Except MigrateError Unit :=
  match migrator.find? fun migration => migration.version = applied.version with
  | some embedded =>
    if embedded.checksum ≠ applied.checksum then .error (.versionMismatch applied.version)
    else .ok ()
  | none =>
    if ((migrator.map Migration.version).max?).any fun newest => applied.version < newest then
      .error (.versionMissing applied.version)
    else .ok ()

def checkHistory (migrator : List Migration) : List AppliedMigration → Except MigrateError Unit
  | [] => .ok ()
  | applied :: history =>
    match checkApplied migrator applied with
    | .error error => .error error
    | .ok () => checkHistory migrator history

def pending (migrator : List Migration) (history : List AppliedMigration) :
    Except MigrateError (List Migration) :=
  match checkHistory migrator history with
  | .error error => .error error
  | .ok () =>
    .ok (migrator.filter fun migration =>
      !history.any fun applied => applied.version = migration.version)

/-- What the check answers for a history that was read. -/
def admitHistory (migrator : List Migration) (history : List AppliedMigration) :
    Except HistoryError Unit :=
  match pending migrator history with
  | .ok [] => .ok ()
  | .ok _ => .error .pending
  | .error _ => .error .mismatch

def verifyHistory (migrator : List Migration)
    (check : Option (Except MigrateError (List AppliedMigration))) : Except HistoryError Unit :=
  match check with
  | some (.ok history) => admitHistory migrator history
  | some (.error (.dirty _)) => .error .mismatch
  | some (.error (.execute sqlstate)) =>
    if sqlstate = some undefinedTable then admitHistory migrator [] else .error .unavailable
  | _ => .error .unavailable

def Report.push (report : Report) (m : Migration) : Report :=
  { report with applied := report.applied ++ [m.version] }

def Report.after (report : Report) : Option ℤ :=
  match report.applied.getLast?, report.before with
  | some last, some before => some (max last before)
  | some last, none => some last
  | none, before => before

/-- `executed` are the versions whose statements took effect, and `invalid` the invalid indexes. -/
structure Database (ι : Type*) where
  lock : Option ι
  table : Bool
  rows : List HistoryRow
  executed : List ℤ
  invalid : List String

inductive Stage where
  | connected
  | locked
  | tabled
  | applying (report : Report) (rest : List Migration)
  | building (report : Report) (migration : Migration) (rest : List Migration)
  | recording (report : Report) (migration : Migration) (rest : List Migration)
  | finished (report : Report)
  | failed (error : RunError)
  | ended
  | closed
  deriving DecidableEq

/-- Without its client a session finishes the statement in flight at most, and then ends. -/
structure Session where
  stage : Stage
  client : Bool
  deriving DecidableEq

/-- `left` are invalid indexes that an interrupted build leaves. -/
inductive Event where
  | serve
  | fail (sqlstate : Option String) (left : List String)
  | abandon
  | close (left : List String)

section Database

variable {ι : Type*} [DecidableEq ι]

def Database.answer (d : Database ι) : Except MigrateError (List AppliedMigration) :=
  if d.table then appliedHistory d.rows else .error (.execute (some undefinedTable))

def Database.verify (d : Database ι) (migrator : List Migration) : Except HistoryError Unit :=
  verifyHistory migrator (some d.answer)

/-- The version is the key of the history table. -/
def Database.insert (d : Database ι) (m : Migration) : Option (Database ι) :=
  if d.rows.any fun row => row.version = m.version then none
  else some { d with rows := d.rows ++ [m.row] }

def Database.run (d : Database ι) (m : Migration) : Database ι :=
  { d with executed := d.executed ++ [m.version] }

def Database.release (d : Database ι) (i : ι) : Database ι :=
  if d.lock = some i then { d with lock := none } else d

def Database.interrupt (d : Database ι) (stage : Stage) (left : List String) : Database ι :=
  match stage with
  | .building _ _ _ => { d with invalid := d.invalid ++ left }
  | _ => d

/-- `apply_pending` up to the end of the statement in flight. A migration in a transaction takes
effect together with its row. -/
def serve (migrator : List Migration) (i : ι) (d : Database ι) : Stage → Option (Database ι × Stage)
  | .connected => if d.lock = none then some ({ d with lock := some i }, .locked) else none
  | .locked => some ({ d with table := true }, .tabled)
  | .tabled =>
    match appliedHistory d.rows with
    | .error error => some (d, .failed (.migrate error))
    | .ok history =>
      match pending migrator history with
      | .error error => some (d, .failed (.migrate error))
      | .ok todo =>
        some (d, .applying ⟨(history.map AppliedMigration.version).max?, []⟩ todo)
  | .applying report [] => some (d.release i, .finished report)
  | .applying report (m :: rest) =>
    if m.noTx then
      if d.invalid = [] then some (d, .building report m rest)
      else some (d, .failed (.invalidIndexes m.version (", ".intercalate d.invalid)))
    else
      match (d.run m).insert m with
      | none => some (d, .failed (.migrate (.execute (some uniqueViolation))))
      | some d' => some (d', .applying (report.push m) rest)
  | .building report m rest => some (d.run m, .recording report m rest)
  | .recording report m rest =>
    match d.insert m with
    | none => some (d, .failed (.migrate (.execute (some uniqueViolation))))
    | some d' => some (d', .applying (report.push m) rest)
  | _ => none

def busy : Stage → Bool
  | .finished _ | .failed _ | .ended | .closed => false
  | _ => true

def act (embedded : ι → List Migration) (i : ι) (d : Database ι) (s : Session) :
    Event → Option (Database ι × Session)
  | .serve =>
    (serve (embedded i) i d s.stage).map fun out =>
      (out.1, ⟨if s.client then out.2 else .ended, s.client⟩)
  | .fail sqlstate left =>
    if s.client ∧ busy s.stage then
      some (d.interrupt s.stage left, ⟨.failed (.migrate (.execute sqlstate)), true⟩)
    else none
  | .abandon => if s.client ∧ busy s.stage then some (d, ⟨s.stage, false⟩) else none
  | .close left =>
    match s.stage with
    | .finished _ | .closed => none
    | .failed _ | .ended => some (d.release i, ⟨.closed, s.client⟩)
    | stage =>
      if s.client then none
      else some ((d.interrupt stage left).release i, ⟨.closed, false⟩)

/-- Operators drop the indexes that are invalid, and others may break one. -/
def indexes (d : Database ι) (names : List String) : Option (Database ι) :=
  some { d with invalid := names }

def program (embedded : ι → List Migration) :
    Program ι (Database ι) Session Event (List String) :=
  ⟨act embedded, indexes⟩

def start : World ι (Database ι) Session :=
  ⟨⟨none, false, [], [], []⟩, fun _ => ⟨.connected, true⟩⟩

def runs (embedded : ι → List Migration) :
    System (World ι (Database ι) Session) (Move ι Event (List String)) :=
  (program embedded).system start

end Database

/-- The releases of one service: every release embeds a beginning of the one line of migrations that
the later releases extend at its end. -/
structure Releases (ι : Type*) where
  lineage : List Migration
  embedded : ι → List Migration
  increasing : lineage.Pairwise fun a b => a.version < b.version
  cut : ∀ i, embedded i <+: lineage

variable {ι : Type*} {r : Releases ι} {i : ι} {n : ℕ}

def Releases.history (r : Releases ι) (n : ℕ) : List HistoryRow :=
  (r.lineage.take n).map Migration.row

theorem Releases.version_inj {a b : Migration} (ha : a ∈ r.lineage) (hb : b ∈ r.lineage)
    (h : a.version = b.version) : a = b := by
  have hkeys : (r.lineage.map Migration.version).Nodup :=
    List.pairwise_map.mpr (r.increasing.imp fun hlt heq => absurd heq (ne_of_lt hlt))
  exact OrderedExtension.key_inj hkeys ha hb h

theorem Releases.before_drop {a b : Migration} (ha : a ∈ r.lineage.take n)
    (hb : b ∈ r.lineage.drop n) : a.version < b.version := by
  have h := r.increasing
  rw [← List.take_append_drop n r.lineage] at h
  exact (List.pairwise_append.mp h).2.2 a ha b hb

theorem Releases.embedded_eq (r : Releases ι) (i : ι) :
    r.embedded i = r.lineage.take (r.embedded i).length :=
  List.prefix_iff_eq_take.mp (r.cut i)

theorem Releases.applied_history (r : Releases ι) (n : ℕ) :
    appliedHistory (r.history n) = .ok ((r.history n).map HistoryRow.applied) := by
  have hdirty : dirtyVersion (r.history n) = none := by
    rw [dirtyVersion, Releases.history, List.filter_eq_nil_iff.mpr]
    · rfl
    · intro row hrow
      obtain ⟨m, -, rfl⟩ := List.mem_map.mp hrow
      simp [Migration.row]
  have hsorted : (r.history n).Pairwise fun a b => a.version ≤ b.version := by
    rw [Releases.history, List.pairwise_map]
    exact (r.increasing.sublist (List.take_sublist n _)).imp fun h => le_of_lt h
  rw [appliedHistory, hdirty, listApplied, OrderedExtension.ordered, hsorted.insertionSort_eq]

/-- A migration that this release does not embed is newer than all that it embeds. -/
theorem Releases.check_applied {m : Migration} (hm : m ∈ r.lineage) :
    checkApplied (r.embedded i) ⟨m.version, m.checksum⟩ = .ok () := by
  by_cases hmem : m ∈ r.embedded i
  · have hfind : (r.embedded i).find? (fun other => other.version = m.version) = some m := by
      have hsome : ((r.embedded i).find? (fun other => other.version = m.version)).isSome :=
        List.find?_isSome.mpr ⟨m, hmem, by simp⟩
      obtain ⟨found, hfound⟩ := Option.isSome_iff_exists.mp hsome
      have hversion : found.version = m.version := by simpa using List.find?_some hfound
      have hsame := r.version_inj ((r.cut i).subset (List.mem_of_find?_eq_some hfound)) hm hversion
      exact hsame ▸ hfound
    simp [checkApplied, hfind]
  · have hfind : (r.embedded i).find? (fun other => other.version = m.version) = none := by
      refine List.find?_eq_none.mpr fun found hfound heq => hmem ?_
      rw [← r.version_inj ((r.cut i).subset hfound) hm (of_decide_eq_true heq)]
      exact hfound
    have hlater : m ∈ r.lineage.drop (r.embedded i).length := by
      have hsplit := hm
      rw [← List.take_append_drop (r.embedded i).length r.lineage, ← r.embedded_eq] at hsplit
      exact (List.mem_append.mp hsplit).resolve_left hmem
    simp only [checkApplied, hfind]
    cases hmax : ((r.embedded i).map Migration.version).max? with
    | none => rfl
    | some newest =>
      obtain ⟨found, hfound, rfl⟩ := List.mem_map.mp (List.max?_mem hmax)
      rw [r.embedded_eq] at hfound
      have hlt := r.before_drop hfound hlater
      exact if_neg (by simpa using le_of_lt hlt)

/-- What is pending is what the release embeds beyond the history. -/
theorem Releases.pending_eq (r : Releases ι) (i : ι) (n : ℕ) :
    pending (r.embedded i) ((r.history n).map HistoryRow.applied) = .ok ((r.embedded i).drop n) := by
  have hcheck : ∀ rows : List Migration, (∀ m ∈ rows, m ∈ r.lineage) →
      checkHistory (r.embedded i) ((rows.map Migration.row).map HistoryRow.applied) = .ok () := by
    intro rows hrows
    induction rows with
    | nil => rfl
    | cons m rows ih =>
      have hm : checkApplied (r.embedded i) m.row.applied = .ok () :=
        r.check_applied (hrows m List.mem_cons_self)
      rw [List.map_cons, List.map_cons, checkHistory, hm]
      exact ih fun other hother => hrows other (List.mem_cons_of_mem _ hother)
  rw [pending, Releases.history, hcheck _ fun m hm => List.mem_of_mem_take hm]
  have hany : ∀ m ∈ r.lineage, (((r.lineage.take n).map Migration.row).map HistoryRow.applied).any
      (fun applied => applied.version = m.version) = decide (m ∈ r.lineage.take n) := by
    intro m hm
    rw [Bool.eq_iff_iff]
    simp only [List.map_map, List.any_map, List.any_eq_true, Function.comp_apply, decide_eq_true_eq]
    constructor
    · rintro ⟨other, hother, heq⟩
      exact r.version_inj (List.mem_of_mem_take hother) hm heq ▸ hother
    · exact fun hmem => ⟨m, hmem, rfl⟩
  conv_lhs => rw [← List.take_append_drop n (r.embedded i)]
  rw [List.filter_append, List.filter_eq_nil_iff.mpr, List.filter_eq_self.mpr, List.nil_append]
  · intro m hm
    have hin : m ∈ r.lineage := (r.cut i).subset (List.mem_of_mem_drop hm)
    rw [hany m hin, Bool.not_eq_true', decide_eq_false_iff_not]
    intro htake
    have hdrop : m ∈ r.lineage.drop n := ((r.cut i).drop n).subset hm
    exact lt_irrefl _ (r.before_drop htake hdrop)
  · intro m hm
    rw [hany m ((r.cut i).subset (List.mem_of_mem_take hm))]
    have htake : m ∈ r.lineage.take n := ((r.cut i).take n).subset hm
    simp [htake]

theorem Releases.admit_history (r : Releases ι) (i : ι) (n : ℕ) :
    admitHistory (r.embedded i) ((r.history n).map HistoryRow.applied) =
      if (r.embedded i).length ≤ n then .ok () else .error .pending := by
  rw [admitHistory, r.pending_eq]
  by_cases hle : (r.embedded i).length ≤ n
  · rw [List.drop_eq_nil_of_le hle, if_pos hle]
  · rw [if_neg hle]
    cases hdrop : (r.embedded i).drop n with
    | nil => exact absurd (List.drop_eq_nil_iff.mp hdrop) hle
    | cons => rfl

theorem Releases.next_fresh {m : Migration} {rest : List Migration}
    (h : m :: rest = (r.embedded i).drop n) :
    m ∈ r.lineage ∧ r.history (n + 1) = r.history n ++ [m.row] ∧
      rest = (r.embedded i).drop (n + 1) ∧ ∀ row ∈ r.history n, row.version ≠ m.version := by
  have hlineage : ∃ tail, r.lineage.drop n = m :: tail := by
    obtain ⟨tail, htail⟩ := (r.cut i).drop n
    exact ⟨rest ++ tail, by rw [← htail, ← h, List.cons_append]⟩
  obtain ⟨tail, htail⟩ := hlineage
  have hlt : n < r.lineage.length := by
    by_contra hge
    rw [List.drop_eq_nil_of_le (Nat.le_of_not_lt hge)] at htail
    cases htail
  have hget : r.lineage[n] = m := by
    rw [List.drop_eq_getElem_cons hlt] at htail
    exact (List.cons.inj htail).1
  have hdrop : m ∈ r.lineage.drop n := htail ▸ List.mem_cons_self
  refine ⟨List.mem_of_mem_drop hdrop, ?_, ?_, ?_⟩
  · rw [Releases.history, Releases.history, List.take_succ_eq_append_getElem hlt, hget,
      List.map_append, List.map_singleton]
  · rw [← List.drop_drop, ← h, List.drop_one, List.tail_cons]
  · intro row hrow
    obtain ⟨other, hother, rfl⟩ := List.mem_map.mp hrow
    exact ne_of_lt (r.before_drop hother hdrop)

section Runs

/-- What the report says of the rows that are there. -/
def Ledger (rows : List HistoryRow) (report : Report) : Prop :=
  ∃ base ≤ rows.length, report.before = ((rows.take base).map HistoryRow.version).max? ∧
    report.applied = (rows.drop base).map HistoryRow.version

theorem Ledger.begin (rows : List HistoryRow) :
    Ledger rows ⟨(rows.map HistoryRow.version).max?, []⟩ := by
  refine ⟨rows.length, Nat.le_refl _, ?_, ?_⟩
  · rw [List.take_length]
  · rw [List.drop_length]
    rfl

theorem Ledger.push {rows : List HistoryRow} {report : Report} (h : Ledger rows report)
    (m : Migration) : Ledger (rows ++ [m.row]) (report.push m) := by
  obtain ⟨base, hbase, hbefore, happlied⟩ := h
  refine ⟨base, by simp; omega, ?_, ?_⟩
  · rw [List.take_append_of_le_length hbase]
    exact hbefore
  · rw [List.drop_append_of_le_length hbase, List.map_append, ← happlied]
    rfl

/-- The history is a beginning of the line of migrations. A migration in a transaction has run as
often as it has a row, and every other one with a row has run. -/
structure Consistent (r : Releases ι) (d : Database ι) : Prop where
  history : d.rows = r.history d.rows.length
  once : ∀ m ∈ r.lineage, m.noTx = false →
    d.executed.count m.version = (d.rows.map HistoryRow.version).count m.version
  ran : ∀ m ∈ r.lineage, m.version ∈ d.rows.map HistoryRow.version → m.version ∈ d.executed
  tabled : d.table = false → d.rows = []

def fromHistory : RunError → Bool
  | .migrate (.dirty _) | .migrate (.versionMismatch _) | .migrate (.versionMissing _) => true
  | _ => false

/-- The run holds the lock, and the history table is there. -/
structure Reads (i : ι) (d : Database ι) : Prop where
  lock : d.lock = some i
  table : d.table = true

/-- What a run knows of the database at each of its stages. -/
def Knows (r : Releases ι) (i : ι) (d : Database ι) (s : Session) : Prop :=
  match s.stage with
  | .connected | .closed => d.lock ≠ some i
  | .locked => d.lock = some i
  | .tabled => Reads i d
  | .applying report rest =>
    Reads i d ∧ Ledger d.rows report ∧ rest = (r.embedded i).drop d.rows.length
  | .building report m rest =>
    Reads i d ∧ Ledger d.rows report ∧ m :: rest = (r.embedded i).drop d.rows.length ∧
      m.noTx = true
  | .recording report m rest =>
    Reads i d ∧ Ledger d.rows report ∧ m :: rest = (r.embedded i).drop d.rows.length ∧
      m.noTx = true ∧ m.version ∈ d.executed
  | .finished _ =>
    d.lock ≠ some i ∧ ∃ rows, rows <+: d.rows ∧ (r.embedded i).length ≤ rows.length
  | .failed error => fromHistory error = false
  | .ended => True

structure Change (i : ι) (d d' : Database ι) : Prop where
  lock : ∀ j, j ≠ i → (d'.lock = some j ↔ d.lock = some j)
  grows : d.rows <+: d'.rows
  executed : d.executed ⊆ d'.executed
  table : d.table = true → d'.table = true
  held : d.lock ≠ some i → d'.rows = d.rows

theorem Reads.stable {i j : ι} {d d' : Database ι} (hj : j ≠ i) (hchange : Change i d d')
    (h : Reads j d) : Reads j d' ∧ d'.rows = d.rows :=
  ⟨⟨(hchange.lock j hj).mpr h.lock, hchange.table h.table⟩,
    hchange.held fun hi => hj (Option.some.inj (h.lock.symm.trans hi))⟩

theorem Knows.stable {i j : ι} {d d' : Database ι} {s : Session} (hj : j ≠ i)
    (hchange : Change i d d') (h : Knows r j d s) : Knows r j d' s := by
  unfold Knows at h ⊢
  split at h
  · exact fun hlock => h ((hchange.lock j hj).mp hlock)
  · exact fun hlock => h ((hchange.lock j hj).mp hlock)
  · exact (hchange.lock j hj).mpr h
  · exact (h.stable hj hchange).1
  · obtain ⟨hreads, hrows⟩ := h.1.stable hj hchange
    exact ⟨hreads, by rw [hrows]; exact h.2⟩
  · obtain ⟨hreads, hrows⟩ := h.1.stable hj hchange
    exact ⟨hreads, by rw [hrows]; exact h.2⟩
  · obtain ⟨hreads, hrows⟩ := h.1.stable hj hchange
    exact ⟨hreads, by rw [hrows]; exact ⟨h.2.1, h.2.2.1, h.2.2.2.1, hchange.executed h.2.2.2.2⟩⟩
  · obtain ⟨hlock, rows, hwithin, hrest⟩ := h
    exact ⟨fun hheld => hlock ((hchange.lock j hj).mp hheld), rows,
      hwithin.trans hchange.grows, hrest⟩
  · exact h
  · trivial

theorem Change.refl (i : ι) (d : Database ι) : Change i d d :=
  ⟨fun _ _ => Iff.rfl, List.prefix_rfl, fun _ hv => hv, id, fun _ => rfl⟩

/-- A step that takes, keeps or gives back the lock of its own session only. -/
theorem Change.of_lock {i : ι} {d d' : Database ι} (hrows : d'.rows = d.rows)
    (hexecuted : d'.executed = d.executed) (htable : d.table = true → d'.table = true)
    (h : ∀ j, j ≠ i → (d'.lock = some j ↔ d.lock = some j)) :
    Change i d d' where
  lock := h
  grows := by rw [hrows]
  executed := by rw [hexecuted]; exact fun _ hv => hv
  table := htable
  held _ := hrows

theorem Consistent.of_eq {d d' : Database ι} (h : Consistent r d) (hrows : d'.rows = d.rows)
    (hexecuted : d'.executed = d.executed) (htable : d.table = true → d'.table = true) :
    Consistent r d' where
  history := by rw [hrows]; exact h.history
  once := by rw [hrows, hexecuted]; exact h.once
  ran := by rw [hrows, hexecuted]; exact h.ran
  tabled hnone := by
    rw [hrows]
    cases ht : d.table with
    | false => exact h.tabled ht
    | true => exact absurd (hnone.symm.trans (htable ht)) (by simp)

theorem Consistent.run_build {d : Database ι} (h : Consistent r d) {m : Migration}
    (hm : m ∈ r.lineage) (hbuild : m.noTx = true) : Consistent r (d.run m) where
  history := h.history
  once other hother htx := by
    have hne : m.version ≠ other.version := fun heq => by
      rw [r.version_inj hm hother heq, htx] at hbuild
      cases hbuild
    rw [Database.run, List.count_append, List.count_singleton, if_neg (by simpa using hne)]
    exact h.once other hother htx
  ran other hother hrow := List.mem_append_left _ (h.ran other hother hrow)
  tabled := h.tabled

theorem Consistent.extend {d : Database ι} (h : Consistent r d) (htable : d.table = true)
    {m : Migration} {rest : List Migration} (hnext : m :: rest = (r.embedded i).drop d.rows.length)
    {executed : List ℤ} (hran : m.version ∈ executed) (hmore : d.executed ⊆ executed)
    (hcount : ∀ other ∈ r.lineage, other.noTx = false → executed.count other.version =
      d.executed.count other.version + [m.version].count other.version) :
    Consistent r { d with rows := d.rows ++ [m.row], executed := executed } where
  history := by
    have hrow := (r.next_fresh hnext).2.1
    dsimp only
    rw [List.length_append, List.length_singleton, hrow, ← h.history]
  once other hother htx := by
    dsimp only
    rw [hcount other hother htx, h.once other hother htx, List.map_append, List.count_append]
    rfl
  ran other hother hrow := by
    rw [List.map_append, List.mem_append] at hrow
    rcases hrow with hrow | hrow
    · exact hmore (h.ran other hother hrow)
    · rw [List.map_singleton, List.mem_singleton] at hrow
      exact hrow ▸ hran
  tabled hnone := absurd (htable.symm.trans hnone) (by simp)

theorem insert_fresh {d : Database ι} (h : Consistent r d) {m : Migration} {rest : List Migration}
    (hnext : m :: rest = (r.embedded i).drop d.rows.length) (executed : List ℤ) :
    ({ d with executed := executed } : Database ι).insert m =
      some { d with rows := d.rows ++ [m.row], executed := executed } := by
  refine if_neg fun hany => ?_
  obtain ⟨row, hrow, heq⟩ := List.any_eq_true.mp hany
  dsimp only at hrow
  rw [h.history] at hrow
  exact (r.next_fresh hnext).2.2.2 row hrow (of_decide_eq_true heq)

theorem insert_change {d : Database ι} (hlock : d.lock = some i) (m : Migration)
    {executed : List ℤ} (hmore : d.executed ⊆ executed) :
    Change i d { d with rows := d.rows ++ [m.row], executed := executed } where
  lock _ _ := Iff.rfl
  grows := List.prefix_append _ _
  executed := hmore
  table := id
  held hfree := absurd hlock hfree

variable [DecidableEq ι]

theorem release_change (i : ι) (d : Database ι) : Change i d (d.release i) := by
  rw [Database.release]
  split
  · rename_i hlock
    refine .of_lock rfl rfl id fun j hj => ⟨(fun heq => by cases heq), fun hheld => ?_⟩
    exact absurd (Option.some.inj (hheld.symm.trans hlock)) hj
  · exact .refl i d

theorem release_free (i : ι) (d : Database ι) : (d.release i).lock ≠ some i := by
  rw [Database.release]
  split
  · simp
  · assumption

theorem release_rows (i : ι) (d : Database ι) :
    (d.release i).rows = d.rows ∧ (d.release i).executed = d.executed ∧
      (d.release i).table = d.table := by
  rw [Database.release]
  split <;> exact ⟨rfl, rfl, rfl⟩

/-- The history that a run reads leaves it what its release embeds beyond it. -/
theorem tabled_sound {d d' : Database ι} {stage' : Stage} (h : Consistent r d)
    (hstep : serve (r.embedded i) i d .tabled = some (d', stage')) :
    d' = d ∧ stage' = .applying ⟨(d.rows.map HistoryRow.version).max?, []⟩
      ((r.embedded i).drop d.rows.length) := by
  rw [serve] at hstep
  rw [h.history, r.applied_history] at hstep
  dsimp only at hstep
  rw [r.pending_eq, ← h.history, List.map_map] at hstep
  cases hstep
  exact ⟨rfl, rfl⟩

theorem serve_sound {d d' : Database ι} {stage stage' : Stage} (client : Bool)
    (h : Consistent r d) (hk : Knows r i d ⟨stage, client⟩)
    (hstep : serve (r.embedded i) i d stage = some (d', stage')) :
    Consistent r d' ∧ Knows r i d' ⟨stage', client⟩ ∧ Change i d d' := by
  cases stage with
  | connected =>
    obtain ⟨hfree, heq⟩ := Option.ite_none_right_eq_some.mp hstep
    cases heq
    refine ⟨h.of_eq rfl rfl id, rfl, .of_lock rfl rfl id fun j hj => ⟨fun hheld => ?_, fun hheld => ?_⟩⟩
    · exact absurd (Option.some.inj hheld).symm hj
    · exact absurd (hfree.symm.trans hheld) (by simp)
  | locked =>
    cases hstep
    have htable : d.table = true → true = true := fun _ => rfl
    exact ⟨h.of_eq rfl rfl htable, ⟨hk, rfl⟩, .of_lock rfl rfl htable fun _ _ => Iff.rfl⟩
  | tabled =>
    obtain ⟨rfl, rfl⟩ := tabled_sound h hstep
    exact ⟨h, ⟨hk, .begin _, rfl⟩, .refl i _⟩
  | applying report rest =>
    obtain ⟨hreads, hledger, hrest⟩ := hk
    cases rest with
    | nil =>
      cases hstep
      obtain ⟨hrows, hexecuted, htable⟩ := release_rows i d
      refine ⟨h.of_eq hrows hexecuted htable.trans,
        ⟨release_free i d, d.rows, ?_, ?_⟩, release_change i d⟩
      · rw [hrows]
      · exact List.drop_eq_nil_iff.mp hrest.symm
    | cons m rest =>
      rw [serve] at hstep
      cases htx : m.noTx with
      | true =>
        rw [if_pos htx] at hstep
        split at hstep
        · cases hstep
          exact ⟨h, ⟨hreads, hledger, hrest, htx⟩, .refl i d⟩
        · cases hstep
          exact ⟨h, rfl, .refl i d⟩
      | false =>
        have hmore : d.executed ⊆ d.executed ++ [m.version] := List.subset_append_left _ _
        have hinsert := insert_fresh h hrest (d.executed ++ [m.version])
        rw [if_neg (by simp [htx]), Database.run, hinsert] at hstep
        cases hstep
        refine ⟨h.extend hreads.table hrest (by simp) hmore fun other _ _ => List.count_append, ?_,
          insert_change hreads.lock m hmore⟩
        refine ⟨⟨hreads.lock, hreads.table⟩, hledger.push m, ?_⟩
        rw [(r.next_fresh hrest).2.2.1]
        simp
  | building report m rest =>
    obtain ⟨hreads, hledger, hrest, htx⟩ := hk
    cases hstep
    refine ⟨h.run_build (r.next_fresh hrest).1 htx, ?_, ?_⟩
    · exact ⟨⟨hreads.lock, hreads.table⟩, hledger, hrest, htx, by simp [Database.run]⟩
    · exact ⟨fun _ _ => Iff.rfl, List.prefix_rfl, List.subset_append_left _ _, id, fun _ => rfl⟩
  | recording report m rest =>
    obtain ⟨hreads, hledger, hrest, htx, hran⟩ := hk
    have hinsert := insert_fresh h hrest d.executed
    rw [serve, hinsert] at hstep
    cases hstep
    refine ⟨h.extend hreads.table hrest hran (fun _ hv => hv) fun other hother hother' => ?_, ?_,
      insert_change hreads.lock m fun _ hv => hv⟩
    · have hne : m.version ≠ other.version := fun heq => by
        rw [r.version_inj (r.next_fresh hrest).1 hother heq, hother'] at htx
        cases htx
      rw [List.count_singleton, if_neg (by simpa using hne), Nat.add_zero]
    · refine ⟨⟨hreads.lock, hreads.table⟩, hledger.push m, ?_⟩
      rw [(r.next_fresh hrest).2.2.1]
      simp
  | finished report => cases hstep
  | failed error => cases hstep
  | ended => cases hstep
  | closed => cases hstep

omit [DecidableEq ι] in
theorem interrupt_eq (d : Database ι) (stage : Stage) (left : List String) :
    ∃ invalid, d.interrupt stage left = { d with invalid := invalid } := by
  cases stage with
  | building => exact ⟨_, rfl⟩
  | _ => exact ⟨d.invalid, rfl⟩

theorem act_sound {d d' : Database ι} {s s' : Session} {event : Event}
    (h : Consistent r d) (hk : Knows r i d s) (hstep : act r.embedded i d s event = some (d', s')) :
    Consistent r d' ∧ Knows r i d' s' ∧ Change i d d' := by
  obtain ⟨stage, client⟩ := s
  have hclose : ∀ invalid, Consistent r (({ d with invalid := invalid } : Database ι).release i) ∧
      Knows r i (({ d with invalid := invalid } : Database ι).release i) ⟨.closed, client⟩ ∧
      Change i d (({ d with invalid := invalid } : Database ι).release i) := by
    intro invalid
    obtain ⟨hrows, hexecuted, htable⟩ := release_rows i { d with invalid := invalid }
    exact ⟨h.of_eq hrows hexecuted htable.trans, release_free i _,
      .of_lock hrows hexecuted htable.trans (release_change i { d with invalid := invalid }).lock⟩
  cases event with
  | serve =>
    obtain ⟨⟨d₁, stage₁⟩, hserve, heq⟩ := Option.map_eq_some_iff.mp hstep
    cases heq
    obtain ⟨hcons, hknows, hchange⟩ := serve_sound client h hk hserve
    cases client with
    | true => exact ⟨hcons, hknows, hchange⟩
    | false => exact ⟨hcons, trivial, hchange⟩
  | fail sqlstate left =>
    obtain ⟨-, heq⟩ := Option.ite_none_right_eq_some.mp hstep
    cases heq
    obtain ⟨invalid, hinvalid⟩ := interrupt_eq d stage left
    rw [hinvalid]
    exact ⟨h.of_eq rfl rfl id, rfl, .of_lock rfl rfl id fun _ _ => Iff.rfl⟩
  | abandon =>
    obtain ⟨-, heq⟩ := Option.ite_none_right_eq_some.mp hstep
    cases heq
    exact ⟨h, hk, .refl i d⟩
  | close left =>
    obtain ⟨invalid, hinvalid⟩ := interrupt_eq d stage left
    rw [act] at hstep
    split at hstep
    · cases hstep
    · cases hstep
    · cases hstep
      exact hclose d.invalid
    · cases hstep
      exact hclose d.invalid
    · split at hstep
      · cases hstep
      · rename_i hclient
        rw [Bool.not_eq_true] at hclient
        dsimp only at hstep hinvalid
        rw [hinvalid] at hstep
        cases hstep
        exact hclient ▸ hclose invalid

/-- What each run may rely on while the others go on. -/
def proof (r : Releases ι) : Proof (program r.embedded) where
  inv := Consistent r
  knows := Knows r
  guarantee := Change
  act_sound := act_sound
  act_stable := fun hj hchange hk => hk.stable hj hchange
  env_sound := by
    intro d names d' h henv
    cases henv
    refine ⟨h.of_eq rfl rfl id, fun i s hk => ?_⟩
    obtain ⟨stage, client⟩ := s
    cases stage with
    | tabled => exact ⟨hk.lock, hk.table⟩
    | applying => exact ⟨⟨hk.1.lock, hk.1.table⟩, hk.2⟩
    | building => exact ⟨⟨hk.1.lock, hk.1.table⟩, hk.2⟩
    | recording => exact ⟨⟨hk.1.lock, hk.1.table⟩, hk.2⟩
    | _ => exact hk

theorem start_holds (r : Releases ι) : (proof r).Holds start where
  inv := show Consistent r _ from
    ⟨rfl, fun _ _ _ => rfl, fun _ _ hrow => by simp [start] at hrow, fun _ => rfl⟩
  knows i := show (none : Option ι) ≠ some i by simp

variable {w w' : World ι (Database ι) Session}

theorem reachable_holds (h : (runs r.embedded).Reachable w) : (proof r).Holds w :=
  (proof r).reachable_holds (start_holds r) h

omit [DecidableEq ι] in
theorem verify_consistent {d : Database ι} (h : Consistent r d) (i : ι) :
    d.verify (r.embedded i) =
      if (r.embedded i).length ≤ d.rows.length then .ok () else .error .pending := by
  rw [Database.verify, Database.answer]
  cases htable : d.table with
  | true =>
    have hread : appliedHistory d.rows = .ok (d.rows.map HistoryRow.applied) := by
      rw [h.history]
      exact r.applied_history _
    have hadmit := r.admit_history i d.rows.length
    rw [← h.history] at hadmit
    rw [if_pos rfl, hread]
    exact hadmit
  | false =>
    have hempty := r.admit_history i 0
    rw [if_neg (by simp), verifyHistory, h.tabled htable]
    exact hempty

def working : Stage → Bool
  | .locked | .tabled | .applying _ _ | .building _ _ _ | .recording _ _ _ => true
  | _ => false

omit [DecidableEq ι] in
theorem Knows.working_lock {d : Database ι} {s : Session} (h : Knows r i d s)
    (hworking : working s.stage = true) : d.lock = some i := by
  unfold Knows at h
  split at h <;> rename_i hstage <;> rw [hstage] at hworking
  · cases hworking
  · cases hworking
  · exact h
  · exact h.lock
  · exact h.1.lock
  · exact h.1.lock
  · exact h.1.lock
  · cases hworking
  · cases hworking
  · cases hworking

structure Linear (r : Releases ι) (w : World ι (Database ι) Session) : Prop where
  history : w.shared.rows <+: r.lineage.map Migration.row
  once : ∀ m ∈ r.lineage, m.noTx = false → w.shared.executed.count m.version ≤ 1 ∧
    (m.version ∈ w.shared.executed ↔ m.row ∈ w.shared.rows)
  ran : ∀ m ∈ r.lineage, m.row ∈ w.shared.rows → m.version ∈ w.shared.executed
  alone : ∀ i j, working (w.tasks i).stage = true → working (w.tasks j).stage = true → i = j
  accepted : ∀ i error, (w.tasks i).stage = .failed error → fromHistory error = false

omit [DecidableEq ι] in
theorem Consistent.row_mem {d : Database ι} (h : Consistent r d) {m : Migration}
    (hm : m ∈ r.lineage) : m.version ∈ d.rows.map HistoryRow.version ↔ m.row ∈ d.rows := by
  constructor
  · intro hmem
    obtain ⟨row, hrow, heq⟩ := List.mem_map.mp hmem
    have hfound := hrow
    rw [h.history] at hfound
    obtain ⟨other, hother, rfl⟩ := List.mem_map.mp hfound
    exact r.version_inj (List.mem_of_mem_take hother) hm heq ▸ hrow
  · exact fun hrow => List.mem_map_of_mem hrow

omit [DecidableEq ι] in
theorem Consistent.versions_increasing {d : Database ι} (h : Consistent r d) :
    (d.rows.map HistoryRow.version).Pairwise (· < ·) := by
  rw [h.history, Releases.history, List.map_map]
  exact List.pairwise_map.mpr (r.increasing.sublist (List.take_sublist _ _))

/-- However runs of any releases interleave, fail and lose their clients, the history stays a
beginning of the line of migrations, one run at a time works on it, no run meets a history that it
refuses, and a migration in a transaction takes effect exactly once, with its row. -/
theorem runs_linear (r : Releases ι) (w : World ι (Database ι) Session)
    (h : (runs r.embedded).Reachable w) : Linear r w := by
  have hholds := reachable_holds h
  have hinv : Consistent r w.shared := hholds.inv
  refine ⟨?_, fun m hm htx => ⟨?_, ?_⟩, fun m hm hrow => ?_, fun i j hi hj => ?_, fun i error hi => ?_⟩
  · rw [hinv.history, Releases.history]
    exact (List.take_prefix _ _).map _
  · rw [hinv.once m hm htx]
    exact List.nodup_iff_count_le_one.mp (hinv.versions_increasing.imp ne_of_lt) _
  · rw [← hinv.row_mem hm, ← List.count_pos_iff, hinv.once m hm htx, List.count_pos_iff]
  · exact hinv.ran m hm ((hinv.row_mem hm).mpr hrow)
  · have hlock := (hholds.knows i).working_lock hi
    exact Option.some.inj (hlock.symm.trans ((hholds.knows j).working_lock hj))
  · have hknows : Knows r i w.shared (w.tasks i) := hholds.knows i
    rw [Knows, hi] at hknows
    exact hknows

theorem rows_grow (hw : (runs r.embedded).Reachable w) (h : (runs r.embedded).Execution w w') :
    w.shared.rows <+: w'.shared.rows := by
  have hboth : (runs r.embedded).Reachable w' ∧ w.shared.rows <+: w'.shared.rows := by
    refine System.Execution.preserves (M := runs r.embedded)
      (P := fun t => (runs r.embedded).Reachable t ∧ w.shared.rows <+: t.shared.rows) ?_ h
      ⟨hw, List.prefix_rfl⟩
    rintro s move t ⟨hs, hgrow⟩ hstep
    refine ⟨hs.tail hstep, hgrow.trans ?_⟩
    have hholds := reachable_holds hs
    cases move with
    | act i event =>
      obtain ⟨d, session, hact, rfl⟩ := Program.step_act hstep
      exact (act_sound hholds.inv (hholds.knows i) hact).2.2.grows
    | env names =>
      obtain ⟨d, henv, rfl⟩ := Program.step_env (P := program r.embedded) hstep
      cases henv
      exact List.prefix_rfl
  exact hboth.2

theorem Ledger.after {rows : List HistoryRow} {report : Report} (h : Ledger rows report)
    (hsorted : (rows.map HistoryRow.version).Pairwise (· ≤ ·)) :
    report.after = (rows.map HistoryRow.version).max? := by
  obtain ⟨base, hbase, hbefore, happlied⟩ := h
  have hsplit : rows.map HistoryRow.version =
      (rows.take base).map HistoryRow.version ++ report.applied := by
    rw [happlied, ← List.map_append, List.take_append_drop]
  rw [hsplit] at hsorted ⊢
  rw [Report.after, hbefore]
  rcases List.eq_nil_or_concat report.applied with hnil | ⟨front, last, hlast⟩
  · rw [hnil, List.getLast?_nil, List.append_nil]
  · rw [List.concat_eq_append] at hlast
    rw [hlast] at hsorted
    rw [hlast, List.getLast?_append, List.getLast?_singleton, Option.some_or]
    have hmax : ((rows.take base).map HistoryRow.version ++ (front ++ [last])).max? = some last := by
      rw [List.max?_eq_some_iff, ← List.append_assoc]
      rw [← List.append_assoc] at hsorted
      refine ⟨by simp, fun version hversion => ?_⟩
      rcases List.mem_append.mp hversion with hversion | hversion
      · exact (List.pairwise_append.mp hsorted).2.2 version hversion last (by simp)
      · exact le_of_eq (List.mem_singleton.mp hversion)
    rw [hmax]
    cases hnewest : ((rows.take base).map HistoryRow.version).max? with
    | none => rfl
    | some newest =>
      have hle : newest ≤ last :=
        (List.max?_eq_some_iff.mp hmax).2 newest (List.mem_append_left _ (List.max?_mem hnewest))
      exact congrArg some (max_eq_left hle)

/-- The report of a run that has read the history and has not finished. -/
def openReport : Stage → Option Report
  | .applying report _ | .building report _ _ | .recording report _ _ => some report
  | _ => none

/-- What a step leaves of a run's report: it begins as the history that the step reads, or goes on as
the history does. -/
structure Reporting (d d' : Database ι) (stage : Stage) (report' : Report) : Prop where
  begins : stage = .tabled → d'.rows = d.rows ∧
    report' = ⟨(d.rows.map HistoryRow.version).max?, []⟩
  goes : stage ≠ .tabled → ∃ report, openReport stage = some report ∧
    ((d'.rows = d.rows ∧ report' = report) ∨
      ∃ m : Migration, d'.rows = d.rows ++ [m.row] ∧ report' = report.push m)

omit [DecidableEq ι] in
theorem Reporting.same {d d' : Database ι} {stage : Stage} {report : Report}
    (hopen : openReport stage = some report) (hrows : d'.rows = d.rows) :
    Reporting d d' stage report where
  begins htabled := by
    rw [htabled] at hopen
    cases hopen
  goes _ := ⟨report, hopen, .inl ⟨hrows, rfl⟩⟩

omit [DecidableEq ι] in
theorem Reporting.push {d d' : Database ι} {stage : Stage} {report : Report} {m : Migration}
    {executed : List ℤ} (hopen : openReport stage = some report)
    (hinsert : ({ d with executed := executed } : Database ι).insert m = some d') :
    Reporting d d' stage (report.push m) where
  begins htabled := by
    rw [htabled] at hopen
    cases hopen
  goes _ := by
    obtain ⟨-, heq⟩ := Option.ite_none_left_eq_some.mp hinsert
    cases heq
    exact ⟨report, hopen, .inr ⟨m, rfl, rfl⟩⟩

theorem serve_report {d d' : Database ι} {stage stage' : Stage} {report' : Report}
    (h : Consistent r d) (hstep : serve (r.embedded i) i d stage = some (d', stage'))
    (hopen : openReport stage' = some report') : Reporting d d' stage report' := by
  cases stage with
  | connected =>
    obtain ⟨-, heq⟩ := Option.ite_none_right_eq_some.mp hstep
    cases heq
    cases hopen
  | locked =>
    cases hstep
    cases hopen
  | tabled =>
    obtain ⟨rfl, rfl⟩ := tabled_sound h hstep
    cases hopen
    exact ⟨fun _ => ⟨rfl, rfl⟩, fun hne => absurd rfl hne⟩
  | applying report rest =>
    cases rest with
    | nil =>
      cases hstep
      cases hopen
    | cons m rest =>
      rw [serve] at hstep
      split at hstep
      · split at hstep
        · cases hstep
          cases hopen
          exact .same rfl rfl
        · cases hstep
          cases hopen
      · split at hstep
        · cases hstep
          cases hopen
        · next hinsert =>
          cases hstep
          cases hopen
          exact .push rfl hinsert
  | building report m rest =>
    cases hstep
    cases hopen
    exact .same rfl rfl
  | recording report m rest =>
    rw [serve] at hstep
    split at hstep
    · cases hstep
      cases hopen
    · next hinsert =>
      cases hstep
      cases hopen
      exact .push (d := d) rfl hinsert
  | finished report => cases hstep
  | failed error => cases hstep
  | ended => cases hstep
  | closed => cases hstep

theorem act_close {d d' : Database ι} {s s' : Session} {left : List String}
    (hstep : act r.embedded i d s (.close left) = some (d', s')) : s'.stage = .closed := by
  rw [act] at hstep
  split at hstep
  · cases hstep
  · cases hstep
  · cases hstep
    rfl
  · cases hstep
    rfl
  · obtain ⟨-, heq⟩ := Option.ite_none_left_eq_some.mp hstep
    cases heq
    rfl

theorem act_report {d d' : Database ι} {s s' : Session} {event : Event} {report' : Report}
    (h : Consistent r d) (hstep : act r.embedded i d s event = some (d', s'))
    (hopen : openReport s'.stage = some report') :
    Reporting d d' s.stage report' ∧ (s.stage = .tabled → event = .serve) := by
  cases event with
  | serve =>
    obtain ⟨⟨d₁, stage₁⟩, hserve, heq⟩ := Option.map_eq_some_iff.mp hstep
    cases heq
    dsimp only at hopen
    split at hopen
    · exact ⟨serve_report h hserve hopen, fun _ => rfl⟩
    · cases hopen
  | fail sqlstate left =>
    obtain ⟨-, heq⟩ := Option.ite_none_right_eq_some.mp hstep
    cases heq
    cases hopen
  | abandon =>
    obtain ⟨-, heq⟩ := Option.ite_none_right_eq_some.mp hstep
    cases heq
    refine ⟨.same hopen rfl, fun htabled => ?_⟩
    rw [htabled] at hopen
    cases hopen
  | close left =>
    rw [act_close hstep] at hopen
    cases hopen

theorem serve_finished {migrations : List Migration} {d d' : Database ι} {stage : Stage}
    {report : Report} (hserve : serve migrations i d stage = some (d', .finished report)) :
    stage = .applying report [] := by
  unfold serve at hserve
  split at hserve
  · obtain ⟨-, heq⟩ := Option.ite_none_right_eq_some.mp hserve
    cases heq
  · cases hserve
  · split at hserve
    · cases hserve
    · split at hserve <;> cases hserve
  · cases hserve
    rfl
  · split at hserve
    · split at hserve <;> cases hserve
    · split at hserve <;> cases hserve
  · cases hserve
  · split at hserve <;> cases hserve
  · cases hserve

theorem act_finished {d d' : Database ι} {s s' : Session} {event : Event} {report : Report}
    (hstep : act r.embedded i d s event = some (d', s')) (hdone : s'.stage = .finished report) :
    event = .serve ∧ s.stage = .applying report [] := by
  obtain ⟨stage, client⟩ := s
  cases event with
  | serve =>
    obtain ⟨⟨d₁, stage₁⟩, hserve, heq⟩ := Option.map_eq_some_iff.mp hstep
    cases heq
    dsimp only at hdone hserve
    split at hdone
    · subst hdone
      exact ⟨rfl, serve_finished hserve⟩
    · cases hdone
  | fail sqlstate left =>
    obtain ⟨-, heq⟩ := Option.ite_none_right_eq_some.mp hstep
    cases heq
    cases hdone
  | abandon =>
    obtain ⟨⟨-, hbusy⟩, heq⟩ := Option.ite_none_right_eq_some.mp hstep
    cases heq
    dsimp only at hdone hbusy
    rw [hdone] at hbusy
    cases hbusy
  | close left =>
    rw [act_close hstep] at hdone
    cases hdone

/-- Between a run's reading of the history and this state: the report tells the newest version that
was read and every version that has come since. -/
def Begun (r : Releases ι) (i : ι) (report : Report) (w : World ι (Database ι) Session) : Prop :=
  ∃ u u', (runs r.embedded).Reachable u ∧ (u.tasks i).stage = .tabled ∧
    (runs r.embedded).step u (.act i .serve) = some u' ∧ (runs r.embedded).Execution u' w ∧
    u.shared.rows <+: w.shared.rows ∧
    report.before = (u.shared.rows.map HistoryRow.version).max? ∧
    report.applied = (w.shared.rows.drop u.shared.rows.length).map HistoryRow.version

/-- The run's last step found the whole history that the report tells of. -/
def Reported (r : Releases ι) (i : ι) (report : Report) (w : World ι (Database ι) Session) : Prop :=
  ∃ v v', Begun r i report v ∧ (v.tasks i).stage = .applying report [] ∧
    (runs r.embedded).step v (.act i .serve) = some v' ∧
    (v'.tasks i).stage = .finished report ∧ (runs r.embedded).Execution v' w ∧
    report.after = (v.shared.rows.map HistoryRow.version).max?

theorem Begun.keep {report : Report} {move : Move ι Event (List String)} (h : Begun r i report w)
    (hstep : (runs r.embedded).step w move = some w') (hrows : w'.shared.rows = w.shared.rows) :
    Begun r i report w' := by
  obtain ⟨u, u', hu, htabled, hread, hexec, hgrow, hbefore, happlied⟩ := h
  exact ⟨u, u', hu, htabled, hread, hexec.tail hstep, hrows ▸ hgrow, hbefore, hrows ▸ happlied⟩

theorem Begun.push {report : Report} {move : Move ι Event (List String)} {m : Migration}
    (h : Begun r i report w) (hstep : (runs r.embedded).step w move = some w')
    (hrows : w'.shared.rows = w.shared.rows ++ [m.row]) : Begun r i (report.push m) w' := by
  obtain ⟨u, u', hu, htabled, hread, hexec, hgrow, hbefore, happlied⟩ := h
  refine ⟨u, u', hu, htabled, hread, hexec.tail hstep, ?_, hbefore, ?_⟩
  · rw [hrows]
    exact hgrow.trans (List.prefix_append _ _)
  · rw [hrows, List.drop_append_of_le_length hgrow.length_le, List.map_append, ← happlied]
    rfl

structure Traced (r : Releases ι) (w : World ι (Database ι) Session) : Prop where
  begun : ∀ i report, openReport (w.tasks i).stage = some report → Begun r i report w
  reported : ∀ i report, (w.tasks i).stage = .finished report → Reported r i report w

theorem working_of_open {stage : Stage} {report : Report} (h : openReport stage = some report) :
    working stage = true := by
  cases stage <;> first | rfl | cases h

theorem traced_act {event : Event} {d : Database ι} {session : Session}
    (hw : (runs r.embedded).Reachable w) (h : Traced r w)
    (hact : act r.embedded i w.shared (w.tasks i) event = some (d, session))
    (hstep : (runs r.embedded).step w (.act i event) =
      some ⟨d, Function.update w.tasks i session⟩) :
    Traced r ⟨d, Function.update w.tasks i session⟩ := by
  have hholds := reachable_holds hw
  have hinv : Consistent r w.shared := hholds.inv
  have hchange := (act_sound hinv (hholds.knows i) hact).2.2
  constructor
  · intro j report hopen
    dsimp only at hopen
    by_cases hj : j = i
    · subst hj
      rw [Function.update_self] at hopen
      obtain ⟨hreporting, hserve⟩ := act_report hinv hact hopen
      by_cases htabled : (w.tasks j).stage = .tabled
      · obtain ⟨hrows, rfl⟩ := hreporting.begins htabled
        obtain rfl := hserve htabled
        refine ⟨w, _, hw, htabled, hstep, .refl _, ?_, rfl, ?_⟩
        · rw [hrows]
        · rw [hrows, List.drop_length]
          rfl
      · obtain ⟨before, hbefore, ⟨hrows, rfl⟩ | ⟨m, hrows, rfl⟩⟩ := hreporting.goes htabled
        · exact (h.begun j _ hbefore).keep hstep hrows
        · exact (h.begun j _ hbefore).push hstep hrows
    · rw [Function.update_of_ne hj] at hopen
      -- Another run writes nothing while this one holds the lock.
      have hlock := (hholds.knows j).working_lock (working_of_open hopen)
      have hfree : w.shared.lock ≠ some i := fun hheld =>
        hj (Option.some.inj (hlock.symm.trans hheld))
      exact (h.begun j report hopen).keep hstep (hchange.held hfree)
  · intro j report hdone
    by_cases hj : j = i
    · subst hj
      have hstage := hdone
      dsimp only at hdone
      rw [Function.update_self] at hdone
      obtain ⟨rfl, happlying⟩ := act_finished hact hdone
      have hknows : Knows r j w.shared (w.tasks j) := hholds.knows j
      rw [Knows, happlying] at hknows
      refine ⟨w, _, h.begun j report (by rw [happlying]; rfl), happlying, hstep, hstage, .refl _, ?_⟩
      exact hknows.2.1.after (hinv.versions_increasing.imp le_of_lt)
    · dsimp only at hdone
      rw [Function.update_of_ne hj] at hdone
      obtain ⟨v, v', hbegun, happlying, hlast, hfinished, hexec, hafter⟩ := h.reported j report hdone
      exact ⟨v, v', hbegun, happlying, hlast, hfinished, hexec.tail hstep, hafter⟩

theorem reachable_traced (h : (runs r.embedded).Reachable w) : Traced r w := by
  refine System.Reachable.induction (P := Traced r) ?_ ?_ h
  · constructor
    · intro i report hopen
      cases hopen
    · intro i report hdone
      cases hdone
  · intro s move t hs htraced hstep
    cases move with
    | act i event =>
      obtain ⟨d, session, hact, rfl⟩ := Program.step_act hstep
      exact traced_act hs htraced hact hstep
    | env names =>
      obtain ⟨d, henv, rfl⟩ := Program.step_env (P := program r.embedded) hstep
      cases henv
      constructor
      · intro i report hopen
        exact (htraced.begun i report hopen).keep hstep rfl
      · intro i report hdone
        obtain ⟨v, v', hbegun, happlying, hlast, hfinished, hexec, hafter⟩ :=
          htraced.reported i report hdone
        exact ⟨v, v', hbegun, happlying, hlast, hfinished, hexec.tail hstep, hafter⟩

/-- Startup never finds a divergent history. It is admitted as soon as a run of the release has
finished, and what was admitted once stays admitted whichever releases run after it. A finished run
reports the history it read, what it added to it, and the newest version it left. -/
structure Admission (r : Releases ι) (w w' : World ι (Database ι) Session) : Prop where
  answer : ∀ i, w'.shared.verify (r.embedded i) = .ok () ∨
    w'.shared.verify (r.embedded i) = .error .pending
  kept : ∀ i, w.shared.verify (r.embedded i) = .ok () → w'.shared.verify (r.embedded i) = .ok ()
  finished : ∀ i report, (w.tasks i).stage = .finished report →
    w'.shared.verify (r.embedded i) = .ok () ∧ Reported r i report w

theorem admission_kept (r : Releases ι) (w w' : World ι (Database ι) Session)
    (hw : (runs r.embedded).Reachable w) (h : (runs r.embedded).Execution w w') :
    Admission r w w' := by
  have hholds := reachable_holds hw
  have hinv : Consistent r w.shared := hholds.inv
  have hinv' : Consistent r w'.shared := (reachable_holds (hw.after h)).inv
  have hgrow := rows_grow hw h
  have hadmitted : ∀ i, (r.embedded i).length ≤ w'.shared.rows.length →
      w'.shared.verify (r.embedded i) = .ok () := fun i hle => by
    rw [verify_consistent hinv', if_pos hle]
  refine ⟨fun i => ?_, fun i hi => ?_, fun i report hi => ?_⟩
  · rw [verify_consistent hinv']
    split
    · exact .inl rfl
    · exact .inr rfl
  · refine hadmitted i (Nat.le_trans ?_ hgrow.length_le)
    rw [verify_consistent hinv] at hi
    by_contra hle
    rw [if_neg hle] at hi
    cases hi
  · refine ⟨?_, (reachable_traced hw).reported i report hi⟩
    have hknows : Knows r i w.shared (w.tasks i) := hholds.knows i
    rw [Knows, hi] at hknows
    obtain ⟨-, rows, hrows, hle⟩ := hknows
    exact hadmitted i (Nat.le_trans hle (hrows.trans hgrow).length_le)

end Runs

/-- The second migration builds an index outside a transaction, and the older release has the first
one only. -/
def widgets : Releases Bool where
  lineage := [⟨1, [1], false⟩, ⟨2, [2], true⟩]
  embedded newer := if newer then [⟨1, [1], false⟩, ⟨2, [2], true⟩] else [⟨1, [1], false⟩]
  increasing := by decide
  cut newer := by cases newer <;> decide

/-- The newer release waits for the older one, and its build loses the client. -/
def abandonedTrace : List (Move Bool Event (List String)) :=
  List.replicate 5 (.act false .serve) ++ List.replicate 4 (.act true .serve) ++
    [.act true .abandon, .act true (.close ["widgets_sku"])]

theorem runs_linear_abandoned : ∃ w, (runs widgets.embedded).Reachable w ∧
    w.shared.invalid = ["widgets_sku"] ∧ Linear widgets w := by
  have hrun : ((runs widgets.embedded).run (runs widgets.embedded).initial abandonedTrace).any
      (fun w => decide (w.shared.invalid = ["widgets_sku"])) = true := by
    decide
  obtain ⟨w, hw, hinvalid⟩ := (Option.any_eq_true _ _).mp hrun
  exact ⟨w, ⟨abandonedTrace, hw⟩, of_decide_eq_true hinvalid, runs_linear widgets w ⟨_, hw⟩⟩

theorem admission_kept_abandoned : ∃ w w',
    w'.shared.verify (widgets.embedded false) = .ok () ∧ Admission widgets w w' := by
  have hrun : (((runs widgets.embedded).run (runs widgets.embedded).initial
      (List.replicate 5 (.act false .serve))).bind fun w =>
        ((runs widgets.embedded).run w (abandonedTrace.drop 5)).map fun w' => (w, w')).any
      (fun pair => decide (pair.2.shared.verify (widgets.embedded false) = .ok ())) = true := by
    decide
  obtain ⟨⟨w, w'⟩, hpair, hverify⟩ := (Option.any_eq_true _ _).mp hrun
  obtain ⟨u, hu, hrest⟩ := Option.bind_eq_some_iff.mp hpair
  obtain ⟨u', hu', heq⟩ := Option.map_eq_some_iff.mp hrest
  cases heq
  exact ⟨w, w', of_decide_eq_true hverify, admission_kept widgets w w' ⟨_, hu⟩ ⟨_, hu'⟩⟩

end MigrationRuns
