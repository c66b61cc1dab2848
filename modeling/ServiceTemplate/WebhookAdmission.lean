import ServiceTemplate.WebhookInbound

/-! Exactly-once admission of inbound webhooks.
The receipt table is the replay of the committed admissions and removals, the jobs of the
receiver's kind are the admissions in the same order, and an effect of the consumer commits
with the only completion of its job. -/
namespace WebhookAdmission

open TransitionSystem
open JobsTable
open JobsLedger
open JobsFencing
open JobsSystem (TxId Coupled)
open WebhookInbound

def apply (key : Key) (held : Option Admission) : Mark → Option Admission
  | .admitted admission => if admission.key = key then some admission else held
  | .removed removed _ => if removed = key then none else held

def retained (marks : List Mark) (key : Key) : Option Admission := marks.foldl (apply key) none

def admission? : Mark → Option Admission
  | .admitted admission => some admission
  | .removed _ _ => none

def admissions (marks : List Mark) : List Admission := marks.filterMap admission?

@[simp] theorem retained_snoc (marks : List Mark) (mark : Mark) (key : Key) :
    retained (marks ++ [mark]) key = apply key (retained marks key) mark := by
  simp [retained]

@[simp] theorem mem_admissions {marks : List Mark} {admission : Admission} :
    admission ∈ admissions marks ↔ .admitted admission ∈ marks := by
  constructor
  · intro h
    rcases List.mem_filterMap.mp h with ⟨mark, hmark, heq⟩
    cases mark <;> cases heq
    exact hmark
  · intro h
    exact List.mem_filterMap.mpr ⟨_, h, rfl⟩

@[simp] theorem admissions_snoc (marks : List Mark) (admission : Admission) :
    admissions (marks ++ [.admitted admission]) = admissions marks ++ [admission] := by
  simp [admissions, admission?]

@[simp] theorem admissions_removed (marks : List Mark) (keys : List Key) (stamp : Time) :
    admissions (marks ++ keys.map fun key => .removed key stamp) = admissions marks := by
  have hnone : (keys.map fun key => Mark.removed key stamp).filterMap admission? = [] := by
    simp [List.filterMap_eq_nil_iff, admission?]
  rw [admissions, List.filterMap_append, hnone, List.append_nil]
  rfl

/-- A receipt is admitted only while its key has none, and removed only when it is older than
the retention. -/
def Allowed (marks : List Mark) : Mark → Prop
  | .admitted admission => retained marks admission.key = none
  | .removed key stamp => ∃ admission, retained marks key = some admission ∧
      admission.receivedAt < stamp - retentionMicros

inductive History : List Mark → Prop where
  | nil : History []
  | snoc {marks : List Mark} {mark : Mark} (h : History marks) (hmark : Allowed marks mark) :
      History (marks ++ [mark])

theorem History.last {marks : List Mark} {mark : Mark} (h : History (marks ++ [mark])) :
    History marks ∧ Allowed marks mark := by
  generalize heq : marks ++ [mark] = full at h
  cases h with
  | nil => simp at heq
  | snoc h hmark =>
    rcases List.append_inj' heq rfl with ⟨rfl, hlast⟩
    cases hlast
    exact ⟨h, hmark⟩

theorem History.of_append {marks more : List Mark} (h : History (marks ++ more)) :
    History marks := by
  induction more using List.reverseRecOn with
  | nil => simpa using h
  | append_singleton more mark ih =>
    rw [← List.append_assoc] at h
    exact ih h.last.1

/-- Until its removal an admission keeps its key taken. -/
theorem retained_until_removed (before after : List Mark) (admission : Admission)
    (h : ∀ stamp, .removed admission.key stamp ∉ after) :
    (retained (before ++ .admitted admission :: after) admission.key).isSome = true := by
  induction after using List.reverseRecOn with
  | nil => simp [apply]
  | append_singleton after mark ih =>
    rw [← List.cons_append, ← List.append_assoc, retained_snoc]
    have hrest := ih fun stamp hmem => h stamp (by simp [hmem])
    cases mark with
    | admitted other =>
      by_cases hkey : other.key = admission.key
      · simp [apply, hkey]
      · simpa [apply, hkey] using hrest
    | removed key stamp =>
      by_cases hkey : key = admission.key
      · exact absurd (by simp [hkey]) (h stamp)
      · simpa [apply, hkey] using hrest

/-- Two admissions of one key have a removal of it between them. -/
theorem History.alternates {l₁ l₂ l₃ : List Mark} {a b : Admission}
    (h : History (l₁ ++ .admitted a :: (l₂ ++ .admitted b :: l₃))) (hkey : a.key = b.key) :
    ∃ stamp, .removed a.key stamp ∈ l₂ := by
  by_contra hnone
  have hsplit : l₁ ++ .admitted a :: (l₂ ++ .admitted b :: l₃) =
      (l₁ ++ .admitted a :: l₂) ++ [.admitted b] ++ l₃ := by simp
  rw [hsplit] at h
  have hfree : retained (l₁ ++ .admitted a :: l₂) b.key = none := h.of_append.last.2
  have hheld := retained_until_removed l₁ l₂ a (not_exists.mp hnone)
  rw [hkey, hfree] at hheld
  cases hheld

theorem History.removed_old {l₁ l₂ : List Mark} {key : Key} {stamp : Time}
    (h : History (l₁ ++ .removed key stamp :: l₂)) : ∃ admission, retained l₁ key = some admission ∧
      admission.receivedAt < stamp - retentionMicros := by
  have hsplit : l₁ ++ .removed key stamp :: l₂ = l₁ ++ [.removed key stamp] ++ l₂ := by simp
  rw [hsplit] at h
  exact h.of_append.last.2

theorem retained_removed (marks : List Mark) (keys : List Key) (stamp : Time) (key : Key) :
    retained (marks ++ keys.map fun key => .removed key stamp) key =
      if key ∈ keys then none else retained marks key := by
  induction keys using List.reverseRecOn with
  | nil => simp
  | append_singleton keys removed ih =>
    rw [List.map_append, ← List.append_assoc, List.map_singleton, retained_snoc, ih]
    by_cases hkey : removed = key
    · simp [apply, hkey]
    · simp [apply, hkey, Ne.symm hkey]

/-- A batch removes different keys, so each of them is still retained when its turn comes. -/
theorem History.remove {marks : List Mark} (h : History marks) {keys : List Key} {stamp : Time}
    (hnodup : keys.Nodup) (hold : ∀ key ∈ keys, ∃ admission, retained marks key = some admission ∧
      admission.receivedAt < stamp - retentionMicros) :
    History (marks ++ keys.map fun key => .removed key stamp) := by
  induction keys using List.reverseRecOn with
  | nil => simpa using h
  | append_singleton keys key ih =>
    rw [List.map_append, ← List.append_assoc]
    rcases List.nodup_append.mp hnodup with ⟨hkeys, -, happart⟩
    rcases hold key (by simp) with ⟨admission, hheld, hlate⟩
    refine .snoc (ih hkeys fun k hk => hold k (by simp [hk])) ⟨admission, ?_, hlate⟩
    rw [retained_removed, if_neg]
    · exact hheld
    · intro hmem
      exact happart key hmem key (by simp) rfl

def processed? (creation : JobId × String × String) : Option (JobId × String) :=
  if creation.2.1 = kindName then some (creation.1, creation.2.2) else none

/-- The created jobs of the receiver's kind, with their payloads, in commit order. -/
def processJobs (log : List Change) : List (JobId × String) :=
  (creations log).filterMap processed?

def Admission.created (admission : Admission) : JobId × String :=
  (admission.job, admission.incoming.payload)

structure Tables (s : State) : Prop where
  jobs : Coupled s.jobs
  history : History s.marks
  receipts : ∀ key, s.receipts key = (retained s.marks key).map Admission.receivedAt
  created : processJobs s.jobs.log = (admissions s.marks).map Admission.created

theorem process_jobs_append (log ws : List Change) :
    processJobs (log ++ ws) = processJobs log ++ processJobs ws := by
  simp [processJobs, creations]

/-- Steps of other code create no job of the receiver's kind. -/
theorem Tables.jobs_step {s : State} (h : Tables s) {e : JobsSystem.Event}
    {jobs : JobsSystem.State} (hstep : JobsSystem.step s.jobs e = some jobs)
    (hkind : ∀ job now, e = .enqueue job now → job.kind ≠ kindName) :
    Tables { s with jobs := jobs } := by
  refine ⟨JobsSystem.step_coupled h.jobs hstep, h.history, h.receipts, ?_⟩
  rcases (JobsSystem.step_frame h.jobs hstep).2 with ⟨ws, hlog, hws⟩
  have hnone : processJobs ws = [] := by
    apply List.filterMap_eq_nil_iff.mpr
    intro creation hcreation
    rcases List.mem_filterMap.mp hcreation with ⟨w, hw, hread⟩
    by_cases hcause : w.cause = .enqueued
    · rcases hws w hw hcause with ⟨job, now, rfl, rfl⟩
      cases hread
      simp [processed?, NewJob.row, hkind job now rfl]
    · cases hcause' : w.cause <;> simp_all [Change.creation]
  rw [hlog, process_jobs_append, hnone, List.append_nil]
  exact h.created

/-- Without a unique key an enqueue always creates its job. -/
theorem enqueue_unkeyed {s t : JobsSystem.State} {job : NewJob} {now : Time}
    (hkey : job.uniqueKey = none) (h : JobsSystem.enqueue s job now = some t) :
    t = s.record ⟨job.id, .enqueued, none, some (job.row now)⟩ := by
  have hconflict : (job.row now).conflictsIn s.rows = false := by
    simp [Row.conflictsIn, NewJob.row, hkey]
  simp only [JobsSystem.enqueue, hconflict] at h
  split at h
  · cases h
  · cases h
    rfl

/-- The receipt and the job of one delivery become visible in one commit. -/
theorem Tables.admit {s : State} (h : Tables s) (admission : Admission) {job : NewJob}
    {stamp : Time} {jobs : JobsSystem.State} (hid : job.id = admission.job)
    (hkind : job.kind = kindName) (hpayload : job.payload = admission.incoming.payload)
    (hkey : job.uniqueKey = none) (hfree : s.receipts admission.key = none)
    (hop : JobsSystem.enqueue s.jobs job stamp = some jobs) :
    Tables { s with
      jobs := jobs
      receipts := Function.update s.receipts admission.key (some admission.receivedAt)
      marks := s.marks ++ [.admitted admission] } := by
  refine ⟨JobsSystem.step_coupled (e := .enqueue job stamp) h.jobs hop, ?_, ?_, ?_⟩
  · refine .snoc h.history ?_
    have hnone := h.receipts admission.key
    rw [hfree, eq_comm, Option.map_eq_none_iff] at hnone
    exact hnone
  · intro key
    by_cases hk : admission.key = key
    · subst hk
      simp [apply]
    · simp [apply, hk, Function.update_of_ne (Ne.symm hk), h.receipts key]
  · have hlog : jobs.log = s.jobs.log ++ [⟨job.id, .enqueued, none, some (job.row stamp)⟩] := by
      rw [enqueue_unkeyed hkey hop]
      rfl
    have hnew : processJobs [⟨job.id, .enqueued, none, some (job.row stamp)⟩] =
        [Admission.created admission] := by
      simp [processJobs, creations, Change.creation, processed?, NewJob.row, hkind, hpayload, hid,
        Admission.created]
    rw [admissions_snoc, List.map_append, ← h.created]
    simp only [hlog, process_jobs_append, hnew, List.map_singleton]

theorem Tables.expired_retained {s : State} (h : Tables s) {stamp : Time} {key : Key}
    (hexpired : s.expired stamp key = true) : ∃ admission, retained s.marks key = some admission ∧
      admission.receivedAt < stamp - retentionMicros := by
  rw [State.expired, h.receipts key] at hexpired
  cases hheld : retained s.marks key with
  | none => simp [hheld] at hexpired
  | some admission => exact ⟨admission, rfl, by simpa [hheld] using hexpired⟩

theorem Tables.remove {s : State} (h : Tables s) {keys : List Key} {stamp : Time}
    (hnodup : keys.Nodup) (hexpired : ∀ key ∈ keys, s.expired stamp key = true) :
    Tables { s with
      receipts := fun key => if key ∈ keys then none else s.receipts key
      marks := s.marks ++ keys.map fun key => .removed key stamp } := by
  refine ⟨h.jobs, h.history.remove hnodup fun key hkey => h.expired_retained (hexpired key hkey),
    ?_, ?_⟩
  · intro key
    rw [retained_removed]
    by_cases hkey : key ∈ keys
    · simp [hkey]
    · simp [hkey, h.receipts key]
  · simpa using h.created

def Phase.holds : Phase → Bool
  | .inserted | .enqueued _ _ => true
  | _ => false

def Cleanup.holder (c : CleanupId) (batch : Cleanup) : Holder :=
  if batch.deleted then .deleting c else .locking c

/-- An uncommitted insert owns its identity and finds no receipt there; a batch owns expired
receipts. -/
structure Locks (s : State) : Prop where
  inserting : ∀ a d, s.deliveries a = some d → Phase.holds d.phase = true →
    s.holders d.incoming.key = some (.inserting a) ∧ s.receipts d.incoming.key = none
  cleaning : ∀ c batch, s.cleanups c = some batch → batch.keys.Nodup ∧ batch.stamp ≤ s.clock ∧
    ∀ key ∈ batch.keys, s.expired batch.stamp key = true ∧
      s.holders key = some (Cleanup.holder c batch)

theorem holder_not_inserting (c : CleanupId) (batch : Cleanup) (a : DeliveryId) :
    Cleanup.holder c batch ≠ .inserting a := by
  by_cases h : batch.deleted <;> simp [Cleanup.holder, h]

theorem holder_injective {c c' : CleanupId} {batch batch' : Cleanup}
    (h : Cleanup.holder c batch = Cleanup.holder c' batch') : c = c' := by
  by_cases hb : batch.deleted <;> by_cases hb' : batch'.deleted <;>
    simp_all [Cleanup.holder]

theorem expired_taken {s : State} {stamp : Time} {key : Key} (h : s.expired stamp key = true) :
    s.receipts key ≠ none := by
  intro hnone
  simp [State.expired, hnone] at h

theorem Locks.set {s : State} (h : Locks s) {a : DeliveryId} {d : Delivery}
    (hd : Phase.holds d.phase = true → s.holders d.incoming.key = some (.inserting a) ∧
      s.receipts d.incoming.key = none) : Locks (s.set a d) := by
  refine ⟨?_, h.cleaning⟩
  intro b d' hd' hholds
  by_cases hb : b = a
  · subst hb
    simp only [State.set, Function.update_self, Option.some.injEq] at hd'
    subst hd'
    exact hd hholds
  · simp only [State.set, Function.update_of_ne hb] at hd'
    exact h.inserting b d' hd' hholds

theorem Locks.insert {s : State} (h : Locks s) {a : DeliveryId} {d : Delivery}
    (hfree : s.blocked d.incoming.key = false) (hnone : s.receipts d.incoming.key = none) :
    Locks ((s.set a d).hold d.incoming.key (some (.inserting a))) := by
  refine ⟨?_, ?_⟩
  · intro b d' hd' hholds
    by_cases hb : b = a
    · subst hb
      simp only [State.set, State.hold, Function.update_self, Option.some.injEq] at hd'
      subst hd'
      exact ⟨Function.update_self _ _ _, hnone⟩
    · simp only [State.set, State.hold, Function.update_of_ne hb] at hd'
      rcases h.inserting b d' hd' hholds with ⟨hholder, hreceipt⟩
      refine ⟨?_, hreceipt⟩
      have hkey : d'.incoming.key ≠ d.incoming.key := by
        intro heq
        simp [State.blocked, ← heq, hholder] at hfree
      exact (Function.update_of_ne hkey _ _).trans hholder
  · intro c batch hbatch
    rcases h.cleaning c batch hbatch with ⟨hnodup, hstamp, hkeys⟩
    refine ⟨hnodup, hstamp, fun key hkey => ⟨(hkeys key hkey).1, ?_⟩⟩
    have hne : key ≠ d.incoming.key := by
      rintro rfl
      exact expired_taken (hkeys _ hkey).1 hnone
    exact (Function.update_of_ne hne _ _).trans (hkeys key hkey).2

theorem Locks.admit {s : State} (h : Locks s) {a : DeliveryId} {d d' : Delivery} {receivedAt : Time}
    {jobs : JobsSystem.State} {marks : List Mark}
    (hholder : s.holders d.incoming.key = some (.inserting a))
    (hd' : Phase.holds d'.phase = false) :
    Locks { ((s.set a d').hold d.incoming.key none) with
      jobs := jobs
      receipts := Function.update s.receipts d.incoming.key (some receivedAt)
      marks := marks } := by
  refine ⟨?_, ?_⟩
  · intro b other hother hholds
    by_cases hb : b = a
    · subst hb
      simp only [State.set, State.hold, Function.update_self, Option.some.injEq] at hother
      subst hother
      rw [hd'] at hholds
      cases hholds
    · simp only [State.set, State.hold, Function.update_of_ne hb] at hother
      rcases h.inserting b other hother hholds with ⟨hkept, hreceipt⟩
      have hkey : other.incoming.key ≠ d.incoming.key := by
        intro heq
        rw [heq, hholder, Option.some.injEq, Holder.inserting.injEq] at hkept
        exact hb hkept.symm
      exact ⟨(Function.update_of_ne hkey _ _).trans hkept,
        (Function.update_of_ne hkey _ _).trans hreceipt⟩
  · intro c batch hbatch
    rcases h.cleaning c batch hbatch with ⟨hnodup, hstamp, hkeys⟩
    refine ⟨hnodup, hstamp, fun key hkey => ?_⟩
    have hne : key ≠ d.incoming.key := by
      rintro rfl
      have hheld := (hkeys _ hkey).2
      rw [hholder, Option.some.injEq] at hheld
      exact holder_not_inserting c batch a hheld.symm
    simp only [State.expired, State.hold, Function.update_of_ne hne]
    exact hkeys key hkey

theorem Locks.rollback {s : State} (h : Locks s) {a : DeliveryId} {d : Delivery}
    (hd : Phase.holds d.phase = false) :
    Locks { s.set a d with
      holders := fun key =>
        if s.holders key = some (.inserting a) then none else s.holders key } := by
  refine ⟨?_, ?_⟩
  · intro b other hother hholds
    by_cases hb : b = a
    · subst hb
      simp only [State.set, Function.update_self, Option.some.injEq] at hother
      subst hother
      rw [hd] at hholds
      cases hholds
    · simp only [State.set, Function.update_of_ne hb] at hother
      rcases h.inserting b other hother hholds with ⟨hkept, hreceipt⟩
      exact ⟨by simp [hkept, hb], hreceipt⟩
  · intro c batch hbatch
    rcases h.cleaning c batch hbatch with ⟨hnodup, hstamp, hkeys⟩
    refine ⟨hnodup, hstamp, fun key hkey => ⟨(hkeys key hkey).1, ?_⟩⟩
    simp [(hkeys key hkey).2, holder_not_inserting]

theorem Locks.unheld {s : State} (h : Locks s) (keys : List Key)
    (hkeys : ∀ key ∈ keys, ∀ a, s.holders key ≠ some (.inserting a)) {a : DeliveryId}
    {d : Delivery} (hd : s.deliveries a = some d) (hholds : Phase.holds d.phase = true) :
    d.incoming.key ∉ keys := by
  intro hmem
  exact hkeys _ hmem a (h.inserting a d hd hholds).1

theorem Locks.cleanup_lock {s t : State} (h : Locks s) {c : CleanupId} {stamp : Time}
    {keys : List Key} (hop : cleanupLock s c stamp keys = some t) : Locks t := by
  simp only [cleanupLock] at hop
  split at hop
  · next hguard =>
    rcases hguard with ⟨-, hstamp, -, hnodup, hkeys⟩
    cases hop
    have hnone : ∀ key ∈ keys, s.holders key = none := fun key hkey => by
      simpa using (hkeys key hkey).2
    refine ⟨?_, ?_⟩
    · intro a d hd hholds
      have hout := h.unheld keys (fun key hkey a => by simp [hnone key hkey]) hd hholds
      simpa [hout] using h.inserting a d hd hholds
    · intro c' batch hbatch
      by_cases hc : c' = c
      · subst hc
        simp only [Function.update_self, Option.some.injEq] at hbatch
        subst hbatch
        exact ⟨hnodup, hstamp, fun key hkey => ⟨(hkeys key hkey).1, by
          simp [hkey, Cleanup.holder]⟩⟩
      · simp only [Function.update_of_ne hc] at hbatch
        rcases h.cleaning c' batch hbatch with ⟨hnodup', hstamp', hkeys'⟩
        refine ⟨hnodup', hstamp', fun key hkey => ⟨(hkeys' key hkey).1, ?_⟩⟩
        have hout : key ∉ keys := by
          intro hmem
          have hheld := (hkeys' key hkey).2
          rw [hnone key hmem] at hheld
          cases hheld
        simpa [hout] using (hkeys' key hkey).2
  · cases hop

theorem Locks.other_batch {s : State} (h : Locks s) {c c' : CleanupId} {batch batch' : Cleanup}
    (hc : s.cleanups c = some batch) (hc' : s.cleanups c' = some batch') (hne : c' ≠ c) :
    ∀ key ∈ batch'.keys, key ∉ batch.keys := by
  intro key hkey' hkey
  have hheld := ((h.cleaning c batch hc).2.2 key hkey).2
  have hheld' := ((h.cleaning c' batch' hc').2.2 key hkey').2
  rw [hheld, Option.some.injEq] at hheld'
  exact hne (holder_injective hheld').symm

theorem Locks.batch_unheld {s : State} (h : Locks s) {c : CleanupId} {batch : Cleanup}
    (hc : s.cleanups c = some batch) {a : DeliveryId} {d : Delivery}
    (hd : s.deliveries a = some d) (hholds : Phase.holds d.phase = true) :
    d.incoming.key ∉ batch.keys := by
  refine h.unheld _ ?_ hd hholds
  intro key hkey a hheld
  rw [((h.cleaning c batch hc).2.2 key hkey).2, Option.some.injEq] at hheld
  exact holder_not_inserting c batch a hheld

theorem Locks.cleanup_delete {s t : State} (h : Locks s) {c : CleanupId}
    (hop : cleanupDelete s c = some t) : Locks t := by
  simp only [cleanupDelete] at hop
  split at hop
  · cases hop
  next batch hbatch =>
  split at hop
  · cases hop
  cases hop
  refine ⟨?_, ?_⟩
  · intro a d hd hholds
    have hout := h.batch_unheld hbatch hd hholds
    simpa [hout] using h.inserting a d hd hholds
  · intro c' batch' hbatch'
    by_cases hc : c' = c
    · subst hc
      simp only [Function.update_self, Option.some.injEq] at hbatch'
      subst hbatch'
      rcases h.cleaning c' batch hbatch with ⟨hnodup, hstamp, hkeys⟩
      exact ⟨hnodup, hstamp, fun key hkey => ⟨(hkeys key hkey).1, by
        simp [hkey, Cleanup.holder]⟩⟩
    · simp only [Function.update_of_ne hc] at hbatch'
      rcases h.cleaning c' batch' hbatch' with ⟨hnodup, hstamp, hkeys⟩
      refine ⟨hnodup, hstamp, fun key hkey => ⟨(hkeys key hkey).1, ?_⟩⟩
      simpa [h.other_batch hbatch hbatch' hc key hkey] using (hkeys key hkey).2

theorem Locks.release {s : State} (h : Locks s) {c : CleanupId} {batch : Cleanup}
    (hbatch : s.cleanups c = some batch) {receipts : Key → Option Time} (marks : List Mark)
    (hreceipts : ∀ key, key ∉ batch.keys → receipts key = s.receipts key) :
    Locks { s.release c batch.keys with receipts := receipts, marks := marks } := by
  refine ⟨?_, ?_⟩
  · intro a d hd hholds
    have hout := h.batch_unheld hbatch hd hholds
    have hkept := h.inserting a d hd hholds
    refine ⟨?_, (hreceipts _ hout).trans hkept.2⟩
    simpa [State.release, hout] using hkept.1
  · intro c' batch' hbatch'
    by_cases hc : c' = c
    · subst hc
      simp [State.release] at hbatch'
    · simp only [State.release, Function.update_of_ne hc] at hbatch'
      rcases h.cleaning c' batch' hbatch' with ⟨hnodup, hstamp, hkeys⟩
      refine ⟨hnodup, hstamp, fun key hkey => ?_⟩
      have hout := h.other_batch hbatch hbatch' hc key hkey
      have hkept := hkeys key hkey
      refine ⟨?_, by simpa [State.release, hout] using hkept.2⟩
      simpa [State.expired, hreceipts key hout] using hkept.1

/-- What holds of one delivery, given the committed marks and the answers so far. A conflict
was decided while a committed receipt stood, after the delivery began. -/
structure Standing (receiver : Receiver) (marks : List Mark) (answers : List Answer)
    (a : DeliveryId) (d : Delivery) : Prop where
  verified : receiver.verify d.request = .ok d.incoming
  since : d.since ≤ marks.length
  seen : d.phase = .conflicted ∨ d.phase = .committed .duplicate → ∃ seen, seen <+: marks ∧
    d.since ≤ seen.length ∧ (retained seen d.incoming.key).isSome = true
  enqueued : ∀ job stamp, d.phase = .enqueued job stamp → job.kind = kindName ∧
    job.payload = d.incoming.payload ∧ job.uniqueKey = none
  admitted : d.phase = .committed .accepted → a ∈ (admissions marks).map Admission.delivery
  answered : d.answered = true ↔ a ∈ answers.map Answer.delivery

structure Answered (receiver : Receiver) (s : State) : Prop where
  standing : ∀ a d, s.deliveries a = some d → Standing receiver s.marks s.answers a d
  admitted : ∀ admission, .admitted admission ∈ s.marks → ∃ d,
    s.deliveries admission.delivery = some d ∧ d.incoming = admission.incoming ∧
      d.phase = .committed .accepted
  once : ((admissions s.marks).map Admission.delivery).Nodup
  answers : ∀ answer ∈ s.answers, ∀ outcome, answer.result = .ok outcome → ∃ d,
    s.deliveries answer.delivery = some d ∧ d.phase = .committed outcome
  answersOnce : (s.answers.map Answer.delivery).Nodup

variable {receiver : Receiver} {bound : String → Bool} {s t : State}

theorem Standing.extend {marks more : List Mark} {answers : List Answer} {a : DeliveryId}
    {d : Delivery} (h : Standing receiver marks answers a d) :
    Standing receiver (marks ++ more) answers a d := by
  refine ⟨h.verified, ?_, ?_, h.enqueued, ?_, h.answered⟩
  · have hlength := h.since
    rw [List.length_append]
    omega
  · intro hphase
    rcases h.seen hphase with ⟨seen, hseen, hsince, hheld⟩
    exact ⟨seen, hseen.trans (List.prefix_append _ _), hsince, hheld⟩
  · intro hphase
    have hmem := h.admitted hphase
    rw [admissions, List.filterMap_append, List.map_append, List.mem_append]
    exact .inl hmem

theorem Answered.set (h : Answered receiver s) {a : DeliveryId} {d d' : Delivery}
    (hd : s.deliveries a = some d) (hd' : Standing receiver s.marks s.answers a d')
    (hincoming : d'.incoming = d.incoming)
    (hfinal : ∀ outcome, d.phase = .committed outcome → d'.phase = .committed outcome) :
    Answered receiver (s.set a d') := by
  refine ⟨?_, ?_, h.once, ?_, h.answersOnce⟩
  · intro b other hother
    by_cases hb : b = a
    · subst hb
      simp only [State.set, Function.update_self, Option.some.injEq] at hother
      subst hother
      exact hd'
    · simp only [State.set, Function.update_of_ne hb] at hother
      exact h.standing b other hother
  · intro admission hmem
    rcases h.admitted admission hmem with ⟨other, hother, hsame, hphase⟩
    by_cases hb : admission.delivery = a
    · rw [hb, hd, Option.some.injEq] at hother
      subst hother
      exact ⟨d', by simp [State.set, hb], hincoming.trans hsame, hfinal _ hphase⟩
    · exact ⟨other, by simpa [State.set, hb] using hother, hsame, hphase⟩
  · intro answer hmem outcome hresult
    rcases h.answers answer hmem outcome hresult with ⟨other, hother, hphase⟩
    by_cases hb : answer.delivery = a
    · rw [hb, hd, Option.some.injEq] at hother
      subst hother
      exact ⟨d', by simp [State.set, hb], hfinal _ hphase⟩
    · exact ⟨other, by simpa [State.set, hb] using hother, hphase⟩

theorem Answered.answer (h : Answered receiver s) {a : DeliveryId} {d : Delivery}
    (hd : s.deliveries a = some d) (hopen : d.answered = false)
    {result : Except ReceiveError ReceiptOutcome}
    (hresult : ∀ outcome, result = .ok outcome → d.phase = .committed outcome) :
    Answered receiver (s.answer a d result) := by
  have hfirst : a ∉ s.answers.map Answer.delivery := by
    rw [← (h.standing a d hd).answered, hopen]
    exact Bool.false_ne_true
  have hkept : ∀ b other, s.deliveries b = some other →
      ∃ other', (s.answer a d result).deliveries b = some other' ∧
        other'.incoming = other.incoming ∧ other'.phase = other.phase := by
    intro b other hother
    by_cases hb : b = a
    · subst hb
      rw [hd, Option.some.injEq] at hother
      subst hother
      exact ⟨_, Function.update_self _ _ _, rfl, rfl⟩
    · exact ⟨other, (Function.update_of_ne hb _ _).trans hother, rfl, rfl⟩
  refine ⟨?_, ?_, h.once, ?_, ?_⟩
  · intro b other hother
    by_cases hb : b = a
    · subst hb
      simp only [State.answer, State.set, Function.update_self, Option.some.injEq] at hother
      subst hother
      exact { h.standing b d hd with answered := by simp [State.answer] }
    · simp only [State.answer, State.set, Function.update_of_ne hb] at hother
      refine { h.standing b other hother with answered := ?_ }
      simpa [State.answer, hb] using (h.standing b other hother).answered
  · intro admission hmem
    rcases h.admitted admission hmem with ⟨other, hother, hsame, hphase⟩
    rcases hkept _ other hother with ⟨other', hother', hsame', hphase'⟩
    exact ⟨other', hother', hsame'.trans hsame, hphase'.trans hphase⟩
  · intro answer hmem outcome hok
    simp only [State.answer, List.mem_append, List.mem_singleton] at hmem
    rcases hmem with hmem | rfl
    · rcases h.answers answer hmem outcome hok with ⟨other, hother, hphase⟩
      rcases hkept _ other hother with ⟨other', hother', -, hphase'⟩
      exact ⟨other', hother', hphase'.trans hphase⟩
    · rcases hkept a d hd with ⟨other', hother', -, hphase'⟩
      exact ⟨other', hother', hphase'.trans (hresult outcome hok)⟩
  · simp only [State.answer, List.map_append, List.map_singleton]
    simpa using h.answersOnce.concat hfirst

/-- The commit of a receipt makes its delivery the one admission of its own. -/
theorem Answered.admit (h : Answered receiver s) {a : DeliveryId} {d : Delivery}
    (hd : s.deliveries a = some d) (hphase : ∀ outcome, d.phase ≠ .committed outcome)
    {job : JobId} {jobs : JobsSystem.State} {receipts : Key → Option Time} :
    Answered receiver { ((s.set a { d with phase := .committed .accepted }).hold
      d.incoming.key none) with
      jobs := jobs
      receipts := receipts
      marks := s.marks ++ [.admitted ⟨a, d.incoming, d.receivedAt, job⟩] } := by
  have hold := h.standing a d hd
  have hfirst : a ∉ (admissions s.marks).map Admission.delivery := by
    intro hmem
    rcases List.mem_map.mp hmem with ⟨admission, hadmission, rfl⟩
    rcases h.admitted admission (mem_admissions.mp hadmission) with ⟨other, hother, -, hcommitted⟩
    rw [hd, Option.some.injEq] at hother
    subst hother
    exact hphase _ hcommitted
  refine ⟨?_, ?_, ?_, ?_, h.answersOnce⟩
  · intro b other hother
    by_cases hb : b = a
    · subst hb
      simp only [State.set, State.hold, Function.update_self, Option.some.injEq] at hother
      subst hother
      refine ⟨hold.verified, hold.extend.since, by simp, by simp, fun _ => by simp, hold.answered⟩
    · simp only [State.set, State.hold, Function.update_of_ne hb] at hother
      exact (h.standing b other hother).extend
  · intro admission hmem
    simp only [List.mem_append, List.mem_singleton, Mark.admitted.injEq] at hmem
    rcases hmem with hmem | rfl
    · rcases h.admitted admission hmem with ⟨other, hother, hsame, hcommitted⟩
      have hb : admission.delivery ≠ a := by
        intro heq
        exact hfirst (List.mem_map.mpr ⟨admission, mem_admissions.mpr hmem, heq⟩)
      exact ⟨other, (Function.update_of_ne hb _ _).trans hother, hsame, hcommitted⟩
    · exact ⟨_, Function.update_self _ _ _, rfl, rfl⟩
  · simp only [admissions_snoc, List.map_append, List.map_singleton]
    simpa using h.once.concat hfirst
  · intro answer hmem outcome hresult
    rcases h.answers answer hmem outcome hresult with ⟨other, hother, hcommitted⟩
    have hb : answer.delivery ≠ a := by
      intro heq
      rw [heq, hd, Option.some.injEq] at hother
      subst hother
      exact hphase _ hcommitted
    exact ⟨other, (Function.update_of_ne hb _ _).trans hother, hcommitted⟩

theorem Answered.remove (h : Answered receiver s) {c : CleanupId} {keys : List Key} {stamp : Time}
    {receipts : Key → Option Time} : Answered receiver { s.release c keys with
      receipts := receipts
      marks := s.marks ++ keys.map fun key => .removed key stamp } := by
  refine ⟨fun a d hd => (h.standing a d hd).extend, ?_, ?_, h.answers, h.answersOnce⟩
  · intro admission hmem
    rw [← mem_admissions, admissions_removed, mem_admissions] at hmem
    exact h.admitted admission hmem
  · rw [admissions_removed]
    exact h.once

/-- The job is the one an admission created, and the delivery is the admitted one. -/
def Authentic (marks : List Mark) (job : JobId) (incoming : Incoming) : Prop :=
  ∃ admission, .admitted admission ∈ marks ∧ admission.job = job ∧ admission.incoming = incoming

/-- A completed run has the completion among the writes of its transaction, and a committed
effect has it in the ledger. -/
structure Processed (s : State) : Prop where
  authentic : ∀ x p, s.processings x = some p → Authentic s.marks p.job p.incoming
  completing : ∀ x p, s.processings x = some p → p.stage = .completed → ∃ tx c,
    s.jobs.txs x = some tx ∧ c ∈ tx.writes ∧ completedId c = some p.job
  once : (s.effects.map Effect.job).Nodup
  effects : ∀ e ∈ s.effects, e.job ∈ completions s.jobs.log ∧ Authentic s.marks e.job e.incoming

theorem Authentic.extend {marks more : List Mark} {job : JobId} {incoming : Incoming}
    (h : Authentic marks job incoming) : Authentic (marks ++ more) job incoming := by
  rcases h with ⟨admission, hmem, hjob, hincoming⟩
  exact ⟨admission, List.mem_append_left _ hmem, hjob, hincoming⟩

theorem completions_mono {log log' : List Change} (h : log <+: log') {id : JobId}
    (hid : id ∈ completions log) : id ∈ completions log' := by
  rcases h with ⟨ws, rfl⟩
  rw [completions, List.filterMap_append, List.mem_append]
  exact .inl hid

/-- The row a claim handed out still carries what its admission put there. -/
theorem Tables.handed_authentic (h : Tables s) {job : JobId} {generation : ℕ} {row : Row}
    (hrow : s.jobs.log.findSome? (handed job generation) = some row) (hkind : row.kind = kindName)
    {incoming : Incoming} (hpayload : row.payload = incoming.payload) :
    Authentic s.marks job incoming := by
  rcases List.exists_of_findSome?_eq_some hrow with ⟨c, hc, hhanded⟩
  have hafter : c.after = some row ∧ row.id = job := by
    cases hcause : c.cause with
    | claimed =>
      cases hafter : c.after with
      | none => simp [handed, hcause, hafter] at hhanded
      | some written =>
        simp only [handed, hcause, hafter] at hhanded
        split at hhanded
        · next hmatch =>
          cases hhanded
          exact ⟨rfl, hmatch.1⟩
        · cases hhanded
    | _ => simp [handed, hcause] at hhanded
  have hcreated := written_carried h.jobs.legal hc hafter.1
  have hprocess : (job, incoming.payload) ∈ processJobs s.jobs.log := by
    refine List.mem_filterMap.mpr ⟨_, hcreated, ?_⟩
    simp [processed?, hkind, hpayload, hafter.2]
  rw [h.created] at hprocess
  rcases List.mem_map.mp hprocess with ⟨admission, hmem, heq⟩
  rw [Admission.created, Prod.mk.injEq] at heq
  exact ⟨admission, mem_admissions.mp hmem, heq.1, payload_injective heq.2⟩

/-- A step of the job table that leaves every processor's transaction alone. -/
theorem Processed.jobs_step (h : Processed s) (hc : Coupled s.jobs) {e : JobsSystem.Event}
    {jobs : JobsSystem.State} (hstep : JobsSystem.step s.jobs e = some jobs)
    (hforeign : ∀ x, e.tx = some x → s.processings x = none) :
    Processed { s with jobs := jobs } := by
  refine ⟨h.authentic, ?_, h.once, ?_⟩
  · intro x p hp hstage
    have hne : e.tx ≠ some x := by
      intro hx
      rw [hforeign x hx] at hp
      cases hp
    rcases h.completing x p hp hstage with ⟨tx, c, htx, hmem, hcompleted⟩
    exact ⟨tx, c, ((JobsSystem.step_frame hc hstep).1 x hne).trans htx, hmem, hcompleted⟩
  · intro effect heffect
    rcases h.effects effect heffect with ⟨hcompleted, hauthentic⟩
    exact ⟨completions_mono (JobsSystem.step_extends hstep) hcompleted, hauthentic⟩

theorem Processed.own_step (h : Processed s) {x : TxId} {jobs : JobsSystem.State}
    (htxs : ∀ y, y ≠ x → jobs.txs y = s.jobs.txs y) (hlog : s.jobs.log <+: jobs.log)
    {processing : Option Processing}
    (hauthentic : ∀ p, processing = some p → Authentic s.marks p.job p.incoming)
    (hcompleting : ∀ p, processing = some p → p.stage = .completed → ∃ tx c,
      jobs.txs x = some tx ∧ c ∈ tx.writes ∧ completedId c = some p.job) :
    Processed (s.setProcessing x jobs processing) := by
  refine ⟨?_, ?_, h.once, ?_⟩
  · intro y p hp
    by_cases hy : y = x
    · subst hy
      simp only [State.setProcessing, Function.update_self] at hp
      exact hauthentic p hp
    · simp only [State.setProcessing, Function.update_of_ne hy] at hp
      exact h.authentic y p hp
  · intro y p hp hstage
    by_cases hy : y = x
    · subst hy
      simp only [State.setProcessing, Function.update_self] at hp
      exact hcompleting p hp hstage
    · simp only [State.setProcessing, Function.update_of_ne hy] at hp
      rcases h.completing y p hp hstage with ⟨tx, c, htx, hmem, hcompleted⟩
      exact ⟨tx, c, (htxs y hy).trans htx, hmem, hcompleted⟩
  · intro effect heffect
    rcases h.effects effect heffect with ⟨hcompleted, hold⟩
    exact ⟨completions_mono hlog hcompleted, hold⟩

theorem own_frame {jobs jobs' : JobsSystem.State} (hc : Coupled jobs) {e : JobsSystem.Event}
    {x : TxId} (hown : e.tx = some x) (hstep : JobsSystem.step jobs e = some jobs') :
    (∀ y, y ≠ x → jobs'.txs y = jobs.txs y) ∧ jobs.log <+: jobs'.log := by
  refine ⟨fun y hy => (JobsSystem.step_frame hc hstep).1 y ?_, JobsSystem.step_extends hstep⟩
  rw [hown, ne_eq, Option.some.injEq]
  exact Ne.symm hy

theorem commit_completes {jobs jobs' : JobsSystem.State} (hc : Coupled jobs) {x : TxId}
    {tx : JobsSystem.Tx} {c : Change} {id : JobId} (htx : jobs.txs x = some tx)
    (hmem : c ∈ tx.writes) (hcompleted : completedId c = some id)
    (hop : JobsSystem.commit jobs x = some jobs') :
    id ∈ completions jobs'.log ∧ id ∉ completions jobs.log := by
  have hlog : jobs'.log = jobs.log ++ tx.writes := by
    simp only [JobsSystem.commit, htx] at hop
    split at hop
    · cases hop
    · cases hop
      rfl
  have hnew : id ∈ completions tx.writes := List.mem_filterMap.mpr ⟨c, hmem, hcompleted⟩
  have hnodup := (legal_log_completed_once (JobsSystem.commit_coupled hc hop).legal).nodup
  rw [hlog, completions, List.filterMap_append] at hnodup ⊢
  refine ⟨List.mem_append_right _ hnew, fun hold => ?_⟩
  exact (List.nodup_append.mp hnodup).2.2 id hold id hnew rfl

structure Inv (receiver : Receiver) (s : State) : Prop where
  tables : Tables s
  locks : Locks s
  answered : Answered receiver s
  processed : Processed s

theorem initial_inv : Inv receiver initial where
  tables := ⟨JobsSystem.reachable_coupled System.reachable_initial, .nil, by simp [initial, retained],
    by simp [initial, JobsSystem.initial, processJobs, creations, admissions]⟩
  locks := ⟨by simp [initial], by simp [initial]⟩
  answered := ⟨by simp [initial], by simp [initial], by simp [initial, admissions],
    by simp [initial], by simp [initial]⟩
  processed := ⟨by simp [initial], by simp [initial], by simp [initial], by simp [initial]⟩

theorem receive_inv (h : Inv receiver s) {a : DeliveryId} {request : Request}
    (hop : receive receiver s a request = some t) : Inv receiver t := by
  simp only [receive] at hop
  split at hop
  · cases hop
  next hguard =>
  rw [not_or] at hguard
  rcases hguard with ⟨hnew, hunanswered⟩
  have hnone : s.deliveries a = none := by simpa using hnew
  split at hop
  · next error herror =>
    cases hop
    refine ⟨{ h.tables with }, { h.locks with }, ?_, { h.processed with }⟩
    refine { h.answered with standing := ?_, answers := ?_, answersOnce := ?_ }
    · intro b d hd
      refine { h.answered.standing b d hd with answered := ?_ }
      have hb : b ≠ a := by
        rintro rfl
        rw [hnone] at hd
        cases hd
      simpa [hb] using (h.answered.standing b d hd).answered
    · intro answer hmem outcome hresult
      rcases List.mem_append.mp hmem with hmem | hmem
      · exact h.answered.answers answer hmem outcome hresult
      · rw [List.mem_singleton] at hmem
        subst hmem
        cases hresult
    · rw [List.map_append, List.map_singleton]
      simpa using h.answered.answersOnce.concat hunanswered
  · next incoming hverified =>
    cases hop
    refine ⟨{ h.tables with }, h.locks.set (by simp [Phase.holds]), ?_, { h.processed with }⟩
    have hkept : ∀ b d, s.deliveries b = some d → b ≠ a := by
      rintro b d hd rfl
      rw [hnone] at hd
      cases hd
    refine ⟨?_, ?_, h.answered.once, ?_, h.answered.answersOnce⟩
    · intro b d hd
      by_cases hb : b = a
      · subst hb
        simp only [State.set, Function.update_self, Option.some.injEq] at hd
        subst hd
        exact ⟨hverified, Nat.le_refl _, by simp, by simp, by simp,
          by simpa [State.set] using hunanswered⟩
      · simp only [State.set, Function.update_of_ne hb] at hd
        exact h.answered.standing b d hd
    · intro admission hmem
      rcases h.answered.admitted admission hmem with ⟨d, hd, hrest⟩
      exact ⟨d, (Function.update_of_ne (hkept _ d hd) _ _).trans hd, hrest⟩
    · intro answer hmem outcome hresult
      rcases h.answered.answers answer hmem outcome hresult with ⟨d, hd, hphase⟩
      exact ⟨d, (Function.update_of_ne (hkept _ d hd) _ _).trans hd, hphase⟩

theorem insert_inv (h : Inv receiver s) {a : DeliveryId}
    (hop : WebhookInbound.insert s a = some t) :
    Inv receiver t := by
  simp only [WebhookInbound.insert] at hop
  split at hop
  · cases hop
  next d hd =>
  have hstanding := h.answered.standing a d hd
  split at hop
  · next hguard =>
    rcases hguard with ⟨hphase, -, hfree⟩
    split at hop
    · next receivedAt hreceipt =>
      cases hop
      refine ⟨{ h.tables with }, h.locks.set (by simp [Phase.holds]), ?_, { h.processed with }⟩
      refine h.answered.set hd ?_ rfl (by simp [hphase])
      refine { hstanding with seen := fun _ => ?_, enqueued := by simp, admitted := by simp }
      refine ⟨s.marks, List.prefix_rfl, hstanding.since, ?_⟩
      have hheld := h.tables.receipts d.incoming.key
      rw [hreceipt] at hheld
      cases hretained : retained s.marks d.incoming.key with
      | none => simp [hretained] at hheld
      | some admission => rfl
    · next hreceipt =>
      cases hop
      refine ⟨{ h.tables with }, h.locks.insert (by simpa using hfree) hreceipt, ?_,
        { h.processed with }⟩
      have hset : Answered receiver (s.set a { d with phase := .inserted }) :=
        h.answered.set hd { hstanding with seen := by simp, enqueued := by simp, admitted := by simp }
          rfl (by simp [hphase])
      exact { hset with }
  · cases hop

theorem answer_inv (h : Inv receiver s) {a : DeliveryId} {d : Delivery}
    (hd : s.deliveries a = some d) (hopen : d.answered = false)
    {result : Except ReceiveError ReceiptOutcome}
    (hresult : ∀ outcome, result = .ok outcome → d.phase = .committed outcome) :
    Inv receiver (s.answer a d result) := by
  refine ⟨{ h.tables with }, ?_, h.answered.answer hd hopen hresult, { h.processed with }⟩
  exact { h.locks.set (a := a) (d := { d with answered := true }) (h.locks.inserting a d hd) with }

theorem enqueue_inv (h : Inv receiver s) {a : DeliveryId} {id : JobId}
    {traceContext traceState : Option String}
    (hop : enqueue s a id traceContext traceState = some t) : Inv receiver t := by
  simp only [enqueue] at hop
  split at hop
  · cases hop
  next d hd =>
  split at hop
  · next hguard =>
    rcases hguard with ⟨hphase, hopen⟩
    have hunanswered : d.answered = false := by simpa using hopen
    split at hop
    · cases hop
      exact answer_inv h hd hunanswered (by simp)
    · next payload hprepared =>
      split at hop
      · cases hop
        exact answer_inv h hd hunanswered (by simp)
      · cases hop
        have hpayload : payload = d.incoming.payload := by
          simp only [prepare] at hprepared
          repeat' split at hprepared
          all_goals cases hprepared
          rfl
        have hholds := h.locks.inserting a d hd (by simp [hphase, Phase.holds])
        refine ⟨{ h.tables with }, h.locks.set fun _ => hholds, ?_, { h.processed with }⟩
        refine h.answered.set hd ?_ rfl (by simp [hphase])
        refine { h.answered.standing a d hd with
          seen := by simp, enqueued := ?_, admitted := by simp }
        rintro job stamp ⟨⟩
        exact ⟨rfl, hpayload, rfl⟩
  · cases hop

theorem send_commit_inv (h : Inv receiver s) {a : DeliveryId} (hop : sendCommit s a = some t) :
    Inv receiver t := by
  simp only [sendCommit] at hop
  split at hop
  · cases hop
  next d hd =>
  split at hop
  · cases hop
    refine ⟨{ h.tables with }, h.locks.set (h.locks.inserting a d hd), ?_, { h.processed with }⟩
    exact h.answered.set hd { h.answered.standing a d hd with } rfl fun _ hphase => hphase
  · cases hop

theorem commit_inv (h : Inv receiver s) {a : DeliveryId} (hop : commit s a = some t) :
    Inv receiver t := by
  simp only [commit] at hop
  split at hop
  · cases hop
  next d hd =>
  have hstanding := h.answered.standing a d hd
  split at hop
  · cases hop
  split at hop
  · next hphase =>
    cases hop
    refine ⟨{ h.tables with }, h.locks.set (by simp [Phase.holds]), ?_, { h.processed with }⟩
    refine h.answered.set hd ?_ rfl (by simp [hphase])
    exact { hstanding with
      seen := fun _ => hstanding.seen (.inl hphase), enqueued := by simp, admitted := by simp }
  · next job stamp hphase =>
    rcases Option.map_eq_some_iff.mp hop with ⟨jobs, hjobs, rfl⟩
    rcases hstanding.enqueued job stamp hphase with ⟨hkind, hpayload, hkey⟩
    rcases h.locks.inserting a d hd (by simp [hphase, Phase.holds]) with ⟨hholder, hreceipt⟩
    refine ⟨?_, h.locks.admit hholder (by simp [Phase.holds]),
      h.answered.admit hd (by simp [hphase]), ?_⟩
    · have hadmit := h.tables.admit ⟨a, d.incoming, d.receivedAt, job.id⟩ rfl hkind
        hpayload hkey hreceipt hjobs
      exact { hadmit with }
    · have hstep := h.processed.jobs_step h.tables.jobs (e := .enqueue job stamp) hjobs
        (by simp [JobsSystem.Event.tx])
      refine ⟨fun x p hp => (hstep.authentic x p hp).extend, hstep.completing, hstep.once, ?_⟩
      intro effect heffect
      rcases hstep.effects effect heffect with ⟨hcompleted, hauthentic⟩
      exact ⟨hcompleted, hauthentic.extend⟩
  · cases hop

theorem acknowledge_inv (h : Inv receiver s) {a : DeliveryId} (hop : acknowledge s a = some t) :
    Inv receiver t := by
  simp only [acknowledge] at hop
  split at hop
  · cases hop
  next d hd =>
  split at hop
  · next outcome hphase =>
    split at hop
    · cases hop
    · next hopen =>
      cases hop
      refine answer_inv h hd (by simpa using hopen) ?_
      rintro _ ⟨⟩
      exact hphase
  · cases hop

theorem fail_inv (h : Inv receiver s) {a : DeliveryId} (hop : fail s a = some t) :
    Inv receiver t := by
  simp only [fail] at hop
  split at hop
  · cases hop
  next d hd =>
  split at hop
  · cases hop
  · next hopen =>
    cases hop
    exact answer_inv h hd (by simpa using hopen) (by simp)

theorem rollback_inv (h : Inv receiver s) {a : DeliveryId} (hop : rollback s a = some t) :
    Inv receiver t := by
  simp only [rollback] at hop
  split at hop
  · cases hop
  next d hd =>
  split at hop
  · next hopen =>
    cases hop
    refine ⟨{ h.tables with }, h.locks.rollback (by simp [Phase.holds]), ?_, { h.processed with }⟩
    have hset : Answered receiver (s.set a { d with phase := .rolledBack }) := by
      refine h.answered.set hd ?_ rfl ?_
      · exact { h.answered.standing a d hd with
          seen := by simp, enqueued := by simp, admitted := by simp }
      · intro outcome hphase
        simp [hphase, Phase.open] at hopen
    exact { hset with }
  · cases hop

theorem cleanup_lock_inv (h : Inv receiver s) {c : CleanupId} {stamp : Time} {keys : List Key}
    (hop : cleanupLock s c stamp keys = some t) : Inv receiver t := by
  have hlocks := h.locks.cleanup_lock hop
  simp only [cleanupLock] at hop
  split at hop
  · cases hop
    exact ⟨{ h.tables with }, hlocks, { h.answered with }, { h.processed with }⟩
  · cases hop

theorem cleanup_delete_inv (h : Inv receiver s) {c : CleanupId} (hop : cleanupDelete s c = some t) :
    Inv receiver t := by
  have hlocks := h.locks.cleanup_delete hop
  simp only [cleanupDelete] at hop
  split at hop
  · cases hop
  · split at hop
    · cases hop
    · cases hop
      exact ⟨{ h.tables with }, hlocks, { h.answered with }, { h.processed with }⟩

theorem cleanup_commit_inv (h : Inv receiver s) {c : CleanupId} (hop : cleanupCommit s c = some t) :
    Inv receiver t := by
  simp only [cleanupCommit] at hop
  split at hop
  · cases hop
  next batch hbatch =>
  split at hop
  · cases hop
  cases hop
  rcases h.locks.cleaning c batch hbatch with ⟨hnodup, -, hkeys⟩
  refine ⟨?_, h.locks.release hbatch _ (by simp +contextual), h.answered.remove, ?_⟩
  · have hremove := h.tables.remove hnodup fun key hkey => (hkeys key hkey).1
    exact { hremove with }
  · refine ⟨fun x p hp => (h.processed.authentic x p hp).extend, h.processed.completing,
      h.processed.once, ?_⟩
    intro effect heffect
    rcases h.processed.effects effect heffect with ⟨hcompleted, hauthentic⟩
    exact ⟨hcompleted, hauthentic.extend⟩

theorem cleanup_abort_inv (h : Inv receiver s) {c : CleanupId} (hop : cleanupAbort s c = some t) :
    Inv receiver t := by
  rcases Option.map_eq_some_iff.mp hop with ⟨batch, hbatch, rfl⟩
  have hlocks := h.locks.release hbatch s.marks fun _ _ => rfl
  exact ⟨{ h.tables with }, { hlocks with }, { h.answered with }, { h.processed with }⟩

/-- The job table under a processor's step that is no enqueue. -/
theorem Tables.own_step (h : Tables s) {e : JobsSystem.Event} {x : TxId} (hown : e.tx = some x)
    {jobs : JobsSystem.State} (hstep : JobsSystem.step s.jobs e = some jobs)
    {processing : Option Processing} : Tables (s.setProcessing x jobs processing) := by
  have hjobs := h.jobs_step hstep fun job now he => by simp [he, JobsSystem.Event.tx] at hown
  exact { hjobs with }

theorem process_inv (h : Inv receiver s) {x : TxId} {job : JobId} {generation : ℕ}
    {incoming : Incoming} (hop : process bound s x job generation incoming = some t) :
    Inv receiver t := by
  simp only [process] at hop
  split at hop
  · cases hop
  next row hrow =>
  split at hop
  · next hguard =>
    rcases hguard with ⟨hkind, hpayload, -, -⟩
    rcases Option.map_eq_some_iff.mp hop with ⟨jobs, hjobs, rfl⟩
    rcases own_frame h.tables.jobs (e := .open x) rfl hjobs with ⟨htxs, hlog⟩
    refine ⟨h.tables.own_step (e := .open x) rfl hjobs, { h.locks with }, { h.answered with },
      h.processed.own_step htxs hlog ?_ ?_⟩
    · rintro _ ⟨⟩
      exact h.tables.handed_authentic hrow hkind hpayload
    · rintro _ ⟨⟩ hstage
      cases hstage
  · cases hop

theorem consume_inv (h : Inv receiver s) {x : TxId} {accepted : Bool}
    (hop : consume s x accepted = some t) : Inv receiver t := by
  simp only [consume] at hop
  split at hop
  · next job generation incoming hp =>
    cases hop
    have hauthentic := h.processed.authentic x _ hp
    refine ⟨{ h.tables with }, { h.locks with }, { h.answered with },
      h.processed.own_step (fun _ _ => rfl) List.prefix_rfl ?_ ?_⟩
    · rintro _ ⟨⟩
      exact hauthentic
    · rintro _ ⟨⟩ hstage
      by_cases haccepted : accepted <;> simp [haccepted] at hstage
  · cases hop

theorem complete_inv (h : Inv receiver s) {x : TxId} {now : Time}
    (hop : complete s x now = some t) : Inv receiver t := by
  simp only [complete] at hop
  split at hop
  · next job generation incoming hp =>
    rcases Option.map_eq_some_iff.mp hop with ⟨jobs, hjobs, rfl⟩
    rcases own_frame h.tables.jobs (e := .completeInTx x job generation now) rfl hjobs with
      ⟨htxs, hlog⟩
    have hauthentic := h.processed.authentic x _ hp
    refine ⟨h.tables.own_step (e := .completeInTx x job generation now) rfl hjobs,
      { h.locks with }, { h.answered with }, h.processed.own_step htxs hlog ?_ ?_⟩
    · rintro _ ⟨⟩
      exact hauthentic
    · rintro _ ⟨⟩ hstage
      -- a stale claim leaves its transaction without the completion and fails the run
      rcases complete_in_tx_answers h.tables.jobs hjobs with
        ⟨-, ⟨-, hstale⟩ | ⟨row, -, -, -, -, tx, htx, hmem⟩⟩
      · simp [completeStage, hstale] at hstage
      · exact ⟨tx, _, htx, hmem, rfl⟩
  · cases hop

theorem process_commit_inv (h : Inv receiver s) {x : TxId} (hop : processCommit s x = some t) :
    Inv receiver t := by
  simp only [processCommit] at hop
  split at hop
  · next job generation incoming hp =>
    rcases Option.map_eq_some_iff.mp hop with ⟨jobs, hjobs, rfl⟩
    rcases own_frame h.tables.jobs (e := .commit x) rfl hjobs with ⟨htxs, hlog⟩
    rcases h.processed.completing x _ hp rfl with ⟨tx, c, htx, hmem, hcompleted⟩
    rcases commit_completes h.tables.jobs htx hmem hcompleted hjobs with ⟨hnew, hfirst⟩
    have hown : Processed (s.setProcessing x jobs none) :=
      h.processed.own_step htxs hlog (by simp) (by simp)
    have htables : Tables (s.setProcessing x jobs none) :=
      h.tables.own_step (e := .commit x) rfl hjobs
    refine ⟨{ htables with }, { h.locks with }, { h.answered with },
      { hown with once := ?_, effects := ?_ }⟩
    · have hunused : job ∉ s.effects.map Effect.job := by
        intro hused
        rcases List.mem_map.mp hused with ⟨effect, heffect, rfl⟩
        exact hfirst (h.processed.effects effect heffect).1
      simpa using h.processed.once.concat hunused
    · intro effect heffect
      rcases List.mem_append.mp heffect with heffect | heffect
      · exact hown.effects effect heffect
      · rw [List.mem_singleton] at heffect
        subst heffect
        exact ⟨hnew, h.processed.authentic x _ hp⟩
  · cases hop

theorem process_rollback_inv (h : Inv receiver s) {x : TxId} (hop : processRollback s x = some t) :
    Inv receiver t := by
  simp only [processRollback] at hop
  split at hop
  · cases hop
  · rcases Option.map_eq_some_iff.mp hop with ⟨jobs, hjobs, rfl⟩
    rcases own_frame h.tables.jobs (e := .rollback x) rfl hjobs with ⟨htxs, hlog⟩
    exact ⟨h.tables.own_step (e := .rollback x) rfl hjobs, { h.locks with }, { h.answered with },
      h.processed.own_step htxs hlog (by simp) (by simp)⟩

theorem jobs_inv (h : Inv receiver s) {e : JobsSystem.Event} (hop : jobsStep s e = some t) :
    Inv receiver t := by
  simp only [jobsStep] at hop
  split at hop
  · next hforeign =>
    rcases Option.map_eq_some_iff.mp hop with ⟨jobs, hjobs, rfl⟩
    refine ⟨h.tables.jobs_step hjobs ?_, { h.locks with }, { h.answered with },
      h.processed.jobs_step h.tables.jobs hjobs ?_⟩
    · rintro job now rfl
      simpa [State.foreign] using hforeign
    · intro x hx
      cases e <;> simp_all [State.foreign, JobsSystem.Event.tx]
  · cases hop

theorem step_inv {e : Event} (h : Inv receiver s) (hstep : step receiver bound s e = some t) :
    Inv receiver t := by
  cases e with
  | tick elapsed =>
    cases hstep
    refine ⟨{ h.tables with }, { h.locks with cleaning := ?_ }, { h.answered with },
      { h.processed with }⟩
    intro c batch hbatch
    rcases h.locks.cleaning c batch hbatch with ⟨hnodup, hstamp, hkeys⟩
    exact ⟨hnodup, hstamp.trans (Int.le_add_of_nonneg_right (Int.natCast_nonneg elapsed)), hkeys⟩
  | receive => exact receive_inv h hstep
  | insert => exact insert_inv h hstep
  | enqueue => exact enqueue_inv h hstep
  | sendCommit => exact send_commit_inv h hstep
  | commit => exact commit_inv h hstep
  | acknowledge => exact acknowledge_inv h hstep
  | fail => exact fail_inv h hstep
  | rollback => exact rollback_inv h hstep
  | cleanupLock => exact cleanup_lock_inv h hstep
  | cleanupDelete => exact cleanup_delete_inv h hstep
  | cleanupCommit => exact cleanup_commit_inv h hstep
  | cleanupAbort => exact cleanup_abort_inv h hstep
  | process => exact process_inv h hstep
  | consume => exact consume_inv h hstep
  | complete => exact complete_inv h hstep
  | processCommit => exact process_commit_inv h hstep
  | processRollback => exact process_rollback_inv h hstep
  | jobs => exact jobs_inv h hstep

theorem reachable_inv (h : (inbound receiver bound).Reachable s) : Inv receiver s :=
  h.induction (P := Inv receiver) initial_inv fun _ _ _ _ hs hstep => step_inv hs hstep

/-- What the transaction puts into the job is the delivery it verified. -/
theorem verify_ok {request : Request} {incoming : Incoming}
    (h : receiver.verify request = .ok incoming) :
    incoming.endpointId = request.endpointId ∧ incoming.body = request.body ∧
      incoming.contentType = (WebhookProtocol.getAll request.headers contentTypeHeader).head? ∧
      ∃ verifier, receiver.endpoints request.endpointId = some verifier ∧
        verifier request.headers request.body request.now = .ok incoming.messageId := by
  simp only [Receiver.verify] at h
  split at h
  · cases h
  next verifier hverifier =>
  split at h
  · cases h
  next messageId hmessage =>
  split at h
  · cases h
  · cases h
    exact ⟨rfl, rfl, rfl, verifier, hverifier, hmessage⟩

/-- Admission over a whole run. `marks` are the committed admissions and removals of receipts,
`retained` reads the receipt of a key off them, and `processJobs` the created jobs of the
receiver's kind with their payloads. -/
structure ExactlyOnce (receiver : Receiver) (s : State) : Prop where
  /-- Between two admissions of one key its receipt was removed. -/
  alternates : ∀ l₁ l₂ l₃ a b, s.marks = l₁ ++ .admitted a :: (l₂ ++ .admitted b :: l₃) →
    a.key = b.key → ∃ stamp, .removed a.key stamp ∈ l₂
  /-- Only receipts past the retention are removed. -/
  removed : ∀ l₁ l₂ key stamp, s.marks = l₁ ++ .removed key stamp :: l₂ → ∃ admission,
    retained l₁ key = some admission ∧ admission.receivedAt < stamp - retentionMicros
  /-- Each admission created one job with the payload of its delivery, and nothing else did. -/
  created : processJobs s.jobs.log =
    (admissions s.marks).map fun admission => (admission.job, admission.incoming.payload)
  jobs : ((admissions s.marks).map Admission.job).Nodup
  /-- The admitted delivery is the one that was verified, endpoint, content type and body. -/
  verified : ∀ admission, .admitted admission ∈ s.marks → ∃ d,
    s.deliveries admission.delivery = some d ∧
      receiver.verify d.request = .ok admission.incoming ∧
      admission.incoming.endpointId = d.request.endpointId ∧
      admission.incoming.body = d.request.body ∧ admission.incoming.contentType =
        (WebhookProtocol.getAll d.request.headers contentTypeHeader).head?
  deliveries : ((admissions s.marks).map Admission.delivery).Nodup
  /-- `Accepted` goes to the delivery of an admission, at most once. -/
  answers : (s.answers.map Answer.delivery).Nodup
  accepted : ∀ answer ∈ s.answers, answer.result = .ok .accepted → ∃ admission,
    .admitted admission ∈ s.marks ∧ admission.delivery = answer.delivery
  /-- `Duplicate` was decided while a committed receipt of the key stood, not before the delivery
  began, and the delivery admitted nothing. -/
  duplicate : ∀ answer ∈ s.answers, answer.result = .ok .duplicate → ∃ d seen,
    s.deliveries answer.delivery = some d ∧ receiver.verify d.request = .ok d.incoming ∧
      seen <+: s.marks ∧ d.since ≤ seen.length ∧ (retained seen d.incoming.key).isSome = true ∧
      ∀ admission, .admitted admission ∈ s.marks → admission.delivery ≠ answer.delivery
  /-- The receipts are those whose admission, and so whose job, committed and was not removed. -/
  receipts : ∀ key, s.receipts key = (retained s.marks key).map Admission.receivedAt
  /-- The consumer's writes commit at most once for a job, with its completion. -/
  effects : (s.effects.map Effect.job).Nodup
  processed : ∀ e ∈ s.effects, e.job ∈ completions s.jobs.log ∧ ∃ admission,
    .admitted admission ∈ s.marks ∧ admission.job = e.job ∧ admission.incoming = e.incoming

theorem created_ids {log : List Change} (h : LegalLog log) :
    (creations log).map Prod.fst = created log := by
  induction h with
  | nil => rfl
  | @snoc log c hlog hc ih =>
    rw [creations, filter_map_snoc, List.map_append, created_snoc, ← ih]
    cases hc <;> simp [Change.creation, Change.created, NewJob.row, creations]

theorem processed_ids (all : List (JobId × String × String)) :
    ((all.filterMap processed?).map Prod.fst).Sublist (all.map Prod.fst) := by
  induction all with
  | nil => exact .slnil
  | cons creation all ih =>
    by_cases hkind : creation.2.1 = kindName
    · simpa [processed?, hkind] using ih
    · simpa [processed?, hkind] using ih.cons _

theorem admitted_jobs_nodup (h : Tables s) : ((admissions s.marks).map Admission.job).Nodup := by
  have hids : (admissions s.marks).map Admission.job = (processJobs s.jobs.log).map Prod.fst := by
    rw [h.created, List.map_map]
    rfl
  have hnodup := legal_log_created_once h.jobs.legal
  rw [← created_ids h.jobs.legal] at hnodup
  rw [hids]
  exact hnodup.sublist (processed_ids _)

/-- Every run of any number of deliveries, cleanups, claims and crashes. -/
theorem admission_exactly_once (h : (inbound receiver bound).Reachable s) :
    ExactlyOnce receiver s := by
  have hinv := reachable_inv h
  refine ⟨?_, ?_, hinv.tables.created, admitted_jobs_nodup hinv.tables, ?_, hinv.answered.once,
    hinv.answered.answersOnce, ?_, ?_, hinv.tables.receipts, hinv.processed.once,
    hinv.processed.effects⟩
  · intro l₁ l₂ l₃ a b hmarks hkey
    exact (hmarks ▸ hinv.tables.history).alternates hkey
  · intro l₁ l₂ key stamp hmarks
    exact (hmarks ▸ hinv.tables.history).removed_old
  · intro admission hmem
    rcases hinv.answered.admitted admission hmem with ⟨d, hd, hincoming, -⟩
    have hverified := (hinv.answered.standing _ d hd).verified
    rw [hincoming] at hverified
    rcases verify_ok hverified with ⟨hendpoint, hbody, hcontent, -⟩
    exact ⟨d, hd, hverified, hendpoint, hbody, hcontent⟩
  · intro answer hmem hresult
    rcases hinv.answered.answers answer hmem _ hresult with ⟨d, hd, hphase⟩
    rcases List.mem_map.mp ((hinv.answered.standing _ d hd).admitted hphase) with
      ⟨admission, hadmission, hdelivery⟩
    exact ⟨admission, mem_admissions.mp hadmission, hdelivery⟩
  · intro answer hmem hresult
    rcases hinv.answered.answers answer hmem _ hresult with ⟨d, hd, hphase⟩
    have hstanding := hinv.answered.standing _ d hd
    rcases hstanding.seen (.inr hphase) with ⟨seen, hseen, hsince, hheld⟩
    refine ⟨d, seen, hd, hstanding.verified, hseen, hsince, hheld, ?_⟩
    intro admission hadmission heq
    rcases hinv.answered.admitted admission hadmission with ⟨other, hother, -, haccepted⟩
    rw [heq, hd, Option.some.injEq] at hother
    subst hother
    rw [hphase] at haccepted
    cases haccepted

def ordersReceiver : Receiver where
  endpoints id :=
    if id = "orders" then
      some fun headers _ _ =>
        match (WebhookProtocol.getAll headers WebhookProtocol.webhookId).head? with
        | some messageId => .ok messageId
        | none => .error ⟨protocolReason .missingHeader⟩
    else none

def orderRequest : Request := ⟨"orders", [(WebhookProtocol.webhookId, [109])], [49], 0⟩

def orderIncoming : Incoming := ⟨"orders", [109], none, [49]⟩

def processRegistry : Registry := ⟨[⟨kindName, ⟨2, 1000000, none⟩⟩], by decide⟩

/-- Two deliveries of one message race. The first commits while its acknowledgement is lost, the
second is told of the duplicate, and the job is processed once. -/
def racedTrace : List Event :=
  [.receive 1 orderRequest, .receive 2 orderRequest, .insert 1, .enqueue 1 7 none none,
    .sendCommit 1, .commit 1, .insert 2, .sendCommit 2, .commit 2, .acknowledge 2, .fail 1,
    .jobs (.claim processRegistry (fun _ => 0) 4 8 0 [] [7]), .process 0 7 1 orderIncoming,
    .consume 0 true, .complete 0 1, .processCommit 0]

theorem admission_exactly_once_raced : ∃ s,
    (inbound ordersReceiver fun _ => true).run initial racedTrace = some s ∧
      s.effects = [⟨7, 1, orderIncoming⟩] ∧ ExactlyOnce ordersReceiver s := by
  have hrun : ∃ s, (inbound ordersReceiver fun _ => true).run initial racedTrace = some s ∧
      s.effects = [⟨7, 1, orderIncoming⟩] := ⟨_, rfl, rfl⟩
  rcases hrun with ⟨s, hs, heffects⟩
  exact ⟨s, hs, heffects, admission_exactly_once (System.reachable_of_run hs)⟩

end WebhookAdmission
