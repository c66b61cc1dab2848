import ServiceTemplate.JobsCompletion
import Mathlib.Data.List.Nodup

/-! Custody and answers of batched completions: where every registration is, when its membership
and slots end, and which answer its supervisor reads. -/
namespace CompletionCustody

open JobsTable
open JobsBatch
open JobsCompletion
open TransitionSystem

def entries : Stage → List QueuedCompletion
  | .pruning _ batch _ | .executing _ batch _ _ | .retiring _ batch _ _ => batch.queued
  | _ => []

/-- The senders of retired entries that are neither sent to nor dropped. -/
def senders : Stage → List ℕ
  | .pruning _ batch _ | .executing _ batch _ _ => batch.prunedReplies
  | .retiring _ batch senders _ => senders ++ batch.prunedReplies
  | .delivering _ owed => owed.map Prod.fst
  | _ => []

/-- No sender of the current batch has been touched yet. -/
def silent : Stage → Bool
  | .pruning _ _ _ | .executing _ _ _ _ | .retiring _ _ _ _ => true
  | _ => false

def live (s : State) : List QueuedCompletion := s.queue ++ entries s.stage

def tickets (queued : List QueuedCompletion) : List ℕ := queued.map QueuedCompletion.reply

structure Custody (s : State) : Prop where
  partition : (tickets (live s) ++ s.retired).Perm (List.range s.registered)
  membership : ∀ τ, s.membership τ = true ↔ τ < s.registered ∧ τ ∉ s.retired
  slots : ∀ τ, s.slots τ = true ↔ τ < s.registered ∧ τ ∉ s.retired
  waiting : ∀ queued ∈ s.queue, s.batchOf queued.reply = none ∧ s.replies queued.reply = .waiting
  taken : ∀ queued ∈ entries s.stage, ∃ b, s.batchOf queued.reply = some b ∧ b + 1 = s.batches
  numbered : ∀ τ b, s.batchOf τ = some b → b < s.batches ∧ τ < s.registered
  untouched : silent s.stage = true → ∀ τ b, s.batchOf τ = some b → b + 1 = s.batches →
    s.replies τ = .waiting
  fresh : ∀ τ, s.registered ≤ τ → s.replies τ = .waiting
  owing : ∀ τ ∈ senders s.stage, τ ∈ s.retired
  unanswered : ∀ τ ∈ s.retired, s.replies τ = .waiting → τ ∈ senders s.stage

section

variable {s t : State}

theorem Custody.retired_iff (h : Custody s) {τ : ℕ} (hregistered : τ < s.registered) :
    τ ∈ s.retired ↔ τ ∉ tickets (live s) := by
  have hnodup : (tickets (live s) ++ s.retired).Nodup := h.partition.nodup_iff.mpr List.nodup_range
  constructor
  · exact fun hretired hlive => List.disjoint_of_nodup_append hnodup hlive hretired
  · intro hlive
    have hmem := h.partition.mem_iff.mpr (List.mem_range.mpr hregistered)
    exact (List.mem_append.mp hmem).resolve_left hlive

theorem Custody.registered_of_live (h : Custody s) {queued : QueuedCompletion}
    (hlive : queued ∈ live s) : queued.reply < s.registered :=
  List.mem_range.mp (h.partition.mem_iff.mp
    (List.mem_append_left _ (List.mem_map_of_mem hlive)))

theorem Custody.registered_of_retired (h : Custody s) {τ : ℕ} (hretired : τ ∈ s.retired) :
    τ < s.registered :=
  List.mem_range.mp (h.partition.mem_iff.mp (List.mem_append_right _ hretired))

theorem Custody.tickets_nodup (h : Custody s) : (tickets (live s)).Nodup :=
  (h.partition.nodup_iff.mpr List.nodup_range).of_append_left

theorem Custody.live_not_retired (h : Custody s) {queued : QueuedCompletion}
    (hlive : queued ∈ live s) : queued.reply ∉ s.retired := fun hretired =>
  (h.retired_iff (h.registered_of_live hlive)).mp hretired (List.mem_map_of_mem hlive)

theorem silent_of_entry {stage : Stage} {queued : QueuedCompletion} (h : queued ∈ entries stage) :
    silent stage = true := by
  cases stage with
  | pruning | executing | retiring => rfl
  | free | taking | delivering => cases h

theorem Custody.live_waiting (h : Custody s) {queued : QueuedCompletion} (hlive : queued ∈ live s) :
    s.replies queued.reply = .waiting := by
  rcases List.mem_append.mp hlive with hqueue | hbatch
  · exact (h.waiting queued hqueue).2
  · obtain ⟨b, hb, hcurrent⟩ := h.taken queued hbatch
    exact h.untouched (silent_of_entry hbatch) _ b hb hcurrent

theorem Custody.batch_retired (h : Custody s) {τ other b : ℕ} (hreply : s.replies τ ≠ .waiting)
    (hτ : s.batchOf τ = some b) (hother : s.batchOf other = some b) : other ∈ s.retired := by
  rw [h.retired_iff (h.numbered other b hother).2]
  intro hlive
  obtain ⟨queued, hqueued, rfl⟩ := List.mem_map.mp hlive
  rcases List.mem_append.mp hqueued with hqueue | hbatch
  · rw [(h.waiting queued hqueue).1] at hother
    cases hother
  · obtain ⟨current, hcurrent, hlast⟩ := h.taken queued hbatch
    rw [hcurrent] at hother
    cases hother
    exact hreply (h.untouched (silent_of_entry hbatch) τ _ hτ hlast)

theorem Custody.reshape (h : Custody s) {old stage : Stage} (hstage : s.stage = old)
    (hentries : entries stage = entries old)
    (hsenders : ∀ τ, τ ∈ senders stage ↔ τ ∈ senders old)
    (hsilent : silent stage = true → silent old = true) : Custody (s.setStage stage) := by
  subst hstage
  refine ⟨?_, h.membership, h.slots, h.waiting, ?_, h.numbered, ?_, h.fresh, ?_, ?_⟩
  · rw [live, State.setStage, hentries]
    exact h.partition
  · exact fun queued hqueued => h.taken queued (hentries ▸ hqueued)
  · exact fun hquiet => h.untouched (hsilent hquiet)
  · exact fun τ hτ => h.owing τ ((hsenders τ).mp hτ)
  · exact fun τ hretired hwaiting => (hsenders τ).mpr (h.unanswered τ hretired hwaiting)

/-- What the released entry owned, ended; what the others own, did not. -/
theorem owned_retired {n reply : ℕ} {retired : List ℕ} {owned : ℕ → Bool}
    (howned : ∀ τ, owned τ = true ↔ τ < n ∧ τ ∉ retired) (τ : ℕ) :
    (if τ = reply then false else owned τ) = true ↔ τ < n ∧ τ ∉ retired ++ [reply] := by
  rw [List.mem_append, List.mem_singleton, not_or]
  by_cases hτ : τ = reply
  · rw [if_pos hτ]
    exact ⟨nofun, fun hout => absurd hτ hout.2.2⟩
  · rw [if_neg hτ, howned τ]
    exact ⟨fun hin => ⟨hin.1, hin.2, hτ⟩, fun hin => ⟨hin.1, hin.2.1⟩⟩

theorem Custody.retire (h : Custody s) {stage : Stage} {queued : QueuedCompletion}
    (hentries : (entries s.stage).Perm (queued :: entries stage))
    (hsenders : ∀ τ, τ ∈ senders stage ↔ τ ∈ senders s.stage ∨ τ = queued.reply)
    (hsilent : silent s.stage = true) : Custody ((s.retire queued.reply).setStage stage) := by
  have hmem : queued ∈ entries s.stage := hentries.mem_iff.mpr List.mem_cons_self
  have hlive : queued ∈ live s := List.mem_append_right _ hmem
  have hregistered := h.registered_of_live hlive
  refine ⟨?_, owned_retired h.membership, owned_retired h.slots, h.waiting, ?_, h.numbered, ?_,
    h.fresh, ?_, ?_⟩
  · refine List.Perm.trans ?_ h.partition
    have hsame : (tickets (live s)).Perm
        (queued.reply :: tickets (s.queue ++ entries stage)) := by
      refine ((List.Perm.append_left s.queue hentries).map _).trans ?_
      exact (List.perm_middle.map QueuedCompletion.reply)
    calc (tickets (s.queue ++ entries stage) ++ (s.retired ++ [queued.reply])).Perm
          (queued.reply :: tickets (s.queue ++ entries stage) ++ s.retired) := by
            rw [← List.append_assoc]
            exact List.perm_append_comm
      _ = _ := rfl
    exact (hsame.append_right _).symm
  · exact fun other hother => h.taken other (hentries.mem_iff.mpr (List.mem_cons_of_mem _ hother))
  · exact fun _ => h.untouched hsilent
  · intro τ hτ
    rcases (hsenders τ).mp hτ with hold | rfl
    · exact List.mem_append_left _ (h.owing τ hold)
    · exact List.mem_append_right _ List.mem_cons_self
  · intro τ hretired hwaiting
    rcases List.mem_append.mp hretired with hold | hnew
    · exact (hsenders τ).mpr (.inl (h.unanswered τ hold hwaiting))
    · exact (hsenders τ).mpr (.inr (List.mem_singleton.mp hnew))

theorem mem_owed {pruned replies : List ℕ} {answers : Option (List Answer)} {τ : ℕ} :
    τ ∈ (owed pruned replies answers).map Prod.fst ↔ τ ∈ replies ∨ τ ∈ pruned := by
  have hzip : ∀ (replies : List ℕ) (answers : List Answer),
      (zipAnswers replies answers).map Prod.fst = replies := by
    intro replies
    induction replies with
    | nil => exact fun _ => rfl
    | cons reply replies ih => exact fun answers => congrArg (reply :: ·) (ih answers.tail)
  cases answers with
  | none => simp [owed]
  | some answers =>
    rw [owed, List.map_append, hzip, List.mem_append]
    simp [or_comm]

theorem Custody.register (h : Custody s) (key : Key) (deadline : ℕ) :
    Custody (s.register key deadline) := by
  have hout : s.registered ∉ s.retired := fun hretired =>
    Nat.lt_irrefl _ (h.registered_of_retired hretired)
  have hstarts : ∀ (owned : ℕ → Bool), (∀ τ, owned τ = true ↔ τ < s.registered ∧ τ ∉ s.retired) →
      ∀ τ, (if τ = s.registered then true else owned τ) = true ↔
        τ < s.registered + 1 ∧ τ ∉ s.retired := by
    intro owned howned τ
    by_cases hτ : τ = s.registered
    · subst hτ
      rw [if_pos rfl]
      exact ⟨fun _ => ⟨Nat.lt_succ_self _, hout⟩, fun _ => rfl⟩
    · rw [if_neg hτ, howned τ]
      exact and_congr_left fun _ => by omega
  refine ⟨?_, hstarts _ h.membership, hstarts _ h.slots, ?_, h.taken, ?_, h.untouched, ?_,
    h.owing, h.unanswered⟩
  · have hrange : List.range (s.registered + 1) = List.range s.registered ++ [s.registered] :=
      List.range_succ
    have hold : (tickets (live s) ++ s.retired).Perm (List.range s.registered) := h.partition
    simp only [live, tickets, List.map_append] at hold
    simp only [State.register, State.setWaiter, live, tickets, List.map_append, List.map_cons,
      List.map_nil, hrange]
    refine List.Perm.trans ?_ (hold.append_right [s.registered])
    rw [List.append_assoc, List.append_assoc, List.append_assoc, List.append_assoc]
    refine List.Perm.append_left _ ?_
    rw [← List.append_assoc (entries s.stage |>.map _)]
    exact List.perm_append_comm
  · intro queued hqueued
    rcases List.mem_append.mp hqueued with hold | hnew
    · exact h.waiting queued hold
    · rw [List.mem_singleton.mp hnew]
      refine ⟨?_, h.fresh _ (Nat.le_refl _)⟩
      cases hbatch : s.batchOf s.registered with
      | none => exact hbatch
      | some b => exact absurd (h.numbered _ b hbatch).2 (Nat.lt_irrefl _)
  · intro τ b hb
    obtain ⟨hbatch, hτ⟩ := h.numbered τ b hb
    exact ⟨hbatch, Nat.lt_succ_of_lt hτ⟩
  · intro τ hτ
    exact h.fresh τ (Nat.le_of_succ_le hτ)

theorem Custody.take (h : Custody s) {owner : Key} (hstage : s.stage = .taking owner) :
    Custody (s.take owner) := by
  have hno : entries s.stage = [] := by rw [hstage]; rfl
  have hnone : ∀ τ ∈ s.retired, s.replies τ ≠ .waiting := by
    intro τ hτ hwaiting
    have howed := h.unanswered τ hτ hwaiting
    rw [hstage] at howed
    cases howed
  refine ⟨?_, h.membership, h.slots, fun _ hmem => absurd hmem List.not_mem_nil, ?_, ?_, ?_,
    h.fresh, fun _ hmem => absurd hmem List.not_mem_nil,
    fun τ hτ hwaiting => absurd hwaiting (hnone τ hτ)⟩
  · have hold := h.partition
    rw [live, hno, List.append_nil] at hold
    exact hold
  · intro queued hqueued
    exact ⟨s.batches, if_pos (List.mem_map_of_mem hqueued), rfl⟩
  · intro τ b hb
    simp only [State.take] at hb
    split at hb
    · next hmem =>
      obtain ⟨queued, hqueued, rfl⟩ := List.mem_map.mp hmem
      cases hb
      exact ⟨Nat.lt_succ_self _, h.registered_of_live (List.mem_append_left _ hqueued)⟩
    · obtain ⟨hbatch, hτ⟩ := h.numbered τ b hb
      exact ⟨Nat.lt_succ_of_lt hbatch, hτ⟩
  · intro _ τ b hb hlast
    simp only [State.take] at hb hlast
    split at hb
    · next hmem =>
      obtain ⟨queued, hqueued, rfl⟩ := List.mem_map.mp hmem
      exact (h.waiting queued hqueued).2
    · -- An earlier batch is not the current one.
      exact absurd (h.numbered τ b hb).1 (by omega)

theorem Custody.settle (h : Custody s) {owner : Key} {reply : ℕ} {answer : Option Answer}
    {rest : List (ℕ × Option Answer)} (hstage : s.stage = .delivering owner ((reply, answer) :: rest)) :
    Custody ((s.settle reply answer).setStage (.delivering owner rest)) := by
  have hretired : reply ∈ s.retired := h.owing reply (by rw [hstage]; exact List.mem_cons_self)
  have hused : Reply.ofAnswer answer ≠ .waiting := by
    cases answer <;> exact nofun
  have hentries : entries s.stage = [] := by rw [hstage]; rfl
  refine ⟨?_, h.membership, h.slots, ?_, fun _ hmem => absurd hmem List.not_mem_nil, h.numbered,
    nofun, ?_, ?_, ?_⟩
  · have hold := h.partition
    rw [live, hentries] at hold
    exact hold
  · intro queued hqueued
    refine ⟨(h.waiting queued hqueued).1, ?_⟩
    have hne : queued.reply ≠ reply := by
      rintro rfl
      exact h.live_not_retired (List.mem_append_left _ hqueued) hretired
    exact (if_neg hne).trans (h.waiting queued hqueued).2
  · intro τ hτ
    have hne : τ ≠ reply := by
      rintro rfl
      exact Nat.lt_irrefl _ (Nat.lt_of_lt_of_le (h.registered_of_retired hretired) hτ)
    exact (if_neg hne).trans (h.fresh τ hτ)
  · intro τ hτ
    refine h.owing τ ?_
    rw [hstage]
    exact List.mem_cons_of_mem _ hτ
  · intro τ hτ hwaiting
    by_cases hsame : τ = reply
    · subst hsame
      exact absurd ((if_pos rfl).symm.trans hwaiting) hused
    · have howed := h.unanswered τ hτ ((if_neg hsame).symm.trans hwaiting)
      rw [hstage] at howed
      exact (List.mem_cons.mp howed).resolve_left hsame

theorem Custody.dropRegistration (h : Custody s) (key : Key) : Custody (s.dropRegistration key) := by
  rcases drop_registration_cases s key with hsame | ⟨index, queued, hget, -, hdrop⟩
  · rw [hsame]
    exact h
  · rw [hdrop]
    have hperm := swap_remove_perm hget
    have hmem : queued ∈ s.queue := hperm.mem_iff.mpr List.mem_cons_self
    have hlive : queued ∈ live s := List.mem_append_left _ hmem
    have hsub : ∀ other ∈ swapRemove s.queue index, other ∈ s.queue :=
      fun other hother => mem_of_mem_swap_remove hget hother
    have hnodup : (queued.reply :: (swapRemove s.queue index).map QueuedCompletion.reply).Nodup := by
      have hold := h.tickets_nodup
      rw [live, tickets, List.map_append] at hold
      exact (hperm.map QueuedCompletion.reply).nodup_iff.mp hold.of_append_left
    refine ⟨?_, owned_retired h.membership, owned_retired h.slots, ?_, h.taken, h.numbered, ?_,
      ?_, ?_, ?_⟩
    · refine List.Perm.trans ?_ h.partition
      have hmoved : (tickets (live s)).Perm
          (queued.reply :: tickets (swapRemove s.queue index ++ entries s.stage)) :=
        (hperm.append_right (entries s.stage)).map QueuedCompletion.reply
      refine List.Perm.trans ?_ (hmoved.append_right _).symm
      show (tickets (swapRemove s.queue index ++ entries s.stage) ++
        (s.retired ++ [queued.reply])).Perm _
      rw [← List.append_assoc]
      exact List.perm_append_comm
    · intro other hother
      refine ⟨(h.waiting other (hsub other hother)).1, ?_⟩
      have hne : other.reply ≠ queued.reply := by
        intro hsame
        refine (List.nodup_cons.mp hnodup).1 ?_
        rw [← hsame]
        exact List.mem_map_of_mem hother
      exact (if_neg hne).trans (h.waiting other (hsub other hother)).2
    · intro hsilent τ b hb hlast
      have hne : τ ≠ queued.reply := by
        rintro rfl
        have hnone : s.batchOf queued.reply = none := (h.waiting queued hmem).1
        exact absurd (hnone.symm.trans hb) nofun
      exact (if_neg hne).trans (h.untouched hsilent τ b hb hlast)
    · intro τ hτ
      have hne : τ ≠ queued.reply := by
        rintro rfl
        exact Nat.lt_irrefl _ (Nat.lt_of_lt_of_le (h.registered_of_live hlive) hτ)
      exact (if_neg hne).trans (h.fresh τ hτ)
    · exact fun τ hτ => List.mem_append_left _ (h.owing τ hτ)
    · intro τ hτ hwaiting
      by_cases hsame : τ = queued.reply
      · exact absurd ((if_pos hsame).symm.trans hwaiting) nofun
      · have hold : τ ∈ s.retired := (List.mem_append.mp hτ).resolve_right fun hnew =>
          hsame (List.mem_singleton.mp hnew)
        exact h.unanswered τ hold ((if_neg hsame).symm.trans hwaiting)

/-- A step that leaves the queue, the stage and everything observed of the registrations. -/
theorem Custody.frame (h : Custody s) (hqueue : t.queue = s.queue) (hstage : t.stage = s.stage)
    (hregistered : t.registered = s.registered) (hbatches : t.batches = s.batches)
    (hbatchOf : t.batchOf = s.batchOf) (hmembership : t.membership = s.membership)
    (hslots : t.slots = s.slots) (hretired : t.retired = s.retired)
    (hreplies : t.replies = s.replies) : Custody t := by
  cases s
  cases t
  subst hqueue hstage hregistered hbatches hbatchOf hmembership hslots hretired hreplies
  exact ⟨h.partition, h.membership, h.slots, h.waiting, h.taken, h.numbered, h.untouched, h.fresh,
    h.owing, h.unanswered⟩

theorem Custody.setWaiter (h : Custody s) (key : Key) (waiter : Waiter) :
    Custody (s.setWaiter key waiter) :=
  h.frame rfl rfl rfl rfl rfl rfl rfl rfl rfl

theorem custody_move (move : Move s t) (h : Custody s) : Custody t := by
  cases move with
  | register _ => exact h.register _ _
  | lock _ hfree => exact (h.setWaiter _ _).reshape hfree rfl (fun _ => Iff.rfl) nofun
  | take hstage => exact h.take hstage
  | prune hstage hget =>
    refine h.retire ?_ (fun τ => ?_) (by rw [hstage]; rfl)
    · rw [hstage]
      exact swap_remove_perm hget
    · rw [hstage]
      exact List.mem_append.trans (or_congr_right List.mem_singleton)
  | keep hstage => exact h.reshape hstage rfl (fun _ => Iff.rfl) id
  | bind hstage => exact h.reshape hstage rfl (fun _ => Iff.rfl) id
  | @run owner batch deadline now hstage =>
    have hsame : Custody (s.setStage (.executing owner batch deadline
        (some (completedBy s.rows batch.keys)))) := h.reshape hstage rfl (fun _ => Iff.rfl) id
    exact hsame.frame rfl rfl rfl rfl rfl rfl rfl rfl rfl
  | @answer owner batch deadline done positions hstage _ =>
    have hsame : Custody (s.setStage (.retiring owner batch.unbind []
        (some (applied batch.queued.length positions)))) :=
      h.reshape hstage rfl (fun _ => Iff.rfl) fun _ => rfl
    exact hsame.frame rfl rfl rfl rfl rfl rfl rfl rfl rfl
  | fail hstage => exact h.reshape hstage rfl (fun _ => Iff.rfl) fun _ => rfl
  | dropPruned hstage => exact h.reshape hstage rfl (fun _ => Iff.rfl) fun _ => rfl
  | dropExecuting hstage => exact h.reshape hstage rfl (fun _ => Iff.rfl) fun _ => rfl
  | retire hstage hqueued =>
    refine h.retire ?_ (fun τ => ?_) (by rw [hstage]; rfl)
    · rw [hstage, entries, hqueued]
      exact List.Perm.refl _
    · rw [hstage]
      simp only [senders, List.mem_append, List.mem_singleton]
      tauto
  | gather hstage hqueued =>
    exact h.reshape hstage hqueued.symm (fun τ => mem_owed.trans List.mem_append.symm) nofun
  | settle hstage => exact h.settle hstage
  | unlock hstage => exact (h.setWaiter _ _).reshape hstage rfl (fun _ => Iff.rfl) nofun
  | receive _ _ => exact h.setWaiter _ _
  | cancel _ => exact h.setWaiter _ _
  | cancelWriter _ hstage =>
    exact (h.setWaiter _ _).reshape hstage rfl (fun _ => Iff.rfl) fun _ => rfl
  | dropResponse _ => exact h.frame rfl rfl rfl rfl rfl rfl rfl rfl rfl
  | dropRegistration _ => exact (h.dropRegistration _).setWaiter _ _
  | tick => exact h.frame rfl rfl rfl rfl rfl rfl rfl rfl rfl
  | endCleanup => exact h.frame rfl rfl rfl rfl rfl rfl rfl rfl rfl
  | environment _ => exact h.frame rfl rfl rfl rfl rfl rfl rfl rfl rfl

theorem custody_initial : Custody initial where
  partition := List.Perm.refl _
  membership := fun τ => ⟨nofun, fun h => absurd h.1 (Nat.not_lt_zero τ)⟩
  slots := fun τ => ⟨nofun, fun h => absurd h.1 (Nat.not_lt_zero τ)⟩
  waiting := nofun
  taken := nofun
  numbered := nofun
  untouched := nofun
  fresh := fun _ _ => rfl
  owing := nofun
  unanswered := nofun

theorem custody_reachable (h : system.Reachable s) : Custody s := by
  refine h.induction (P := Custody) custody_initial ?_
  intro s e t _ hs hstep
  exact custody_move (step_cases hstep) hs

structure Engaged (s : State) : Prop where
  own : ∀ queued ∈ live s, (s.waiters queued.key).reply = some queued.reply
  left : ∀ key reply, s.waiters key = .leaving reply false → s.replies reply ≠ .waiting
  named : ∀ key reply, (s.waiters key).reply = some reply →
    reply < s.registered ∧ s.keyOf reply = key

theorem Engaged.key_of (h : Engaged s) {queued : QueuedCompletion} (hlive : queued ∈ live s) :
    s.keyOf queued.reply = queued.key := (h.named _ _ (h.own queued hlive)).2

theorem Engaged.keys_nodup (h : Engaged s) (hcustody : Custody s) :
    ((live s).map QueuedCompletion.key).Nodup := by
  refine List.Nodup.map_on ?_ (List.Nodup.of_map _ hcustody.tickets_nodup)
  intro first hfirst second hsecond hkey
  refine List.inj_on_of_nodup_map hcustody.tickets_nodup hfirst hsecond ?_
  have howner := h.own first hfirst
  rw [hkey, h.own second hsecond] at howner
  exact (Option.some.inj howner).symm

theorem Engaged.reshape (h : Engaged s) (hlive : ∀ queued ∈ live t, queued ∈ live s)
    (hwaiters : t.waiters = s.waiters) (hregistered : t.registered = s.registered)
    (hkeyOf : t.keyOf = s.keyOf)
    (hreplies : ∀ reply, s.replies reply ≠ .waiting → t.replies reply ≠ .waiting) : Engaged t := by
  refine ⟨?_, ?_, ?_⟩
  · intro queued hqueued
    rw [hwaiters]
    exact h.own queued (hlive queued hqueued)
  · intro key reply hleaving
    rw [hwaiters] at hleaving
    exact hreplies reply (h.left key reply hleaving)
  · intro key reply hreply
    rw [hwaiters] at hreply
    rw [hregistered, hkeyOf]
    exact h.named key reply hreply

theorem Engaged.setWaiter (h : Engaged s) {key : Key} (waiter : Waiter)
    (hreply : waiter.reply = (s.waiters key).reply)
    (hleft : ∀ reply, waiter = .leaving reply false → s.replies reply ≠ .waiting) :
    Engaged (s.setWaiter key waiter) := by
  have hsame : ∀ other, ((s.setWaiter key waiter).waiters other).reply = (s.waiters other).reply := by
    intro other
    by_cases hother : other = key
    · subst hother
      exact (congrArg Waiter.reply (if_pos rfl)).trans hreply
    · exact congrArg Waiter.reply (if_neg hother)
  refine ⟨?_, ?_, ?_⟩
  · intro queued hqueued
    rw [hsame]
    exact h.own queued hqueued
  · intro other reply hleaving
    by_cases hother : other = key
    · exact hleft reply ((if_pos hother).symm.trans hleaving)
    · exact h.left other reply ((if_neg hother).symm.trans hleaving)
  · intro other reply hother
    rw [hsame] at hother
    exact h.named other reply hother

theorem settled_stays {reply : ℕ} {answer : Option Answer} (other : ℕ)
    (h : s.replies other ≠ .waiting) : (s.settle reply answer).replies other ≠ .waiting := by
  by_cases hother : other = reply
  · intro hwaiting
    have hsent : Reply.ofAnswer answer = .waiting := (if_pos hother).symm.trans hwaiting
    cases answer <;> cases hsent
  · exact fun hwaiting => h ((if_neg hother).symm.trans hwaiting)

theorem Engaged.dropRegistration (h : Engaged s) (key : Key) : Engaged (s.dropRegistration key) := by
  rcases drop_registration_cases s key with hsame | ⟨index, queued, hget, -, hdrop⟩
  · rw [hsame]
    exact h
  · rw [hdrop]
    refine h.reshape ?_ rfl rfl rfl (fun other hother => settled_stays other hother)
    intro other hother
    rcases List.mem_append.mp hother with hqueue | hbatch
    · exact List.mem_append_left _ (mem_of_mem_swap_remove hget hqueue)
    · exact List.mem_append_right _ hbatch

/-- The supervisor of an answered registration has no live entry left. -/
theorem Engaged.answered_free (h : Engaged s) (hcustody : Custody s) {key : Key} {reply : ℕ}
    (hkey : s.waiters key = .leaving reply false) :
    ∀ queued ∈ live s, queued.key ≠ key := by
  intro queued hqueued hsame
  have hown := h.own queued hqueued
  rw [hsame, hkey] at hown
  cases hown
  exact h.left key _ hkey (hcustody.live_waiting hqueued)

theorem drop_registration_waiters (s : State) (key : Key) :
    (s.dropRegistration key).waiters = s.waiters := by
  rcases drop_registration_cases s key with hsame | ⟨_, _, _, _, hdrop⟩
  · rw [hsame]
  · rw [hdrop]
    rfl

theorem live_drop_registration (s : State) (key : Key) :
    ∀ queued ∈ live (s.dropRegistration key), queued ∈ live s := by
  rcases drop_registration_cases s key with hsame | ⟨index, gone, hget, -, hdrop⟩
  · rw [hsame]
    exact fun _ hqueued => hqueued
  · rw [hdrop]
    intro queued hqueued
    rcases List.mem_append.mp hqueued with hqueue | hbatch
    · exact List.mem_append_left _ (mem_of_mem_swap_remove hget hqueue)
    · exact List.mem_append_right _ hbatch

theorem Engaged.leave (h : Engaged s) (hcustody : Custody s) {key : Key} {reply : ℕ}
    {cancelled : Bool} (hkey : s.waiters key = .leaving reply cancelled) :
    Engaged ((s.dropRegistration key).setWaiter key (.after reply cancelled (s.replies reply))) := by
  have hdropped : Engaged (s.dropRegistration key) := h.dropRegistration key
  have hwaiters : (s.dropRegistration key).waiters key = .leaving reply cancelled := by
    rw [drop_registration_waiters, hkey]
  by_cases hgone : Waiter.after reply cancelled (s.replies reply) = .gone reply
  · rw [hgone]
    refine hdropped.setWaiter _ ?_ (fun _ => nofun)
    rw [hwaiters]
    rfl
  · have hanswered : cancelled = false := by
      cases cancelled
      · rfl
      · exact absurd rfl hgone
    subst hanswered
    have hidle : Waiter.after reply false (s.replies reply) = .idle := by
      unfold Waiter.after at hgone ⊢
      cases hreply : s.replies reply with
      | waiting | closed => rfl
      | sent answer =>
        cases answer with
        | error _ => rfl
        | ok applied =>
          rw [hreply] at hgone
          exact absurd rfl hgone
    have hfree := h.answered_free hcustody hkey
    rw [hidle]
    refine ⟨?_, ?_, ?_⟩
    · intro queued hqueued
      have hlive := live_drop_registration s key queued hqueued
      exact (congrArg Waiter.reply (if_neg (hfree queued hlive))).trans
        (hdropped.own queued hqueued)
    · intro other waiting hleaving
      by_cases hother : other = key
      · exact absurd ((if_pos hother).symm.trans hleaving) nofun
      · exact hdropped.left other waiting ((if_neg hother).symm.trans hleaving)
    · intro other waiting hreply
      by_cases hother : other = key
      · exact absurd ((congrArg Waiter.reply (if_pos hother)).symm.trans hreply) nofun
      · exact hdropped.named other waiting
          ((congrArg Waiter.reply (if_neg hother)).symm.trans hreply)

theorem Engaged.register (h : Engaged s) {key : Key} {deadline : ℕ}
    (hidle : s.waiters key = .idle) : Engaged (s.register key deadline) := by
  have hbusy : ∀ queued ∈ live s, queued.key ≠ key := by
    intro queued hqueued hsame
    have hown := h.own queued hqueued
    rw [hsame, hidle] at hown
    cases hown
  refine ⟨?_, ?_, ?_⟩
  · intro queued hqueued
    simp only [live, State.register, State.setWaiter, List.mem_append, List.mem_singleton] at hqueued
    rcases hqueued with (hold | rfl) | hbatch
    · have hlive : queued ∈ live s := List.mem_append_left _ hold
      exact (congrArg Waiter.reply (if_neg (hbusy queued hlive))).trans (h.own queued hlive)
    · exact congrArg Waiter.reply (if_pos rfl)
    · have hlive : queued ∈ live s := List.mem_append_right _ hbatch
      exact (congrArg Waiter.reply (if_neg (hbusy queued hlive))).trans (h.own queued hlive)
  · intro other reply hleaving
    by_cases hother : other = key
    · exact absurd ((if_pos hother).symm.trans hleaving) nofun
    · exact h.left other reply ((if_neg hother).symm.trans hleaving)
  · intro other reply hreply
    by_cases hother : other = key
    · have hnew : some s.registered = some reply :=
        (congrArg Waiter.reply (if_pos hother)).symm.trans hreply
      cases hnew
      exact ⟨Nat.lt_succ_self _, (if_pos rfl).trans hother.symm⟩
    · obtain ⟨hregistered, hkey⟩ :=
        h.named other reply ((congrArg Waiter.reply (if_neg hother)).symm.trans hreply)
      exact ⟨Nat.lt_succ_of_lt hregistered, (if_neg (Nat.ne_of_lt hregistered)).trans hkey⟩

theorem unlocked_reply (waiter : Waiter) : waiter.unlocked.reply = waiter.reply := by
  cases waiter with
  | writing reply cancelled => cases cancelled <;> rfl
  | idle | locking | awaiting | abandoned | leaving | gone => rfl

theorem unlocked_left {waiter : Waiter} {reply : ℕ} (h : waiter.unlocked = .leaving reply false) :
    waiter = .leaving reply false := by
  cases waiter with
  | writing reply cancelled => cases cancelled <;> cases h
  | idle | locking | awaiting | abandoned | leaving | gone => exact h

theorem engaged_move (move : Move s t) (hcustody : Custody s) (h : Engaged s) : Engaged t := by
  have hkeep : ∀ {stage : Stage}, (∀ queued ∈ entries stage, queued ∈ live s) →
      ∀ queued ∈ live (s.setStage stage), queued ∈ live s := by
    intro stage hentries queued hqueued
    rcases List.mem_append.mp hqueued with hqueue | hbatch
    · exact List.mem_append_left _ hqueue
    · exact hentries queued hbatch
  have hheld : ∀ {old : Stage}, s.stage = old → ∀ queued ∈ entries old, queued ∈ live s := by
    intro old hstage queued hqueued
    exact List.mem_append_right _ (hstage ▸ hqueued)
  cases move with
  | register hidle => exact h.register hidle
  | @lock key reply hlocking hfree =>
    have hwaiter := h.setWaiter (.writing reply false) (by rw [hlocking]; rfl) (fun _ => nofun)
    exact hwaiter.reshape (hkeep (fun _ => nofun)) rfl rfl rfl fun _ hreply => hreply
  | take hstage =>
    refine h.reshape ?_ rfl rfl rfl fun _ hreply => hreply
    exact fun queued hqueued => List.mem_append_left _ hqueued
  | prune hstage hget =>
    refine h.reshape (hkeep fun queued hqueued => ?_) rfl rfl rfl fun _ hreply => hreply
    exact hheld hstage queued (mem_of_mem_swap_remove hget hqueued)
  | keep hstage | bind hstage | run hstage | answer hstage _ | fail hstage | dropPruned hstage
  | dropExecuting hstage =>
    have hsame := hheld hstage
    exact h.reshape (hkeep hsame) rfl rfl rfl fun _ hreply => hreply
  | retire hstage hqueued =>
    refine h.reshape (hkeep fun queued hrest => ?_) rfl rfl rfl fun _ hreply => hreply
    refine hheld hstage queued ?_
    rw [entries, hqueued]
    exact List.mem_cons_of_mem _ hrest
  | gather hstage _ =>
    exact h.reshape (hkeep fun _ => nofun) rfl rfl rfl fun _ hreply => hreply
  | settle hstage =>
    exact h.reshape (hkeep fun _ => nofun) rfl rfl rfl fun other hother => settled_stays other hother
  | @unlock owner hstage =>
    have hwaiter := h.setWaiter _ (unlocked_reply (s.waiters owner))
      fun reply hleft => h.left owner reply (unlocked_left hleft)
    exact hwaiter.reshape (hkeep fun _ => nofun) rfl rfl rfl fun _ hreply => hreply
  | receive hawaiting hreply =>
    refine h.setWaiter _ (by rw [hawaiting]; rfl) fun reply hsame => ?_
    cases hsame
    exact hreply
  | cancel hreply => exact h.setWaiter _ hreply.symm fun _ => nofun
  | @cancelWriter owner reply batch deadline done hwriting hstage =>
    have hwaiter := h.setWaiter (.writing reply true) (by rw [hwriting]; rfl) (fun _ => nofun)
    have hsame := hheld hstage
    exact hwaiter.reshape (hkeep hsame) rfl rfl rfl fun _ hreply => hreply
  | @dropResponse key reply habandoned =>
    have hwaiter := h.setWaiter (.leaving reply true) (by rw [habandoned]; rfl)
      (fun _ => nofun)
    exact hwaiter.reshape (fun _ hqueued => hqueued) rfl rfl rfl fun _ hreply => hreply
  | dropRegistration hleaving => exact h.leave hcustody hleaving
  | tick | endCleanup | environment _ =>
    exact h.reshape (fun _ hqueued => hqueued) rfl rfl rfl fun _ hreply => hreply

theorem engaged_initial : Engaged initial where
  own := nofun
  left := nofun
  named := nofun

theorem engaged_reachable (h : system.Reachable s) : Engaged s := by
  refine h.induction (P := Engaged) engaged_initial ?_
  intro s e t hs hengaged hstep
  exact engaged_move (step_cases hstep) (custody_reachable hs) hengaged

def pending : Stage → List (ℕ × Option Answer)
  | .pruning _ batch _ | .executing _ batch _ _ => batch.prunedReplies.map fun reply => (reply, none)
  | .retiring _ batch senders answers =>
    owed batch.prunedReplies (senders ++ tickets batch.queued) answers
  | .delivering _ owed => owed
  | _ => []

def unread : Stage → List QueuedCompletion
  | .pruning _ batch _ | .executing _ batch _ _ => batch.queued
  | _ => []

/-- The reply of a registration says what the statement did, or that nothing was read of it. -/
def Fits (s : State) (τ : ℕ) : Reply → Prop
  | .waiting => True
  | .sent (.ok applied) => s.answered τ = true ∧ s.completed τ = some applied
  | .sent (.error _) | .closed => s.answered τ = false

/-- The arrays are those of the entries, and so is what was recorded of the rows. -/
def Aligned (completed : ℕ → Option Bool) : Stage → Prop
  | .pruning _ batch _ => batch.ids = [] ∧ batch.generations = []
  | .executing _ batch _ done => batch.keys = batch.queued.map QueuedCompletion.key ∧
    ∀ names, done = some names → ∀ queued ∈ batch.queued,
      completed queued.reply = some (names.contains queued.key)
  | _ => True

structure Answered (s : State) : Prop where
  decided : ∀ τ, Fits s τ (s.replies τ)
  pending : ∀ p ∈ pending s.stage, Fits s p.1 (.ofAnswer p.2)
  unread : ∀ queued ∈ s.queue ++ unread s.stage, s.answered queued.reply = false
  fresh : ∀ τ, s.registered ≤ τ → s.answered τ = false
  aligned : Aligned s.completed s.stage

theorem mem_zip_answers {replies : List ℕ} {answers : List Answer} {p : ℕ × Option Answer}
    (h : p ∈ zipAnswers replies answers) : ∃ index : ℕ, replies[index]? = some p.1 ∧
      p.2 = answers[index]? := by
  induction replies generalizing answers with
  | nil => cases h
  | cons reply replies ih =>
    rcases List.mem_cons.mp h with rfl | hrest
    · exact ⟨0, rfl, List.head?_eq_getElem?⟩
    · obtain ⟨index, hreply, hanswer⟩ := ih hrest
      exact ⟨index + 1, hreply, by rw [hanswer, List.getElem?_tail]⟩

theorem keys_bind {batch : CompletionBatch} (hids : batch.ids = [])
    (hgenerations : batch.generations = []) :
    batch.bind.keys = batch.queued.map QueuedCompletion.key := by
  rw [CompletionBatch.keys, CompletionBatch.bind, hids, hgenerations, List.nil_append,
    List.nil_append, List.zip_map']
  rfl

theorem Answered.reshape (h : Answered s) (hanswered : t.answered = s.answered)
    (hcompleted : t.completed = s.completed) (hreplies : t.replies = s.replies)
    (hregistered : s.registered ≤ t.registered)
    (hunread : ∀ queued ∈ t.queue ++ CompletionCustody.unread t.stage,
      s.answered queued.reply = false)
    (hpending : ∀ p ∈ CompletionCustody.pending t.stage, Fits s p.1 (.ofAnswer p.2))
    (haligned : Aligned s.completed t.stage) : Answered t := by
  have hfits : ∀ τ reply, Fits s τ reply → Fits t τ reply := by
    intro τ reply hreply
    unfold Fits at hreply ⊢
    rw [hanswered, hcompleted]
    exact hreply
  refine ⟨?_, ?_, ?_, ?_, ?_⟩
  · intro τ
    rw [hreplies]
    exact hfits τ _ (h.decided τ)
  · exact fun p hp => hfits _ _ (hpending p hp)
  · rw [hanswered]
    exact hunread
  · rw [hanswered]
    exact fun τ hτ => h.fresh τ (Nat.le_trans hregistered hτ)
  · rw [hcompleted]
    exact haligned

/-- A batch that is dropped tells nobody. -/
theorem dropped_fits {pruned : List ℕ} {queued : List QueuedCompletion}
    (hpruned : ∀ reply ∈ pruned, s.answered reply = false)
    (hqueued : ∀ entry ∈ queued, s.answered entry.reply = false) :
    ∀ p ∈ owed pruned ([] ++ tickets queued) none, Fits s p.1 (.ofAnswer p.2) := by
  intro p hp
  obtain ⟨reply, hreply, rfl⟩ := List.mem_map.mp hp
  rcases List.mem_append.mp hreply with hmem | hmem
  · obtain ⟨entry, hentry, rfl⟩ := List.mem_map.mp hmem
    exact hqueued entry hentry
  · exact hpruned reply hmem

theorem Answered.pruned (h : Answered s) (pruned : List ℕ)
    (hstage : CompletionCustody.pending s.stage = pruned.map fun reply => (reply, none)) :
    ∀ reply ∈ pruned, s.answered reply = false := by
  intro reply hreply
  exact h.pending (reply, none) (by rw [hstage]; exact List.mem_map_of_mem hreply)

theorem Answered.run (h : Answered s) (hcustody : Custody s) (hengaged : Engaged s) {owner : Key}
    {batch : CompletionBatch} {deadline : ℕ} {now : Time}
    (hstage : s.stage = .executing owner batch deadline none) :
    Answered (s.run owner batch deadline now) := by
  have hlive : ∀ queued ∈ batch.queued, queued ∈ live s := by
    intro queued hqueued
    exact List.mem_append_right _ (by rw [hstage]; exact hqueued)
  have halign : Aligned s.completed (.executing owner batch deadline none) := hstage ▸ h.aligned
  have hpruned := h.pruned batch.prunedReplies (by rw [hstage]; rfl)
  refine ⟨?_, ?_, ?_, h.fresh, halign.1, ?_⟩
  · intro τ
    by_cases hτ : τ ∈ batch.queued.map QueuedCompletion.reply
    · obtain ⟨queued, hqueued, rfl⟩ := List.mem_map.mp hτ
      show Fits _ _ (s.replies queued.reply)
      rw [hcustody.live_waiting (hlive queued hqueued)]
      exact trivial
    · have hold := h.decided τ
      show Fits _ _ (s.replies τ)
      cases hreply : s.replies τ with
      | waiting => exact trivial
      | closed =>
        rw [hreply] at hold
        exact hold
      | sent answer =>
        rw [hreply] at hold
        cases answer with
        | error _ => exact hold
        | ok applied => exact ⟨hold.1, (if_neg hτ).trans hold.2⟩
  · intro p hp
    obtain ⟨reply, hreply, rfl⟩ := List.mem_map.mp hp
    exact hpruned reply hreply
  · intro queued hqueued
    refine h.unread queued ?_
    rw [hstage]
    exact hqueued
  · intro names hnames queued hqueued
    cases hnames
    have hmem : queued.reply ∈ batch.queued.map QueuedCompletion.reply :=
      List.mem_map_of_mem hqueued
    refine (if_pos hmem).trans ?_
    rw [hengaged.key_of (hlive queued hqueued), List.contains_eq_mem]

theorem Answered.answer (h : Answered s) (hcustody : Custody s) (hengaged : Engaged s)
    {owner : Key} {batch : CompletionBatch} {deadline : ℕ} {done : List Key} {positions : List ℤ}
    (hstage : s.stage = .executing owner batch deadline (some done))
    (hanswer : Answers batch.keys done positions) : Answered (s.answer owner batch positions) := by
  have hlive : ∀ queued ∈ batch.queued, queued ∈ live s := by
    intro queued hqueued
    exact List.mem_append_right _ (by rw [hstage]; exact hqueued)
  have halign : Aligned s.completed (.executing owner batch deadline (some done)) :=
    hstage ▸ h.aligned
  have hpruned := h.pruned batch.prunedReplies (by rw [hstage]; rfl)
  have hkeys : (batch.queued.map QueuedCompletion.key).Nodup := by
    have hall := hengaged.keys_nodup hcustody
    rw [live, List.map_append, hstage] at hall
    exact hall.of_append_right
  rw [halign.1] at hanswer
  have hout : ∀ τ, τ ∉ batch.queued.map QueuedCompletion.reply →
      (s.answer owner batch positions).answered τ = s.answered τ := fun _ hτ => if_neg hτ
  refine ⟨?_, ?_, ?_, ?_, trivial⟩
  · intro τ
    by_cases hτ : τ ∈ batch.queued.map QueuedCompletion.reply
    · obtain ⟨queued, hqueued, rfl⟩ := List.mem_map.mp hτ
      show Fits _ _ (s.replies queued.reply)
      rw [hcustody.live_waiting (hlive queued hqueued)]
      exact trivial
    · have hold := h.decided τ
      show Fits _ _ (s.replies τ)
      cases hreply : s.replies τ with
      | waiting => exact trivial
      | closed =>
        rw [hreply] at hold
        exact (hout τ hτ).trans hold
      | sent answer =>
        rw [hreply] at hold
        cases answer with
        | error _ => exact (hout τ hτ).trans hold
        | ok applied => exact ⟨(hout τ hτ).trans hold.1, hold.2⟩
  · intro p hp
    rcases List.mem_append.mp hp with hclosed | hsent
    · obtain ⟨reply, hreply, rfl⟩ := List.mem_map.mp hclosed
      have hretired : reply ∈ s.retired := hcustody.owing reply (by rw [hstage]; exact hreply)
      have hother : reply ∉ batch.queued.map QueuedCompletion.reply := by
        intro hmem
        obtain ⟨queued, hqueued, rfl⟩ := List.mem_map.mp hmem
        exact hcustody.live_not_retired (hlive queued hqueued) hretired
      exact (hout reply hother).trans (hpruned reply hreply)
    · obtain ⟨index, hreply, hflag⟩ := mem_zip_answers hsent
      rw [List.nil_append, tickets, CompletionBatch.unbind, List.getElem?_map,
        Option.map_eq_some_iff] at hreply
      obtain ⟨queued, hget, hsame⟩ := hreply
      have hkey : (batch.queued.map QueuedCompletion.key)[index]? = some queued.key := by
        rw [List.getElem?_map, hget]
        rfl
      have happlied := applied_getElem hkeys hanswer hkey
      rw [List.length_map] at happlied
      have hmem : queued ∈ batch.queued := List.mem_of_getElem? hget
      have hcompleted := halign.2 done rfl queued hmem
      rw [List.contains_eq_mem] at hcompleted
      rw [hflag, happlied, ← hsame]
      exact ⟨if_pos (List.mem_map_of_mem hmem), hcompleted⟩
  · intro queued hqueued
    have hqueue : queued ∈ s.queue := (List.mem_append.mp hqueued).resolve_right nofun
    have hother : queued.reply ∉ batch.queued.map QueuedCompletion.reply := by
      have hnodup := hcustody.tickets_nodup
      rw [live, tickets, List.map_append, hstage] at hnodup
      exact fun hmem => List.disjoint_of_nodup_append hnodup (List.mem_map_of_mem hqueue) hmem
    exact (hout _ hother).trans (h.unread queued (List.mem_append_left _ hqueue))
  · intro τ hτ
    have hother : τ ∉ batch.queued.map QueuedCompletion.reply := by
      intro hmem
      obtain ⟨queued, hqueued, rfl⟩ := List.mem_map.mp hmem
      exact Nat.lt_irrefl _
        (Nat.lt_of_lt_of_le (hcustody.registered_of_live (hlive queued hqueued)) hτ)
    exact (hout τ hother).trans (h.fresh τ hτ)

theorem Answered.settle (h : Answered s) {reply : ℕ} {answer : Option Answer}
    (hreply : Fits s reply (.ofAnswer answer)) : Answered (s.settle reply answer) where
  decided τ := by
    by_cases hτ : τ = reply
    · subst hτ
      show Fits s τ (if τ = τ then _ else _)
      rw [if_pos rfl]
      exact hreply
    · show Fits s τ (if τ = reply then _ else _)
      rw [if_neg hτ]
      exact h.decided τ
  pending := h.pending
  unread := h.unread
  fresh := h.fresh
  aligned := h.aligned

theorem answered_move (move : Move s t) (hcustody : Custody s) (hengaged : Engaged s)
    (h : Answered s) : Answered t := by
  have hread : ∀ {stage : Stage}, s.stage = stage → ∀ queued ∈ CompletionCustody.unread stage,
      s.answered queued.reply = false := fun hstage queued hqueued =>
    h.unread queued (List.mem_append_right _ (hstage ▸ hqueued))
  have hqueue : ∀ queued ∈ s.queue, s.answered queued.reply = false := fun queued hqueued =>
    h.unread queued (List.mem_append_left _ hqueued)
  have hjoin : ∀ {stage : Stage}, (∀ queued ∈ CompletionCustody.unread stage,
      s.answered queued.reply = false) → ∀ queued ∈ s.queue ++ CompletionCustody.unread stage,
        s.answered queued.reply = false := fun hstage queued hqueued =>
    (List.mem_append.mp hqueued).elim (hqueue queued) (hstage queued)
  have hold : ∀ {stage : Stage}, s.stage = stage → ∀ p ∈ CompletionCustody.pending stage,
      Fits s p.1 (.ofAnswer p.2) := fun hstage p hp => h.pending p (hstage ▸ hp)
  have hdrop : ∀ {stage : Stage} {batch : CompletionBatch}, s.stage = stage →
      CompletionCustody.pending stage = batch.prunedReplies.map (fun reply => (reply, none)) →
      CompletionCustody.unread stage = batch.queued →
      ∀ p ∈ owed batch.prunedReplies ([] ++ tickets batch.queued) none,
        Fits s p.1 (.ofAnswer p.2) := by
    intro stage batch hstage hpending hunread
    refine dropped_fits (h.pruned _ (hstage ▸ hpending)) fun queued hqueued => ?_
    exact hread hstage queued (hunread ▸ hqueued)
  cases move with
  | @register key deadline _ =>
    refine h.reshape rfl rfl rfl (Nat.le_succ _) ?_ h.pending h.aligned
    intro queued hqueued
    simp only [State.register, State.setWaiter, List.mem_append, List.mem_singleton] at hqueued
    rcases hqueued with (hmem | rfl) | hbatch
    · exact hqueue queued hmem
    · exact h.fresh _ (Nat.le_refl _)
    · exact hread rfl queued hbatch
  | lock _ _ => exact h.reshape rfl rfl rfl (Nat.le_refl _) (hjoin fun _ => nofun) (fun _ => nofun) trivial
  | take _ =>
    exact h.reshape rfl rfl rfl (Nat.le_refl _) (fun queued hqueued => hqueue queued hqueued)
      (fun _ => nofun) ⟨rfl, rfl⟩
  | @prune owner batch index queued hstage hget =>
    have haligned : Aligned s.completed (.pruning owner batch index) := hstage ▸ h.aligned
    refine h.reshape rfl rfl rfl (Nat.le_refl _) (hjoin fun other hother => ?_) ?_ haligned
    · exact hread hstage other (mem_of_mem_swap_remove hget hother)
    · intro p hp
      obtain ⟨reply, hreply, rfl⟩ := List.mem_map.mp hp
      rcases List.mem_append.mp hreply with hmem | hmem
      · exact h.pruned batch.prunedReplies (by rw [hstage]; rfl) reply hmem
      · rw [List.mem_singleton.mp hmem]
        exact hread hstage queued (List.mem_of_getElem? hget)
  | @keep owner batch index hstage =>
    have haligned : Aligned s.completed (.pruning owner batch index) := hstage ▸ h.aligned
    have hunread := hread hstage
    have hpending := hold hstage
    exact h.reshape rfl rfl rfl (Nat.le_refl _) (hjoin hunread) hpending haligned
  | @bind owner batch index deadline hstage =>
    have haligned : Aligned s.completed (.pruning owner batch index) := hstage ▸ h.aligned
    have hunread := hread hstage
    have hpending := hold hstage
    exact h.reshape rfl rfl rfl (Nat.le_refl _) (hjoin hunread) hpending
      ⟨keys_bind haligned.1 haligned.2, fun _ => nofun⟩
  | run hstage => exact h.run hcustody hengaged hstage
  | answer hstage hanswer => exact h.answer hcustody hengaged hstage hanswer
  | @fail owner batch deadline done hstage =>
    refine h.reshape rfl rfl rfl (Nat.le_refl _) (hjoin fun _ => nofun) ?_ trivial
    intro p hp
    rcases List.mem_append.mp hp with hclosed | hsent
    · obtain ⟨reply, hreply, rfl⟩ := List.mem_map.mp hclosed
      exact h.pruned batch.prunedReplies (by rw [hstage]; rfl) reply hreply
    · obtain ⟨index, hreply, hflag⟩ := mem_zip_answers hsent
      rw [List.nil_append, tickets, CompletionBatch.unbind, List.getElem?_map,
        Option.map_eq_some_iff] at hreply
      obtain ⟨queued, hget, hsame⟩ := hreply
      have hindex : index < batch.queued.length := (List.getElem?_eq_some_iff.mp hget).1
      rw [hflag, List.getElem?_replicate, if_pos hindex, ← hsame]
      exact hread hstage queued (List.mem_of_getElem? hget)
  | @dropPruned owner batch index hstage =>
    exact h.reshape rfl rfl rfl (Nat.le_refl _) (hjoin fun _ => nofun) (hdrop hstage rfl rfl) trivial
  | @dropExecuting owner batch deadline done hstage =>
    exact h.reshape rfl rfl rfl (Nat.le_refl _) (hjoin fun _ => nofun) (hdrop hstage rfl rfl) trivial
  | @retire owner batch senders answers queued rest hstage hqueued =>
    refine h.reshape rfl rfl rfl (Nat.le_refl _) (hjoin fun _ => nofun) ?_ trivial
    have hsame : CompletionCustody.pending (.retiring owner { batch with queued := rest }
        (senders ++ [queued.reply]) answers) = CompletionCustody.pending s.stage := by
      rw [hstage, CompletionCustody.pending, CompletionCustody.pending, hqueued,
        List.append_assoc]
      rfl
    intro p hp
    exact h.pending p (hsame ▸ hp)
  | @gather owner batch senders answers hstage hqueued =>
    refine h.reshape rfl rfl rfl (Nat.le_refl _) (hjoin fun _ => nofun) ?_ trivial
    have hsame : owed batch.prunedReplies senders answers = CompletionCustody.pending s.stage := by
      rw [hstage, CompletionCustody.pending, hqueued, tickets, List.map_nil, List.append_nil]
    intro p hp
    exact h.pending p (hsame ▸ hp)
  | @settle owner reply answer rest hstage =>
    have hpending := hold hstage
    have hsettled := h.settle (hpending (reply, answer) List.mem_cons_self)
    refine hsettled.reshape rfl rfl rfl (Nat.le_refl _) (hjoin fun _ => nofun) ?_ trivial
    exact fun p hp => hpending p (List.mem_cons_of_mem _ hp)
  | unlock _ => exact h.reshape rfl rfl rfl (Nat.le_refl _) (hjoin fun _ => nofun) (fun _ => nofun) trivial
  | @cancelWriter owner reply batch deadline done _ hstage =>
    exact h.reshape rfl rfl rfl (Nat.le_refl _) (hjoin fun _ => nofun) (hdrop hstage rfl rfl) trivial
  | @dropRegistration key reply cancelled _ =>
    have hdropped : Answered (s.dropRegistration key) := by
      rcases drop_registration_cases s key with hsame | ⟨index, queued, hget, -, hkey⟩
      · rw [hsame]
        exact h
      · rw [hkey]
        have hsettled : Answered (s.settle queued.reply none) :=
          h.settle (hqueue queued (List.mem_of_getElem? hget))
        refine hsettled.reshape rfl rfl rfl (Nat.le_refl _) ?_ h.pending h.aligned
        intro other hother
        rcases List.mem_append.mp hother with hmem | hbatch
        · exact hqueue other (mem_of_mem_swap_remove hget hmem)
        · exact hread rfl other hbatch
    exact hdropped.reshape rfl rfl rfl (Nat.le_refl _) hdropped.unread hdropped.pending
      hdropped.aligned
  | receive _ _ | cancel _ | dropResponse _ | tick | endCleanup | environment _ =>
    exact h.reshape rfl rfl rfl (Nat.le_refl _) h.unread h.pending h.aligned

theorem answered_initial : Answered initial where
  decided := fun _ => trivial
  pending := nofun
  unread := nofun
  fresh := fun _ _ => rfl
  aligned := trivial

theorem answered_reachable (h : system.Reachable s) : Answered s := by
  refine h.induction (P := Answered) answered_initial ?_
  intro s e t hs hanswered hstep
  exact answered_move (step_cases hstep) (custody_reachable hs) (engaged_reachable hs) hanswered

theorem unique_move (move : Move s t) (h : UniqueIds s.rows) : UniqueIds t.rows := by
  cases move with
  | run _ =>
    rw [UniqueIds, State.run, complete_batch_ids]
    exact h
  | environment hrows => exact hrows
  | @dropRegistration key _ _ _ =>
    have hrows : (s.dropRegistration key).rows = s.rows := by
      rcases drop_registration_cases s key with hsame | ⟨_, _, _, _, hdrop⟩
      · rw [hsame]
      · rw [hdrop]
        rfl
    show UniqueIds (s.dropRegistration key).rows
    rw [hrows]
    exact h
  | _ => exact h

theorem unique_reachable (h : system.Reachable s) : UniqueIds s.rows := by
  have hinitial : UniqueIds system.initial.rows := List.nodup_nil
  refine h.induction (P := fun s => UniqueIds s.rows) hinitial ?_
  intro s e t _ hs hstep
  exact unique_move (step_cases hstep) hs

/-- The statement leaves the rows, and records of each entry, what the single COMPLETE of its
pair would, run after those of the entries before it. -/
theorem run_agrees (h : system.Reachable s) {now : Time} (hrun : step s (.run now) = some t) :
    t.rows = completeEach now s.rows ((entries s.stage).map QueuedCompletion.key) ∧
      ∀ front queued back, entries s.stage = front ++ queued :: back →
        t.completed queued.reply = some (decide ((complete now
          (completeEach now s.rows (front.map QueuedCompletion.key)) queued.key).2 = 1)) := by
  simp only [step] at hrun
  split at hrun
  · next owner batch deadline hstage =>
    cases hrun
    have hengaged := engaged_reachable h
    have hentries : entries s.stage = batch.queued := by rw [hstage]; rfl
    have haligned : Aligned s.completed (.executing owner batch deadline none) :=
      hstage ▸ (answered_reachable h).aligned
    refine ⟨?_, ?_⟩
    · rw [hentries, complete_each, ← haligned.1]
      rfl
    · intro front queued back hsplit
      have hnodup : (front.map QueuedCompletion.key ++
          queued.key :: back.map QueuedCompletion.key).Nodup := by
        have hall := hengaged.keys_nodup (custody_reachable h)
        rw [live, List.map_append, hsplit, List.map_append] at hall
        exact hall.of_append_right
      have hkeys : batch.keys = front.map QueuedCompletion.key ++
          queued.key :: back.map QueuedCompletion.key := by
        rw [haligned.1, ← hentries, hsplit, List.map_append]
        rfl
      have hmem : queued ∈ entries s.stage := by
        rw [hsplit]
        exact List.mem_append_right _ List.mem_cons_self
      have hticket : queued.reply ∈ batch.queued.map QueuedCompletion.reply :=
        List.mem_map_of_mem (hentries ▸ hmem)
      rw [affected_each (unique_reachable h) now hnodup, ← hkeys]
      refine (if_pos hticket).trans ?_
      rw [hengaged.key_of (List.mem_append_right _ hmem)]
      by_cases hdone : queued.key ∈ completedBy s.rows batch.keys
      · rw [if_pos hdone, decide_eq_true hdone]
        rfl
      · rw [if_neg hdone, decide_eq_false hdone]
        rfl
  · cases hrun

theorem Answered.reply_iff (h : Answered s) {τ : ℕ} (hreply : s.replies τ ≠ .waiting)
    (applied : Bool) : s.replies τ = .sent (.ok applied) ↔
      s.answered τ = true ∧ s.completed τ = some applied := by
  have hfits := h.decided τ
  constructor
  · intro hsent
    rw [hsent] at hfits
    exact hfits
  · rintro ⟨hanswered, hcompleted⟩
    cases hsent : s.replies τ with
    | waiting => exact absurd hsent hreply
    | closed =>
      rw [hsent] at hfits
      exact absurd (hfits.symm.trans hanswered) nofun
    | sent answer =>
      rw [hsent] at hfits
      cases answer with
      | error _ => exact absurd (hfits.symm.trans hanswered) nofun
      | ok other =>
        have hsame := hfits.2
        rw [hcompleted, Option.some.injEq] at hsame
        rw [hsame]

theorem Answered.failed_iff (h : Answered s) {τ : ℕ} (hreply : s.replies τ ≠ .waiting) :
    s.replies τ = .sent (.error ()) ∨ s.replies τ = .closed ↔ s.answered τ = false := by
  have hfits := h.decided τ
  constructor
  · rintro (hsent | hsent)
    · rw [hsent] at hfits
      exact hfits
    · rw [hsent] at hfits
      exact hfits
  · intro hanswered
    cases hsent : s.replies τ with
    | waiting => exact absurd hsent hreply
    | closed => exact .inr rfl
    | sent answer =>
      rw [hsent] at hfits
      cases answer with
      | error _ => exact .inl rfl
      | ok _ => exact absurd (hanswered.symm.trans hfits.1) nofun

/-- Every registration is queued, in the batch or retired, and retired once; a reply is the
outcome of the registration's own pair when the answer of its statement was read, and a failure
or a closed sender when not; whoever registered waits for its own pair; a batch ends with all of
it retired and told, and nobody in it is told before all of it is retired; the statement does
what its pairs one by one would; a dropped registration takes at most its own entry. -/
theorem batched_completion {s : State} (h : system.Reachable s) :
    ((s.queue ++ entries s.stage).map QueuedCompletion.reply ++ s.retired).Perm
      (List.range s.registered) ∧
    (∀ τ applied, s.replies τ ≠ .waiting → (s.replies τ = .sent (.ok applied) ↔
      s.answered τ = true ∧ s.completed τ = some applied)) ∧
    (∀ τ, s.replies τ ≠ .waiting →
      (s.replies τ = .sent (.error ()) ∨ s.replies τ = .closed ↔ s.answered τ = false)) ∧
    (∀ key reply, (s.waiters key).reply = some reply → s.keyOf reply = key) ∧
    (s.stage = .free → ∀ τ b, s.batchOf τ = some b → τ ∈ s.retired ∧ s.replies τ ≠ .waiting) ∧
    (∀ τ other b, s.replies τ ≠ .waiting → s.batchOf τ = some b → s.batchOf other = some b →
      s.membership other = false ∧ s.slots other = false) ∧
    (∀ now t, step s (.run now) = some t →
      t.rows = completeEach now s.rows ((entries s.stage).map QueuedCompletion.key) ∧
      ∀ front queued back, entries s.stage = front ++ queued :: back →
        t.completed queued.reply = some (decide ((complete now
          (completeEach now s.rows (front.map QueuedCompletion.key)) queued.key).2 = 1))) ∧
    (∀ key t, step s (.dropRegistration key) = some t → ∃ removed, s.queue.Perm (removed ++ t.queue) ∧
      removed.length ≤ 1 ∧ ∀ queued ∈ removed, queued.key = key ∧
        (s.waiters key).reply = some queued.reply) := by
  have hcustody := custody_reachable h
  have hengaged := engaged_reachable h
  have hanswered := answered_reachable h
  refine ⟨hcustody.partition, fun τ applied hreply => hanswered.reply_iff hreply applied,
    fun τ hreply => hanswered.failed_iff hreply,
    fun key reply hreply => (hengaged.named key reply hreply).2, ?_, ?_,
    fun now t hrun => run_agrees h hrun, ?_⟩
  · intro hfree τ b hb
    have hretired : τ ∈ s.retired := by
      rw [hcustody.retired_iff (hcustody.numbered τ b hb).2]
      intro hlive
      obtain ⟨queued, hqueued, rfl⟩ := List.mem_map.mp hlive
      rw [live, hfree] at hqueued
      have hqueue : queued ∈ s.queue := (List.mem_append.mp hqueued).resolve_right List.not_mem_nil
      rw [(hcustody.waiting queued hqueue).1] at hb
      cases hb
    refine ⟨hretired, fun hwaiting => ?_⟩
    have howed := hcustody.unanswered τ hretired hwaiting
    rw [hfree] at howed
    cases howed
  · intro τ other b hreply hτ hother
    have hretired := hcustody.batch_retired hreply hτ hother
    refine ⟨Bool.eq_false_iff.mpr fun hheld => ?_, Bool.eq_false_iff.mpr fun hheld => ?_⟩
    · exact ((hcustody.membership other).mp hheld).2 hretired
    · exact ((hcustody.slots other).mp hheld).2 hretired
  · intro key t hdrop
    simp only [step] at hdrop
    split at hdrop
    · cases hdrop
      rcases drop_registration_cases s key with hsame | ⟨index, queued, hget, hkey, hdrop⟩
      · refine ⟨[], ?_, Nat.zero_le _, fun _ hnil => absurd hnil List.not_mem_nil⟩
        show s.queue.Perm (s.dropRegistration key).queue
        rw [hsame]
      · refine ⟨[queued], ?_, Nat.le_refl _, ?_⟩
        · show s.queue.Perm ([queued] ++ (s.dropRegistration key).queue)
          rw [hdrop]
          exact swap_remove_perm hget
        · intro other hother
          rw [List.mem_singleton.mp hother]
          refine ⟨hkey, ?_⟩
          rw [← hkey]
          exact hengaged.own queued (List.mem_append_left _ (List.mem_of_getElem? hget))
    · cases hdrop

def heldRow : Row :=
  { (NewJob.mk 1 "sample" "" none 0 none none).row 0 with
    state := .running, claimGeneration := 1, claimExpiresAt := some 60 }

def executed : List Event :=
  [.environment [heldRow], .register (1, 1) 10, .lock (1, 1), .advance, .advance, .advance, .run 5]

theorem one_completed : ∃ s, system.Reachable s ∧ s.replies 0 = .sent (.ok true) ∧
    s.answered 0 = true ∧ s.completed 0 = some true := by
  obtain ⟨s, hrun, hreply⟩ : ∃ s, system.run system.initial
      (executed ++ [.answer [1], .advance, .advance, .advance]) = some s ∧
        s.replies 0 = .sent (.ok true) := ⟨_, rfl, rfl⟩
  have hreachable : system.Reachable s := System.reachable_of_run hrun
  have hreplied : s.replies 0 ≠ .waiting := by
    rw [hreply]
    exact nofun
  exact ⟨s, hreachable, hreply,
    ((batched_completion hreachable).2.1 0 true hreplied).mp hreply⟩

/-- The statement completed the row, and its answer was lost. -/
theorem lost_answer : ¬ ∀ s, system.Reachable s → ∀ τ, s.replies τ ≠ .waiting →
    (s.replies τ = .sent (.ok true) ↔ s.completed τ = some true) := by
  intro hclaim
  obtain ⟨s, hrun, hreply, hcompleted⟩ : ∃ s, system.run system.initial
      (executed ++ [.fail, .advance, .advance, .advance]) = some s ∧
        s.replies 0 = .sent (.error ()) ∧ s.completed 0 = some true := ⟨_, rfl, rfl, rfl⟩
  have hreplied : s.replies 0 ≠ .waiting := by
    rw [hreply]
    exact nofun
  have hsent := (hclaim s (System.reachable_of_run hrun) 0 hreplied).mpr hcompleted
  rw [hreply] at hsent
  cases hsent

end

end CompletionCustody
