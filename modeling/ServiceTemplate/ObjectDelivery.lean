import ServiceTemplate.ObjectDownload
import Mathlib.Data.List.Basic

/-! What a reader of a download gets, over every interleaving of its reads, the timer task, the
context and the drop of the handle, and when the resources are released. -/
namespace ObjectDelivery

open ByteFraming
open TransitionSystem
open SharedState
open OperationStop
open ObjectDownload

variable {size : ℕ} {sh sh' : Shared} {party : Party}

def chunkBytes : Polled → Bytes
  | .chunk bytes => bytes
  | _ => []

def provided (obtained : List Obtained) : Bytes := obtained.flatMap fun o => chunkBytes o.polled

def onTime (obtained : List Obtained) : Bytes :=
  (obtained.filter fun o => !o.late).flatMap fun o => chunkBytes o.polled

def resultBytes : ReadResult → Bytes
  | .ok (some bytes) => bytes
  | _ => []

def delivered (results : List ReadResult) : Bytes := results.flatMap resultBytes

@[simp] theorem provided_append (a b : List Obtained) :
    provided (a ++ b) = provided a ++ provided b := by simp [provided]

@[simp] theorem on_time_append (a b : List Obtained) :
    onTime (a ++ b) = onTime a ++ onTime b := by simp [onTime]

@[simp] theorem delivered_append (a b : List ReadResult) :
    delivered (a ++ b) = delivered a ++ delivered b := by simp [delivered]

theorem on_time_of_all {obtained : List Obtained} (h : ∀ o ∈ obtained, o.late = false) :
    onTime obtained = provided obtained := by
  have hall : obtained.filter (fun o => !o.late) = obtained :=
    List.filter_eq_self.mpr fun o hmem => by simp [h o hmem]
  rw [onTime, hall, provided]

/-- After an error the same error, after the end the end. -/
def Sticky (earlier later : ReadResult) : Prop :=
  (∀ error, earlier = .error error → later = .error error) ∧
    (earlier = .ok none → later = .ok none)

/-- The last byte is not delivered yet, or there is none. -/
def Withheld (size : ℕ) (results : List ReadResult) : Prop :=
  (delivered results).length < size ∨ delivered results = []

structure OpenedOk (size : ℕ) (obtained : List Obtained) (results : List ReadResult)
    (resources : Resources) : Prop where
  chunks : ∀ o ∈ obtained, o.late = false ∧ ∃ bytes, o.polled = .chunk bytes
  bytes : provided obtained = delivered results ++ resources.last.getD []
  length : (delivered results).length + (resources.last.getD []).length + resources.remaining = size
  withheld : Withheld size results
  last : resources.last = none ∨ resources.remaining = 0
  results : ∀ r ∈ results, ∃ bytes, r = .ok (some bytes)

structure SucceededOk (size : ℕ) (obtained : List Obtained) (results : List ReadResult) :
    Prop where
  confirmed : ⟨.ended, false⟩ ∈ obtained
  onTime : ∀ o ∈ obtained, o.late = false
  bytes : provided obtained = delivered results
  length : (delivered results).length = size
  results : ∀ r ∈ results, ∃ chunk, r = .ok chunk

structure FailedOk (size : ℕ) (obtained : List Obtained) (results : List ReadResult)
    (error : ObjectStorageError) : Prop where
  bytes : delivered results <+: provided obtained
  onTime : delivered results <+: onTime obtained
  withheld : Withheld size results
  late : ∀ o ∈ obtained, o.late = true → error = .unavailable
  results : ∀ r ∈ results, (∃ bytes, r = .ok (some bytes)) ∨ r = .error error

def StatusOk (size : ℕ) (obtained : List Obtained) (results : List ReadResult) :
    DownloadState → Prop
  | .opened resources => OpenedOk size obtained results resources
  | .succeeded last => last = none ∧ SucceededOk size obtained results
  | .failed error => FailedOk size obtained results error

section Results

variable {obtained items : List Obtained} {results : List ReadResult} {resources : Resources}
  {error : ObjectStorageError}

theorem OpenedOk.on_time (h : OpenedOk size obtained results resources) :
    ObjectDelivery.onTime obtained = provided obtained :=
  on_time_of_all fun o hmem => (h.chunks o hmem).1

/-- An open download fails: nothing new is delivered, whatever the last poll gave. -/
theorem OpenedOk.failed (h : OpenedOk size obtained results resources)
    (hlate : ∀ o ∈ items, o.late = true → error = .unavailable) :
    FailedOk size (obtained ++ items) results error where
  bytes := by
    rw [provided_append, h.bytes, List.append_assoc]
    exact List.prefix_append _ _
  onTime := by
    rw [on_time_append, h.on_time, h.bytes, List.append_assoc]
    exact List.prefix_append _ _
  withheld := h.withheld
  late o hmem hlateo := by
    rcases List.mem_append.mp hmem with hold | hnew
    · rw [(h.chunks o hold).1] at hlateo
      cases hlateo
    · exact hlate o hnew hlateo
  results r hmem := .inl (h.results r hmem)

theorem FailedOk.handed (h : FailedOk size obtained results error) :
    FailedOk size obtained (results ++ [.error error]) error := by
  have hsame : delivered (results ++ [.error error]) = delivered results := by
    simp [delivered, resultBytes]
  refine ⟨hsame ▸ h.bytes, hsame ▸ h.onTime, ?_, h.late, ?_⟩
  · rw [Withheld, hsame]
    exact h.withheld
  · exact List.forall_mem_append.mpr ⟨h.results, List.forall_mem_singleton.mpr (.inr rfl)⟩

theorem sticky_snoc {r : ReadResult} (hs : results.Pairwise Sticky)
    (hlast : ∀ earlier ∈ results, Sticky earlier r) : (results ++ [r]).Pairwise Sticky := by
  rw [List.pairwise_append]
  refine ⟨hs, List.pairwise_singleton _ _, fun earlier hmem later hlater => ?_⟩
  rw [List.mem_singleton.mp hlater]
  exact hlast earlier hmem

theorem OpenedOk.sticky (h : OpenedOk size obtained results resources) (hs : results.Pairwise Sticky)
    (r : ReadResult) : (results ++ [r]).Pairwise Sticky := by
  refine sticky_snoc hs fun earlier hmem => ?_
  rcases h.results earlier hmem with ⟨bytes, rfl⟩
  exact ⟨by simp, by simp⟩

theorem FailedOk.sticky (h : FailedOk size obtained results error) (hs : results.Pairwise Sticky) :
    List.Pairwise Sticky (results ++ [.error error]) := by
  refine sticky_snoc hs fun earlier hmem => ?_
  rcases h.results earlier hmem with ⟨bytes, rfl⟩ | rfl
  · exact ⟨by simp, by simp⟩
  · exact ⟨fun _ heq => heq, by simp⟩

theorem SucceededOk.sticky (h : SucceededOk size obtained results) (hs : results.Pairwise Sticky) :
    List.Pairwise Sticky (results ++ [.ok none]) := by
  refine sticky_snoc hs fun earlier hmem => ?_
  rcases h.results earlier hmem with ⟨chunk, rfl⟩
  exact ⟨by simp, fun _ => rfl⟩

theorem SucceededOk.again (h : SucceededOk size obtained results) :
    SucceededOk size obtained (results ++ [.ok none]) := by
  have hsame : delivered (results ++ [.ok none]) = delivered results := by
    simp [delivered, resultBytes]
  refine ⟨h.confirmed, h.onTime, hsame ▸ h.bytes, hsame ▸ h.length, ?_⟩
  exact List.forall_mem_append.mpr ⟨h.results, List.forall_mem_singleton.mpr ⟨none, rfl⟩⟩

/-- A nonempty chunk that leaves some bytes to come is delivered at once. -/
theorem OpenedOk.chunk (h : OpenedOk size obtained results resources) {bytes : Bytes}
    (hfits : bytes.length < resources.remaining) :
    OpenedOk size (obtained ++ [⟨.chunk bytes, false⟩]) (results ++ [.ok (some bytes)])
      { resources with remaining := resources.remaining - bytes.length } := by
  have hnone : resources.last = none := by
    rcases h.last with hnone | hzero
    · exact hnone
    · omega
  have hlength := h.length
  have hsplit : delivered (results ++ [.ok (some bytes)]) = delivered results ++ bytes := by
    simp [delivered, resultBytes]
  simp only [hnone, Option.getD_none, List.length_nil] at hlength
  refine ⟨?_, ?_, ?_, ?_, .inl hnone, ?_⟩
  · exact List.forall_mem_append.mpr
      ⟨h.chunks, List.forall_mem_singleton.mpr ⟨rfl, bytes, rfl⟩⟩
  · rw [hsplit, provided_append, h.bytes, hnone]
    simp [provided, chunkBytes]
  · rw [hsplit, List.length_append, hnone, Option.getD_none, List.length_nil]
    dsimp only
    omega
  · left
    rw [hsplit, List.length_append]
    omega
  · exact List.forall_mem_append.mpr ⟨h.results, List.forall_mem_singleton.mpr ⟨bytes, rfl⟩⟩

theorem OpenedOk.buffered (h : OpenedOk size obtained results resources) {bytes : Bytes}
    (hne : bytes ≠ []) (hfits : resources.remaining = bytes.length) :
    OpenedOk size (obtained ++ [⟨.chunk bytes, false⟩]) results ⟨0, some bytes⟩ := by
  have hpos : 0 < bytes.length := List.length_pos_iff.mpr hne
  have hnone : resources.last = none := by
    rcases h.last with hnone | hzero
    · exact hnone
    · omega
  have hlength := h.length
  simp only [hnone, Option.getD_none, List.length_nil] at hlength
  refine ⟨?_, ?_, ?_, h.withheld, .inr rfl, h.results⟩
  · exact List.forall_mem_append.mpr
      ⟨h.chunks, List.forall_mem_singleton.mpr ⟨rfl, bytes, rfl⟩⟩
  · rw [provided_append, h.bytes, hnone]
    simp [provided, chunkBytes]
  · simp only [Option.getD_some]
    omega

theorem OpenedOk.empty (h : OpenedOk size obtained results resources) :
    OpenedOk size (obtained ++ [⟨.chunk [], false⟩]) results resources := by
  refine ⟨?_, ?_, h.length, h.withheld, h.last, h.results⟩
  · exact List.forall_mem_append.mpr ⟨h.chunks, List.forall_mem_singleton.mpr ⟨rfl, [], rfl⟩⟩
  · rw [provided_append, h.bytes]
    simp [provided, chunkBytes]

theorem OpenedOk.succeeded (h : OpenedOk size obtained results resources)
    (hzero : resources.remaining = 0) :
    SucceededOk size (obtained ++ [⟨.ended, false⟩]) (results ++ [.ok resources.last]) := by
  have hlast : resultBytes (.ok resources.last) = resources.last.getD [] := by
    cases resources.last with
    | none => rfl
    | some bytes => rfl
  have hsplit : delivered (results ++ [.ok resources.last]) =
      delivered results ++ resources.last.getD [] := by
    rw [← hlast]
    simp [delivered]
  have hlength := h.length
  refine ⟨by simp, ?_, ?_, ?_, ?_⟩
  · exact List.forall_mem_append.mpr
      ⟨fun o hmem => (h.chunks o hmem).1, List.forall_mem_singleton.mpr rfl⟩
  · rw [hsplit, provided_append, h.bytes]
    simp [provided, chunkBytes]
  · rw [hsplit, List.length_append]
    omega
  · intro r hmem
    rcases List.mem_append.mp hmem with hold | hnew
    · rcases h.results r hold with ⟨bytes, rfl⟩
      exact ⟨some bytes, rfl⟩
    · exact ⟨resources.last, List.mem_singleton.mp hnew⟩

end Results

def Once (status : DownloadState) (released : Released) : Prop :=
  ∃ recorded, released = ⟨1, 1, [recorded]⟩ ∧
    ((recorded = .ok ∧ ∃ last, status = .succeeded last) ∨
      (∃ error, recorded = .failure error ∧ status = .failed error) ∨
      (recorded = .cancelled ∧ status = .failed .unavailable))

def Fits (outcome : Outcome) (status : DownloadState) : Prop :=
  match outcome with
  | .success => ∃ last, status = .succeeded last
  | .failure error _ => status = .failed error
  | .cancelled => status = .failed .unavailable

def Progress (finishing : Finishing) (released : Released) : Prop :=
  match finishing.place with
  | .record => finishing.finalized = false ∧ released = ⟨0, 0, []⟩
  | .body => if finishing.finalized then released = ⟨0, 0, [finishing.outcome.recorded]⟩
      else finishing.outcome = .cancelled ∧ released = ⟨0, 0, []⟩
  | .guard => if finishing.finalized then released = ⟨1, 0, [finishing.outcome.recorded]⟩
      else finishing.outcome = .cancelled ∧ released = ⟨1, 0, []⟩
  | .permit => released = ⟨1, 0, [finishing.outcome.recorded]⟩

def terminal : ReadResult → Bool
  | .ok (some _) => false
  | _ => true

/-- A terminal result comes after the release, unless the read came while the timer held the
resources. -/
def Settled (custody : Custody) (handed : Handed) : Prop :=
  terminal handed.result = true → custody = .released ∨ handed.custody = .held .timer

structure Inv (size : ℕ) (sh : Shared) : Prop where
  status : StatusOk size sh.obtained (sh.handed.map Handed.result) sh.status
  sticky : (sh.handed.map Handed.result).Pairwise Sticky
  opened : sh.status.isOpen = true ↔ sh.custody = .cell
  unreleased : sh.custody = .cell → sh.released = ⟨0, 0, []⟩
  released : sh.custody = .released → Once sh.status sh.released
  returned : ∀ returned ∈ sh.returned, terminal returned.handed.result = true →
    Once sh.status returned.released ∨ returned.handed.custody = .held .timer

/-- What a move of one task leaves to the other. -/
structure Guarantee (party : Party) (sh sh' : Shared) : Prop where
  held : ∀ other, other ≠ party → sh.custody = .held other →
    sh'.custody = .held other ∧ sh'.released = sh.released ∧ sh'.status = sh.status
  unheld : ∀ other, other ≠ party → sh.custody ≠ .held other → sh'.custody ≠ .held other
  released : sh.custody = .released → sh'.custody = .released
  closed : sh.custody ≠ .cell → sh'.custody ≠ .cell
  reads : party = .timer → sh'.handed = sh.handed ∧ sh'.returned = sh.returned

structure Holds (party : Party) (sh : Shared) (finishing : Finishing) : Prop where
  custody : sh.custody = .held party
  progress : Progress finishing sh.released
  fits : Fits finishing.outcome sh.status

def NoneInHand (sh : Shared) : Prop := sh.handed = sh.returned.map Returned.handed

/-- The result of the read in progress is the last that was handed out. -/
def InHand (sh : Shared) (result : ReadPoll) (p : Handed → Prop) : Prop :=
  match result.result with
  | none => NoneInHand sh
  | some result => ∃ handed, handed.result = result ∧ p handed ∧
      sh.handed = sh.returned.map Returned.handed ++ [handed]

def AfterSound (sh : Shared) : After → Prop
  | .read result => InHand sh result fun _ => True
  | _ => NoneInHand sh

def ReaderSound (sh : Shared) : ReaderStage → Prop
  | .terminating _ (.read _) => False
  | .terminating outcome _ =>
    (sh.custody ≠ .held .reader ∧ NoneInHand sh) ∧ outcome ≠ .success
  | .finishing finishing after => Holds .reader sh finishing ∧ AfterSound sh after
  | .checking result => sh.custody ≠ .held .reader ∧ InHand sh result (Settled sh.custody)
  | .dropped => (sh.custody ≠ .held .reader ∧ NoneInHand sh) ∧ sh.custody ≠ .cell
  | _ => sh.custody ≠ .held .reader ∧ NoneInHand sh

def TimerSound (sh : Shared) : TimerStage → Prop
  | .finishing finishing _ _ => Holds .timer sh finishing
  | .terminating outcome _ _ => sh.custody ≠ .held .timer ∧ outcome ≠ .success
  | _ => sh.custody ≠ .held .timer

def TaskSound (sh : Shared) : Party → Task → Prop
  | .reader, .reader _ stage => ReaderSound sh stage
  | .timer, .timer stage => TimerSound sh stage
  | _, _ => False

/-- A move that keeps the invariant and what it owes to the other task. -/
structure Moves (size : ℕ) (party : Party) (sh sh' : Shared) : Prop where
  inv : Inv size sh'
  guarantee : Guarantee party sh sh'

theorem Guarantee.refl (party : Party) (sh : Shared) : Guarantee party sh sh where
  held _ _ hheld := ⟨hheld, rfl, rfl⟩
  unheld _ _ hheld := hheld
  released hreleased := hreleased
  closed hclosed := hclosed
  reads _ := ⟨rfl, rfl⟩

theorem Moves.refl (h : Inv size sh) : Moves size party sh sh := ⟨h, .refl party sh⟩

theorem Holds.stable {finishing : Finishing} {other : Party} (hg : Guarantee other sh sh')
    (hne : party ≠ other) (h : Holds party sh finishing) : Holds party sh' finishing := by
  rcases hg.held party hne h.custody with ⟨hcustody, hreleased, hstatus⟩
  exact ⟨hcustody, hreleased ▸ h.progress, hstatus ▸ h.fits⟩

theorem Settled.stable {handed : Handed} {other : Party} (hg : Guarantee other sh sh')
    (h : Settled sh.custody handed) : Settled sh'.custody handed := by
  intro hterminal
  rcases h hterminal with hreleased | hheld
  · exact .inl (hg.released hreleased)
  · exact .inr hheld

theorem InHand.stable {result : ReadPoll} {p q : Handed → Prop} (hpq : ∀ handed, p handed → q handed)
    (hhanded : sh'.handed = sh.handed) (hreturned : sh'.returned = sh.returned)
    (h : InHand sh result p) : InHand sh' result q := by
  simp only [InHand, NoneInHand] at h ⊢
  rw [hhanded, hreturned]
  split at h
  · exact h
  · rcases h with ⟨handed, hr, hp, heq⟩
    exact ⟨handed, hr, hpq handed hp, heq⟩

theorem reader_stable {stage : ReaderStage} (hg : Guarantee .timer sh sh')
    (h : ReaderSound sh stage) : ReaderSound sh' stage := by
  rcases hg.reads rfl with ⟨hhanded, hreturned⟩
  have hnone : NoneInHand sh → NoneInHand sh' := by
    rw [NoneInHand, NoneInHand, hhanded, hreturned]
    exact id
  have hunheld : sh.custody ≠ .held .reader → sh'.custody ≠ .held .reader :=
    hg.unheld .reader (by simp)
  cases stage with
  | terminating outcome after =>
    cases after with
    | read result => exact h
    | _ => exact ⟨⟨hunheld h.1.1, hnone h.1.2⟩, h.2⟩
  | finishing finishing after =>
    refine ⟨h.1.stable hg (by simp), ?_⟩
    cases after with
    | read result => exact InHand.stable (fun _ hp => hp) hhanded hreturned h.2
    | _ => exact hnone h.2
  | checking result =>
    exact ⟨hunheld h.1,
      InHand.stable (fun _ hsettled => hsettled.stable hg) hhanded hreturned h.2⟩
  | dropped => exact ⟨⟨hunheld h.1.1, hnone h.1.2⟩, hg.closed h.2⟩
  | _ => exact ⟨hunheld h.1, hnone h.2⟩

theorem timer_stable {stage : TimerStage} (hg : Guarantee .reader sh sh')
    (h : TimerSound sh stage) : TimerSound sh' stage := by
  cases stage with
  | finishing finishing exiting aborted => exact Holds.stable hg (by simp) h
  | terminating outcome exiting aborted => exact ⟨hg.unheld .timer (by simp) h.1, h.2⟩
  | _ => exact hg.unheld .timer (by simp) h

theorem not_once_opened {resources : Resources} {released : Released}
    (h : Once (.opened resources) released) : False := by
  rcases h with ⟨recorded, -, ⟨-, last, hlast⟩ | ⟨error, -, herror⟩ | ⟨-, herror⟩⟩
  · cases hlast
  · cases herror
  · cases herror

theorem Inv.open_cell (h : Inv size sh) {resources : Resources}
    (hstatus : sh.status = .opened resources) : sh.custody = .cell :=
  h.opened.mp (by rw [hstatus]; rfl)

theorem Inv.closed (h : Inv size sh) (hstatus : sh.status.isOpen = false) :
    sh.custody ≠ .cell := by
  intro hcell
  rw [h.opened.mpr hcell] at hstatus
  cases hstatus

/-- A task takes the cell of an open download and leaves a terminal state. -/
theorem Inv.take (h : Inv size sh) {resources : Resources}
    (hopen : sh.status = .opened resources) {status : DownloadState} (hclosed : status.isOpen = false)
    {obtained : List Obtained} {handed : List Handed} {context : OperationContext}
    (hstatus : StatusOk size obtained (handed.map Handed.result) status)
    (hsticky : (handed.map Handed.result).Pairwise Sticky)
    (hreads : party = .timer → handed = sh.handed) :
    Moves size party sh ({ sh with context := context, obtained := obtained, handed := handed }.take
      party status) := by
  have hcell := h.open_cell hopen
  refine ⟨⟨hstatus, hsticky, ?_, ?_, ?_, ?_⟩, ⟨?_, ?_, ?_, ?_, ?_⟩⟩
  · simp [Shared.take, hclosed]
  · simp [Shared.take]
  · simp [Shared.take]
  · intro returned hmem hterminal
    rcases h.returned returned hmem hterminal with honce | hheld
    · rw [hopen] at honce
      exact (not_once_opened honce).elim
    · exact .inr hheld
  · intro other _ hheld
    rw [hcell] at hheld
    cases hheld
  · intro other hother _ hheld
    exact hother (Custody.held.inj hheld).symm
  · intro hreleased
    rw [hcell] at hreleased
    cases hreleased
  · simp [Shared.take]
  · exact fun htimer => ⟨hreads htimer, rfl⟩

theorem Inv.begins (h : Inv size sh) {resources : Resources}
    (hopen : sh.status = .opened resources) {status : DownloadState} {outcome : Outcome}
    (hfits : Fits outcome status) {obtained : List Obtained} {handed : List Handed}
    {context : OperationContext} :
    Holds party ({ sh with context := context, obtained := obtained, handed := handed }.take party
      status) ⟨outcome, false, .record⟩ :=
  ⟨rfl, ⟨rfl, h.unreleased (h.open_cell hopen)⟩, hfits⟩

theorem terminal_outcome_failed (context : OperationContext) {outcome : Outcome}
    (h : outcome ≠ .success) (resources : Resources) :
    ∃ error, finish resources (terminalOutcome context outcome) = .failed error ∧
      Fits (terminalOutcome context outcome) (.failed error) := by
  simp only [terminalOutcome]
  split
  · exact ⟨.unavailable, rfl, rfl⟩
  · cases outcome with
    | success => exact absurd rfl h
    | failure error errorType => exact ⟨error, rfl, rfl⟩
    | cancelled => exact ⟨.unavailable, rfl, rfl⟩

theorem terminate_none {outcome : Outcome} (hstep : terminate sh party outcome = (sh', none)) :
    sh' = sh ∧ sh.status.isOpen = false := by
  simp only [terminate] at hstep
  split at hstep
  · cases hstep
  · next hclosed =>
    cases hstep
    refine ⟨rfl, ?_⟩
    cases hstatus : sh.status with
    | opened resources => exact absurd hstatus (hclosed resources)
    | succeeded last => rfl
    | failed error => rfl

theorem Inv.terminate (h : Inv size sh) {outcome : Outcome} (houtcome : outcome ≠ .success)
    {finishing : Finishing} (hstep : terminate sh party outcome = (sh', some finishing)) :
    Moves size party sh sh' ∧ Holds party sh' finishing ∧ sh'.handed = sh.handed ∧
      sh'.returned = sh.returned := by
  simp only [ObjectDownload.terminate] at hstep
  split at hstep
  · next resources hstatus =>
    cases hstep
    rcases terminal_outcome_failed sh.context houtcome resources with ⟨error, hfinish, hfits⟩
    have hopened := h.status
    rw [hstatus] at hopened
    have hfailed : FailedOk size (sh.obtained ++ []) (sh.handed.map Handed.result) error :=
      OpenedOk.failed hopened (by simp)
    rw [List.append_nil] at hfailed
    rw [hfinish]
    exact ⟨h.take hstatus rfl hfailed h.sticky fun _ => rfl, h.begins hstatus hfits, rfl, rfl⟩
  · cases hstep

theorem Inv.release (h : Inv size sh) {finishing finishing' : Finishing}
    (hholds : Holds party sh finishing) (hstep : finishing.step sh = (sh', some finishing')) :
    Moves size party sh sh' ∧ Holds party sh' finishing' ∧ sh'.handed = sh.handed ∧
      sh'.returned = sh.returned := by
  rcases hholds with ⟨hcustody, hprogress, hfits⟩
  have hmoves : ∀ released, Moves size party sh { sh with released := released } := by
    intro released
    refine ⟨{ h with unreleased := ?_, released := ?_ }, { Guarantee.refl party sh with held := ?_ }⟩
    · simp [hcustody]
    · simp [hcustody]
    · intro other hother hheld
      rw [hcustody] at hheld
      exact absurd (Custody.held.inj hheld).symm hother
  rcases finishing with ⟨outcome, finalized, place⟩
  cases place with
  | record =>
    rcases hprogress with ⟨hfinalized, hreleased⟩
    simp only at hfinalized
    subst hfinalized
    cases outcome with
    | cancelled =>
      cases hstep
      exact ⟨.refl h, ⟨hcustody, by simp [Progress, hreleased], hfits⟩, rfl, rfl⟩
    | success =>
      cases hstep
      exact ⟨hmoves _, ⟨hcustody, by simp [Progress, Shared.addRecord, hreleased], hfits⟩, rfl, rfl⟩
    | failure error errorType =>
      cases hstep
      exact ⟨hmoves _, ⟨hcustody, by simp [Progress, Shared.addRecord, hreleased], hfits⟩, rfl, rfl⟩
  | body =>
    cases hstep
    refine ⟨hmoves _, ⟨hcustody, ?_, hfits⟩, rfl, rfl⟩
    cases finalized with
    | true =>
      have hreleased : sh.released = ⟨0, 0, [outcome.recorded]⟩ := hprogress
      simp [Progress, hreleased]
    | false =>
      have hreleased : outcome = .cancelled ∧ sh.released = ⟨0, 0, []⟩ := hprogress
      simp [Progress, hreleased]
  | guard =>
    cases hstep
    cases finalized with
    | true => exact ⟨.refl h, ⟨hcustody, hprogress, hfits⟩, rfl, rfl⟩
    | false =>
      have hreleased : outcome = .cancelled ∧ sh.released = ⟨1, 0, []⟩ := hprogress
      refine ⟨hmoves _, ⟨hcustody, ?_, hfits⟩, rfl, rfl⟩
      simp [Progress, Shared.addRecord, hreleased, Outcome.recorded]
  | permit => cases hstep

theorem Fits.once {outcome : Outcome} {status : DownloadState} (h : Fits outcome status) :
    Once status ⟨1, 1, [outcome.recorded]⟩ := by
  refine ⟨outcome.recorded, rfl, ?_⟩
  cases outcome with
  | success => exact .inl ⟨rfl, h⟩
  | failure error errorType => exact .inr (.inl ⟨error, rfl, h⟩)
  | cancelled => exact .inr (.inr ⟨rfl, h⟩)

theorem Inv.released_all (h : Inv size sh) {finishing : Finishing}
    (hholds : Holds party sh finishing) (hstep : finishing.step sh = (sh', none)) :
    Moves size party sh sh' ∧ sh'.custody = .released ∧ sh'.handed = sh.handed ∧
      sh'.returned = sh.returned := by
  rcases hholds with ⟨hcustody, hprogress, hfits⟩
  rcases finishing with ⟨outcome, finalized, place⟩
  cases place with
  | record => cases outcome <;> cases hstep
  | body => cases hstep
  | guard => cases hstep
  | permit =>
    cases hstep
    have hreleased : sh.released = ⟨1, 0, [outcome.recorded]⟩ := hprogress
    have hclosed : sh.status.isOpen ≠ true := fun hopen => by
      rw [h.opened.mp hopen] at hcustody
      cases hcustody
    refine ⟨⟨{ h with opened := ?_, unreleased := ?_, released := ?_ },
      { Guarantee.refl party sh with held := ?_, unheld := ?_, released := ?_, closed := ?_ }⟩,
      rfl, rfl, rfl⟩
    · simp [hclosed]
    · simp
    · intro _
      rw [hreleased]
      exact hfits.once
    · intro other hother hheld
      rw [hcustody] at hheld
      exact absurd (Custody.held.inj hheld).symm hother
    · simp
    · simp
    · simp

@[simp] theorem hand_results (sh : Shared) (result : ReadPoll) :
    (sh.hand result).map Handed.result = sh.handed.map Handed.result ++ result.result.toList := by
  cases hresult : result.result <;> simp [Shared.hand, hresult]

theorem in_hand {result : ReadPoll} (hnone : NoneInHand sh)
    (hhanded : sh'.handed = sh.hand result) (hreturned : sh'.returned = sh.returned)
    {p : Handed → Prop} (hp : ∀ r, result.result = some r → p ⟨r, sh.custody⟩) :
    InHand sh' result p := by
  rw [NoneInHand] at hnone
  simp only [InHand, NoneInHand, hhanded, hreturned]
  cases hresult : result.result with
  | none => simpa [Shared.hand, hresult] using hnone
  | some r =>
    refine ⟨⟨r, sh.custody⟩, rfl, hp r hresult, ?_⟩
    rw [Shared.hand, hresult, hnone]
    rfl

/-- A read that takes nothing: the download stays open, or it was closed already. -/
theorem Inv.hands (h : Inv size sh) (hunheld : sh.custody ≠ .held .reader) (hnone : NoneInHand sh)
    {status : DownloadState} {context : OperationContext} {obtained : List Obtained}
    {result : ReadPoll}
    (hstatus : StatusOk size obtained (sh.handed.map Handed.result ++ result.result.toList) status)
    (hsticky : (sh.handed.map Handed.result ++ result.result.toList).Pairwise Sticky)
    (hsame : status = sh.status ∨ sh.status.isOpen = true ∧ status.isOpen = true)
    (hsettled : ∀ r, result.result = some r → Settled sh.custody ⟨r, sh.custody⟩) :
    Moves size .reader sh { sh with
        context := context, obtained := obtained, handed := sh.hand result, status := status } ∧
      ReaderSound { sh with
        context := context, obtained := obtained, handed := sh.hand result, status := status }
        (.checking result) := by
  have hopened : status.isOpen = sh.status.isOpen := by
    rcases hsame with rfl | ⟨hold, hnew⟩
    · rfl
    · rw [hold, hnew]
  have honce : ∀ released, Once sh.status released → Once status released := by
    intro released honce
    rcases hsame with rfl | ⟨hold, -⟩
    · exact honce
    · cases hstatus : sh.status with
      | opened resources =>
        rw [hstatus] at honce
        exact (not_once_opened honce).elim
      | succeeded last =>
        rw [hstatus] at hold
        cases hold
      | failed error =>
        rw [hstatus] at hold
        cases hold
  refine ⟨⟨⟨?_, ?_, ?_, h.unreleased, ?_, ?_⟩, ⟨?_, ?_, ?_, ?_, ?_⟩⟩, hunheld, ?_⟩
  · simpa using hstatus
  · simpa using hsticky
  · rw [hopened]
    exact h.opened
  · exact fun hreleased => honce _ (h.released hreleased)
  · intro returned hmem hterminal
    rcases h.returned returned hmem hterminal with hdone | hheld
    · exact .inl (honce _ hdone)
    · exact .inr hheld
  · intro other _ hheld
    refine ⟨hheld, rfl, ?_⟩
    rcases hsame with rfl | ⟨hold, -⟩
    · rfl
    · rw [h.opened.mp hold] at hheld
      cases hheld
  · exact fun _ _ hheld => hheld
  · exact fun hreleased => hreleased
  · exact fun hclosed => hclosed
  · simp
  · apply in_hand hnone
    · rfl
    · rfl
    · exact hsettled

theorem Inv.takes (h : Inv size sh) (hnone : NoneInHand sh) {resources : Resources}
    (hopen : sh.status = .opened resources) {status : DownloadState} {context : OperationContext}
    {obtained : List Obtained} {result : ReadPoll} {outcome : Outcome}
    (hstatus : StatusOk size obtained (sh.handed.map Handed.result ++ result.result.toList) status)
    (hsticky : (sh.handed.map Handed.result ++ result.result.toList).Pairwise Sticky)
    (hclosed : status.isOpen = false) (hfits : Fits outcome status) :
    Moves size .reader sh ({ sh with
        context := context, obtained := obtained, handed := sh.hand result }.take .reader status) ∧
      ReaderSound ({ sh with
        context := context, obtained := obtained, handed := sh.hand result }.take .reader status)
        (.finishing ⟨outcome, false, .record⟩ (.read result)) := by
  refine ⟨h.take hopen hclosed ?_ ?_ (by simp), h.begins hopen hfits, ?_⟩
  · simpa using hstatus
  · simpa using hsticky
  · apply in_hand hnone
    · rfl
    · rfl
    · exact fun _ _ => trivial

theorem Inv.settled (h : Inv size sh) (hunheld : sh.custody ≠ .held .reader)
    (hclosed : sh.status.isOpen = false) (r : ReadResult) : Settled sh.custody ⟨r, sh.custody⟩ := by
  intro _
  have hcell := h.closed hclosed
  cases hcustody : sh.custody with
  | cell => exact absurd hcustody hcell
  | released => exact .inl rfl
  | held other =>
    cases other with
    | reader => exact absurd hcustody hunheld
    | timer => exact .inr rfl

/-- What one poll of an open download does with the body's answer. -/
inductive PollCase (resources : Resources) (obtained : List Obtained) :
    DownloadState × ReadPoll × Option Outcome → Prop
  | kept (hobtained : obtained = []) : PollCase resources obtained
      (.opened resources, .pending, none)
  | empty (hobtained : obtained = [⟨.chunk [], false⟩]) :
      PollCase resources obtained
        (.opened resources, .ready (.ok .empty), none)
  | buffered (bytes : Bytes) (hne : bytes ≠ []) (hfits : resources.remaining = bytes.length)
      (hobtained : obtained = [⟨.chunk bytes, false⟩]) :
      PollCase resources obtained
        (.opened ⟨0, some bytes⟩, .ready (.ok .buffered), none)
  | chunk (bytes : Bytes) (hfits : bytes.length < resources.remaining)
      (hobtained : obtained = [⟨.chunk bytes, false⟩]) :
      PollCase resources obtained
        (.opened { resources with remaining := resources.remaining - bytes.length },
          .ready (.ok (.chunk (some bytes))), none)
  | ended (hzero : resources.remaining = 0) (hobtained : obtained = [⟨.ended, false⟩]) :
      PollCase resources obtained
        (.succeeded none, .ready (.ok (.chunk resources.last)), some .success)
  | failed (error : ObjectStorageError) (errorType : String)
      (hlate : ∀ o ∈ obtained, o.late = true → error = .unavailable) :
      PollCase resources obtained (fail resources error errorType)

theorem accept_cases (resources : Resources) (polled : Polled) (obtained : List Obtained)
    (hready : ∀ bytes, polled = .chunk bytes → obtained = [⟨polled, false⟩])
    (herror : ∀ mismatch, polled = .error mismatch → obtained = [⟨polled, false⟩])
    (hended : polled = .ended → obtained = [⟨polled, false⟩])
    (hother : polled = .starved ∨ polled = .pending ∨ polled = .panicked → obtained = []) :
    PollCase resources obtained (accept resources polled) := by
  cases polled with
  | starved => exact .kept (hother (by simp))
  | pending => exact .kept (hother (by simp))
  | panicked => exact .kept (hother (by simp))
  | chunk bytes =>
    have hobtained := hready bytes rfl
    simp only [accept]
    by_cases hempty : bytes = []
    · subst hempty
      exact .empty hobtained
    by_cases hover : resources.remaining < bytes.length
    · rw [if_neg hempty, if_pos hover]
      exact .failed _ _ (by simp [hobtained])
    by_cases hfits : resources.remaining = bytes.length
    · rw [if_neg hempty, if_neg hover, if_pos hfits]
      exact .buffered bytes hempty hfits hobtained
    · rw [if_neg hempty, if_neg hover, if_neg hfits]
      exact .chunk bytes (by omega) hobtained
  | error mismatch =>
    have hobtained := herror mismatch rfl
    simp only [accept]
    by_cases hmismatch : mismatch = true
    · rw [if_pos hmismatch]
      exact .failed _ _ (by simp [hobtained])
    · rw [if_neg hmismatch]
      exact .failed _ _ (by simp [hobtained])
  | ended =>
    have hobtained := hended rfl
    simp only [accept]
    by_cases hzero : resources.remaining = 0
    · rw [if_pos hzero]
      exact .ended hzero hobtained
    · rw [if_neg hzero]
      exact .failed _ _ (by simp [hobtained])

theorem poll_open_cases {resources : Resources} (hopen : sh.status = .opened resources)
    (polled : Polled) (during : OperationContext) :
    PollCase resources (obtainedBy sh during polled)
      (pollOpen resources sh.context (sh.context.join during) polled) := by
  cases hbefore : sh.context.stopped with
  | some stopped =>
    have hobtained : obtainedBy sh during polled = [] := by simp [obtainedBy, hopen, hbefore]
    simp only [pollOpen, hbefore]
    exact .failed _ _ (by simp [hobtained])
  | none =>
    cases hafter : (sh.context.join during).stopped with
    | some stopped =>
      cases polled with
      | starved =>
        simp only [pollOpen, hbefore]
        exact .kept (by simp [obtainedBy, hopen, hbefore])
      | _ =>
        simp only [pollOpen, hbefore, hafter]
        exact .failed _ _ fun _ _ _ => rfl
    | none =>
      have haccept := accept_cases resources polled (obtainedBy sh during polled)
      cases polled with
      | starved =>
        simp only [pollOpen, hbefore]
        exact .kept (by simp [obtainedBy, hopen, hbefore])
      | _ =>
        simp only [pollOpen, hbefore, hafter]
        exact haccept (by simp [obtainedBy, hopen, hbefore, hafter])
          (by simp [obtainedBy, hopen, hbefore, hafter])
          (by simp [obtainedBy, hopen, hbefore, hafter])
          (by simp [obtainedBy, hopen, hbefore])

theorem Inv.locked_poll (h : Inv size sh) (hunheld : sh.custody ≠ .held .reader)
    (hnone : NoneInHand sh) {polled : Polled} {during : OperationContext} {stage : ReaderStage}
    (hstep : lockedPoll sh polled during = (sh', stage)) :
    Moves size .reader sh sh' ∧ ReaderSound sh' stage := by
  have hstatus := h.status
  have hsettled := h.settled hunheld
  cases hcase : sh.status with
  | failed error =>
    rw [hcase] at hstatus hsettled
    simp only [lockedPoll, poll, hcase, obtainedBy, List.append_nil] at hstep
    cases hstep
    exact h.hands hunheld hnone (FailedOk.handed hstatus) (FailedOk.sticky hstatus h.sticky)
      (.inl hcase.symm) fun r _ => hsettled rfl r
  | succeeded last =>
    rw [hcase] at hstatus hsettled
    rcases hstatus with ⟨rfl, hstatus⟩
    simp only [lockedPoll, poll, hcase, obtainedBy, List.append_nil] at hstep
    cases hstep
    exact h.hands hunheld hnone ⟨rfl, hstatus.again⟩ (hstatus.sticky h.sticky) (.inl hcase.symm)
      fun r _ => hsettled rfl r
  | opened resources =>
    rw [hcase] at hstatus
    have hopened : OpenedOk size sh.obtained (sh.handed.map Handed.result) resources := hstatus
    have hopen : sh.status.isOpen = true := by
      rw [hcase]
      rfl
    have hcases := poll_open_cases hcase polled during
    simp only [lockedPoll, poll, hcase] at hstep
    generalize pollOpen resources sh.context (sh.context.join during) polled = out at hcases hstep
    cases hcases with
    | kept hobtained =>
      cases hstep
      rw [hobtained]
      exact h.hands hunheld hnone (by simpa [ReadPoll.result] using hstatus)
        (by simpa [ReadPoll.result] using h.sticky) (.inr ⟨hopen, rfl⟩) (by simp [ReadPoll.result])
    | empty hobtained =>
      cases hstep
      rw [hobtained]
      exact h.hands hunheld hnone (by simpa [ReadPoll.result, StatusOk] using hopened.empty)
        (by simpa [ReadPoll.result] using h.sticky) (.inr ⟨hopen, rfl⟩) (by simp [ReadPoll.result])
    | buffered bytes hne hfits hobtained =>
      cases hstep
      rw [hobtained]
      exact h.hands hunheld hnone 
        (by simpa [ReadPoll.result, StatusOk] using hopened.buffered hne hfits)
        (by simpa [ReadPoll.result] using h.sticky) (.inr ⟨hopen, rfl⟩) (by simp [ReadPoll.result])
    | chunk bytes hfits hobtained =>
      cases hstep
      rw [hobtained]
      exact h.hands hunheld hnone (hopened.chunk hfits) (hopened.sticky h.sticky _)
        (.inr ⟨hopen, rfl⟩) (by simp [ReadPoll.result, Settled, terminal])
    | ended hzero hobtained =>
      cases hstep
      rw [hobtained]
      exact h.takes hnone hcase ⟨rfl, hopened.succeeded hzero⟩ (hopened.sticky h.sticky _) rfl
        ⟨none, rfl⟩
    | failed error errorType hlate =>
      cases hstep
      exact h.takes hnone hcase (hopened.failed hlate).handed (hopened.sticky h.sticky _) rfl rfl

theorem Inv.deliver (h : Inv size sh) {result : ReadPoll} (hsome : result.result.isSome = true)
    (hin : InHand sh result (Settled sh.custody)) :
    Moves size .reader sh sh.deliver ∧ NoneInHand sh.deliver := by
  simp only [InHand] at hin
  split at hin
  · next hnone =>
    rw [hnone] at hsome
    cases hsome
  rcases hin with ⟨handed, -, hsettled, hhanded⟩
  have hlast : sh.deliver = { sh with returned := sh.returned ++ [⟨handed, sh.released⟩] } := by
    simp [Shared.deliver, hhanded]
  rw [hlast]
  refine ⟨⟨{ h with returned := ?_ }, { Guarantee.refl .reader sh with reads := by simp }⟩, ?_⟩
  · refine List.forall_mem_append.mpr ⟨h.returned, List.forall_mem_singleton.mpr ?_⟩
    intro hterminal
    rcases hsettled hterminal with hreleased | hheld
    · exact .inl (h.released hreleased)
    · exact .inr hheld
  · simp [NoneInHand, hhanded]

theorem reader_step {handle : Bool} {stage : ReaderStage} {input : Input} {task : Task}
    (h : Inv size sh) (hs : ReaderSound sh stage)
    (hstep : readerStep handle sh stage input = some (sh', task)) :
    Moves size .reader sh sh' ∧ TaskSound sh' .reader task := by
  simp only [readerStep] at hstep
  split at hstep
  · cases hstep
    refine ⟨.refl h, ?_⟩
    by_cases hhandle : handle = true
    · rw [if_pos hhandle]
      exact hs
    · rw [if_neg hhandle]
      exact hs
  · split at hstep
    · cases hstep
      exact ⟨.refl h, hs⟩
    · cases hstep
      exact ⟨.refl h, hs⟩
    · cases hstep
      exact ⟨.refl h, hs, by simp⟩
  · cases hstep
    exact ⟨.refl h, hs⟩
  · next outcome after =>
    have hafter : (sh.custody ≠ .held .reader ∧ NoneInHand sh) ∧ outcome ≠ .success := by
      cases after with
      | read result => exact hs.elim
      | _ => exact hs
    split at hstep
    · next taken finishing htaken =>
      cases hstep
      rcases h.terminate hafter.2 htaken with ⟨hmoves, hholds, hhanded, hreturned⟩
      refine ⟨hmoves, hholds, ?_⟩
      have hnone : NoneInHand sh' := by
        rw [NoneInHand, hhanded, hreturned]
        exact hafter.1.2
      cases after with
      | read result => exact hs.elim
      | _ => exact hnone
    · next htaken =>
      cases hstep
      rcases terminate_none htaken with ⟨rfl, hclosed⟩
      refine ⟨.refl h, ?_⟩
      cases after with
      | read result => exact hs.elim
      | drop => exact ⟨hafter.1, h.closed hclosed⟩
      | _ => exact hafter.1
  · next finishing after =>
    rcases hs with ⟨hholds, hafter⟩
    have hkept : ∀ {sh'' : Shared}, sh''.handed = sh.handed → sh''.returned = sh.returned →
        AfterSound sh'' after := by
      intro sh'' hhanded hreturned
      cases after with
      | read result => exact InHand.stable (fun _ hp => hp) hhanded hreturned hafter
      | _ =>
        simp only [AfterSound, NoneInHand, hhanded, hreturned]
        exact hafter
    split at hstep
    · next released finishing' hreleased =>
      cases hstep
      rcases h.release hholds hreleased with ⟨hmoves, hholds', hhanded, hreturned⟩
      exact ⟨hmoves, hholds', hkept hhanded hreturned⟩
    · next hreleased =>
      cases hstep
      rcases h.released_all hholds hreleased with ⟨hmoves, hcustody, hhanded, hreturned⟩
      have hafter' := hkept hhanded hreturned
      have hunheld : sh'.custody ≠ .held .reader := by simp [hcustody]
      refine ⟨hmoves, ?_⟩
      cases after with
      | read result =>
        exact ⟨hunheld, InHand.stable (fun _ _ _ => .inl hcustody) rfl rfl hafter'⟩
      | drop => exact ⟨⟨hunheld, hafter'⟩, by simp [hcustody]⟩
      | _ => exact ⟨hunheld, hafter'⟩
  · next polled during =>
    split at hstep
    · cases hstep
      exact ⟨⟨{ h with }, { Guarantee.refl .reader sh with }⟩, ⟨hs.1, hs.2⟩, by simp⟩
    · next polled _ _ _ hnopanic =>
      rcases hpoll : lockedPoll sh polled during with ⟨polledSh, stage⟩
      rw [hpoll] at hstep
      cases hstep
      exact h.locked_poll hs.1 hs.2 hpoll
  · next result =>
    rcases hs with ⟨hunheld, hin⟩
    split at hstep
    · cases hstep
      exact ⟨.refl h, hunheld, hin⟩
    · cases hstep
      exact ⟨.refl h, hunheld, hin⟩
    · cases hstep
      exact ⟨.refl h, hunheld, hin⟩
    · next hpending hbuffered hempty =>
      cases hstep
      have hsome : result.result.isSome = true := by
        cases result with
        | pending => exact absurd rfl hpending
        | ready answer =>
          cases answer with
          | error error => rfl
          | ok step =>
            cases step with
            | buffered => exact absurd rfl hbuffered
            | empty => exact absurd rfl hempty
            | chunk chunk => rfl
      rcases h.deliver hsome hin with ⟨hmoves, hnone⟩
      exact ⟨hmoves, hunheld, hnone⟩
  · cases hstep
    exact ⟨.refl h, ⟨hs.1, hs.2⟩, by simp⟩
  · cases hstep

theorem timer_exit {exiting aborted : Bool} {task : Task} (h : Inv size sh)
    (hunheld : sh.custody ≠ .held .timer)
    (hstep : (if exiting = true then ({ sh with joined := some !aborted }, Task.timer .done)
      else (sh, .timer (.terminating (.failure .unavailable "body") true aborted))) = (sh', task)) :
    Moves size .timer sh sh' ∧ TaskSound sh' .timer task := by
  by_cases hexiting : exiting = true
  · rw [if_pos hexiting] at hstep
    cases hstep
    exact ⟨⟨{ h with }, { Guarantee.refl .timer sh with }⟩, hunheld⟩
  · rw [if_neg hexiting] at hstep
    cases hstep
    exact ⟨.refl h, hunheld, by simp⟩

theorem Guarantee.trans {sh'' : Shared} (h : Guarantee party sh sh')
    (h' : Guarantee party sh' sh'') : Guarantee party sh sh'' where
  held other hother hheld := by
    rcases h.held other hother hheld with ⟨hheld', hreleased, hstatus⟩
    rcases h'.held other hother hheld' with ⟨hheld'', hreleased', hstatus'⟩
    exact ⟨hheld'', hreleased'.trans hreleased, hstatus'.trans hstatus⟩
  unheld other hother hheld := h'.unheld other hother (h.unheld other hother hheld)
  released hreleased := h'.released (h.released hreleased)
  closed hclosed := h'.closed (h.closed hclosed)
  reads htimer :=
    ⟨(h'.reads htimer).1.trans (h.reads htimer).1, (h'.reads htimer).2.trans (h.reads htimer).2⟩

theorem timer_step {stage : TimerStage} {input : Input} {task : Task} (h : Inv size sh)
    (hs : TimerSound sh stage) (hstep : timerStep sh stage input = some (sh', task)) :
    Moves size .timer sh sh' ∧ TaskSound sh' .timer task := by
  simp only [timerStep] at hstep
  split at hstep
  · split at hstep
    · cases hstep
    · cases hstep
      exact ⟨.refl h, hs, by simp⟩
  · cases hstep
    exact ⟨.refl h, hs, by simp⟩
  · split at hstep
    · next taken finishing htaken =>
      cases hstep
      rcases h.terminate hs.2 htaken with ⟨hmoves, hholds, -⟩
      exact ⟨hmoves, hholds⟩
    · next taken htaken =>
      rcases terminate_none htaken with ⟨rfl, -⟩
      exact timer_exit h hs.1 (Option.some.inj hstep)
  · split at hstep
    · next released finishing' hreleased =>
      cases hstep
      rcases h.release hs hreleased with ⟨hmoves, hholds, -⟩
      exact ⟨hmoves, hholds⟩
    · next released hreleased =>
      rcases h.released_all hs hreleased with ⟨hmoves, hcustody, -⟩
      rcases timer_exit hmoves.inv (by simp [hcustody]) (Option.some.inj hstep) with
        ⟨hexit, htask⟩
      exact ⟨⟨hexit.inv, hmoves.guarantee.trans hexit.guarantee⟩, htask⟩
  · cases hstep

def proof (size : ℕ) : Proof download where
  inv := Inv size
  knows party sh task := TaskSound sh party task
  guarantee := Guarantee
  act_sound {i s t e s' t'} hinv hknows hact := by
    rcases i with _ | _ <;> rcases t with ⟨handle, stage⟩ | stage
    · rcases reader_step hinv hknows hact with ⟨hmoves, htask⟩
      exact ⟨hmoves.inv, htask, hmoves.guarantee⟩
    · cases hact
    · cases hact
    · rcases timer_step hinv hknows hact with ⟨hmoves, htask⟩
      exact ⟨hmoves.inv, htask, hmoves.guarantee⟩
  act_stable {i j s s' t} hne hguarantee hknows := by
    rcases j with _ | _ <;> rcases t with ⟨handle, stage⟩ | stage
    · cases i with
      | reader => exact absurd rfl hne
      | timer => exact reader_stable hguarantee hknows
    · exact hknows.elim
    · exact hknows.elim
    · cases i with
      | reader => exact timer_stable hguarantee hknows
      | timer => exact absurd rfl hne
  env_sound {s x s'} hinv henv := by
    cases henv
    refine ⟨{ hinv with }, fun party task hknows => ?_⟩
    rcases party with _ | _ <;> rcases task with ⟨handle, stage⟩ | stage
    · exact reader_stable { Guarantee.refl .timer s with } hknows
    · exact hknows.elim
    · exact hknows.elim
    · exact timer_stable { Guarantee.refl .reader s with } hknows

theorem opened_holds (size : ℕ) : (proof size).Holds (opened size) where
  inv :=
    { status := ⟨by simp [opened], rfl, by simp [opened, delivered], .inr rfl, .inl rfl, by simp [opened]⟩
      sticky := List.Pairwise.nil
      opened := by simp [opened, DownloadState.isOpen]
      unreleased := fun _ => rfl
      released := by simp [opened]
      returned := by simp [opened] }
  knows party := by
    cases party with
    | reader => exact ⟨by simp [opened], rfl⟩
    | timer => simp [proof, TaskSound, TimerSound, opened]

def results (sh : Shared) : List ReadResult := sh.returned.map fun returned => returned.handed.result

/-- The task is not between taking the cell and releasing its last part. -/
def quiet : Task → Bool
  | .reader _ (.finishing _ _) => false
  | .timer (.finishing _ _ _) => false
  | _ => true

def isDropped : Task → Bool
  | .reader _ .dropped => true
  | _ => false

def AtMostOnce (released : Released) : Prop :=
  released.bodies ≤ 1 ∧ released.permits ≤ 1 ∧ released.records.length ≤ 1

structure Delivery (size : ℕ) (w : World Party Shared Task) : Prop where
  bytes : delivered (results w.shared) <+: provided w.shared.obtained
  ended : .ok none ∈ results w.shared →
    delivered (results w.shared) = provided w.shared.obtained ∧
      (delivered (results w.shared)).length = size ∧ ⟨.ended, false⟩ ∈ w.shared.obtained
  withheld : ⟨.ended, false⟩ ∉ w.shared.obtained → Withheld size (results w.shared)
  sticky : (results w.shared).Pairwise Sticky
  late : ∀ o ∈ w.shared.obtained, o.late = true →
    delivered (results w.shared) <+: onTime w.shared.obtained ∧
      w.shared.status = .failed .unavailable ∧
      ∀ result ∈ results w.shared, terminal result = true → result = .error .unavailable
  atMostOnce : AtMostOnce w.shared.released
  exactlyOnce : (w.shared.status.isOpen = false ∨ isDropped (w.tasks .reader) = true) →
    (∀ party, quiet (w.tasks party) = true) → Once w.shared.status w.shared.released

/-- Every terminal result reached the caller after the release. -/
def ReleasedFirst (sh : Shared) : Prop :=
  ∀ returned ∈ sh.returned, terminal returned.handed.result = true → Once sh.status returned.released

theorem ReaderSound.returned {stage : ReaderStage} (h : ReaderSound sh stage) :
    sh.returned.map Returned.handed <+: sh.handed := by
  have hnone : NoneInHand sh → sh.returned.map Returned.handed <+: sh.handed := by
    intro hnone
    exact hnone ▸ List.prefix_rfl
  have hin : ∀ {result p}, InHand sh result p →
      sh.returned.map Returned.handed <+: sh.handed := by
    intro result p hin
    simp only [InHand] at hin
    split at hin
    · exact hnone hin
    · rcases hin with ⟨handed, -, -, heq⟩
      rw [heq]
      exact List.prefix_append _ _
  cases stage with
  | terminating outcome after =>
    cases after with
    | read result => exact h.elim
    | _ => exact hnone h.1.2
  | finishing finishing after =>
    cases after with
    | read result => exact hin h.2
    | _ => exact hnone h.2
  | checking result => exact hin h.2
  | dropped => exact hnone h.1.2
  | _ => exact hnone h.2

theorem returned_results (h : sh.returned.map Returned.handed <+: sh.handed) :
    results sh <+: sh.handed.map Handed.result := by
  have hmap := h.map Handed.result
  rwa [List.map_map] at hmap

section Prefix

variable {obtained : List Obtained} {all seen : List ReadResult} {status : DownloadState}

theorem delivered_mono (h : seen <+: all) : delivered seen <+: delivered all := by
  rcases h with ⟨rest, rfl⟩
  rw [delivered_append]
  exact List.prefix_append _ _

theorem StatusOk.bytes (h : StatusOk size obtained all status) :
    delivered all <+: provided obtained := by
  cases status with
  | opened resources =>
    rw [OpenedOk.bytes h]
    exact List.prefix_append _ _
  | succeeded last =>
    exact h.2.bytes ▸ List.prefix_rfl
  | failed error => exact FailedOk.bytes h

theorem StatusOk.succeeded (h : StatusOk size obtained all status) (hended : .ok none ∈ all) :
    SucceededOk size obtained all := by
  cases status with
  | opened resources =>
    rcases OpenedOk.results h _ hended with ⟨bytes, hbytes⟩
    cases hbytes
  | succeeded last => exact h.2
  | failed error =>
    rcases FailedOk.results h _ hended with ⟨bytes, hbytes⟩ | herror
    · cases hbytes
    · cases herror

theorem delivered_after_end (hs : all.Pairwise Sticky) (h : seen <+: all)
    (hended : .ok none ∈ seen) : delivered seen = delivered all := by
  rcases h with ⟨rest, rfl⟩
  have hrest : ∀ r ∈ rest, resultBytes r = [] := by
    intro r hmem
    have hnone := ((List.pairwise_append.mp hs).2.2 _ hended r hmem).2 rfl
    rw [hnone]
    rfl
  have hempty : delivered rest = [] := List.flatMap_eq_nil_iff.mpr hrest
  rw [delivered_append, hempty, List.append_nil]

theorem Withheld.mono (h : Withheld size all) (hseen : seen <+: all) : Withheld size seen := by
  have hdelivered := delivered_mono hseen
  rcases h with hshort | hempty
  · have hlength := hdelivered.length_le
    left
    omega
  · right
    rw [hempty] at hdelivered
    exact List.prefix_nil.mp hdelivered

theorem StatusOk.withheld (h : StatusOk size obtained all status)
    (hended : ⟨.ended, false⟩ ∉ obtained) : Withheld size all := by
  cases status with
  | opened resources => exact OpenedOk.withheld h
  | succeeded last => exact absurd h.2.confirmed hended
  | failed error => exact FailedOk.withheld h

/-- A poll that ended after the context stopped fails the download. -/
theorem StatusOk.late (h : StatusOk size obtained all status) {o : Obtained} (hmem : o ∈ obtained)
    (hlate : o.late = true) : status = .failed .unavailable ∧ FailedOk size obtained all .unavailable := by
  cases status with
  | opened resources =>
    rw [(OpenedOk.chunks h o hmem).1] at hlate
    cases hlate
  | succeeded last =>
    rw [h.2.onTime o hmem] at hlate
    cases hlate
  | failed error =>
    have hunavailable := FailedOk.late h o hmem hlate
    subst hunavailable
    exact ⟨rfl, h⟩

end Prefix

/-- Whoever has custody is in the middle of releasing. -/
theorem holder {task : Task} (hheld : sh.custody = .held party) (h : TaskSound sh party task) :
    quiet task = false ∧ ∃ finishing, Holds party sh finishing := by
  cases party with
  | reader =>
    rcases task with ⟨handle, stage⟩ | stage
    · cases stage with
      | finishing finishing after => exact ⟨rfl, finishing, h.1⟩
      | terminating outcome after =>
        cases after with
        | read result => exact h.elim
        | _ => exact absurd hheld h.1.1
      | dropped => exact absurd hheld h.1.1
      | _ => exact absurd hheld h.1
    · exact h.elim
  | timer =>
    rcases task with ⟨handle, stage⟩ | stage
    · exact h.elim
    · cases stage with
      | finishing finishing exiting aborted => exact ⟨rfl, finishing, h⟩
      | terminating outcome exiting aborted => exact absurd hheld h.1
      | _ => exact absurd hheld h

theorem Progress.released_once {finishing : Finishing} {released : Released}
    (h : Progress finishing released) : AtMostOnce released := by
  rcases finishing with ⟨outcome, finalized, place⟩
  cases place with
  | record =>
    rw [h.2]
    simp [AtMostOnce]
  | body =>
    cases finalized with
    | true =>
      have hreleased : released = ⟨0, 0, [outcome.recorded]⟩ := h
      simp [AtMostOnce, hreleased]
    | false =>
      have hreleased : outcome = .cancelled ∧ released = ⟨0, 0, []⟩ := h
      simp [AtMostOnce, hreleased]
  | guard =>
    cases finalized with
    | true =>
      have hreleased : released = ⟨1, 0, [outcome.recorded]⟩ := h
      simp [AtMostOnce, hreleased]
    | false =>
      have hreleased : outcome = .cancelled ∧ released = ⟨1, 0, []⟩ := h
      simp [AtMostOnce, hreleased]
  | permit =>
    have hreleased : released = ⟨1, 0, [outcome.recorded]⟩ := h
    simp [AtMostOnce, hreleased]

theorem Inv.released_once (h : Inv size sh) {tasks : Party → Task}
    (hknows : ∀ party, TaskSound sh party (tasks party)) : AtMostOnce sh.released := by
  cases hcustody : sh.custody with
  | cell =>
    rw [h.unreleased hcustody]
    simp [AtMostOnce]
  | released =>
    rcases h.released hcustody with ⟨recorded, hreleased, -⟩
    rw [hreleased]
    simp [AtMostOnce]
  | held party =>
    rcases (holder hcustody (hknows party)).2 with ⟨finishing, hholds⟩
    exact hholds.progress.released_once

theorem Inv.exactly_once (h : Inv size sh) {tasks : Party → Task}
    (hknows : ∀ party, TaskSound sh party (tasks party)) (hclosed : sh.custody ≠ .cell)
    (hquiet : ∀ party, quiet (tasks party) = true) : Once sh.status sh.released := by
  cases hcustody : sh.custody with
  | cell => exact absurd hcustody hclosed
  | released => exact h.released hcustody
  | held party =>
    have hbusy := (holder hcustody (hknows party)).1
    rw [hquiet party] at hbusy
    cases hbusy

theorem reader_task {task : Task} (h : TaskSound sh .reader task) :
    ∃ handle stage, task = .reader handle stage ∧ ReaderSound sh stage := by
  rcases task with ⟨handle, stage⟩ | stage
  · exact ⟨handle, stage, rfl, h⟩
  · exact h.elim

/-- Everything but the order of the release and the result holds over every interleaving. -/
theorem reachable_delivery {w : World Party Shared Task}
    (h : (download.system (opened size)).Reachable w) : Delivery size w := by
  have hholds := (proof size).reachable_holds (opened_holds size) h
  have hinv : Inv size w.shared := hholds.inv
  have hknows : ∀ party, TaskSound w.shared party (w.tasks party) := hholds.knows
  rcases reader_task (hknows .reader) with ⟨handle, stage, htask, hreader⟩
  have hseen := returned_results hreader.returned
  have hstatus := hinv.status
  refine ⟨?_, ?_, ?_, ?_, ?_, hinv.released_once hknows, ?_⟩
  · exact (delivered_mono hseen).trans hstatus.bytes
  · intro hended
    have hsucceeded := hstatus.succeeded (hseen.subset hended)
    have hall := delivered_after_end hinv.sticky hseen hended
    rw [hall, hsucceeded.bytes]
    exact ⟨rfl, hsucceeded.length, hsucceeded.confirmed⟩
  · intro hended
    exact (hstatus.withheld hended).mono hseen
  · exact hinv.sticky.sublist hseen.sublist
  · intro o hmem hlate
    rcases hstatus.late hmem hlate with ⟨hunavailable, hfailed⟩
    refine ⟨(delivered_mono hseen).trans hfailed.onTime, hunavailable, ?_⟩
    intro result hresult hterminal
    rcases hfailed.results result (hseen.subset hresult) with ⟨bytes, rfl⟩ | rfl
    · cases hterminal
    · rfl
  · intro hclosed hquiet
    refine hinv.exactly_once hknows ?_ hquiet
    rcases hclosed with hclosed | hdropped
    · exact hinv.closed hclosed
    · rw [htask] at hdropped
      cases stage with
      | dropped => exact hreader.2
      | _ => cases hdropped

/-- No read polls the download while the timer task has its resources. -/
def calm (w : World Party Shared Task) : Move Party Input OperationContext → Bool
  | .act .reader (.polled _ _) => w.shared.custody ≠ .held .timer
  | _ => true

/-- No result was decided while the timer task had the resources. -/
def NoneEarly (sh : Shared) : Prop :=
  (∀ handed ∈ sh.handed, handed.custody ≠ .held .timer) ∧
    ∀ returned ∈ sh.returned, returned.handed.custody ≠ .held .timer

theorem NoneEarly.deliver (h : NoneEarly sh) : NoneEarly sh.deliver := by
  refine ⟨h.1, ?_⟩
  intro returned hmem
  rcases List.mem_append.mp hmem with hold | hnew
  · exact h.2 returned hold
  · rcases Option.map_eq_some_iff.mp (Option.mem_toList.mp hnew) with ⟨handed, hlast, rfl⟩
    exact h.1 handed (List.mem_of_getLast? hlast)

theorem NoneEarly.hand (h : NoneEarly sh) (hcustody : sh.custody ≠ .held .timer)
    (result : ReadPoll) : ∀ handed ∈ sh.hand result, handed.custody ≠ .held .timer := by
  intro handed hmem
  rcases List.mem_append.mp hmem with hold | hnew
  · exact h.1 handed hold
  · rcases Option.map_eq_some_iff.mp (Option.mem_toList.mp hnew) with ⟨r, -, rfl⟩
    exact hcustody

theorem locked_poll_reads (sh : Shared) (polled : Polled) (during : OperationContext) :
    (∃ result, (lockedPoll sh polled during).1.handed = sh.hand result) ∧
      (lockedPoll sh polled during).1.returned = sh.returned := by
  simp only [lockedPoll]
  split
  · exact ⟨⟨_, rfl⟩, rfl⟩
  · exact ⟨⟨_, rfl⟩, rfl⟩

theorem terminate_reads (sh : Shared) (party : Party) (outcome : Outcome) :
    (terminate sh party outcome).1.handed = sh.handed ∧
      (terminate sh party outcome).1.returned = sh.returned := by
  simp only [terminate]
  split
  · exact ⟨rfl, rfl⟩
  · exact ⟨rfl, rfl⟩

theorem finishing_reads (sh : Shared) (finishing : Finishing) :
    (finishing.step sh).1.handed = sh.handed ∧
      (finishing.step sh).1.returned = sh.returned := by
  simp only [Finishing.step]
  split
  · split
    · exact ⟨rfl, rfl⟩
    · exact ⟨rfl, rfl⟩
  · exact ⟨rfl, rfl⟩
  · split
    · exact ⟨rfl, rfl⟩
    · exact ⟨rfl, rfl⟩
  · exact ⟨rfl, rfl⟩

theorem NoneEarly.of_reads (h : NoneEarly sh) (hhanded : sh'.handed = sh.handed)
    (hreturned : sh'.returned = sh.returned) : NoneEarly sh' := by
  rw [NoneEarly, hhanded, hreturned]
  exact h

theorem NoneEarly.reader {handle : Bool} {stage : ReaderStage} {input : Input} {task : Task}
    (h : NoneEarly sh) (hstep : readerStep handle sh stage input = some (sh', task))
    (hcalm : ∀ polled during, input = .polled polled during → sh.custody ≠ .held .timer) :
    NoneEarly sh' := by
  simp only [readerStep] at hstep
  split at hstep
  · cases hstep
    exact h
  · split at hstep <;> cases hstep <;> exact h
  · cases hstep
    exact h
  · next outcome after =>
    have hreads := terminate_reads sh .reader outcome
    split at hstep
    · next htaken =>
      rw [htaken] at hreads
      cases hstep
      exact h.of_reads hreads.1 hreads.2
    · next htaken =>
      rw [htaken] at hreads
      cases hstep
      exact h.of_reads hreads.1 hreads.2
  · next finishing after =>
    have hreads := finishing_reads sh finishing
    split at hstep
    · next hreleased =>
      rw [hreleased] at hreads
      cases hstep
      exact h.of_reads hreads.1 hreads.2
    · next hreleased =>
      rw [hreleased] at hreads
      cases hstep
      exact h.of_reads hreads.1 hreads.2
  · next polled during =>
    have hcustody := hcalm _ _ rfl
    split at hstep
    · cases hstep
      exact h
    · next polled _ _ _ hnopanic =>
      cases hstep
      rcases locked_poll_reads sh polled during with ⟨⟨result, hhanded⟩, hreturned⟩
      refine ⟨?_, ?_⟩
      · rw [hhanded]
        exact h.hand hcustody result
      · rw [hreturned]
        exact h.2
  · split at hstep
    · cases hstep
      exact h
    · cases hstep
      exact h
    · cases hstep
      exact h
    · cases hstep
      exact h.deliver
  · cases hstep
    exact h
  · cases hstep

theorem calm_none_early {w : World Party Shared Task}
    (h : ((download.system (opened size)).restrict calm).Reachable w) : NoneEarly w.shared := by
  refine System.Reachable.induction (P := fun w => NoneEarly w.shared) ?_ ?_ h
  · simp [System.restrict, Program.system, opened, NoneEarly]
  intro s move t hreach hearly hstep
  have hcalm := (System.restrict_step hstep).1
  have hmove : download.step s move = some t := (System.restrict_step hstep).2
  have hknows := ((proof size).reachable_holds (opened_holds size) hreach.unrestrict)
  cases move with
  | env stop =>
    rcases Program.step_env hmove with ⟨shared, henv, rfl⟩
    cases henv
    exact hearly
  | act party input =>
    rcases Program.step_act hmove with ⟨shared, task, hact, rfl⟩
    cases party with
    | timer =>
      have hreads := ((proof size).act_sound hknows.inv (hknows.knows .timer) hact).2.2.reads rfl
      exact hearly.of_reads hreads.1 hreads.2
    | reader =>
      rcases reader_task (hknows.knows .reader) with ⟨handle, stage, htask, -⟩
      rw [htask] at hact
      refine hearly.reader hact fun polled during hinput => ?_
      subst hinput
      simpa [calm] using hcalm

/-- A download is delivered whole or fails, and its resources are released once; where no read
comes in the middle of the timer's release, they are released before a terminal result. -/
theorem delivered_once (size : ℕ) (w : World Party Shared Task)
    (h : ((download.system (opened size)).restrict calm).Reachable w) :
    Delivery size w ∧ ReleasedFirst w.shared := by
  have hdelivery := reachable_delivery h.unrestrict
  have hinv : Inv size w.shared :=
    ((proof size).reachable_holds (opened_holds size) h.unrestrict).inv
  refine ⟨hdelivery, fun returned hmem hterminal => ?_⟩
  rcases hinv.returned returned hmem hterminal with honce | hheld
  · exact honce
  · exact absurd hheld ((calm_none_early h).2 returned hmem)

def wholeRun : List (Move Party Input OperationContext) :=
  [.act .reader .read, .act .reader .next,
    .act .reader (.polled (.chunk [1]) ⟨false, false⟩), .act .reader .next,
    .act .reader .read, .act .reader .next,
    .act .reader (.polled (.chunk [2, 3]) ⟨false, false⟩), .act .reader .next,
    .act .reader (.polled .ended ⟨false, false⟩),
    .act .reader .next, .act .reader .next, .act .reader .next, .act .reader .next,
    .act .timer .abort, .act .timer .next, .act .reader .next,
    .act .reader .read, .act .reader .next, .act .reader .next,
    .act .reader (.polled .pending ⟨false, false⟩), .act .reader .next]

theorem delivered_once_whole : ∃ w, Delivery 3 w ∧ ReleasedFirst w.shared ∧
    results w.shared = [.ok (some [1]), .ok (some [2, 3]), .ok none] ∧
    w.shared.released = ⟨1, 1, [.ok]⟩ := by
  have hrun : (((download.system (opened 3)).restrict calm).run (opened 3) wholeRun).map
      (fun w => (results w.shared, w.shared.released)) =
      some ([.ok (some [1]), .ok (some [2, 3]), .ok none], ⟨1, 1, [.ok]⟩) := by
    decide
  rcases Option.map_eq_some_iff.mp hrun with ⟨w, hw, hseen⟩
  rcases Prod.mk.inj hseen with ⟨hresults, hreleased⟩
  have hsound := delivered_once 3 w (System.reachable_of_run hw)
  exact ⟨w, hsound.1, hsound.2, hresults, hreleased⟩

/-- The context stops, the timer takes the cell, and a read gets the error before the release. -/
def earlyRun : List (Move Party Input OperationContext) :=
  [.env ⟨true, false⟩, .act .timer .next, .act .timer .next,
    .act .reader .read, .act .reader .next,
    .act .reader (.polled .pending ⟨false, false⟩), .act .reader .next]

theorem returned_before_release :
    ¬ ∀ w, (download.system (opened 3)).Reachable w → ReleasedFirst w.shared := by
  intro hall
  have hrun : ((download.system (opened 3)).run (opened 3) earlyRun).map
      (fun w => w.shared.returned.map fun returned => (returned.handed.result, returned.released)) =
      some [(.error .unavailable, ⟨0, 0, []⟩)] := by
    decide
  rcases Option.map_eq_some_iff.mp hrun with ⟨w, hw, hreturned⟩
  rcases List.map_eq_singleton_iff.mp hreturned with ⟨returned, heq, hpair⟩
  rcases Prod.mk.inj hpair with ⟨hresult, hreleased⟩
  have honce := hall w (System.reachable_of_run hw) returned (by simp [heq]) (by rw [hresult]; rfl)
  rcases honce with ⟨recorded, hwhole, -⟩
  rw [hreleased] at hwhole
  cases hwhole

end ObjectDelivery
