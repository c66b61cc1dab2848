import ServiceTemplate.CacheLink
import Mathlib.Tactic.SplitIfs

/-! What a retirement and a close guarantee. -/
namespace CacheLink

open TransitionSystem
open SharedState
open OperationStop

/-- What may not follow a retirement or a close that returned. -/
structure Fenced (before after : Occurrence) : Prop where
  retired : ∀ g client, before = .retired g → after ≠ .acquired client g
  acquired : ∀ g client, before = .closed → after ≠ .acquired client g
  published : ∀ g, before = .closed → after ≠ .published g

structure Inv (sh : Shared) : Prop where
  current : ∀ g, sh.current = some g → .published g ∈ sh.history
  closed : sh.closed = true → sh.current = none
  closing : .closed ∈ sh.history → sh.closed = true
  retired : ∀ g, .retired g ∈ sh.history → sh.cancelled g = true
  acquired : ∀ client g, .acquired client g ∈ sh.history → .published g ∈ sh.history
  once : ∀ client g g', .acquired client g ∈ sh.history → .acquired client g' ∈ sh.history → g = g'
  dispatched : ∀ client g, .dispatched client g ∈ sh.history → .acquired client g ∈ sh.history
  created : ∀ g, .published g ∈ sh.history → g < sh.created
  counted : ∀ g, sh.retirements.count g =
    if .published g ∈ sh.history ∧ sh.current ≠ some g then 1 else 0
  order : sh.history.Pairwise Fenced
  released : ∀ k client g, sh.history[k]? = some (.released client (some (g, false))) →
    .retired g ∈ sh.history.take k

def Occurrence.owner : Occurrence → Option Party
  | .published _ => some .supervisor
  | .acquired client _ => some (.client client)
  | _ => none

structure Guarantee (party : Party) (sh sh' : Shared) : Prop where
  history : ∃ more, sh'.history = sh.history ++ more ∧
    ∀ o ∈ more, ∀ owner, o.owner = some owner → owner = party
  cancelled : ∀ g, sh.cancelled g = true → sh'.cancelled g = true
  closed : sh.closed = true → sh'.closed = true
  current : sh'.current = sh.current ∨ sh'.current = none ∨
    party = .supervisor ∧ ∃ g, sh'.current = some g ∧ .published g ∉ sh.history
  created : sh.created ≤ sh'.created

structure Out (sh : Shared) (g : Generation) : Prop where
  cancelled : sh.cancelled g = true
  current : sh.current ≠ some g
  published : .published g ∈ sh.history

def ClientKnows (client : ℕ) (sh : Shared) : ClientStage → Prop
  | .idle | .admitted | .registered _ | .waiting _ => ∀ g, .acquired client g ∉ sh.history
  | .acquired g | .selecting g _ | .querying g _ | .parked g _ | .retiring g | .dropping g _ =>
    .acquired client g ∈ sh.history
  | .retired g | .dropped g => .acquired client g ∈ sh.history ∧ Out sh g
  | .releasing (some (g, false)) => .retired g ∈ sh.history
  | .releasing _ | .done => True

def SupervisorKnows (sh : Shared) : SupervisorStage → Prop
  | .unstarted | .sleeping | .failing _ | .failed => sh.current = none
  | .connecting g | .publishing g =>
    sh.current = none ∧ g < sh.created ∧ .published g ∉ sh.history
  | .published g | .maintaining g | .retiring g _ =>
    (sh.current = none ∨ sh.current = some g) ∧ .published g ∈ sh.history
  | .retired g _ => sh.current = none ∧ Out sh g
  | .closing => sh.closed = true
  | .exiting | .exited => True

def LinkKnows (sh : Shared) : LinkStage → Prop
  | .closing => sh.closed = true
  | .held | .dropped => True

def Knows : Party → Shared → Task → Prop
  | .supervisor, sh, .supervisor stage => SupervisorKnows sh stage
  | .link, sh, .link stage => LinkKnows sh stage
  | .client client, sh, .client stage => ClientKnows client sh stage
  | _, _, _ => False

structure Moves (party : Party) (sh sh' : Shared) : Prop where
  inv : Inv sh'
  guarantee : Guarantee party sh sh'

variable {party : Party} {sh sh' sh'' : Shared} {g : Generation} {client : ℕ}

theorem Guarantee.refl (party : Party) (sh : Shared) : Guarantee party sh sh where
  history := ⟨[], (List.append_nil _).symm, by simp⟩
  cancelled _ h := h
  closed h := h
  current := .inl rfl
  created := Nat.le_refl _

theorem Guarantee.kept (h : Guarantee party sh sh') {o : Occurrence} (ho : o ∈ sh.history) :
    o ∈ sh'.history := by
  obtain ⟨more, hmore, _⟩ := h.history
  rw [hmore]
  exact List.mem_append_left _ ho

theorem Guarantee.absent (h : Guarantee party sh sh') {o : Occurrence} {owner : Party}
    (howner : o.owner = some owner) (hne : owner ≠ party) (ho : o ∉ sh.history) :
    o ∉ sh'.history := by
  obtain ⟨more, hmore, hmine⟩ := h.history
  rw [hmore, List.mem_append]
  rintro (hold | hnew)
  · exact ho hold
  · exact hne (hmine o hnew owner howner)

theorem Guarantee.trans (h : Guarantee party sh sh') (k : Guarantee party sh' sh'') :
    Guarantee party sh sh'' where
  history := by
    obtain ⟨more, hmore, hmine⟩ := h.history
    obtain ⟨more', hmore', hmine'⟩ := k.history
    refine ⟨more ++ more', by rw [hmore', hmore, List.append_assoc], ?_⟩
    intro o ho
    rcases List.mem_append.mp ho with ho | ho
    · exact hmine o ho
    · exact hmine' o ho
  cancelled g hg := k.cancelled g (h.cancelled g hg)
  closed hclosed := k.closed (h.closed hclosed)
  current := by
    rcases k.current with hsame | hnone | ⟨hparty, g, hg, hfresh⟩
    · rw [hsame]
      exact h.current
    · exact .inr (.inl hnone)
    · exact .inr (.inr ⟨hparty, g, hg, fun hold => hfresh (h.kept hold)⟩)
  created := Nat.le_trans h.created k.created

theorem Guarantee.out (h : Guarantee party sh sh') (k : Out sh g) : Out sh' g where
  cancelled := h.cancelled g k.cancelled
  current := by
    rcases h.current with hsame | hnone | ⟨_, other, hother, hfresh⟩
    · rw [hsame]
      exact k.current
    · rw [hnone]
      exact fun heq => by cases heq
    · rw [hother]
      intro heq
      cases heq
      exact hfresh k.published
  published := h.kept k.published

theorem Guarantee.uncurrent (h : Guarantee party sh sh') (hparty : party ≠ .supervisor)
    (hcurrent : sh.current = none) : sh'.current = none := by
  rcases h.current with hsame | hnone | ⟨heq, _⟩
  · exact hsame.trans hcurrent
  · exact hnone
  · exact absurd heq hparty

theorem client_stable (h : Guarantee party sh sh') (hne : .client client ≠ party)
    {stage : ClientStage} (hknows : ClientKnows client sh stage) :
    ClientKnows client sh' stage := by
  cases stage with
  | idle | admitted | registered _ | waiting _ =>
    exact fun g => h.absent rfl hne (hknows g)
  | acquired _ | selecting _ _ | querying _ _ | parked _ _ | retiring _ | dropping _ _ =>
    exact h.kept hknows
  | retired _ | dropped _ => exact ⟨h.kept hknows.1, h.out hknows.2⟩
  | releasing exchange =>
    match exchange with
    | some (_, false) => exact h.kept hknows
    | some (_, true) => trivial
    | none => trivial
  | done => trivial

theorem supervisor_stable (h : Guarantee party sh sh') (hne : Party.supervisor ≠ party)
    {stage : SupervisorStage} (hknows : SupervisorKnows sh stage) : SupervisorKnows sh' stage := by
  cases stage with
  | unstarted | sleeping | failing _ | failed => exact h.uncurrent hne.symm hknows
  | connecting _ | publishing _ =>
    exact ⟨h.uncurrent hne.symm hknows.1, Nat.lt_of_lt_of_le hknows.2.1 h.created,
      h.absent rfl hne hknows.2.2⟩
  | published _ | maintaining _ | retiring _ _ =>
    refine ⟨?_, h.kept hknows.2⟩
    rcases h.current with hsame | hnone | ⟨heq, _⟩
    · rw [hsame]
      exact hknows.1
    · exact .inl hnone
    · exact absurd heq.symm hne
  | retired _ _ => exact ⟨h.uncurrent hne.symm hknows.1, h.out hknows.2⟩
  | closing => exact h.closed hknows
  | exiting | exited => trivial

theorem knows_stable (h : Guarantee party sh sh') {other : Party} (hne : other ≠ party)
    {task : Task} (hknows : Knows other sh task) : Knows other sh' task := by
  cases other with
  | supervisor =>
    cases task with
    | supervisor stage => exact supervisor_stable h hne hknows
    | _ => exact hknows
  | link =>
    cases task with
    | link stage =>
      cases stage with
      | closing => exact h.closed hknows
      | _ => trivial
    | _ => exact hknows
  | client client =>
    cases task with
    | client stage => exact client_stable h hne hknows
    | _ => exact hknows

theorem Moves.refl (h : Inv sh) : Moves party sh sh := ⟨h, .refl party sh⟩

theorem Moves.trans (h : Moves party sh sh') (k : Moves party sh' sh'') : Moves party sh sh'' :=
  ⟨k.inv, h.guarantee.trans k.guarantee⟩

theorem Inv.notify (h : Inv sh) : Moves party sh sh.notifyWaiters :=
  ⟨{ h with }, { Guarantee.refl party sh with }⟩

theorem Inv.admission (h : Inv sh) (slots : Slots) : Moves party sh (sh.admission slots) :=
  ⟨{ h with }, { Guarantee.refl party sh with }⟩

theorem Inv.drop_admission (h : Inv sh) (slots : Slots) : Moves party sh (sh.dropAdmission slots) :=
  ⟨{ h with }, { Guarantee.refl party sh with }⟩

theorem update_cancelled (f : Generation → Bool) (g g' : Generation) (h : f g' = true) :
    Function.update f g true g' = true := by
  by_cases heq : g' = g
  · rw [heq, Function.update_self]
  · rwa [Function.update_of_ne heq]

theorem Inv.cancel (h : Inv sh) (g : Generation) : Moves party sh (sh.cancel g) :=
  ⟨{ h with retired := fun g' hg' => update_cancelled _ g g' (h.retired g' hg') },
    { Guarantee.refl party sh with cancelled := fun g' hg' => update_cancelled _ g g' hg' }⟩

theorem Inv.evict (h : Inv sh) (hcurrent : sh.current = some g) : Moves party sh (sh.evict g) := by
  constructor
  · refine { h with current := ?_, closed := fun _ => rfl, counted := ?_ }
    · intro g' hg'
      cases hg'
    · intro g'
      have hbefore := h.counted g'
      have hpublished := h.current g hcurrent
      change (sh.retirements ++ [g]).count g' = if .published g' ∈ sh.history ∧ none ≠ some g' then 1
        else 0
      rw [List.count_append, hbefore, hcurrent]
      by_cases heq : g = g'
      · subst heq
        simp [hpublished]
      · simp [heq]
  · exact { Guarantee.refl party sh with current := .inr (.inl rfl) }

theorem Inv.retire (h : Inv sh) (g : Generation) : Moves party sh (sh.retire g) := by
  rw [Shared.retire]
  split
  · rename_i hcurrent
    have hcancel : Moves party sh (sh.cancel g) := h.cancel g
    exact hcancel.trans (hcancel.inv.evict hcurrent)
  · exact h.cancel g

theorem retire_out (hpublished : .published g ∈ sh.history) : Out (sh.retire g) g := by
  rw [Shared.retire]
  split
  · exact ⟨Function.update_self .., (Option.some_ne_none g).symm, hpublished⟩
  · rename_i hcurrent
    exact ⟨Function.update_self .., hcurrent, hpublished⟩

theorem Inv.shut (h : Inv sh) (hcurrent : sh.current = none) :
    Moves party sh { sh with closed := true } :=
  ⟨{ h with closed := fun _ => hcurrent, closing := fun _ => rfl },
    { Guarantee.refl party sh with closed := fun _ => rfl }⟩

theorem Inv.close (h : Inv sh) : Moves party sh sh.close := by
  rw [Shared.close]
  split
  · rename_i g hcurrent
    have hcancel : Moves party sh (sh.cancel g) := h.cancel g
    have hevict : Moves party (sh.cancel g) ((sh.cancel g).evict g) := hcancel.inv.evict hcurrent
    exact (hcancel.trans hevict).trans (hevict.inv.shut rfl)
  · rename_i hcurrent
    exact h.shut hcurrent

theorem retire_uncurrent (h : sh.current = none ∨ sh.current = some g) :
    (sh.retire g).current = none := by
  rw [Shared.retire]
  split
  · rfl
  · rename_i hcurrent
    exact h.resolve_right hcurrent

theorem close_closed (sh : Shared) : sh.close.closed = true := by
  rw [Shared.close]
  split <;> rfl

/-- A party may record what the invariant asks of it. -/
structure Recordable (party : Party) (sh : Shared) (o : Occurrence) : Prop where
  owner : ∀ owner, o.owner = some owner → owner = party
  published : ∀ g, o ≠ .published g
  acquired : ∀ client g, o = .acquired client g →
    sh.look = some (.ok g) ∧ ∀ g', .acquired client g' ∉ sh.history
  dispatched : ∀ client g, o = .dispatched client g → .acquired client g ∈ sh.history
  retired : ∀ g, o = .retired g → sh.cancelled g = true
  closed : o = .closed → sh.closed = true
  released : ∀ client g, o = .released client (some (g, false)) → .retired g ∈ sh.history

theorem look_ok (h : sh.look = some (.ok g)) :
    sh.closed = false ∧ sh.current = some g ∧ sh.cancelled g = false := by
  rw [Shared.look] at h
  split at h
  · cases h
  · rename_i hclosed
    split at h
    · rename_i g' hfilter
      cases h
      simpa [Option.filter_eq_some_iff, hclosed] using hfilter
    · rcases Option.map_eq_some_iff.mp h with ⟨_, _, heq⟩
      cases heq

theorem Inv.record (h : Inv sh) {o : Occurrence} (ho : Recordable party sh o) :
    Moves party sh (sh.record o) := by
  have hmem : ∀ o', o' ∈ (sh.record o).history ↔ o' ∈ sh.history ∨ o' = o := by
    simp [Shared.record]
  have hpublished : ∀ g, .published g ∈ (sh.record o).history ↔ .published g ∈ sh.history := by
    intro g
    rw [hmem]
    exact ⟨fun hg => hg.resolve_right fun heq => ho.published g heq.symm, .inl⟩
  constructor
  · constructor
    · intro g hg
      exact (hpublished g).mpr (h.current g hg)
    · exact h.closed
    · intro hclosed
      rcases (hmem _).mp hclosed with hold | hnew
      · exact h.closing hold
      · exact ho.closed hnew.symm
    · intro g hg
      rcases (hmem _).mp hg with hold | hnew
      · exact h.retired g hold
      · exact ho.retired g hnew.symm
    · intro client g hg
      rw [hpublished]
      rcases (hmem _).mp hg with hold | hnew
      · exact h.acquired client g hold
      · exact h.current g (look_ok (ho.acquired client g hnew.symm).1).2.1
    · intro client g g' hg hg'
      rcases (hmem _).mp hg with hold | hnew
      · rcases (hmem _).mp hg' with hold' | hnew'
        · exact h.once client g g' hold hold'
        · exact absurd hold ((ho.acquired client g' hnew'.symm).2 g)
      · rcases (hmem _).mp hg' with hold' | hnew'
        · exact absurd hold' ((ho.acquired client g hnew.symm).2 g')
        · cases hnew.trans hnew'.symm
          rfl
    · intro client g hg
      rw [hmem]
      rcases (hmem _).mp hg with hold | hnew
      · exact .inl (h.dispatched client g hold)
      · exact .inl (ho.dispatched client g hnew.symm)
    · intro g hg
      exact h.created g ((hpublished g).mp hg)
    · intro g
      simp only [hpublished]
      exact h.counted g
    · refine List.pairwise_append.mpr ⟨h.order, List.pairwise_singleton _ _, ?_⟩
      intro a ha b hb
      rw [List.mem_singleton.mp hb]
      constructor
      · rintro g client rfl hnew
        have hlive := (look_ok (ho.acquired client g hnew).1).2.2
        rw [h.retired g ha] at hlive
        cases hlive
      · rintro g client rfl hnew
        have hopen := (look_ok (ho.acquired client g hnew).1).1
        rw [h.closing ha] at hopen
        cases hopen
      · rintro g rfl hnew
        exact ho.published g hnew
    · intro k client g hk
      rcases Nat.lt_trichotomy k sh.history.length with hlt | heq | hgt
      · change (sh.history ++ [o])[k]? = _ at hk
        rw [List.getElem?_append_left hlt] at hk
        change .retired g ∈ (sh.history ++ [o]).take k
        rw [List.take_append_of_le_length (Nat.le_of_lt hlt)]
        exact h.released k client g hk
      · change (sh.history ++ [o])[k]? = _ at hk
        rw [heq, List.getElem?_concat_length] at hk
        change .retired g ∈ (sh.history ++ [o]).take k
        rw [heq, List.take_left]
        exact ho.released client g (Option.some.inj hk)
      · have hnone : (sh.history ++ [o])[k]? = none := by
          rw [List.getElem?_eq_none_iff, List.length_append, List.length_singleton]
          omega
        cases hnone.symm.trans hk
  · refine { Guarantee.refl party sh with history := ⟨[o], rfl, ?_⟩ }
    intro o' ho' owner howner
    rw [List.mem_singleton.mp ho'] at howner
    exact ho.owner owner howner

theorem Inv.publish (h : Inv sh) (hcurrent : sh.current = none) (hcreated : g < sh.created)
    (hfresh : .published g ∉ sh.history) (hopen : sh.closed = false) :
    Moves .supervisor sh (sh.publish g) := by
  have hmem : ∀ o, o ∈ (sh.publish g).history ↔ o ∈ sh.history ∨ o = .published g := by
    simp [Shared.publish, Shared.record]
  constructor
  · constructor
    · rintro g' ⟨⟩
      exact (hmem _).mpr (.inr rfl)
    · intro hclosed
      cases hopen.symm.trans hclosed
    · intro hclosed
      rcases (hmem _).mp hclosed with hold | hnew
      · exact h.closing hold
      · cases hnew
    · intro g' hg'
      rcases (hmem _).mp hg' with hold | hnew
      · exact h.retired g' hold
      · cases hnew
    · intro client g' hg'
      rcases (hmem _).mp hg' with hold | hnew
      · exact (hmem _).mpr (.inl (h.acquired client g' hold))
      · cases hnew
    · intro client g' g'' hg' hg''
      rcases (hmem _).mp hg' with hold | hnew
      · rcases (hmem _).mp hg'' with hold' | hnew'
        · exact h.once client g' g'' hold hold'
        · cases hnew'
      · cases hnew
    · intro client g' hg'
      rcases (hmem _).mp hg' with hold | hnew
      · exact (hmem _).mpr (.inl (h.dispatched client g' hold))
      · cases hnew
    · intro g' hg'
      rcases (hmem _).mp hg' with hold | hnew
      · exact h.created g' hold
      · cases hnew
        exact hcreated
    · intro g'
      have hbefore := h.counted g'
      simp only [hmem]
      change sh.retirements.count g' = if (_ ∨ _) ∧ some g ≠ some g' then 1 else 0
      by_cases heq : g' = g
      · subst heq
        simpa [hfresh] using hbefore
      · simpa [hcurrent, heq, Ne.symm heq] using hbefore
    · refine List.pairwise_append.mpr ⟨h.order, List.pairwise_singleton _ _, ?_⟩
      intro a ha b hb
      rw [List.mem_singleton.mp hb]
      constructor
      · rintro _ _ _ ⟨⟩
      · rintro _ _ _ ⟨⟩
      · rintro g' rfl _
        cases hopen.symm.trans (h.closing ha)
    · intro k client g' hk
      change (sh.history ++ [Occurrence.published g])[k]? = _ at hk
      change Occurrence.retired g' ∈ (sh.history ++ [Occurrence.published g]).take k
      by_cases hlt : k < sh.history.length
      · rw [List.getElem?_append_left hlt] at hk
        rw [List.take_append_of_le_length (Nat.le_of_lt hlt)]
        exact h.released k client g' hk
      · rw [List.getElem?_append_right (Nat.le_of_not_lt hlt)] at hk
        rcases List.mem_singleton.mp (List.mem_of_getElem? hk) with ⟨⟩
  · constructor
    · refine ⟨[.published g], rfl, ?_⟩
      intro o ho owner howner
      rw [List.mem_singleton.mp ho] at howner
      exact (Option.some.inj howner).symm
    · exact fun _ hg' => hg'
    · exact fun hclosed => hclosed
    · exact .inr (.inr ⟨rfl, g, rfl, hfresh⟩)
    · exact Nat.le_refl _

theorem recordable_retired (hcancelled : sh.cancelled g = true) :
    Recordable party sh (.retired g) := by
  constructor <;> simp [Occurrence.owner, hcancelled]

theorem recordable_closed (hclosed : sh.closed = true) : Recordable party sh .closed := by
  constructor <;> simp [Occurrence.owner, hclosed]

theorem recordable_acquired (hlook : sh.look = some (.ok g))
    (hfresh : ∀ g', .acquired client g' ∉ sh.history) :
    Recordable (.client client) sh (.acquired client g) := by
  constructor <;> simp [Occurrence.owner]
  exact ⟨hlook, hfresh⟩

theorem recordable_dispatched (hacquired : .acquired client g ∈ sh.history) :
    Recordable party sh (.dispatched client g) := by
  constructor <;> simp [Occurrence.owner, hacquired]

theorem recordable_released {exchange : Option (Generation × Bool)}
    (hretired : ∀ g, exchange = some (g, false) → .retired g ∈ sh.history) :
    Recordable party sh (.released client exchange) := by
  constructor <;> simp [Occurrence.owner]
  rintro _ g rfl rfl
  exact hretired g rfl

theorem mem_record (sh : Shared) (o : Occurrence) : o ∈ (sh.record o).history :=
  List.mem_append_right _ (List.mem_singleton.mpr rfl)

theorem Inv.dispatch (h : Inv sh) (hacquired : .acquired client g ∈ sh.history) (sent : Bool) :
    Moves party sh (sh.dispatch client g sent) := by
  rw [Shared.dispatch]
  split
  · exact .refl h
  · exact h.record (recordable_dispatched hacquired)

theorem Inv.retired_returns (h : Inv sh) (hout : Out sh g) :
    Moves party sh (sh.notifyWaiters.record (.retired g)) := by
  have hnotify : Moves party sh sh.notifyWaiters := h.notify
  exact hnotify.trans (hnotify.inv.record (recordable_retired hout.cancelled))

theorem Inv.close_returns (h : Inv sh) (hclosed : sh.closed = true) :
    Moves party sh (sh.notifyWaiters.record .closed) := by
  have hnotify : Moves party sh sh.notifyWaiters := h.notify
  exact hnotify.trans (hnotify.inv.record (recordable_closed hclosed))

theorem Inv.published_of_acquired (h : Inv sh) (hacquired : .acquired client g ∈ sh.history) :
    Out (sh.retire g) g := retire_out (h.acquired client g hacquired)

/-- An exchange that a client leaves is retired first, whatever the reason. -/
theorem client_sound {slots : Slots} {stage stage' : ClientStage} {input : Input} (h : Inv sh)
    (hknows : ClientKnows client sh stage)
    (hstep : clientStep client slots sh stage input = some (sh', stage')) :
    Moves (.client client) sh sh' ∧ ClientKnows client sh' stage' := by
  unfold clientStep at hstep
  split at hstep
  · -- The context of a call that has not begun, or waits, or has just acquired, has stopped.
    obtain ⟨_, heq⟩ := Option.ite_none_right_eq_some.mp hstep
    cases heq
    exact ⟨.refl h, trivial⟩
  · split at hstep
    · cases hstep
      exact ⟨⟨{ h with }, { Guarantee.refl _ sh with }⟩, trivial⟩
    · cases hstep
      exact ⟨h.admission slots, hknows⟩
  · obtain ⟨_, heq⟩ := Option.ite_none_right_eq_some.mp hstep
    cases heq
    exact ⟨.refl h, trivial⟩
  · cases hstep
    exact ⟨.refl h, hknows⟩
  · split at hstep
    · rename_i hlook
      cases hstep
      exact ⟨h.record (recordable_acquired hlook hknows), mem_record _ _⟩
    · cases hstep
      exact ⟨.refl h, trivial⟩
    · cases hstep
      exact ⟨.refl h, hknows⟩
  · split at hstep
    · cases hstep
    · cases hstep
      exact ⟨.refl h, hknows⟩
  · obtain ⟨_, heq⟩ := Option.ite_none_right_eq_some.mp hstep
    cases heq
    exact ⟨.refl h, trivial⟩
  · cases hstep
    exact ⟨.refl h, trivial⟩
  · obtain ⟨_, heq⟩ := Option.ite_none_right_eq_some.mp hstep
    cases heq
    exact ⟨.refl h, trivial⟩
  · cases hstep
    exact ⟨.refl h, hknows⟩
  · obtain ⟨_, heq⟩ := Option.ite_none_right_eq_some.mp hstep
    cases heq
    exact ⟨.refl h, hknows⟩
  · obtain ⟨_, heq⟩ := Option.ite_none_right_eq_some.mp hstep
    cases heq
    exact ⟨.refl h, hknows⟩
  · split at hstep
    · cases hstep
      exact ⟨.refl h, hknows⟩
    · cases hstep
      exact ⟨.refl h, hknows⟩
  · rename_i g sent
    cases hstep
    have hdispatch : Moves (.client client) sh (sh.dispatch client g sent) := h.dispatch hknows sent
    exact ⟨hdispatch, hdispatch.guarantee.kept hknows⟩
  · rename_i g sent _
    cases hstep
    have hdispatch : Moves (.client client) sh (sh.dispatch client g sent) := h.dispatch hknows sent
    exact ⟨hdispatch, hdispatch.guarantee.kept hknows⟩
  · cases hstep
    exact ⟨.refl h, hknows⟩
  · cases hstep
    exact ⟨.refl h, hknows⟩
  · rename_i g
    cases hstep
    have hretire : Moves (.client client) sh (sh.retire g) := h.retire g
    exact ⟨hretire, hretire.guarantee.kept hknows, h.published_of_acquired hknows⟩
  · rename_i g
    cases hstep
    have hreturns : Moves (.client client) sh (sh.notifyWaiters.record (.retired g)) :=
      h.retired_returns hknows.2
    exact ⟨hreturns, hreturns.guarantee.kept hknows.1⟩
  · cases hstep
    exact ⟨.refl h, trivial⟩
  · rename_i g
    cases hstep
    have hretire : Moves (.client client) sh (sh.retire g) := h.retire g
    exact ⟨hretire, hretire.guarantee.kept hknows, h.published_of_acquired hknows⟩
  · cases hstep
    exact ⟨h.retired_returns hknows.2, mem_record _ _⟩
  · cases hstep
    have hdrop : Moves (.client client) sh (sh.dropAdmission slots) := h.drop_admission slots
    refine ⟨hdrop.trans (hdrop.inv.record (recordable_released ?_)), trivial⟩
    rintro g rfl
    exact hknows
  · cases hstep

theorem supervisor_sound {stage stage' : SupervisorStage} {input : Input} (h : Inv sh)
    (hknows : SupervisorKnows sh stage)
    (hstep : supervisorStep sh stage input = some (sh', stage')) :
    Moves .supervisor sh sh' ∧ SupervisorKnows sh' stage' := by
  unfold supervisorStep at hstep
  split at hstep
  · cases hstep
    exact ⟨.refl h, hknows⟩
  · cases hstep
    exact ⟨.refl h, trivial⟩
  · split at hstep
    · cases hstep
      exact ⟨.refl h, trivial⟩
    · cases hstep
      refine ⟨⟨{ h with created := fun g hg => Nat.lt_succ_of_lt (h.created g hg) },
        { Guarantee.refl _ sh with created := Nat.le_succ _ }⟩, hknows, Nat.lt_succ_self _, ?_⟩
      intro hold
      exact Nat.lt_irrefl _ (h.created _ hold)
  · cases hstep
    exact ⟨.refl h, trivial⟩
  · cases hstep
    exact ⟨.refl h, hknows.1⟩
  · split at hstep
    · cases hstep
      exact ⟨.refl h, hknows.1⟩
    · cases hstep
      exact ⟨.refl h, hknows⟩
  · cases hstep
    exact ⟨.refl h, trivial⟩
  · split at hstep
    · cases hstep
      exact ⟨.refl h, trivial⟩
    · rename_i hclosed
      cases hstep
      have hpublish := h.publish hknows.1 hknows.2.1 hknows.2.2 (Bool.eq_false_iff.mpr hclosed)
      exact ⟨hpublish, .inr rfl, mem_record _ _⟩
  · cases hstep
    exact ⟨h.notify, hknows⟩
  · split at hstep
    · cases hstep
      exact ⟨.refl h, hknows⟩
    · cases hstep
  · split at hstep
    · cases hstep
      exact ⟨.refl h, hknows⟩
    · cases hstep
      exact ⟨.refl h, hknows⟩
    · cases hstep
      exact ⟨.refl h, hknows⟩
  · split at hstep
    · cases hstep
      exact ⟨.refl h, hknows⟩
    · cases hstep
      exact ⟨.refl h, hknows⟩
  · cases hstep
    exact ⟨.refl h, trivial⟩
  · rename_i g _
    cases hstep
    have hretire : Moves .supervisor sh (sh.retire g) := h.retire g
    exact ⟨hretire, retire_uncurrent hknows.1, retire_out hknows.2⟩
  · rename_i g again
    cases hstep
    refine ⟨h.retired_returns hknows.2, ?_⟩
    cases again with
    | true => exact ⟨.inl hknows.1, List.mem_append_left _ hknows.2.published⟩
    | false => exact hknows.1
  · split at hstep
    · cases hstep
      exact ⟨.refl h, trivial⟩
    · cases hstep
      exact ⟨⟨{ h with }, { Guarantee.refl _ sh with }⟩, hknows⟩
  · cases hstep
    exact ⟨h.notify, hknows⟩
  · cases hstep
    exact ⟨h.close, close_closed sh⟩
  · cases hstep
    exact ⟨h.close_returns hknows, trivial⟩
  · cases hstep

theorem link_sound {stage stage' : LinkStage} {input : Input} (h : Inv sh)
    (hknows : LinkKnows sh stage) (hstep : linkStep sh stage input = some (sh', stage')) :
    Moves .link sh sh' ∧ LinkKnows sh' stage' := by
  unfold linkStep at hstep
  split at hstep
  · cases hstep
    exact ⟨h.close, close_closed sh⟩
  · cases hstep
    exact ⟨h.close_returns hknows, trivial⟩
  · cases hstep

theorem act_sound {slots : ℕ → Slots} {task task' : Task} {input : Input} (h : Inv sh)
    (hknows : Knows party sh task) (hact : act slots party sh task input = some (sh', task')) :
    Moves party sh sh' ∧ Knows party sh' task' := by
  unfold act at hact
  split at hact
  · rcases Option.map_eq_some_iff.mp hact with ⟨⟨_, _⟩, hstep, ⟨⟩⟩
    exact supervisor_sound h hknows hstep
  · rcases Option.map_eq_some_iff.mp hact with ⟨⟨_, _⟩, hstep, ⟨⟩⟩
    exact link_sound h hknows hstep
  · rcases Option.map_eq_some_iff.mp hact with ⟨⟨_, _⟩, hstep, ⟨⟩⟩
    exact client_sound h hknows hstep
  · cases hact

/-- A disconnection is no party's move, and keeps what every party may rely on. -/
theorem disconnect_moves (h : Inv sh) (hdisconnect : disconnect sh g = some sh')
    (party : Party) : Moves party sh sh' := by
  obtain ⟨_, heq⟩ := Option.ite_none_right_eq_some.mp hdisconnect
  cases heq
  exact h.cancel g

def proof (slots : ℕ → Slots) : Proof (program slots) where
  inv := Inv
  knows := Knows
  guarantee := Guarantee
  act_sound hinv hknows hact := by
    obtain ⟨hmoves, htask⟩ := act_sound hinv hknows hact
    exact ⟨hmoves.inv, htask, hmoves.guarantee⟩
  act_stable hne hguarantee hknows := knows_stable hguarantee hne hknows
  env_sound {s g s'} hinv henv := by
    have hmoves := disconnect_moves hinv henv
    refine ⟨(hmoves .link).inv, fun party task hknows => ?_⟩
    by_cases hparty : party = .link
    · exact knows_stable (hmoves .supervisor).guarantee (by rw [hparty]; decide) hknows
    · exact knows_stable (hmoves .link).guarantee hparty hknows

theorem start_holds (slots : ℕ → Slots) : (proof slots).Holds start where
  inv := by
    constructor <;> simp [start]
  knows party := by
    cases party with
    | supervisor => rfl
    | link => trivial
    | client client =>
      intro g
      simp [start]

theorem look_none : sh.look = none ↔
    sh.closed = false ∧ sh.error = none ∧ ∀ g, sh.current = some g → sh.cancelled g = true := by
  cases hclosed : sh.closed with
  | true => simp [Shared.look, hclosed]
  | false =>
    cases hcurrent : sh.current with
    | none => simp [Shared.look, hclosed, hcurrent]
    | some g =>
      cases hcancelled : sh.cancelled g <;>
        simp [Shared.look, Option.filter, hclosed, hcurrent, hcancelled]

def Task.noted : Task → Option ℕ
  | .client (.registered seen) | .client (.waiting seen) => some seen
  | _ => none

def Task.asleep : Task → Bool
  | .client (.waiting _) => true
  | _ => false

/-- The party has left the lock and is about to notify the waiters. -/
def Task.owes : Task → Bool
  | .client (.retired _) | .client (.dropped _) => true
  | .supervisor (.published _) | .supervisor (.retired _ _) => true
  | .supervisor .failed | .supervisor .closing => true
  | .link .closing => true
  | _ => false

variable {task task' : Task}

inductive Attentive (sh : Shared) (task : Task) (sh' : Shared) (task' : Task) : Prop where
  | calm (same : sh'.notifications = sh.notifications) (quiet : sh.look = none → sh'.look = none)
      (free : task.owes = false) (awake : task'.asleep = false)
      (noted : task'.noted = none ∨ task'.noted = some sh.notifications)
  | disturb (same : sh'.notifications = sh.notifications) (free : task.owes = false)
      (owes : task'.owes = true) (noted : task'.noted = none)
  | notify (more : sh'.notifications = sh.notifications + 1) (same : sh'.look = sh.look)
      (awake : task'.asleep = false) (noted : task'.noted = none)
  | sleep (same : sh' = sh) (quiet : sh.look = none) (free : task.owes = false)
      (noted : task'.noted = task.noted)

theorem Attentive.idle (free : task.owes = false) (awake : task'.asleep = false)
    (noted : task'.noted = none) : Attentive sh task sh task' :=
  .calm rfl id free awake (.inl noted)

theorem dispatch_look (sh : Shared) (client : ℕ) (g : Generation) (sent : Bool) :
    (sh.dispatch client g sent).look = sh.look ∧
      (sh.dispatch client g sent).notifications = sh.notifications := by
  rw [Shared.dispatch]
  split <;> exact ⟨rfl, rfl⟩

theorem retire_notifications (sh : Shared) (g : Generation) :
    (sh.retire g).notifications = sh.notifications := by
  rw [Shared.retire]
  split <;> rfl

theorem close_notifications (sh : Shared) : sh.close.notifications = sh.notifications := by
  rw [Shared.close]
  split <;> rfl

theorem client_attentive {slots : Slots} {stage stage' : ClientStage} {input : Input}
    (hstep : clientStep client slots sh stage input = some (sh', stage')) :
    Attentive sh (.client stage) sh' (.client stage') := by
  unfold clientStep at hstep
  split at hstep
  · obtain ⟨_, heq⟩ := Option.ite_none_right_eq_some.mp hstep
    cases heq
    exact .idle rfl rfl rfl
  · split at hstep
    · cases hstep
      exact .calm rfl id rfl rfl (.inl rfl)
    · cases hstep
      exact .calm rfl id rfl rfl (.inl rfl)
  · obtain ⟨_, heq⟩ := Option.ite_none_right_eq_some.mp hstep
    cases heq
    exact .idle rfl rfl rfl
  · -- The waiter is registered before it looks.
    cases hstep
    exact .calm rfl id rfl rfl (.inr rfl)
  · split at hstep
    · cases hstep
      exact .calm rfl id rfl rfl (.inl rfl)
    · cases hstep
      exact .idle rfl rfl rfl
    · rename_i hlook
      cases hstep
      exact .sleep rfl hlook rfl rfl
  · split at hstep
    · cases hstep
    · cases hstep
      exact .idle rfl rfl rfl
  · obtain ⟨_, heq⟩ := Option.ite_none_right_eq_some.mp hstep
    cases heq
    exact .idle rfl rfl rfl
  · cases hstep
    exact .idle rfl rfl rfl
  · obtain ⟨_, heq⟩ := Option.ite_none_right_eq_some.mp hstep
    cases heq
    exact .idle rfl rfl rfl
  · cases hstep
    exact .idle rfl rfl rfl
  · obtain ⟨_, heq⟩ := Option.ite_none_right_eq_some.mp hstep
    cases heq
    exact .idle rfl rfl rfl
  · obtain ⟨_, heq⟩ := Option.ite_none_right_eq_some.mp hstep
    cases heq
    exact .idle rfl rfl rfl
  · split at hstep
    · cases hstep
      exact .idle rfl rfl rfl
    · cases hstep
      exact .idle rfl rfl rfl
  · rename_i g sent
    cases hstep
    have hdispatch := dispatch_look sh client g sent
    exact .calm hdispatch.2 hdispatch.1.trans rfl rfl (.inl rfl)
  · rename_i g sent _
    cases hstep
    have hdispatch := dispatch_look sh client g sent
    exact .calm hdispatch.2 hdispatch.1.trans rfl rfl (.inl rfl)
  · cases hstep
    exact .idle rfl rfl rfl
  · cases hstep
    exact .idle rfl rfl rfl
  · cases hstep
    exact .disturb (retire_notifications sh _) rfl rfl rfl
  · cases hstep
    exact .notify rfl rfl rfl rfl
  · cases hstep
    exact .idle rfl rfl rfl
  · cases hstep
    exact .disturb (retire_notifications sh _) rfl rfl rfl
  · cases hstep
    exact .notify rfl rfl rfl rfl
  · cases hstep
    exact .calm rfl id rfl rfl (.inl rfl)
  · cases hstep

theorem supervisor_attentive {stage stage' : SupervisorStage} {input : Input}
    (hstep : supervisorStep sh stage input = some (sh', stage')) :
    Attentive sh (.supervisor stage) sh' (.supervisor stage') := by
  unfold supervisorStep at hstep
  split at hstep
  · cases hstep
    exact .idle rfl rfl rfl
  · cases hstep
    exact .idle rfl rfl rfl
  · split at hstep
    · cases hstep
      exact .idle rfl rfl rfl
    · cases hstep
      refine .calm rfl (fun hquiet => ?_) rfl rfl (.inl rfl)
      obtain ⟨hclosed, _, hcurrent⟩ := look_none.mp hquiet
      exact look_none.mpr ⟨hclosed, rfl, hcurrent⟩
  · cases hstep
    exact .idle rfl rfl rfl
  · cases hstep
    exact .idle rfl rfl rfl
  · split at hstep
    · cases hstep
      exact .idle rfl rfl rfl
    · cases hstep
      exact .idle rfl rfl rfl
  · cases hstep
    exact .idle rfl rfl rfl
  · split at hstep
    · cases hstep
      exact .idle rfl rfl rfl
    · cases hstep
      exact .disturb rfl rfl rfl rfl
  · cases hstep
    exact .notify rfl rfl rfl rfl
  · split at hstep
    · cases hstep
      exact .idle rfl rfl rfl
    · cases hstep
  · split at hstep <;> (cases hstep; exact .idle rfl rfl rfl)
  · split at hstep <;> (cases hstep; exact .idle rfl rfl rfl)
  · cases hstep
    exact .idle rfl rfl rfl
  · cases hstep
    exact .disturb (retire_notifications sh _) rfl rfl rfl
  · rename_i again
    cases hstep
    cases again <;> exact .notify rfl rfl rfl rfl
  · split at hstep
    · cases hstep
      exact .idle rfl rfl rfl
    · cases hstep
      exact .disturb rfl rfl rfl rfl
  · cases hstep
    exact .notify rfl rfl rfl rfl
  · cases hstep
    exact .disturb (close_notifications sh) rfl rfl rfl
  · cases hstep
    exact .notify rfl rfl rfl rfl
  · cases hstep

theorem link_attentive {stage stage' : LinkStage} {input : Input}
    (hstep : linkStep sh stage input = some (sh', stage')) :
    Attentive sh (.link stage) sh' (.link stage') := by
  unfold linkStep at hstep
  split at hstep
  · cases hstep
    exact .disturb (close_notifications sh) rfl rfl rfl
  · cases hstep
    exact .notify rfl rfl rfl rfl
  · cases hstep

theorem act_attentive {slots : ℕ → Slots} {input : Input}
    (hact : act slots party sh task input = some (sh', task')) :
    Attentive sh task sh' task' := by
  unfold act at hact
  split at hact
  · rcases Option.map_eq_some_iff.mp hact with ⟨⟨_, _⟩, hstep, ⟨⟩⟩
    exact supervisor_attentive hstep
  · rcases Option.map_eq_some_iff.mp hact with ⟨⟨_, _⟩, hstep, ⟨⟩⟩
    exact link_attentive hstep
  · rcases Option.map_eq_some_iff.mp hact with ⟨⟨_, _⟩, hstep, ⟨⟩⟩
    exact client_attentive hstep
  · cases hact

theorem asleep_noted (h : task.asleep = true) : ∃ seen, task.noted = some seen := by
  unfold Task.asleep at h
  split at h
  · exact ⟨_, rfl⟩
  · cases h

def protocol (slots : ℕ → Slots) : Wakeups.Protocol (program slots) where
  notified := Shared.notifications
  quiet sh := sh.look = none
  noted := Task.noted
  asleep task := task.asleep = true
  owes task := task.owes = true
  monotone hact := by
    rcases act_attentive hact with ⟨same⟩ | ⟨same⟩ | ⟨more⟩ | ⟨same⟩
    · omega
    · omega
    · omega
    · exact Nat.le_of_eq (congrArg _ same.symm)
  disturb hact hquiet := by
    rcases act_attentive hact with ⟨_, quiet⟩ | ⟨_, _, owes⟩ | ⟨_, same⟩ | ⟨same, quiet⟩
    · exact .inl (quiet hquiet)
    · exact .inr owes
    · exact .inl (same.trans hquiet)
    · exact .inl (same ▸ hquiet)
  settle hact howes := by
    rcases act_attentive hact with ⟨_, _, free⟩ | ⟨_, free⟩ | ⟨more⟩ | ⟨_, _, free⟩
    · cases free.symm.trans howes
    · cases free.symm.trans howes
    · exact .inr (by omega)
    · cases free.symm.trans howes
  note hact hnoted := by
    rcases act_attentive hact with ⟨same, _, _, _, none | noted⟩ | ⟨_, _, _, noted⟩ |
      ⟨_, _, _, noted⟩ | ⟨_, _, _, noted⟩
    · cases none.symm.trans hnoted
    · cases noted.symm.trans hnoted
      exact .inr (Nat.le_of_eq same.symm)
    · cases noted.symm.trans hnoted
    · cases noted.symm.trans hnoted
    · exact .inl (noted.symm.trans hnoted)
  sleep hact hasleep := by
    rcases act_attentive hact with ⟨_, _, _, awake, _⟩ | ⟨_, _, owes, noted⟩ | ⟨_, _, awake, _⟩ |
      ⟨same, quiet, _, _⟩
    · cases awake.symm.trans hasleep
    · obtain ⟨seen, hseen⟩ := asleep_noted hasleep
      cases noted.symm.trans hseen
    · cases awake.symm.trans hasleep
    · exact .inr (same ▸ quiet)
  env henv := by
    obtain ⟨_, heq⟩ := Option.ite_none_right_eq_some.mp henv
    cases heq
    refine ⟨rfl, fun hquiet => ?_⟩
    obtain ⟨hclosed, herror, hcurrent⟩ := look_none.mp hquiet
    exact look_none.mpr ⟨hclosed, herror, fun g hg => update_cancelled _ _ g (hcurrent g hg)⟩

structure Safe (w : World Party Shared Task) : Prop where
  /-- No generation is acquired after its retirement returned, and after a close none is acquired or
  published. -/
  fenced : w.shared.history.Pairwise Fenced
  /-- A permit of an exchange without a reply comes back after the generation's retirement returned,
  and who acquires a generation later dispatches nothing on that one. -/
  unreplied : ∀ k client g, w.shared.history[k]? = some (.released client (some (g, false))) →
    .retired g ∈ w.shared.history.take k ∧
      ∀ later g', .acquired later g' ∈ w.shared.history.drop k →
        .dispatched later g ∉ w.shared.history
  counted : ∀ g, w.shared.retirements.count g =
    if .published g ∈ w.shared.history ∧ w.shared.current ≠ some g then 1 else 0
  /-- Who waits has been notified, or has nothing to be told, or will be. -/
  awake : ∀ client seen, w.tasks (.client client) = .client (.waiting seen) →
    seen < w.shared.notifications ∨
      (w.shared.closed = false ∧ w.shared.error = none ∧
        ∀ g, w.shared.current = some g → w.shared.cancelled g = true) ∨
      ∃ party, (w.tasks party).owes = true

theorem Inv.later_acquired (h : Inv sh) {k later g' : ℕ}
    (hk : sh.history[k]? = some (.released client (some (g, false))))
    (hlater : .acquired later g' ∈ sh.history.drop k) : .dispatched later g ∉ sh.history := by
  intro hdispatched
  have hacquired := h.dispatched later g hdispatched
  have hsame := h.once later g g' hacquired (List.mem_of_mem_drop hlater)
  subst hsame
  have horder := h.order
  rw [← List.take_append_drop k sh.history, List.pairwise_append] at horder
  exact (horder.2.2 _ (h.released k client g hk) _ hlater).retired g later rfl rfl

/-- The fencing of generations and the waiters' notifications, in any interleaving. -/
theorem generations_fenced (slots : ℕ → Slots) {w : World Party Shared Task}
    (h : (link slots).Reachable w) : Safe w := by
  have hinv := ((proof slots).reachable_holds (start_holds slots) h).inv
  change Inv w.shared at hinv
  constructor
  · exact hinv.order
  · intro k client g hk
    exact ⟨hinv.released k client g hk, fun later g' => hinv.later_acquired hk⟩
  · exact hinv.counted
  · intro client seen hwaiting
    have hunnoted : ∀ party, (start.tasks party).noted = none := by
      rintro (_ | _ | _) <;> rfl
    have hawake := (protocol slots).reachable_awake hunnoted h (.client client)
    have hnoted : (w.tasks (.client client)).noted = some seen := by
      rw [hwaiting]
      rfl
    rcases Nat.lt_or_ge seen w.shared.notifications with hlt | hge
    · exact .inl hlt
    · have hle : seen ≤ w.shared.notifications := hawake.noted seen hnoted
      have hsame : seen = w.shared.notifications := by omega
      have hasleep : (w.tasks (.client client)).asleep = true := by
        rw [hwaiting]
        rfl
      rcases hawake.sleeps hasleep (hnoted.trans (congrArg some hsame)) with hquiet | howes
      · exact .inr (.inl (look_none.mp hquiet))
      · exact .inr (.inr howes)

/-- A command fails on the first connection, and the next one waits for another. -/
def failedCommand : List (Move Party Input Generation) :=
  [.act .supervisor .next, .act .supervisor .next, .act .supervisor (.connected (.ok ())),
    .act .supervisor .next, .act .supervisor .next] ++
  List.replicate 5 (.act (.client 0) .next) ++ [.act (.client 0) (.answer false)] ++
  List.replicate 3 (.act (.client 0) .next) ++ List.replicate 3 (.act (.client 1) .next)

theorem failed_command_fenced :
    ∃ w, (link fun _ => .application).run start failedCommand = some w ∧
      w.shared.retirements = [0] ∧ w.tasks (.client 1) = .client (.waiting 2) ∧ Safe w :=
  ⟨_, rfl, rfl, rfl, generations_fenced (fun _ => .application) ⟨failedCommand, rfl⟩⟩

end CacheLink
