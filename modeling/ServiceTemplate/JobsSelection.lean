import ServiceTemplate.JobsTable
import ServiceTemplate.LeastRanked

/-! What the claim statement picks, against its plain description: of every registered kind the least
of all rows that may be claimed, and the least of these together. -/
namespace JobsTable

open LeastRanked

/-- The due and the expired rows of a kind that no other session holds. -/
def claimable (rows : List Row) (locked : JobId → Bool) (now : Time) (kind : String) : List Row :=
  rows.filter fun row =>
    (row.dueAt now || row.leaseExpiredAt now) && row.kind = kind && !locked row.id

def selected (rows : List Row) (locked : JobId → Bool) (binds : List PolicyBind) (now : Time) :
    List Row :=
  binds.flatMap fun bind => least Row.Before bind.claimLimit (claimable rows locked now bind.kind)

/-- The plain description. -/
def selection (rows : List Row) (locked : JobId → Bool) (binds : List PolicyBind) (requested : ℕ)
    (now : Time) : List JobId :=
  (least Row.Before requested (selected rows locked binds now)).map Row.id

instance : IsTrans Row Row.Before where
  trans a b c hab hbc := by
    rcases hab with hab | ⟨heq, hle⟩
    · rcases hbc with hbc | ⟨heq', _⟩
      · exact .inl (Int.lt_trans hab hbc)
      · exact .inl (heq' ▸ hab)
    · rcases hbc with hbc | ⟨heq', hle'⟩
      · exact .inl (heq ▸ hbc)
      · exact .inr ⟨heq.trans heq', Nat.le_trans hle hle'⟩

instance : Std.Total Row.Before where
  total a b := by
    rcases Int.lt_trichotomy a.notBefore b.notBefore with hlt | heq | hlt
    · exact .inl (.inl hlt)
    · rcases Nat.le_total a.id b.id with hle | hle
      · exact .inl (.inr ⟨heq, hle⟩)
      · exact .inr (.inr ⟨heq.symm, hle⟩)
    · exact .inr (.inl hlt)

variable {rows : List Row} {locked : JobId → Bool} {binds : List PolicyBind} {bind : PolicyBind}
  {now : Time} {requested : ℕ}

theorem id_unique (hids : (rows.map Row.id).Nodup) {row other : Row} (hrow : row ∈ rows)
    (hother : other ∈ rows) (h : row.id = other.id) : row = other :=
  List.inj_on_of_nodup_map hids hrow hother h

theorem before_antisymm_on (hids : (rows.map Row.id).Nodup) {l : List Row} (hl : l ⊆ rows) :
    AntisymmOn Row.Before l := by
  intro row hrow other hother hle hge
  apply id_unique hids (hl hrow) (hl hother)
  rcases hle with hlt | ⟨heq, hle⟩
  · rcases hge with hlt' | ⟨heq', _⟩
    · exact absurd hlt (Int.lt_asymm hlt')
    · exact absurd hlt (heq' ▸ Int.lt_irrefl _)
  · rcases hge with hlt' | ⟨_, hge⟩
    · exact absurd hlt' (heq ▸ Int.lt_irrefl _)
    · exact Nat.le_antisymm hle hge

def scanned (rows : List Row) (locked : JobId → Bool) (select : Row → Bool) (kind : String) :
    List Row :=
  rows.filter fun row => select row && row.kind = kind && !locked row.id

theorem scan_fst (select : Row → Bool) :
    (scan rows locked select bind).map Prod.fst =
      least Row.Before bind.claimLimit (scanned rows locked select bind.kind) := by
  rw [scan, List.map_map]
  exact List.map_id _

theorem scan_snd {select : Row → Bool} {candidate : Row × PolicyBind}
    (h : candidate ∈ scan rows locked select bind) : candidate.2 = bind := by
  rcases List.mem_map.mp h with ⟨_, _, rfl⟩
  rfl

theorem due_not_expired {row : Row} (h : row.dueAt now = true) : row.leaseExpiredAt now = false := by
  simp only [Row.dueAt, Bool.and_eq_true, decide_eq_true_eq] at h
  simp [Row.leaseExpiredAt, h.1]

theorem nodup_of_ids (hids : (rows.map Row.id).Nodup) : rows.Nodup := List.Nodup.of_map _ hids

theorem claimable_perm (hids : (rows.map Row.id).Nodup) (kind : String) :
    (claimable rows locked now kind).Perm
      (scanned rows locked (fun row => row.dueAt now) kind ++
        scanned rows locked (fun row => row.leaseExpiredAt now) kind) := by
  have hrows := nodup_of_ids hids
  refine (List.perm_ext_iff_of_nodup (hrows.filter _) ?_).mpr fun row => ?_
  · refine List.nodup_append.mpr ⟨hrows.filter _, hrows.filter _, ?_⟩
    rintro row hdue _ hexpired rfl
    simp only [scanned, List.mem_filter, Bool.and_eq_true] at hdue hexpired
    have hnot := due_not_expired hdue.2.1.1
    rw [hexpired.2.1.1] at hnot
    cases hnot
  · simp only [scanned, List.mem_append, List.mem_filter, Bool.and_eq_true, Bool.or_eq_true]
    tauto

theorem count_flat_map {f : PolicyBind → List (Row × PolicyBind)}
    (hf : ∀ b, ∀ candidate ∈ f b, candidate.2 = b) (hkinds : (binds.map PolicyBind.kind).Nodup)
    (hbind : bind ∈ binds) (p : Row → Bool) :
    (binds.flatMap f).countP (fun other => decide (other.2.kind = bind.kind) && p other.1) =
      ((f bind).map Prod.fst).countP p := by
  induction binds with
  | nil => cases hbind
  | cons b binds ih =>
    obtain ⟨hb, hkinds⟩ := List.nodup_cons.mp hkinds
    rw [List.flatMap_cons, List.countP_append, List.countP_map]
    rcases List.mem_cons.mp hbind with rfl | hbind
    · have hrest : (binds.flatMap f).countP
          (fun other => decide (other.2.kind = bind.kind) && p other.1) = 0 := by
        refine List.countP_eq_zero.mpr fun candidate hcandidate => ?_
        rcases List.mem_flatMap.mp hcandidate with ⟨other, hother, hcandidate⟩
        have hne : other.kind ≠ bind.kind := fun heq =>
          hb (heq ▸ List.mem_map_of_mem hother)
        simp [hf other candidate hcandidate, hne]
      rw [hrest, Nat.add_zero]
      refine List.countP_congr fun candidate hcandidate => ?_
      simp [hf bind candidate hcandidate]
    · have hne : b.kind ≠ bind.kind := fun heq => hb (heq ▸ List.mem_map_of_mem hbind)
      have hfirst : (f b).countP (fun other => decide (other.2.kind = bind.kind) && p other.1) = 0 := by
        refine List.countP_eq_zero.mpr fun candidate hcandidate => ?_
        simp [hf b candidate hcandidate, hne]
      rw [hfirst, Nat.zero_add, ih hkinds hbind, List.countP_map]

theorem position_rank (hkinds : (binds.map PolicyBind.kind).Nodup) (hbind : bind ∈ binds)
    (row : Row) :
    position (candidates rows locked binds now) (row, bind) =
      rank Row.Before
        (least Row.Before bind.claimLimit (scanned rows locked (fun row => row.dueAt now) bind.kind) ++
          least Row.Before bind.claimLimit
            (scanned rows locked (fun row => row.leaseExpiredAt now) bind.kind)) row := by
  rw [rank_append, rank, rank, ← scan_fst, ← scan_fst]
  rw [← count_flat_map (fun _ _ => scan_snd) hkinds hbind,
    ← count_flat_map (fun _ _ => scan_snd) hkinds hbind]
  simp only [position, candidates, List.countP_append]

def ranked (rows : List Row) (locked : JobId → Bool) (binds : List PolicyBind) (now : Time) :
    List Row :=
  ((candidates rows locked binds now).filter fun candidate =>
    position (candidates rows locked binds now) candidate ≤ candidate.2.claimLimit).map Prod.fst

theorem picked_eq : picked rows locked binds requested now =
    (least Row.Before requested (ranked rows locked binds now)).map Row.id := rfl

theorem mem_candidates {row : Row} :
    (row, bind) ∈ candidates rows locked binds now ↔ bind ∈ binds ∧
      row ∈ least Row.Before bind.claimLimit (scanned rows locked (fun row => row.dueAt now) bind.kind) ++
        least Row.Before bind.claimLimit
          (scanned rows locked (fun row => row.leaseExpiredAt now) bind.kind) := by
  have hscan : ∀ select, (row, bind) ∈ binds.flatMap (scan rows locked select) ↔
      bind ∈ binds ∧ row ∈ least Row.Before bind.claimLimit (scanned rows locked select bind.kind) := by
    intro select
    rw [List.mem_flatMap, ← scan_fst]
    constructor
    · rintro ⟨b, hb, hmem⟩
      obtain rfl : bind = b := scan_snd hmem
      exact ⟨hb, List.mem_map_of_mem hmem⟩
    · rintro ⟨hb, hrow⟩
      rcases List.mem_map.mp hrow with ⟨⟨row, b⟩, hmem, rfl⟩
      obtain rfl : b = bind := scan_snd hmem
      exact ⟨b, hb, hmem⟩
  rw [candidates, List.mem_append, hscan, hscan, List.mem_append]
  tauto

theorem mem_ranked (hids : (rows.map Row.id).Nodup) (hkinds : (binds.map PolicyBind.kind).Nodup)
    {row : Row} : row ∈ ranked rows locked binds now ↔ row ∈ selected rows locked binds now := by
  have hkind : ∀ b ∈ binds, ((row, b) ∈ (candidates rows locked binds now).filter fun candidate =>
      position (candidates rows locked binds now) candidate ≤ candidate.2.claimLimit) ↔
      row ∈ least Row.Before b.claimLimit (claimable rows locked now b.kind) := by
    intro b hb
    have hperm : (claimable rows locked now b.kind).Perm _ := claimable_perm hids b.kind
    have hnodup : (claimable rows locked now b.kind).Nodup := (nodup_of_ids hids).filter _
    have hstrict : AntisymmOn Row.Before (claimable rows locked now b.kind) :=
      before_antisymm_on hids (List.filter_subset_self _)
    rw [List.mem_filter, mem_candidates, decide_eq_true_eq, position_rank hkinds hb,
      mem_least_perm hnodup hstrict hperm, mem_least_append (hperm.nodup_iff.mp hnodup)]
    · tauto
    · intro x hx y hy
      exact hstrict x (hperm.mem_iff.mpr hx) y (hperm.mem_iff.mpr hy)
  simp only [ranked, selected, List.mem_map, List.mem_flatMap, Prod.exists, exists_and_right,
    exists_eq_right]
  constructor
  · rintro ⟨b, hmem⟩
    have hb := (mem_candidates.mp (List.mem_filter.mp hmem).1).1
    exact ⟨b, hb, (hkind b hb).mp hmem⟩
  · rintro ⟨b, hb, hmem⟩
    exact ⟨b, (hkind b hb).mpr hmem⟩

theorem nodup_of_kinds {f : PolicyBind → List Row} (hf : ∀ b ∈ binds, (f b).Nodup)
    (hrow : ∀ b, ∀ row ∈ f b, row.kind = b.kind) (hkinds : (binds.map PolicyBind.kind).Nodup) :
    (binds.flatMap f).Nodup := by
  refine List.nodup_flatMap.mpr ⟨hf, ?_⟩
  refine (List.pairwise_map.mp hkinds).imp fun {b b'} hne => ?_
  intro row hmem hmem'
  exact hne ((hrow b row hmem).symm.trans (hrow b' row hmem'))

theorem selected_kind {row : Row}
    (h : row ∈ least Row.Before bind.claimLimit (claimable rows locked now bind.kind)) :
    row.kind = bind.kind := by
  have hmem := (List.mem_filter.mp (mem_of_mem_least h)).2
  simp only [Bool.and_eq_true, decide_eq_true_eq] at hmem
  exact hmem.1.2

theorem selected_nodup (hids : (rows.map Row.id).Nodup)
    (hkinds : (binds.map PolicyBind.kind).Nodup) : (selected rows locked binds now).Nodup := by
  apply nodup_of_kinds _ (fun b row => selected_kind) hkinds
  intro b _
  exact least_nodup _ ((nodup_of_ids hids).filter _)

theorem ranked_nodup (hids : (rows.map Row.id).Nodup)
    (hkinds : (binds.map PolicyBind.kind).Nodup) : (ranked rows locked binds now).Nodup := by
  have hscans : ∀ select, ((binds.flatMap (scan rows locked select)).map Prod.fst).Nodup := by
    intro select
    rw [List.map_flatMap]
    apply nodup_of_kinds _ _ hkinds
    · intro b _
      rw [scan_fst]
      exact least_nodup _ ((nodup_of_ids hids).filter _)
    · intro b row hrow
      rcases List.mem_map.mp hrow with ⟨candidate, hmem, rfl⟩
      exact (mem_scan hmem).2.2.1
  have hall : ((candidates rows locked binds now).map Prod.fst).Nodup := by
    rw [candidates, List.map_append]
    refine List.nodup_append.mpr ⟨hscans _, hscans _, ?_⟩
    rintro row hdue _ hexpired rfl
    rcases List.mem_map.mp hdue with ⟨candidate, hmem, hfst⟩
    rcases List.mem_map.mp hexpired with ⟨candidate', hmem', hfst'⟩
    rcases List.mem_flatMap.mp hmem with ⟨_, _, hmem⟩
    rcases List.mem_flatMap.mp hmem' with ⟨_, _, hmem'⟩
    have hnot := due_not_expired (mem_scan hmem).2.1
    rw [hfst, ← hfst', (mem_scan hmem').2.1] at hnot
    cases hnot
  exact hall.sublist (List.filter_sublist.map _)

theorem ranked_perm (hids : (rows.map Row.id).Nodup) (hkinds : (binds.map PolicyBind.kind).Nodup) :
    (ranked rows locked binds now).Perm (selected rows locked binds now) :=
  (List.perm_ext_iff_of_nodup (ranked_nodup hids hkinds) (selected_nodup hids hkinds)).mpr fun _ =>
    mem_ranked hids hkinds

theorem selected_subset : selected rows locked binds now ⊆ rows := by
  intro row hrow
  rcases List.mem_flatMap.mp hrow with ⟨_, _, hmem⟩
  exact (List.mem_filter.mp (mem_of_mem_least hmem)).1

theorem mem_picked_row (hids : (rows.map Row.id).Nodup) (hkinds : (binds.map PolicyBind.kind).Nodup)
    {row : Row} : row ∈ least Row.Before requested (ranked rows locked binds now) ↔
      row ∈ least Row.Before requested (selected rows locked binds now) := by
  have hperm : (ranked rows locked binds now).Perm (selected rows locked binds now) :=
    ranked_perm hids hkinds
  apply mem_least_perm (ranked_nodup hids hkinds) _ hperm
  exact before_antisymm_on hids fun row hrow => selected_subset (hperm.mem_iff.mp hrow)

/-- The statement picks what the plain description says. -/
theorem picked_selection (hids : (rows.map Row.id).Nodup)
    (hkinds : (binds.map PolicyBind.kind).Nodup) (id : JobId) :
    id ∈ picked rows locked binds requested now ↔
      id ∈ selection rows locked binds requested now := by
  simp only [picked_eq, selection, List.mem_map, mem_picked_row hids hkinds]

theorem picked_length : (picked rows locked binds requested now).length ≤ requested := by
  rw [picked_eq, List.length_map]
  exact least_length _ _

structure Drawn (rows : List Row) (locked : JobId → Bool) (binds : List PolicyBind)
    (requested : ℕ) (now : Time) (drawn : List Row) : Prop where
  table : ∀ row ∈ drawn, row ∈ rows
  picked : (drawn.map Row.id).Perm (picked rows locked binds requested now)

instance (rows : List Row) (locked : JobId → Bool) (binds : List PolicyBind) (requested : ℕ)
    (now : Time) (drawn : List Row) : Decidable (Drawn rows locked binds requested now drawn) :=
  decidable_of_iff ((∀ row ∈ drawn, row ∈ rows) ∧
    (drawn.map Row.id).Perm (picked rows locked binds requested now))
    ⟨fun h => ⟨h.1, h.2⟩, fun h => ⟨h.1, h.2⟩⟩

variable {drawn : List Row}

theorem Drawn.length (h : Drawn rows locked binds requested now drawn) :
    drawn.length ≤ requested := by
  rw [← List.length_map Row.id, h.picked.length_eq]
  exact picked_length

theorem picked_nodup (hids : (rows.map Row.id).Nodup)
    (hkinds : (binds.map PolicyBind.kind).Nodup) :
    (picked rows locked binds requested now).Nodup := by
  rw [picked_eq]
  apply List.Nodup.map_on _ (least_nodup _ (ranked_nodup hids hkinds))
  intro row hrow other hother heq
  apply id_unique hids _ _ heq
  · exact selected_subset ((mem_ranked hids hkinds).mp (mem_of_mem_least hrow))
  · exact selected_subset ((mem_ranked hids hkinds).mp (mem_of_mem_least hother))

theorem Drawn.selected (h : Drawn rows locked binds requested now drawn)
    (hids : (rows.map Row.id).Nodup) (hkinds : (binds.map PolicyBind.kind).Nodup) {row : Row}
    (hrow : row ∈ drawn) : row ∈ selected rows locked binds now := by
  have hid := h.picked.mem_iff.mp (List.mem_map_of_mem hrow)
  rw [picked_eq, List.mem_map] at hid
  obtain ⟨other, hother, heq⟩ := hid
  have hselected := (mem_ranked hids hkinds).mp (mem_of_mem_least hother)
  have hsame := id_unique hids (selected_subset hselected) (h.table row hrow) heq
  exact hsame ▸ hselected

theorem Drawn.kind_le (h : Drawn rows locked binds requested now drawn)
    (hids : (rows.map Row.id).Nodup) (hkinds : (binds.map PolicyBind.kind).Nodup)
    (hbind : bind ∈ binds) :
    drawn.countP (fun row => row.kind = bind.kind) ≤ bind.claimLimit := by
  have hnodup : drawn.Nodup :=
    List.Nodup.of_map Row.id (h.picked.nodup_iff.mpr (picked_nodup hids hkinds))
  have hsubset : drawn.filter (fun row => row.kind = bind.kind) ⊆
      least Row.Before bind.claimLimit (claimable rows locked now bind.kind) := by
    intro row hrow
    obtain ⟨hdrawn, hkind⟩ := List.mem_filter.mp hrow
    rcases List.mem_flatMap.mp (h.selected hids hkinds hdrawn) with ⟨b, hb, hmem⟩
    have hsame : b = bind := by
      apply List.inj_on_of_nodup_map hkinds hb hbind
      exact (selected_kind hmem).symm.trans (of_decide_eq_true hkind)
    exact hsame ▸ hmem
  rw [List.countP_eq_length_filter]
  have hle := (List.subperm_of_subset (hnodup.filter _) hsubset).length_le
  exact Nat.le_trans hle (least_length _ _)

end JobsTable
