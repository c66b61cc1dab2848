import ServiceTemplate.FilePlans

/-! When an admitted file plan completes: which plans the admission, made on the first tree alone,
lets through although they fail after their first write. -/
namespace FilePlanRuns

open ByteFraming
open Utf8Text
open TemplatePaths
open ExceptChain (bind_ok)
open FileTree
open FileSystem
open FilePlans

section Names

theorem utf8_injective : Function.Injective utf8 := by
  intro a b h
  rw [← as_bytes_of_list, ← as_bytes_of_list] at h
  exact String.ofList_injective (as_bytes_injective h)

theorem parts_injective : Function.Injective parts := by
  intro a b h
  have hpieces : pieces a = pieces b := List.map_injective_iff.mpr utf8_injective h
  have hjoin : ∀ text : Text, ['/'].intercalate (pieces text) = text :=
    fun text => List.intercalate_splitOn '/'
  rw [← hjoin a, ← hjoin b, hpieces]

theorem parts_ne_nil (relative : Text) : parts relative ≠ [] := by
  rw [parts, ne_eq, List.map_eq_nil_iff]
  exact List.splitOn_ne_nil '/' relative

theorem intercalate_append {sep : Text} (xs : List Text) (y : Text) (ys : List Text)
    (hxs : xs ≠ []) :
    sep.intercalate (xs ++ y :: ys) = sep.intercalate xs ++ sep ++ sep.intercalate (y :: ys) := by
  induction xs with
  | nil => exact absurd rfl hxs
  | cons x xs ih =>
    cases xs with
    | nil => simp [List.intercalate_cons_cons]
    | cons x' xs =>
      have ih := ih (List.cons_ne_nil _ _)
      simp only [List.cons_append] at ih
      simp [List.intercalate_cons_cons, ih]

theorem below_of_parts {a b : Text} (h : parts a <+: parts b) : a = b ∨ a ++ ['/'] <+: b := by
  obtain ⟨rest, hrest⟩ := (List.prefix_map_iff_of_injective utf8_injective).mp h
  cases rest with
  | nil =>
    rw [List.append_nil] at hrest
    exact .inl (parts_injective (congrArg (List.map utf8) hrest))
  | cons y ys =>
    refine .inr ⟨['/'].intercalate (y :: ys), ?_⟩
    have hjoin := congrArg (List.intercalate ['/']) hrest
    rw [intercalate_append (pieces a) _ _ (List.splitOn_ne_nil '/' a)] at hjoin
    simpa [pieces, List.intercalate_splitOn] using hjoin

end Names

section Checks

variable {O : Type} {M : Machine O} {w : Root O} {relative : Text}

theorem for_m_ok {α ε : Type} {f : α → Except ε Unit} {xs : List α} :
    xs.forM f = .ok () ↔ ∀ x ∈ xs, f x = .ok () := by
  induction xs with
  | nil => simp [pure, Except.pure]
  | cons x xs ih =>
    have hcons : (x :: xs).forM f = (f x >>= fun _ => xs.forM f) := rfl
    rw [hcons, bind_ok, List.forall_mem_cons, ← ih]
    constructor
    · rintro ⟨⟨⟩, hx, hxs⟩
      exact ⟨hx, hxs⟩
    · rintro ⟨hx, hxs⟩
      exact ⟨(), hx, hxs⟩

theorem map_m_ok {α β ε : Type} {f : α → Except ε β} {g : α → β} {xs : List α}
    (h : ∀ x ∈ xs, f x = .ok (g x)) : xs.mapM f = .ok (xs.map g) := by
  induction xs with
  | nil => rfl
  | cons x xs ih =>
    rw [List.mapM_cons, h x List.mem_cons_self, ih fun y hy => h y (List.mem_cons_of_mem x hy)]
    rfl

theorem map_m_mem {α β ε : Type} {f : α → Except ε β} {xs : List α} {ys : List β}
    (h : xs.mapM f = .ok ys) : ∀ x ∈ xs, ∃ y, f x = .ok y := by
  induction xs generalizing ys with
  | nil => simp
  | cons x xs ih =>
    rw [List.mapM_cons, bind_ok] at h
    obtain ⟨y, hy, h⟩ := h
    rw [bind_ok] at h
    obtain ⟨rest, hrest, -⟩ := h
    intro z hz
    rcases List.mem_cons.mp hz with rfl | hz
    · exact ⟨y, hy⟩
    · exact ih hrest z hz

theorem query_bind {α : Type} {p : List Bytes} (ht : M.toKernel.takes p = true)
    (f : Unit → Except Failure α) : (query M w p >>= f) = f () := by
  have hquiet : M.raises w p = false := by
    by_contra hraises
    rw [Bool.not_eq_false] at hraises
    have hlong : M.toKernel.takes p = false := M.raises_long w p hraises
    rw [ht] at hlong
    cases hlong
  simp only [query, hquiet, Bool.false_eq_true, if_false]
  rfl

theorem query_ok {p : List Bytes} (ht : M.toKernel.takes p = true) : query M w p = .ok () := by
  have hbind := query_bind (w := w) ht fun done => (.ok done : Except Failure Unit)
  obtain ⟨⟨⟩, hquery, -⟩ := bind_ok.mp hbind
  exact hquery

/-- What a check of a parent says where nothing but directories stands above it. -/
theorem check_parent_ok {q : List Bytes} (ht : M.toKernel.takes q = true) (h : Clear w.tree q) :
    checkParent M w relative q = .ok () ↔ w.tree.get q = none ∨ w.tree.get q = some .dir := by
  rw [checkParent, query_bind ht, is_symlink_clear ht h]
  rcases hnode : w.tree.get q with _ | node
  · have hstat : stat M.toKernel w q = none := by
      rw [stat_clear ht h (by rw [hnode]; rfl), hnode]
    simp [isLink, pathExists, hstat]
  · cases node with
    | link target => simp [isLink]
    | file contents =>
      have hstat : stat M.toKernel w q = some (.file contents) := by
        rw [stat_clear ht h (by rw [hnode]; rfl), hnode]
      simp [isLink, pathExists, isDir, hstat]
    | dir =>
      have hstat : stat M.toKernel w q = some .dir := by
        rw [stat_clear ht h (by rw [hnode]; rfl), hnode]
      simp [isLink, pathExists, isDir, hstat]

theorem check_parents_ok {p : List Bytes} (ht : M.toKernel.takes p = true) :
    (∀ q ∈ above p, checkParent M w relative q = .ok ()) ↔ Clear w.tree p := by
  constructor
  · intro h q hq
    -- Outermost first: the check of one parent relies on those above it.
    induction hlen : q.length using Nat.strong_induction_on generalizing q with
    | _ length ih =>
      subst hlen
      obtain ⟨-, hpre, hne⟩ := mem_above.mp hq
      refine (check_parent_ok (takes_above ht hpre) ?_).mp (h q hq)
      intro r hr
      obtain ⟨hr, hrpre, hrne⟩ := mem_above.mp hr
      have hlt : r.length < q.length := by
        refine lt_of_le_of_ne hrpre.length_le fun heq => hrne (hrpre.eq_of_length heq)
      refine ih r.length hlt r (mem_above.mpr ⟨hr, hrpre.trans hpre, ?_⟩) rfl
      rintro rfl
      exact absurd hpre.length_le (by omega)
  · intro h q hq
    have hclear : Clear w.tree q := by
      intro r hr
      obtain ⟨-, hpre, hne⟩ := mem_above.mp hq
      obtain ⟨hr, hrpre, hrne⟩ := mem_above.mp hr
      refine h r (mem_above.mpr ⟨hr, hrpre.trans hpre, ?_⟩)
      rintro rfl
      exact hne (hpre.eq_of_length (le_antisymm hpre.length_le hrpre.length_le))
    exact (check_parent_ok (takes_above ht (mem_above.mp hq).2.1) hclear).mpr (h q hq)

theorem exists_or_link {p : List Bytes} (ht : M.toKernel.takes p = true) (h : Clear w.tree p) :
    (pathExists M.toKernel w p || isSymlink M.toKernel w p) = (w.tree.get p).isSome := by
  rw [is_symlink_clear ht h]
  by_cases hlink : isLink (w.tree.get p) = true
  · rcases hnode : w.tree.get p with _ | node
    · rw [hnode] at hlink
      cases hlink
    · rw [← hnode, hlink, hnode, Bool.or_true]
      rfl
  · rw [Bool.not_eq_true] at hlink
    rw [hlink, Bool.or_false, pathExists, stat_clear ht h hlink]

/-- A destination that may not be missing is found, and so is not too long. -/
theorem takes_of_destination {target : List Bytes}
    (h : ensureSafeDestination M w relative false = .ok target) :
    M.toKernel.takes (parts relative) = true := by
  simp only [ensureSafeDestination, bind_ok, Bool.false_eq_true, if_false] at h
  obtain ⟨_, -, _, -, _, -, h⟩ := h
  split at h
  · cases h
  · next hmissing =>
    apply takes_of_found (w := w)
    by_contra hnone
    rw [not_or, Bool.not_eq_true, Bool.not_eq_true] at hnone
    apply hmissing
    rw [hnone.1, hnone.2]
    rfl

theorem ensure_safe_destination_ok {missingOk : Bool} {target : List Bytes}
    (ht : M.toKernel.takes (parts relative) = true) :
    ensureSafeDestination M w relative missingOk = .ok target ↔
      safe relative = .ok () ∧ Clear w.tree (parts relative) ∧
        (missingOk = true ∨ w.tree.get (parts relative) ≠ none) ∧ target = parts relative := by
  simp only [ensureSafeDestination, bind_ok]
  constructor
  · rintro ⟨_, hsafe, _, hparents, h⟩
    have hclear := (check_parents_ok ht).mp (for_m_ok.mp hparents)
    have hfound := exists_or_link ht hclear
    refine ⟨hsafe, hclear, ?_⟩
    cases missingOk with
    | true => exact ⟨.inl rfl, by simpa [eq_comm] using h⟩
    | false =>
      rw [if_neg Bool.false_ne_true, query_bind ht] at h
      split at h
      · cases h
      · next hmissing =>
        refine ⟨.inr fun hnone => hmissing ?_, by simpa [eq_comm] using h⟩
        rw [hnone] at hfound
        simpa using hfound
  · rintro ⟨hsafe, hclear, hfound, rfl⟩
    refine ⟨(), hsafe, (), for_m_ok.mpr ((check_parents_ok ht).mpr hclear), ?_⟩
    have hexists := exists_or_link ht hclear
    rcases hfound with rfl | hfound
    · rfl
    · rw [Option.isSome_iff_ne_none.mpr hfound] at hexists
      split
      · rfl
      · rw [query_bind ht, if_neg]
        intro hmissing
        simp only [Bool.and_eq_true, Bool.not_eq_true'] at hmissing
        rw [hmissing.1, hmissing.2] at hexists
        cases hexists

end Checks

section Admission

variable {O : Type} {M : Machine O} {w : Root O} {writes : List Planned} {removals : List Text}
  {plan : Plan}

/-- What admission establishes of the tree it looks at, where no written path is too long. -/
structure Admitted (M : Machine O) (w : Root O) (plan : Plan) : Prop where
  takes : ∀ name ∈ plan.writeNames ++ plan.removalPaths, M.toKernel.takes (parts name) = true
  safe : ∀ name ∈ plan.writeNames ++ plan.removalPaths, safe name = .ok ()
  clear : ∀ name ∈ plan.writeNames ++ plan.removalPaths, Clear w.tree (parts name)
  present : ∀ removal ∈ plan.removalPaths, w.tree.get (parts removal) ≠ none
  file_target : ∀ write ∈ plan.regularWrites, w.tree.get (parts write.relative) = none ∨
    ∃ contents, w.tree.get (parts write.relative) = some (.file contents)
  link_target : ∀ link ∈ plan.linkWrites, w.tree.get (parts link.relative) = none ∨
    ∃ bytes, w.tree.get (parts link.relative) = some (.link bytes)
  nodup_writes : plan.writeNames.Nodup
  nodup_removals : plan.removalPaths.Nodup
  outside : ∀ name ∈ plan.writeNames, ∀ removal ∈ plan.removalPaths,
    ¬ parts removal <+: parts name

theorem rstrip_of_safe {relative : Text} (h : safe relative = .ok ()) :
    rstrip relative = relative := by
  rw [rstrip, List.rdropWhile_eq_self_iff]
  intro hne
  rw [safe] at h
  split at h
  · next path hsafe =>
    have hpath : path = relative := by
      simp only [safeRelative] at hsafe
      split_ifs at hsafe <;> exact (Except.ok.inj hsafe).symm
    subst hpath
    have hpieces := (safe_relative_ok hsafe).2.2.2.2
    simp only [decide_eq_true_eq]
    intro hlast
    -- A closing slash would leave an empty last piece.
    refine hpieces [] ?_ (by decide)
    have hsplit : path = path.dropLast ++ '/' :: [] := by
      rw [← hlast]
      exact (List.dropLast_append_getLast hne).symm
    rw [pieces, hsplit, List.splitOn, List.splitOnP_append_cons _ _ (by rfl)]
    simp
  · cases h

theorem admit_file_target_ok {write : PlannedWrite}
    (ht : M.toKernel.takes (parts write.relative) = true)
    (h : admitFileTarget M w write = .ok ()) :
    FilePlans.safe write.relative = .ok () ∧ Clear w.tree (parts write.relative) ∧
      (w.tree.get (parts write.relative) = none ∨
        ∃ contents, w.tree.get (parts write.relative) = some (.file contents)) := by
  rw [admitFileTarget, bind_ok] at h
  obtain ⟨target, htarget, h⟩ := h
  obtain ⟨hsafe, hclear, -, rfl⟩ := (ensure_safe_destination_ok ht).mp htarget
  refine ⟨hsafe, hclear, ?_⟩
  rw [query_bind ht, is_symlink_clear ht hclear] at h
  rcases hnode : w.tree.get (parts write.relative) with _ | node
  · exact .inl rfl
  · cases node with
    | file contents => exact .inr ⟨contents, rfl⟩
    | link target => simp [hnode, isLink] at h
    | dir =>
      have hstat : stat M.toKernel w (parts write.relative) = some .dir := by
        rw [stat_clear ht hclear (by rw [hnode]; rfl), hnode]
      simp [hnode, isLink, pathExists, isFile, hstat] at h

theorem admit_link_target_ok {link : PlannedLink}
    (ht : M.toKernel.takes (parts link.relative) = true)
    (h : admitLinkTarget M w link = .ok ()) :
    FilePlans.safe link.relative = .ok () ∧ Clear w.tree (parts link.relative) ∧
      (w.tree.get (parts link.relative) = none ∨
        ∃ bytes, w.tree.get (parts link.relative) = some (.link bytes)) := by
  rw [admitLinkTarget, bind_ok] at h
  obtain ⟨target, htarget, h⟩ := h
  obtain ⟨hsafe, hclear, -, rfl⟩ := (ensure_safe_destination_ok ht).mp htarget
  refine ⟨hsafe, hclear, ?_⟩
  rw [query_bind ht, is_symlink_clear ht hclear] at h
  rcases hnode : w.tree.get (parts link.relative) with _ | node
  · exact .inl rfl
  · by_cases hlink : isLink (some node) = true
    · cases node with
      | link bytes => exact .inr ⟨bytes, rfl⟩
      | file contents => cases hlink
      | dir => cases hlink
    · rw [Bool.not_eq_true] at hlink
      have hstat : stat M.toKernel w (parts link.relative) = some node := by
        rw [stat_clear ht hclear (by rw [hnode]; exact hlink), hnode]
      simp [hnode, hlink, pathExists, hstat] at h

theorem admit_removal_ok {relative : Text} (h : admitRemoval M w relative = .ok ()) :
    M.toKernel.takes (parts relative) = true ∧ FilePlans.safe relative = .ok () ∧
      Clear w.tree (parts relative) ∧ w.tree.get (parts relative) ≠ none := by
  rw [admitRemoval, bind_ok] at h
  obtain ⟨_, hsafe, h⟩ := h
  rw [bind_ok] at h
  obtain ⟨target, htarget, -⟩ := h
  have ht := takes_of_destination htarget
  obtain ⟨-, hclear, hfound, -⟩ := (ensure_safe_destination_ok ht).mp htarget
  exact ⟨ht, hsafe, hclear, hfound.resolve_left Bool.false_ne_true⟩

theorem admit_plan_ok (h : admitPlan M w writes removals = .ok plan)
    (htakes : ∀ name ∈ plan.writeNames, M.toKernel.takes (parts name) = true) :
    Admitted M w plan := by
  simp only [admitPlan, bind_ok] at h
  obtain ⟨_, -, _, hremovals, h⟩ := h
  split at h
  · cases h
  · next hnodup =>
    split at h
    · cases h
    · next hnodup' =>
      obtain ⟨_, hfiles, _, hlinks, h⟩ := by simpa only [bind_ok] using h
      split at h
      · cases h
      · next houtside =>
        cases h
        have hremovals := fun r hr => admit_removal_ok (for_m_ok.mp hremovals r hr)
        have hfiles := fun f hf => admit_file_target_ok
          (htakes f.relative (List.mem_append_left _ (List.mem_map_of_mem hf)))
          (for_m_ok.mp hfiles f hf)
        have hlinks := fun l hl => admit_link_target_ok
          (htakes l.relative (List.mem_append_right _ (List.mem_map_of_mem hl)))
          (for_m_ok.mp hlinks l hl)
        rw [not_not] at hnodup hnodup'
        have hnames : ∀ name ∈ (Plan.writeNames ⟨writes.filterMap Planned.regular?,
            writes.filterMap Planned.link?, removals⟩) ++ removals,
            FilePlans.safe name = .ok () ∧ Clear w.tree (parts name) := by
          intro name hname
          simp only [Plan.writeNames, List.mem_append, List.mem_map] at hname
          rcases hname with (⟨f, hf, rfl⟩ | ⟨l, hl, rfl⟩) | hr
          · exact ⟨(hfiles f hf).1, (hfiles f hf).2.1⟩
          · exact ⟨(hlinks l hl).1, (hlinks l hl).2.1⟩
          · exact ⟨(hremovals name hr).2.1, (hremovals name hr).2.2.1⟩
        have hall : ∀ name ∈ (Plan.writeNames ⟨writes.filterMap Planned.regular?,
            writes.filterMap Planned.link?, removals⟩) ++ removals,
            M.toKernel.takes (parts name) = true := by
          intro name hname
          rcases List.mem_append.mp hname with hwrite | hr
          · exact htakes name hwrite
          · exact (hremovals name hr).1
        refine ⟨hall, fun name hname => (hnames name hname).1, fun name hname => (hnames name hname).2,
          fun r hr => (hremovals r hr).2.2.2, fun f hf => (hfiles f hf).2.2,
          fun l hl => (hlinks l hl).2.2, hnodup, hnodup', ?_⟩
        intro name hname removal hremoval hpre
        refine houtside (List.any_eq_true.mpr ⟨name, hname, ?_⟩)
        rw [insideRemoval, Bool.or_eq_true]
        rcases below_of_parts hpre with rfl | hbelow
        · exact .inl (List.contains_iff_mem.mpr hremoval)
        · refine .inr (List.any_eq_true.mpr ⟨removal, hremoval, ?_⟩)
          rw [rstrip_of_safe (hremovals removal hremoval).2.1]
          exact List.isPrefixOf_iff_prefix.mpr hbelow

end Admission

section Phases

variable {O : Type} {M : Machine O} {start w : Root O} {placed : List (Entry Bytes FileBits Bytes)}
  {gone : List (List Bytes)}

def fileEntry (write : PlannedWrite) : Entry Bytes FileBits Bytes :=
  (parts write.relative, .file (write.data, write.mode))

def linkEntry (link : PlannedLink) : Entry Bytes FileBits Bytes :=
  (parts link.relative, .link (utf8 link.target))

theorem write_file_ok {write : PlannedWrite} (h : Reached start placed gone w)
    (hsafe : safe write.relative = .ok ())
    (ht : M.toKernel.takes (parts write.relative) = true)
    (htemporary : temporaryFits M (parts write.relative) = true)
    (hfresh : Fresh start placed gone (parts write.relative))
    (htarget : start.tree.get (parts write.relative) ≠ some .dir)
    (hmode : 0 ≤ write.mode ∧ write.mode ≤ 0x1ff) :
    ∃ u, writeFile M write w = (u, .ok ()) ∧ Reached start (placed ++ [fileEntry write]) gone u := by
  have hensure : ensureSafeDestination M w write.relative true = .ok (parts write.relative) :=
    (ensure_safe_destination_ok ht).mpr ⟨hsafe, h.clear hfresh, .inl rfl, rfl⟩
  obtain ⟨v, hv, hvout, hvget, hclear, hparent, hnode⟩ :=
    h.make_parents (K := M.toKernel) (r := Failure.osError) ht hfresh
  have hchmod : chmod write.mode = some write.mode := by
    rw [chmod, if_pos (by omega), Int.emod_eq_of_lt hmode.1 (by omega)]
  obtain ⟨u, hu, huout, huget⟩ := system_ok (K := M.toKernel) (r := Failure.osError)
    (c := .replace (write.data, write.mode)) ht hclear
    ⟨parts_ne_nil write.relative, hparent, by rw [hnode]; exact htarget⟩
  refine ⟨u, ?_, h.place hfresh hvout hvget huout huget⟩
  have hparentClear : Clear v.tree (parts write.relative).dropLast :=
    clear_of_get (by rw [hparent]; exact Option.some_ne_none _)
  have hparentTakes : M.toKernel.takes (parts write.relative).dropLast = true :=
    takes_above ht (List.dropLast_prefix _)
  have hlink : isSymlink M.toKernel v (parts write.relative).dropLast = false := by
    rw [is_symlink_clear hparentTakes hparentClear, hparent]
    rfl
  have hdir : isDir M.toKernel v (parts write.relative).dropLast = true := by
    rw [isDir, stat_clear hparentTakes hparentClear (by rw [hparent]; rfl), hparent]
    rfl
  simp only [writeFile, hensure]
  refine and_then_ok.mpr ⟨v, hv, ?_⟩
  simp only [atomicWrite, query_ok hparentTakes, hlink, hdir, htemporary, hchmod, Bool.not_true,
    Bool.or_self, Bool.false_eq_true, if_false]
  exact hu

theorem write_link_ok {link : PlannedLink} (h : Reached start placed gone w)
    (hsafe : safe link.relative = .ok ())
    (ht : M.toKernel.takes (parts link.relative) = true)
    (hlength : (utf8 link.target).length ≤ M.limits.target)
    (hfresh : Fresh start placed gone (parts link.relative))
    (htarget : start.tree.get (parts link.relative) = none ∨
      ∃ bytes, start.tree.get (parts link.relative) = some (.link bytes)) :
    ∃ u, writeLink M link w = (u, .ok ()) ∧ Reached start (placed ++ [linkEntry link]) gone u := by
  have hensure : ensureSafeDestination M w link.relative true = .ok (parts link.relative) :=
    (ensure_safe_destination_ok ht).mpr ⟨hsafe, h.clear hfresh, .inl rfl, rfl⟩
  obtain ⟨v, hv, hvout, hvget, hclear, hparent, hnode⟩ :=
    h.make_parents (K := M.toKernel) (r := Failure.osError) ht hfresh
  -- An old link goes first; where there was nothing, nothing happens.
  obtain ⟨x, hx, hxout, hxget⟩ : ∃ x : Root O,
      unlinkExisting M (parts link.relative) v = (x, .ok ()) ∧ x.outside = v.outside ∧
        ∀ q, x.tree.get q = if q = parts link.relative then none else v.tree.get q := by
    have hexists := exists_or_link ht hclear
    simp only [unlinkExisting, query_ok ht]
    rcases htarget with hnone | ⟨bytes, hbytes⟩
    · rw [hnode, hnone] at hexists
      refine ⟨v, by rw [hexists]; rfl, rfl, ?_⟩
      intro q
      split
      · next heq => rw [heq, hnode, hnone]
      · rfl
    · rw [hnode, hbytes] at hexists
      obtain ⟨x, hx, hxout, hxget⟩ := system_ok (K := M.toKernel) (r := Failure.osError)
        (c := .unlink) ht hclear ⟨by rw [hnode, hbytes]; simp, by rw [hnode, hbytes]; simp⟩
      exact ⟨x, by rw [hexists]; exact hx, hxout, hxget⟩
  have hxclear : Clear x.tree (parts link.relative) := by
    intro q hq
    rw [hxget]
    split
    · exact .inl rfl
    · exact hclear q hq
  have hxparent : x.tree.get (parts link.relative).dropLast = some .dir := by
    rw [hxget, if_neg, hparent]
    intro heq
    have hlen := congrArg List.length heq
    have hpos := List.length_pos_iff.mpr (parts_ne_nil link.relative)
    rw [List.length_dropLast] at hlen
    omega
  obtain ⟨u, hu, huout, huget⟩ := system_ok (K := M.toKernel) (r := Failure.osError)
    (c := .symlink (utf8 link.target)) ht hxclear
    ⟨parts_ne_nil link.relative, hxparent, by rw [hxget, if_pos rfl]⟩
  refine ⟨u, ?_, h.place hfresh hvout hvget (huout.trans hxout) ?_⟩
  · simp only [writeLink, hensure]
    refine and_then_ok.mpr ⟨v, hv, and_then_ok.mpr ⟨x, hx, ?_⟩⟩
    rw [symlinkTo, if_neg (by omega), hu]
  · intro q
    rw [huget]
    split
    · rfl
    · next hne => rw [hxget, if_neg hne]

end Phases

section Removals

variable {O : Type} {M : Machine O} {start w : Root O} {placed : List (Entry Bytes FileBits Bytes)}
  {removals : List Text}

def directoryAt (start : Root O) (removal : Text) : Bool :=
  decide (start.tree.get (parts removal) = some .dir)

structure Removable (M : Machine O) (start : Root O) (placed : List (Entry Bytes FileBits Bytes))
    (removals : List Text) : Prop where
  takes : ∀ removal ∈ removals, M.toKernel.takes (parts removal) = true
  safe : ∀ removal ∈ removals, safe removal = .ok ()
  nodup : removals.Nodup
  outside : ∀ e ∈ placed, ∀ removal ∈ removals, ¬ parts removal <+: e.1
  present : ∀ removal ∈ removals, start.tree.get (parts removal) ≠ none

theorem Removable.not_placed (h : Removable M start placed removals) {removal : Text}
    (hmem : removal ∈ removals) : ∀ e ∈ placed, parts removal ≠ e.1 := by
  intro e he heq
  exact h.outside e he removal hmem (heq ▸ List.prefix_refl _)

theorem removal_kind_ok {removal : Text} {node : Node FileBits Bytes} (hsafe : safe removal = .ok ())
    (ht : M.toKernel.takes (parts removal) = true)
    (hnode : w.tree.get (parts removal) = some node)
    (hskill : ∀ bytes, node = .link bytes → generatedSkillLink removal bytes ≠ none) :
    removalKind M w removal = .ok (parts removal, decide (some node = some .dir)) := by
  have hpresent : w.tree.get (parts removal) ≠ none := by
    rw [hnode]
    exact Option.some_ne_none _
  have hclear := clear_of_get hpresent
  have hensure : ensureSafeDestination M w removal false = .ok (parts removal) :=
    (ensure_safe_destination_ok ht).mpr ⟨hsafe, hclear, .inr hpresent, rfl⟩
  rw [removalKind, bind_ok]
  refine ⟨_, hensure, ?_⟩
  simp only [lstat_clear ht hclear, hnode]
  cases node with
  | file contents => rfl
  | dir => rfl
  | link bytes =>
    have hskill := hskill bytes rfl
    obtain ⟨name, hname⟩ := Option.ne_none_iff_exists'.mp hskill
    obtain ⟨folder, -, hfolder⟩ := List.exists_of_findSome?_eq_some hname
    have hbytes : bytes = utf8 (skillTarget name) := by
      split at hfolder
      · cases hfolder
      · split at hfolder
        · next htarget =>
          cases hfolder
          exact htarget.2
        · cases hfolder
    have hdecode : fromUtf8 bytes = some (String.ofList (skillTarget name)) := by
      rw [hbytes, ← as_bytes_of_list, from_utf8_as_bytes]
    simp only [hdecode, if_neg hskill]
    rfl

theorem removal_kind_skill {removal : Text} {bytes : Bytes} {kind : List Bytes × Bool}
    (hnode : w.tree.get (parts removal) = some (.link bytes))
    (h : removalKind M w removal = .ok kind) : generatedSkillLink removal bytes ≠ none := by
  intro hnone
  rw [removalKind, bind_ok] at h
  obtain ⟨target, htarget, h⟩ := h
  have ht := takes_of_destination htarget
  obtain ⟨-, hclear, -, rfl⟩ := (ensure_safe_destination_ok ht).mp htarget
  rw [lstat_clear ht hclear, hnode] at h
  dsimp only at h
  split at h
  · cases h
  · rw [if_pos hnone] at h
    cases h

theorem unlink_all_ok (hreached : Reached start placed [] w) (h : Removable M start placed removals) :
    ∃ u, forEach (system M.toKernel Failure.osError .unlink)
        ((removals.filter fun removal => !directoryAt start removal).map parts) w = (u, .ok ()) ∧
      Reached start placed ((removals.filter fun removal => !directoryAt start removal).map parts) u := by
  have hnodup : ((removals.filter fun removal => !directoryAt start removal).map parts).Nodup :=
    (h.nodup.filter _).map parts_injective
  refine for_each_ok (P := fun done s => Reached start placed done s) _ ?_ hreached
  intro done p rest s hsplit hs
  have hmem : p ∈ (removals.filter fun removal => !directoryAt start removal).map parts := by
    rw [hsplit]
    simp
  obtain ⟨removal, hremoval, rfl⟩ := List.mem_map.mp hmem
  obtain ⟨hremoval, hkind⟩ := List.mem_filter.mp hremoval
  have hdone : parts removal ∉ done := by
    rw [hsplit] at hnodup
    exact fun hin => (List.nodup_append.mp hnodup).2.2 _ hin _ List.mem_cons_self rfl
  have hplaced := h.not_placed hremoval
  have hget : s.tree.get (parts removal) = start.tree.get (parts removal) := by
    rw [hs.get, overlay_kept hplaced hdone (h.present removal hremoval)]
  have hpresent : s.tree.get (parts removal) ≠ none := by
    rw [hget]
    exact h.present removal hremoval
  obtain ⟨t, ht, htout, htget⟩ := system_ok (K := M.toKernel) (r := Failure.osError)
    (c := .unlink) (h.takes removal hremoval) (clear_of_get hpresent)
    ⟨hpresent, by simpa [directoryAt, hget] using hkind⟩
  exact ⟨t, ht, hs.take hplaced htout htget⟩

/-- Deepest first, each removed directory is empty once what lies in it has been removed. -/
theorem rmdir_all_ok
    (hreached : Reached start placed
      ((removals.filter fun removal => !directoryAt start removal).map parts) w)
    (h : Removable M start placed removals)
    (hemptied : ∀ removal ∈ removals, start.tree.get (parts removal) = some .dir →
      ∀ q, q ≠ [] → q.dropLast = parts removal → start.tree.get q ≠ none →
        q ∈ removals.map parts) :
    ∃ u, forEach (system M.toKernel Failure.osError .rmdir)
        (deepestFirst ((removals.filter (directoryAt start)).map parts)) w = (u, .ok ()) ∧
      Reached start placed ((removals.filter fun removal => !directoryAt start removal).map parts ++
        deepestFirst ((removals.filter (directoryAt start)).map parts)) u := by
  have hnodup : (deepestFirst ((removals.filter (directoryAt start)).map parts)).Nodup :=
    (List.perm_insertionSort _ _).nodup_iff.mpr ((h.nodup.filter _).map parts_injective)
  have hsorted : (deepestFirst ((removals.filter (directoryAt start)).map parts)).Pairwise
      fun a b => b.length ≤ a.length := by
    have htotal : Std.Total fun a b : List Bytes => b.length ≤ a.length :=
      ⟨fun a b => le_total b.length a.length⟩
    have htrans : IsTrans (List Bytes) fun a b => b.length ≤ a.length :=
      ⟨fun a b c hab hbc => hbc.trans hab⟩
    exact List.pairwise_insertionSort _ _
  refine for_each_ok (P := fun done s => Reached start placed
    ((removals.filter fun removal => !directoryAt start removal).map parts ++ done) s) _ ?_
    (by simpa using hreached)
  intro done p rest s hsplit hs
  have hin : ∀ q, q ∈ done ++ p :: rest ↔ ∃ removal ∈ removals,
      start.tree.get (parts removal) = some .dir ∧ parts removal = q := by
    intro q
    rw [← hsplit, deepestFirst, List.mem_insertionSort]
    simp [directoryAt, and_assoc]
  obtain ⟨removal, hremoval, hdir, rfl⟩ := (hin p).mp (by simp)
  rw [hsplit] at hnodup hsorted
  have hplaced := h.not_placed hremoval
  have hdone : parts removal ∉
      (removals.filter fun removal => !directoryAt start removal).map parts ++ done := by
    rw [List.mem_append, not_or]
    constructor
    · intro hfile
      obtain ⟨other, hother, heq⟩ := List.mem_map.mp hfile
      obtain rfl := parts_injective heq
      simp [directoryAt, hdir] at hother
    · exact fun hin => (List.nodup_append.mp hnodup).2.2 _ hin _ List.mem_cons_self rfl
  have hget : s.tree.get (parts removal) = some .dir := by
    rw [hs.get, overlay_kept hplaced hdone (by rw [hdir]; exact Option.some_ne_none _), hdir]
  have hvacant : ∀ q, q ≠ [] → q.dropLast = parts removal → s.tree.get q = none := by
    intro q hq hdrop
    have hpre : parts removal <+: q := hdrop ▸ List.dropLast_prefix q
    have hnotPlaced : ∀ e ∈ placed, q ≠ e.1 := fun e he heq =>
      h.outside e he removal hremoval (heq ▸ hpre)
    have hnotAbove : ¬ ∃ e ∈ placed, q ∈ above e.1 := by
      rintro ⟨e, he, habove⟩
      exact h.outside e he removal hremoval (hpre.trans (mem_above.mp habove).2.1)
    rw [hs.get]
    by_cases hgone : q ∈ (removals.filter fun removal => !directoryAt start removal).map parts ++ done
    · exact overlay_gone hnotPlaced hgone
    · by_cases hbase : start.tree.get q = none
      · simp [overlay, lookup_none.mpr hnotPlaced, hgone, hnotAbove, hbase]
      · -- A child that was there is in the plan: a file is gone, a directory came earlier.
        exfalso
        obtain ⟨child, hchild, rfl⟩ := List.mem_map.mp (hemptied removal hremoval hdir q hq hdrop hbase)
        rw [List.mem_append, not_or] at hgone
        by_cases hkind : start.tree.get (parts child) = some .dir
        · have hlength : (parts child).length = (parts removal).length + 1 := by
            have hlen := congrArg List.length hdrop
            have hpos := List.length_pos_iff.mpr hq
            rw [List.length_dropLast] at hlen
            omega
          rcases List.mem_append.mp ((hin _).mpr ⟨child, hchild, hkind, rfl⟩) with hearlier | hlater
          · exact hgone.2 hearlier
          · rcases List.mem_cons.mp hlater with heq | hlater
            · rw [heq] at hlength
              omega
            · have hle := (List.pairwise_cons.mp (List.pairwise_append.mp hsorted).2.1).1 _ hlater
              omega
        · refine hgone.1 (List.mem_map.mpr ⟨child, List.mem_filter.mpr ⟨hchild, ?_⟩, rfl⟩)
          simp [directoryAt, hkind]
  obtain ⟨t, ht, htout, htget⟩ := system_ok (K := M.toKernel) (r := Failure.osError)
    (c := .rmdir) (h.takes removal hremoval)
    (clear_of_get (by rw [hget]; exact Option.some_ne_none _))
    ⟨parts_ne_nil removal, hget, hvacant⟩
  refine ⟨t, ht, ?_⟩
  rw [← List.append_assoc]
  exact hs.take hplaced htout htget

theorem remove_all_ok (hreached : Reached start placed [] w) (h : Removable M start placed removals)
    (hskill : ∀ removal ∈ removals, ∀ bytes, start.tree.get (parts removal) = some (.link bytes) →
      generatedSkillLink removal bytes ≠ none)
    (hemptied : ∀ removal ∈ removals, start.tree.get (parts removal) = some .dir →
      ∀ q, q ≠ [] → q.dropLast = parts removal → start.tree.get q ≠ none →
        q ∈ removals.map parts) :
    ∃ u, removeAll M removals w = (u, .ok ()) ∧
      Reached start placed (removals.map parts) u := by
  have hkinds : removals.mapM (removalKind M w) =
      .ok (removals.map fun removal => (parts removal, directoryAt start removal)) := by
    apply map_m_ok
    intro removal hremoval
    obtain ⟨node, hnode⟩ := Option.ne_none_iff_exists'.mp (h.present removal hremoval)
    have hget : w.tree.get (parts removal) = some node := by
      rw [hreached.get, overlay_kept (h.not_placed hremoval) List.not_mem_nil
        (h.present removal hremoval), hnode]
    rw [removal_kind_ok (h.safe removal hremoval) (h.takes removal hremoval) hget
      fun bytes heq => hskill removal hremoval bytes (heq ▸ hnode), directoryAt, hnode]
  obtain ⟨v, hv, hvreached⟩ := unlink_all_ok (M := M) hreached h
  obtain ⟨u, hu, hureached⟩ := rmdir_all_ok (M := M) hvreached h hemptied
  refine ⟨u, ?_, hureached.outside, ?_⟩
  · have hfiles : ((removals.map fun removal => (parts removal, directoryAt start removal)).filter
        fun kind => !kind.2).map Prod.fst =
        (removals.filter fun removal => !directoryAt start removal).map parts := by
      rw [List.filter_map, List.map_map]
      rfl
    have hdirectories : ((removals.map fun removal =>
        (parts removal, directoryAt start removal)).filter fun kind => kind.2).map Prod.fst =
        (removals.filter (directoryAt start)).map parts := by
      rw [List.filter_map, List.map_map]
      rfl
    simp only [removeAll, hkinds, hfiles, hdirectories]
    exact and_then_ok.mpr ⟨v, hv, hu⟩
  · intro q
    rw [hureached.get]
    apply overlay_congr
    intro r
    simp only [List.mem_append, deepestFirst, List.mem_insertionSort, List.mem_map,
      List.mem_filter, Bool.not_eq_true']
    constructor
    · rintro (⟨removal, ⟨hremoval, -⟩, rfl⟩ | ⟨removal, ⟨hremoval, -⟩, rfl⟩) <;>
        exact ⟨removal, hremoval, rfl⟩
    · rintro ⟨removal, hremoval, rfl⟩
      rcases hkind : directoryAt start removal with _ | _
      · exact .inl ⟨removal, ⟨hremoval, hkind⟩, rfl⟩
      · exact .inr ⟨removal, ⟨hremoval, hkind⟩, rfl⟩

end Removals

section Plans

variable {O : Type} {M : Machine O} {start w : Root O} {plan : Plan}

def entries (plan : Plan) : List (Entry Bytes FileBits Bytes) :=
  plan.regularWrites.map fileEntry ++ plan.linkWrites.map linkEntry

/-- What the operations of an admitted plan need of each other and of the first tree. -/
structure Performable (M : Machine O) (start : Root O) (plan : Plan) : Prop where
  /-- No written path is too long, nor that of a file's temporary file. -/
  takes : ∀ name ∈ plan.writeNames, M.toKernel.takes (parts name) = true
  temporaries : ∀ write ∈ plan.regularWrites, temporaryFits M (parts write.relative) = true
  /-- No link's target is too long. -/
  targets : ∀ link ∈ plan.linkWrites, (utf8 link.target).length ≤ M.limits.target
  /-- No written path lies above another one. -/
  apart : ∀ a ∈ plan.writeNames, ∀ b ∈ plan.writeNames, parts a <+: parts b → a = b
  /-- Whatever lies in a removed directory is removed as well. -/
  emptied : ∀ removal ∈ plan.removalPaths, start.tree.get (parts removal) = some .dir →
    ∀ q, q ≠ [] → q.dropLast = parts removal → start.tree.get q ≠ none →
      q ∈ plan.removalPaths.map parts
  /-- Only skill links are removed. -/
  skill : ∀ removal ∈ plan.removalPaths, ∀ bytes,
    start.tree.get (parts removal) = some (.link bytes) → generatedSkillLink removal bytes ≠ none
  /-- A mode has permission bits only, and lets the process read the file back. -/
  modes : ∀ write ∈ plan.regularWrites,
    0 ≤ write.mode ∧ write.mode ≤ 0x1ff ∧ M.canRead write.mode = true

theorem entries_keys (plan : Plan) : (entries plan).map Prod.fst = plan.writeNames.map parts := by
  simp [entries, Plan.writeNames, fileEntry, linkEntry, Function.comp_def]

theorem entries_nodup (h : Admitted M start plan) : ((entries plan).map Prod.fst).Nodup := by
  rw [entries_keys]
  exact h.nodup_writes.map parts_injective

/-- Something other than a directory is planned at every written path. -/
theorem planned_node {name : Text} (h : name ∈ plan.writeNames) :
    ∃ node, (parts name, node) ∈ entries plan ∧ node ≠ .dir := by
  rcases List.mem_append.mp h with hfile | hlink
  · obtain ⟨write, hwrite, rfl⟩ := List.mem_map.mp hfile
    exact ⟨_, List.mem_append_left _ (List.mem_map_of_mem hwrite), by simp⟩
  · obtain ⟨link, hmem, rfl⟩ := List.mem_map.mp hlink
    exact ⟨_, List.mem_append_right _ (List.mem_map_of_mem hmem), by simp⟩

theorem entry_name {e : Entry Bytes FileBits Bytes} (h : e ∈ entries plan) :
    ∃ name ∈ plan.writeNames, e.1 = parts name := by
  have hkey : e.1 ∈ (entries plan).map Prod.fst := List.mem_map_of_mem h
  rw [entries_keys, List.mem_map] at hkey
  obtain ⟨name, hname, heq⟩ := hkey
  exact ⟨name, hname, heq.symm⟩

theorem fresh_name {placed : List (Entry Bytes FileBits Bytes)} {gone : List (List Bytes)}
    {name : Text} (h : Admitted M start plan)
    (hapart : ∀ a ∈ plan.writeNames, ∀ b ∈ plan.writeNames, parts a <+: parts b → a = b)
    (hname : name ∈ plan.writeNames) (hgone : ∀ r ∈ gone, r ∈ plan.removalPaths.map parts)
    (hplaced : ∀ e ∈ placed, ∃ other ∈ plan.writeNames, e.1 = parts other ∧ other ≠ name) :
    Fresh start placed gone (parts name) := by
  refine ⟨parts_ne_nil name, ?_, ?_, h.clear name (List.mem_append_left _ hname)⟩
  · intro e he
    obtain ⟨other, hother, heq, hne⟩ := hplaced e he
    rw [heq]
    constructor
    · exact fun hpre => hne (hapart name hname other hother hpre).symm
    · exact fun hpre => hne (hapart other hother name hname hpre)
  · intro r hr hpre
    obtain ⟨removal, hremoval, rfl⟩ := List.mem_map.mp (hgone r hr)
    exact h.outside name hname removal hremoval hpre

theorem write_files_ok (h : Admitted M start plan)
    (hapart : ∀ a ∈ plan.writeNames, ∀ b ∈ plan.writeNames, parts a <+: parts b → a = b)
    (htemporary : ∀ write ∈ plan.regularWrites, temporaryFits M (parts write.relative) = true)
    (hmodes : ∀ write ∈ plan.regularWrites, 0 ≤ write.mode ∧ write.mode ≤ 0x1ff) :
    ∃ u, forEach (writeFile M) plan.regularWrites start = (u, .ok ()) ∧
      Reached start (plan.regularWrites.map fileEntry) [] u := by
  refine for_each_ok (P := fun done s => Reached start (done.map fileEntry) [] s) _ ?_
    (reached_start start)
  intro done write rest s hsplit hs
  have hwrite : write ∈ plan.regularWrites := by simp [hsplit]
  have hname : write.relative ∈ plan.writeNames :=
    List.mem_append_left _ (List.mem_map_of_mem hwrite)
  have hfresh : Fresh start (done.map fileEntry) [] (parts write.relative) := by
    apply fresh_name h hapart hname (by simp)
    intro e he
    obtain ⟨other, hother, rfl⟩ := List.mem_map.mp he
    refine ⟨other.relative, List.mem_append_left _ (List.mem_map_of_mem (by simp [hsplit, hother])),
      rfl, ?_⟩
    have hnodup := (List.nodup_append.mp h.nodup_writes).1
    rw [hsplit, List.map_append, List.map_cons] at hnodup
    exact (List.nodup_append.mp hnodup).2.2 _ (List.mem_map_of_mem hother) _ List.mem_cons_self
  have htarget : start.tree.get (parts write.relative) ≠ some .dir := by
    rcases h.file_target write hwrite with hnone | ⟨contents, hfile⟩
    · simp [hnone]
    · simp [hfile]
  obtain ⟨u, hu, hureached⟩ := write_file_ok (M := M) hs
    (h.safe _ (List.mem_append_left _ hname)) (h.takes _ (List.mem_append_left _ hname))
    (htemporary write hwrite) hfresh htarget (hmodes write hwrite)
  exact ⟨u, hu, by simpa using hureached⟩

theorem write_links_ok (h : Admitted M start plan)
    (hapart : ∀ a ∈ plan.writeNames, ∀ b ∈ plan.writeNames, parts a <+: parts b → a = b)
    (htargets : ∀ link ∈ plan.linkWrites, (utf8 link.target).length ≤ M.limits.target)
    (hreached : Reached start (plan.regularWrites.map fileEntry) (plan.removalPaths.map parts) w) :
    ∃ u, forEach (writeLink M) plan.linkWrites w = (u, .ok ()) ∧
      Reached start (entries plan) (plan.removalPaths.map parts) u := by
  refine for_each_ok (P := fun done s => Reached start
    (plan.regularWrites.map fileEntry ++ done.map linkEntry) (plan.removalPaths.map parts) s) _ ?_
    (by simpa using hreached)
  intro done link rest s hsplit hs
  have hlink : link ∈ plan.linkWrites := by simp [hsplit]
  have hname : link.relative ∈ plan.writeNames :=
    List.mem_append_right _ (List.mem_map_of_mem hlink)
  have hnodup := List.nodup_append.mp h.nodup_writes
  have hfresh : Fresh start (plan.regularWrites.map fileEntry ++ done.map linkEntry)
      (plan.removalPaths.map parts) (parts link.relative) := by
    apply fresh_name h hapart hname (fun r hr => hr)
    intro e he
    rcases List.mem_append.mp he with hfile | hearlier
    · obtain ⟨other, hother, rfl⟩ := List.mem_map.mp hfile
      have hother : other.relative ∈ plan.regularWrites.map (·.relative) :=
        List.mem_map_of_mem hother
      exact ⟨other.relative, List.mem_append_left _ hother, rfl,
        hnodup.2.2 _ hother _ (List.mem_map_of_mem hlink)⟩
    · obtain ⟨other, hother, rfl⟩ := List.mem_map.mp hearlier
      refine ⟨other.relative,
        List.mem_append_right _ (List.mem_map_of_mem (by simp [hsplit, hother])), rfl, ?_⟩
      have hnodup := hnodup.2.1
      rw [hsplit, List.map_append, List.map_cons] at hnodup
      exact (List.nodup_append.mp hnodup).2.2 _ (List.mem_map_of_mem hother) _ List.mem_cons_self
  obtain ⟨u, hu, hureached⟩ := write_link_ok (M := M) hs
    (h.safe _ (List.mem_append_left _ hname)) (h.takes _ (List.mem_append_left _ hname))
    (htargets link hlink) hfresh (h.link_target link hlink)
  exact ⟨u, hu, by simpa using hureached⟩

theorem removable (h : Admitted M start plan) :
    Removable M start (plan.regularWrites.map fileEntry) plan.removalPaths := by
  refine ⟨fun r hr => h.takes r (List.mem_append_right _ hr),
    fun r hr => h.safe r (List.mem_append_right _ hr), h.nodup_removals, ?_, h.present⟩
  intro e he removal hremoval
  obtain ⟨write, hwrite, rfl⟩ := List.mem_map.mp he
  exact h.outside write.relative (List.mem_append_left _ (List.mem_map_of_mem hwrite)) removal hremoval

theorem written_file (h : Admitted M start plan)
    (hreached : Reached start (entries plan) (plan.removalPaths.map parts) w) {write : PlannedWrite}
    (hwrite : write ∈ plan.regularWrites) :
    isSymlink M.toKernel w (parts write.relative) = false ∧
      stat M.toKernel w (parts write.relative) = some (.file (write.data, write.mode)) := by
  have hget : w.tree.get (parts write.relative) = some (.file (write.data, write.mode)) := by
    rw [hreached.get]
    exact overlay_placed (entries_nodup h) (List.mem_append_left _ (List.mem_map_of_mem hwrite))
  have hclear : Clear w.tree (parts write.relative) :=
    clear_of_get (by rw [hget]; exact Option.some_ne_none _)
  have ht := h.takes _ (List.mem_append_left _ (List.mem_append_left _ (List.mem_map_of_mem hwrite)))
  exact ⟨by rw [is_symlink_clear ht hclear, hget]; rfl,
    by rw [stat_clear ht hclear (by rw [hget]; rfl), hget]⟩

theorem verify_plan_ok (h : Admitted M start plan) (hperform : Performable M start plan)
    (hreached : Reached start (entries plan) (plan.removalPaths.map parts) w) :
    verifyPlan M w plan = .ok () := by
  have hfiles : plan.regularWrites.forM (verifyWrite M w) = .ok () := by
    refine for_m_ok.mpr fun write hwrite => ?_
    obtain ⟨hlink, hstat⟩ := written_file (M := M) h hreached hwrite
    obtain ⟨hlow, hhigh, hread⟩ := hperform.modes write hwrite
    rw [verifyWrite, query_bind (hperform.takes _ (List.mem_append_left _ (List.mem_map_of_mem hwrite)))]
    simp [hlink, hstat, hread, Int.emod_eq_of_lt hlow (by omega : write.mode < 0x200)]
  have hlinks : plan.linkWrites.forM (verifyLink M w) = .ok () := by
    refine for_m_ok.mpr fun link hlink => ?_
    have hget : w.tree.get (parts link.relative) = some (.link (utf8 link.target)) := by
      rw [hreached.get]
      exact overlay_placed (entries_nodup h) (List.mem_append_right _ (List.mem_map_of_mem hlink))
    have hclear : Clear w.tree (parts link.relative) :=
      clear_of_get (by rw [hget]; exact Option.some_ne_none _)
    have ht := hperform.takes _ (List.mem_append_right _ (List.mem_map_of_mem hlink))
    rw [verifyLink, query_bind ht]
    simp [lstat_clear ht hclear, hget]
  have hremovals : plan.removalPaths.forM (verifyRemoval M w) = .ok () := by
    refine for_m_ok.mpr fun removal hremoval => ?_
    have hnotPlaced : ∀ e ∈ entries plan, ¬ parts removal <+: e.1 := by
      intro e he
      obtain ⟨name, hname, heq⟩ := entry_name he
      rw [heq]
      exact h.outside name hname removal hremoval
    have hget : w.tree.get (parts removal) = none := by
      rw [hreached.get]
      exact overlay_gone (fun e he heq => hnotPlaced e he (heq ▸ List.prefix_refl _))
        (List.mem_map_of_mem hremoval)
    -- Above a removed path there were directories; a link write would not have been admitted there.
    have hclear : Clear w.tree (parts removal) := by
      intro q hq
      obtain ⟨-, hpre, hne⟩ := mem_above.mp hq
      have hbase := get_above (h.present removal hremoval) hpre hne
      rw [hreached.get]
      by_cases hgone : q ∈ plan.removalPaths.map parts
      · refine .inl (overlay_gone ?_ hgone)
        rintro e he rfl
        obtain ⟨name, hname, heq⟩ := entry_name he
        obtain ⟨other, hother, hsame⟩ := List.mem_map.mp hgone
        exact h.outside name hname other hother (hsame.trans heq ▸ List.prefix_refl _)
      · refine .inr ?_
        rw [overlay_kept ?_ hgone (by rw [hbase]; exact Option.some_ne_none _), hbase]
        rintro e he rfl
        rcases List.mem_append.mp he with hfile | hlink
        · obtain ⟨write, hwrite, rfl⟩ := List.mem_map.mp hfile
          rcases h.file_target write hwrite with hnone | ⟨contents, hcontents⟩
          · exact absurd (hbase.symm.trans hnone) (by simp)
          · exact absurd (hbase.symm.trans hcontents) (by simp)
        · obtain ⟨link, hmem, rfl⟩ := List.mem_map.mp hlink
          rcases h.link_target link hmem with hnone | ⟨bytes, hbytes⟩
          · exact absurd (hbase.symm.trans hnone) (by simp)
          · exact absurd (hbase.symm.trans hbytes) (by simp)
    have ht := h.takes removal (List.mem_append_right _ hremoval)
    have hexists := exists_or_link ht hclear
    rw [hget] at hexists
    have hsafe := h.safe removal (List.mem_append_right _ hremoval)
    rw [verifyRemoval, rstrip_of_safe hsafe, query_bind ht, hexists]
    rfl
  rw [verifyPlan, bind_ok]
  refine ⟨(), hfiles, ?_⟩
  rw [bind_ok]
  exact ⟨(), hlinks, hremovals⟩

theorem apply_plan_ok (h : Admitted M start plan) (hperform : Performable M start plan) :
    ∃ u, applyPlan M plan start = (u, .ok ()) ∧
      Reached start (entries plan) (plan.removalPaths.map parts) u := by
  obtain ⟨v, hv, hvreached⟩ := write_files_ok h hperform.apart hperform.temporaries
    fun write hwrite => ⟨(hperform.modes write hwrite).1, (hperform.modes write hwrite).2.1⟩
  obtain ⟨x, hx, hxreached⟩ :=
    remove_all_ok (M := M) hvreached (removable h) hperform.skill hperform.emptied
  obtain ⟨u, hu, hureached⟩ := write_links_ok h hperform.apart hperform.targets hxreached
  refine ⟨u, ?_, hureached⟩
  refine and_then_ok.mpr ⟨v, hv, and_then_ok.mpr ⟨x, hx, and_then_ok.mpr ⟨u, hu, ?_⟩⟩⟩
  rw [verify_plan_ok h hperform hureached]

/-- A file that was written had room for the name of its temporary file. -/
theorem write_file_fits {write : PlannedWrite} {u : Root O}
    (h : writeFile M write w = (u, .ok ())) :
    M.toKernel.takes (parts write.relative) = true ∧
      temporaryFits M (parts write.relative) = true := by
  unfold writeFile at h
  split at h
  · cases h
  · next target htarget =>
    obtain rfl : target = parts write.relative := by
      simp only [ensureSafeDestination, bind_ok, if_true] at htarget
      obtain ⟨_, -, _, -, htarget⟩ := htarget
      exact (Except.ok.inj htarget).symm
    obtain ⟨v, -, hwrite⟩ := and_then_ok.mp h
    simp only [atomicWrite] at hwrite
    split at hwrite
    · cases hwrite
    · split at hwrite
      · cases hwrite
      · split at hwrite
        · cases hwrite
        · next hfits =>
          split at hwrite
          · cases hwrite
          · exact ⟨takes_of_system hwrite, by simpa using hfits⟩

theorem write_link_fits {link : PlannedLink} {u : Root O} (h : writeLink M link w = (u, .ok ())) :
    M.toKernel.takes (parts link.relative) = true ∧
      (utf8 link.target).length ≤ M.limits.target := by
  unfold writeLink at h
  split at h
  · cases h
  · next target htarget =>
    obtain rfl : target = parts link.relative := by
      simp only [ensureSafeDestination, bind_ok, if_true] at htarget
      obtain ⟨_, -, _, -, htarget⟩ := htarget
      exact (Except.ok.inj htarget).symm
    obtain ⟨v, -, h⟩ := and_then_ok.mp h
    obtain ⟨x, -, hlink⟩ := and_then_ok.mp h
    unfold symlinkTo at hlink
    split at hlink
    · cases hlink
    · next hshort => exact ⟨takes_of_system hlink, by omega⟩

theorem fits_of_ok {u : Root O} (hrun : applyPlan M plan start = (u, .ok ())) :
    (∀ name ∈ plan.writeNames, M.toKernel.takes (parts name) = true) ∧
      (∀ write ∈ plan.regularWrites, temporaryFits M (parts write.relative) = true) ∧
      ∀ link ∈ plan.linkWrites, (utf8 link.target).length ≤ M.limits.target := by
  obtain ⟨v, hv, hrun⟩ := and_then_ok.mp hrun
  obtain ⟨x, -, hrun⟩ := and_then_ok.mp hrun
  obtain ⟨y, hy, -⟩ := and_then_ok.mp hrun
  have hwrites := fun write hwrite =>
    let ⟨_, _, hstep⟩ := for_each_step (x := write) hwrite hv
    write_file_fits hstep
  have hlinks := fun link hlink =>
    let ⟨_, _, hstep⟩ := for_each_step (x := link) hlink hy
    write_link_fits hstep
  refine ⟨?_, fun write hwrite => (hwrites write hwrite).2, fun link hlink => (hlinks link hlink).2⟩
  intro name hname
  rcases List.mem_append.mp hname with hfile | hlink
  · obtain ⟨write, hwrite, rfl⟩ := List.mem_map.mp hfile
    exact (hwrites write hwrite).1
  · obtain ⟨link, hmem, rfl⟩ := List.mem_map.mp hlink
    exact (hlinks link hmem).1

theorem performable_of_ok (h : Admitted M start plan) {u : Root O}
    (hrun : applyPlan M plan start = (u, .ok ()))
    (hreached : Reached start (entries plan) (plan.removalPaths.map parts) u) :
    Performable M start plan := by
  obtain ⟨htakes, htemporaries, htargets⟩ := fits_of_ok hrun
  obtain ⟨v, hv, hrun⟩ := and_then_ok.mp hrun
  obtain ⟨x, hx, hrun⟩ := and_then_ok.mp hrun
  obtain ⟨y, hy, hrun⟩ := and_then_ok.mp hrun
  obtain ⟨rfl, hverify⟩ := Prod.mk.inj hrun
  have hapart : ∀ a ∈ plan.writeNames, ∀ b ∈ plan.writeNames, parts a <+: parts b → a = b := by
    intro a ha b hb hpre
    by_contra hne
    obtain ⟨above, habove, hdir⟩ := planned_node ha
    obtain ⟨below, hbelow, -⟩ := planned_node hb
    have hget : ∀ {name node}, (parts name, node) ∈ entries plan →
        y.tree.get (parts name) = some node := fun hmem =>
      (hreached.get _).trans (overlay_placed (entries_nodup h) hmem)
    have hsome : y.tree.get (parts b) ≠ none := by
      rw [hget hbelow]
      exact Option.some_ne_none _
    have hup := get_above hsome hpre fun heq => hne (parts_injective heq)
    rw [hget habove] at hup
    exact hdir (Option.some.inj hup)
  have hmodes : ∀ write ∈ plan.regularWrites,
      0 ≤ write.mode ∧ write.mode ≤ 0x1ff ∧ M.canRead write.mode = true := by
    intro write hwrite
    rw [verifyPlan, bind_ok] at hverify
    obtain ⟨_, hfiles, -⟩ := hverify
    have hfile := for_m_ok.mp hfiles write hwrite
    obtain ⟨hlink, hstat⟩ := written_file (M := M) h hreached hwrite
    rw [verifyWrite, query_bind (htakes _ (List.mem_append_left _ (List.mem_map_of_mem hwrite)))]
      at hfile
    simp only [hlink, hstat, Bool.false_eq_true, if_false] at hfile
    split at hfile
    · cases hfile
    · next hread =>
      split at hfile
      · cases hfile
      · split at hfile
        · cases hfile
        · next hmode =>
          rw [not_not] at hmode
          exact ⟨by omega, by omega, by simpa using hread⟩
  refine ⟨htakes, htemporaries, htargets, hapart, ?_, ?_, hmodes⟩
  · intro removal hremoval hdir q hq hdrop hpresent
    by_contra hkept
    have hpre : parts removal <+: q := hdrop ▸ List.dropLast_prefix q
    have hnotPlaced : ∀ e ∈ entries plan, ¬ parts removal <+: e.1 := by
      intro e he
      obtain ⟨name, hname, heq⟩ := entry_name he
      rw [heq]
      exact h.outside name hname removal hremoval
    have hchild : y.tree.get q = start.tree.get q := by
      rw [hreached.get]
      exact overlay_kept (fun e he heq => hnotPlaced e he (heq ▸ hpre)) hkept hpresent
    have hparent := get_parent hq (by rw [hchild]; exact hpresent)
    rw [hdrop, hreached.get, overlay_gone
      (fun e he heq => hnotPlaced e he (heq ▸ List.prefix_refl _))
      (List.mem_map_of_mem hremoval)] at hparent
    cases hparent
  · intro removal hremoval bytes hbytes
    obtain ⟨v', hv', hvreached⟩ := write_files_ok h hapart htemporaries
      fun write hwrite => ⟨(hmodes write hwrite).1, (hmodes write hwrite).2.1⟩
    rw [hv] at hv'
    obtain ⟨rfl, -⟩ := Prod.mk.inj hv'
    have hget : v.tree.get (parts removal) = some (.link bytes) := by
      rw [hvreached.get, overlay_kept ((removable h).not_placed hremoval) List.not_mem_nil
        (h.present removal hremoval), hbytes]
    rw [removeAll] at hx
    split at hx
    · cases hx
    · next kinds hkinds =>
      obtain ⟨kind, hkind⟩ := map_m_mem hkinds removal hremoval
      exact removal_kind_skill hget hkind

end Plans

section Completion

variable {O : Type} (M : Machine O) (w : Root O) (writes : List Planned) (removals : List Text)

/-- Every operation is performed and read back, nothing outside the root changes, and the tree is
the old one with the written paths and the directories above them, less the removed paths. -/
def Completes (plan : Plan) : Prop :=
  ∃ u, writePlan M writes removals w = (u, .ok ()) ∧ u.outside = w.outside ∧
    ∀ q, u.tree.get q = overlay w.tree.get (entries plan) (removals.map parts) q

/-- A refused plan changes nothing, an admitted one completes. -/
def AllOrNothing : Prop :=
  match admitPlan M w writes removals with
  | .error failure => writePlan M writes removals w = (w, .error failure)
  | .ok plan => Completes M w writes removals plan

theorem admit_plan_removals {plan : Plan} (h : admitPlan M w writes removals = .ok plan) :
    plan.removalPaths = removals := by
  simp only [admitPlan, bind_ok] at h
  obtain ⟨_, -, _, -, h⟩ := h
  split at h
  · cases h
  · split at h
    · cases h
    · obtain ⟨_, -, _, -, h⟩ := by simpa only [bind_ok] using h
      split at h <;> cases h
      rfl

/-- A plan is all or nothing exactly when it is refused, or is performable on the first tree. -/
theorem all_or_nothing_iff : AllOrNothing M w writes removals ↔
    ∀ plan, admitPlan M w writes removals = .ok plan → Performable M w plan := by
  rcases hadmit : admitPlan M w writes removals with failure | plan
  · have hall : AllOrNothing M w writes removals := by
      simp [AllOrNothing, writePlan, hadmit]
    exact ⟨fun _ plan h => (by cases h), fun _ => hall⟩
  · have hremovals := admit_plan_removals M w writes removals hadmit
    have hwrite : writePlan M writes removals w = applyPlan M plan w := by
      simp [writePlan, hadmit]
    simp only [AllOrNothing, hadmit, Completes, hwrite]
    constructor
    · rintro ⟨u, hrun, hout, hget⟩ _ ⟨⟩
      have hadmitted := admit_plan_ok hadmit (fits_of_ok hrun).1
      exact performable_of_ok hadmitted hrun ⟨hout, by rw [hremovals]; exact hget⟩
    · intro h
      have hadmitted := admit_plan_ok hadmit (h plan rfl).takes
      obtain ⟨u, hrun, hreached⟩ := apply_plan_ok hadmitted (h plan rfl)
      exact ⟨u, hrun, hreached.outside, by rw [← hremovals]; exact hreached.get⟩

/-- A process that meets no link and may read what it wrote, under a root of ten bytes; a query of a
path that is too long finds nothing. -/
def plainMachine : Machine Unit where
  lstat _ _ := none
  resolve _ _ := none
  call w _ _ := (w, false)
  limits := ⟨255, 4085, 4085, 4095⟩
  canRead _ := true
  raises _ _ := false
  raises_long _ _ h := by cases h

def emptyRoot : Root Unit := ⟨FileTree.empty, ()⟩

def prefixPair : List Planned :=
  [.write ⟨"a".toList, [1], 0x1a4⟩, .write ⟨"a/b".toList, [2], 0x1a4⟩]

/-- Two regular writes, one above the other, are admitted; the second is refused once the first
one has been written. -/
theorem prefix_pair_half_written : ¬ AllOrNothing plainMachine emptyRoot prefixPair [] ∧
    ((writePlan plainMachine prefixPair [] emptyRoot).1.tree.get [[97]]).isSome = true := by
  have hadmit : admitPlan plainMachine emptyRoot prefixPair [] =
      .ok ⟨prefixPair.filterMap Planned.regular?, [], []⟩ := by rfl
  have hrefused : (writePlan plainMachine prefixPair [] emptyRoot).2 =
      .error (refuse "destination has a non-directory parent: " "a/b".toList) := by rfl
  refine ⟨?_, by decide⟩
  rw [AllOrNothing, hadmit]
  rintro ⟨u, hrun, -⟩
  rw [hrun] at hrefused
  cases hrefused

end Completion

end FilePlanRuns
