import ServiceTemplate.FileTree
import ServiceTemplate.ByteFraming

/-! Operations of a process on the file tree under its root. Where a path leads through a symbolic
link, the kernel answers for a place that may lie anywhere. -/
namespace FileSystem

open FileTree

variable {N F L O : Type*} [DecidableEq N] {ε α : Type*}

structure World (N F L O : Type*) [DecidableEq N] where
  tree : Tree N F L
  outside : O

/-- The kernel's answers below a symbolic link, and what such a link leads to. -/
structure Answers (N F L O : Type*) [DecidableEq N] where
  lstat : World N F L O → List N → Option (Node F L)
  resolve : World N F L O → List N → Option (Node F L)
  call : World N F L O → List N → Call F L → World N F L O × Bool

structure Kernel (N F L O : Type*) [DecidableEq N] extends Answers N F L O where
  nameFits : N → Bool
  pathFits : List N → Bool
  above_fits : ∀ p q, q <+: p → pathFits p = true → pathFits q = true

def Kernel.takes (K : Kernel N F L O) (p : List N) : Bool := K.pathFits p && p.all K.nameFits

theorem takes_above {K : Kernel N F L O} {p q : List N} (h : K.takes p = true) (hpre : q <+: p) :
    K.takes q = true := by
  simp only [Kernel.takes, Bool.and_eq_true, List.all_eq_true] at h ⊢
  exact ⟨K.above_fits p q hpre h.1, fun name hname => h.2 name (hpre.subset hname)⟩

def above (p : List N) : List (List N) := p.dropLast.inits.filter (· ≠ [])

def isLink : Option (Node F L) → Bool
  | some (.link _) => true
  | _ => false

def ThroughLink (t : Tree N F L) (p : List N) : Prop := ∃ q ∈ above p, isLink (t.get q) = true

instance (t : Tree N F L) (p : List N) : Decidable (ThroughLink t p) :=
  inferInstanceAs (Decidable (∃ q ∈ above p, _))

section Queries

variable (K : Kernel N F L O) (w : World N F L O) (p : List N)

/-- Nothing is found at a path that is too long. -/
def lstat : Option (Node F L) :=
  if !K.takes p then none else if ThroughLink w.tree p then K.lstat w p else w.tree.get p

def isSymlink : Bool := isLink (lstat K w p)

/-- `stat` follows a link that stands at the path itself. -/
def stat : Option (Node F L) := if isSymlink K w p then K.resolve w p else lstat K w p

def pathExists : Bool := (stat K w p).isSome

def isDir : Bool := decide (stat K w p = some .dir)

def isFile : Bool :=
  match stat K w p with
  | some (.file _) => true
  | _ => false

end Queries

/-- An operation may fail midway: the tree stays as the failure found it. -/
abbrev Op (σ ε : Type*) := σ → σ × Except ε Unit

def andThen {σ : Type*} (f g : Op σ ε) : Op σ ε := fun s =>
  match f s with
  | (s, .ok ()) => g s
  | failed => failed

def forEach {σ : Type*} (f : α → Op σ ε) : List α → Op σ ε
  | [] => fun s => (s, .ok ())
  | x :: xs => andThen (f x) (forEach f xs)

section Sequences

variable {σ : Type*} {f g : Op σ ε} {s t : σ}

theorem and_then_ok : andThen f g s = (t, .ok ()) ↔ ∃ u, f s = (u, .ok ()) ∧ g u = (t, .ok ()) := by
  unfold andThen
  rcases hf : f s with ⟨u, r⟩
  cases r with
  | ok done =>
    constructor
    · intro h
      exact ⟨u, rfl, h⟩
    · rintro ⟨_, ⟨⟩, h⟩
      exact h
  | error e =>
    constructor
    · intro h
      cases h
    · rintro ⟨_, ⟨⟩, _⟩

theorem for_each_ok {P : List α → σ → Prop} {f : α → Op σ ε} (xs : List α)
    (hstep : ∀ done x rest s, xs = done ++ x :: rest → P done s →
      ∃ t, f x s = (t, .ok ()) ∧ P (done ++ [x]) t)
    (h : P [] s) : ∃ t, forEach f xs s = (t, .ok ()) ∧ P xs t := by
  suffices hsuffix : ∀ rest done s, xs = done ++ rest → P done s →
      ∃ t, forEach f rest s = (t, .ok ()) ∧ P xs t from hsuffix xs [] s rfl h
  intro rest
  induction rest with
  | nil =>
    intro done s hxs hdone
    rw [List.append_nil] at hxs
    exact ⟨s, rfl, hxs ▸ hdone⟩
  | cons x rest ih =>
    intro done s hxs hdone
    obtain ⟨u, hu, hnext⟩ := hstep done x rest s hxs hdone
    obtain ⟨t, ht, hend⟩ := ih (done ++ [x]) u (by simp [hxs]) hnext
    exact ⟨t, and_then_ok.mpr ⟨u, hu, ht⟩, hend⟩

theorem for_each_step {f : α → Op σ ε} {xs : List α} {x : α} (hx : x ∈ xs)
    (h : forEach f xs s = (t, .ok ())) : ∃ u v, f x u = (v, .ok ()) := by
  induction xs generalizing s with
  | nil => cases hx
  | cons y xs ih =>
    obtain ⟨u, hy, hrest⟩ := and_then_ok.mp h
    rcases List.mem_cons.mp hx with rfl | hmem
    · exact ⟨s, u, hy⟩
    · exact ih hmem hrest

theorem for_each_append (f : α → Op σ ε) (xs ys : List α) :
    forEach f (xs ++ ys) s = andThen (forEach f xs) (forEach f ys) s := by
  induction xs generalizing s with
  | nil => rfl
  | cons x xs ih =>
    simp only [List.cons_append, forEach, andThen]
    rcases f x s with ⟨u, r⟩
    cases r with
    | ok done => exact ih
    | error e => rfl

end Sequences

section Calls

variable (K : Kernel N F L O) (failure : ε)

def system (c : Call F L) (p : List N) : Op (World N F L O) ε := fun w =>
  if !K.takes p then (w, .error failure)
  else if ThroughLink w.tree p then
    let (w, through) := K.call w p c
    (w, if through then .ok () else .error failure)
  else
    match c.run w.tree p with
    | some t => ({ w with tree := t }, .ok ())
    | none => (w, .error failure)

/-- `mkdir` that accepts a directory. -/
def makeDirectory (p : List N) : Op (World N F L O) ε := fun w =>
  if isDir K w p then (w, .ok ()) else system K failure .mkdir p w

/-- `mkdir` of the parent, with its parents. A path that is too long is refused before any of them
is made, a name that is too long once the directories above it are there. -/
def makeParents (p : List N) : Op (World N F L O) ε := fun w =>
  if !K.pathFits p.dropLast then (w, .error failure)
  else forEach (makeDirectory K failure) (above p) w

end Calls

omit [DecidableEq N] in
theorem mem_above {p q : List N} : q ∈ above p ↔ q ≠ [] ∧ q <+: p ∧ q ≠ p := by
  simp only [above, List.mem_filter, List.mem_inits, decide_eq_true_eq]
  constructor
  · rintro ⟨hpre, hq⟩
    refine ⟨hq, hpre.trans (List.dropLast_prefix p), ?_⟩
    rintro rfl
    have hlen := hpre.length_le
    have hpos := List.length_pos_iff.mpr hq
    rw [List.length_dropLast] at hlen
    omega
  · rintro ⟨hq, hpre, hne⟩
    refine ⟨?_, hq⟩
    induction p using List.reverseRecOn with
    | nil => exact absurd (List.prefix_nil.mp hpre) hne
    | append_singleton p x _ =>
      rw [List.dropLast_concat]
      rcases List.prefix_concat_iff.mp hpre with heq | hpre
      · exact absurd (by simpa using heq) hne
      · exact hpre

omit [DecidableEq N] in
theorem above_concat {p : List N} (hp : p ≠ []) (x : N) : above (p ++ [x]) = above p ++ [p] := by
  induction p using List.reverseRecOn with
  | nil => exact absurd rfl hp
  | append_singleton p y _ => simp [above, List.inits_append]

omit [DecidableEq N] in
theorem parent_above {p : List N} (hp : p ≠ []) : p.dropLast = [] ∨ p.dropLast ∈ above p := by
  by_cases hdrop : p.dropLast = []
  · exact .inl hdrop
  · refine .inr (mem_above.mpr ⟨hdrop, List.dropLast_prefix p, ?_⟩)
    intro heq
    have hlen := congrArg List.length heq
    have hpos := List.length_pos_iff.mpr hp
    rw [List.length_dropLast] at hlen
    omega

/-- Nothing but directories above the path, as far as anything stands there. -/
def Clear (t : Tree N F L) (p : List N) : Prop :=
  ∀ q ∈ above p, t.get q = none ∨ t.get q = some .dir

section Direct

variable {K : Kernel N F L O} {r : ε} {w : World N F L O} {p : List N}

theorem clear_of_get (h : w.tree.get p ≠ none) : Clear w.tree p := by
  intro q hq
  obtain ⟨-, hpre, hne⟩ := mem_above.mp hq
  exact .inr (get_above h hpre hne)

theorem not_through_link (h : Clear w.tree p) : ¬ ThroughLink w.tree p := by
  rintro ⟨q, hq, hlink⟩
  rcases h q hq with hnone | hdir
  · rw [hnone] at hlink
    cases hlink
  · rw [hdir] at hlink
    cases hlink

theorem lstat_clear (ht : K.takes p = true) (h : Clear w.tree p) :
    lstat K w p = w.tree.get p := by
  simp only [lstat, ht, Bool.not_true, Bool.false_eq_true, if_false, if_neg (not_through_link h)]

theorem is_symlink_clear (ht : K.takes p = true) (h : Clear w.tree p) :
    isSymlink K w p = isLink (w.tree.get p) := by
  rw [isSymlink, lstat_clear ht h]

theorem stat_clear (ht : K.takes p = true) (h : Clear w.tree p)
    (hlink : isLink (w.tree.get p) = false) : stat K w p = w.tree.get p := by
  rw [stat, is_symlink_clear ht h, hlink, if_neg Bool.false_ne_true, lstat_clear ht h]

theorem takes_of_found (h : pathExists K w p = true ∨ isSymlink K w p = true) :
    K.takes p = true := by
  by_contra hlong
  have hnone : lstat K w p = none := by simp [lstat, hlong]
  have hlink : isSymlink K w p = false := by
    rw [isSymlink, hnone]
    rfl
  rcases h with hexists | hsymlink
  · rw [pathExists, stat, hlink, if_neg Bool.false_ne_true, hnone] at hexists
    cases hexists
  · rw [hlink] at hsymlink
    cases hsymlink

theorem takes_of_system {c : Call F L} {u : World N F L O} (h : system K r c p w = (u, .ok ())) :
    K.takes p = true := by
  by_contra hlong
  rw [system, if_pos (by simpa using hlong)] at h
  cases h

/-- A call away from links does what it does to the tree, and nothing outside of it. -/
theorem system_ok {c : Call F L} (ht : K.takes p = true) (h : Clear w.tree p)
    (hallowed : c.Allowed w.tree p) :
    ∃ u : World N F L O, system K r c p w = (u, .ok ()) ∧ u.outside = w.outside ∧
      ∀ q, u.tree.get q = if q = p then c.leaves else w.tree.get q := by
  obtain ⟨t, hrun⟩ := run_of_allowed hallowed
  refine ⟨{ w with tree := t }, ?_, rfl, run_get hrun⟩
  simp only [system, ht, Bool.not_true, Bool.false_eq_true, if_false, if_neg (not_through_link h),
    hrun]

theorem make_directory_ok (ht : K.takes p = true) (hp : p ≠ []) (h : Clear w.tree p)
    (hparent : w.tree.get p.dropLast = some .dir)
    (hnode : w.tree.get p = none ∨ w.tree.get p = some .dir) :
    ∃ u : World N F L O, makeDirectory K r p w = (u, .ok ()) ∧ u.outside = w.outside ∧
      ∀ q, u.tree.get q = if q = p then some .dir else w.tree.get q := by
  rcases hnode with hnone | hdir
  · have hstat : isDir K w p = false := by
      rw [isDir, stat_clear ht h (by rw [hnone]; rfl), hnone]
      rfl
    obtain ⟨u, hu, hout, hget⟩ :=
      system_ok (K := K) (r := r) (c := .mkdir) ht h ⟨hp, hparent, hnone⟩
    exact ⟨u, by rw [makeDirectory, hstat, if_neg Bool.false_ne_true, hu], hout, hget⟩
  · have hstat : isDir K w p = true := by
      rw [isDir, stat_clear ht h (by rw [hdir]; rfl), hdir]
      rfl
    refine ⟨w, by rw [makeDirectory, hstat, if_pos rfl], rfl, ?_⟩
    intro q
    split
    · next heq => rw [heq, hdir]
    · rfl

theorem make_directories_ok (ht : K.takes p = true) (h : Clear w.tree p) :
    ∃ u : World N F L O, forEach (makeDirectory K r) (above p) w = (u, .ok ()) ∧
      u.outside = w.outside ∧
      ∀ q, u.tree.get q = if q ∈ above p then some .dir else w.tree.get q := by
  induction p using List.reverseRecOn generalizing w with
  | nil => exact ⟨w, rfl, rfl, fun q => by simp [above]⟩
  | append_singleton p x ih =>
    by_cases hp : p = []
    · subst hp
      exact ⟨w, rfl, rfl, fun q => by simp [above]⟩
    · have habove := above_concat hp x
      have hclear : Clear w.tree p := fun q hq => h q (by simp [habove, hq])
      have hshort : K.takes p = true := takes_above ht (List.prefix_append p [x])
      obtain ⟨v, hv, hvout, hvget⟩ := ih hshort hclear
      have hnode : v.tree.get p = none ∨ v.tree.get p = some .dir := by
        rw [hvget, if_neg fun hmem => (mem_above.mp hmem).2.2 rfl]
        exact h p (by simp [habove])
      have hdirs : ∀ q ∈ above p, v.tree.get q = some .dir := fun q hq => by
        rw [hvget, if_pos hq]
      have hparent : v.tree.get p.dropLast = some .dir := by
        rcases parent_above hp with hroot | hmem
        · rw [hroot, get_root]
        · exact hdirs _ hmem
      obtain ⟨u, hu, huout, huget⟩ := make_directory_ok (K := K) (r := r) hshort hp
        (fun q hq => .inr (hdirs q hq)) hparent hnode
      refine ⟨u, ?_, huout.trans hvout, ?_⟩
      · rw [habove, for_each_append, and_then_ok]
        exact ⟨v, hv, and_then_ok.mpr ⟨u, hu, rfl⟩⟩
      · intro q
        rw [huget, hvget, habove]
        by_cases hq : q = p <;> by_cases hmem : q ∈ above p <;> simp [hq, hmem]

/-- Every directory above the path is there afterwards, made where it was missing. -/
theorem make_parents_ok (ht : K.takes p = true) (h : Clear w.tree p) :
    ∃ u : World N F L O, makeParents K r p w = (u, .ok ()) ∧ u.outside = w.outside ∧
      ∀ q, u.tree.get q = if q ∈ above p then some .dir else w.tree.get q := by
  have hfits : K.pathFits p.dropLast = true := by
    have hparent := takes_above ht (List.dropLast_prefix p)
    simp only [Kernel.takes, Bool.and_eq_true] at hparent
    exact hparent.1
  simp only [makeParents, hfits, Bool.not_true, Bool.false_eq_true, if_false]
  exact make_directories_ok ht h

end Direct

/-- A tree with nodes placed, the directories above them made, and paths taken away. -/
def overlay (base : List N → Option (Node F L)) (placed : List (Entry N F L))
    (gone : List (List N)) (q : List N) : Option (Node F L) :=
  match placed.lookup q with
  | some n => some n
  | none =>
    if q ∈ gone then none
    else if base q = none ∧ ∃ e ∈ placed, q ∈ above e.1 then some .dir
    else base q

def Apart (placed : List (Entry N F L)) (p : List N) : Prop :=
  ∀ e ∈ placed, ¬ p <+: e.1 ∧ ¬ e.1 <+: p

section Overlays

variable {base : List N → Option (Node F L)} {placed : List (Entry N F L)} {gone : List (List N)}
  {p q : List N} {n : Node F L}

theorem lookup_none : placed.lookup q = none ↔ ∀ e ∈ placed, q ≠ e.1 := by
  rw [List.lookup_eq_none_iff]
  simp only [bne_iff_ne]

@[simp] theorem overlay_nothing (base : List N → Option (Node F L)) (q : List N) :
    overlay base [] [] q = base q := by
  simp [overlay]

theorem overlay_placed (hnodup : (placed.map Prod.fst).Nodup) (h : (p, n) ∈ placed) :
    overlay base placed gone p = some n := by
  have hlookup : placed.lookup p = some n := by
    induction placed with
    | nil => cases h
    | cons e placed ih =>
      obtain ⟨k, m⟩ := e
      obtain ⟨hhead, hrest⟩ := List.nodup_cons.mp hnodup
      rcases List.mem_cons.mp h with heq | hmem
      · cases heq
        simp
      · have hne : p ≠ k := by
          intro heq
          subst heq
          exact hhead (List.mem_map.mpr ⟨(p, n), hmem, rfl⟩)
        rw [List.lookup_cons, beq_eq_false_iff_ne.mpr hne]
        exact ih hrest hmem
  simp [overlay, hlookup]

/-- What existed stays, unless something was placed there or it was taken away. -/
theorem overlay_kept (hplaced : ∀ e ∈ placed, q ≠ e.1) (hgone : q ∉ gone) (hbase : base q ≠ none) :
    overlay base placed gone q = base q := by
  simp [overlay, lookup_none.mpr hplaced, hgone, hbase]

theorem overlay_gone (hplaced : ∀ e ∈ placed, q ≠ e.1) (hgone : q ∈ gone) :
    overlay base placed gone q = none := by
  simp [overlay, lookup_none.mpr hplaced, hgone]

omit [DecidableEq N] in
theorem Apart.not_placed (h : Apart placed p) : ∀ e ∈ placed, p ≠ e.1 := by
  rintro e he rfl
  exact (h e he).1 (List.prefix_refl _)

theorem overlay_apart (h : Apart placed p) (hgone : p ∉ gone) :
    overlay base placed gone p = base p := by
  have habove : ¬ ∃ e ∈ placed, p ∈ above e.1 := by
    rintro ⟨e, he, hmem⟩
    exact (h e he).1 (mem_above.mp hmem).2.1
  simp [overlay, lookup_none.mpr h.not_placed, hgone, habove]

theorem overlay_above (h : Apart placed p) (hgone : ∀ r ∈ gone, r ∉ above p) (hq : q ∈ above p)
    (hbase : base q = none ∨ base q = some .dir) :
    overlay base placed gone q = none ∨ overlay base placed gone q = some .dir := by
  have hplaced : placed.lookup q = none := by
    rw [lookup_none]
    rintro e he rfl
    exact (h e he).2 (mem_above.mp hq).2.1
  have hmem : q ∉ gone := fun hmem => hgone q hmem hq
  simp only [overlay, hplaced, if_neg hmem]
  split
  · exact .inr rfl
  · exact hbase

theorem overlay_place (h : Apart placed p) (hgone : ∀ r ∈ gone, r ∉ above p) (hp : p ∉ gone)
    (q : List N) :
    overlay base (placed ++ [(p, n)]) gone q =
      if q = p then some n
      else if q ∈ above p ∧ overlay base placed gone q = none then some .dir
      else overlay base placed gone q := by
  by_cases heq : q = p
  · subst heq
    simp [overlay, List.lookup_append, lookup_none.mpr h.not_placed]
  · have hlast : List.lookup q [(p, n)] = none := by
      simp [List.lookup_cons, beq_eq_false_iff_ne.mpr heq]
    rw [if_neg heq]
    simp only [overlay, List.lookup_append, hlast, Option.or_none]
    by_cases hlookup : placed.lookup q = none
    · simp only [hlookup]
      by_cases hmem : q ∈ gone
      · simp [hmem, hgone q hmem]
      · have hmore : (∃ e ∈ placed ++ [(p, n)], q ∈ above e.1) ↔
            (∃ e ∈ placed, q ∈ above e.1) ∨ q ∈ above p := by
          simp only [List.mem_append, List.mem_singleton, or_and_right, exists_or, exists_eq_left]
        simp only [hmore, if_neg hmem]
        by_cases hbase : base q = none
        · by_cases hold : ∃ e ∈ placed, q ∈ above e.1 <;> simp [hbase, hold]
        · simp [hbase]
    · obtain ⟨m, hm⟩ := Option.ne_none_iff_exists'.mp hlookup
      simp [hm]

theorem overlay_take (h : ∀ e ∈ placed, p ≠ e.1) (q : List N) :
    overlay base placed (gone ++ [p]) q =
      if q = p then none else overlay base placed gone q := by
  by_cases heq : q = p
  · subst heq
    simp [overlay, lookup_none.mpr h]
  · simp [overlay, heq]

theorem overlay_congr {gone' : List (List N)} (h : ∀ r, r ∈ gone ↔ r ∈ gone') (q : List N) :
    overlay base placed gone q = overlay base placed gone' q := by
  simp only [overlay, h]

end Overlays

/-- The overlay of a world, reached without touching anything outside. -/
structure Reached (start : World N F L O) (placed : List (Entry N F L)) (gone : List (List N))
    (w : World N F L O) : Prop where
  outside : w.outside = start.outside
  get : ∀ q, w.tree.get q = overlay start.tree.get placed gone q

section Steps

variable {K : Kernel N F L O} {r : ε} {start w : World N F L O}
  {placed : List (Entry N F L)} {gone : List (List N)} {p : List N}

theorem reached_start (w : World N F L O) : Reached w [] [] w :=
  ⟨rfl, fun q => (overlay_nothing _ q).symm⟩

structure Fresh (start : World N F L O) (placed : List (Entry N F L)) (gone : List (List N))
    (p : List N) : Prop where
  nonempty : p ≠ []
  apart : Apart placed p
  gone : ∀ r ∈ gone, ¬ r <+: p
  clear : Clear start.tree p

theorem Fresh.not_gone (h : Fresh start placed gone p) : p ∉ gone :=
  fun hmem => h.gone p hmem (List.prefix_refl p)

theorem Fresh.gone_above (h : Fresh start placed gone p) : ∀ r ∈ gone, r ∉ above p :=
  fun r hr hmem => h.gone r hr (mem_above.mp hmem).2.1

theorem Reached.get_fresh (h : Reached start placed gone w) (hfresh : Fresh start placed gone p) :
    w.tree.get p = start.tree.get p := by
  rw [h.get, overlay_apart hfresh.apart hfresh.not_gone]

theorem Reached.clear (h : Reached start placed gone w) (hfresh : Fresh start placed gone p) :
    Clear w.tree p := by
  intro q hq
  rw [h.get]
  exact overlay_above hfresh.apart hfresh.gone_above hq (hfresh.clear q hq)

/-- The directories above a fresh path can be made; the path itself is as it was at the start. -/
theorem Reached.make_parents (h : Reached start placed gone w) (ht : K.takes p = true)
    (hfresh : Fresh start placed gone p) :
    ∃ v : World N F L O, makeParents K r p w = (v, .ok ()) ∧ v.outside = w.outside ∧
      (∀ q, v.tree.get q = if q ∈ above p then some .dir else w.tree.get q) ∧ Clear v.tree p ∧
      v.tree.get p.dropLast = some .dir ∧ v.tree.get p = start.tree.get p := by
  obtain ⟨v, hv, hvout, hvget⟩ := make_parents_ok (K := K) (r := r) ht (h.clear hfresh)
  refine ⟨v, hv, hvout, hvget, fun q hq => .inr (by rw [hvget, if_pos hq]), ?_, ?_⟩
  · rcases parent_above hfresh.nonempty with hroot | hmem
    · rw [hroot, get_root]
    · rw [hvget, if_pos hmem]
  · rw [hvget, if_neg fun hmem => (mem_above.mp hmem).2.2 rfl, h.get_fresh hfresh]

/-- A fresh path with the directories above it made, and then a node left at it. -/
theorem Reached.place {u v : World N F L O} {n : Node F L} (h : Reached start placed gone w)
    (hfresh : Fresh start placed gone p) (hvout : v.outside = w.outside)
    (hv : ∀ q, v.tree.get q = if q ∈ above p then some .dir else w.tree.get q)
    (huout : u.outside = v.outside) (hu : ∀ q, u.tree.get q = if q = p then some n else v.tree.get q) :
    Reached start (placed ++ [(p, n)]) gone u := by
  refine ⟨huout.trans (hvout.trans h.outside), ?_⟩
  intro q
  rw [overlay_place hfresh.apart hfresh.gone_above hfresh.not_gone, hu]
  split
  · rfl
  · rw [hv, h.get]
    by_cases hq : q ∈ above p
    · rcases overlay_above hfresh.apart hfresh.gone_above hq (hfresh.clear q hq) with ho | ho <;>
        simp [hq, ho]
    · simp [hq]

theorem Reached.take {u : World N F L O} (h : Reached start placed gone w)
    (hplaced : ∀ e ∈ placed, p ≠ e.1) (huout : u.outside = w.outside)
    (hu : ∀ q, u.tree.get q = if q = p then none else w.tree.get q) :
    Reached start placed (gone ++ [p]) u := by
  refine ⟨huout.trans h.outside, ?_⟩
  intro q
  rw [hu, overlay_take hplaced, h.get]

end Steps

end FileSystem
