import Mathlib.Data.List.Infix
import Mathlib.Data.List.Nodup

/-! File trees: files, directories and symbolic links, where everything that exists lies in a
directory. The system calls that change a tree keep that, or fail and change nothing. -/
namespace FileTree

variable {N F L : Type*} [DecidableEq N]

inductive Node (F L : Type*) where
  | file (contents : F)
  | dir
  | link (target : L)
  deriving DecidableEq

instance (node : Option (Node F L)) : Decidable (node = some .dir) :=
  match node with
  | some .dir => isTrue rfl
  | none | some (.file _) | some (.link _) => isFalse nofun

abbrev Entry (N F L : Type*) := List N × Node F L

/-- The root is a directory with no entry of its own. -/
def lookup (entries : List (Entry N F L)) (p : List N) : Option (Node F L) :=
  if p = [] then some .dir else entries.lookup p

structure Tree (N F L : Type*) [DecidableEq N] where
  entries : List (Entry N F L)
  rooted : ∀ p n, p ≠ [] → lookup entries p = some n → lookup entries p.dropLast = some .dir

/-- What two trees agree on is what can be looked up in them. -/
def Tree.get (t : Tree N F L) (p : List N) : Option (Node F L) := lookup t.entries p

def empty : Tree N F L := ⟨[], fun p n hp h => by simp [lookup, hp] at h⟩

@[simp] theorem get_root (t : Tree N F L) : t.get [] = some .dir := by
  simp [Tree.get, lookup]

theorem get_parent {t : Tree N F L} {p : List N} (hp : p ≠ []) (h : t.get p ≠ none) :
    t.get p.dropLast = some .dir := by
  obtain ⟨n, hn⟩ := Option.ne_none_iff_exists'.mp h
  exact t.rooted p n hp hn

theorem get_above {t : Tree N F L} {p q : List N} (h : t.get p ≠ none) (hpre : q <+: p)
    (hne : q ≠ p) : t.get q = some .dir := by
  induction p using List.reverseRecOn with
  | nil => exact absurd (List.prefix_nil.mp hpre) hne
  | append_singleton p x ih =>
    have hparent : t.get p = some .dir := by
      have h := get_parent (List.concat_ne_nil x p) (by simpa using h)
      simpa using h
    rcases List.prefix_concat_iff.mp hpre with heq | hpre
    · exact absurd (by simpa using heq) hne
    · by_cases hq : q = p
      · rw [hq, hparent]
      · exact ih (by rw [hparent]; exact Option.some_ne_none _) hpre hq

section Changes

variable (t : Tree N F L) (p : List N) (n : Node F L)

theorem lookup_cons (entries : List (Entry N F L)) (q : List N) (hne : p ≠ []) :
    lookup ((p, n) :: entries) q = if q = p then some n else lookup entries q := by
  by_cases hq : q = []
  · subst hq
    simp [lookup, Ne.symm hne]
  · by_cases he : q = p
    · subst he
      simp [lookup, hq]
    · simp [lookup, hq, List.lookup_cons, he, beq_eq_false_iff_ne.mpr he]

theorem lookup_erase (entries : List (Entry N F L)) (q : List N) (hne : p ≠ []) :
    lookup (entries.filter fun e => e.1 ≠ p) q = if q = p then none else lookup entries q := by
  by_cases hq : q = []
  · subst hq
    simp [lookup, Ne.symm hne]
  · simp only [lookup, hq, if_false]
    induction entries with
    | nil => simp
    | cons e entries ih =>
      obtain ⟨k, v⟩ := e
      by_cases hk : k = p
      · subst hk
        rw [List.filter_cons_of_neg (by simp), ih]
        by_cases hqk : q = k
        · simp [hqk]
        · simp [hqk, List.lookup_cons, beq_eq_false_iff_ne.mpr hqk]
      · rw [List.filter_cons_of_pos (by simpa using hk)]
        by_cases hqk : q = k
        · subst hqk
          simp [hk]
        · simpa [List.lookup_cons, beq_eq_false_iff_ne.mpr hqk] using ih

/-- A node in an existing directory; an existing directory is not replaced. -/
def Tree.put (hp : p ≠ []) (hparent : t.get p.dropLast = some .dir) (hnode : t.get p ≠ some .dir) :
    Tree N F L where
  entries := (p, n) :: t.entries
  rooted q m hq h := by
    rw [lookup_cons _ _ _ _ hp] at h ⊢
    by_cases hdrop : q.dropLast = p
    · have hold : t.get q = some m := by
        rw [if_neg] at h
        · exact h
        · intro heq
          have hlen := congrArg List.length (heq.trans hdrop.symm)
          have hpos := List.length_pos_iff.mpr hq
          rw [List.length_dropLast] at hlen
          omega
      have habove := get_parent hq (by rw [hold]; exact Option.some_ne_none _)
      exact absurd (hdrop ▸ habove) hnode
    · rw [if_neg hdrop]
      by_cases heq : q = p
      · rw [heq]
        exact hparent
      · rw [if_neg heq] at h
        exact t.rooted q m hq h

theorem get_put {hp : p ≠ []} {hparent : t.get p.dropLast = some .dir} {hnode : t.get p ≠ some .dir}
    (q : List N) : (t.put p n hp hparent hnode).get q = if q = p then some n else t.get q :=
  lookup_cons p n t.entries q hp

def Tree.Vacant : Prop := ∀ e ∈ t.entries, e.1 ≠ [] → e.1.dropLast ≠ p

instance : Decidable (t.Vacant p) := inferInstanceAs (Decidable (∀ e ∈ t.entries, _))

theorem vacant_of_get (h : ∀ q, q ≠ [] → q.dropLast = p → t.get q = none) : t.Vacant p := by
  intro e he hne hdrop
  have h := h e.1 hne hdrop
  rw [Tree.get, lookup, if_neg hne, List.lookup_eq_none_iff] at h
  exact absurd (h e he) (by simp)

theorem get_of_vacant (h : t.Vacant p) {q : List N} (hq : q ≠ []) (hdrop : q.dropLast = p) :
    t.get q = none := by
  rw [Tree.get, lookup, if_neg hq, List.lookup_eq_none_iff]
  intro e he
  apply bne_iff_ne.mpr
  intro heq
  exact h e he (heq ▸ hq) (heq ▸ hdrop)

def Tree.erase (hp : p ≠ []) (hvacant : t.Vacant p) : Tree N F L where
  entries := t.entries.filter fun e => e.1 ≠ p
  rooted q m hq h := by
    rw [lookup_erase _ _ _ hp] at h ⊢
    by_cases heq : q = p
    · simp [heq] at h
    · rw [if_neg heq] at h
      have hdrop : q.dropLast ≠ p := fun hdrop => by
        have hnone := get_of_vacant t p hvacant hq hdrop
        rw [Tree.get, h] at hnone
        cases hnone
      rw [if_neg hdrop]
      exact t.rooted q m hq h

theorem get_erase {hp : p ≠ []} {hvacant : t.Vacant p} (q : List N) :
    (t.erase p hp hvacant).get q = if q = p then none else t.get q :=
  lookup_erase p t.entries q hp

end Changes

/-- The system calls that change a tree. A replacement is the renaming of a finished file. -/
inductive Call (F L : Type*) where
  | mkdir
  | replace (contents : F)
  | symlink (target : L)
  | unlink
  | rmdir

theorem vacant_of_leaf {t : Tree N F L} {p : List N} (h : t.get p ≠ some .dir) : t.Vacant p := by
  apply vacant_of_get
  intro q hq hdrop
  by_contra hsome
  exact h (hdrop ▸ get_parent hq hsome)

def Call.run (t : Tree N F L) (p : List N) : Call F L → Option (Tree N F L)
  | .mkdir =>
    if h : p ≠ [] ∧ t.get p.dropLast = some .dir ∧ t.get p = none then
      some (t.put p .dir h.1 h.2.1 (by simp [h.2.2]))
    else none
  | .replace contents =>
    if h : p ≠ [] ∧ t.get p.dropLast = some .dir ∧ t.get p ≠ some .dir then
      some (t.put p (.file contents) h.1 h.2.1 h.2.2)
    else none
  | .symlink target =>
    if h : p ≠ [] ∧ t.get p.dropLast = some .dir ∧ t.get p = none then
      some (t.put p (.link target) h.1 h.2.1 (by simp [h.2.2]))
    else none
  | .unlink =>
    if h : t.get p ≠ none ∧ t.get p ≠ some .dir then
      some (t.erase p (fun hp => h.2 (hp ▸ get_root t)) (vacant_of_leaf h.2))
    else none
  | .rmdir =>
    if h : p ≠ [] ∧ t.get p = some .dir ∧ t.Vacant p then some (t.erase p h.1 h.2.2)
    else none

def Call.leaves : Call F L → Option (Node F L)
  | .mkdir => some .dir
  | .replace contents => some (.file contents)
  | .symlink target => some (.link target)
  | .unlink | .rmdir => none

theorem run_get {t u : Tree N F L} {p : List N} {c : Call F L} (h : c.run t p = some u)
    (q : List N) : u.get q = if q = p then c.leaves else t.get q := by
  cases c <;> simp only [Call.run] at h <;> split at h <;> cases h
  · exact get_put _ _ _ _
  · exact get_put _ _ _ _
  · exact get_put _ _ _ _
  · exact get_erase _ _ _
  · exact get_erase _ _ _

def Call.Allowed (t : Tree N F L) (p : List N) : Call F L → Prop
  | .mkdir | .symlink _ => p ≠ [] ∧ t.get p.dropLast = some .dir ∧ t.get p = none
  | .replace _ => p ≠ [] ∧ t.get p.dropLast = some .dir ∧ t.get p ≠ some .dir
  | .unlink => t.get p ≠ none ∧ t.get p ≠ some .dir
  | .rmdir =>
    p ≠ [] ∧ t.get p = some .dir ∧ ∀ q, q ≠ [] → q.dropLast = p → t.get q = none

theorem run_of_allowed {t : Tree N F L} {p : List N} {c : Call F L} (h : c.Allowed t p) :
    ∃ u, c.run t p = some u := by
  cases c with
  | mkdir => exact ⟨_, dif_pos h⟩
  | replace contents => exact ⟨_, dif_pos h⟩
  | symlink target => exact ⟨_, dif_pos h⟩
  | unlink => exact ⟨_, dif_pos h⟩
  | rmdir => exact ⟨_, dif_pos ⟨h.1, h.2.1, vacant_of_get t p h.2.2⟩⟩

end FileTree
