import Mathlib.Data.List.Sort
import Mathlib.Data.List.Nodup
import Mathlib.Order.Basic

/-! Collections listed by a key. What is added above every key that is there extends the list,
and never reorders it. -/
namespace OrderedExtension

variable {α K : Type*} [LinearOrder K] {key : α → K} {old new : List α}

def ordered (key : α → K) (xs : List α) : List α := xs.insertionSort fun a b => key a ≤ key b

theorem ordered_perm (key : α → K) (xs : List α) : (ordered key xs).Perm xs :=
  List.perm_insertionSort _ xs

theorem ordered_pairwise (key : α → K) (xs : List α) :
    (ordered key xs).Pairwise fun a b => key a ≤ key b := by
  have : Std.Total fun a b : α => key a ≤ key b := ⟨fun a b => le_total (key a) (key b)⟩
  have : IsTrans α fun a b => key a ≤ key b := ⟨fun _ _ _ h k => le_trans h k⟩
  exact List.pairwise_insertionSort _ xs

omit [LinearOrder K] in
theorem key_inj (hkeys : (new.map key).Nodup) {a b : α} (ha : a ∈ new) (hb : b ∈ new)
    (h : key a = key b) : a = b := List.inj_on_of_nodup_map hkeys ha hb h

variable [DecidableEq α]

/-- `new` holds `old` and beside it only larger keys. -/
structure Extends (key : α → K) (old new : List α) : Prop where
  kept : ∀ a ∈ old, a ∈ new
  distinct : (new.map key).Nodup
  above : ∀ a ∈ new, a ∉ old → ∀ b ∈ old, key b < key a

theorem Extends.perm (h : Extends key old new) (hold : old.Nodup) :
    new.Perm (old ++ new.filter fun a => a ∉ old) := by
  have hnew : new.Nodup := List.Nodup.of_map _ h.distinct
  refine (List.perm_ext_iff_of_nodup hnew ?_).mpr fun a => ?_
  · refine List.Nodup.append hold (hnew.filter _) ?_
    intro a ha hadded
    exact of_decide_eq_true (List.mem_filter.mp hadded).2 ha
  · rw [List.mem_append, List.mem_filter, decide_eq_true_eq]
    constructor
    · intro ha
      by_cases hmem : a ∈ old
      · exact .inl hmem
      · exact .inr ⟨ha, hmem⟩
    · rintro (ha | ha)
      · exact h.kept a ha
      · exact ha.1

theorem Extends.ordered_within (h : Extends key old new) (hold : old.Nodup) :
    ordered key old <+: ordered key new := by
  refine ⟨ordered key (new.filter fun a => a ∉ old), ?_⟩
  have hadded : ∀ a ∈ ordered key (new.filter fun a => a ∉ old), a ∈ new ∧ a ∉ old := by
    intro a ha
    have hmem := (ordered_perm key _).mem_iff.mp ha
    exact ⟨(List.mem_filter.mp hmem).1, of_decide_eq_true (List.mem_filter.mp hmem).2⟩
  have hsorted : (ordered key old ++ ordered key (new.filter fun a => a ∉ old)).Pairwise
      fun a b => key a ≤ key b := by
    rw [List.pairwise_append]
    refine ⟨ordered_pairwise key _, ordered_pairwise key _, fun a ha b hb => ?_⟩
    obtain ⟨hnew, hout⟩ := hadded b hb
    exact le_of_lt (h.above b hnew hout a ((ordered_perm key _).mem_iff.mp ha))
  have hperm : (ordered key old ++ ordered key (new.filter fun a => a ∉ old)).Perm
      (ordered key new) :=
    ((ordered_perm key old).append (ordered_perm key _)).trans
      ((h.perm hold).symm.trans (ordered_perm key new).symm)
  refine hperm.eq_of_pairwise ?_ hsorted (ordered_pairwise key new)
  intro a b ha hb hle hge
  have hinside := (hperm.mem_iff.trans (ordered_perm key new).mem_iff).mp ha
  exact key_inj h.distinct hinside ((ordered_perm key new).mem_iff.mp hb) (le_antisymm hle hge)

/-- Along a chain of extensions every list is a prefix of every later one. -/
theorem chain_ordered {lists : List (List α)} (hnodup : ∀ xs ∈ lists, xs.Nodup)
    (h : lists.IsChain (Extends key)) :
    lists.Pairwise fun xs ys => ordered key xs <+: ordered key ys := by
  have hchain : lists.IsChain fun xs ys => ordered key xs <+: ordered key ys := by
    induction h with
    | nil => exact .nil
    | singleton xs => exact .singleton xs
    | cons_cons hstep _ ih =>
      refine .cons_cons (hstep.ordered_within (hnodup _ List.mem_cons_self)) (ih ?_)
      exact fun xs hxs => hnodup xs (List.mem_cons_of_mem _ hxs)
  have : IsTrans (List α) fun xs ys => ordered key xs <+: ordered key ys :=
    ⟨fun _ _ _ h k => h.trans k⟩
  exact List.isChain_iff_pairwise.mp hchain

end OrderedExtension
