import Mathlib.Tactic.Common

/-! A cell whose content is taken once, under a lock, by one of several parties, which then releases
it outside the lock. -/
namespace CustodyCell

variable {ι : Type*}

inductive Custody (ι : Type*) where
  | cell
  | held (party : ι)
  | released
  deriving DecidableEq

structure Respects (party : ι) (c c' : Custody ι) : Prop where
  held : ∀ other, other ≠ party → c = .held other → c' = .held other
  unheld : ∀ other, other ≠ party → c ≠ .held other → c' ≠ .held other
  released : c = .released → c' = .released
  closed : c ≠ .cell → c' ≠ .cell

variable {party : ι} {c c' c'' : Custody ι}

theorem Respects.refl (party : ι) (c : Custody ι) : Respects party c c where
  held _ _ h := h
  unheld _ _ h := h
  released h := h
  closed h := h

theorem Respects.trans (h : Respects party c c') (h' : Respects party c' c'') :
    Respects party c c'' where
  held other hother hheld := h'.held other hother (h.held other hother hheld)
  unheld other hother hheld := h'.unheld other hother (h.unheld other hother hheld)
  released hreleased := h'.released (h.released hreleased)
  closed hclosed := h'.closed (h.closed hclosed)

theorem Respects.take (party : ι) (h : c = .cell) : Respects party c (.held party) := by
  subst h
  constructor
  · intro other _ hheld
    cases hheld
  · intro other hother _ hheld
    exact hother (Custody.held.inj hheld).symm
  · intro hreleased
    cases hreleased
  · intro _ hcell
    cases hcell

theorem Respects.release (h : c = .held party) : Respects party c .released := by
  subst h
  constructor
  · intro other hother hheld
    exact absurd (Custody.held.inj hheld).symm hother
  · intro other _ _ hheld
    cases hheld
  · intro _
    rfl
  · intro _ hcell
    cases hcell

end CustodyCell
