import ModalMu.Formula.Basic
import Mathlib.Data.Set.Card
import Mathlib.Order.CompletePartialOrder
import Mathlib.Order.FixedPoints

/-!
# Fixpoints of either kind

Least fixpoints are reached from below and greatest ones from above. To say everything once, sets
are compared along the direction in which the approximations of a kind move:

* `Kind.Before`, `Kind.StrictlyBefore` — inclusion for the least kind, containment for the greatest;
* `Kind.fixpoint` — the intersection of all pre-fixpoints, or the union of all post-fixpoints;
  `map_fixpoint` and `fixpoint_before` are the theorem of Knaster and Tarski;
* `Kind.LeadsTo` — the invariant of a fixpoint loop: the next round moves on, and the fixpoint has
  not been passed. A stable approximation of this sort is the fixpoint (`LeadsTo.eq_fixpoint`);
* `Kind.remaining` — how many states can still join or leave, the measure of a loop.
-/

namespace ModalMu

namespace Kind

variable {α : Type} {k : Kind}

/-! ### The direction of a kind -/

/-- **`A` lies before `B`** on the way of an approximation of the given kind. -/
def Before : Kind → Set α → Set α → Prop
  | least, A, B => A ⊆ B
  | greatest, A, B => B ⊆ A

theorem Before.refl (A : Set α) : k.Before A A := by
  cases k <;> exact subset_rfl

theorem Before.trans {A B C : Set α} (h₁ : k.Before A B) (h₂ : k.Before B C) : k.Before A C := by
  cases k with
  | least => exact Set.Subset.trans h₁ h₂
  | greatest => exact Set.Subset.trans h₂ h₁

theorem Before.antisymm {A B : Set α} (h₁ : k.Before A B) (h₂ : k.Before B A) : A = B := by
  cases k with
  | least => exact Set.Subset.antisymm h₁ h₂
  | greatest => exact Set.Subset.antisymm h₂ h₁

/-- **`A` lies strictly before `B`**: it is properly contained in it, or properly contains it. -/
def StrictlyBefore : Kind → Set α → Set α → Prop
  | least, A, B => A ⊂ B
  | greatest, A, B => B ⊂ A

theorem Before.strictlyBefore {A B : Set α} (h : k.Before A B) (hne : B ≠ A) :
    k.StrictlyBefore A B := by
  cases k with
  | least => exact ssubset_of_subset_of_ne h hne.symm
  | greatest => exact ssubset_of_subset_of_ne h hne

/-- A monotone operator keeps the order, whichever the direction. -/
theorem Before.map {F : Set α → Set α} (hF : Monotone F) {A B : Set α} (h : k.Before A B) :
    k.Before (F A) (F B) := by
  cases k <;> exact hF h

/-- Where approximations start. -/
def start : Kind → Set α
  | least => ∅
  | greatest => Set.univ

theorem start_before (A : Set α) : k.Before k.start A := by
  cases k with
  | least => exact Set.empty_subset A
  | greatest => exact Set.subset_univ A

/-! ### The fixpoint -/

/-- **The fixpoint of an operator**: the intersection of all sets that it shrinks, or the union of
all sets that it enlarges. -/
def fixpoint : Kind → (Set α → Set α) → Set α
  | least, F => ⋂₀ {S | F S ⊆ S}
  | greatest, F => ⋃₀ {S | S ⊆ F S}

/-- It is a fixpoint. -/
theorem map_fixpoint {F : Set α → Set α} (hF : Monotone F) :
    F (k.fixpoint F) = k.fixpoint F := by
  cases k with
  | least => exact OrderHom.map_lfp ⟨F, hF⟩
  | greatest => exact OrderHom.map_gfp ⟨F, hF⟩

/-- It comes before every other fixpoint. -/
theorem fixpoint_before {F : Set α → Set α} {A : Set α} (h : F A = A) :
    k.Before (k.fixpoint F) A := by
  cases k with
  | least => exact Set.sInter_subset_of_mem h.subset
  | greatest => exact Set.subset_sUnion_of_mem h.superset

/-- Fixpoints move with their operators. -/
theorem fixpoint_subset {F G : Set α → Set α} (h : ∀ A, F A ⊆ G A) :
    k.fixpoint F ⊆ k.fixpoint G := by
  cases k with
  | least => exact Set.sInter_subset_sInter fun S hS => (h S).trans hS
  | greatest => exact Set.sUnion_subset_sUnion fun S hS => Set.Subset.trans hS (h S)

theorem Before.fixpoint {F G : Set α → Set α} (h : ∀ A, k.Before (F A) (G A)) :
    k.Before (k.fixpoint F) (k.fixpoint G) := by
  cases k with
  | least => exact fixpoint_subset h
  | greatest => exact fixpoint_subset h

/-! ### Approximations -/

/-- **An approximation on its way to the fixpoint.** -/
structure LeadsTo (k : Kind) (F : Set α → Set α) (A : Set α) : Prop where
  /-- the next round moves on -/
  moves : k.Before A (F A)
  /-- the fixpoint has not been passed -/
  bounded : k.Before A (k.fixpoint F)

namespace LeadsTo

variable {F G : Set α → Set α} {A : Set α}

protected theorem start : k.LeadsTo F k.start := ⟨start_before _, start_before _⟩

/-- A round keeps the invariant. -/
theorem next (hF : Monotone F) (h : k.LeadsTo F A) : k.LeadsTo F (F A) := by
  refine ⟨h.moves.map hF, ?_⟩
  have := h.bounded.map hF
  rwa [map_fixpoint hF] at this

/-- **Where the loop comes to rest is the fixpoint.** -/
theorem eq_fixpoint (h : k.LeadsTo F A) (hrest : F A = A) : A = k.fixpoint F :=
  h.bounded.antisymm (fixpoint_before hrest)

protected theorem fixpoint (hF : Monotone F) : k.LeadsTo F (k.fixpoint F) := by
  refine ⟨?_, Before.refl _⟩
  rw [map_fixpoint hF]
  exact Before.refl _

/-- An approximation stays one when its operator moves in the direction of its kind. -/
theorem mono (h : k.LeadsTo F A) (hFG : ∀ B, k.Before (F B) (G B)) : k.LeadsTo G A :=
  ⟨h.moves.trans (hFG A), h.bounded.trans (Before.fixpoint hFG)⟩

end LeadsTo

/-! ### The measure of a loop -/

/-- How many states can still join (or leave). -/
noncomputable def remaining {n : Nat} : Kind → Set (Fin n) → Nat
  | least, A => Aᶜ.ncard
  | greatest, A => A.ncard

theorem remaining_le {n : Nat} (A : Set (Fin n)) : k.remaining A ≤ n := by
  have hcard : ∀ B : Set (Fin n), B.ncard ≤ n := fun B => by
    have := Set.ncard_le_card B
    rwa [Nat.card_fin] at this
  cases k with
  | least => exact hcard Aᶜ
  | greatest => exact hcard A

/-- Every strict move uses up a state. -/
theorem StrictlyBefore.remaining_lt {n : Nat} {A B : Set (Fin n)} (h : k.StrictlyBefore A B) :
    k.remaining B < k.remaining A := by
  cases k with
  | least =>
    have hss : Bᶜ ⊂ Aᶜ := compl_lt_compl_iff_lt.2 h
    exact Set.ncard_lt_ncard hss
  | greatest => exact Set.ncard_lt_ncard h

end Kind

end ModalMu
