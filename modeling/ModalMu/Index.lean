import ModalMu.Fault

/-!
# Indexes

States, labels, edges and binders are numbered by indexes: naturals below `2 ^ 64 - 1`. The
greatest 64-bit number is left over, so that "no index" fits into a word as well.

* `Index.ofNat` — the index with a given number, refused from `2 ^ 64 - 1` on;
* `Index.refusal` — the fault of a number that cannot join a set;
* indexes are ordered by their numbers, and `0` is the one a fresh slot holds.
-/

namespace ModalMu

/-- The first number that is no index. -/
def Index.bound : Nat := 0xFFFFFFFFFFFFFFFF

/-- A number below `2 ^ 64 - 1`. -/
structure Index where
  /-- the number itself -/
  toNat : Nat
  /-- it is an index -/
  isLt : toNat < Index.bound
  deriving DecidableEq

namespace Index

/-- **The index with number `n`**, if there is one. -/
def ofNat (n : Nat) : Except Fault Index :=
  if h : n < bound then .ok ⟨n, h⟩ else .error .indexOverflow

instance : Inhabited Index := ⟨⟨0, by decide⟩⟩

instance : Ord Index := ⟨fun i j => compare i.toNat j.toNat⟩

/-- An index is shown as its number. -/
def render (i : Index) : String := toString i.toNat

/-- Why a number is refused as a new member: because it is no index at all, or else because it
lies outside of the universe. -/
def refusal (n : Nat) : Fault := if n < bound then .outsideUniverse n else .indexOverflow

theorem ofNat_eq_ok_iff {n : Nat} {i : Index} : ofNat n = .ok i ↔ i.toNat = n := by
  obtain ⟨m, hm⟩ := i
  by_cases h : n < bound
  · simp [ofNat, h, eq_comm]
  · simp only [ofNat, h, dite_false, reduceCtorEq, false_iff]
    rintro rfl
    exact h hm

theorem ofNat_eq_error_iff {n : Nat} {f : Fault} :
    ofNat n = .error f ↔ f = .indexOverflow ∧ bound ≤ n := by
  by_cases h : n < bound
  · simp [ofNat, h]
  · simp [ofNat, h, Nat.le_of_not_lt h, eq_comm]

end Index

end ModalMu
