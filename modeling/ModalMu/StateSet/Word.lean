/-!
# Words

A word holds 64 bits, one for each of 64 consecutive states. Everything that is done to a word is
stated by what it does to `test`, the view of a word as the set of its bits:

* `test_or`, `test_and`, `test_not` — the word operations are the Boolean ones, bit by bit;
* `test_bit`, `test_low` — a word with one bit, and a word with the lowest bits;
* `ext` — a word is determined by its bits.

The bits that are set can be listed (`ones`) and counted (`population`).

A bit is named by any number with the right remainder modulo 64.
-/

namespace ModalMu

namespace Word

/-- The word whose only bit is bit `i`. -/
def bit (i : Nat) : UInt64 := 1 <<< UInt64.ofNat (i % 64)

/-- **Whether bit `i` is set.** -/
def test (w : UInt64) (i : Nat) : Bool := w &&& bit i != 0

/-- The word of the lowest `n` bits, for `n` at most 64. -/
def low (n : Nat) : UInt64 := UInt64.ofNat (1 <<< n - 1)

theorem getLsbD_bit (i j : Nat) :
    (bit i).toBitVec.getLsbD j = decide (i % 64 = j) := by
  have hi : i % 64 < 64 := Nat.mod_lt _ (by decide)
  have hshift : (BitVec.ofNat 64 (i % 64) % 64).toNat = i % 64 := by
    have hwidth : (64 : BitVec 64).toNat = 64 := rfl
    rw [BitVec.toNat_umod, BitVec.toNat_ofNat, hwidth]
    omega
  rw [bit, UInt64.toBitVec_shiftLeft, UInt64.toBitVec_ofNat', BitVec.shiftLeft_eq', hshift,
    UInt64.toBitVec_one, BitVec.getLsbD_shiftLeft, BitVec.getLsbD_one]
  by_cases h : i % 64 = j
  · subst h
    simp [hi]
  · have : ¬(j < 64 ∧ i % 64 ≤ j ∧ j - i % 64 = 0) := by omega
    simp only [h, decide_false, Bool.eq_false_iff]
    simpa using this

/-- `test` reads the bit with the index's remainder. -/
theorem test_eq_getLsbD (w : UInt64) (i : Nat) : test w i = w.toBitVec.getLsbD (i % 64) := by
  have hzero : w &&& bit i = 0 ↔ w.toBitVec.getLsbD (i % 64) = false := by
    rw [← UInt64.toBitVec_inj, UInt64.toBitVec_and]
    constructor
    · intro h
      have hbit := congrArg (fun v => BitVec.getLsbD v (i % 64)) h
      simpa [BitVec.getLsbD_and, getLsbD_bit] using hbit
    · intro h
      apply BitVec.eq_of_getLsbD_eq
      intro j _
      rw [BitVec.getLsbD_and, getLsbD_bit]
      by_cases hj : i % 64 = j
      · simp [← hj, h]
      · simp [hj]
  cases hw : w.toBitVec.getLsbD (i % 64)
  · simp [test, hzero.2 hw]
  · simp only [test, bne_iff_ne, ne_eq]
    intro h
    rw [hzero.1 h] at hw
    cases hw

@[simp] theorem test_zero (i : Nat) : test 0 i = false := by
  simp [test_eq_getLsbD]

@[simp] theorem test_or (v w : UInt64) (i : Nat) : test (v ||| w) i = (test v i || test w i) := by
  simp [test_eq_getLsbD]

@[simp] theorem test_and (v w : UInt64) (i : Nat) : test (v &&& w) i = (test v i && test w i) := by
  simp [test_eq_getLsbD]

@[simp] theorem test_not (w : UInt64) (i : Nat) : test (~~~w) i = !test w i := by
  have hi : i % 64 < 64 := Nat.mod_lt _ (by decide)
  simp [test_eq_getLsbD, hi]

@[simp] theorem test_bit (i j : Nat) : test (bit i) j = decide (i % 64 = j % 64) := by
  rw [test_eq_getLsbD, getLsbD_bit]

@[simp] theorem test_low (n i : Nat) : test (low n) i = decide (i % 64 < n) := by
  have hi : i % 64 < 64 := Nat.mod_lt _ (by decide)
  rw [test_eq_getLsbD, low, Nat.one_shiftLeft, UInt64.toBitVec_ofNat', BitVec.getLsbD_ofNat,
    Nat.testBit_two_pow_sub_one]
  simp [hi]

/-- **A word is determined by its bits.** -/
theorem ext {v w : UInt64} (h : ∀ i, i < 64 → test v i = test w i) : v = w := by
  rw [← UInt64.toBitVec_inj]
  apply BitVec.eq_of_getLsbD_eq
  intro i hi
  have hbit := h i hi
  rwa [test_eq_getLsbD, test_eq_getLsbD, Nat.mod_eq_of_lt hi] at hbit

/-- A word is zero exactly when no bit is set. -/
theorem eq_zero_iff {w : UInt64} : w = 0 ↔ ∀ i, i < 64 → test w i = false :=
  ⟨fun h i _ => by simp [h], fun h => ext fun i hi => by simp [h i hi]⟩

/-! ### The bits that are set -/

/-- The lowest bit that is set, or 64 if none is. -/
def lowest (w : UInt64) : Nat := w.toBitVec.ctz.toNat

theorem toNat_pos {w : UInt64} (h : w ≠ 0) : 0 < w.toNat :=
  Nat.pos_of_ne_zero fun h0 => h (UInt64.toNat_inj.1 h0)

/-- Taking one off does not wrap around. -/
theorem toNat_sub_one {w : UInt64} (h : w ≠ 0) : (w - 1).toNat = w.toNat - 1 :=
  UInt64.toNat_sub_of_le _ _ (UInt64.le_iff_toNat_le.2 (toNat_pos h))

/-- Clearing the lowest bit makes a word smaller. -/
theorem and_sub_one_lt {w : UInt64} (h : w ≠ 0) : (w &&& (w - 1)).toNat < w.toNat := by
  have hpos := toNat_pos h
  have hle : (w &&& (w - 1)).toNat ≤ w.toNat - 1 := by
    rw [UInt64.toNat_and, toNat_sub_one h]
    exact Nat.and_le_right
  omega

/-- **The bits that are set, ascending**: the lowest one is taken and cleared until none is left. -/
def ones (w : UInt64) : List Nat :=
  if h : w = 0 then [] else lowest w :: ones (w &&& (w - 1))
termination_by w.toNat
decreasing_by exact and_sub_one_lt h

/-- **How many bits are set.** -/
def population (w : UInt64) : Nat := w.toBitVec.cpop.toNat

end Word

end ModalMu
