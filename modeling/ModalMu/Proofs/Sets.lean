import ModalMu.StateSet.Basic
import Mathlib.Data.Set.Lattice

/-!
# State sets as sets

The mathematical reading of a packed set over `n` states is a `Set (Fin n)`:

* `toSet` — the reading; over one universe it loses nothing (`toSet_inj`);
* `Represents` — a packed set over `n` states reads as a given set; `represents_empty`,
  `represents_full`, `Represents.union?`, `Represents.inter?` say so of the operations;
* `intersects_iff`, `subset_iff` — what the two comparisons of words say about members, over any
  two universes; `subset_iff_of_univ_eq` over a single one.
-/

namespace ModalMu

namespace StateSet

variable {n : Nat}

/-! ### The reading -/

/-- **The members among the states `0, …, n - 1`.** -/
def toSet (n : Nat) (s : StateSet) : Set (Fin n) := {i | i.val ∈ s}

@[simp] theorem mem_toSet {s : StateSet} {i : Fin n} : i ∈ s.toSet n ↔ i.val ∈ s := Iff.rfl

/-- Over one universe a set is determined by its reading. -/
theorem toSet_inj {a b : StateSet} (ha : a.univ = n) (hb : b.univ = n) :
    a.toSet n = b.toSet n ↔ a = b := by
  refine ⟨fun h => ext (ha.trans hb.symm) fun i => ?_, fun h => h ▸ rfl⟩
  by_cases hi : i < n
  · have hmem : i ∈ a ↔ i ∈ b := by
      have := Set.ext_iff.1 h ⟨i, hi⟩
      simpa only [mem_toSet] using this
    rw [Bool.eq_iff_iff]
    exact hmem
  · rw [contains_of_le (by omega), contains_of_le (by omega)]

/-- **A packed set represents a set of states**: its universe and its members are the right ones. -/
structure Represents (s : StateSet) (A : Set (Fin n)) : Prop where
  /-- it is over the `n` states -/
  univ : s.univ = n
  /-- it has these members -/
  toSet : s.toSet n = A

namespace Represents

variable {a b : StateSet} {A B : Set (Fin n)}

protected theorem self (h : a.univ = n) : a.Represents (a.toSet n) := ⟨h, rfl⟩

protected theorem mem_iff (h : a.Represents A) (i : Fin n) : i.val ∈ a ↔ i ∈ A := by
  rw [← h.toSet, mem_toSet]

/-- A set of states has one representation. -/
theorem unique (ha : a.Represents A) (hb : b.Represents A) : a = b :=
  (toSet_inj ha.univ hb.univ).1 (ha.toSet.trans hb.toSet.symm)

theorem eq_iff (ha : a.Represents A) (hb : b.Represents B) : a = b ↔ A = B := by
  rw [← toSet_inj ha.univ hb.univ, ha.toSet, hb.toSet]

/-- The union of two sets over one universe is never refused. -/
theorem union? (ha : a.Represents A) (hb : b.Represents B) :
    ∃ s, a.union? b = .ok s ∧ s.Represents (A ∪ B) := by
  have h : a.univ = b.univ := ha.univ.trans hb.univ.symm
  refine ⟨a.union b h, dif_pos h, ha.univ, ?_⟩
  rw [← ha.toSet, ← hb.toSet]
  ext i
  simp [mem_iff]

/-- The intersection of two sets over one universe is never refused. -/
theorem inter? (ha : a.Represents A) (hb : b.Represents B) :
    ∃ s, a.inter? b = .ok s ∧ s.Represents (A ∩ B) := by
  have h : a.univ = b.univ := ha.univ.trans hb.univ.symm
  refine ⟨a.inter b h, dif_pos h, ha.univ, ?_⟩
  rw [← ha.toSet, ← hb.toSet]
  ext i
  simp [mem_iff]

end Represents

theorem represents_empty : (empty n).Represents (∅ : Set (Fin n)) := by
  refine ⟨rfl, ?_⟩
  ext i
  simp [mem_iff]

theorem represents_full : (full n).Represents (Set.univ : Set (Fin n)) := by
  refine ⟨rfl, ?_⟩
  ext i
  simp [mem_iff]

theorem mem_insert {s : StateSet} {i j : Nat} (h : i < s.univ) :
    j ∈ s.insert i ↔ j = i ∨ j ∈ s := by
  rw [mem_iff, contains_insert h, Bool.or_eq_true, decide_eq_true_eq, mem_iff, eq_comm]

theorem mem_erase {s : StateSet} {i j : Nat} : j ∈ s.erase i ↔ j ≠ i ∧ j ∈ s := by
  rw [mem_iff, contains_erase, Bool.and_eq_true, Bool.not_eq_true', decide_eq_false_iff_not,
    mem_iff, ne_comm]

/-! ### Comparing word by word -/

/-- Bit `i` of word `k` tells about state `64 * k + i`. -/
theorem testAt_word {words : Array UInt64} {k i : Nat} (hk : k < words.size) (hi : i < 64) :
    testAt words (64 * k + i) = Word.test words[k] i := by
  have hdiv : (64 * k + i) / 64 = k := by omega
  have hmod : (64 * k + i) % 64 = i % 64 := by omega
  simp only [testAt, hdiv, Array.getElem?_eq_getElem hk, Word.test_eq_getLsbD, hmod]

/-- A member has its word, and its bit is set there. -/
theorem mem_iff_word {s : StateSet} {i : Nat} :
    i ∈ s ↔ ∃ h : i / 64 < s.words.size, Word.test s.words[i / 64] (i % 64) = true := by
  have hsplit : 64 * (i / 64) + i % 64 = i := by omega
  have hmod : i % 64 < 64 := Nat.mod_lt _ (by decide)
  refine ⟨?_, ?_⟩
  · intro hi
    refine ⟨word_lt (lt_of_mem hi), ?_⟩
    rw [← testAt_word (word_lt (lt_of_mem hi)) hmod, hsplit]
    exact hi
  · rintro ⟨hlt, htest⟩
    rw [← testAt_word hlt hmod, hsplit] at htest
    exact htest

/-- **Two sets intersect exactly when they share a member**, over any two universes. -/
theorem intersects_iff {a b : StateSet} : a.intersects b = true ↔ ∃ i, i ∈ a ∧ i ∈ b := by
  rw [intersects, Array.any_eq_true]
  simp only [Array.size_zip, Array.getElem_zip, bne_iff_ne]
  refine ⟨?_, ?_⟩
  · rintro ⟨k, hk, hne⟩
    -- a word that is not zero has a bit set, which belongs to a common state
    have hbit : ∃ i, i < 64 ∧ Word.test (a.words[k] &&& b.words[k]) i = true := by
      by_contra hnone
      push Not at hnone
      exact hne (Word.eq_zero_iff.2 fun i hi => Bool.eq_false_iff.2 (hnone i hi))
    obtain ⟨i, hi, htest⟩ := hbit
    rw [Word.test_and, Bool.and_eq_true] at htest
    refine ⟨64 * k + i, ?_, ?_⟩
    · rw [mem_iff, contains, testAt_word (by omega) hi]
      exact htest.1
    · rw [mem_iff, contains, testAt_word (by omega) hi]
      exact htest.2
  · rintro ⟨i, ha, hb⟩
    obtain ⟨hla, hta⟩ := mem_iff_word.1 ha
    obtain ⟨hlb, htb⟩ := mem_iff_word.1 hb
    refine ⟨i / 64, by omega, fun hzero => ?_⟩
    have hbit := Word.eq_zero_iff.1 hzero (i % 64) (Nat.mod_lt _ (by decide))
    rw [Word.test_and, hta, htb] at hbit
    cases hbit

/-- **What the word-wise inclusion says**: every member that lies in a word of the other set belongs
to it. -/
theorem subset_iff {a b : StateSet} :
    a.subset b = true ↔ ∀ i, i ∈ a → i < 64 * wordCount b.univ → i ∈ b := by
  rw [subset, Array.all_eq_true]
  simp only [Array.size_zip, Array.getElem_zip, beq_iff_eq]
  refine ⟨?_, ?_⟩
  · intro h i ha hlt
    obtain ⟨hla, hta⟩ := mem_iff_word.1 ha
    have hlb : i / 64 < b.words.size := by
      rw [b.size_words]
      omega
    refine mem_iff_word.2 ⟨hlb, ?_⟩
    have hbit := Word.eq_zero_iff.1 (h (i / 64) (by omega)) (i % 64) (Nat.mod_lt _ (by decide))
    rw [Word.test_and, hta, Word.test_not] at hbit
    simpa using hbit
  · intro h k hk
    refine Word.eq_zero_iff.2 fun i hi => ?_
    rw [Word.test_and, Word.test_not, Bool.and_eq_false_iff, Bool.not_eq_false']
    cases hta : Word.test a.words[k] i
    · exact Or.inl rfl
    · right
      have ha : 64 * k + i ∈ a := by
        rw [mem_iff, contains, testAt_word (by omega) hi]
        exact hta
      have hb : 64 * k + i ∈ b := h _ ha (by
        rw [← b.size_words]
        omega)
      rwa [mem_iff, contains, testAt_word (by omega) hi] at hb

/-- Over one universe the word-wise inclusion is inclusion. -/
theorem subset_iff_of_univ_eq {a b : StateSet} (h : a.univ = b.univ) :
    a.subset b = true ↔ ∀ i, i ∈ a → i ∈ b := by
  rw [subset_iff]
  refine forall₂_congr fun i hi => ?_
  have hlt : i < 64 * wordCount b.univ := by
    have := lt_of_mem hi
    rw [wordCount]
    omega
  exact ⟨fun hb => hb hlt, fun hb _ => hb⟩

end StateSet

end ModalMu
