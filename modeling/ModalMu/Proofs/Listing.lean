import Mathlib.Data.List.Sort
import ModalMu.Proofs.Registers
import ModalMu.StateSet.Members

/-!
# Listing and counting members

A set is listed word by word, and a word bit by bit: the lowest bit is taken and cleared until the
word is zero. Nothing is lost and nothing comes twice:

* `Word.test_and_sub_one` — **one round**: of the bits of a word exactly the lowest is cleared;
* `Word.ones_eq_filter` — **all rounds**: a word lists the bits that are set, in order; there are
  `Word.population` of them (`Word.length_ones`);
* `StateSet.toList_eq_filter` — **all words**: a set lists the states of its universe that belong
  to it, in order;
* `StateSet.listing_exact` — what this means for the size of a set, for the two extreme cases, and
  for the set that is made out of the list.
-/

namespace ModalMu

/-! ### The bits of a word -/

namespace Word

/-- A number is a multiple of the power above its lowest bit, and that bit. -/
theorem exists_eq_add_two_pow {x t : Nat} (hlow : ∀ i < t, x.testBit i = false)
    (hbit : x.testBit t = true) : ∃ q, x = 2 ^ (t + 1) * q + 2 ^ t := by
  have hzero : x % 2 ^ t = 0 := by
    refine Nat.eq_of_testBit_eq fun i => ?_
    rw [Nat.testBit_mod_two_pow, Nat.zero_testBit]
    by_cases hi : i < t <;> simp [hi, hlow]
  have hodd : x / 2 ^ t % 2 = 1 := by
    rwa [Nat.testBit_eq_decide_div_mod_eq, decide_eq_true_eq] at hbit
  refine ⟨x / 2 ^ t / 2, ?_⟩
  calc x = 2 ^ t * (x / 2 ^ t) := (Nat.mul_div_cancel' (Nat.dvd_of_mod_eq_zero hzero)).symm
    _ = 2 ^ t * (2 * (x / 2 ^ t / 2) + 1) := by congr 1; omega
    _ = 2 ^ (t + 1) * (x / 2 ^ t / 2) + 2 ^ t := by
      rw [Nat.pow_succ', Nat.mul_add, Nat.mul_one, Nat.mul_assoc, Nat.mul_left_comm]

/-- **A number and the one before it** have the bits of the number in common, except its lowest. -/
theorem testBit_and_sub_one {x t : Nat} (hlow : ∀ i < t, x.testBit i = false)
    (hbit : x.testBit t = true) (i : Nat) :
    (x &&& (x - 1)).testBit i = (x.testBit i && decide (i ≠ t)) := by
  obtain ⟨q, hq⟩ := exists_eq_add_two_pow hlow hbit
  have hpos : 0 < 2 ^ t := Nat.two_pow_pos t
  have hpow : 2 ^ (t + 1) = 2 * 2 ^ t := Nat.pow_succ'
  have hpred : x - 1 = 2 ^ (t + 1) * q + (2 ^ t - 1) := by omega
  rw [Nat.testBit_and, hpred, hq, Nat.testBit_two_pow_mul_add _ (by omega),
    Nat.testBit_two_pow_mul_add _ (by omega), Nat.testBit_two_pow, Nat.testBit_two_pow_sub_one]
  -- up to `t` the two numbers share no bit, and above it they are the same
  split
  · rcases Nat.lt_or_ge i t with hi | hi
    · simp [hi, Nat.ne_of_gt hi]
    · simp [show i = t by omega]
  · simp [show i ≠ t by omega]

variable {w : UInt64} {i : Nat}

theorem toBitVec_ne_zero (h : w ≠ 0) : w.toBitVec ≠ 0#64 := fun h0 =>
  h (UInt64.toBitVec_inj.1 h0)

/-- A word that is not zero has a lowest bit. -/
theorem lowest_lt (h : w ≠ 0) : lowest w < 64 := by
  have hlt := BitVec.ctz_lt_iff_ne_zero.2 (toBitVec_ne_zero h)
  simpa [lowest, BitVec.lt_def] using hlt

theorem test_lowest (h : w ≠ 0) : test w (lowest w) = true := by
  rw [test_eq_getLsbD, Nat.mod_eq_of_lt (lowest_lt h)]
  exact BitVec.getLsbD_true_ctz_of_ne_zero (toBitVec_ne_zero h)

/-- No bit is set below the lowest one. -/
theorem test_of_lt_lowest (h : w ≠ 0) (hi : i < lowest w) : test w i = false := by
  rw [test_eq_getLsbD, Nat.mod_eq_of_lt (hi.trans (lowest_lt h))]
  exact BitVec.getLsbD_false_of_lt_ctz hi

theorem test_eq_testBit (hi : i < 64) : test w i = w.toNat.testBit i := by
  rw [test_eq_getLsbD, Nat.mod_eq_of_lt hi]
  rfl

/-- **One round clears the lowest bit and no other.** -/
theorem test_and_sub_one (h : w ≠ 0) (hi : i < 64) :
    test (w &&& (w - 1)) i = (test w i && decide (i ≠ lowest w)) := by
  rw [test_eq_testBit hi, test_eq_testBit hi, UInt64.toNat_and, toNat_sub_one h]
  refine testBit_and_sub_one (fun j hj => ?_) ?_ i
  · rw [← test_eq_testBit (hj.trans (lowest_lt h))]
    exact test_of_lt_lowest h hj
  · rw [← test_eq_testBit (lowest_lt h)]
    exact test_lowest h

/-- The bits that are listed are those that are set. -/
theorem mem_ones : i ∈ ones w ↔ i < 64 ∧ test w i = true := by
  induction w using ones.induct with
  | case1 => simp [ones]
  | case2 w h ih =>
    rw [ones, dif_neg h, List.mem_cons, ih]
    constructor
    · rintro (rfl | ⟨hi, htest⟩)
      · exact ⟨lowest_lt h, test_lowest h⟩
      · rw [test_and_sub_one h hi, Bool.and_eq_true] at htest
        exact ⟨hi, htest.1⟩
    · rintro ⟨hi, htest⟩
      by_cases hlow : i = lowest w
      · exact Or.inl hlow
      · exact Or.inr ⟨hi, by simp [test_and_sub_one h hi, htest, hlow]⟩

/-- Each round takes a bit above those that were taken before. -/
theorem pairwise_ones (w : UInt64) : (ones w).Pairwise (· < ·) := by
  induction w using ones.induct with
  | case1 => simp [ones]
  | case2 w h ih =>
    rw [ones, dif_neg h, List.pairwise_cons]
    refine ⟨fun i hi => ?_, ih⟩
    obtain ⟨hlt, htest⟩ := mem_ones.1 hi
    rw [test_and_sub_one h hlt, Bool.and_eq_true, decide_eq_true_eq] at htest
    rcases Nat.lt_or_gt_of_ne htest.2 with hbelow | habove
    · rw [test_of_lt_lowest h hbelow] at htest
      cases htest.1
    · exact habove

/-- **A word lists the bits that are set, in order.** -/
theorem ones_eq_filter (w : UInt64) : ones w = (List.range 64).filter (test w) := by
  refine (pairwise_ones w).eq_of_mem_iff (List.pairwise_lt_range.filter _) fun i => ?_
  rw [mem_ones, List.mem_filter, List.mem_range]

/-- Bits counted downwards are bits counted upwards. -/
theorem cpopNatRec_eq_countP (x : BitVec 64) (n : Nat) :
    x.cpopNatRec n 0 = (List.range n).countP x.getLsbD := by
  induction n with
  | zero => rfl
  | succ n ih =>
    rw [BitVec.cpopNatRec_succ, BitVec.cpopNatRec_add, ih, List.range_succ, List.countP_append,
      List.countP_singleton]
    cases x.getLsbD n <;> rfl

/-- **As many bits are listed as are counted.** -/
theorem length_ones (w : UInt64) : (ones w).length = population w := by
  rw [ones_eq_filter, ← List.countP_eq_length_filter, population, BitVec.toNat_cpop,
    cpopNatRec_eq_countP]
  refine List.countP_congr fun i hi => ?_
  rw [test_eq_getLsbD, Nat.mod_eq_of_lt (List.mem_range.1 hi)]

theorem ones_eq_nil_iff : ones w = [] ↔ w = 0 := by
  rw [ones]
  split <;> simp [*]

end Word

/-! ### The members of a set -/

namespace StateSet

variable {s : StateSet} {i : Nat}

/-- **The states listed are the members.** -/
theorem mem_toList : i ∈ s.toList ↔ i ∈ s := by
  simp only [toList, List.mem_flatMap, Prod.exists, List.mem_zipIdx_iff_getElem?, List.mem_map,
    Word.mem_ones, Array.getElem?_toList, Array.getElem?_eq_some_iff]
  constructor
  · rintro ⟨_, k, ⟨hk, hw⟩, b, ⟨hb, htest⟩, rfl⟩
    rwa [mem_iff, contains, testAt_word hk hb, hw]
  · intro hi
    obtain ⟨hk, htest⟩ := mem_iff_word.1 hi
    exact ⟨_, i / 64, ⟨hk, rfl⟩, i % 64, ⟨Nat.mod_lt _ (by decide), htest⟩, by omega⟩

/-- **The members are listed in order**: within a word by its bits, and a word before the next. -/
theorem pairwise_toList (s : StateSet) : s.toList.Pairwise (· < ·) := by
  rw [toList, List.pairwise_flatMap]
  constructor
  · rintro ⟨w, k⟩ -
    exact (Word.pairwise_ones w).map _ fun a b hab => by omega
  · have hindex : s.words.toList.zipIdx.Pairwise fun p q => p.2 < q.2 := by
      rw [← List.pairwise_map (f := Prod.snd), List.zipIdx_map_snd]
      exact List.pairwise_lt_range'
    refine hindex.imp ?_
    rintro ⟨v, k⟩ ⟨w, l⟩ hkl x hx y hy
    obtain ⟨a, ha, rfl⟩ := List.mem_map.1 hx
    obtain ⟨b, -, rfl⟩ := List.mem_map.1 hy
    have := (Word.mem_ones.1 ha).1
    change k < l at hkl
    omega

/-- **A set lists the states of its universe that belong to it, in order.** -/
theorem toList_eq_filter (s : StateSet) : s.toList = (List.range s.univ).filter s.contains := by
  refine (pairwise_toList s).eq_of_mem_iff (List.pairwise_lt_range.filter _) fun i => ?_
  rw [mem_toList, List.mem_filter, List.mem_range]
  exact ⟨fun hi => ⟨lt_of_mem hi, hi⟩, fun hi => hi.2⟩

/-- The size is the number of states listed. -/
theorem size_eq_length (s : StateSet) : s.size = s.toList.length := by
  have hcount : (fun p : UInt64 × Nat => ((Word.ones p.1).map (64 * p.2 + ·)).length) =
      Word.population ∘ Prod.fst := by
    funext p
    rw [List.length_map, Word.length_ones, Function.comp_apply]
  rw [toList, List.length_flatMap, hcount, ← List.map_map, List.zipIdx_map_fst,
    List.sum_eq_foldl_nat, List.foldl_map, size, ← Array.foldl_toList]

/-- A set has no bit exactly when nothing is listed. -/
theorem isEmpty_iff : s.isEmpty = true ↔ s.toList = [] := by
  have hwords : (∀ p ∈ s.words.toList.zipIdx, p.1 = 0) ↔ ∀ w ∈ s.words.toList, w = 0 := by
    rw [← List.forall_mem_map (f := Prod.fst) (P := (· = 0)), List.zipIdx_map_fst]
  rw [toList, List.flatMap_eq_nil_iff]
  simp only [List.map_eq_nil_iff, Word.ones_eq_nil_iff]
  rw [hwords, isEmpty, ← Array.all_toList, List.all_eq_true]
  simp only [beq_iff_eq]

theorem isFull_iff : s.isFull = true ↔ ∀ i, i < s.univ → i ∈ s := by
  rw [isFull, beq_iff_eq, size_eq_length, toList_eq_filter]
  nth_rewrite 2 [← List.length_range (n := s.univ)]
  rw [List.length_filter_eq_length_iff]
  simp only [List.mem_range, mem_iff]

/-- **The set made out of the list is the set again.** -/
theorem ofList_toList (s : StateSet) : ofList s.univ s.toList = .ok s := by
  have hlt : ∀ i ∈ s.toList, i < s.univ := fun i hi => lt_of_mem (mem_toList.1 hi)
  obtain ⟨t, ht, hdenotes⟩ := (denotes_empty s.univ).foldlM_add hlt
  have hmem (i : Nat) : i ∈ t ↔ i ∈ s := by
    rw [hdenotes.mem_iff, Finset.union_empty, List.mem_toFinset, mem_toList]
  rw [ofList, ht, ext hdenotes.univ fun i => Bool.eq_iff_iff.2 (hmem i)]

/-- **Listing and counting agree with membership.** -/
structure Listed (s : StateSet) : Prop where
  /-- the states listed are the members -/
  mem_iff : ∀ i, i ∈ s.toList ↔ i ∈ s
  /-- each one is greater than all before it, so none comes twice -/
  ascending : s.toList.Pairwise (· < ·)
  /-- the size is the number of states listed -/
  size_eq : s.size = s.toList.length
  /-- a set is empty if nothing is listed -/
  isEmpty_iff : s.isEmpty = true ↔ s.toList = []
  /-- a set is full if no state of the universe is missing -/
  isFull_iff : s.isFull = true ↔ ∀ i, i < s.univ → i ∈ s
  /-- the list makes the set again, over the same universe -/
  ofList_eq : ofList s.univ s.toList = .ok s

/-- **Listing and counting are exact**, of every set over every universe. -/
theorem listing_exact (s : StateSet) : s.Listed where
  mem_iff _ := mem_toList
  ascending := pairwise_toList s
  size_eq := size_eq_length s
  isEmpty_iff := isEmpty_iff
  isFull_iff := isFull_iff
  ofList_eq := ofList_toList s

end StateSet

end ModalMu
