import ModalMu.Index
import ModalMu.StateSet.Word

/-!
# Sets of states

A set over the universe `0, …, n - 1` is packed into words, bit `i % 64` of word `i / 64` telling
whether state `i` belongs to it. Two facts hold of every set and are part of its type:

* there are exactly as many words as the universe needs;
* no bit is set at or beyond the end of the universe, so a set is determined by its universe and
  its members (`ext`).

The view of a set is `contains`; every operation below comes with the equation that says what it
does to that view.
-/

namespace ModalMu

/-- The number of words that `n` states need. -/
def wordCount (n : Nat) : Nat := (n + 63) / 64

/-- Bit `i` of a row of words; a word that is not there has no bit set. -/
def testAt (words : Array UInt64) (i : Nat) : Bool :=
  match words[i / 64]? with
  | some w => Word.test w i
  | none => false

/-- **A set of states over a universe.** -/
structure StateSet where
  /-- how many states the universe has -/
  univ : Nat
  /-- the bits, 64 to a word -/
  words : Array UInt64
  /-- the universe fills exactly these words -/
  size_words : words.size = wordCount univ
  /-- no bit lies beyond the universe -/
  clean : ∀ i, univ ≤ i → testAt words i = false

namespace StateSet

/-! ### The view -/

/-- **Whether a state belongs to the set.** No state beyond the universe does. -/
def contains (s : StateSet) (i : Nat) : Bool := testAt s.words i

instance : Membership Nat StateSet := ⟨fun s i => s.contains i = true⟩

theorem mem_iff {s : StateSet} {i : Nat} : i ∈ s ↔ s.contains i = true := Iff.rfl

instance (s : StateSet) (i : Nat) : Decidable (i ∈ s) :=
  inferInstanceAs (Decidable (s.contains i = true))

theorem contains_of_le {s : StateSet} {i : Nat} (h : s.univ ≤ i) : s.contains i = false :=
  s.clean i h

theorem lt_of_mem {s : StateSet} {i : Nat} (h : i ∈ s) : i < s.univ := by
  rcases Nat.lt_or_ge i s.univ with hlt | hge
  · exact hlt
  · rw [mem_iff, contains_of_le hge] at h
    cases h

/-- A state of the universe has its word. -/
theorem word_lt {s : StateSet} {i : Nat} (h : i < s.univ) : i / 64 < s.words.size := by
  rw [s.size_words, wordCount]
  omega

/-- **Asking for the universe first makes no difference**, and a state inside it has its word. -/
theorem contains_eq (s : StateSet) (i : Nat) :
    s.contains i =
      if h : i < s.univ then
        have hword := word_lt h
        Word.test s.words[i / 64] i
      else false := by
  split
  · rename_i h
    rw [contains, testAt, Array.getElem?_eq_getElem (word_lt h)]
  · rename_i h
    exact contains_of_le (Nat.not_lt.1 h)

/-- Rows of words of one length are equal when their bits are. -/
theorem eq_of_testAt_eq {v w : Array UInt64} (hsize : v.size = w.size)
    (h : ∀ i, testAt v i = testAt w i) : v = w := by
  apply Array.ext hsize
  intro k hv hw
  apply Word.ext
  intro i hi
  have hdiv : (64 * k + i) / 64 = k := by omega
  have hmod : (64 * k + i) % 64 = i % 64 := by omega
  have hbit := h (64 * k + i)
  simp only [testAt, hdiv, Array.getElem?_eq_getElem hv, Array.getElem?_eq_getElem hw] at hbit
  simpa only [Word.test_eq_getLsbD, hmod] using hbit

/-- **A set is determined by its universe and its members.** -/
theorem ext {a b : StateSet} (hu : a.univ = b.univ)
    (h : ∀ i, a.contains i = b.contains i) : a = b := by
  have hw : a.words = b.words :=
    eq_of_testAt_eq (by rw [a.size_words, b.size_words, hu]) h
  cases a; cases b
  cases hu; cases hw
  rfl

/-- Sets are compared by their universes and their words. -/
instance : DecidableEq StateSet := fun a b =>
  if hu : a.univ = b.univ then
    if hw : a.words = b.words then
      isTrue (by cases a; cases b; cases hu; cases hw; rfl)
    else isFalse fun h => hw (h ▸ rfl)
  else isFalse fun h => hu (h ▸ rfl)

/-! ### Whole sets -/

theorem testAt_replicate_zero (n i : Nat) : testAt (Array.replicate n 0) i = false := by
  simp only [testAt, Array.getElem?_replicate]
  split
  · rename_i w hw
    split at hw
    · rw [← Option.some.inj hw]; exact Word.test_zero i
    · cases hw
  · rfl

/-- **The set without a member.** -/
def empty (n : Nat) : StateSet where
  univ := n
  words := Array.replicate (wordCount n) 0
  size_words := Array.size_replicate
  clean _ _ := testAt_replicate_zero _ _

instance : Inhabited StateSet := ⟨empty 0⟩

@[simp] theorem univ_empty (n : Nat) : (empty n).univ = n := rfl

@[simp] theorem contains_empty (n i : Nat) : (empty n).contains i = false :=
  testAt_replicate_zero _ _

/-- The words of the whole universe: word `k` has the bits of the states from `64 * k` on. -/
def fullWords (n : Nat) : Array UInt64 :=
  Array.ofFn fun k : Fin (wordCount n) => Word.low (min 64 (n - 64 * k.val))

theorem testAt_fullWords (n i : Nat) : testAt (fullWords n) i = decide (i < n) := by
  simp only [testAt, fullWords, Array.getElem?_ofFn]
  by_cases hk : i / 64 < wordCount n
  · simp only [hk, dite_true, Word.test_low, decide_eq_decide]
    omega
  · have : ¬ i < n := by
      rw [wordCount] at hk
      omega
    simp [hk, this]

/-- **The set of all states.** -/
def full (n : Nat) : StateSet where
  univ := n
  words := fullWords n
  size_words := Array.size_ofFn
  clean i hi := by
    rw [testAt_fullWords]
    exact decide_eq_false (Nat.not_lt.2 hi)

@[simp] theorem univ_full (n : Nat) : (full n).univ = n := rfl

@[simp] theorem contains_full (n i : Nat) : (full n).contains i = decide (i < n) :=
  testAt_fullWords n i

/-- All states of the set's own universe. -/
def fill (s : StateSet) : StateSet := full s.univ

/-- No state of the set's own universe. -/
def clear (s : StateSet) : StateSet := empty s.univ

/-- Every bit of the words set, and then the last word cut off at the end of the universe. -/
def saturate (n : Nat) (words : Array UInt64) : Array UInt64 :=
  let ones := words.map fun _ => ~~~0
  if n % 64 = 0 then ones else ones.modify (ones.size - 1) fun _ => Word.low (n % 64)

/-- **The words of the whole universe are saturated words**, whatever was in them before. -/
theorem saturate_eq {n : Nat} {words : Array UInt64} (hsize : words.size = wordCount n) :
    saturate n words = fullWords n := by
  apply Array.ext
  · rw [saturate, fullWords]
    split <;> simp [hsize]
  intro k hk hk'
  have hcount : k < (n + 63) / 64 := by
    simpa [fullWords, wordCount] using hk'
  apply Word.ext
  intro i hi
  simp only [fullWords, Array.getElem_ofFn, Word.test_low, Nat.mod_eq_of_lt hi, saturate]
  split
  · simp only [Array.getElem_map, Word.test_not, Word.test_zero, Bool.not_false]
    exact (decide_eq_true (by omega)).symm
  · simp only [Array.getElem_modify, Array.getElem_map, Array.size_map, hsize, wordCount]
    split
    · rw [Word.test_low, decide_eq_decide, Nat.mod_eq_of_lt hi]
      omega
    · rw [Word.test_not, Word.test_zero, Bool.not_false]
      exact (decide_eq_true (by omega)).symm

theorem words_full (n : Nat) : (full n).words = saturate n (empty n).words :=
  (saturate_eq (empty n).size_words).symm

theorem words_fill (s : StateSet) : s.fill.words = saturate s.univ s.words :=
  (saturate_eq s.size_words).symm

theorem words_clear (s : StateSet) : s.clear.words = s.words.map fun _ => 0 := by
  change Array.replicate (wordCount s.univ) 0 = _
  rw [← s.size_words]
  exact Array.map_const'.symm

/-! ### One state -/

theorem testAt_modify (words : Array UInt64) (k i : Nat) (f : UInt64 → UInt64) :
    testAt (words.modify k f) i =
      if k = i / 64 then (words[i / 64]?).elim false (fun w => Word.test (f w) i)
      else testAt words i := by
  rw [testAt, Array.getElem?_modify]
  by_cases hk : k = i / 64
  · rw [if_pos hk, if_pos hk]
    cases words[i / 64]? <;> rfl
  · rw [if_neg hk, if_neg hk]
    rfl

theorem same_state {i j : Nat} (hword : i / 64 = j / 64) : i % 64 = j % 64 ↔ i = j := by
  omega

/-- The set with state `i` added, if `i` lies in the universe. -/
def insert (s : StateSet) (i : Nat) : StateSet :=
  if h : i < s.univ then
    { univ := s.univ
      words := s.words.modify (i / 64) (· ||| Word.bit i)
      size_words := by rw [Array.size_modify, s.size_words]
      clean := by
        intro j hj
        have hs := s.clean j hj
        rw [testAt_modify]
        split
        · rename_i hword
          have hne : ¬ i % 64 = j % 64 := fun he => by
            have := (same_state hword).1 he
            omega
          cases hw : s.words[j / 64]? with
          | none => rfl
          | some w =>
            rw [testAt, hw] at hs
            simp only [Option.elim, Word.test_or, Word.test_bit, hne, decide_false, Bool.or_false]
            exact hs
        · exact hs }
  else s

@[simp] theorem univ_insert (s : StateSet) (i : Nat) : (s.insert i).univ = s.univ := by
  unfold insert
  split <;> rfl

theorem contains_insert {s : StateSet} {i : Nat} (h : i < s.univ) (j : Nat) :
    (s.insert i).contains j = (decide (i = j) || s.contains j) := by
  simp only [insert, h, dite_true, contains, testAt_modify]
  split
  · rename_i hword
    have hlt : j / 64 < s.words.size := hword ▸ word_lt h
    simp only [testAt, Array.getElem?_eq_getElem hlt, Option.elim, Word.test_or, Word.test_bit,
      same_state hword, Bool.or_comm]
  · rename_i hword
    have hne : i ≠ j := fun he => hword (he ▸ rfl)
    simp [hne]

theorem insert_of_le {s : StateSet} {i : Nat} (h : s.univ ≤ i) : s.insert i = s :=
  dif_neg (Nat.not_lt.2 h)

/-- **Adds a state**, which must belong to the universe. -/
def add (s : StateSet) (i : Nat) : Except Fault StateSet :=
  if i < s.univ then .ok (s.insert i) else .error (Index.refusal i)

/-- **Removes a state**; one that is not there, inside the universe or not, changes nothing. -/
def erase (s : StateSet) (i : Nat) : StateSet where
  univ := s.univ
  words := s.words.modify (i / 64) (· &&& ~~~Word.bit i)
  size_words := by rw [Array.size_modify, s.size_words]
  clean := by
    intro j hj
    have hs := s.clean j hj
    rw [testAt_modify]
    split
    · cases hw : s.words[j / 64]? with
      | none => rfl
      | some w =>
        rw [testAt, hw] at hs
        simp only [Option.elim, Word.test_and]
        rw [show Word.test w j = false from hs, Bool.false_and]
    · exact hs

@[simp] theorem univ_erase (s : StateSet) (i : Nat) : (s.erase i).univ = s.univ := rfl

theorem contains_erase (s : StateSet) (i j : Nat) :
    (s.erase i).contains j = (!decide (i = j) && s.contains j) := by
  simp only [erase, contains, testAt_modify]
  split
  · rename_i hword
    cases hw : s.words[j / 64]? with
    | none => simp [testAt, hw]
    | some w => simp [testAt, hw, same_state hword, Bool.and_comm]
  · rename_i hword
    have hne : i ≠ j := fun he => hword (he ▸ rfl)
    simp [hne]

theorem erase_of_le {s : StateSet} {i : Nat} (h : s.univ ≤ i) : s.erase i = s := by
  apply ext (univ_erase s i)
  intro j
  rw [contains_erase]
  by_cases hij : i = j
  · rw [← hij, contains_of_le h, Bool.and_false]
  · rw [decide_eq_false hij, Bool.not_false, Bool.true_and]

/-- **Removing inside the universe only makes no difference.** -/
theorem words_erase (s : StateSet) (i : Nat) :
    (s.erase i).words =
      if i < s.univ then s.words.modify (i / 64) (· &&& ~~~Word.bit i) else s.words := by
  split
  · rfl
  · rename_i h
    rw [erase_of_le (Nat.not_lt.1 h)]

/-- **The set of the listed states**, each of which must belong to the universe; the first one
that does not is the one reported. -/
def ofList (n : Nat) (states : List Nat) : Except Fault StateSet :=
  states.foldlM add (empty n)

/-! ### Two sets -/

/-- Bits of two rows of words combined word by word. -/
theorem testAt_zipWith {v w : Array UInt64} (f : UInt64 → UInt64 → UInt64)
    (g : Bool → Bool → Bool) (hg : g false false = false) (hsize : v.size = w.size)
    (hf : ∀ a b i, Word.test (f a b) i = g (Word.test a i) (Word.test b i)) (i : Nat) :
    testAt (Array.zipWith f v w) i = g (testAt v i) (testAt w i) := by
  simp only [testAt, Array.getElem?_zipWith]
  rcases Nat.lt_or_ge (i / 64) v.size with hv | hv
  · rw [Array.getElem?_eq_getElem hv, Array.getElem?_eq_getElem (hsize ▸ hv)]
    exact hf _ _ _
  · rw [Array.getElem?_eq_none hv, Array.getElem?_eq_none (hsize ▸ hv)]
    exact hg.symm

/-- Two sets over one universe, combined word by word. -/
def zipWords (a b : StateSet) (h : a.univ = b.univ) (f : UInt64 → UInt64 → UInt64)
    (g : Bool → Bool → Bool) (hg : g false false = false)
    (hf : ∀ v w i, Word.test (f v w) i = g (Word.test v i) (Word.test w i)) : StateSet where
  univ := a.univ
  words := Array.zipWith f a.words b.words
  size_words := by
    rw [Array.size_zipWith, a.size_words, b.size_words, h, Nat.min_self]
  clean i hi := by
    rw [testAt_zipWith f g hg (by rw [a.size_words, b.size_words, h]) hf, a.clean i hi,
      b.clean i (h ▸ hi), hg]

/-- **The states in either set.** -/
def union (a b : StateSet) (h : a.univ = b.univ) : StateSet :=
  a.zipWords b h (· ||| ·) (· || ·) rfl fun _ _ _ => Word.test_or _ _ _

/-- **The states in both sets.** -/
def inter (a b : StateSet) (h : a.univ = b.univ) : StateSet :=
  a.zipWords b h (· &&& ·) (· && ·) rfl fun _ _ _ => Word.test_and _ _ _

@[simp] theorem univ_union (a b : StateSet) (h : a.univ = b.univ) : (a.union b h).univ = a.univ :=
  rfl

@[simp] theorem univ_inter (a b : StateSet) (h : a.univ = b.univ) : (a.inter b h).univ = a.univ :=
  rfl

@[simp] theorem contains_union (a b : StateSet) (h : a.univ = b.univ) (i : Nat) :
    (a.union b h).contains i = (a.contains i || b.contains i) :=
  testAt_zipWith _ (· || ·) rfl (by rw [a.size_words, b.size_words, h])
    (fun _ _ _ => Word.test_or _ _ _) i

@[simp] theorem contains_inter (a b : StateSet) (h : a.univ = b.univ) (i : Nat) :
    (a.inter b h).contains i = (a.contains i && b.contains i) :=
  testAt_zipWith _ (· && ·) rfl (by rw [a.size_words, b.size_words, h])
    (fun _ _ _ => Word.test_and _ _ _) i

/-- **The union**, refused over two universes. -/
def union? (a b : StateSet) : Except Fault StateSet :=
  if h : a.univ = b.univ then .ok (a.union b h) else .error .universeMismatch

/-- **The intersection**, refused over two universes. -/
def inter? (a b : StateSet) : Except Fault StateSet :=
  if h : a.univ = b.univ then .ok (a.inter b h) else .error .universeMismatch

/-- **Whether some word of both sets has a common bit.** Words that only one of them has do not
count, so this is asked of any two sets. -/
def intersects (a b : StateSet) : Bool :=
  (Array.zip a.words b.words).any fun (v, w) => v &&& w != 0

/-- **Whether every word that both sets have is covered.** Words that only one of them has do not
count, so this is asked of any two sets; over one universe it is inclusion. -/
def subset (a b : StateSet) : Bool :=
  (Array.zip a.words b.words).all fun (v, w) => v &&& ~~~w == 0

end StateSet

end ModalMu
