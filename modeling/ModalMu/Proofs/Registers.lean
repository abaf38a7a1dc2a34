import Mathlib.Algebra.Order.Floor.Div
import Mathlib.Data.Finset.Lattice.Basic
import Mathlib.Data.Finset.Range
import Mathlib.GroupTheory.GroupAction.Ring
import ModalMu.Proofs.Sets
import ModalMu.StateSet.Registers

/-!
# Runs over sets, on finite sets of numbers

The same steps can be taken on registers that hold finite sets of numbers instead of words. Whatever
is done, the two kinds of register stay in agreement:

* `PlainSet`, `PlainSet.after`, `PlainSet.run` — sets of numbers with their universes, what a step
  makes of them, and what a list of steps does;
* `StateSet.Denotes` — a packed set has the universe and the members of a plain one; there is a
  lemma for each operation;
* `outcome_meets` — **one step**: it is refused on both sides, or its target denotes what it should
  afterwards;
* `run_refines` — **every run**: the shape of the words, what they denote, the steps that are
  refused and the answers to all questions.
-/

namespace ModalMu

open StateSet (Step Registers)

/-! ### Plain sets -/

/-- **A finite set of numbers, with the universe that it is a part of.** -/
@[ext] structure PlainSet where
  /-- the members lie below this number -/
  univ : Nat
  /-- the members -/
  members : Finset Nat
  deriving DecidableEq

namespace PlainSet

/-- Plain sets by register number. -/
abbrev Bank := Nat → PlainSet

/-- Every register holds the empty set over no states. -/
def initial : Bank := fun _ => ⟨0, ∅⟩

/-- **What the target of a step holds after it**, or nothing if the step is refused. A question
leaves it as it was. -/
def after (M : Bank) : Step → Option PlainSet
  | .empty _ n => some ⟨n, ∅⟩
  | .full _ n => some ⟨n, Finset.range n⟩
  | .ofList _ n states => if ∀ i ∈ states, i < n then some ⟨n, states.toFinset⟩ else none
  | .copy _ q => some (M q)
  | .add r i =>
    if i < (M r).univ then some ⟨(M r).univ, insert i (M r).members⟩ else none
  | .erase r i => some ⟨(M r).univ, (M r).members.erase i⟩
  | .fill r => some ⟨(M r).univ, Finset.range (M r).univ⟩
  | .clear r => some ⟨(M r).univ, ∅⟩
  | .union r q =>
    if (M r).univ = (M q).univ then some ⟨(M r).univ, (M r).members ∪ (M q).members⟩ else none
  | .inter r q =>
    if (M r).univ = (M q).univ then some ⟨(M r).univ, (M r).members ∩ (M q).members⟩ else none
  | .contains r _ | .intersects r _ | .subset r _ | .equal r _ | .render r | .renderAll r =>
    some (M r)

/-- One step; a refused one changes nothing. -/
def step (M : Bank) (e : Step) : Bank :=
  match after M e with
  | some A => Function.update M e.target A
  | none => M

/-- **The registers after a list of steps.** -/
def run (M : Bank) (steps : List Step) : Bank := steps.foldl step M

end PlainSet

/-! ### What a packed set denotes -/

namespace StateSet

/-- **A packed set denotes a plain one**: they have the same universe and the same members. -/
structure Denotes (s : StateSet) (A : PlainSet) : Prop where
  /-- the universes are the same -/
  univ : s.univ = A.univ
  /-- the members are the same -/
  mem_iff : ∀ i, i ∈ s ↔ i ∈ A.members

theorem denotes_empty (n : Nat) : (empty n).Denotes ⟨n, ∅⟩ := by
  refine ⟨rfl, fun i => ?_⟩
  simp [mem_iff]

theorem denotes_full (n : Nat) : (full n).Denotes ⟨n, Finset.range n⟩ := by
  refine ⟨rfl, fun i => ?_⟩
  simp [mem_iff]

namespace Denotes

variable {s t : StateSet} {A B : PlainSet}

theorem lt_univ (h : s.Denotes A) {i : Nat} (hi : i ∈ A.members) : i < A.univ := by
  rw [← h.univ]
  exact lt_of_mem ((h.mem_iff i).2 hi)

theorem add (h : s.Denotes A) {i : Nat} (hi : i < A.univ) :
    ∃ t, s.add i = .ok t ∧ t.Denotes ⟨A.univ, Insert.insert i A.members⟩ := by
  have hs : i < s.univ := h.univ.symm ▸ hi
  refine ⟨s.insert i, if_pos hs, (univ_insert s i).trans h.univ, fun j => ?_⟩
  rw [StateSet.mem_insert hs, Finset.mem_insert, h.mem_iff]

theorem add_refused (h : s.Denotes A) {i : Nat} (hi : A.univ ≤ i) :
    s.add i = .error (Index.refusal i) :=
  if_neg (Nat.not_lt.2 (h.univ ▸ hi))

theorem erase (h : s.Denotes A) (i : Nat) : (s.erase i).Denotes ⟨A.univ, A.members.erase i⟩ := by
  refine ⟨h.univ, fun j => ?_⟩
  rw [StateSet.mem_erase, Finset.mem_erase, h.mem_iff]

theorem union? (hs : s.Denotes A) (ht : t.Denotes B) (h : A.univ = B.univ) :
    ∃ u, s.union? t = .ok u ∧ u.Denotes ⟨A.univ, A.members ∪ B.members⟩ := by
  have huniv : s.univ = t.univ := by rw [hs.univ, ht.univ, h]
  refine ⟨s.union t huniv, dif_pos huniv, hs.univ, fun i => ?_⟩
  rw [StateSet.mem_iff, contains_union, Bool.or_eq_true, Finset.mem_union, ← hs.mem_iff,
    ← ht.mem_iff]
  rfl

theorem inter? (hs : s.Denotes A) (ht : t.Denotes B) (h : A.univ = B.univ) :
    ∃ u, s.inter? t = .ok u ∧ u.Denotes ⟨A.univ, A.members ∩ B.members⟩ := by
  have huniv : s.univ = t.univ := by rw [hs.univ, ht.univ, h]
  refine ⟨s.inter t huniv, dif_pos huniv, hs.univ, fun i => ?_⟩
  rw [StateSet.mem_iff, contains_inter, Bool.and_eq_true, Finset.mem_inter, ← hs.mem_iff,
    ← ht.mem_iff]
  rfl

/-- Sets over different universes are not combined. -/
theorem mismatch (hs : s.Denotes A) (ht : t.Denotes B) (h : A.univ ≠ B.univ) :
    s.union? t = .error .universeMismatch ∧ s.inter? t = .error .universeMismatch := by
  have huniv : s.univ ≠ t.univ := by
    rw [hs.univ, ht.univ]
    exact h
  exact ⟨dif_neg huniv, dif_neg huniv⟩

/-- **Adding the states of a list**, one after the other, succeeds when all of them belong to the
universe. -/
theorem foldlM_add (h : s.Denotes A) {states : List Nat} (hstates : ∀ i ∈ states, i < A.univ) :
    ∃ t, states.foldlM StateSet.add s = .ok t ∧
      t.Denotes ⟨A.univ, states.toFinset ∪ A.members⟩ := by
  induction states generalizing s A with
  | nil => exact ⟨s, rfl, h.univ, fun i => by simp [h.mem_iff]⟩
  | cons i states ih =>
    obtain ⟨t, ht, hdenotes⟩ := h.add (hstates i List.mem_cons_self)
    obtain ⟨u, hu, hall⟩ := ih hdenotes fun j hj => hstates j (List.mem_cons_of_mem _ hj)
    refine ⟨u, ?_, hall.univ, fun j => ?_⟩
    · rw [List.foldlM_cons, ht]
      exact hu
    · rw [hall.mem_iff]
      simp only [Finset.mem_union, Finset.mem_insert, List.toFinset_cons]
      tauto

/-- One state outside of the universe is enough for a list to be refused. -/
theorem foldlM_add_refused (h : s.Denotes A) {states : List Nat}
    (hstates : ¬∀ i ∈ states, i < A.univ) :
    ∃ fault, states.foldlM StateSet.add s = .error fault := by
  induction states generalizing s A with
  | nil => exact absurd (fun i hi => absurd hi List.not_mem_nil) hstates
  | cons i states ih =>
    rw [List.foldlM_cons]
    rcases Nat.lt_or_ge i A.univ with hi | hi
    · obtain ⟨t, ht, hdenotes⟩ := h.add hi
      obtain ⟨fault, hfault⟩ := ih hdenotes fun hall =>
        hstates fun j hj => (List.mem_cons.1 hj).elim (fun hj => hj ▸ hi) (hall j)
      exact ⟨fault, by rw [ht]; exact hfault⟩
    · exact ⟨Index.refusal i, by rw [h.add_refused hi]; rfl⟩

/-- **Packed sets are equal exactly when the plain ones are.** -/
theorem eq_iff (hs : s.Denotes A) (ht : t.Denotes B) : s = t ↔ A = B := by
  refine ⟨?_, ?_⟩
  · rintro rfl
    have hmembers : A.members = B.members := by
      ext i
      rw [← hs.mem_iff, ht.mem_iff]
    exact PlainSet.ext (hs.univ.symm.trans ht.univ) hmembers
  · rintro rfl
    refine StateSet.ext (hs.univ.trans ht.univ.symm) fun i => ?_
    rw [Bool.eq_iff_iff]
    exact (hs.mem_iff i).trans (ht.mem_iff i).symm

end Denotes

/-! ### Steps and runs -/

namespace Registers

variable {m : Registers} {M : PlainSet.Bank}

/-- Every register denotes what its plain counterpart holds. -/
def Agrees (m : Registers) (M : PlainSet.Bank) : Prop := ∀ r, (m.get r).Denotes (M r)

theorem agrees_initial : Agrees initial PlainSet.initial := by
  intro r
  rw [get_initial]
  exact denotes_empty 0

/-- **What a step makes of the set `s` is as the plain step says**: refused if that is, and
otherwise a set that denotes its result. A step that writes nothing leaves `s` as it was. -/
def Meets (s : StateSet) (r : Except Fault (Answer × Option StateSet)) : Option PlainSet → Prop
  | some A => ∃ answer written, r = .ok (answer, written) ∧ (written.getD s).Denotes A
  | none => ∃ fault, r = .error fault

/-- A step that succeeds under a condition. -/
theorem meets_of_result {s : StateSet} {result : Except Fault StateSet} {c : Prop} [Decidable c]
    {A : PlainSet} (hok : c → ∃ t, result = .ok t ∧ t.Denotes A)
    (hrefused : ¬c → ∃ fault, result = .error fault) :
    Meets s (result.map fun t => (.done, some t)) (if c then some A else none) := by
  by_cases hc : c
  · obtain ⟨t, rfl, hdenotes⟩ := hok hc
    rw [if_pos hc]
    exact ⟨_, _, rfl, hdenotes⟩
  · obtain ⟨fault, rfl⟩ := hrefused hc
    rw [if_neg hc]
    exact ⟨fault, rfl⟩

/-- **One step on both kinds of register.** -/
theorem outcome_meets (h : Agrees m M) (e : Step) :
    Meets (m.get e.target) (m.outcome e) (PlainSet.after M e) := by
  cases e with
  | empty r n => exact ⟨_, _, rfl, denotes_empty n⟩
  | full r n => exact ⟨_, _, rfl, denotes_full n⟩
  | ofList r n states =>
    refine meets_of_result ?_ (denotes_empty n).foldlM_add_refused
    intro hstates
    obtain ⟨t, ht, hdenotes⟩ := (denotes_empty n).foldlM_add hstates
    rw [Finset.union_empty] at hdenotes
    exact ⟨t, ht, hdenotes⟩
  | copy r q => exact ⟨_, _, rfl, h q⟩
  | add r i =>
    refine meets_of_result (h r).add fun hi => ?_
    exact ⟨_, (h r).add_refused (Nat.not_lt.1 hi)⟩
  | erase r i => exact ⟨_, _, rfl, (h r).erase i⟩
  | fill r =>
    refine ⟨_, _, rfl, ?_⟩
    rw [← (h r).univ]
    exact denotes_full _
  | clear r =>
    refine ⟨_, _, rfl, ?_⟩
    rw [← (h r).univ]
    exact denotes_empty _
  | union r q =>
    refine meets_of_result ((h r).union? (h q)) fun huniv => ?_
    exact ⟨_, ((h r).mismatch (h q) huniv).1⟩
  | inter r q =>
    refine meets_of_result ((h r).inter? (h q)) fun huniv => ?_
    exact ⟨_, ((h r).mismatch (h q) huniv).2⟩
  | contains r i => exact ⟨_, _, rfl, h r⟩
  | intersects r q => exact ⟨_, _, rfl, h r⟩
  | subset r q => exact ⟨_, _, rfl, h r⟩
  | equal r q => exact ⟨_, _, rfl, h r⟩
  | render r => exact ⟨_, _, rfl, h r⟩
  | renderAll r => exact ⟨_, _, rfl, h r⟩

/-- What the registers hold after a step that is not refused. -/
theorem get_step_of_ok {e : Step} {answer : Answer} {written : Option StateSet}
    (he : m.outcome e = .ok (answer, written)) (r : Nat) :
    (m.step e).2.get r = if e.target = r then written.getD (m.get e.target) else m.get r := by
  rw [step, he]
  cases written with
  | none =>
    by_cases hr : e.target = r
    · rw [if_pos hr, ← hr]
      rfl
    · rw [if_neg hr]
  | some s => exact get_set m e.target r s

/-- **A step keeps the agreement.** -/
theorem step_agrees (h : Agrees m M) (e : Step) : Agrees (m.step e).2 (PlainSet.step M e) := by
  have hstep := outcome_meets h e
  rw [PlainSet.step]
  rcases hafter : PlainSet.after M e with _ | A
  · rw [hafter] at hstep
    obtain ⟨fault, hfault⟩ := hstep
    rw [step_of_error hfault]
    exact h
  · rw [hafter] at hstep
    obtain ⟨answer, written, hok, hdenotes⟩ := hstep
    intro r
    change ((m.step e).2.get r).Denotes (Function.update M e.target A r)
    rw [get_step_of_ok hok, Function.update_apply]
    by_cases hr : e.target = r
    · rw [if_pos hr, if_pos hr.symm]
      exact hdenotes
    · rw [if_neg hr, if_neg (Ne.symm hr)]
      exact h r

/-- **A run keeps the agreement.** -/
theorem run_agrees (h : Agrees m M) (steps : List Step) :
    Agrees (m.run steps) (PlainSet.run M steps) := by
  induction steps generalizing m M with
  | nil => exact h
  | cons e steps ih => exact ih (step_agrees h e)

/-! ### What can be observed -/

/-- **The registers refine plain sets**: what they store, what they refuse and what they answer is
as the plain sets say. -/
structure Refines (m : Registers) (M : PlainSet.Bank) : Prop where
  /-- a universe has as many words as it needs -/
  size_words : ∀ r, (m.get r).words.size = (M r).univ ⌈/⌉ 64
  /-- no bit is set at or beyond the end of the universe -/
  clean : ∀ r i, (M r).univ ≤ i → testAt (m.get r).words i = false
  /-- the sets have the right universe and members -/
  denotes : ∀ r, (m.get r).Denotes (M r)
  /-- the members belong to the universe -/
  lt_univ : ∀ r, ∀ i ∈ (M r).members, i < (M r).univ
  /-- a state outside of the universe is not added -/
  add_refused : ∀ r i, (M r).univ ≤ i → m.step (.add r i) = (.error (Index.refusal i), m)
  /-- a list with a state outside of the universe does not make a set -/
  ofList_refused : ∀ r n states, (∃ i ∈ states, n ≤ i) →
    ∃ fault, m.step (.ofList r n states) = (.error fault, m)
  /-- sets over different universes are not joined -/
  union_refused : ∀ r q, (M r).univ ≠ (M q).univ →
    m.step (.union r q) = (.error .universeMismatch, m)
  /-- nor cut down to each other -/
  inter_refused : ∀ r q, (M r).univ ≠ (M q).univ →
    m.step (.inter r q) = (.error .universeMismatch, m)
  /-- membership -/
  contains : ∀ r i, m.step (.contains r i) = (.ok (.truth (i ∈ (M r).members)), m)
  /-- equality of words is equality of the universes and the members -/
  equal : ∀ r q, m.step (.equal r q) =
    (.ok (.truth ((M r).univ = (M q).univ ∧ (M r).members = (M q).members)), m)
  /-- a common member, over any two universes -/
  intersects : ∀ r q, m.step (.intersects r q) =
    (.ok (.truth (∃ i ∈ (M r).members, i ∈ (M q).members)), m)
  /-- inclusion as far as the words of the other set reach -/
  subset : ∀ r q, m.step (.subset r q) =
    (.ok (.truth (∀ i ∈ (M r).members, i < 64 * ((M q).univ ⌈/⌉ 64) → i ∈ (M q).members)), m)
  /-- over one universe this is inclusion -/
  subset_of_univ_eq : ∀ r q, (M r).univ = (M q).univ →
    m.step (.subset r q) = (.ok (.truth ((M r).members ⊆ (M q).members)), m)

/-- The words of `n` states. -/
theorem wordCount_eq_ceilDiv (n : Nat) : wordCount n = n ⌈/⌉ 64 :=
  (Nat.ceilDiv_eq_add_pred_div n 64).symm

/-- Registers that agree with plain ones behave like them. -/
theorem refines_of_agrees (h : Agrees m M) : Refines m M where
  size_words r := by rw [(m.get r).size_words, (h r).univ, wordCount_eq_ceilDiv]
  clean r i hi := (m.get r).clean i ((h r).univ ▸ hi)
  denotes := h
  lt_univ r i hi := (h r).lt_univ hi
  add_refused r i hi := by
    refine step_of_error ?_
    rw [outcome, (h r).add_refused hi]
    rfl
  ofList_refused r n states hout := by
    obtain ⟨i, hi, hni⟩ := hout
    obtain ⟨fault, hfault⟩ := (denotes_empty n).foldlM_add_refused fun hall =>
      Nat.not_lt.2 hni (hall i hi)
    refine ⟨fault, step_of_error ?_⟩
    rw [outcome, StateSet.ofList, hfault]
    rfl
  union_refused r q huniv := by
    refine step_of_error ?_
    rw [outcome, ((h r).mismatch (h q) huniv).1]
    rfl
  inter_refused r q huniv := by
    refine step_of_error ?_
    rw [outcome, ((h r).mismatch (h q) huniv).2]
    rfl
  contains r i := by
    have hmem : (m.get r).contains i = decide (i ∈ (M r).members) := by
      rw [Bool.eq_iff_iff, decide_eq_true_iff]
      exact (h r).mem_iff i
    rw [step, outcome, hmem]
  equal r q := by
    have hiff : m.get r = m.get q ↔ (M r).univ = (M q).univ ∧ (M r).members = (M q).members := by
      rw [(h r).eq_iff (h q), PlainSet.ext_iff]
    rw [step, outcome, decide_eq_decide.2 hiff]
  intersects r q := by
    have hmeet : (m.get r).intersects (m.get q) =
        decide (∃ i ∈ (M r).members, i ∈ (M q).members) := by
      rw [Bool.eq_iff_iff, decide_eq_true_iff, intersects_iff]
      exact exists_congr fun i => and_congr ((h r).mem_iff i) ((h q).mem_iff i)
    rw [step, outcome, hmeet]
  subset r q := by
    have hsub : (m.get r).subset (m.get q) = decide (∀ i ∈ (M r).members,
        i < 64 * ((M q).univ ⌈/⌉ 64) → i ∈ (M q).members) := by
      rw [Bool.eq_iff_iff, decide_eq_true_iff, subset_iff, (h q).univ, wordCount_eq_ceilDiv]
      exact forall_congr' fun i =>
        imp_congr ((h r).mem_iff i) (imp_congr_right fun _ => (h q).mem_iff i)
    rw [step, outcome, hsub]
  subset_of_univ_eq r q huniv := by
    have hsub : (m.get r).subset (m.get q) = decide ((M r).members ⊆ (M q).members) := by
      rw [Bool.eq_iff_iff, decide_eq_true_iff,
        subset_iff_of_univ_eq ((h r).univ.trans (huniv.trans (h q).univ.symm))]
      exact forall_congr' fun i => imp_congr ((h r).mem_iff i) ((h q).mem_iff i)
    rw [step, outcome, hsub]

/-- **Packed sets refine finite sets of numbers over every run.** -/
theorem run_refines (steps : List Step) :
    Refines (initial.run steps) (PlainSet.run PlainSet.initial steps) :=
  refines_of_agrees (run_agrees agrees_initial steps)

end Registers

end StateSet

end ModalMu
