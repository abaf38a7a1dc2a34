import ModalMu.Proofs.Sets
import ModalMu.Solver.Modality
import Mathlib.Data.List.Forall2
import Mathlib.Data.List.Induction

/-!
# The steps of a system

A system is built from a list of transitions and afterwards asked only through its indexes. Here
the indexes are read back as the list they came from.

* `registered_of_foldlM` — the stored edges are the transitions in order, each under the number of
  its label, and no state is out of range;
* `collects_successorMap` — the successors under a label are those of the list, for exactly the
  states that have some;
* `diamondFrom`, `boxFrom` — the two modalities, with the successors found in a given order;
* `mem_diamond`, `mem_box` — the two modalities quantify over the listed transitions.
-/

namespace ModalMu

namespace Registry

variable {α : Type} [Ord α]

theorem lt_size_of_get? {r : Registry α} {a : α} {i : Nat} (h : r.get? i = some a) :
    i < r.size := by
  rw [get?, Array.getElem?_eq_some_iff] at h
  exact h.1

variable [Std.TransOrd α] [Std.LawfulEqOrd α]

/-- The answer of `insert` is the number of the value. -/
theorem get?_insert_self (r : Registry α) (a : α) :
    (r.insert a).2.get? (r.insert a).1.1 = some a := by
  rw [insert]
  split
  · rename_i i h
    exact (r.indexOf?_eq_some_iff a i).1 h
  · simp [get?, register, size]

/-- Numbers once given are kept. -/
theorem get?_insert_of_get? {r : Registry α} {a b : α} {i : Nat} (h : r.get? i = some b) :
    (r.insert a).2.get? i = some b := by
  rw [insert]
  split
  · exact h
  · have hi : i ≠ r.items.size := Nat.ne_of_lt (lt_size_of_get? h)
    simp only [get?, register, Array.getElem?_push, if_neg hi]
    exact h

end Registry

namespace Lts

variable {fits : Nat → Bool} {first n : Nat} {ts : List Transition} {lts : Lts}

/-! ### Construction -/

/-- An edge stands for a transition when its label is the number of the transition's label. -/
def Registered (labels : Registry String) (t : Transition) (e : Edge) : Prop :=
  e.start = t.start ∧ e.target = t.target ∧ labels.get? e.label = some t.label

/-- A listed transition has its edge. -/
theorem exists_registered {labels : Registry String} {edges : List Edge}
    (h : List.Forall₂ (Registered labels) ts edges) {t : Transition} (ht : t ∈ ts) :
    ∃ e ∈ edges, Registered labels t e := by
  obtain ⟨i, hi, rfl⟩ := List.mem_iff_getElem.1 ht
  have hi' : i < edges.length := h.length_eq ▸ hi
  exact ⟨edges[i], List.getElem_mem hi', h.get hi hi'⟩

/-- A stored edge has its transition. -/
theorem exists_of_registered {labels : Registry String} {edges : List Edge}
    (h : List.Forall₂ (Registered labels) ts edges) {e : Edge} (he : e ∈ edges) :
    ∃ t ∈ ts, Registered labels t e := by
  obtain ⟨i, hi, rfl⟩ := List.mem_iff_getElem.1 he
  have hi' : i < ts.length := h.length_eq ▸ hi
  exact ⟨ts[i], List.getElem_mem hi', h.get hi' hi⟩

theorem checkState_eq_ok {s : Nat} {u : Unit} (h : checkState n s = .ok u) : s < n := by
  rw [checkState] at h
  split at h
  · assumption
  · cases h

/-- Inversion for `takeIn`. -/
theorem takeIn_eq_ok {acc acc' : Registry String × Table Edge} {t : Transition}
    (h : takeIn n acc t = .ok acc') :
    t.start < n ∧ t.target < n ∧ acc'.1 = (acc.1.insert t.label).2 ∧
      acc'.2.rows.toList =
        acc.2.rows.toList ++ [⟨t.start, (acc.1.insert t.label).1.1, t.target⟩] := by
  rw [takeIn] at h
  rcases hs : checkState n t.start with _ | u
  · rw [hs] at h
    cases h
  · rcases ht : checkState n t.target with _ | v
    · rw [hs, ht] at h
      cases h
    · rw [hs, ht] at h
      have hacc' : acc' = ((acc.1.insert t.label).2,
          (acc.2.push ⟨t.start, (acc.1.insert t.label).1.1, t.target⟩).2) :=
        (Except.ok.inj h).symm
      rw [hacc']
      exact ⟨checkState_eq_ok hs, checkState_eq_ok ht, rfl, by simp [Table.push]⟩

/-- **The stored edges are the listed transitions**, and all their states are in range. The list
`done` is what was taken in before. -/
theorem registered_of_foldlM {done : List Transition} {acc acc' : Registry String × Table Edge}
    (hacc : List.Forall₂ (Registered acc.1) done acc.2.rows.toList)
    (h : ts.foldlM (takeIn n) acc = .ok acc') :
    List.Forall₂ (Registered acc'.1) (done ++ ts) acc'.2.rows.toList ∧
      ∀ t ∈ ts, t.start < n ∧ t.target < n := by
  induction ts generalizing done acc with
  | nil =>
    obtain rfl := Except.ok.inj h
    rw [List.append_nil]
    exact ⟨hacc, fun _ ht => absurd ht List.not_mem_nil⟩
  | cons t ts ih =>
    rw [List.foldlM_cons] at h
    rcases hstep : takeIn n acc t with _ | acc₁
    · rw [hstep] at h
      cases h
    · rw [hstep] at h
      obtain ⟨hstart, htarget, hlabels, hedges⟩ := takeIn_eq_ok hstep
      -- earlier labels keep their numbers, and the label of `t` has one by now
      have hacc₁ : List.Forall₂ (Registered acc₁.1) (done ++ [t]) acc₁.2.rows.toList := by
        rw [hedges]
        refine List.rel_append ?_ (List.Forall₂.cons ?_ List.Forall₂.nil)
        · refine hacc.imp fun t' e ⟨hs, ht, hl⟩ => ⟨hs, ht, ?_⟩
          rw [hlabels]
          exact Registry.get?_insert_of_get? hl
        · refine ⟨rfl, rfl, ?_⟩
          rw [hlabels]
          exact Registry.get?_insert_self _ _
      obtain ⟨hall, hrange⟩ := ih hacc₁ h
      rw [List.append_assoc] at hall
      refine ⟨hall, fun t' ht' => ?_⟩
      rcases List.mem_cons.1 ht' with rfl | ht'
      · exact ⟨hstart, htarget⟩
      · exact hrange t' ht'

/-- A system is built from what taking in the transitions leaves. -/
theorem foldlM_of_build (h : build fits first n ts = .ok lts) :
    first < n ∧ fits n = true ∧
      ∃ acc, ts.foldlM (takeIn n) (Registry.empty, Table.empty) = .ok acc ∧
        lts = ofEdges first n acc.1 acc.2 := by
  rw [build] at h
  rcases hf : checkState n first with _ | u
  · rw [hf] at h
    cases h
  · rcases hfold : ts.foldlM (takeIn n) (Registry.empty, Table.empty) with _ | acc
    · rw [hf] at h
      simp only [hfold] at h
      cases h
    · rw [hf] at h
      simp only [hfold] at h
      change (if fits n = true then _ else _) = _ at h
      split at h
      · rename_i hfits
        exact ⟨checkState_eq_ok hf, hfits, acc, rfl, (Except.ok.inj h).symm⟩
      · cases h

/-- What a built system consists of. -/
theorem build_eq_ok (h : build fits first n ts = .ok lts) :
    first < n ∧ (∀ t ∈ ts, t.start < n ∧ t.target < n) ∧
      ∃ labels edges, List.Forall₂ (Registered labels) ts edges.rows.toList ∧
        lts = ofEdges first n labels edges := by
  obtain ⟨hfirst, -, ⟨labels, edges⟩, hfold, rfl⟩ := foldlM_of_build h
  obtain ⟨hall, hrange⟩ := registered_of_foldlM (List.Forall₂.nil : List.Forall₂ _ [] _) hfold
  exact ⟨hfirst, hrange, labels, edges, hall, rfl⟩

/-- The parts of a stored edge are in range. -/
theorem lt_of_mem_edges (h : build fits first n ts = .ok lts) {e : Edge}
    (he : e ∈ lts.edges.rows.toList) : e.start < n ∧ e.label < lts.labels.size ∧ e.target < n := by
  obtain ⟨-, hrange, labels, edges, hall, rfl⟩ := build_eq_ok h
  obtain ⟨t, ht, hs, htgt, hl⟩ := exists_of_registered hall he
  rw [hs, htgt]
  exact ⟨(hrange t ht).1, Registry.lt_size_of_get? hl, (hrange t ht).2⟩

theorem stateCount_eq (h : build fits first n ts = .ok lts) : lts.stateCount = n := by
  obtain ⟨-, -, labels, edges, -, rfl⟩ := build_eq_ok h
  rfl

/-! ### Successors -/

/-- A map holds the successors of a step relation: an entry for each state that has a step, and in
it the targets of that state's steps. -/
structure Collects (n : Nat) (step : Nat → Nat → Prop) (m : Std.TreeMap Nat StateSet) : Prop where
  /-- the sets are over the states of the system -/
  univ : ∀ {s : Nat} {S : StateSet}, m[s]? = some S → S.univ = n
  /-- an entry is there for a reason -/
  step_of_entry : ∀ {s : Nat} {S : StateSet}, m[s]? = some S → ∃ t, step s t
  /-- an entry holds the targets and nothing else -/
  mem_iff : ∀ {s : Nat} {S : StateSet}, m[s]? = some S → ∀ t, t ∈ S ↔ step s t
  /-- no step is lost -/
  entry_of_step : ∀ {s t : Nat}, step s t → ∃ S, m[s]? = some S

namespace Collects

variable {step step' : Nat → Nat → Prop} {m : Std.TreeMap Nat StateSet}

theorem congr (h : Collects n step m) (hiff : ∀ s t, step s t ↔ step' s t) :
    Collects n step' m := by
  have hstep : step = step' := funext fun s => funext fun t => propext (hiff s t)
  exact hstep ▸ h

theorem empty : Collects n (fun _ _ => False) ∅ where
  univ hS := by simp at hS
  step_of_entry hS := by simp at hS
  mem_iff hS := by simp at hS
  entry_of_step hstep := hstep.elim

/-- One more edge is one more step. -/
theorem addSuccessor (h : Collects n step m) {e : Edge} (he : e.target < n) :
    Collects n (fun s t => step s t ∨ (s = e.start ∧ t = e.target))
      (Lts.addSuccessor n m e) := by
  have hlookup : ∀ s, (Lts.addSuccessor n m e)[s]? =
      if e.start = s then some ((m.getD e.start (StateSet.empty n)).insert e.target)
      else m[s]? := by
    intro s
    simp [Lts.addSuccessor, Std.TreeMap.getElem?_insert]
  -- what was known of the start of the edge, an absent entry counting as the empty set
  have hknown : (m.getD e.start (StateSet.empty n)).univ = n ∧
      ∀ t, t ∈ m.getD e.start (StateSet.empty n) ↔ step e.start t := by
    rw [Std.TreeMap.getD_eq_getD_getElem?]
    rcases hS : m[e.start]? with _ | S
    · refine ⟨rfl, fun t => ⟨fun ht => ?_, fun ht => ?_⟩⟩
      · simp [StateSet.mem_iff] at ht
      · obtain ⟨S, hS'⟩ := h.entry_of_step ht
        rw [hS] at hS'
        cases hS'
    · exact ⟨h.univ hS, h.mem_iff hS⟩
  obtain ⟨huniv, hmem⟩ := hknown
  refine ⟨?_, ?_, ?_, ?_⟩
  · intro s S hS
    rw [hlookup] at hS
    split at hS
    · obtain rfl := Option.some.inj hS
      rw [StateSet.univ_insert, huniv]
    · exact h.univ hS
  · intro s S hS
    rw [hlookup] at hS
    split at hS
    · rename_i hs
      exact ⟨e.target, Or.inr ⟨hs.symm, rfl⟩⟩
    · obtain ⟨t, ht⟩ := h.step_of_entry hS
      exact ⟨t, Or.inl ht⟩
  · intro s S hS t
    rw [hlookup] at hS
    split at hS
    · rename_i hs
      obtain rfl := Option.some.inj hS
      rw [StateSet.mem_insert (huniv.symm ▸ he), hmem, hs]
      tauto
    · rename_i hs
      rw [h.mem_iff hS]
      exact ⟨Or.inl, fun ht => ht.resolve_right fun ⟨hs', _⟩ => hs hs'.symm⟩
  · rintro s t (ht | ⟨rfl, -⟩)
    · rw [hlookup]
      split
      · exact ⟨_, rfl⟩
      · exact h.entry_of_step ht
    · exact ⟨_, by rw [hlookup, if_pos rfl]⟩

end Collects

/-- Grouping edges by label collects the successors under each label. -/
theorem collects_groupSuccessors {k : Nat} {edges : List Edge}
    (hrange : ∀ e ∈ edges, e.target < n) {l : Nat} (hl : l < k) :
    ∃ m, (groupSuccessors k n edges)[l]? = some m ∧
      Collects n (fun s t => ⟨s, l, t⟩ ∈ edges) m := by
  -- from the right, since the fold takes the last edge in last
  induction edges using List.reverseRecOn with
  | nil =>
    refine ⟨∅, ?_, Collects.empty.congr fun s t => by simp⟩
    simp [groupSuccessors, hl]
  | append_singleton edges e ih =>
    obtain ⟨m, hm, hcollects⟩ := ih fun e' he' => hrange e' (List.mem_append_left _ he')
    have hfold : groupSuccessors k n (edges ++ [e]) =
        (groupSuccessors k n edges).modify e.label (addSuccessor n · e) := by
      simp [groupSuccessors]
    rw [hfold, Array.getElem?_modify, hm]
    by_cases he : e.label = l
    · refine ⟨addSuccessor n m e, by simp [he], ?_⟩
      refine (hcollects.addSuccessor (hrange e (by simp))).congr fun s t => ?_
      obtain ⟨es, el, et⟩ := e
      obtain rfl : el = l := he
      simp
    · refine ⟨m, by simp [he], hcollects.congr fun s t => ?_⟩
      have hne : (⟨s, l, t⟩ : Edge) ≠ e := fun h => he (h ▸ rfl)
      simp [hne]

/-- **The successors under a label are those of the list of transitions.** -/
theorem collects_successorMap (h : build fits first n ts = .ok lts) (action : String) :
    Collects n (fun s t => ⟨s, action, t⟩ ∈ ts) (lts.successorMap action) := by
  obtain ⟨-, -, labels, edges, hall, rfl⟩ := build_eq_ok h
  rw [successorMap]
  rcases hid : labelId? (ofEdges first n labels edges) action with _ | l
  · -- a label without a number occurs nowhere
    refine Collects.empty.congr fun s t => ⟨False.elim, fun ht => ?_⟩
    obtain ⟨e, -, -, -, hl⟩ := exists_registered hall ht
    have := (labels.indexOf?_eq_some_iff action e.label).2 hl
    exact absurd (hid.symm.trans this) (by simp)
  · have hlabel : labels.get? l = some action := (labels.indexOf?_eq_some_iff action l).1 hid
    have htarget : ∀ e ∈ edges.rows.toList, e.target < n :=
      fun e he => (lt_of_mem_edges h he).2.2
    obtain ⟨m, hm, hcollects⟩ := collects_groupSuccessors htarget (Registry.lt_size_of_get? hlabel)
    have hget : (ofEdges first n labels edges).successorMaps[l]? = some m := hm
    simp only [Option.bind_some, hget, Option.getD_some]
    refine hcollects.congr fun s t => ⟨fun he => ?_, fun ht => ?_⟩
    · obtain ⟨⟨s', a', t'⟩, ht, hs, htgt, hl⟩ := exists_of_registered hall he
      obtain rfl : s = s' := hs
      obtain rfl : t = t' := htgt
      obtain rfl : action = a' := Option.some.inj (hlabel.symm.trans hl)
      exact ht
    · obtain ⟨⟨s', l', t'⟩, he, hs, htgt, hl⟩ := exists_registered hall ht
      obtain rfl : s' = s := hs
      obtain rfl : t' = t := htgt
      -- the two numbers of one label agree
      have hl' := (labels.indexOf?_eq_some_iff action l').2 hl
      obtain rfl : l = l' := Option.some.inj (hid.symm.trans hl')
      exact he

theorem mem_successorSets {action : String} {s : Nat} {S : StateSet} :
    (s, S) ∈ lts.successorSets action ↔ (lts.successorMap action)[s]? = some S :=
  Std.TreeMap.mem_toList_iff_getElem?_eq_some

/-! ### Modalities -/

/-- Adding the states of a list whose sets pass a test. -/
theorem mem_foldl_insert (test : StateSet → Bool) {rows : List (Nat × StateSet)}
    {found : StateSet} (hrange : ∀ row ∈ rows, row.1 < found.univ) {i : Nat} :
    i ∈ rows.foldl (fun found row => if test row.2 then found.insert row.1 else found) found ↔
      i ∈ found ∨ ∃ S, (i, S) ∈ rows ∧ test S = true := by
  induction rows generalizing found with
  | nil => simp
  | cons row rows ih =>
    obtain ⟨s, S⟩ := row
    have hs : s < found.univ := hrange (s, S) List.mem_cons_self
    rw [List.foldl_cons, ih]
    · cases htest : test S
      · -- the row fails the test, so it is no witness either
        have hrow : (∃ S', (i, S') ∈ (s, S) :: rows ∧ test S' = true) ↔
            ∃ S', (i, S') ∈ rows ∧ test S' = true := by
          refine exists_congr fun S' => and_congr_left fun ht => ?_
          rw [List.mem_cons, Prod.mk.injEq, or_iff_right]
          rintro ⟨-, rfl⟩
          rw [htest] at ht
          cases ht
        rw [hrow]
        rfl
      · simp only [if_true, StateSet.mem_insert hs, List.mem_cons, Prod.mk.injEq]
        refine ⟨?_, ?_⟩
        · rintro ((rfl | hi) | ⟨S', hS', ht⟩)
          · exact Or.inr ⟨S, Or.inl ⟨rfl, rfl⟩, htest⟩
          · exact Or.inl hi
          · exact Or.inr ⟨S', Or.inr hS', ht⟩
        · rintro (hi | ⟨S', ⟨rfl, -⟩ | hS', ht⟩)
          · exact Or.inl (Or.inr hi)
          · exact Or.inl (Or.inl rfl)
          · exact Or.inr ⟨S', hS', ht⟩
    · intro row hrow
      have := hrange row (List.mem_cons_of_mem _ hrow)
      split
      · rwa [StateSet.univ_insert]
      · exact this

/-- Removing the states of a list whose sets fail a test. -/
theorem mem_foldl_erase (test : StateSet → Bool) {rows : List (Nat × StateSet)}
    {left : StateSet} {i : Nat} :
    i ∈ rows.foldl (fun left row => if test row.2 then left else left.erase row.1) left ↔
      i ∈ left ∧ ∀ S, (i, S) ∈ rows → test S = true := by
  induction rows generalizing left with
  | nil => simp
  | cons row rows ih =>
    obtain ⟨s, S⟩ := row
    rw [List.foldl_cons, ih]
    cases htest : test S
    · simp only [Bool.false_eq_true, if_false, StateSet.mem_erase, List.mem_cons, Prod.mk.injEq]
      refine ⟨?_, ?_⟩
      · rintro ⟨⟨hne, hi⟩, hall⟩
        exact ⟨hi, fun S' hS' => hall S' (hS'.resolve_left fun ⟨h, _⟩ => hne h)⟩
      · rintro ⟨hi, hall⟩
        refine ⟨⟨?_, hi⟩, fun S' hS' => hall S' (Or.inr hS')⟩
        rintro rfl
        rw [hall S (Or.inl ⟨rfl, rfl⟩)] at htest
        cases htest
    · simp only [if_true, List.mem_cons, Prod.mk.injEq]
      refine and_congr_right fun _ => ⟨?_, fun hall S' hS' => hall S' (Or.inr hS')⟩
      rintro hall S' (⟨-, rfl⟩ | hS')
      · exact htest
      · exact hall S' hS'

/-- Every state with a successor set is a state of the system. -/
theorem lt_of_mem_successorSets (h : build fits first n ts = .ok lts) {action : String}
    {row : Nat × StateSet} (hrow : row ∈ lts.successorSets action) : row.1 < n := by
  obtain ⟨t, ht⟩ := (collects_successorMap h action).step_of_entry (mem_successorSets.1 hrow)
  obtain ⟨-, hrange, -⟩ := build_eq_ok h
  exact (hrange _ ht).1

theorem univ_foldl {step : StateSet → Nat × StateSet → StateSet}
    (hstep : ∀ s row, (step s row).univ = s.univ) (rows : List (Nat × StateSet)) (s : StateSet) :
    (rows.foldl step s).univ = s.univ := by
  induction rows generalizing s with
  | nil => rfl
  | cons row rows ih => rw [List.foldl_cons, ih, hstep]

/-- The diamond, with the successors found in the order of `rows`. -/
def diamondFrom (lts : Lts) (rows : List (Nat × StateSet)) (target : StateSet) : StateSet :=
  rows.foldl
    (fun found (state, successors) =>
      if successors.intersects target then found.insert state else found)
    lts.emptySet

/-- The box, with the successors found in the order of `rows`. -/
def boxFrom (lts : Lts) (rows : List (Nat × StateSet)) (target : StateSet) : StateSet :=
  rows.foldl
    (fun left (state, successors) =>
      if successors.subset target then left else left.erase state)
    lts.fullSet

theorem univ_diamondFrom (rows : List (Nat × StateSet)) (target : StateSet) :
    (lts.diamondFrom rows target).univ = lts.stateCount := by
  rw [diamondFrom, univ_foldl, emptySet, StateSet.univ_empty]
  rintro s ⟨state, successors⟩
  dsimp only
  split
  · exact StateSet.univ_insert s state
  · rfl

theorem univ_boxFrom (rows : List (Nat × StateSet)) (target : StateSet) :
    (lts.boxFrom rows target).univ = lts.stateCount := by
  rw [boxFrom, univ_foldl, fullSet, StateSet.univ_full]
  rintro s ⟨state, successors⟩
  dsimp only
  split <;> rfl

/-- `insert` ignores what is out of range, so the range is needed here. -/
theorem mem_diamondFrom {rows : List (Nat × StateSet)} {target : StateSet}
    (hrange : ∀ row ∈ rows, row.1 < lts.stateCount) {i : Nat} :
    i ∈ lts.diamondFrom rows target ↔ ∃ S, (i, S) ∈ rows ∧ S.intersects target = true := by
  have hempty : i ∉ lts.emptySet := by simp [emptySet, StateSet.mem_iff]
  rw [diamondFrom, mem_foldl_insert (fun S => S.intersects target) hrange]
  exact or_iff_right hempty

theorem mem_boxFrom {rows : List (Nat × StateSet)} {target : StateSet} {i : Nat} :
    i ∈ lts.boxFrom rows target ↔
      i < lts.stateCount ∧ ∀ S, (i, S) ∈ rows → S.subset target = true := by
  have hfull : i ∈ lts.fullSet ↔ i < lts.stateCount := by simp [fullSet, StateSet.mem_iff]
  rw [boxFrom, mem_foldl_erase fun S => S.subset target, hfull]

theorem diamond_eq_diamondFrom (lts : Lts) (action : String) (target : StateSet) :
    lts.diamond action target = lts.diamondFrom (lts.successorSets action) target := rfl

theorem box_eq_boxFrom (lts : Lts) (action : String) (target : StateSet) :
    lts.box action target = lts.boxFrom (lts.successorSets action) target := rfl

theorem univ_diamond (action : String) (target : StateSet) :
    (lts.diamond action target).univ = lts.stateCount := univ_diamondFrom _ _

theorem univ_box (action : String) (target : StateSet) :
    (lts.box action target).univ = lts.stateCount := univ_boxFrom _ _

/-- **The diamond quantifies over the listed transitions**, whatever universe its target has. -/
theorem mem_diamond (h : build fits first n ts = .ok lts) {action : String}
    {target : StateSet} {i : Nat} :
    i ∈ lts.diamond action target ↔ ∃ j, ⟨i, action, j⟩ ∈ ts ∧ j ∈ target := by
  have hcollects := collects_successorMap h action
  have hrange : ∀ row ∈ lts.successorSets action, row.1 < lts.stateCount :=
    fun row hrow => stateCount_eq h ▸ lt_of_mem_successorSets h hrow
  rw [diamond_eq_diamondFrom, mem_diamondFrom hrange]
  refine ⟨?_, ?_⟩
  · rintro ⟨S, hS, hmeet⟩
    obtain ⟨j, hj, hjt⟩ := StateSet.intersects_iff.1 hmeet
    exact ⟨j, (hcollects.mem_iff (mem_successorSets.1 hS) j).1 hj, hjt⟩
  · rintro ⟨j, hstep, hj⟩
    obtain ⟨S, hS⟩ := hcollects.entry_of_step hstep
    refine ⟨S, mem_successorSets.2 hS, StateSet.intersects_iff.2 ⟨j, ?_, hj⟩⟩
    exact (hcollects.mem_iff hS j).2 hstep

/-- **The box quantifies over the listed transitions.** -/
theorem mem_box (h : build fits first n ts = .ok lts) {action : String} {target : StateSet}
    (htarget : target.univ = n) {i : Nat} :
    i ∈ lts.box action target ↔ i < n ∧ ∀ j, ⟨i, action, j⟩ ∈ ts → j ∈ target := by
  have hcollects := collects_successorMap h action
  rw [box_eq_boxFrom, mem_boxFrom, stateCount_eq h]
  refine and_congr_right fun _ => ⟨fun hall j hstep => ?_, fun hall S hS => ?_⟩
  · obtain ⟨S, hS⟩ := hcollects.entry_of_step hstep
    have hsub := hall S (mem_successorSets.2 hS)
    rw [StateSet.subset_iff_of_univ_eq ((hcollects.univ hS).trans htarget.symm)] at hsub
    exact hsub j ((hcollects.mem_iff hS j).2 hstep)
  · have hS' := mem_successorSets.1 hS
    rw [StateSet.subset_iff_of_univ_eq ((hcollects.univ hS').trans htarget.symm)]
    exact fun j hj => hall j ((hcollects.mem_iff hS' j).1 hj)

end Lts

end ModalMu
