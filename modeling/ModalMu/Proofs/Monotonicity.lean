import ModalMu.Proofs.EmersonLei

/-!
# Solutions grow with the caller's values

There is no negation, so a formula holds in more states when its free variables do. Two runs with
different values may take different numbers of rounds and set back different fixpoints; what they
return is compared through the meaning that both compute.

* `denote_mono_free` — the meaning is monotone in the values of the free occurrences, whatever the
  other variables are;
* `Bindings.Below` — **one caller's values lie within another's**, for the given variables;
* `solve_mono` — both solvers return more states for greater values.
-/

namespace ModalMu

variable {n : Nat} {ts : List Transition}

/-- **The meaning grows with the values of the free occurrences.** -/
theorem denote_mono_free (f : Formula) {ρ ρ' : Var → Set (Fin n)}
    (h : ∀ x ∈ f.freeOccurrences, ρ x ⊆ ρ' x) : f.denote ts ρ ⊆ f.denote ts ρ' := by
  -- the other variables take their greater values first, which changes nothing
  have hsame : f.denote ts ρ =
      f.denote ts fun x => if x ∈ f.freeOccurrences then ρ x else ρ' x := by
    refine denote_congr f fun x hx => ?_
    rw [if_pos hx]
  rw [hsame]
  refine denote_mono f fun x => ?_
  by_cases hx : x ∈ f.freeOccurrences
  · rw [if_pos hx]
    exact h x hx
  · rw [if_neg hx]

/-- What represents a greater set has more members. -/
theorem StateSet.Represents.mem_of_subset {a b : StateSet} {A B : Set (Fin n)}
    (ha : a.Represents A) (hb : b.Represents B) (hAB : A ⊆ B) {i : Nat} (hi : i ∈ a) : i ∈ b := by
  have hlt : i < n := ha.univ ▸ StateSet.lt_of_mem hi
  exact (hb.mem_iff ⟨i, hlt⟩).2 (hAB ((ha.mem_iff ⟨i, hlt⟩).1 hi))

namespace Solver

/-- **The values of the given variables lie within those of `bindings'`**, and none is missing. -/
def Bindings.Below (xs : List Var) (bindings bindings' : Bindings) : Prop :=
  ∀ x ∈ xs, ∃ s t, bindings[x]? = some s ∧ bindings'[x]? = some t ∧ ∀ i ∈ s, i ∈ t

namespace Bindings.Below

variable {xs : List Var} {bindings bindings' : Bindings} (h : Bindings.Below xs bindings bindings')

include h

theorem covers (x : Var) (hx : x ∈ xs) : x ∈ bindings ∧ x ∈ bindings' := by
  obtain ⟨s, t, hs, ht, -⟩ := h x hx
  simp only [Std.TreeMap.mem_iff_isSome_getElem?, hs, ht, Option.isSome_some, and_self]

theorem valuation_subset (x : Var) (hx : x ∈ xs) :
    Bindings.valuation n bindings x ⊆ Bindings.valuation n bindings' x := by
  obtain ⟨s, t, hs, ht, hst⟩ := h x hx
  rw [Bindings.valuation, Bindings.valuation, Std.TreeMap.getD_eq_getD_getElem?,
    Std.TreeMap.getD_eq_getD_getElem?, hs, ht]
  exact fun i hi => hst i hi

end Bindings.Below

variable {fits : Nat → Bool} {first : Nat} {lts : Lts}

/-- **Solutions are monotone in the free variables.** When the caller's values for the free
variables of a formula grow, both solvers still return, and every state they found before is found
again. -/
theorem solve_mono (hlts : Lts.build fits first n ts = .ok lts) {f : Formula}
    (hids : f.binderIds.Nodup) {bindings bindings' : Bindings} (hover : Bindings.Over n bindings)
    (hover' : Bindings.Over n bindings') (hbelow : Bindings.Below f.freeVars bindings bindings')
    (logging logging' : Bool) :
    (∃ solution solution', (Naive.solve lts f bindings logging).result = .ok solution ∧
      (Naive.solve lts f bindings' logging').result = .ok solution' ∧
      ∀ i ∈ solution.states, i ∈ solution'.states) ∧
    ∃ solution solution',
      (EmersonLei.solve lts f f.analyze bindings logging).result = .ok solution ∧
      (EmersonLei.solve lts f f.analyze bindings' logging').result = .ok solution' ∧
      ∀ i ∈ solution.states, i ∈ solution'.states := by
  have hfree : ∀ x ∈ f.freeOccurrences, x ∈ f.freeVars := by
    intro x hx
    rw [Formula.freeVars_eq]
    exact mem_distinct.2 hx
  have hcover : ∀ x ∈ f.freeOccurrences, x ∈ bindings :=
    fun x hx => (hbelow.covers x (hfree x hx)).1
  have hcover' : ∀ x ∈ f.freeOccurrences, x ∈ bindings' :=
    fun x hx => (hbelow.covers x (hfree x hx)).2
  have hmeaning : f.denote ts (Bindings.valuation n bindings) ⊆
      f.denote ts (Bindings.valuation n bindings') :=
    denote_mono_free f fun x hx => hbelow.valuation_subset x (hfree x hx)
  refine ⟨?_, ?_⟩
  · obtain ⟨_, _, -, hresult, hstates⟩ := Naive.solve_returns hlts f hover hcover logging
    obtain ⟨_, _, -, hresult', hstates'⟩ := Naive.solve_returns hlts f hover' hcover' logging'
    exact ⟨_, _, hresult, hresult', fun i hi => hstates.mem_of_subset hstates' hmeaning hi⟩
  · obtain ⟨_, _, hresult, hstates⟩ := EmersonLei.solve_returns hlts hids hover
      (Bindings.missing?_eq_none.2 hcover) logging
    obtain ⟨_, _, hresult', hstates'⟩ := EmersonLei.solve_returns hlts hids hover'
      (Bindings.missing?_eq_none.2 hcover') logging'
    exact ⟨_, _, hresult, hresult', fun i hi => hstates.mem_of_subset hstates' hmeaning hi⟩

/-- The free variable grows, while what the caller says of a bound one gets less. -/
theorem solve_mono_alternating :
    ∃ lts f bindings bindings',
      Lts.ofTransitions 0 2 [⟨0, "a", 1⟩, ⟨1, "a", 0⟩] = .ok lts ∧
      f = .fix .least ⟨0, 'X'⟩ (.fix .greatest ⟨1, 'Y'⟩
        (.or (.dia "a" (.var 'X')) (.and (.var 'Z') (.box "a" (.var 'Y'))))) ∧
      bindings = ((∅ : Bindings).insert 'Z' ((StateSet.empty 2).insert 1)).insert 'X'
        (StateSet.full 2) ∧
      bindings' = ((∅ : Bindings).insert 'Z' (StateSet.full 2)).insert 'X' (StateSet.empty 2) ∧
      Bindings.Below f.freeVars bindings bindings' ∧
      (∃ solution solution', (Naive.solve lts f bindings false).result = .ok solution ∧
        (Naive.solve lts f bindings' false).result = .ok solution' ∧
        ∀ i ∈ solution.states, i ∈ solution'.states) ∧
      ∃ solution solution',
        (EmersonLei.solve lts f f.analyze bindings false).result = .ok solution ∧
        (EmersonLei.solve lts f f.analyze bindings' false).result = .ok solution' ∧
        ∀ i ∈ solution.states, i ∈ solution'.states := by
  obtain ⟨lts, hlts⟩ :
    ∃ lts, Lts.ofTransitions 0 2 [⟨0, "a", 1⟩, ⟨1, "a", 0⟩] = .ok lts := ⟨_, rfl⟩
  have hbelow : Bindings.Below ['Z']
      (((∅ : Bindings).insert 'Z' ((StateSet.empty 2).insert 1)).insert 'X' (StateSet.full 2))
      (((∅ : Bindings).insert 'Z' (StateSet.full 2)).insert 'X' (StateSet.empty 2)) := by
    refine List.forall_mem_singleton.2 ⟨(StateSet.empty 2).insert 1, StateSet.full 2, ?_, ?_, ?_⟩
    · rw [Std.TreeMap.getElem?_insert, if_neg (by decide), Std.TreeMap.getElem?_insert_self]
    · rw [Std.TreeMap.getElem?_insert, if_neg (by decide), Std.TreeMap.getElem?_insert_self]
    · intro i hi
      rw [StateSet.mem_iff, StateSet.contains_full]
      exact decide_eq_true (StateSet.lt_of_mem hi)
  refine ⟨lts, _, _, _, hlts, rfl, rfl, rfl, ?_, solve_mono hlts (by decide) ?_ ?_ ?_ false false⟩
  · exact hbelow
  · exact ((Bindings.over_empty 2).insert 'Z' rfl).insert 'X' rfl
  · exact ((Bindings.over_empty 2).insert 'Z' rfl).insert 'X' rfl
  · exact hbelow

end Solver

end ModalMu
