import ModalMu.Proofs.Queries
import ModalMu.Solver.EmersonLei
import ModalMu.Solver.Naive

/-!
# Transitions in another order

How often a transition is listed, and in which place, decides about the numbers of the labels and
about the order in which successors are found. No solver can tell.

* `mem_successorSets_congr` — the successors under a label depend on which transitions are listed
  only;
* `diamondFrom_congr`, `boxFrom_congr` — the modalities come out the same in whatever order
  successors are found;
* `LooksLike` — what a solver can see of a system; `LooksLike.naive_eval` and
  `LooksLike.emersonLei_eval` say that it sees nothing else;
* `solve_reordered` — whole runs, with what they count and log.
-/

namespace ModalMu

namespace Lts

variable {fits fits' : Nat → Bool} {first n : Nat} {ts ts' : List Transition} {lts lts' : Lts}

/-! ### The same successors -/

/-- Systems with the same transitions have the same successors. -/
theorem successors_congr (h : build fits first n ts = .ok lts)
    (h' : build fits' first n ts' = .ok lts') (hsame : ∀ t, t ∈ ts ↔ t ∈ ts') (a : String)
    (s : Nat) : lts.successors a s = lts'.successors a s := by
  obtain ⟨huniv, hmem⟩ := mem_successors h a s
  obtain ⟨huniv', hmem'⟩ := mem_successors h' a s
  refine StateSet.ext (huniv.trans huniv'.symm) fun t => ?_
  rw [Bool.eq_iff_iff]
  exact (hmem t).trans ((hsame _).trans (hmem' t).symm)

/-- **The successors under a label are found in both systems**, maybe in another order. -/
theorem mem_successorSets_congr (h : build fits first n ts = .ok lts)
    (h' : build fits' first n ts' = .ok lts') (hsame : ∀ t, t ∈ ts ↔ t ∈ ts') (a : String)
    (row : Nat × StateSet) : row ∈ lts.successorSets a ↔ row ∈ lts'.successorSets a := by
  obtain ⟨s, S⟩ := row
  rw [(mem_successorSets_iff h a).2, (mem_successorSets_iff h' a).2,
    successors_congr h h' hsame a s]
  exact and_congr_left fun _ => exists_congr fun t => hsame _

/-! ### Modalities from successors in any order -/

section

variable {rows rows' : List (Nat × StateSet)}

/-- **A diamond depends on which successors are found**, not on their order. -/
theorem diamondFrom_congr (hcount : lts.stateCount = lts'.stateCount)
    (hrange : ∀ row ∈ rows, row.1 < lts.stateCount) (hrows : ∀ row, row ∈ rows ↔ row ∈ rows')
    (target : StateSet) : lts.diamondFrom rows target = lts'.diamondFrom rows' target := by
  have hrange' : ∀ row ∈ rows', row.1 < lts'.stateCount :=
    fun row hrow => hcount ▸ hrange row ((hrows row).2 hrow)
  refine StateSet.ext ?_ fun i => ?_
  · rw [univ_diamondFrom, univ_diamondFrom, hcount]
  · rw [Bool.eq_iff_iff]
    refine (mem_diamondFrom hrange).trans (Iff.trans ?_ (mem_diamondFrom hrange').symm)
    exact exists_congr fun S => and_congr_left fun _ => hrows (i, S)

/-- **A box depends on which successors are found**, not on their order. -/
theorem boxFrom_congr (hcount : lts.stateCount = lts'.stateCount)
    (hrows : ∀ row, row ∈ rows ↔ row ∈ rows') (target : StateSet) :
    lts.boxFrom rows target = lts'.boxFrom rows' target := by
  refine StateSet.ext ?_ fun i => ?_
  · rw [univ_boxFrom, univ_boxFrom, hcount]
  · rw [Bool.eq_iff_iff]
    refine mem_boxFrom.trans (Iff.trans ?_ mem_boxFrom.symm)
    rw [hcount]
    exact and_congr_right fun _ => forall_congr' fun S => imp_congr_left (hrows (i, S))

end

/-! ### What a solver sees -/

/-- **Two systems look the same to a solver**: it asks for the number of states and for the two
modalities. -/
structure LooksLike (lts lts' : Lts) : Prop where
  /-- as many states -/
  stateCount : lts.stateCount = lts'.stateCount
  /-- the same diamonds -/
  diamond : ∀ action target, lts.diamond action target = lts'.diamond action target
  /-- the same boxes -/
  box : ∀ action target, lts.box action target = lts'.box action target

/-- **Systems with the same transitions look the same.** -/
theorem looksLike_of_mem_iff (h : build fits first n ts = .ok lts)
    (h' : build fits' first n ts' = .ok lts') (hsame : ∀ t, t ∈ ts ↔ t ∈ ts') :
    LooksLike lts lts' := by
  have hcount : lts.stateCount = lts'.stateCount := (stateCount_eq h).trans (stateCount_eq h').symm
  have hrows := mem_successorSets_congr h h' hsame
  refine ⟨hcount, fun action target => ?_, fun action target => ?_⟩
  · refine diamondFrom_congr hcount (fun row hrow => ?_) (hrows action) target
    rw [stateCount_eq h]
    exact lt_of_mem_successorSets h hrow
  · exact boxFrom_congr hcount (hrows action) target

namespace LooksLike

theorem emptySet (h : LooksLike lts lts') : lts.emptySet = lts'.emptySet :=
  congrArg StateSet.empty h.stateCount

theorem fullSet (h : LooksLike lts lts') : lts.fullSet = lts'.fullSet :=
  congrArg StateSet.full h.stateCount

theorem startValue (h : LooksLike lts lts') (k : Kind) :
    Solver.startValue lts k = Solver.startValue lts' k := by
  cases k with
  | least => exact h.emptySet
  | greatest => exact h.fullSet

theorem roundLimit (h : LooksLike lts lts') : Solver.roundLimit lts = Solver.roundLimit lts' := by
  rw [Solver.roundLimit, Solver.roundLimit, h.stateCount]

/-- **Naive evaluation sees nothing else.** -/
theorem naive_eval (h : LooksLike lts lts') (limit : Nat) (f : Formula) (env : Solver.Bindings) :
    Solver.Naive.eval lts limit f env = Solver.Naive.eval lts' limit f env := by
  induction f generalizing env with
  | tt => rw [Solver.Naive.eval, Solver.Naive.eval, h.fullSet]
  | ff => rw [Solver.Naive.eval, Solver.Naive.eval, h.emptySet]
  | var x => rfl
  | and l r ihl ihr | or l r ihl ihr => rw [Solver.Naive.eval, Solver.Naive.eval, ihl, ihr]
  | dia a f ih => simp only [Solver.Naive.eval, ih, h.diamond]
  | box a f ih => simp only [Solver.Naive.eval, ih, h.box]
  | fix k b body ih => simp only [Solver.Naive.eval, ih, h.startValue]

theorem refresh (h : LooksLike lts lts') (scope : Solver.EmersonLei.Scope) (k : Kind) (b : Binder)
    (info : BinderInfo) : Solver.EmersonLei.refresh lts scope k b info =
      Solver.EmersonLei.refresh lts' scope k b info := by
  simp only [Solver.EmersonLei.refresh, Solver.EmersonLei.reset, h.startValue]

/-- **Evaluation with kept approximations sees nothing else.** -/
theorem emersonLei_eval (h : LooksLike lts lts') (limit : Nat) (analysis : Analysis)
    (bindings : Solver.Bindings) (f : Formula) (scope : Solver.EmersonLei.Scope) :
    Solver.EmersonLei.eval lts limit analysis bindings f scope =
      Solver.EmersonLei.eval lts' limit analysis bindings f scope := by
  induction f generalizing scope with
  | tt => rw [Solver.EmersonLei.eval, Solver.EmersonLei.eval, h.fullSet]
  | ff => rw [Solver.EmersonLei.eval, Solver.EmersonLei.eval, h.emptySet]
  | var x => rfl
  | and l r ihl ihr | or l r ihl ihr =>
    rw [Solver.EmersonLei.eval, Solver.EmersonLei.eval, ihl, ihr]
  | dia a f ih => simp only [Solver.EmersonLei.eval, ih, h.diamond]
  | box a f ih => simp only [Solver.EmersonLei.eval, ih, h.box]
  | fix k b body ih => simp only [Solver.EmersonLei.eval, ih, h.refresh]

theorem initial (h : LooksLike lts lts') (binders : List (Nat × Kind)) :
    Solver.EmersonLei.initial lts binders = Solver.EmersonLei.initial lts' binders := by
  simp only [Solver.EmersonLei.initial, h.startValue]

end LooksLike

end Lts

namespace Solver

variable {fits fits' : Nat → Bool} {first n : Nat} {ts ts' : List Transition} {lts lts' : Lts}

/-- **Neither the order of the transitions nor repetitions matter to the solvers**: whole runs are
the same, with the answer or the failure, what was counted, and the log. This is so in whatever
order each modality finds the successors. -/
theorem solve_reordered (h : Lts.build fits first n ts = .ok lts)
    (h' : Lts.build fits' first n ts' = .ok lts') (hsame : ∀ t, t ∈ ts ↔ t ∈ ts') :
    (∀ f bindings logging,
      Naive.solve lts f bindings logging = Naive.solve lts' f bindings logging ∧
      ∀ analysis, EmersonLei.solve lts f analysis bindings logging =
        EmersonLei.solve lts' f analysis bindings logging) ∧
    ∀ action target rows, rows.Perm (lts.successorSets action) →
      lts.diamondFrom rows target = lts'.diamond action target ∧
      lts.boxFrom rows target = lts'.box action target := by
  have hlooks := Lts.looksLike_of_mem_iff h h' hsame
  refine ⟨fun f bindings logging => ⟨?_, fun analysis => ?_⟩, fun action target rows hperm => ?_⟩
  · rw [Naive.solve, Naive.solve, hlooks.naive_eval, hlooks.roundLimit]
  · simp only [EmersonLei.solve, hlooks.emersonLei_eval, hlooks.roundLimit, hlooks.initial]
  · rw [← hlooks.diamond, ← hlooks.box]
    refine ⟨Lts.diamondFrom_congr rfl (fun row hrow => ?_) (fun _ => hperm.mem_iff) target,
      Lts.boxFrom_congr rfl (fun _ => hperm.mem_iff) target⟩
    rw [Lts.stateCount_eq h]
    exact Lts.lt_of_mem_successorSets h (hperm.mem_iff.1 hrow)

/-- The same two steps, one of them listed twice; the labels get each other's numbers. -/
theorem solve_reordered_swapped :
    ∃ lts lts' f, Lts.ofTransitions 0 2 [⟨0, "a", 1⟩, ⟨1, "b", 0⟩] = .ok lts ∧
      Lts.ofTransitions 0 2 [⟨1, "b", 0⟩, ⟨0, "a", 1⟩, ⟨1, "b", 0⟩] = .ok lts' ∧
      f = .fix .greatest ⟨0, 'X'⟩ (.fix .least ⟨1, 'Y'⟩
        (.or (.dia "a" (.var 'X')) (.and (.box "a" .ff) (.dia "b" (.var 'Y'))))) ∧
      Naive.solve lts f ∅ true = Naive.solve lts' f ∅ true ∧
      EmersonLei.solve lts f f.analyze ∅ true = EmersonLei.solve lts' f f.analyze ∅ true := by
  obtain ⟨lts, hlts⟩ :
    ∃ lts, Lts.ofTransitions 0 2 [⟨0, "a", 1⟩, ⟨1, "b", 0⟩] = .ok lts := ⟨_, rfl⟩
  obtain ⟨lts', hlts'⟩ :
    ∃ lts, Lts.ofTransitions 0 2 [⟨1, "b", 0⟩, ⟨0, "a", 1⟩, ⟨1, "b", 0⟩] = .ok lts := ⟨_, rfl⟩
  have hsame : ∀ t : Transition, t ∈ [⟨0, "a", 1⟩, ⟨1, "b", 0⟩] ↔
      t ∈ [⟨1, "b", 0⟩, ⟨0, "a", 1⟩, ⟨1, "b", 0⟩] := by
    intro t
    simp only [List.mem_cons, List.not_mem_nil, or_false]
    tauto
  obtain ⟨hnaive, hel⟩ := (solve_reordered hlts hlts' hsame).1 _ ∅ true
  exact ⟨lts, lts', _, hlts, hlts', rfl, hnaive, hel _⟩

end Solver

end ModalMu
