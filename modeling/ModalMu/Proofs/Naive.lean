import ModalMu.Proofs.Loop
import ModalMu.Solver.Naive

/-!
# Naive evaluation computes the meaning

Every fixpoint starts from the bottom (or the top) of the powerset, so its loop is on the way to the
fixpoint from the beginning, and the values of the enclosing fixpoints do not change while it runs.

* `Naive.eval_returns` — under values for the free variables, evaluation returns the meaning, if
  its loops may take one round more than there are states;
* `Naive.eval_extends` — a higher limit changes nothing;
* `Naive.eval_fails` — otherwise it fails at the first free occurrence without a value;
* `Naive.solve_denotes` — the whole run.
-/

namespace ModalMu

namespace Solver

namespace Naive

variable {fits : Nat → Bool} {first n limit : Nat} {ts : List Transition} {lts : Lts}

/-- **Evaluation returns the meaning** of a formula whose free variables have values, when its loops
may take a round more than there are states. -/
theorem eval_returns (hlts : Lts.build fits first n ts = .ok lts) (hlimit : n < limit)
    (f : Formula) {env : Bindings} (hover : Bindings.Over n env)
    (hcover : ∀ x ∈ f.freeOccurrences, x ∈ env) (p : Progress Unit) :
    Returns (eval lts limit f env) p fun s _ =>
      s.Represents (f.denote ts (Bindings.valuation n env)) := by
  have hcount : lts.stateCount = n := Lts.stateCount_eq hlts
  induction f generalizing env p with
  | tt =>
    refine Returns.pure ?_
    rw [Lts.fullSet, hcount]
    exact StateSet.represents_full
  | ff =>
    refine Returns.pure ?_
    rw [Lts.emptySet, hcount]
    exact StateSet.represents_empty
  | var x =>
    obtain ⟨s, hs⟩ := Option.isSome_iff_exists.1
      (Std.TreeMap.mem_iff_isSome_getElem?.1 (hcover x List.mem_cons_self))
    refine returns_require hs ⟨hover x s hs, ?_⟩
    rw [Formula.denote, Bindings.valuation, Std.TreeMap.getD_eq_getD_getElem?, hs]
    rfl
  | and l r ihl ihr =>
    refine (ihl hover (fun x hx => hcover x (List.mem_append_left _ hx)) p).bind ?_
    intro a p₁ ha
    refine (ihr hover (fun x hx => hcover x (List.mem_append_right _ hx)) p₁).bind ?_
    intro b p₂ hb
    obtain ⟨s, hinter, hs⟩ := ha.inter? hb
    exact returns_combine hinter hs
  | or l r ihl ihr =>
    refine (ihl hover (fun x hx => hcover x (List.mem_append_left _ hx)) p).bind ?_
    intro a p₁ ha
    refine (ihr hover (fun x hx => hcover x (List.mem_append_right _ hx)) p₁).bind ?_
    intro b p₂ hb
    obtain ⟨s, hunion, hs⟩ := ha.union? hb
    exact returns_combine hunion hs
  | dia a f ih =>
    refine (ih hover hcover p).bind ?_
    intro s p₁ hs
    exact Returns.pure (represents_diamond hlts hs)
  | box a f ih =>
    refine (ih hover hcover p).bind ?_
    intro s p₁ hs
    exact Returns.pure (represents_box hlts hs)
  | fix k b body ih =>
    have hstart := represents_startValue hcount k
    have hbody : ∀ (current : StateSet) (q : Progress Unit), current.univ = n → True →
        Returns (eval lts limit body (env.insert b.var current)) q fun next _ =>
          next.Represents (Fixpoint.operator ts ⟨k, b, body⟩ (Bindings.valuation n env)
            (current.toSet n)) ∧ True := by
      intro current q hcurrent _
      have hcover' : ∀ x ∈ body.freeOccurrences, x ∈ env.insert b.var current := by
        intro x hx
        rw [Std.TreeMap.mem_insert, Std.compare_eq_iff_eq]
        by_cases hxb : b.var = x
        · exact Or.inl hxb
        · exact Or.inr (hcover x (List.mem_filter.2 ⟨hx, by simpa using Ne.symm hxb⟩))
      refine (ih (hover.insert b.var hcurrent) hcover' q).imp ?_
      intro next q' hnext
      rw [Bindings.valuation_insert] at hnext
      exact ⟨hnext, trivial⟩
    refine returns_modify_bind (returns_modify_bind ?_)
    -- nothing is remembered between rounds, so the invariant of the loop is trivial
    refine (settle_returns (k := k) (I := fun _ _ => True)
      (Fixpoint.operator_mono ⟨k, b, body⟩ (Bindings.valuation n env)) hbody
      (fun _ _ _ _ _ _ => Returns.pure trivial) hstart.univ ?_ trivial ?_).imp ?_
    · rw [hstart.toSet]
      exact Kind.LeadsTo.start
    · exact Nat.lt_of_le_of_lt (Kind.remaining_le _) hlimit
    · rintro s q ⟨hs, -⟩
      exact hs

/-- **A higher limit extends evaluation.** -/
theorem eval_extends {limit' : Nat} (hle : limit ≤ limit') (f : Formula) (env : Bindings) :
    Extends (eval lts limit f env) (eval lts limit' f env) := by
  induction f generalizing env with
  | tt | ff | var _ => exact Extends.refl _
  | and l r ihl ihr | or l r ihl ihr =>
    exact (ihl env).bind fun _ => (ihr env).bind fun _ => Extends.refl _
  | dia a f ih | box a f ih => exact (ih env).bind fun _ => Extends.refl _
  | fix k b body ih =>
    exact (Extends.refl _).bind fun _ => (Extends.refl _).bind fun _ =>
      settle_extends (fun current => ih (env.insert b.var current)) hle 1 _

/-- **Evaluation fails at the first free occurrence without a value.** -/
theorem eval_fails (hlts : Lts.build fits first n ts = .ok lts) (hlimit : n < limit)
    (f : Formula) {env : Bindings} (hover : Bindings.Over n env) {x : Var}
    (hx : Bindings.missing? env f.freeOccurrences = some x) (p : Progress Unit) :
    Fails (eval lts limit f env) p (.unboundVariable x) := by
  induction f generalizing env p with
  | tt | ff => cases hx
  | var y =>
    obtain ⟨hy, hmem⟩ : env.contains x = false ∧ x = y := by
      have hfound := List.find?_some hx
      have hmem := List.mem_of_find?_eq_some hx
      exact ⟨by simpa using hfound, by simpa [Formula.freeOccurrences] using hmem⟩
    subst hmem
    exact fails_require (Std.TreeMap.getElem?_eq_none_of_contains_eq_false hy)
  | and l r ihl ihr | or l r ihl ihr =>
    rw [Formula.freeOccurrences, Bindings.missing?, List.find?_append] at hx
    rcases hl : Bindings.missing? env l.freeOccurrences with _ | y
    · rw [Bindings.missing?] at hl
      rw [hl, Option.none_or] at hx
      refine (eval_returns hlts hlimit l hover (Bindings.missing?_eq_none.1 hl) p).bind_fails ?_
      intro a p₁ _
      exact (ihr hover hx p₁).bind
    · rw [Bindings.missing?] at hl
      rw [hl, Option.some_or] at hx
      obtain rfl := Option.some.inj hx
      exact (ihl hover hl p).bind
  | dia a f ih | box a f ih => exact (ih hover hx p).bind
  | fix k b body ih =>
    have hstart := represents_startValue (Lts.stateCount_eq hlts) k
    have hinner : Bindings.missing? (env.insert b.var (startValue lts k)) body.freeOccurrences =
        some x := by
      rw [Formula.freeOccurrences, Bindings.missing?, List.find?_filter] at hx
      rw [Bindings.missing?, ← hx]
      congr 1
      funext y
      rw [Std.TreeMap.contains_insert]
      by_cases hy : y = b.var
      · simp [hy]
      · have hne : compare b.var y ≠ .eq := fun h => hy (Std.compare_eq_iff_eq.1 h).symm
        simp [hy, hne]
    -- the first round meets the occurrence
    refine fails_modify_bind (fails_modify_bind ?_)
    exact settle_fails (Nat.zero_lt_of_lt hlimit) (ih (hover.insert b.var hstart.univ) hinner _)

/-! ### Whole runs -/

/-- **The run fails with the first free occurrence that the caller gives no value.** -/
theorem solve_fails (hlts : Lts.build fits first n ts = .ok lts) (f : Formula)
    {bindings : Bindings} (hover : Bindings.Over n bindings) {x : Var}
    (hx : Bindings.missing? bindings f.freeOccurrences = some x) (logging : Bool) :
    (solve lts f bindings logging).result = .error (.unboundVariable x) :=
  report_fails (eval_fails hlts (lt_roundLimit hlts) f hover hx _)

/-- **The run returns the meaning.** -/
theorem solve_returns (hlts : Lts.build fits first n ts = .ok lts) (f : Formula)
    {bindings : Bindings} (hover : Bindings.Over n bindings)
    (hcover : ∀ x ∈ f.freeOccurrences, x ∈ bindings) (logging : Bool) :
    ∃ states p',
      eval lts (roundLimit lts) f bindings (Progress.initial logging ()) = .ok states p' ∧
      (solve lts f bindings logging).result = .ok ⟨states, p'.counters⟩ ∧
      states.Represents (f.denote ts (Bindings.valuation n bindings)) := by
  obtain ⟨states, p', hrun, hstates⟩ :=
    eval_returns hlts (lt_roundLimit hlts) f hover hcover (Progress.initial logging ())
  exact ⟨states, p', hrun, report_result_of_ok .naive hrun, hstates⟩

/-- **Naive evaluation computes the meaning of every formula.** The run returns the set of states
that the formula denotes over the transitions. No loop takes more than one round more than there are
states: the run is the same with every limit above their number. -/
theorem solve_denotes (hlts : Lts.build fits first n ts = .ok lts) (f : Formula)
    {bindings : Bindings} (hover : Bindings.Over n bindings)
    (hcover : ∀ x ∈ f.freeOccurrences, x ∈ bindings) (logging : Bool) :
    ∃ states p', (solve lts f bindings logging).result = .ok ⟨states, p'.counters⟩ ∧
      states.Represents (f.denote ts (Bindings.valuation n bindings)) ∧
      ∀ limit, n < limit →
        eval lts limit f bindings (Progress.initial logging ()) = .ok states p' := by
  obtain ⟨states, p', hrun, hresult, hstates⟩ := solve_returns hlts f hover hcover logging
  refine ⟨states, p', hresult, hstates, fun limit hlimit => ?_⟩
  obtain ⟨states', q, hrun', -⟩ :=
    eval_returns hlts (Nat.lt_succ_self n) f hover hcover (Progress.initial logging ())
  -- the run with the lowest limit extends to both others
  have hsame : eval lts (roundLimit lts) f bindings (Progress.initial logging ()) = .ok states' q :=
    eval_extends (Nat.succ_le_of_lt (lt_roundLimit hlts)) f bindings _ _ _ hrun'
  rw [hrun] at hsame
  cases hsame
  exact eval_extends (Nat.succ_le_of_lt hlimit) f bindings _ _ _ hrun'

/-- A number used twice, a variable that is read again after it was shadowed, and one that the
caller gives a value. -/
theorem solve_denotes_shadowed :
    ∃ lts f bindings, Lts.ofTransitions 0 2 [⟨0, "a", 1⟩] = .ok lts ∧
      f = .fix .least ⟨0, 'X'⟩ (.or
        (.and (.fix .greatest ⟨0, 'X'⟩ (.box "a" (.var 'X'))) (.var 'Y')) (.dia "a" (.var 'X'))) ∧
      bindings = (∅ : Bindings).insert 'Y' ((StateSet.empty 2).insert 1) ∧
      ∃ states p', (solve lts f bindings true).result = .ok ⟨states, p'.counters⟩ ∧
        states.Represents (f.denote (n := 2) [⟨0, "a", 1⟩] (Bindings.valuation 2 bindings)) ∧
        eval lts 3 f bindings (Progress.initial true ()) = .ok states p' := by
  obtain ⟨lts, hlts⟩ : ∃ lts, Lts.ofTransitions 0 2 [⟨0, "a", 1⟩] = .ok lts := ⟨_, rfl⟩
  have hover : Bindings.Over 2 ((∅ : Bindings).insert 'Y' ((StateSet.empty 2).insert 1)) :=
    Bindings.Over.insert (fun x s hs => by simp at hs) 'Y' rfl
  refine ⟨lts, _, _, hlts, rfl, rfl, ?_⟩
  obtain ⟨states, p', hresult, hstates, hlimit⟩ := solve_denotes hlts
    (.fix .least ⟨0, 'X'⟩ (.or
      (.and (.fix .greatest ⟨0, 'X'⟩ (.box "a" (.var 'X'))) (.var 'Y')) (.dia "a" (.var 'X'))))
    hover (by simp [Formula.freeOccurrences]) true
  exact ⟨states, p', hresult, hstates, hlimit 3 (by decide)⟩

end Naive

end Solver

end ModalMu
