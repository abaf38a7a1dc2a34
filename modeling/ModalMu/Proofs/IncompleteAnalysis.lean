import ModalMu.Proofs.EmersonLei
import ModalMu.Proofs.Occurrences

/-!
# Runs with an incomplete analysis

A run may be given an analysis that lacks some of the formula's fixpoints, or that belongs to
another formula altogether. A record is used only where its variable and its kind are those of the
fixpoint that is entered, so a fixpoint without such a record is found out when it is first entered:

* `Analysis.knows` — whether there is such a record of a node;
* `Analysis.Trusted` — whatever is known of the nodes of a formula is what its own analysis says;
* `eval_congr` — evaluation depends on what is known of the formula's own nodes only;
* `eval_unanalyzed` — **evaluation gets to the first node in pre-order that is not known**, since
  all that comes before it returns;
* `solve_incomplete` — the failures of whole runs, and which of them comes first.
-/

namespace ModalMu

/-- Whether the record under the number of a node has its variable and its kind. -/
def Analysis.knows (a : Analysis) (g : Fixpoint) : Bool :=
  (a.get? g.binder.id).any fun info => info.var == g.binder.var && info.kind == g.kind

/-- **What is known of a formula can be trusted**: at each node there is the record of the formula's
own analysis, or none that has the variable and the kind of the node. -/
def Analysis.Trusted (a : Analysis) (f : Formula) : Prop :=
  ∀ g ∈ f.preorder, a.get? g.binder.id = f.analyze.get? g.binder.id ∨ a.knows g = false
  deriving Decidable

namespace Solver

namespace EmersonLei

variable {fits : Nat → Bool} {first n limit : Nat} {ts : List Transition} {lts : Lts}
  {analysis analysis' : Analysis} {bindings : Bindings} {scope : Scope} {k : Kind} {b : Binder}
  {body l r f : Formula} {g : Fixpoint}

/-! ### Known nodes -/

theorem annotation?_eq_none_iff :
    annotation? analysis g.kind g.binder = none ↔ analysis.knows g = false := by
  rw [annotation?, Analysis.knows]
  rcases analysis.get? g.binder.id with _ | info <;> simp [Option.filter]

/-- Of each known node of the formula there is the right record. -/
def Informed (analysis : Analysis) (f : Formula) : Prop :=
  ∀ g ∈ f.fixpoints, analysis.knows g = true → analysis.get? g.binder.id = some g.info

theorem Informed.mono (h : Informed analysis f) (hparts : body.fixpoints ⊆ f.fixpoints) :
    Informed analysis body := fun g hg => h g (hparts hg)

theorem informed_of_trusted (hids : f.binderIds.Nodup) (h : analysis.Trusted f) :
    Informed analysis f := by
  intro g hg hknown
  rcases h g (Formula.mem_preorder.2 hg) with hsame | hunknown
  · rw [hsame, Analysis.get?_analyze hids hg]
  · rw [hunknown] at hknown
    cases hknown

/-- When all nodes are known, the formula is described. -/
theorem Informed.describes (h : Informed analysis f)
    (hall : f.preorder.find? (fun g => !analysis.knows g) = none) : analysis.Describes f := by
  intro g hg
  have hknown := List.find?_eq_none.1 hall g (Formula.mem_preorder.2 hg)
  exact h g hg (by simpa using hknown)

/-- **Evaluation depends on what is known of the formula's own nodes only.** -/
theorem eval_congr
    (h : ∀ g ∈ f.fixpoints,
      annotation? analysis g.kind g.binder = annotation? analysis' g.kind g.binder)
    (scope : Scope) :
    eval lts limit analysis bindings f scope = eval lts limit analysis' bindings f scope := by
  induction f generalizing scope with
  | tt | ff | var _ => rfl
  | and l r ihl ihr | or l r ihl ihr =>
    rw [eval, eval, ihl (fun g hg => h g (List.mem_append_left _ hg)),
      ihr (fun g hg => h g (List.mem_append_right _ hg))]
  | dia a f ih | box a f ih => rw [eval, eval, ih h]
  | fix k b body ih =>
    rw [eval, eval, h ⟨k, b, body⟩ Formula.self_mem_fixpoints,
      ih (fun g hg => h g (List.mem_append_left _ hg))]

/-! ### The first unknown node -/

/-- **Evaluation of the formula stops at the first node that is not known**, in every scope that it
would fit into with another analysis. -/
def Stops (n : Nat) (ts : List Transition) (lts : Lts) (limit : Nat)
    (analysis analysis' : Analysis) (bindings : Bindings) (f : Formula) : Prop :=
  ∀ {scope : Scope} {p : Progress Approximations} {g : Fixpoint},
    Fits analysis' bindings scope f → Prepared n ts bindings scope f p.memory →
    Informed analysis f → f.preorder.find? (fun g => !analysis.knows g) = some g →
    Fails (eval lts limit analysis bindings f scope) p (.notAnalyzed g.binder.var)

namespace Stops

/-- The right side is evaluated only when all of the left side is known, and then the left side
returns. -/
theorem both (hcorrect : Correct n ts lts limit analysis bindings l)
    (hl : Stops n ts lts limit analysis analysis' bindings l)
    (hr : Stops n ts lts limit analysis analysis' bindings r) {p : Progress Approximations}
    (hfits : Fits analysis' bindings scope (.and l r))
    (hprep : Prepared n ts bindings scope (.and l r) p.memory)
    (hinformed : Informed analysis (.and l r))
    (hg : (l.and r).preorder.find? (fun g => !analysis.knows g) = some g)
    {join : StateSet → StateSet → Run Approximations StateSet} :
    Fails (do
      let a ← eval lts limit analysis bindings l scope
      let b ← eval lts limit analysis bindings r scope
      join a b) p (.notAnalyzed g.binder.var) := by
  have hinformedl : Informed analysis l := hinformed.mono (List.subset_append_left _ _)
  have hinformedr : Informed analysis r := hinformed.mono (List.subset_append_right _ _)
  rw [Formula.preorder_and, List.find?_append] at hg
  rcases hfind : l.preorder.find? (fun g => !analysis.knows g) with _ | h
  · rw [hfind, Option.none_or] at hg
    have hfitsl : Fits analysis bindings scope l :=
      ⟨hfits.left.ids, hfits.left.fresh, hinformedl.describes hfind, hfits.left.covered⟩
    refine (hcorrect scope p hfitsl hprep.left).bind_fails ?_
    rintro a p₁ ⟨-, -, hsame⟩
    have hprep₁ : Prepared n ts bindings scope r p₁.memory :=
      hprep.right.frame hsame (fun _ hid hid' => hfits.disjoint hid' hid) hfits.left.fresh
    exact (hr hfits.right hprep₁ hinformedr hg).bind
  · rw [hfind, Option.some_or] at hg
    obtain rfl := Option.some.inj hg
    exact (hl hfits.left hprep.left hinformedl hfind).bind

/-- **A fixpoint that is known is entered**, and its first round evaluates the body. -/
theorem fix (hcount : lts.stateCount = n) (hlimit : 0 < limit)
    (hbody : Stops n ts lts limit analysis analysis' bindings body) :
    Stops n ts lts limit analysis analysis' bindings (.fix k b body) := by
  intro scope p g hfits hprep hinformed hg
  rw [Formula.preorder_fix, List.find?_cons] at hg
  split at hg
  · rename_i hself
    obtain rfl := Option.some.inj hg
    exact (fails_require (annotation?_eq_none_iff.2 (by simpa using hself))).bind
  · rename_i hself
    have hself : analysis.knows ⟨k, b, body⟩ = true := by simpa using hself
    have hinfo : annotation? analysis k b = some (Fixpoint.info ⟨k, b, body⟩) :=
      annotation?_of_get? (hinformed ⟨k, b, body⟩ Formula.self_mem_fixpoints hself)
    refine fails_require_bind hinfo ((refresh_enters hcount hfits hprep).bind_fails ?_)
    rintro - p₁ ⟨start, -, -, hloop⟩
    refine fails_memory_bind (fails_require_bind hloop.stored (fails_modify_bind ?_))
    exact settle_fails hlimit (hbody hfits.inside hloop.prepared
      (hinformed.mono (List.subset_append_left _ _)) hg)

end Stops

/-- **Evaluation stops at the first node in pre-order that is not known.** -/
theorem eval_unanalyzed (hlts : Lts.build fits first n ts = .ok lts) (hlimit : n < limit)
    (hover : Bindings.Over n bindings) (f : Formula) :
    Stops n ts lts limit analysis analysis' bindings f := by
  have hcorrect : ∀ g, Correct n ts lts limit analysis bindings g := correct hlts hlimit hover
  induction f with
  | tt | ff | var _ =>
    intro scope p g _ _ _ hg
    cases hg
  | and l r ihl ihr =>
    intro scope p g hfits hprep hinformed hg
    exact Stops.both (hcorrect l) ihl ihr hfits hprep hinformed hg
  | or l r ihl ihr =>
    intro scope p g hfits hprep hinformed hg
    exact Stops.both (hcorrect l) ihl ihr (Fits.or_iff.1 hfits) (Prepared.or_iff.1 hprep)
      hinformed hg
  | dia a f ih | box a f ih =>
    intro scope p g hfits hprep hinformed hg
    exact (ih (by simpa using hfits) (by simpa using hprep) hinformed hg).bind
  | fix k b body ih => exact ih.fix (Lts.stateCount_eq hlts) (Nat.zero_lt_of_lt hlimit)

/-! ### Whole runs -/

/-- **The failures of a run with an incomplete analysis.** A variable without a value comes first,
namely the one whose free occurrence is the first. Otherwise the first fixpoint in pre-order that is
not known is to blame, and if there is none the run is the same as with the formula's own
analysis. -/
theorem solve_incomplete (hlts : Lts.build fits first n ts = .ok lts) {f : Formula}
    (hids : f.binderIds.Nodup) (hover : Bindings.Over n bindings) (htrusted : analysis.Trusted f)
    (logging : Bool) :
    match Bindings.missing? bindings f.freeOccurrences with
    | some x => (solve lts f analysis bindings logging).result = .error (.unboundVariable x)
    | none =>
      match f.preorder.find? (fun g => !analysis.knows g) with
      | some g =>
        (solve lts f analysis bindings logging).result = .error (.notAnalyzed g.binder.var)
      | none => solve lts f analysis bindings logging = solve lts f f.analyze bindings logging := by
  have hinformed := informed_of_trusted hids htrusted
  rcases hx : Bindings.missing? bindings f.freeOccurrences with _ | x
  · rcases hg : f.preorder.find? (fun g => !analysis.knows g) with _ | g
    · have hsame : ∀ g ∈ f.fixpoints,
          annotation? analysis g.kind g.binder = annotation? f.analyze g.kind g.binder := by
        intro g hmem
        rw [annotation?_of_get? (hinformed.describes hg g hmem),
          annotation?_of_get? (Analysis.get?_analyze hids hmem)]
      simp only [solve, eval_congr hsame]
    · have hfits := fits_analyze hids (Bindings.missing?_eq_none.1 hx)
      have hprep : Prepared n ts bindings [] f (initial lts f.scoping.binders) :=
        prepared_initial (Lts.stateCount_eq hlts) hids
      have hfails := eval_unanalyzed hlts (lt_roundLimit hlts) hover f
        (p := Progress.initial logging (initial lts f.scoping.binders)) hfits hprep hinformed hg
      simp only [solve, find?_scoping_free, hx]
      exact report_fails hfails
  · exact solve_fails lts analysis hx logging

/-- An analysis of another formula, which has the first two fixpoints in common with this one; under
the number of the third it has a fixpoint of the other kind. -/
theorem solve_incomplete_other_kind :
    ∃ lts f analysis bindings, Lts.ofTransitions 0 2 [⟨0, "a", 1⟩, ⟨1, "a", 0⟩] = .ok lts ∧
      f = .and (.fix .least ⟨0, 'X'⟩ (.fix .greatest ⟨1, 'Y'⟩
          (.or (.dia "a" (.var 'X')) (.and (.var 'Z') (.box "a" (.var 'Y'))))))
        (.fix .greatest ⟨2, 'W'⟩ (.dia "a" (.var 'W'))) ∧
      analysis = (Formula.and (.fix .least ⟨0, 'X'⟩ (.fix .greatest ⟨1, 'Y'⟩
          (.or (.dia "a" (.var 'X')) (.and (.var 'Z') (.box "a" (.var 'Y'))))))
        (.fix .least ⟨2, 'W'⟩ (.fix .greatest ⟨7, 'V'⟩ (.var 'W')))).analyze ∧
      bindings = (∅ : Bindings).insert 'Z' ((StateSet.empty 2).insert 1) ∧
      analysis.Trusted f ∧
      (solve lts f analysis bindings false).result = .error (.notAnalyzed 'W') := by
  obtain ⟨lts, hlts⟩ :
    ∃ lts, Lts.ofTransitions 0 2 [⟨0, "a", 1⟩, ⟨1, "a", 0⟩] = .ok lts := ⟨_, rfl⟩
  have hover : Bindings.Over 2 ((∅ : Bindings).insert 'Z' ((StateSet.empty 2).insert 1)) :=
    (Bindings.over_empty 2).insert 'Z' rfl
  have htrusted : (Formula.and (.fix .least ⟨0, 'X'⟩ (.fix .greatest ⟨1, 'Y'⟩
          (.or (.dia "a" (.var 'X')) (.and (.var 'Z') (.box "a" (.var 'Y'))))))
        (.fix .least ⟨2, 'W'⟩ (.fix .greatest ⟨7, 'V'⟩ (.var 'W')))).analyze.Trusted
      (.and (.fix .least ⟨0, 'X'⟩ (.fix .greatest ⟨1, 'Y'⟩
          (.or (.dia "a" (.var 'X')) (.and (.var 'Z') (.box "a" (.var 'Y'))))))
        (.fix .greatest ⟨2, 'W'⟩ (.dia "a" (.var 'W')))) := by
    decide
  exact ⟨lts, _, _, _, hlts, rfl, rfl, rfl, htrusted,
    solve_incomplete hlts (by decide) hover htrusted false⟩

end EmersonLei

end Solver

end ModalMu
