import ModalMu.Proofs.Fixpoint
import ModalMu.Proofs.FreeVariables
import ModalMu.Proofs.Steps
import ModalMu.Solver.Solution

/-!
# The meaning of formulas

The meaning of a formula over a list of transitions is a set of states, under a valuation of its
variables. It is defined without any iteration: modalities quantify over the listed transitions,
and fixpoints are taken in the powerset of the states.

* `Formula.denote` — the meaning;
* `denote_mono` — it is monotone in the valuation, so every operator under a fixpoint is;
* `denote_congr` — it depends on the free occurrences only; `operator_eq_of_closed` says so of the
  operator of a closed fixpoint;
* `represents_diamond`, `represents_box` — the modalities of a built system are those of the
  meaning.
-/

namespace ModalMu

variable {n : Nat} {ts : List Transition}

/-- **The states in which a formula holds**, given where its variables hold. -/
def Formula.denote (ts : List Transition) : Formula → (Var → Set (Fin n)) → Set (Fin n)
  | .tt, _ => Set.univ
  | .ff, _ => ∅
  | .var x, ρ => ρ x
  | .and l r, ρ => l.denote ts ρ ∩ r.denote ts ρ
  | .or l r, ρ => l.denote ts ρ ∪ r.denote ts ρ
  | .dia a f, ρ => {s | ∃ t : Fin n, ⟨s, a, t⟩ ∈ ts ∧ t ∈ f.denote ts ρ}
  | .box a f, ρ => {s | ∀ t : Fin n, ⟨s, a, t⟩ ∈ ts → t ∈ f.denote ts ρ}
  | .fix k b body, ρ => k.fixpoint fun S => body.denote ts (Function.update ρ b.var S)

/-- What one round makes of an approximation of a fixpoint. -/
def Fixpoint.operator (ts : List Transition) (g : Fixpoint) (ρ : Var → Set (Fin n))
    (S : Set (Fin n)) : Set (Fin n) :=
  g.body.denote ts (Function.update ρ g.binder.var S)

/-! ### Monotonicity -/

/-- Valuations that move in the direction of a kind still do with one variable bound. -/
theorem Kind.Before.update {k : Kind} {ρ ρ' : Var → Set (Fin n)} (h : ∀ x, k.Before (ρ x) (ρ' x))
    (v : Var) {S S' : Set (Fin n)} (hS : k.Before S S') (x : Var) :
    k.Before (Function.update ρ v S x) (Function.update ρ' v S' x) := by
  by_cases hx : x = v
  · subst hx
    rwa [Function.update_self, Function.update_self]
  · rw [Function.update_of_ne hx, Function.update_of_ne hx]
    exact h x

/-- **The meaning grows with the valuation.** -/
theorem denote_mono (f : Formula) {ρ ρ' : Var → Set (Fin n)} (h : ∀ x, ρ x ⊆ ρ' x) :
    f.denote ts ρ ⊆ f.denote ts ρ' := by
  induction f generalizing ρ ρ' with
  | tt | ff => exact subset_rfl
  | var x => exact h x
  | and l r ihl ihr => exact Set.inter_subset_inter (ihl h) (ihr h)
  | or l r ihl ihr => exact Set.union_subset_union (ihl h) (ihr h)
  | dia a f ih =>
    rintro s ⟨t, hstep, ht⟩
    exact ⟨t, hstep, ih h ht⟩
  | box a f ih => exact fun s hs t hstep => ih h (hs t hstep)
  | fix k b body ih =>
    exact Kind.fixpoint_subset fun S => ih (Kind.Before.update (k := .least) h b.var subset_rfl)

namespace Fixpoint

variable {g : Fixpoint} {ρ ρ' : Var → Set (Fin n)}

theorem operator_mono (g : Fixpoint) (ρ : Var → Set (Fin n)) : Monotone (g.operator ts ρ) := by
  intro S S' hS
  exact denote_mono g.body (Kind.Before.update (k := .least) (fun _ => subset_rfl) g.binder.var hS)

/-- Operators move in the direction of a kind when their valuations do. -/
theorem operator_before {k : Kind} (h : ∀ x, k.Before (ρ x) (ρ' x)) (S : Set (Fin n)) :
    k.Before (g.operator ts ρ S) (g.operator ts ρ' S) := by
  have hupdate := Kind.Before.update h g.binder.var (Kind.Before.refl S)
  cases k with
  | least => exact denote_mono g.body hupdate
  | greatest => exact denote_mono g.body hupdate

end Fixpoint

/-! ### Dependence on free occurrences -/

/-- **The meaning depends on the free occurrences only.** -/
theorem denote_congr (f : Formula) {ρ ρ' : Var → Set (Fin n)}
    (h : ∀ x ∈ f.freeOccurrences, ρ x = ρ' x) : f.denote ts ρ = f.denote ts ρ' := by
  induction f generalizing ρ ρ' with
  | tt | ff => rfl
  | var x => exact h x List.mem_cons_self
  | and l r ihl ihr | or l r ihl ihr =>
    rw [Formula.denote, Formula.denote, ihl fun x hx => h x (List.mem_append_left _ hx),
      ihr fun x hx => h x (List.mem_append_right _ hx)]
  | dia a f ih | box a f ih => rw [Formula.denote, Formula.denote, ih h]
  | fix k b body ih =>
    have hop : ∀ S, body.denote ts (Function.update ρ b.var S) =
        body.denote ts (Function.update ρ' b.var S) := by
      -- the bound variable has the same value on both sides, and the others are free outside too
      intro S
      refine ih fun x hx => ?_
      by_cases hxv : x = b.var
      · subst hxv
        rw [Function.update_self, Function.update_self]
      · rw [Function.update_of_ne hxv, Function.update_of_ne hxv]
        exact h x (List.mem_filter.2 ⟨hx, by simpa using hxv⟩)
    rw [Formula.denote, Formula.denote, funext hop]

/-- The operator of a closed fixpoint is the same under every valuation. -/
theorem Fixpoint.operator_eq_of_closed {g : Fixpoint} (h : g.isOpen = false)
    (ρ ρ' : Var → Set (Fin n)) : g.operator ts ρ = g.operator ts ρ' := by
  funext S
  refine denote_congr g.body fun x hx => ?_
  obtain rfl := isOpen_eq_false_iff.1 h x hx
  rw [Function.update_self, Function.update_self]

/-! ### Modalities -/

section

variable {fits : Nat → Bool} {first : Nat} {lts : Lts} {action : String} {target : StateSet}
  {f : Formula} {ρ : Var → Set (Fin n)}

/-- Every step of a built system leads to one of its states. -/
theorem target_lt (h : Lts.build fits first n ts = .ok lts) {i j : Nat}
    (hstep : ⟨i, action, j⟩ ∈ ts) : j < n := by
  obtain ⟨-, hrange, -⟩ := Lts.build_eq_ok h
  exact (hrange _ hstep).2

/-- The diamond of a built system is that of the meaning. -/
theorem represents_diamond (h : Lts.build fits first n ts = .ok lts)
    (htarget : target.Represents (f.denote ts ρ)) :
    (lts.diamond action target).Represents ((Formula.dia action f).denote ts ρ) := by
  refine ⟨(Lts.univ_diamond action target).trans (Lts.stateCount_eq h), ?_⟩
  ext i
  rw [StateSet.mem_toSet, Lts.mem_diamond h, Formula.denote, ← htarget.toSet]
  refine ⟨?_, ?_⟩
  · rintro ⟨j, hstep, hj⟩
    exact ⟨⟨j, target_lt h hstep⟩, hstep, hj⟩
  · rintro ⟨j, hstep, hj⟩
    exact ⟨j, hstep, hj⟩

/-- The box of a built system is that of the meaning. -/
theorem represents_box (h : Lts.build fits first n ts = .ok lts)
    (htarget : target.Represents (f.denote ts ρ)) :
    (lts.box action target).Represents ((Formula.box action f).denote ts ρ) := by
  refine ⟨(Lts.univ_box action target).trans (Lts.stateCount_eq h), ?_⟩
  ext i
  rw [StateSet.mem_toSet, Lts.mem_box h htarget.univ, Formula.denote, ← htarget.toSet]
  refine ⟨?_, ?_⟩
  · rintro ⟨-, hall⟩ j hstep
    exact hall j hstep
  · intro hall
    exact ⟨i.isLt, fun j hstep => hall ⟨j, target_lt h hstep⟩ hstep⟩

end

/-! ### Valuations of a caller -/

namespace Solver

/-- The values are sets over `n` states. -/
def Bindings.Over (n : Nat) (env : Bindings) : Prop :=
  ∀ (x : Var) (s : StateSet), env[x]? = some s → s.univ = n

/-- Where variables hold, by their values; a variable without one holds nowhere. -/
def Bindings.valuation (n : Nat) (env : Bindings) : Var → Set (Fin n) :=
  fun x => (env.getD x (StateSet.empty n)).toSet n

/-- The first variable of a list that has no value. -/
def Bindings.missing? (env : Bindings) (xs : List Var) : Option Var :=
  xs.find? fun x => !env.contains x

theorem Bindings.missing?_eq_none {env : Bindings} {xs : List Var} :
    env.missing? xs = none ↔ ∀ x ∈ xs, x ∈ env := by
  rw [missing?, List.find?_eq_none]
  exact forall₂_congr fun x _ => by simp

theorem Bindings.over_empty (n : Nat) : Bindings.Over n ∅ := by
  intro x s hs
  simp at hs

theorem Bindings.Over.insert {env : Bindings} (h : Bindings.Over n env) (v : Var) {s : StateSet}
    (hs : s.univ = n) : Bindings.Over n (env.insert v s) := by
  intro x t ht
  rw [Std.TreeMap.getElem?_insert] at ht
  split at ht
  · obtain rfl := Option.some.inj ht
    exact hs
  · exact h x t ht

theorem Bindings.valuation_insert (env : Bindings) (v : Var) (s : StateSet) :
    Bindings.valuation n (env.insert v s) =
      Function.update (Bindings.valuation n env) v (s.toSet n) := by
  funext x
  rw [valuation, Std.TreeMap.getD_insert, Function.update_apply]
  by_cases hx : x = v
  · subst hx
    simp
  · rw [if_neg hx, if_neg fun h => hx (Std.compare_eq_iff_eq.1 h).symm]
    rfl

end Solver

end ModalMu
