import ModalMu.Formula.Scoping
import Mathlib.Data.List.Induction
import Mathlib.Data.List.Nodup

/-!
# Free occurrences

The free occurrences of variables in a formula, from left to right and with repetitions, are what
both scoping computations boil down to:

* `Formula.freeOccurrences` — the occurrences that no enclosing fixpoint binds;
* `distinct` — a list without its repetitions, by first appearance;
* `freeVars_eq`, `scoping_free`, `scoping_binders` — the computation from the inside out and the
  one from the outside in both list the distinct free occurrences, and the latter also every
  fixpoint node;
* `isOpen_eq_false_iff` — a fixpoint is closed exactly when it has no free occurrence.
-/

namespace ModalMu

/-! ### Lists without repetitions -/

/-- The variables of a list by first appearance. -/
def distinct (xs : List Var) : List Var := xs.foldl addVar []

theorem distinct_concat (xs : List Var) (x : Var) :
    distinct (xs ++ [x]) = addVar (distinct xs) x := by
  simp [distinct]

theorem mem_foldl_addVar {acc xs : List Var} {y : Var} :
    y ∈ xs.foldl addVar acc ↔ y ∈ acc ∨ y ∈ xs := by
  induction xs generalizing acc with
  | nil => simp
  | cons x xs ih => rw [List.foldl_cons, ih, mem_addVar, List.mem_cons, or_assoc]

theorem mem_distinct {xs : List Var} {y : Var} : y ∈ distinct xs ↔ y ∈ xs := by
  simp [distinct, mem_foldl_addVar]

theorem nodup_distinct (xs : List Var) : (distinct xs).Nodup := by
  induction xs using List.reverseRecOn with
  | nil => exact List.nodup_nil
  | append_singleton xs x ih =>
    rw [distinct_concat, addVar]
    split
    · exact ih
    · rename_i hx
      exact List.nodup_append.2 ⟨ih, List.nodup_singleton x, fun y hy z hz => by
        rw [List.mem_singleton] at hz
        rintro rfl
        exact hx (hz ▸ hy)⟩

/-- Adding the variables of a list appends those that are new. -/
theorem foldl_addVar (acc xs : List Var) :
    xs.foldl addVar acc = acc ++ (distinct xs).filter (· ∉ acc) := by
  induction xs using List.reverseRecOn with
  | nil => simp [distinct]
  | append_singleton xs x ih =>
    rw [List.foldl_append, List.foldl_cons, List.foldl_nil, ih, distinct_concat]
    -- the last variable was there before the list, or occurs earlier in it, or is new
    by_cases hacc : x ∈ acc
    · have hold : x ∈ acc ++ (distinct xs).filter (· ∉ acc) := List.mem_append_left _ hacc
      rw [addVar, if_pos hold, addVar]
      split
      · rfl
      · simp [hacc]
    · by_cases hx : x ∈ distinct xs
      · have hold : x ∈ acc ++ (distinct xs).filter (· ∉ acc) := by simp [hx, hacc]
        rw [addVar, if_pos hold, addVar, if_pos hx]
      · have hnew : x ∉ acc ++ (distinct xs).filter (· ∉ acc) := by simp [hx, hacc]
        rw [addVar, if_neg hnew, addVar, if_neg hx, List.append_assoc]
        simp [hacc]

/-- Adding variables that are all new appends them. -/
theorem foldl_addVar_of_nodup {acc xs : List Var} (h : (acc ++ xs).Nodup) :
    xs.foldl addVar acc = acc ++ xs := by
  induction xs generalizing acc with
  | nil => simp
  | cons x xs ih =>
    have hx : x ∉ acc := fun hmem =>
      (List.nodup_append.1 h).2.2 x hmem x List.mem_cons_self rfl
    rw [List.foldl_cons, addVar, if_neg hx, ih (by simpa using h)]
    simp

/-- Nothing changes when the added list has lost its repetitions before. -/
theorem foldl_addVar_distinct (acc xs : List Var) :
    (distinct xs).foldl addVar acc = xs.foldl addVar acc := by
  have hself : distinct (distinct xs) = distinct xs :=
    foldl_addVar_of_nodup (List.nil_append (distinct xs) ▸ nodup_distinct xs)
  rw [foldl_addVar, hself, ← foldl_addVar]

theorem distinct_append (xs ys : List Var) :
    distinct (xs ++ ys) = (distinct ys).foldl addVar (distinct xs) := by
  rw [foldl_addVar_distinct, distinct, List.foldl_append]
  rfl

/-- Taking one variable out commutes with removing repetitions. -/
theorem erase_distinct (xs : List Var) (x : Var) :
    (distinct xs).erase x = distinct (xs.filter (· ≠ x)) := by
  induction xs using List.reverseRecOn with
  | nil => rfl
  | append_singleton xs y ih =>
    rw [distinct_concat, List.filter_append]
    by_cases hyx : y = x
    · subst hyx
      have hfilter : [y].filter (· ≠ y) = [] := by simp
      rw [hfilter, List.append_nil, ← ih, addVar]
      split
      · rfl
      · rename_i hy
        rw [List.erase_append_right _ hy, List.erase_of_not_mem hy]
        simp
    · have hfilter : [y].filter (· ≠ x) = [y] := by simp [hyx]
      rw [hfilter, distinct_concat, ← ih, addVar, addVar]
      have hmem : y ∈ (distinct xs).erase x ↔ y ∈ distinct xs := List.mem_erase_of_ne hyx
      by_cases hy : y ∈ distinct xs
      · rw [if_pos hy, if_pos (hmem.2 hy)]
      · rw [if_neg hy, if_neg fun h => hy (hmem.1 h), List.erase_append]
        split
        · rfl
        · rename_i hx
          rw [List.erase_of_not_mem hx, List.erase_of_not_mem (by simpa using Ne.symm hyx)]

/-- A search finds the same with and without repetitions. -/
theorem find?_distinct (p : Var → Bool) (xs : List Var) :
    (distinct xs).find? p = xs.find? p := by
  induction xs using List.reverseRecOn with
  | nil => rfl
  | append_singleton xs x ih =>
    rw [distinct_concat, List.find?_append, ← ih, addVar]
    split
    · rename_i hx
      rcases hfind : (distinct xs).find? p with _ | y
      · have hpx : p x = false := by
          have := List.find?_eq_none.1 hfind x hx
          simpa using this
        simp [hpx]
      · rfl
    · rw [List.find?_append]

/-! ### Free occurrences -/

namespace Formula

/-- **The occurrences of variables that are not bound**, from left to right. -/
def freeOccurrences : Formula → List Var
  | tt | ff => []
  | var x => [x]
  | and l r | or l r => l.freeOccurrences ++ r.freeOccurrences
  | dia _ f | box _ f => f.freeOccurrences
  | fix _ b body => body.freeOccurrences.filter (· ≠ b.var)

/-- **From the inside out**, the free variables are the distinct free occurrences. -/
theorem freeVars_eq (f : Formula) : f.freeVars = distinct f.freeOccurrences := by
  induction f with
  | tt | ff => rfl
  | var x => simp [freeVars, freeOccurrences, distinct, addVar]
  | and l r ihl ihr | or l r ihl ihr =>
    rw [freeVars, freeOccurrences, distinct_append, ihl, ihr]
  | dia a f ih | box a f ih => exact ih
  | fix k b body ih => rw [freeVars, freeOccurrences, ih, erase_distinct]

/-- What the walk from the outside in adds: the free occurrences that are not bound already, and
the fixpoint nodes. -/
theorem visit_eq (f : Formula) (bound : List Var) (s : Scoping) :
    Scoping.visit bound f s =
      ⟨s.binders ++ f.fixpoints.map fun g => (g.binder.id, g.kind),
       (f.freeOccurrences.filter (· ∉ bound)).foldl addVar s.free⟩ := by
  induction f generalizing bound s with
  | tt | ff => simp [Scoping.visit, fixpoints, freeOccurrences]
  | var x =>
    by_cases hx : x ∈ bound <;> simp [Scoping.visit, fixpoints, freeOccurrences, hx]
  | and l r ihl ihr | or l r ihl ihr =>
    rw [Scoping.visit, ihl, ihr]
    simp [fixpoints, freeOccurrences]
  | dia a f ih | box a f ih =>
    rw [Scoping.visit, ih]
    rfl
  | fix k b body ih =>
    rw [Scoping.visit, ih]
    simp [fixpoints, freeOccurrences, List.filter_filter, Bool.and_comm]

/-- **From the outside in**, the free variables are the distinct free occurrences as well. -/
theorem scoping_free (f : Formula) : f.scoping.free = distinct f.freeOccurrences := by
  have hall : f.freeOccurrences.filter (· ∉ []) = f.freeOccurrences :=
    List.filter_eq_self.2 fun x _ => by simp
  rw [scoping, visit_eq, hall]
  rfl

/-- The walk lists every fixpoint node, each after those inside it. -/
theorem scoping_binders (f : Formula) :
    f.scoping.binders = f.fixpoints.map fun g => (g.binder.id, g.kind) := by
  rw [scoping, visit_eq]
  rfl

end Formula

/-- **A fixpoint is closed exactly when nothing in its body is free but its own variable.** -/
theorem Fixpoint.isOpen_eq_false_iff {g : Fixpoint} :
    g.isOpen = false ↔ ∀ x ∈ g.body.freeOccurrences, x = g.binder.var := by
  have hempty : g.isOpen = false ↔ ∀ x, x ∉ g.toFormula.freeOccurrences := by
    rw [isOpen, Formula.freeVars_eq, Bool.not_eq_false', List.isEmpty_iff,
      List.eq_nil_iff_forall_not_mem]
    exact forall_congr' fun x => not_congr mem_distinct
  rw [hempty]
  refine forall_congr' fun x => ?_
  simp only [toFormula, Formula.freeOccurrences, List.mem_filter, decide_eq_true_eq, not_and,
    not_not]

end ModalMu
