import Mathlib.Data.List.Basic
import ModalMu.Proofs.Dependency

/-!
# Occurrences of variables and what binds them

An occurrence of a variable is taken together with the fixpoints above it. It is free when none of
these binds its variable, however often the variable is bound elsewhere.

* `Formula.occurrences` — all occurrences from left to right; `freeOccurrences_eq` finds the free
  ones among them;
* `FirstAppearances` — a list without its repetitions, by first appearance. **Both scoping
  computations list the free occurrences so** (`scoping_free_eq_freeVars`);
* `Formula.preorder` — the fixpoint nodes, each before those inside it, and `Formula.nestings` — the
  same with the fixpoints around each of them;
* `Fixpoint.Recorded` — what the dependency analysis is to say of a node, in terms of occurrences.
  **The analysis says this of every node, and nothing else** (`analyze_exact`).
-/

namespace ModalMu

/-- **An occurrence of a variable.** -/
structure Occurrence where
  /-- the variable -/
  var : Var
  /-- the fixpoints above it, outermost first -/
  above : List Binder
  deriving DecidableEq, Repr

namespace Occurrence

/-- No fixpoint above binds the variable. -/
def IsFree (o : Occurrence) : Prop := ∀ b ∈ o.above, b.var ≠ o.var
  deriving Decidable

/-- The occurrence with one more fixpoint around it. -/
def under (b : Binder) (o : Occurrence) : Occurrence := { o with above := b :: o.above }

theorem isFree_under {b : Binder} {o : Occurrence} :
    (o.under b).IsFree ↔ o.IsFree ∧ o.var ≠ b.var := by
  rw [IsFree, under, List.forall_mem_cons, and_comm, ne_comm]
  rfl

end Occurrence

namespace Formula

/-- **All occurrences of variables**, from left to right. -/
def occurrences : Formula → List Occurrence
  | tt | ff => []
  | var x => [⟨x, []⟩]
  | and l r | or l r => l.occurrences ++ r.occurrences
  | dia _ f | box _ f => f.occurrences
  | fix _ b body => body.occurrences.map (Occurrence.under b)

/-- The variables that occur without being bound, from left to right. -/
theorem freeOccurrences_eq (f : Formula) :
    f.freeOccurrences = (f.occurrences.filter (·.IsFree)).map (·.var) := by
  induction f with
  | tt | ff | var _ => rfl
  | and l r ihl ihr | or l r ihl ihr =>
    rw [freeOccurrences, occurrences, List.filter_append, List.map_append, ihl, ihr]
  | dia a f ih | box a f ih => exact ih
  | fix k b body ih =>
    have hfree : ∀ o : Occurrence,
        decide (o.under b).IsFree = (decide (o.var ≠ b.var) && decide o.IsFree) := by
      intro o
      rw [← Bool.decide_and, decide_eq_decide, Occurrence.isFree_under, and_comm]
    rw [freeOccurrences, occurrences, ih, List.filter_map, List.filter_map, List.filter_filter,
      List.map_map]
    simp only [Function.comp_def, hfree]
    rfl

end Formula

/-! ### First appearances -/

/-- **The members of `xs` by first appearance**: each of them once, and in the order in which they
appear first. -/
structure FirstAppearances (xs vars : List Var) : Prop where
  /-- the same members -/
  mem_iff : ∀ x, x ∈ vars ↔ x ∈ xs
  /-- each once -/
  nodup : vars.Nodup
  /-- one that appears earlier is listed earlier -/
  ordered : vars.Pairwise fun x y => xs.idxOf x < xs.idxOf y

theorem firstAppearances_distinct (xs : List Var) : FirstAppearances xs (distinct xs) := by
  refine ⟨fun _ => mem_distinct, nodup_distinct xs, ?_⟩
  induction xs using List.reverseRecOn with
  | nil => exact List.Pairwise.nil
  | append_singleton xs x ih =>
    have hfront : ∀ y ∈ distinct xs, (xs ++ [x]).idxOf y = xs.idxOf y :=
      fun y hy => List.idxOf_append_of_mem (mem_distinct.1 hy)
    have hold : (distinct xs).Pairwise fun y z => (xs ++ [x]).idxOf y < (xs ++ [x]).idxOf z := by
      refine ih.imp_of_mem fun hy hz hlt => ?_
      rwa [hfront _ hy, hfront _ hz]
    rw [distinct_concat, addVar]
    split
    · exact hold
    · rename_i hx
      refine List.pairwise_append.2 ⟨hold, List.pairwise_singleton _ _, fun y hy z hz => ?_⟩
      -- the new variable appears first at the end
      obtain rfl := List.mem_singleton.1 hz
      rw [hfront y hy, List.idxOf_append_of_notMem fun hmem => hx (mem_distinct.2 hmem)]
      have hlt : xs.idxOf y < xs.length := List.idxOf_lt_length_iff.2 (mem_distinct.1 hy)
      exact Nat.lt_of_lt_of_le hlt (Nat.le_add_right _ _)

/-! ### Nodes in both orders -/

/-- All fixpoint nodes, each before those inside it. -/
def Formula.preorder (f : Formula) : List Fixpoint := f.subformulas.filterMap asFixpoint?

theorem Formula.preorder_and (l r : Formula) : (l.and r).preorder = l.preorder ++ r.preorder := by
  rw [preorder, subformulas, List.filterMap_cons_none rfl, List.filterMap_append]
  rfl

theorem Formula.preorder_fix (k : Kind) (b : Binder) (body : Formula) :
    (fix k b body).preorder = ⟨k, b, body⟩ :: body.preorder := rfl

/-- The two orders list the same nodes. -/
theorem Formula.fixpoints_perm_preorder (f : Formula) : f.fixpoints.Perm f.preorder := by
  induction f with
  | tt | ff | var _ => exact List.Perm.nil
  | and l r ihl ihr | or l r ihl ihr =>
    rw [fixpoints]
    exact (ihl.append ihr).trans (List.Perm.of_eq (preorder_and l r).symm)
  | dia a f ih | box a f ih => exact ih
  | fix k b body ih =>
    rw [fixpoints, preorder_fix]
    exact (List.perm_append_singleton _ _).trans (ih.cons _)

theorem Formula.mem_preorder {f : Formula} {g : Fixpoint} : g ∈ f.preorder ↔ g ∈ f.fixpoints :=
  (f.fixpoints_perm_preorder.mem_iff).symm

/-! ### Nestings -/

/-- **For each fixpoint of a formula the fixpoints around it**, outermost first, and itself at the
end. -/
def Formula.nestings : Formula → List (List Fixpoint)
  | tt | ff | var _ => []
  | and l r | or l r => l.nestings ++ r.nestings
  | dia _ f | box _ f => f.nestings
  | fix k b body => ([] :: body.nestings).map (⟨k, b, body⟩ :: ·)

theorem Formula.ne_nil_of_mem_nestings {f : Formula} {path : List Fixpoint}
    (h : path ∈ f.nestings) : path ≠ [] := by
  induction f with
  | tt | ff | var _ => cases h
  | and l r ihl ihr | or l r ihl ihr => exact (List.mem_append.1 h).elim ihl ihr
  | dia a f ih | box a f ih => exact ih h
  | fix k b body ih =>
    obtain ⟨rest, -, rfl⟩ := List.mem_map.1 h
    exact List.cons_ne_nil _ _

/-- **Nestings come in the order in which their fixpoints begin.** -/
theorem Formula.map_getLast?_nestings (f : Formula) :
    f.nestings.map List.getLast? = f.preorder.map some := by
  induction f with
  | tt | ff | var _ => rfl
  | and l r ihl ihr | or l r ihl ihr =>
    rw [nestings, List.map_append, ihl, ihr, ← List.map_append]
    exact congrArg _ (preorder_and l r).symm
  | dia a f ih | box a f ih => exact ih
  | fix k b body ih =>
    rw [nestings, List.map_cons, List.map_cons, List.map_map, preorder_fix, List.map_cons, ← ih]
    refine congrArg _ (List.map_congr_left fun path hpath => ?_)
    obtain ⟨g, path, rfl⟩ := List.exists_cons_of_ne_nil (ne_nil_of_mem_nestings hpath)
    exact List.getLast?_cons_cons

theorem Formula.mem_fixpoints_of_mem_nestings {f : Formula} {path : List Fixpoint} {g : Fixpoint}
    (hpath : path ∈ f.nestings) (hg : g ∈ path) : g ∈ f.fixpoints := by
  induction f generalizing path with
  | tt | ff | var _ => cases hpath
  | and l r ihl ihr | or l r ihl ihr =>
    rcases List.mem_append.1 hpath with hpath | hpath
    · exact List.mem_append_left _ (ihl hpath hg)
    · exact List.mem_append_right _ (ihr hpath hg)
  | dia a f ih | box a f ih => exact ih hpath hg
  | fix k b body ih =>
    obtain ⟨rest, hrest, rfl⟩ := List.mem_map.1 hpath
    rcases List.mem_cons.1 hg with rfl | hg
    · exact self_mem_fixpoints
    · rcases List.mem_cons.1 hrest with rfl | hrest
      · cases hg
      · exact List.mem_append_left _ (ih hrest hg)

/-! ### The two scoping computations -/

/-- **The two scoping computations agree.** Both list the variables with a free occurrence, each
once and by its first free occurrence. The walk also lists every fixpoint node, after those inside
it. When the numbers of the nodes are distinct, none is listed twice, and the analysis has a node
open exactly when the walk finds a free variable in it. -/
theorem scoping_free_eq_freeVars (f : Formula) :
    f.scoping.free = f.freeVars ∧
      FirstAppearances ((f.occurrences.filter (·.IsFree)).map (·.var)) f.freeVars ∧
      f.scoping.binders = f.fixpoints.map (fun g => (g.binder.id, g.kind)) ∧
      f.fixpoints.Perm f.preorder ∧
      (f.binderIds.Nodup → f.scoping.binders.Nodup ∧
        ∀ g ∈ f.preorder, ∃ info, f.analyze.get? g.binder.id = some info ∧
          (info.isOpen = true ↔ g.toFormula.scoping.free ≠ [])) := by
  have hsame : ∀ g : Formula, g.scoping.free = g.freeVars := by
    intro g
    rw [Formula.scoping_free, Formula.freeVars_eq]
  refine ⟨hsame f, ?_, f.scoping_binders, f.fixpoints_perm_preorder, fun hids => ⟨?_, ?_⟩⟩
  · rw [← Formula.freeOccurrences_eq, Formula.freeVars_eq]
    exact firstAppearances_distinct _
  · rw [Formula.scoping_binders]
    refine List.Nodup.of_map Prod.fst ?_
    rwa [List.map_map]
  · intro g hg
    refine ⟨g.info, Analysis.get?_analyze hids (Formula.mem_preorder.1 hg), ?_⟩
    have hopen : g.info.isOpen = !g.toFormula.freeVars.isEmpty := rfl
    rw [hopen, hsame, Bool.not_eq_true', List.isEmpty_eq_false_iff]

/-- A variable that is bound again inside its scope, and two that are free. -/
theorem scoping_free_eq_freeVars_shadowed :
    ∃ f, f = Formula.fix .least ⟨4, 'X'⟩ (.and (.or (.var 'Y') (.var 'X'))
        (.fix .greatest ⟨2, 'X'⟩ (.and (.var 'Z') (.or (.var 'X') (.var 'Y'))))) ∧
      f.binderIds.Nodup ∧ f.freeVars = ['Y', 'Z'] ∧ f.scoping.free = f.freeVars ∧
      FirstAppearances ['Y', 'Z', 'Y'] f.freeVars ∧ f.scoping.binders.Nodup ∧
      ∀ g ∈ f.preorder, ∃ info, f.analyze.get? g.binder.id = some info ∧
        (info.isOpen = true ↔ g.toFormula.scoping.free ≠ []) := by
  obtain ⟨hsame, hfirst, -, -, hdistinct⟩ := scoping_free_eq_freeVars
    (.fix .least ⟨4, 'X'⟩ (.and (.or (.var 'Y') (.var 'X'))
      (.fix .greatest ⟨2, 'X'⟩ (.and (.var 'Z') (.or (.var 'X') (.var 'Y'))))))
  have hids := hdistinct (by decide)
  exact ⟨_, rfl, by decide, by decide, hsame, hfirst, hids⟩

/-! ### The analysis -/

/-- The nodes inside a node are listed in the order of the formula. -/
theorem Formula.fixpoints_sublist {f : Formula} {g : Fixpoint} (hg : g ∈ f.fixpoints) :
    g.body.fixpoints.Sublist f.fixpoints := by
  induction f with
  | tt | ff | var _ => cases hg
  | and l r ihl ihr | or l r ihl ihr =>
    rcases List.mem_append.1 hg with hg | hg
    · exact (ihl hg).trans (List.sublist_append_left _ _)
    · exact (ihr hg).trans (List.sublist_append_right _ _)
  | dia a f ih | box a f ih => exact ih hg
  | fix k b body ih =>
    rcases List.mem_append.1 hg with hg | hg
    · exact (ih hg).trans (List.sublist_append_left _ _)
    · obtain rfl := List.mem_singleton.1 hg
      exact List.sublist_append_left _ _

namespace Fixpoint

/-- **The fixpoint is open**: some variable occurs in it that neither it nor a fixpoint inside it
binds there. -/
def IsOpen (g : Fixpoint) : Prop := ∃ o ∈ g.toFormula.occurrences, o.IsFree
  deriving Decidable

theorem isOpen_iff {g : Fixpoint} : g.isOpen = true ↔ g.IsOpen := by
  have hmem : ∀ x, x ∈ g.toFormula.freeVars ↔
      ∃ o ∈ g.toFormula.occurrences, o.IsFree ∧ o.var = x := by
    intro x
    rw [Formula.freeVars_eq, mem_distinct, Formula.freeOccurrences_eq, List.mem_map]
    simp only [List.mem_filter, decide_eq_true_eq, and_assoc]
  rw [isOpen, Bool.not_eq_true', List.isEmpty_eq_false_iff_exists_mem]
  refine ⟨?_, ?_⟩
  · rintro ⟨x, hx⟩
    obtain ⟨o, ho, hfree, -⟩ := (hmem x).1 hx
    exact ⟨o, ho, hfree⟩
  · rintro ⟨o, ho, hfree⟩
    exact ⟨o.var, (hmem o.var).2 ⟨o, ho, hfree, rfl⟩⟩

/-- **What is to be recorded about a node**, in terms of occurrences. -/
structure Recorded (g : Fixpoint) (info : BinderInfo) : Prop where
  /-- its variable -/
  var : info.var = g.binder.var
  /-- its kind -/
  kind : info.kind = g.kind
  /-- whether it is open -/
  isOpen : info.isOpen = true ↔ g.IsOpen
  /-- the numbers of the open nodes of its kind inside it, each after those inside it -/
  openInside : info.openInside =
    (g.body.fixpoints.filter fun h => h.kind = g.kind ∧ h.IsOpen).map (·.binder.id)
  /-- none twice -/
  nodup : info.openInside.Nodup

theorem info_openInside (g : Fixpoint) : g.info.openInside =
    (g.body.fixpoints.filter fun h => h.kind = g.kind ∧ h.IsOpen).map (·.binder.id) := by
  refine congrArg (List.map _) (List.filter_congr fun h _ => ?_)
  rw [Bool.eq_iff_iff, Bool.and_eq_true, beq_iff_eq, decide_eq_true_eq, isOpen_iff, and_comm]

theorem recorded_info {f : Formula} (hids : f.binderIds.Nodup) {g : Fixpoint}
    (hg : g ∈ f.fixpoints) : g.Recorded g.info where
  var := rfl
  kind := rfl
  isOpen := isOpen_iff
  openInside := g.info_openInside
  nodup := by
    rw [info_openInside]
    exact hids.sublist ((List.filter_sublist.trans (Formula.fixpoints_sublist hg)).map _)

/-- There is only one such record. -/
theorem Recorded.eq_info {g : Fixpoint} {info : BinderInfo} (h : g.Recorded info) :
    info = g.info := by
  obtain ⟨var, kind, isOpen, openInside⟩ := info
  obtain ⟨rfl, rfl, hopen, hinside, -⟩ := h
  rw [← isOpen_iff] at hopen
  obtain rfl : isOpen = g.isOpen := Bool.eq_iff_iff.2 hopen
  rw [← info_openInside] at hinside
  subst hinside
  rfl

end Fixpoint

namespace Analysis

variable {f : Formula}

/-- Nothing is recorded under other numbers. -/
theorem get?_analyze_of_notMem {id : Nat} (hid : id ∉ f.binderIds) :
    f.analyze.get? id = none := by
  have hflags : (f.fixpoints.foldl record empty).get? id = none :=
    get?_foldl_of_not_mem (fun a g i hne => by rw [get?_record, if_neg hne]) hid
  rw [Formula.analyze, ← hflags]
  exact get?_foldl_of_not_mem (fun a g i hne => by rw [get?_link, if_neg hne]) hid

/-- Everything that is recorded belongs to a node. -/
theorem get?_analyze_eq_some_iff (hids : f.binderIds.Nodup) {id : Nat} {info : BinderInfo} :
    f.analyze.get? id = some info ↔ ∃ g ∈ f.fixpoints, g.binder.id = id ∧ g.info = info := by
  refine ⟨fun h => ?_, ?_⟩
  · have hid : id ∈ f.binderIds := by
      by_contra hnot
      rw [get?_analyze_of_notMem hnot] at h
      cases h
    obtain ⟨g, hg, rfl⟩ := List.mem_map.1 hid
    rw [get?_analyze hids hg] at h
    exact ⟨g, hg, rfl, Option.some.inj h⟩
  · rintro ⟨g, hg, rfl, rfl⟩
    exact get?_analyze hids hg

/-- There are as many records as nodes. -/
theorem size_analyze (hids : f.binderIds.Nodup) : f.analyze.size = f.fixpoints.length := by
  have hkeys : f.analyze.binders.keys.Perm f.binderIds := by
    refine (List.perm_ext_iff_of_nodup Std.TreeMap.nodup_keys hids).2 fun id => ?_
    rw [Std.TreeMap.mem_keys, Std.TreeMap.mem_iff_isSome_getElem?, Option.isSome_iff_exists]
    refine (exists_congr fun info => get?_analyze_eq_some_iff hids).trans ⟨?_, fun h => ?_⟩
    · rintro ⟨_, g, hg, rfl, -⟩
      exact List.mem_map_of_mem hg
    · obtain ⟨g, hg, rfl⟩ := List.mem_map.1 h
      exact ⟨g.info, g, hg, rfl, rfl⟩
  rw [size, ← Std.TreeMap.length_keys, hkeys.length_eq, Formula.binderIds, List.length_map]

end Analysis

/-- **The dependency analysis is exact.** When the numbers of the fixpoint nodes are distinct, there
is one record for each node, and it says of the node what is to be recorded. -/
theorem analyze_exact {f : Formula} (hids : f.binderIds.Nodup) :
    f.analyze.size = f.preorder.length ∧
      ∀ id info, f.analyze.get? id = some info ↔
        ∃ g ∈ f.preorder, g.binder.id = id ∧ g.Recorded info := by
  refine ⟨?_, fun id info => ?_⟩
  · rw [Analysis.size_analyze hids, f.fixpoints_perm_preorder.length_eq]
  · rw [Analysis.get?_analyze_eq_some_iff hids]
    refine exists_congr fun g => ?_
    rw [Formula.mem_preorder]
    refine and_congr_right fun hg => and_congr_right fun _ => ⟨?_, fun h => h.eq_info.symm⟩
    rintro rfl
    exact Fixpoint.recorded_info hids hg

/-- Open nodes inside a node of the other kind and inside a closed one, which binds the variable of
the outermost node again. -/
theorem analyze_exact_nested :
    ∃ f, f = Formula.fix .least ⟨0, 'X'⟩ (.or
        (.fix .greatest ⟨1, 'Y'⟩
          (.and (.var 'X') (.fix .least ⟨2, 'Z'⟩ (.or (.var 'Y') (.var 'Z')))))
        (.fix .least ⟨3, 'X'⟩ (.fix .greatest ⟨4, 'V'⟩
          (.and (.var 'V') (.fix .least ⟨5, 'W'⟩ (.var 'X')))))) ∧
      f.binderIds.Nodup ∧ f.analyze.size = 6 ∧
      f.analyze.get? 0 = some ⟨'X', .least, false, [2, 5]⟩ := by
  obtain ⟨hsize, hget⟩ := analyze_exact (f := .fix .least ⟨0, 'X'⟩ (.or
    (.fix .greatest ⟨1, 'Y'⟩ (.and (.var 'X') (.fix .least ⟨2, 'Z'⟩ (.or (.var 'Y') (.var 'Z')))))
    (.fix .least ⟨3, 'X'⟩ (.fix .greatest ⟨4, 'V'⟩
      (.and (.var 'V') (.fix .least ⟨5, 'W'⟩ (.var 'X'))))))) (by decide)
  refine ⟨_, rfl, by decide, hsize, (hget 0 _).2 ⟨_, List.mem_cons_self, rfl, ?_⟩⟩
  exact ⟨rfl, rfl, by decide, by decide, by decide⟩

end ModalMu
