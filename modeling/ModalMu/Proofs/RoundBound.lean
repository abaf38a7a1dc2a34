import ModalMu.Proofs.Depth
import ModalMu.Proofs.Occurrences
import ModalMu.Proofs.Trace
import Mathlib.Data.List.SplitBy
import Mathlib.Algebra.BigOperators.Ring.List
import Mathlib.Algebra.Order.BigOperators.Group.List

/-!
# How many rounds a run takes

Evaluation with remembered approximations is exponential only in the alternation of kinds. The
argument is amortised: inside one entry of a block of fixpoints of one kind no member of the block
is set back, so all its members together have only so many moves left.

* `blockProduct` — the product, over the blocks of one kind in a nesting (a fixpoint and the ones
  around it), of one more than all moves that the members of the block can make;
* `cost`, `potential` — what an evaluation costs when nothing in the block around it moves, and what
  the moves that are left in this block can add to that;
* `Trace.rounds_le` — **the rounds of an evaluation are paid by its cost and by the potential that
  it uses up**;
* `solve_iterations_le` — the bound for whole runs. Without alternation it is linear, and nothing is
  ever set back.
-/

namespace ModalMu

namespace Solver

namespace EmersonLei

variable {fits : Nat → Bool} {first n : Nat} {ts : List Transition} {lts : Lts}
  {bindings : Bindings} {outer : Option Kind} {k : Kind} {b : Binder} {body l r f : Formula}
  {m m' : Approximations} {g : Fixpoint} {path : List Fixpoint} {s : StateSet}
  {run : List Moment}

namespace Moment

/-- How many rounds a moment tells of. -/
def rounds (q : Moment) : Nat := q.event.rounds

theorem rounds_le_one (q : Moment) : q.rounds ≤ 1 := q.event.rounds_le_one

/-- How many fixpoints are set back at a moment. -/
def resetCount (q : Moment) : Nat := q.event.resets

end Moment

/-- **The product over the blocks of a nesting**, where a block is a longest row of fixpoints of one
kind. -/
def blockProduct (n : Nat) (path : List Fixpoint) : Nat :=
  ((path.splitBy fun g h => g.kind == h.kind).map fun block => block.length * n + 1).prod

/-- Whether a fixpoint continues a block of the given kind. -/
def continues (outer : Option Kind) (g : Fixpoint) : Bool := outer == some g.kind

/-- The product over the blocks of a nesting that are not the one around it. -/
def weight (n : Nat) (outer : Option Kind) (path : List Fixpoint) : Nat :=
  blockProduct n (path.dropWhile (continues outer))

/-- The moves that are left to the part of a nesting that continues the block around it. -/
noncomputable def credit (n : Nat) (m : Approximations) (outer : Option Kind)
    (path : List Fixpoint) : Nat :=
  ((path.takeWhile (continues outer)).map fun g => g.kind.remaining (value n m g.binder.id)).sum

/-- **What an evaluation costs** when nothing in the block around it moves. -/
def cost (n : Nat) (outer : Option Kind) (f : Formula) : Nat :=
  (f.nestings.map (weight n outer)).sum

/-- **What the moves that are left can add** to the cost of evaluations. -/
noncomputable def potential (n : Nat) (m : Approximations) (outer : Option Kind) (f : Formula) :
    Nat :=
  (f.nestings.map fun path => credit n m outer path * weight n outer path).sum

/-! ### Blocks -/

theorem continues_iff : continues outer g = true ↔ outer = some g.kind := beq_iff_eq

theorem kind_of_mem_takeWhile (hg : g ∈ path.takeWhile (continues (some k))) : g.kind = k := by
  have hall := List.all_eq_true.1 List.all_takeWhile g hg
  exact (Option.some.inj (continues_iff.1 hall)).symm

/-- A row of fixpoints of one kind is a block. -/
theorem splitBy_of_uniform (hne : path ≠ []) (hkind : ∀ g ∈ path, g.kind = k) :
    (path.splitBy fun g h => g.kind == h.kind) = [path] := by
  refine List.splitBy_of_isChain hne (List.Pairwise.isChain ?_)
  refine List.pairwise_of_forall_mem_list fun g hg h hh => ?_
  rw [hkind g hg, hkind h hh]
  exact beq_self_eq_true k

theorem blockProduct_of_uniform (hne : path ≠ []) (hkind : ∀ g ∈ path, g.kind = k) :
    blockProduct n path = path.length * n + 1 := by
  rw [blockProduct, splitBy_of_uniform hne hkind]
  simp

/-- **The first block of a nesting** comes before the others. -/
theorem blockProduct_cons (n : Nat) (g : Fixpoint) (path : List Fixpoint) :
    blockProduct n (g :: path) =
      (((g :: path).takeWhile (continues (some g.kind))).length * n + 1) *
        weight n (some g.kind) (g :: path) := by
  have hne : (g :: path).takeWhile (continues (some g.kind)) ≠ [] := by
    rw [List.takeWhile_cons_of_pos (continues_iff.2 rfl)]
    exact List.cons_ne_nil _ _
  have hother : ∀ h ∈ ((g :: path).dropWhile (continues (some g.kind))).head?, g.kind ≠ h.kind := by
    intro h hh heq
    have hfalse := List.head?_dropWhile_not (continues (some g.kind)) (g :: path)
    rw [hh] at hfalse
    exact Bool.false_ne_true (hfalse.symm.trans (continues_iff.2 (congrArg some heq)))
  have hsplit : ((g :: path).splitBy fun g h => g.kind == h.kind) =
      (g :: path).takeWhile (continues (some g.kind)) ::
        ((g :: path).dropWhile (continues (some g.kind))).splitBy fun g h => g.kind == h.kind := by
    conv_lhs =>
      rw [← List.takeWhile_append_dropWhile (p := continues (some g.kind)) (l := g :: path)]
    rw [List.splitBy_append, splitBy_of_uniform hne fun h hh => kind_of_mem_takeWhile hh]
    · rfl
    · intro x hx y hy
      rw [kind_of_mem_takeWhile (List.mem_of_getLast? hx), beq_eq_false_iff_ne]
      exact hother y hy
  rw [blockProduct, hsplit, List.map_cons, List.prod_cons]
  rfl

theorem credit_le : credit n m outer path ≤ (path.takeWhile (continues outer)).length * n := by
  have hsum := List.sum_le_card_nsmul
    ((path.takeWhile (continues outer)).map fun g => g.kind.remaining (value n m g.binder.id)) n
    fun x hx => by
      obtain ⟨g, -, rfl⟩ := List.mem_map.1 hx
      exact Kind.remaining_le _
  rwa [List.length_map] at hsum

/-! ### Cost and potential of each construct -/

theorem cost_and : cost n outer (.and l r) = cost n outer l + cost n outer r := by
  rw [cost, Formula.nestings, List.map_append, List.sum_append]
  rfl

theorem potential_and :
    potential n m outer (.and l r) = potential n m outer l + potential n m outer r := by
  rw [potential, Formula.nestings, List.map_append, List.sum_append]
  rfl

theorem weight_cons (n : Nat) (g : Fixpoint) (path : List Fixpoint) :
    weight n (some g.kind) (g :: path) = weight n (some g.kind) path := by
  rw [weight, List.dropWhile_cons_of_pos (continues_iff.2 rfl)]
  rfl

theorem credit_cons (n : Nat) (m : Approximations) (g : Fixpoint) (path : List Fixpoint) :
    credit n m (some g.kind) (g :: path) =
      g.kind.remaining (value n m g.binder.id) + credit n m (some g.kind) path := by
  rw [credit, List.takeWhile_cons_of_pos (continues_iff.2 rfl), List.map_cons, List.sum_cons]
  rfl

/-- A sum over the nestings of a fixpoint: its own one, and those of the body continued. -/
theorem sum_nestings_fix (F : List Fixpoint → Nat) :
    ((Formula.fix k b body).nestings.map F).sum =
      F [⟨k, b, body⟩] + (body.nestings.map fun path => F (⟨k, b, body⟩ :: path)).sum := by
  simp [Formula.nestings, Function.comp_def]

/-- In its own block a fixpoint costs one round. -/
theorem cost_fix : cost n (some k) (.fix k b body) = 1 + cost n (some k) body := by
  have hweight : ∀ path, weight n (some k) (⟨k, b, body⟩ :: path) = weight n (some k) path :=
    weight_cons n ⟨k, b, body⟩
  rw [cost, sum_nestings_fix, hweight]
  simp only [hweight]
  rfl

/-- In its own block a move of a fixpoint may cost a round and an evaluation of the body. -/
theorem potential_fix :
    potential n m (some k) (.fix k b body) =
      k.remaining (value n m b.id) * (1 + cost n (some k) body) + potential n m (some k) body := by
  have hterm : ∀ path, credit n m (some k) (⟨k, b, body⟩ :: path) *
      weight n (some k) (⟨k, b, body⟩ :: path) =
        k.remaining (value n m b.id) * weight n (some k) path +
          credit n m (some k) path * weight n (some k) path := by
    intro path
    rw [weight_cons n ⟨k, b, body⟩, credit_cons n m ⟨k, b, body⟩, Nat.add_mul]
  have hnil : weight n (some k) [] = 1 ∧ credit n m (some k) [] = 0 := ⟨rfl, rfl⟩
  rw [potential, sum_nestings_fix, hterm]
  simp only [hterm, List.sum_map_add, List.sum_map_mul_left, hnil.1, hnil.2]
  rw [cost, potential, Nat.mul_add]
  omega

theorem potential_fix_of_ne (h : outer ≠ some k) :
    potential n m outer (.fix k b body) = 0 := by
  have hcredit : ∀ path, credit n m outer (⟨k, b, body⟩ :: path) = 0 := by
    intro path
    rw [credit, List.takeWhile_cons_of_neg fun hc => h (continues_iff.1 hc)]
    rfl
  rw [potential, sum_nestings_fix, hcredit]
  simp [hcredit]

/-- **Entering a block** pays for all moves that its members can make. -/
theorem cost_add_potential_le (h : outer ≠ some k) :
    cost n (some k) (.fix k b body) + potential n m (some k) (.fix k b body) ≤
      cost n outer (.fix k b body) := by
  rw [cost, potential, ← List.sum_map_add]
  refine List.sum_le_sum fun path hpath => ?_
  obtain ⟨rest, -, rfl⟩ := List.mem_map.1 hpath
  have houter : weight n outer (⟨k, b, body⟩ :: rest) = blockProduct n (⟨k, b, body⟩ :: rest) := by
    rw [weight, List.dropWhile_cons_of_neg fun hc => h (continues_iff.1 hc)]
  have hcredit : credit n m (some k) (⟨k, b, body⟩ :: rest) ≤ _ := credit_le
  rw [houter, blockProduct_cons, Nat.add_comm, ← Nat.succ_mul]
  exact Nat.mul_le_mul_right _ (Nat.succ_le_succ hcredit)

/-- Outside all fixpoints there is no block around. -/
theorem cost_none : cost n none f = (f.nestings.map (blockProduct n)).sum := by
  refine congrArg List.sum (List.map_congr_left fun path _ => ?_)
  cases path <;> rfl

theorem potential_none : potential n m none f = 0 := by
  refine List.sum_eq_zero fun x hx => ?_
  obtain ⟨path, -, rfl⟩ := List.mem_map.1 hx
  have hcredit : credit n m none path = 0 := by cases path <;> rfl
  rw [hcredit, Nat.zero_mul]

/-- Only what is remembered of the formula's own fixpoints matters. -/
theorem potential_congr (h : ∀ id ∈ f.binderIds, m'[id]? = m[id]?) :
    potential n m' outer f = potential n m outer f := by
  refine congrArg List.sum (List.map_congr_left fun path hpath => ?_)
  refine congrArg (· * weight n outer path) (congrArg List.sum (List.map_congr_left fun g hg => ?_))
  have hmem : g ∈ f.fixpoints :=
    Formula.mem_fixpoints_of_mem_nestings hpath ((List.takeWhile_sublist _).subset hg)
  rw [value_congr (h _ (List.mem_map_of_mem hmem))]

/-! ### Rounds -/

/-- **The rounds of a loop** inside its block. Each round costs an evaluation of the body, and each
but the last one uses up a move of the fixpoint. -/
theorem Rounds.rounds_le {E : Approximations → StateSet → List Moment → Approximations → Prop}
    {i : Nat} {current : StateSet} (h : Rounds n k b E i current m s run m')
    (hb : b.id ∉ body.binderIds)
    (hE : ∀ m s run m', E m s run m' → m'[b.id]? = m[b.id]? ∧
      (run.map Moment.rounds).sum + potential n m' (some k) body ≤
        cost n (some k) body + potential n m (some k) body)
    (hm : m[b.id]? = some current) :
    (run.map Moment.rounds).sum + potential n m' (some k) (.fix k b body) ≤
      cost n (some k) (.fix k b body) + potential n m (some k) (.fix k b body) := by
  rw [potential_fix, potential_fix, cost_fix]
  induction h with
  | @rest i current m m' run hbody =>
    obtain ⟨hsame, hle⟩ := hE _ _ _ _ hbody
    have hone := Moment.rounds_le_one ⟨m', .approximation b i current⟩
    rw [value_congr hsame, List.map_append, List.sum_append, List.map_singleton,
      List.sum_singleton]
    omega
  | @move i current next s m m₁ m' run run' hbody hmoves _ ih =>
    obtain ⟨hsame, hle⟩ := hE _ _ _ _ hbody
    have hone := Moment.rounds_le_one ⟨m₁, .approximation b i next⟩
    have hrest := ih Std.TreeMap.getElem?_insert_self
    have hbody' : potential n (m₁.insert b.id next) (some k) body =
        potential n m₁ (some k) body := by
      refine potential_congr fun id hid => getElem?_insert_of_ne ?_ next
      rintro rfl
      exact hb hid
    rw [hbody', value_eq Std.TreeMap.getElem?_insert_self] at hrest
    -- the move that was made pays for this round
    have hpaid := Nat.mul_le_mul_right (1 + cost n (some k) body)
      (Nat.succ_le_of_lt hmoves.remaining_lt)
    rw [Nat.succ_mul] at hpaid
    rw [value_eq hm, List.map_append, List.sum_append, List.map_cons, List.sum_cons]
    omega

/-- Entering a fixpoint is not a round. -/
theorem Enters.rounds_eq_zero (h : Enters lts outer g m run m') :
    (run.map Moment.rounds).sum = 0 := by
  cases h with
  | fresh _ | idle _ _ => rfl
  | anew _ _ => rfl

/-- **The rounds of an evaluation** are paid by its cost and by the potential that it uses up. -/
theorem Trace.rounds_le (h : Trace n ts lts outer f m s run m') (hids : f.binderIds.Nodup) :
    (run.map Moment.rounds).sum + potential n m' outer f ≤
      cost n outer f + potential n m outer f := by
  induction f generalizing outer m s run m' with
  | tt | ff | var _ =>
    obtain ⟨rfl, rfl⟩ := h
    simp
  | and l r ihl ihr | or l r ihl ihr =>
    obtain ⟨a, run₁, m₁, b, run₂, hl, hr, rfl⟩ := h
    obtain ⟨hidsl, hidsr, hdisjoint⟩ := Formula.nodup_binderIds_and.1 hids
    have hlel := ihl hl hidsl
    have hler := ihr hr hidsr
    -- neither side changes the potential of the other
    have hpotl : potential n m' outer l = potential n m₁ outer l :=
      potential_congr fun id hid => hr.unchanged id (hdisjoint id hid)
    have hpotr : potential n m₁ outer r = potential n m outer r :=
      potential_congr fun id hid => hl.unchanged id fun hid' => hdisjoint id hid' hid
    change _ + potential n m' outer (.and l r) ≤
      cost n outer (.and l r) + potential n m outer (.and l r)
    rw [cost_and, potential_and, potential_and, hpotl, ← hpotr, List.map_append, List.sum_append]
    omega
  | dia a f ih | box a f ih =>
    obtain ⟨a, hf⟩ := h
    exact ih hf hids
  | fix k b body ih =>
    obtain ⟨run₀, m₁, start, run₁, henters, hstart, hrounds, rfl, -⟩ := h
    obtain ⟨hidsb, hself⟩ := Formula.nodup_binderIds_fix.1 hids
    have hloop := hrounds.rounds_le hself (fun m s run m' htrace =>
      ⟨htrace.unchanged b.id hself, ih htrace hidsb⟩) hstart
    have hsum : ((run₀ ++ ⟨m₁, .approximation b 0 start⟩ :: run₁).map Moment.rounds).sum =
        (run₁.map Moment.rounds).sum := by
      rw [List.map_append, List.sum_append, henters.rounds_eq_zero, List.map_cons, List.sum_cons]
      simp [Moment.rounds, Event.rounds]
    rw [hsum]
    by_cases houter : outer = some k
    · subst houter
      -- inside its own block nothing is set back on entering
      have hsame : m₁ = m := by
        cases henters with
        | fresh _ | idle _ _ => rfl
        | anew hopposite _ => cases k <;> cases hopposite
      rwa [hsame] at hloop
    · have henter : cost n (some k) (.fix k b body) + potential n m₁ (some k) (.fix k b body) ≤
          cost n outer (.fix k b body) := cost_add_potential_le houter
      rw [potential_fix_of_ne houter, potential_fix_of_ne houter]
      omega

/-! ### Formulas without alternation -/

/-- A nesting is a single block when all fixpoints inside one have its kind. -/
theorem uniform_of_mem_nestings
    (hkinds : ∀ g ∈ f.fixpoints, ∀ h ∈ g.body.fixpoints, h.kind = g.kind)
    (hpath : path ∈ f.nestings) : path ≠ [] ∧ ∃ k, ∀ g ∈ path, g.kind = k := by
  induction f with
  | tt | ff | var _ => cases hpath
  | and l r ihl ihr | or l r ihl ihr =>
    rcases List.mem_append.1 hpath with hpath | hpath
    · exact ihl (fun g hg => hkinds g (List.mem_append_left _ hg)) hpath
    · exact ihr (fun g hg => hkinds g (List.mem_append_right _ hg)) hpath
  | dia a f ih | box a f ih => exact ih hkinds hpath
  | fix k b body _ =>
    obtain ⟨rest, hrest, rfl⟩ := List.mem_map.1 hpath
    refine ⟨List.cons_ne_nil _ _, k, fun g hg => ?_⟩
    rcases List.mem_cons.1 hg with rfl | hg
    · rfl
    · rcases List.mem_cons.1 hrest with rfl | hrest
      · cases hg
      · exact hkinds _ Formula.self_mem_fixpoints g
          (Formula.mem_fixpoints_of_mem_nestings hrest hg)

theorem Rounds.resets_eq_zero {E : Approximations → StateSet → List Moment → Approximations → Prop}
    {i : Nat} {current : StateSet} (h : Rounds n k b E i current m s run m')
    (hE : ∀ m s run m', E m s run m' → (run.map Moment.resetCount).sum = 0) :
    (run.map Moment.resetCount).sum = 0 := by
  induction h with
  | rest hbody =>
    rw [List.map_append, List.sum_append, hE _ _ _ _ hbody]
    rfl
  | move hbody _ _ ih =>
    rw [List.map_append, List.sum_append, hE _ _ _ _ hbody, List.map_cons, List.sum_cons, ih]
    rfl

/-- **Nothing is set back** when all fixpoints inside one have its kind. -/
theorem Trace.resets_eq_zero (h : Trace n ts lts outer f m s run m')
    (hkinds : ∀ g ∈ f.fixpoints, ∀ h ∈ g.body.fixpoints, h.kind = g.kind)
    (houter : ∀ g ∈ f.fixpoints, outer ≠ some g.kind.opposite) :
    (run.map Moment.resetCount).sum = 0 := by
  induction f generalizing outer m s run m' with
  | tt | ff | var _ =>
    obtain ⟨rfl, -⟩ := h
    rfl
  | and l r ihl ihr | or l r ihl ihr =>
    obtain ⟨a, run₁, m₁, b, run₂, hl, hr, rfl⟩ := h
    rw [List.map_append, List.sum_append,
      ihl hl (fun g hg => hkinds g (List.mem_append_left _ hg))
        (fun g hg => houter g (List.mem_append_left _ hg)),
      ihr hr (fun g hg => hkinds g (List.mem_append_right _ hg))
        (fun g hg => houter g (List.mem_append_right _ hg))]
  | dia a f ih | box a f ih =>
    obtain ⟨a, hf⟩ := h
    exact ih hf hkinds houter
  | fix k b body ih =>
    obtain ⟨run₀, m₁, start, run₁, henters, -, hrounds, rfl, -⟩ := h
    have henter : (run₀.map Moment.resetCount).sum = 0 := by
      cases henters with
      | fresh _ | idle _ _ => rfl
      | anew hopposite _ => exact absurd hopposite (houter _ Formula.self_mem_fixpoints)
    have hloop := hrounds.resets_eq_zero fun m s run m' htrace =>
      ih htrace (fun g hg => hkinds g (List.mem_append_left _ hg)) fun g hg hopposite => by
        rw [hkinds _ Formula.self_mem_fixpoints g hg] at hopposite
        cases k <;> cases hopposite
    rw [List.map_append, List.sum_append, henter, List.map_cons, List.sum_cons, hloop]
    rfl

/-! ### Whole runs -/

/-- **Emerson-Lei evaluation is exponential only in the alternation.** The rounds of a run are
bounded by a sum over all fixpoints, in which each block of one kind around a fixpoint counts as one
factor. -/
theorem solve_iterations_le (hlts : Lts.build fits first n ts = .ok lts) {f : Formula}
    (hids : f.binderIds.Nodup) (hover : Bindings.Over n bindings)
    (hcovered : ∀ x ∈ f.freeOccurrences, x ∈ bindings) (logging : Bool) :
    ∃ solution, (solve lts f f.analyze bindings logging).result = .ok solution ∧
      solution.counters.iterations ≤ (f.nestings.map (blockProduct n)).sum ∧
      (f.alternationDepth ≤ 1 →
        solution.counters.iterations ≤ (f.nestings.map fun path => path.length * n + 1).sum ∧
        solution.counters.resets = 0) := by
  obtain ⟨states, p', run, -, -, hresult, -, hnoted, htrace⟩ :=
    run_traced hlts hids hover hcovered logging
  have hiterations : p'.counters.iterations ≤ (f.nestings.map (blockProduct n)).sum := by
    have hle := htrace.rounds_le hids
    rw [potential_none, potential_none, cost_none] at hle
    rw [hnoted.iterations, List.map_map]
    exact (Nat.zero_add _).trans_le hle
  refine ⟨_, hresult, hiterations, fun hdepth => ?_⟩
  have hkinds : ∀ g ∈ f.fixpoints, ∀ h ∈ g.body.fixpoints, h.kind = g.kind :=
    fun g hg h hh => Formula.kind_eq_of_alternationDepth_le_one hdepth hg hh
  refine ⟨?_, ?_⟩
  · rwa [List.map_congr_left fun path hpath => ?_] at hiterations
    obtain ⟨hne, k, hk⟩ := uniform_of_mem_nestings hkinds hpath
    exact blockProduct_of_uniform hne hk
  · rw [hnoted.resets, List.map_map]
    change 0 + (run.map Moment.resetCount).sum = 0
    rw [htrace.resets_eq_zero hkinds fun _ _ => (Option.some_ne_none _).symm]

/-- Two blocks around each other, and beside them one block alone, both with a variable that the
caller gives a value. -/
theorem solve_iterations_le_blocks :
    ∃ lts f g bindings, Lts.ofTransitions 0 2 [⟨0, "a", 1⟩, ⟨1, "a", 0⟩] = .ok lts ∧
      f = .fix .least ⟨0, 'X'⟩ (.fix .least ⟨1, 'Y'⟩ (.fix .greatest ⟨2, 'V'⟩ (.or
        (.dia "a" (.and (.var 'X') (.var 'Y'))) (.and (.var 'Z') (.box "a" (.var 'V')))))) ∧
      g = .fix .least ⟨0, 'X'⟩ (.fix .least ⟨1, 'Y'⟩ (.or
        (.dia "a" (.and (.var 'X') (.var 'Y'))) (.or (.var 'Z') (.dia "a" (.var 'Y'))))) ∧
      bindings = (∅ : Bindings).insert 'Z' ((StateSet.empty 2).insert 1) ∧
      f.nestings.map (blockProduct 2) = [3, 5, 15] ∧
      (∃ solution, (solve lts f f.analyze bindings false).result = .ok solution ∧
        solution.counters.iterations ≤ 23) ∧
      g.alternationDepth ≤ 1 ∧
      ∃ solution, (solve lts g g.analyze bindings false).result = .ok solution ∧
        solution.counters.iterations ≤ 8 ∧ solution.counters.resets = 0 := by
  obtain ⟨lts, hlts⟩ :
    ∃ lts, Lts.ofTransitions 0 2 [⟨0, "a", 1⟩, ⟨1, "a", 0⟩] = .ok lts := ⟨_, rfl⟩
  have hover : Bindings.Over 2 ((∅ : Bindings).insert 'Z' ((StateSet.empty 2).insert 1)) :=
    Bindings.Over.insert (fun x s hs => by simp at hs) 'Z' rfl
  refine ⟨lts, _, _, _, hlts, rfl, rfl, rfl, by decide, ?_, by decide, ?_⟩
  · refine (solve_iterations_le hlts ?_ hover ?_ false).imp fun _ h => ⟨h.1, h.2.1⟩
    · decide
    · simp [Formula.freeOccurrences]
  · refine (solve_iterations_le hlts ?_ hover ?_ false).imp fun _ h => ⟨h.1, h.2.2 (by decide)⟩
    · decide
    · simp [Formula.freeOccurrences]

end EmersonLei

end Solver

end ModalMu
