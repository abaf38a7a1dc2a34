import Mathlib.Data.List.SplitBy
import Mathlib.Order.Bounds.Basic
import ModalMu.Proofs.Depth

/-!
# The three depths as measures of chains

Every depth of a formula is the length of a longest chain of fixpoints, and the three depths differ
in which chains count.

* `Measures` — a depth and the chains that it measures. How two depths compare, and how a depth of a
  formula compares with that of a part, can be read off the chains (`Measures.le`);
* `measures_nesting`, `measures_alternation`, `measures_dependent` — the three depths;
* `alternationDepth_fix` — the alternation depth of a fixpoint, from those of the fixpoints of the
  opposite kind inside it;
* `Formula.branches`, `blockCount` — the fixpoints on the ways from the root of a formula to its
  leaves, and how many blocks of one kind they form;
* `alternationDepth_isGreatest` — **the alternation depth is the length of the longest alternating
  chain**, and the largest number of blocks on a branch;
* `depths_ordered` — **the depths are ordered and grow with the formula.**
-/

namespace ModalMu

/-- The fixpoint `h` lies strictly inside `g`. -/
def Fixpoint.Encloses (g h : Fixpoint) : Prop := h ∈ g.body.fixpoints

namespace Chains

theorem starting_le_longest (c : Chains) (k : Kind) : c.starting k ≤ c.longest := by
  rw [longest_eq c k]
  exact Nat.le_max_left _ _

theorem exists_starting_eq_longest (c : Chains) : ∃ k, c.starting k = c.longest := by
  rcases Nat.le_total c.least c.greatest with hle | hle
  · exact ⟨.greatest, (Nat.max_eq_right hle).symm⟩
  · exact ⟨.least, (Nat.max_eq_left hle).symm⟩

end Chains

namespace Formula

variable {f g : Formula}

/-! ### Measures of chains -/

/-- **A depth measures the chains of a sort**: no chain that starts in the formula is longer, and
one is as long, if there is any. A single fixpoint is a chain. -/
structure Measures (IsChain : List Fixpoint → Prop) (depth : Formula → Nat) : Prop where
  /-- a single fixpoint is a chain -/
  singleton : ∀ e : Fixpoint, IsChain [e]
  /-- no chain is longer than the depth -/
  length_le : ∀ {f : Formula} {e : Fixpoint} {es : List Fixpoint}, e ∈ f.fixpoints →
    IsChain (e :: es) → (e :: es).length ≤ depth f
  /-- some chain is as long as the depth -/
  attained : ∀ {f : Formula}, 0 < depth f →
    ∃ e es, e ∈ f.fixpoints ∧ IsChain (e :: es) ∧ (e :: es).length = depth f

namespace Measures

variable {IsChain IsChain' : List Fixpoint → Prop} {depth depth' : Formula → Nat}

/-- **More chains make a greater depth.** -/
theorem le (h : Measures IsChain depth) (h' : Measures IsChain' depth')
    (hchains : ∀ es, IsChain es → IsChain' es) (hparts : g.fixpoints ⊆ f.fixpoints) :
    depth g ≤ depth' f := by
  rcases Nat.eq_zero_or_pos (depth g) with hzero | hpos
  · rw [hzero]
    exact Nat.zero_le _
  · obtain ⟨e, es, he, hchain, hlen⟩ := h.attained hpos
    rw [← hlen]
    exact h'.length_le (hparts he) (hchains _ hchain)

/-- Only a formula without fixpoints has no depth. -/
theorem eq_zero_iff (h : Measures IsChain depth) : depth f = 0 ↔ f.fixpoints = [] := by
  refine ⟨fun hzero => List.eq_nil_iff_forall_not_mem.2 fun e he => ?_, fun hnone => ?_⟩
  · have hle := h.length_le he (h.singleton e)
    rw [hzero] at hle
    cases hle
  · by_contra hne
    obtain ⟨e, es, he, -⟩ := h.attained (Nat.pos_of_ne_zero hne)
    rw [hnone] at he
    cases he

end Measures

/-- **The nesting depth** measures all chains. -/
theorem measures_nesting : Measures (List.IsChain Fixpoint.Encloses) nestingDepth where
  singleton := List.IsChain.singleton
  length_le := by
    intro f e es he hchain
    induction f generalizing e es with
    | tt | ff | var _ => cases he
    | and l r ihl ihr | or l r ihl ihr =>
      rw [nestingDepth]
      rcases List.mem_append.1 he with he | he
      · exact (ihl he hchain).trans (Nat.le_max_left _ _)
      · exact (ihr he hchain).trans (Nat.le_max_right _ _)
    | dia a f ih | box a f ih => exact ih he hchain
    | fix k b body ih =>
      rw [nestingDepth]
      rcases List.mem_append.1 he with he | he
      · exact (ih he hchain).trans (Nat.le_succ _)
      · obtain rfl := List.mem_singleton.1 he
        refine Nat.succ_le_succ ?_
        cases es with
        | nil => exact Nat.zero_le _
        | cons e es =>
          obtain ⟨hinside, hrest⟩ := List.isChain_cons_cons.1 hchain
          exact ih hinside hrest
  attained := by
    intro f hpos
    induction f with
    | tt | ff | var _ => cases hpos
    | and l r ihl ihr | or l r ihl ihr =>
      rw [nestingDepth] at hpos ⊢
      rcases Nat.le_total l.nestingDepth r.nestingDepth with hle | hle
      · rw [Nat.max_eq_right hle] at hpos ⊢
        obtain ⟨e, es, he, hrest⟩ := ihr hpos
        exact ⟨e, es, List.mem_append_right _ he, hrest⟩
      · rw [Nat.max_eq_left hle] at hpos ⊢
        obtain ⟨e, es, he, hrest⟩ := ihl hpos
        exact ⟨e, es, List.mem_append_left _ he, hrest⟩
    | dia a f ih | box a f ih => exact ih hpos
    | fix k b body ih =>
      rcases Nat.eq_zero_or_pos body.nestingDepth with hzero | hpos'
      · refine ⟨_, [], self_mem_fixpoints, List.IsChain.singleton _, ?_⟩
        rw [nestingDepth, hzero]
        rfl
      · obtain ⟨e, es, he, hchain, hlen⟩ := ih hpos'
        refine ⟨_, e :: es, self_mem_fixpoints, List.isChain_cons_cons.2 ⟨he, hchain⟩, ?_⟩
        rw [nestingDepth, List.length_cons, hlen]

/-- **The alternation depth** measures the alternating chains. -/
theorem measures_alternation : Measures (List.IsChain Fixpoint.Alternates) alternationDepth where
  singleton := List.IsChain.singleton
  length_le he hchain := (le_starting he hchain).trans (Chains.starting_le_longest _ _)
  attained := by
    intro f hpos
    obtain ⟨k, hk⟩ := f.chains.exists_starting_eq_longest
    rw [alternationDepth, ← hk] at hpos ⊢
    obtain ⟨e, es, he, -, hchain, hlen⟩ := exists_starting hpos
    exact ⟨e, es, he, hchain, hlen⟩

/-- **The dependent depth** measures the alternating chains that start with a dependent step. -/
theorem measures_dependent : Measures DependentStart dependentDepth where
  singleton := DependentStart.singleton
  length_le := length_le_dependentDepth
  attained := exists_dependentDepth

/-! ### The alternation depth of a fixpoint -/

/-- The longest alternating chain that starts with a kind is that of a fixpoint of this kind. -/
theorem starting_eq_largest (f : Formula) (k : Kind) :
    f.chains.starting k =
      largest ((f.fixpoints.filter (·.kind == k)).map (·.toFormula.alternationDepth)) := by
  refine Nat.le_antisymm ?_ (largest_le_iff.2 fun m hm => ?_)
  · rcases Nat.eq_zero_or_pos (f.chains.starting k) with hzero | hpos
    · rw [hzero]
      exact Nat.zero_le _
    · obtain ⟨e, es, he, hkind, hchain, hlen⟩ := exists_starting hpos
      rw [← hlen]
      refine (Fixpoint.length_le_alternationDepth hchain).trans
        (largest_le_iff.1 (Nat.le_refl _) _ (List.mem_map.2 ⟨e, List.mem_filter.2 ⟨he, ?_⟩, rfl⟩))
      exact beq_iff_eq.2 hkind
  · obtain ⟨e, he, rfl⟩ := List.mem_map.1 hm
    obtain ⟨he, hkind⟩ := List.mem_filter.1 he
    obtain ⟨es, hchain, hlen⟩ := e.exists_alternationDepth
    rw [← hlen, ← beq_iff_eq.1 hkind]
    exact le_starting he hchain

/-- **The alternation depth of a fixpoint** is one more than the largest one of the fixpoints of the
opposite kind inside it, wherever these are. -/
theorem alternationDepth_fix (k : Kind) (b : Binder) (body : Formula) :
    (fix k b body).alternationDepth = largest ((body.fixpoints.filter (·.kind == k.opposite)).map
      (·.toFormula.alternationDepth)) + 1 := by
  rw [← starting_eq_largest]
  exact Fixpoint.alternationDepth_toFormula ⟨k, b, body⟩

/-! ### Branches -/

/-- **The fixpoints on each way from the root to a leaf**, outermost first. -/
def branches : Formula → List (List Fixpoint)
  | tt | ff | var _ => [[]]
  | and l r | or l r => l.branches ++ r.branches
  | dia _ f | box _ f => f.branches
  | fix k b body => body.branches.map (⟨k, b, body⟩ :: ·)

end Formula

/-- **The number of blocks**, where a block is a longest row of fixpoints of one kind. -/
def blockCount (branch : List Fixpoint) : Nat :=
  (branch.splitBy fun g h => g.kind == h.kind).length

/-- The pieces that are finished already are not changed by what follows. -/
theorem length_splitBy_loop {α : Type} (r : α → α → Bool) (as : List α) (a : α) (piece : List α)
    (pieces : List (List α)) :
    (List.splitBy.loop r as a piece pieces).length =
      pieces.length + ((a :: as).splitBy r).length := by
  induction as generalizing a piece pieces with
  | nil => simp [List.splitBy.loop, List.splitBy]
  | cons b as ih =>
    rw [List.splitBy, List.splitBy.loop, List.splitBy.loop]
    cases r a b with
    | true => rw [ih b (a :: piece) pieces, ih b [a] [], List.length_nil, Nat.zero_add]
    | false =>
      simp only [ih b [], List.length_cons, List.length_nil]
      omega

section

variable {g h : Fixpoint} {branch : List Fixpoint}

/-- A fixpoint of the same kind continues the first block. -/
theorem blockCount_cons_of_eq (hkind : h.kind = g.kind) :
    blockCount (g :: h :: branch) = blockCount (h :: branch) := by
  rw [blockCount, List.splitBy, List.splitBy.loop, hkind, beq_self_eq_true]
  simp only [length_splitBy_loop, List.length_nil, Nat.zero_add]
  rfl

/-- A fixpoint of the opposite kind is a block of its own. -/
theorem blockCount_cons_of_ne (hkind : h.kind ≠ g.kind) :
    blockCount (g :: h :: branch) = blockCount (h :: branch) + 1 := by
  rw [blockCount, List.splitBy, List.splitBy.loop, beq_eq_false_iff_ne.2 hkind.symm]
  simp only [length_splitBy_loop, List.length_cons, List.length_nil]
  rw [Nat.add_comm]
  rfl

end

namespace Chains

/-- The longest alternating chains among the fixpoints of a branch. -/
def along (branch : List Fixpoint) : Chains := branch.foldr (fun g c => c.enter g.kind) none

theorem along_cons (g : Fixpoint) (branch : List Fixpoint) :
    along (g :: branch) = (along branch).enter g.kind := rfl

/-- A longest chain takes one fixpoint of each block; with the opposite kind it has to leave out the
first one. -/
theorem starting_along_cons (g : Fixpoint) (branch : List Fixpoint) :
    (along (g :: branch)).starting g.kind = blockCount (g :: branch) ∧
      (along (g :: branch)).starting g.kind.opposite + 1 = blockCount (g :: branch) := by
  induction branch generalizing g with
  | nil =>
    have hnil : along [] = none := rfl
    rw [along_cons, hnil, starting_enter_self, starting_enter_opposite, starting_none,
      starting_none]
    exact ⟨rfl, rfl⟩
  | cons h branch ih =>
    obtain ⟨hself, hother⟩ := ih h
    rw [along_cons, starting_enter_self, starting_enter_opposite]
    by_cases hkind : h.kind = g.kind
    · rw [blockCount_cons_of_eq hkind, ← hkind]
      omega
    · rw [blockCount_cons_of_ne hkind]
      rw [Kind.ne_iff_eq_opposite.1 hkind, Kind.opposite_opposite] at hother
      rw [Kind.ne_iff_eq_opposite.1 hkind] at hself
      omega

/-- **The longest alternating chain of a branch** has one fixpoint of each block. -/
theorem longest_along (branch : List Fixpoint) : (along branch).longest = blockCount branch := by
  cases branch with
  | nil => rfl
  | cons g branch =>
    obtain ⟨hself, hother⟩ := starting_along_cons g branch
    rw [longest_eq _ g.kind]
    omega

end Chains

namespace Formula

variable {f g : Formula}

/-- No branch has longer chains than the formula. -/
theorem starting_along_le (f : Formula) {branch : List Fixpoint} (hbranch : branch ∈ f.branches)
    (k : Kind) : (Chains.along branch).starting k ≤ f.chains.starting k := by
  induction f generalizing branch k with
  | tt | ff | var _ =>
    obtain rfl := List.mem_singleton.1 hbranch
    exact Nat.le_refl _
  | and l r ihl ihr | or l r ihl ihr =>
    rw [chains, Chains.starting_sup]
    rcases List.mem_append.1 hbranch with hbranch | hbranch
    · exact (ihl hbranch k).trans (Nat.le_max_left _ _)
    · exact (ihr hbranch k).trans (Nat.le_max_right _ _)
  | dia a f ih | box a f ih => exact ih hbranch k
  | fix j b body ih =>
    obtain ⟨rest, hrest, rfl⟩ := List.mem_map.1 hbranch
    simp only [Chains.along_cons, chains]
    by_cases hkj : k = j
    · subst hkj
      rw [Chains.starting_enter_self, Chains.starting_enter_self]
      have hsame := ih hrest k
      have hother := ih hrest k.opposite
      omega
    · rw [Kind.ne_iff_eq_opposite.1 hkj, Chains.starting_enter_opposite,
        Chains.starting_enter_opposite]
      exact ih hrest _

/-- A longest chain of the formula lies on a branch. -/
theorem exists_starting_along (f : Formula) (k : Kind) :
    ∃ branch ∈ f.branches, (Chains.along branch).starting k = f.chains.starting k := by
  induction f generalizing k with
  | tt | ff | var _ => exact ⟨[], List.mem_singleton_self _, rfl⟩
  | and l r ihl ihr | or l r ihl ihr =>
    rw [chains, Chains.starting_sup]
    rcases Nat.le_total (l.chains.starting k) (r.chains.starting k) with hle | hle
    · obtain ⟨branch, hbranch, hlen⟩ := ihr k
      exact ⟨branch, List.mem_append_right _ hbranch, by rw [hlen, Nat.max_eq_right hle]⟩
    · obtain ⟨branch, hbranch, hlen⟩ := ihl k
      exact ⟨branch, List.mem_append_left _ hbranch, by rw [hlen, Nat.max_eq_left hle]⟩
  | dia a f ih | box a f ih => exact ih k
  | fix j b body ih =>
    by_cases hkj : k = j
    · subst hkj
      -- the branch of the longer one of the two chains that the fixpoint chooses from
      rw [chains, Chains.starting_enter_self]
      rcases Nat.le_total (body.chains.starting k) (body.chains.starting k.opposite + 1) with
        hle | hle
      · obtain ⟨rest, hrest, hlen⟩ := ih k.opposite
        have hother := starting_along_le body hrest k
        refine ⟨_, List.mem_map_of_mem hrest, ?_⟩
        simp only [Chains.along_cons, Chains.starting_enter_self, hlen]
        omega
      · obtain ⟨rest, hrest, hlen⟩ := ih k
        have hother := starting_along_le body hrest k.opposite
        refine ⟨_, List.mem_map_of_mem hrest, ?_⟩
        simp only [Chains.along_cons, Chains.starting_enter_self, hlen]
        omega
    · obtain ⟨rest, hrest, hlen⟩ := ih k
      refine ⟨_, List.mem_map_of_mem hrest, ?_⟩
      rw [Kind.ne_iff_eq_opposite.1 hkj] at hlen ⊢
      simp only [Chains.along_cons, chains, Chains.starting_enter_opposite, hlen]

theorem blockCount_le_alternationDepth {branch : List Fixpoint} (hbranch : branch ∈ f.branches) :
    blockCount branch ≤ f.alternationDepth := by
  obtain ⟨k, hk⟩ := (Chains.along branch).exists_starting_eq_longest
  rw [← Chains.longest_along, ← hk]
  exact (starting_along_le f hbranch k).trans (Chains.starting_le_longest _ _)

theorem exists_blockCount_eq_alternationDepth (f : Formula) :
    ∃ branch ∈ f.branches, blockCount branch = f.alternationDepth := by
  obtain ⟨k, hk⟩ := f.chains.exists_starting_eq_longest
  obtain ⟨branch, hbranch, hlen⟩ := exists_starting_along f k
  refine ⟨branch, hbranch, Nat.le_antisymm (blockCount_le_alternationDepth hbranch) ?_⟩
  rw [alternationDepth, ← hk, ← hlen, ← Chains.longest_along]
  exact Chains.starting_le_longest _ _

/-- **The alternation depth of a formula** is the length of its longest chain of fixpoints, each
strictly inside the one before and of the opposite kind. It is also the largest number of
blocks of one kind on a branch. The depth of a fixpoint can be found from those of the fixpoints of
the opposite kind inside it, although a longest chain of its body may start with its own kind. -/
theorem alternationDepth_isGreatest (f : Formula) :
    IsGreatest (f.chainLengths (List.IsChain Fixpoint.Alternates)) f.alternationDepth ∧
      IsGreatest {m | ∃ branch ∈ f.branches, blockCount branch = m} f.alternationDepth ∧
      ∀ e ∈ f.fixpoints, e.toFormula.alternationDepth =
        largest ((e.body.fixpoints.filter (·.kind == e.kind.opposite)).map
          (·.toFormula.alternationDepth)) + 1 := by
  refine ⟨⟨?_, ?_⟩, ⟨exists_blockCount_eq_alternationDepth f, ?_⟩, ?_⟩
  · rcases Nat.eq_zero_or_pos f.alternationDepth with hzero | hpos
    · exact ⟨[], List.nil_subset _, List.IsChain.nil, hzero.symm⟩
    · obtain ⟨e, es, he, hchain, hlen⟩ := measures_alternation.attained hpos
      exact ⟨e :: es, subset_of_isChain he hchain, hchain, hlen⟩
  · rintro _ ⟨es, hsub, hchain, rfl⟩
    cases es with
    | nil => exact Nat.zero_le _
    | cons e es => exact measures_alternation.length_le (hsub List.mem_cons_self) hchain
  · rintro _ ⟨branch, hbranch, rfl⟩
    exact blockCount_le_alternationDepth hbranch
  · exact fun e _ => alternationDepth_fix e.kind e.binder e.body

/-! ### The order of the depths -/

/-- The fixpoints of a subformula are fixpoints of the formula. -/
theorem fixpoints_subset_of_mem_subformulas (hg : g ∈ f.subformulas) :
    g.fixpoints ⊆ f.fixpoints := by
  induction f with
  | tt | ff | var _ =>
    obtain rfl := List.mem_singleton.1 hg
    exact List.Subset.refl _
  | and l r ihl ihr | or l r ihl ihr =>
    rcases List.mem_cons.1 hg with rfl | hg
    · exact List.Subset.refl _
    · rcases List.mem_append.1 hg with hg | hg
      · exact List.Subset.trans (ihl hg) (List.subset_append_left _ _)
      · exact List.Subset.trans (ihr hg) (List.subset_append_right _ _)
  | dia a f ih | box a f ih =>
    rcases List.mem_cons.1 hg with rfl | hg
    · exact List.Subset.refl _
    · exact ih hg
  | fix k b body ih =>
    rcases List.mem_cons.1 hg with rfl | hg
    · exact List.Subset.refl _
    · exact List.Subset.trans (ih hg) (List.subset_append_left _ _)

/-- **The depths are ordered and grow with the formula.** A chain that counts for the dependent
depth counts for the alternation depth, and one of these counts for the nesting depth. Each depth is
zero exactly when there is no fixpoint, and no subformula has a greater one. -/
theorem depths_ordered (f : Formula) :
    (f.dependentDepth ≤ f.alternationDepth ∧ f.alternationDepth ≤ f.nestingDepth) ∧
      ((f.dependentDepth = 0 ↔ f.fixpoints = []) ∧ (f.alternationDepth = 0 ↔ f.fixpoints = []) ∧
        (f.nestingDepth = 0 ↔ f.fixpoints = [])) ∧
      ∀ g ∈ f.subformulas, g.dependentDepth ≤ f.dependentDepth ∧
        g.alternationDepth ≤ f.alternationDepth ∧ g.nestingDepth ≤ f.nestingDepth := by
  refine ⟨⟨?_, ?_⟩, ⟨measures_dependent.eq_zero_iff, measures_alternation.eq_zero_iff,
    measures_nesting.eq_zero_iff⟩, fun g hg => ?_⟩
  · exact measures_dependent.le measures_alternation (fun _ h => h.alternates) (List.Subset.refl _)
  · refine measures_alternation.le measures_nesting (fun _ h => ?_) (List.Subset.refl _)
    exact h.imp fun _ _ hstep => hstep.1
  · have hparts := fixpoints_subset_of_mem_subformulas hg
    exact ⟨measures_dependent.le measures_dependent (fun _ h => h) hparts,
      measures_alternation.le measures_alternation (fun _ h => h) hparts,
      measures_nesting.le measures_nesting (fun _ h => h) hparts⟩

end Formula

end ModalMu
