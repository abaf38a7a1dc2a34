import Mathlib.Order.Bounds.Basic
import ModalMu.Formula.Depth
import ModalMu.Proofs.Dependency
import ModalMu.Proofs.RoundTrip

/-!
# Depths are lengths of chains

A chain of a formula is a list of its fixpoints in which each one lies strictly inside the one
before. The two alternation depths are the lengths of longest chains.

* `Fixpoint.Alternates`, `Fixpoint.Depends` — a step of a chain to a fixpoint of the opposite kind,
  and one that also mentions the variable of the outer fixpoint;
* `le_starting`, `exists_starting` — `Formula.chains` measures the alternating chains by the kind
  they start with; `alternationDepth_toFormula` says what this makes of the depth of one fixpoint;
* `dependentDepth_isGreatest` — **the dependent depth is the length of the longest alternating chain
  whose first step is dependent**. Later steps need not be, and
  `dependentDepth_counts_independent_steps` is a formula where this makes a difference.
-/

namespace ModalMu

/-! ### Chains -/

namespace Fixpoint

/-- The fixpoint `h` lies strictly inside `g` and has the opposite kind. -/
def Alternates (g h : Fixpoint) : Prop := h ∈ g.body.fixpoints ∧ h.kind = g.kind.opposite
  deriving Decidable

/-- **A dependent step**: `h` also mentions the variable of `g`. -/
def Depends (g h : Fixpoint) : Prop :=
  g.Alternates h ∧ h.toFormula.occurs g.binder.var = true
  deriving Decidable

end Fixpoint

namespace Formula

variable {f l r body : Formula} {g h : Fixpoint} {gs : List Fixpoint}

/-- The lengths of those lists of fixpoints of a formula that are chains of a given sort. -/
def chainLengths (IsChain : List Fixpoint → Prop) (f : Formula) : Set Nat :=
  {k | ∃ gs : List Fixpoint, gs ⊆ f.fixpoints ∧ IsChain gs ∧ gs.length = k}

/-- A chain stays inside the formula that its first fixpoint belongs to. -/
theorem subset_of_isChain (hg : g ∈ f.fixpoints) (hchain : (g :: gs).IsChain Fixpoint.Alternates) :
    g :: gs ⊆ f.fixpoints := by
  induction gs generalizing g with
  | nil => exact List.cons_subset.2 ⟨hg, List.nil_subset _⟩
  | cons h gs ih =>
    obtain ⟨hstep, hrest⟩ := List.isChain_cons_cons.1 hchain
    exact List.cons_subset.2 ⟨hg, ih (fixpoints_subset hg hstep.1) hrest⟩

end Formula

/-! ### Alternating chains by the kind they start with -/

namespace Chains

@[simp] theorem starting_none (k : Kind) : none.starting k = 0 := by
  cases k <;> rfl

@[simp] theorem starting_sup (c d : Chains) (k : Kind) :
    (c.sup d).starting k = max (c.starting k) (d.starting k) := by
  cases k <;> rfl

/-- Entering a fixpoint lengthens the chains that start with its kind. -/
@[simp] theorem starting_enter_self (c : Chains) (k : Kind) :
    (c.enter k).starting k = max (c.starting k) (c.starting k.opposite + 1) := by
  cases k <;> rfl

/-- The other chains stay as they are. -/
@[simp] theorem starting_enter_opposite (c : Chains) (k : Kind) :
    (c.enter k).starting k.opposite = c.starting k.opposite := by
  cases k <;> rfl

theorem starting_le_enter (c : Chains) (j k : Kind) : c.starting j ≤ (c.enter k).starting j := by
  by_cases hjk : j = k
  · subst hjk
    rw [starting_enter_self]
    exact Nat.le_max_left _ _
  · rw [Kind.ne_iff_eq_opposite.1 hjk, starting_enter_opposite]

theorem longest_eq (c : Chains) (k : Kind) :
    c.longest = max (c.starting k) (c.starting k.opposite) := by
  cases k with
  | least => rfl
  | greatest => exact Nat.max_comm _ _

end Chains

namespace Formula

variable {f l r body : Formula} {g h : Fixpoint} {gs : List Fixpoint} {k : Kind}

/-- **No alternating chain is longer than what is measured** for the kind it starts with. -/
theorem le_starting (hg : g ∈ f.fixpoints) (hchain : (g :: gs).IsChain Fixpoint.Alternates) :
    (g :: gs).length ≤ f.chains.starting g.kind := by
  induction f generalizing g gs with
  | tt | ff | var _ => cases hg
  | and l r ihl ihr | or l r ihl ihr =>
    rw [chains, Chains.starting_sup]
    rcases List.mem_append.1 hg with hg | hg
    · exact (ihl hg hchain).trans (Nat.le_max_left _ _)
    · exact (ihr hg hchain).trans (Nat.le_max_right _ _)
  | dia a f ih | box a f ih => exact ih hg hchain
  | fix k b body ih =>
    rcases List.mem_append.1 hg with hg | hg
    · exact (ih hg hchain).trans (Chains.starting_le_enter _ _ _)
    · -- the chain starts with this fixpoint, and the rest of it lies in the body
      obtain rfl := List.mem_singleton.1 hg
      rw [chains, Chains.starting_enter_self]
      cases gs with
      | nil => exact (Nat.succ_le_succ (Nat.zero_le _)).trans (Nat.le_max_right _ _)
      | cons h gs =>
        obtain ⟨⟨hmem, hkind⟩, hrest⟩ := List.isChain_cons_cons.1 hchain
        have hle := ih hmem hrest
        rw [hkind] at hle
        exact (Nat.succ_le_succ hle).trans (Nat.le_max_right _ _)

/-- **What is measured is attained** by a chain. -/
theorem exists_starting (hpos : 0 < f.chains.starting k) :
    ∃ g gs, g ∈ f.fixpoints ∧ g.kind = k ∧ (g :: gs).IsChain Fixpoint.Alternates ∧
      (g :: gs).length = f.chains.starting k := by
  induction f generalizing k with
  | tt | ff | var _ =>
    rw [chains, Chains.starting_none] at hpos
    cases hpos
  | and l r ihl ihr | or l r ihl ihr =>
    rw [chains, Chains.starting_sup] at hpos ⊢
    rcases Nat.le_total (l.chains.starting k) (r.chains.starting k) with hle | hle
    · rw [Nat.max_eq_right hle] at hpos ⊢
      obtain ⟨g, gs, hg, hrest⟩ := ihr hpos
      exact ⟨g, gs, List.mem_append_right _ hg, hrest⟩
    · rw [Nat.max_eq_left hle] at hpos ⊢
      obtain ⟨g, gs, hg, hrest⟩ := ihl hpos
      exact ⟨g, gs, List.mem_append_left _ hg, hrest⟩
  | dia a f ih | box a f ih => exact ih hpos
  | fix j b body ih =>
    have hinside : 0 < body.chains.starting k → ∃ g gs, g ∈ (fix j b body).fixpoints ∧
        g.kind = k ∧ (g :: gs).IsChain Fixpoint.Alternates ∧
        (g :: gs).length = body.chains.starting k := by
      intro hpos'
      obtain ⟨g, gs, hg, hrest⟩ := ih hpos'
      exact ⟨g, gs, List.mem_append_left _ hg, hrest⟩
    by_cases hjk : k = j
    · subst hjk
      rw [chains, Chains.starting_enter_self]
      have hself : (⟨k, b, body⟩ : Fixpoint) ∈ (fix k b body).fixpoints := self_mem_fixpoints
      rcases Nat.le_total (body.chains.starting k) (body.chains.starting k.opposite + 1) with
        hle | hle
      · -- this fixpoint in front of the longest chain of the opposite kind, if there is one
        rw [Nat.max_eq_right hle]
        rcases Nat.eq_zero_or_pos (body.chains.starting k.opposite) with hzero | hpos'
        · exact ⟨_, [], hself, rfl, List.IsChain.singleton _, by rw [hzero]; rfl⟩
        · obtain ⟨h, hs, hh, hkind, hchain, hlen⟩ := ih hpos'
          refine ⟨_, h :: hs, hself, rfl, List.isChain_cons_cons.2 ⟨⟨hh, hkind⟩, hchain⟩, ?_⟩
          rw [List.length_cons, hlen]
      · rw [Nat.max_eq_left hle]
        exact hinside (by omega)
    · rw [chains, Kind.ne_iff_eq_opposite.1 hjk, Chains.starting_enter_opposite,
        ← Kind.ne_iff_eq_opposite.1 hjk] at hpos ⊢
      exact hinside hpos

/-- Without its first fixpoint an alternating chain starts with the opposite kind, so the two
measures differ by one at most. -/
theorem starting_le_succ (f : Formula) (k : Kind) :
    f.chains.starting k ≤ f.chains.starting k.opposite + 1 := by
  rcases Nat.eq_zero_or_pos (f.chains.starting k) with hzero | hpos
  · rw [hzero]
    exact Nat.zero_le _
  · obtain ⟨g, gs, hg, rfl, hchain, hlen⟩ := exists_starting hpos
    rw [← hlen]
    cases gs with
    | nil => exact Nat.succ_le_succ (Nat.zero_le _)
    | cons h gs =>
      obtain ⟨⟨hmem, hkind⟩, hrest⟩ := List.isChain_cons_cons.1 hchain
      rw [← hkind]
      exact Nat.succ_le_succ (le_starting (fixpoints_subset hg hmem) hrest)

/-- Without alternation, all fixpoints inside one have its kind. -/
theorem kind_eq_of_alternationDepth_le_one (hdepth : f.alternationDepth ≤ 1)
    (hg : g ∈ f.fixpoints) (hh : h ∈ g.body.fixpoints) : h.kind = g.kind := by
  by_contra hne
  have hstep : g.Alternates h := ⟨hh, Kind.ne_iff_eq_opposite.1 hne⟩
  have hlength := le_starting hg (List.isChain_cons_cons.2 ⟨hstep, List.IsChain.singleton h⟩)
  rw [alternationDepth, Chains.longest_eq _ g.kind] at hdepth
  have hmax := (Nat.le_max_left _ _).trans hdepth
  exact absurd (hlength.trans hmax) (by simp)

end Formula

namespace Fixpoint

variable {g : Fixpoint} {gs : List Fixpoint}

/-- The longest alternating chain of a fixpoint starts with itself. -/
theorem alternationDepth_toFormula (g : Fixpoint) :
    g.toFormula.alternationDepth = g.body.chains.starting g.kind.opposite + 1 := by
  have hle := Formula.starting_le_succ g.body g.kind
  rw [toFormula, Formula.alternationDepth, Formula.chains, Chains.longest_eq _ g.kind,
    Chains.starting_enter_self, Chains.starting_enter_opposite]
  omega

theorem length_le_alternationDepth (hchain : (g :: gs).IsChain Alternates) :
    (g :: gs).length ≤ g.toFormula.alternationDepth := by
  rw [alternationDepth_toFormula, List.length_cons]
  cases gs with
  | nil => exact Nat.succ_le_succ (Nat.zero_le _)
  | cons h gs =>
    obtain ⟨⟨hmem, hkind⟩, hrest⟩ := List.isChain_cons_cons.1 hchain
    rw [← hkind]
    exact Nat.succ_le_succ (Formula.le_starting hmem hrest)

theorem exists_alternationDepth (g : Fixpoint) :
    ∃ gs, (g :: gs).IsChain Alternates ∧ (g :: gs).length = g.toFormula.alternationDepth := by
  rw [alternationDepth_toFormula]
  rcases Nat.eq_zero_or_pos (g.body.chains.starting g.kind.opposite) with hzero | hpos
  · exact ⟨[], List.IsChain.singleton _, by rw [hzero]; rfl⟩
  · obtain ⟨h, hs, hh, hkind, hchain, hlen⟩ := Formula.exists_starting hpos
    exact ⟨h :: hs, List.isChain_cons_cons.2 ⟨⟨hh, hkind⟩, hchain⟩, by rw [List.length_cons, hlen]⟩

end Fixpoint

/-! ### The dependent depth -/

theorem foldl_max_le_iff {ns : List Nat} {m k : Nat} :
    ns.foldl max m ≤ k ↔ m ≤ k ∧ ∀ n ∈ ns, n ≤ k := by
  induction ns generalizing m with
  | nil => simp
  | cons n ns ih => rw [List.foldl_cons, ih, Nat.max_le, List.forall_mem_cons, and_assoc]

theorem largest_le_iff {ns : List Nat} {k : Nat} : largest ns ≤ k ↔ ∀ n ∈ ns, n ≤ k := by
  rw [largest, foldl_max_le_iff, and_iff_right (Nat.zero_le k)]

/-- The largest number of a list is in it, unless it is zero. -/
theorem largest_mem {ns : List Nat} (hpos : 0 < largest ns) : largest ns ∈ ns := by
  by_contra hmem
  have hle : largest ns ≤ largest ns - 1 := by
    refine largest_le_iff.2 fun n hn => ?_
    have hn' : n ≤ largest ns := largest_le_iff.1 (Nat.le_refl _) n hn
    have hne : n ≠ largest ns := fun he => hmem (he ▸ hn)
    omega
  omega

namespace Formula

variable {f : Formula} {k : Kind} {x : Var}

/-- A fixpoint that mentions the variable counts with its alternation depth. -/
theorem le_mentioningDepth {g : Fixpoint} (hg : g ∈ f.fixpoints) (hkind : g.kind = k)
    (hx : g.toFormula.occurs x = true) : g.toFormula.alternationDepth ≤ f.mentioningDepth k x := by
  refine largest_le_iff.1 (Nat.le_refl _) _ (List.mem_map.2 ⟨g, List.mem_filter.2 ⟨hg, ?_⟩, rfl⟩)
  simp [hkind, hx]

theorem exists_mentioningDepth (hpos : 0 < f.mentioningDepth k x) :
    ∃ g ∈ f.fixpoints, g.kind = k ∧ g.toFormula.occurs x = true ∧
      g.toFormula.alternationDepth = f.mentioningDepth k x := by
  obtain ⟨g, hg, hdepth⟩ := List.mem_map.1 (largest_mem hpos)
  obtain ⟨hg, hkind, hx⟩ : g ∈ f.fixpoints ∧ g.kind = k ∧ g.toFormula.occurs x = true := by
    simpa using hg
  exact ⟨g, hg, hkind, hx, hdepth⟩

/-- An alternating chain whose first step, if it has one, is dependent. -/
structure DependentStart (gs : List Fixpoint) : Prop where
  /-- each fixpoint lies inside the one before and has the opposite kind -/
  alternates : gs.IsChain Fixpoint.Alternates
  /-- the second one mentions the variable of the first -/
  depends : ∀ g h rest, gs = g :: h :: rest → g.Depends h

theorem DependentStart.singleton (g : Fixpoint) : DependentStart [g] :=
  ⟨List.IsChain.singleton g, fun _ _ _ h => by cases h⟩

theorem length_le_dependentDepth {g : Fixpoint} {gs : List Fixpoint} (hg : g ∈ f.fixpoints)
    (hchain : DependentStart (g :: gs)) : (g :: gs).length ≤ f.dependentDepth := by
  induction f with
  | tt | ff | var _ => cases hg
  | and l r ihl ihr | or l r ihl ihr =>
    rw [dependentDepth]
    rcases List.mem_append.1 hg with hg | hg
    · exact (ihl hg).trans (Nat.le_max_left _ _)
    · exact (ihr hg).trans (Nat.le_max_right _ _)
  | dia a f ih | box a f ih => exact ih hg
  | fix k b body ih =>
    rw [dependentDepth]
    rcases List.mem_append.1 hg with hg | hg
    · exact (ih hg).trans (Nat.le_max_left _ _)
    · obtain rfl := List.mem_singleton.1 hg
      refine (Nat.succ_le_succ ?_).trans (Nat.le_max_right _ _)
      cases gs with
      | nil => exact Nat.zero_le _
      | cons h gs =>
        -- from the second fixpoint on, only the alternation counts
        obtain ⟨⟨hmem, hkind⟩, hx⟩ := hchain.depends _ _ _ rfl
        have hrest := (List.isChain_cons_cons.1 hchain.alternates).2
        exact (Fixpoint.length_le_alternationDepth hrest).trans (le_mentioningDepth hmem hkind hx)

theorem exists_dependentDepth (hpos : 0 < f.dependentDepth) :
    ∃ g gs, g ∈ f.fixpoints ∧ DependentStart (g :: gs) ∧
      (g :: gs).length = f.dependentDepth := by
  induction f with
  | tt | ff | var _ => cases hpos
  | and l r ihl ihr | or l r ihl ihr =>
    rw [dependentDepth] at hpos ⊢
    rcases Nat.le_total l.dependentDepth r.dependentDepth with hle | hle
    · rw [Nat.max_eq_right hle] at hpos ⊢
      obtain ⟨g, gs, hg, hrest⟩ := ihr hpos
      exact ⟨g, gs, List.mem_append_right _ hg, hrest⟩
    · rw [Nat.max_eq_left hle] at hpos ⊢
      obtain ⟨g, gs, hg, hrest⟩ := ihl hpos
      exact ⟨g, gs, List.mem_append_left _ hg, hrest⟩
  | dia a f ih | box a f ih => exact ih hpos
  | fix k b body ih =>
    rw [dependentDepth]
    have hself : (⟨k, b, body⟩ : Fixpoint) ∈ (fix k b body).fixpoints := self_mem_fixpoints
    rcases Nat.le_total body.dependentDepth (body.mentioningDepth k.opposite b.var + 1) with
      hle | hle
    · rw [Nat.max_eq_right hle]
      rcases Nat.eq_zero_or_pos (body.mentioningDepth k.opposite b.var) with hzero | hpos'
      · exact ⟨_, [], hself, .singleton _, by rw [hzero]; rfl⟩
      · -- the fixpoint in front of the longest chain of one that mentions its variable
        obtain ⟨h, hh, hkind, hx, hdepth⟩ := exists_mentioningDepth hpos'
        obtain ⟨hs, hchain, hlen⟩ := h.exists_alternationDepth
        have hstep : Fixpoint.Depends ⟨k, b, body⟩ h := ⟨⟨hh, hkind⟩, hx⟩
        refine ⟨_, h :: hs, hself, ⟨List.isChain_cons_cons.2 ⟨hstep.1, hchain⟩, ?_⟩, ?_⟩
        · rintro _ _ _ ⟨⟩
          exact hstep
        · rw [List.length_cons, hlen, hdepth]
    · rw [Nat.max_eq_left hle]
      obtain ⟨g, gs, hg, hrest⟩ := ih (by omega)
      exact ⟨g, gs, List.mem_append_left _ hg, hrest⟩

/-- **The dependent depth of a formula** is the length of its longest chain of fixpoints with
alternating kinds in which the second fixpoint mentions the variable of the first. -/
theorem dependentDepth_isGreatest (f : Formula) :
    IsGreatest (f.chainLengths DependentStart) f.dependentDepth := by
  refine ⟨?_, ?_⟩
  · rcases Nat.eq_zero_or_pos f.dependentDepth with hzero | hpos
    · exact ⟨[], List.nil_subset _, ⟨List.IsChain.nil, by simp⟩, hzero.symm⟩
    · obtain ⟨g, gs, hg, hchain, hlen⟩ := exists_dependentDepth hpos
      exact ⟨g :: gs, subset_of_isChain hg hchain.alternates, hchain, hlen⟩
  · rintro _ ⟨gs, hsub, hchain, rfl⟩
    cases gs with
    | nil => exact Nat.zero_le _
    | cons g gs => exact length_le_dependentDepth (hsub List.mem_cons_self) hchain

/-- **Steps after the first count though they are independent**: in `mu X.nu Y.(X && mu Z.true)` the
innermost fixpoint mentions no variable, so chains of dependent steps have at most two fixpoints. -/
theorem dependentDepth_counts_independent_steps :
    ∃ f, parse "mu X.nu Y.(X && mu Z.true)" = .ok f ∧ f.Unshadowed [] ∧ f.dependentDepth = 3 ∧
      IsGreatest (f.chainLengths (List.IsChain Fixpoint.Depends)) 2 := by
  have hparse := parse_render_of_writable (f := .fix .least ⟨0, 'X'⟩ (.fix .greatest ⟨1, 'Y'⟩
    (.and (.var 'X') (.fix .least ⟨2, 'Z'⟩ .tt)))) (by decide) (by decide) (by decide)
  refine ⟨_, hparse, by decide, by decide, ?_, ?_⟩
  · refine ⟨[⟨.least, ⟨0, 'X'⟩, .fix .greatest ⟨1, 'Y'⟩
      (.and (.var 'X') (.fix .least ⟨2, 'Z'⟩ .tt))⟩,
      ⟨.greatest, ⟨1, 'Y'⟩, .and (.var 'X') (.fix .least ⟨2, 'Z'⟩ .tt)⟩], ?_, ?_, rfl⟩
    · decide
    · exact List.isChain_cons_cons.2 ⟨by decide, List.IsChain.singleton _⟩
  · rintro _ ⟨gs, hsub, hchain, rfl⟩
    match gs, hsub, hchain with
    | [], _, _ | [_], _, _ | [_, _], _, _ => simp
    | g :: h :: i :: gs, hsub, hchain =>
      -- no fixpoint is the middle of two dependent steps
      obtain ⟨hgh, hrest⟩ := List.isChain_cons_cons.1 hchain
      obtain ⟨hhi, -⟩ := List.isChain_cons_cons.1 hrest
      have hnone : ∀ g ∈ (Formula.fix .least ⟨0, 'X'⟩ (.fix .greatest ⟨1, 'Y'⟩
          (.and (.var 'X') (.fix .least ⟨2, 'Z'⟩ .tt)))).fixpoints,
          ∀ h ∈ g.body.fixpoints, ∀ i ∈ h.body.fixpoints, g.Depends h → ¬h.Depends i := by
        decide
      exact absurd hhi (hnone g (hsub List.mem_cons_self) h hgh.1.1 i hhi.1.1 hgh)

end Formula

end ModalMu
