import ModalMu.Proofs.Approximations
import ModalMu.Proofs.Naive

/-!
# Emerson-Lei evaluation computes the meaning

The induction is on the formula, for all scopes and all prepared memories at once. Evaluating a
formula returns its meaning under the values of its scope, changes the memory of its own fixpoints
only, and leaves the memory prepared for evaluating it again:

* `Correct` — this statement about one formula; there is a lemma for each construct;
* `refresh_enters` — on entering a fixpoint, what is stale is set back, and then the loop's
  invariant `Looping` holds;
* `Looping.store` — storing the next approximation keeps the invariant, because the values around
  the fixpoints inside have moved in their direction;
* `solve_eq_naive` — the whole run agrees with naive evaluation.
-/

namespace ModalMu

namespace Solver

namespace EmersonLei

variable {fits : Nat → Bool} {first n limit : Nat} {ts : List Transition} {lts : Lts}
  {analysis : Analysis} {bindings : Bindings} {scope : Scope} {k : Kind} {b : Binder}
  {body : Formula}

/-! ### Formulas inside a scope -/

/-- A formula fits into a scope: its fixpoints have numbers of their own and are described by the
analysis, and its variables are bound by the scope or by the caller. -/
structure Fits (analysis : Analysis) (bindings : Bindings) (scope : Scope) (f : Formula) :
    Prop where
  /-- the numbers are distinct -/
  ids : f.binderIds.Nodup
  /-- no enclosing fixpoint has one of them -/
  fresh : ∀ e ∈ scope, e.1.id ∉ f.binderIds
  /-- the analysis knows the fixpoints -/
  described : analysis.Describes f
  /-- the variables have values -/
  covered : ∀ x ∈ f.freeOccurrences, x ∈ scope.map (·.1.var) ∨ x ∈ bindings

namespace Fits

variable {l r f : Formula}

@[simp] theorem or_iff :
    Fits analysis bindings scope (.or l r) ↔ Fits analysis bindings scope (.and l r) :=
  ⟨fun h => ⟨h.ids, h.fresh, h.described, h.covered⟩,
    fun h => ⟨h.ids, h.fresh, h.described, h.covered⟩⟩

@[simp] theorem dia_iff {a : String} :
    Fits analysis bindings scope (.dia a f) ↔ Fits analysis bindings scope f :=
  ⟨fun h => ⟨h.ids, h.fresh, h.described, h.covered⟩,
    fun h => ⟨h.ids, h.fresh, h.described, h.covered⟩⟩

@[simp] theorem box_iff {a : String} :
    Fits analysis bindings scope (.box a f) ↔ Fits analysis bindings scope f :=
  ⟨fun h => ⟨h.ids, h.fresh, h.described, h.covered⟩,
    fun h => ⟨h.ids, h.fresh, h.described, h.covered⟩⟩

theorem left (h : Fits analysis bindings scope (.and l r)) : Fits analysis bindings scope l where
  ids := (Formula.nodup_binderIds_and.1 h.ids).1
  fresh e he hid := h.fresh e he (Formula.mem_binderIds_left hid)
  described g hg := h.described g (List.mem_append_left _ hg)
  covered x hx := h.covered x (List.mem_append_left _ hx)

theorem right (h : Fits analysis bindings scope (.and l r)) : Fits analysis bindings scope r where
  ids := (Formula.nodup_binderIds_and.1 h.ids).2.1
  fresh e he hid := h.fresh e he (Formula.mem_binderIds_right hid)
  described g hg := h.described g (List.mem_append_right _ hg)
  covered x hx := h.covered x (List.mem_append_right _ hx)

/-- The two sides have no fixpoint in common. -/
theorem disjoint (h : Fits analysis bindings scope (.and l r)) {id : Nat} (hl : id ∈ l.binderIds) :
    id ∉ r.binderIds := (Formula.nodup_binderIds_and.1 h.ids).2.2 id hl

/-- A fixpoint has another number than those inside it. -/
theorem self_notMem (h : Fits analysis bindings scope (.fix k b body)) : b.id ∉ body.binderIds :=
  (Formula.nodup_binderIds_fix.1 h.ids).2

theorem inside (h : Fits analysis bindings scope (.fix k b body)) :
    Fits analysis bindings ((b, k) :: scope) body where
  ids := (Formula.nodup_binderIds_fix.1 h.ids).1
  fresh e he := by
    rcases List.mem_cons.1 he with rfl | he
    · exact h.self_notMem
    · exact fun hid => h.fresh e he (Formula.mem_binderIds_body hid)
  described g hg := h.described g (List.mem_append_left _ hg)
  covered x hx := by
    by_cases hxb : x = b.var
    · exact Or.inl (List.mem_cons.2 (Or.inl hxb))
    · refine (h.covered x ?_).imp_left (List.mem_cons_of_mem _)
      exact List.mem_filter.2 ⟨hx, by simpa using hxb⟩

end Fits

/-- What was remembered of other fixpoints than the given ones is still the same. -/
def Unchanged (ids : List Nat) (m m' : Approximations) : Prop := ∀ id, id ∉ ids → m'[id]? = m[id]?

namespace Prepared

variable {m m' : Approximations} {l r f : Formula}

@[simp] theorem or_iff :
    Prepared n ts bindings scope (.or l r) m ↔ Prepared n ts bindings scope (.and l r) m :=
  ⟨fun h => ⟨h.holds, h.scope_holds, h.ready, h.closed⟩,
    fun h => ⟨h.holds, h.scope_holds, h.ready, h.closed⟩⟩

@[simp] theorem dia_iff {a : String} :
    Prepared n ts bindings scope (.dia a f) m ↔ Prepared n ts bindings scope f m :=
  ⟨fun h => ⟨h.holds, h.scope_holds, h.ready, h.closed⟩,
    fun h => ⟨h.holds, h.scope_holds, h.ready, h.closed⟩⟩

@[simp] theorem box_iff {a : String} :
    Prepared n ts bindings scope (.box a f) m ↔ Prepared n ts bindings scope f m :=
  ⟨fun h => ⟨h.holds, h.scope_holds, h.ready, h.closed⟩,
    fun h => ⟨h.holds, h.scope_holds, h.ready, h.closed⟩⟩

theorem left (h : Prepared n ts bindings scope (.and l r) m) :
    Prepared n ts bindings scope l m where
  holds id hid := h.holds id (Formula.mem_binderIds_left hid)
  scope_holds := h.scope_holds
  ready := h.ready.1
  closed g hg := h.closed g (List.mem_append_left _ hg)

theorem right (h : Prepared n ts bindings scope (.and l r) m) :
    Prepared n ts bindings scope r m where
  holds id hid := h.holds id (Formula.mem_binderIds_right hid)
  scope_holds := h.scope_holds
  ready := h.ready.2
  closed g hg := h.closed g (List.mem_append_right _ hg)

theorem both (hl : Prepared n ts bindings scope l m) (hr : Prepared n ts bindings scope r m) :
    Prepared n ts bindings scope (.and l r) m where
  holds id hid := by
    rw [Formula.binderIds_and, List.mem_append] at hid
    exact hid.elim (hl.holds id) (hr.holds id)
  scope_holds := hl.scope_holds
  ready := ⟨hl.ready, hr.ready⟩
  closed g hg := (List.mem_append.1 hg).elim (hl.closed g) (hr.closed g)

/-- Evaluating something else does no harm. -/
theorem frame {ids : List Nat} (h : Prepared n ts bindings scope f m) (hm : Unchanged ids m m')
    (hf : ∀ id ∈ f.binderIds, id ∉ ids) (hscope : ∀ e ∈ scope, e.1.id ∉ ids) :
    Prepared n ts bindings scope f m' :=
  h.congr (fun id hid => hm id (hf id hid)) fun e he => hm e.1.id (hscope e he)

end Prepared

/-- **Evaluation of the formula is correct**, in every scope that it fits into and from every
memory that is prepared for it. -/
def Correct (n : Nat) (ts : List Transition) (lts : Lts) (limit : Nat) (analysis : Analysis)
    (bindings : Bindings) (f : Formula) : Prop :=
  ∀ (scope : Scope) (p : Progress Approximations), Fits analysis bindings scope f →
    Prepared n ts bindings scope f p.memory →
    Returns (eval lts limit analysis bindings f scope) p fun s p' =>
      s.Represents (f.denote ts (valuation n bindings p.memory scope)) ∧
        Prepared n ts bindings scope f p'.memory ∧ Unchanged f.binderIds p.memory p'.memory

/-! ### Entering a fixpoint -/

theorem mem_stale {id : Nat} :
    id ∈ stale b (Fixpoint.info ⟨k, b, body⟩) ↔
      ∃ g ∈ (Formula.fix k b body).fixpoints,
        g.isOpen = true ∧ g.kind = k ∧ g.binder.id = id := by
  have hopen : (Fixpoint.info ⟨k, b, body⟩).isOpen = Fixpoint.isOpen ⟨k, b, body⟩ := rfl
  rw [stale, List.mem_append, hopen]
  simp only [Fixpoint.info, Formula.fixpoints, List.mem_append, List.mem_singleton, List.mem_map,
    List.mem_filter, Bool.and_eq_true, beq_iff_eq]
  refine ⟨?_, ?_⟩
  · rintro (hid | ⟨g, ⟨hg, hgo, hgk⟩, rfl⟩)
    · split at hid
      · rename_i hself
        rw [List.mem_singleton] at hid
        exact ⟨⟨k, b, body⟩, Or.inr rfl, hself, rfl, hid.symm⟩
      · cases hid
    · exact ⟨g, Or.inl hg, hgo, hgk, rfl⟩
  · rintro ⟨g, hg | rfl, hgo, hgk, rfl⟩
    · exact Or.inr ⟨g, ⟨hg, hgo, hgk⟩, rfl⟩
    · rw [if_pos hgo]
      exact Or.inl (List.mem_singleton_self _)

/-- A closed fixpoint is never stale. -/
theorem notMem_stale_of_closed (hids : (Formula.fix k b body).binderIds.Nodup) {g : Fixpoint}
    (hg : g ∈ (Formula.fix k b body).fixpoints) (hclosed : g.isOpen = false) :
    g.binder.id ∉ stale b (Fixpoint.info ⟨k, b, body⟩) := by
  intro hstale
  obtain ⟨h, hh, hopen, -, hid⟩ := mem_stale.1 hstale
  rw [Formula.eq_of_id_eq hids hh hg hid, hclosed] at hopen
  cases hopen

/-- Setting approximations back. -/
theorem getElem?_foldl_insert (ids : List Nat) (s : StateSet) (m : Approximations) (id : Nat) :
    (ids.foldl (fun m id => m.insert id s) m)[id]? = if id ∈ ids then some s else m[id]? := by
  induction ids generalizing m with
  | nil => rfl
  | cons i ids ih =>
    rw [List.foldl_cons, ih, Std.TreeMap.getElem?_insert]
    by_cases hid : id ∈ ids
    · rw [if_pos hid, if_pos (List.mem_cons_of_mem _ hid)]
    · by_cases hi : i = id
      · simp [hi]
      · simp [hid, hi, Ne.symm hi]

/-- The invariant of the loop of a fixpoint: its current approximation is stored, and the memory is
prepared for the body. It began with the memory `m₀`. -/
structure Looping (n : Nat) (ts : List Transition) (bindings : Bindings) (scope : Scope) (k : Kind)
    (b : Binder) (body : Formula) (m₀ : Approximations) (current : StateSet)
    (m : Approximations) : Prop where
  /-- the approximation is stored -/
  stored : m[b.id]? = some current
  /-- the body can be evaluated -/
  prepared : Prepared n ts bindings ((b, k) :: scope) body m
  /-- nothing else has changed -/
  unchanged : Unchanged (Formula.fix k b body).binderIds m₀ m

/-- The enclosing fixpoints of the body are those of the loop and the loop itself. -/
theorem Looping.intro {m₀ m : Approximations} {start : StateSet}
    (hstored : m[b.id]? = some start) (huniv : start.univ = n)
    (hholds : ∀ id ∈ body.binderIds, Holds n m id) (hscope : ∀ e ∈ scope, Holds n m e.1.id)
    (hready : Ready ts m (some k) body
      (Function.update (valuation n bindings m scope) b.var (value n m b.id)))
    (hclosed : ClosedReady n ts m body)
    (hunchanged : Unchanged (Formula.fix k b body).binderIds m₀ m) :
    Looping n ts bindings scope k b body m₀ start m := by
  refine ⟨hstored, ⟨hholds, ?_, hready, hclosed⟩, hunchanged⟩
  intro e he
  rcases List.mem_cons.1 he with rfl | he
  · exact ⟨start, hstored, huniv⟩
  · exact hscope e he

/-- Entering without setting anything back: the block was ready. -/
theorem looping_of_ready {m : Approximations}
    (hprep : Prepared n ts bindings scope (.fix k b body) m)
    (hsame : scope.head?.map (·.2) ≠ some k.opposite) :
    ∃ start, start.univ = n ∧
      k.LeadsTo (Fixpoint.operator ts ⟨k, b, body⟩ (valuation n bindings m scope))
        (start.toSet n) ∧
      Looping n ts bindings scope k b body m start m := by
  obtain ⟨hleads, hbody⟩ := hprep.ready.resolve_left hsame
  obtain ⟨start, hstart, huniv⟩ := hprep.holds b.id Formula.self_mem_binderIds
  rw [value_eq hstart] at hleads
  refine ⟨start, huniv, hleads, Looping.intro hstart huniv ?_ hprep.scope_holds hbody ?_ ?_⟩
  · exact fun id hid => hprep.holds id (Formula.mem_binderIds_body hid)
  · exact fun g hg => hprep.closed g (List.mem_append_left _ hg)
  · exact fun _ _ => rfl

/-- **Entering with what is stale set back**: each approximation of this kind is either at its start
or belongs to a closed fixpoint, so it leads to its fixpoint under every valuation. -/
theorem looping_of_reset (hcount : lts.stateCount = n)
    (hfits : Fits analysis bindings scope (.fix k b body)) {m m₁ : Approximations}
    (hprep : Prepared n ts bindings scope (.fix k b body) m)
    (hreset : ∀ id, m₁[id]? = if id ∈ stale b (Fixpoint.info ⟨k, b, body⟩)
      then some (startValue lts k) else m[id]?) :
    ∃ start, start.univ = n ∧
      k.LeadsTo (Fixpoint.operator ts ⟨k, b, body⟩ (valuation n bindings m scope))
        (start.toSet n) ∧
      Looping n ts bindings scope k b body m start m₁ := by
  have hstart := represents_startValue hcount k
  -- only fixpoints of this formula are set back, and only open ones
  have hunchanged : Unchanged (Formula.fix k b body).binderIds m m₁ := by
    intro id hid
    rw [hreset, if_neg]
    intro hstale
    obtain ⟨g, hg, -, -, rfl⟩ := mem_stale.1 hstale
    exact hid (List.mem_map_of_mem hg)
  have hclosed : ∀ g ∈ (Formula.fix k b body).fixpoints, g.isOpen = false →
      m₁[g.binder.id]? = m[g.binder.id]? := by
    intro g hg hgc
    rw [hreset, if_neg (notMem_stale_of_closed hfits.ids hg hgc)]
  have hleads : ∀ g ∈ (Formula.fix k b body).fixpoints, g.kind = k →
      ∀ ρ : Var → Set (Fin n), g.kind.LeadsTo (g.operator ts ρ) (value n m₁ g.binder.id) := by
    intro g hg hgk ρ
    cases hgo : g.isOpen
    · -- a closed fixpoint keeps its approximation, which does not depend on `ρ`
      rw [value_congr (hclosed g hg hgo)]
      exact hprep.closed g hg hgo ρ
    · have hstale : m₁[g.binder.id]? = some (startValue lts k) := by
        rw [hreset, if_pos (mem_stale.2 ⟨g, hg, hgo, hgk, rfl⟩)]
      rw [value_eq hstale, hstart.toSet, hgk]
      exact Kind.LeadsTo.start
  have hholds : ∀ id, Holds n m id → Holds n m₁ id := by
    intro id hid
    by_cases hstale : id ∈ stale b (Fixpoint.info ⟨k, b, body⟩)
    · exact ⟨_, by rw [hreset, if_pos hstale], hstart.univ⟩
    · exact hid.congr (by rw [hreset, if_neg hstale])
  obtain ⟨start, hst, huniv⟩ := hholds b.id (hprep.holds b.id Formula.self_mem_binderIds)
  have hself := hleads ⟨k, b, body⟩ Formula.self_mem_fixpoints rfl
  refine ⟨start, huniv, ?_, Looping.intro hst huniv ?_ ?_ ?_ ?_ hunchanged⟩
  · rw [← value_eq hst]
    exact hself _
  · exact fun id hid => hholds id (hprep.holds id (Formula.mem_binderIds_body hid))
  · exact fun e he => hholds _ (hprep.scope_holds e he)
  · refine ready_of_leadsTo (fun g hg hgk => hleads g (List.mem_append_left _ hg) ?_) _
    by_contra hne
    exact hgk (by rw [Kind.ne_iff_eq_opposite.1 hne, Kind.opposite_opposite])
  · intro g hg hgc ρ
    have hg' : g ∈ (Formula.fix k b body).fixpoints := List.mem_append_left _ hg
    rw [value_congr (hclosed g hg' hgc)]
    exact hprep.closed g hg' hgc ρ

/-- **Entering a fixpoint establishes the invariant of its loop.** -/
theorem refresh_enters (hcount : lts.stateCount = n)
    (hfits : Fits analysis bindings scope (.fix k b body)) {p : Progress Approximations}
    (hprep : Prepared n ts bindings scope (.fix k b body) p.memory) :
    Returns (refresh lts scope k b (Fixpoint.info ⟨k, b, body⟩)) p fun _ p' =>
      ∃ start, start.univ = n ∧
        k.LeadsTo (Fixpoint.operator ts ⟨k, b, body⟩ (valuation n bindings p.memory scope))
          (start.toSet n) ∧
        Looping n ts bindings scope k b body p.memory start p'.memory := by
  rw [refresh]
  split
  · -- only the memory matters, not what is counted and noted
    have hrun : Returns (reset lts k b (stale b (Fixpoint.info ⟨k, b, body⟩))) p fun _ p' =>
        ∀ id, p'.memory[id]? = if id ∈ stale b (Fixpoint.info ⟨k, b, body⟩)
          then some (startValue lts k) else p.memory[id]? := by
      rw [reset]
      refine returns_modify_bind (returns_modify_bind ?_)
      split
      · exact Returns.pure (getElem?_foldl_insert _ _ _)
      · exact ⟨(), _, rfl, getElem?_foldl_insert _ _ _⟩
    exact hrun.imp fun _ p' hreset => looping_of_reset hcount hfits hprep hreset
  · rename_i hany
    refine Returns.pure (looping_of_ready hprep fun houter => hany ?_)
    obtain ⟨e, he, hek⟩ := Option.map_eq_some_iff.1 houter
    rw [he, Option.any_some, hek]
    cases k <;> rfl

/-! ### The loop -/

namespace Looping

variable {m₀ m : Approximations} {current next : StateSet}

/-- While the loop runs, the variables around it keep their values. -/
theorem valuation_eq (h : Looping n ts bindings scope k b body m₀ current m)
    (hfresh : ∀ e ∈ scope, e.1.id ∉ (Formula.fix k b body).binderIds) :
    valuation n bindings m scope = valuation n bindings m₀ scope :=
  valuation_congr fun e he => h.unchanged e.1.id (hfresh e he)

/-- Inside the loop its own variable has the current approximation as its value. -/
theorem valuation_inside (h : Looping n ts bindings scope k b body m₀ current m)
    (hfresh : ∀ e ∈ scope, e.1.id ∉ (Formula.fix k b body).binderIds) :
    valuation n bindings m ((b, k) :: scope) =
      Function.update (valuation n bindings m₀ scope) b.var (current.toSet n) := by
  rw [valuation, h.valuation_eq hfresh, value_eq h.stored]

/-- **Storing the next approximation keeps the invariant.** -/
theorem store (h : Looping n ts bindings scope k b body m₀ current m)
    (hfits : Fits analysis bindings scope (.fix k b body)) (hnext : next.univ = n)
    (hbefore : k.Before (current.toSet n) (next.toSet n)) :
    Looping n ts bindings scope k b body m₀ next (m.insert b.id next) := by
  have hother : ∀ id, id ≠ b.id → (m.insert b.id next)[id]? = m[id]? :=
    fun id hid => getElem?_insert_of_ne hid next
  have hbody : ∀ id ∈ body.binderIds, (m.insert b.id next)[id]? = m[id]? :=
    fun id hid => hother id fun he => hfits.self_notMem (he ▸ hid)
  have hscope : ∀ e ∈ scope, (m.insert b.id next)[e.1.id]? = m[e.1.id]? :=
    fun e he => hother _ fun hid => hfits.fresh e he (hid ▸ Formula.self_mem_binderIds)
  have hstored : (m.insert b.id next)[b.id]? = some next := Std.TreeMap.getElem?_insert_self
  refine Looping.intro hstored hnext ?_ ?_ ?_ (h.prepared.closed.congr hbody) ?_
  · exact fun id hid => (h.prepared.holds id hid).congr (hbody id hid)
  · exact fun e he => (h.prepared.scope_holds e (List.mem_cons_of_mem _ he)).congr (hscope e he)
  · -- the own variable moves on, and all others stay
    refine Ready.congr (h.prepared.ready.mono fun x => ?_) hbody
    rw [value_eq hstored, valuation_congr hscope, valuation, value_eq h.stored]
    exact Kind.Before.update (fun _ => Kind.Before.refl _) b.var hbefore x
  · intro id hid
    rw [hother id fun he => hid (he ▸ Formula.self_mem_binderIds)]
    exact h.unchanged id hid

theorem returns_store {q : Progress Approximations}
    (h : Looping n ts bindings scope k b body m₀ current q.memory)
    (hfits : Fits analysis bindings scope (.fix k b body)) {F : Set (Fin n) → Set (Fin n)}
    (hleads : k.LeadsTo F (current.toSet n)) (hnext : next.Represents (F (current.toSet n))) :
    Returns (EmersonLei.store b.id next) q fun _ q' =>
      Looping n ts bindings scope k b body m₀ next q'.memory := by
  refine ⟨(), _, rfl, h.store hfits hnext.univ ?_⟩
  rw [hnext.toSet]
  exact hleads.moves

/-- When the loop is over, the memory is prepared for the fixpoint again. -/
theorem finish (h : Looping n ts bindings scope k b body m₀ current m)
    (hfits : Fits analysis bindings scope (.fix k b body))
    (hcurrent : current.Represents
      (k.fixpoint (Fixpoint.operator ts ⟨k, b, body⟩ (valuation n bindings m₀ scope)))) :
    Prepared n ts bindings scope (.fix k b body) m := by
  have hleads : k.LeadsTo
      (Fixpoint.operator ts ⟨k, b, body⟩ (valuation n bindings m₀ scope)) (value n m b.id) := by
    rw [value_eq h.stored, hcurrent.toSet]
    exact Kind.LeadsTo.fixpoint (Fixpoint.operator_mono _ _)
  refine ⟨?_, ?_, Or.inr ⟨?_, h.prepared.ready⟩, ?_⟩
  · intro id hid
    rw [Formula.binderIds_fix, List.mem_append, List.mem_singleton] at hid
    rcases hid with hid | rfl
    · exact h.prepared.holds id hid
    · exact ⟨current, h.stored, hcurrent.univ⟩
  · exact fun e he => h.prepared.scope_holds e (List.mem_cons_of_mem _ he)
  · rw [h.valuation_eq hfits.fresh]
    exact hleads
  · intro g hg hgc ρ
    rcases List.mem_append.1 hg with hg | hg
    · exact h.prepared.closed g hg hgc ρ
    · rw [List.mem_singleton] at hg
      subst hg
      rw [Fixpoint.operator_eq_of_closed hgc ρ (valuation n bindings m₀ scope)]
      exact hleads

end Looping

/-! ### One construct at a time -/

namespace Correct

variable {l r f : Formula}

/-- **Evaluating the two sides of a formula**, one after the other: neither disturbs the other. -/
theorem both (hl : Correct n ts lts limit analysis bindings l)
    (hr : Correct n ts lts limit analysis bindings r)
    {p : Progress Approximations} (hfits : Fits analysis bindings scope (.and l r))
    (hprep : Prepared n ts bindings scope (.and l r) p.memory)
    {join : StateSet → StateSet → Run Approximations StateSet}
    {Q : StateSet → Progress Approximations → Prop}
    (hjoin : ∀ a b p',
      a.Represents (l.denote ts (valuation n bindings p.memory scope)) →
      b.Represents (r.denote ts (valuation n bindings p.memory scope)) →
      Prepared n ts bindings scope (.and l r) p'.memory →
      Unchanged (l.and r).binderIds p.memory p'.memory → Returns (join a b) p' Q) :
    Returns (do
      let a ← eval lts limit analysis bindings l scope
      let b ← eval lts limit analysis bindings r scope
      join a b) p Q := by
  refine (hl scope p hfits.left hprep.left).bind ?_
  rintro a p₁ ⟨ha, hprep₁, hsame₁⟩
  have hprep₁' : Prepared n ts bindings scope r p₁.memory :=
    hprep.right.frame hsame₁ (fun _ hid hid' => hfits.disjoint hid' hid) hfits.left.fresh
  refine (hr scope p₁ hfits.right hprep₁').bind ?_
  rintro b p₂ ⟨hb, hprep₂, hsame₂⟩
  have hprep₂' : Prepared n ts bindings scope l p₂.memory :=
    hprep₁.frame hsame₂ (fun _ => hfits.disjoint) hfits.right.fresh
  rw [valuation_congr fun e he => hsame₁ e.1.id (hfits.left.fresh e he)] at hb
  refine hjoin a b p₂ ha hb (hprep₂'.both hprep₂) fun id hid => ?_
  rw [Formula.binderIds_and, List.mem_append, not_or] at hid
  rw [hsame₂ id hid.2, hsame₁ id hid.1]

theorem and (hl : Correct n ts lts limit analysis bindings l)
    (hr : Correct n ts lts limit analysis bindings r) :
    Correct n ts lts limit analysis bindings (.and l r) := by
  intro scope p hfits hprep
  refine both hl hr hfits hprep fun a b p' ha hb hprep' hsame => ?_
  obtain ⟨s, hinter, hs⟩ := ha.inter? hb
  exact returns_combine hinter ⟨hs, hprep', hsame⟩

theorem or (hl : Correct n ts lts limit analysis bindings l)
    (hr : Correct n ts lts limit analysis bindings r) :
    Correct n ts lts limit analysis bindings (.or l r) := by
  intro scope p hfits hprep
  refine both hl hr (Fits.or_iff.1 hfits) (Prepared.or_iff.1 hprep) ?_
  intro a b p' ha hb hprep' hsame
  obtain ⟨s, hunion, hs⟩ := ha.union? hb
  exact returns_combine hunion ⟨hs, Prepared.or_iff.2 hprep', hsame⟩

theorem dia (hlts : Lts.build fits first n ts = .ok lts) {a : String}
    (hf : Correct n ts lts limit analysis bindings f) :
    Correct n ts lts limit analysis bindings (.dia a f) := by
  intro scope p hfits hprep
  refine (hf scope p (Fits.dia_iff.1 hfits) (Prepared.dia_iff.1 hprep)).bind ?_
  rintro s p' ⟨hs, hprep', hsame⟩
  exact Returns.pure ⟨represents_diamond hlts hs, Prepared.dia_iff.2 hprep', hsame⟩

theorem box (hlts : Lts.build fits first n ts = .ok lts) {a : String}
    (hf : Correct n ts lts limit analysis bindings f) :
    Correct n ts lts limit analysis bindings (.box a f) := by
  intro scope p hfits hprep
  refine (hf scope p (Fits.box_iff.1 hfits) (Prepared.box_iff.1 hprep)).bind ?_
  rintro s p' ⟨hs, hprep', hsame⟩
  exact Returns.pure ⟨represents_box hlts hs, Prepared.box_iff.2 hprep', hsame⟩

/-- **A round of a loop** evaluates the body, whose valuation differs in the current approximation
only. -/
theorem round (hbody : Correct n ts lts limit analysis bindings body)
    (hfits : Fits analysis bindings scope (.fix k b body)) {m₀ : Approximations}
    {current : StateSet} {q : Progress Approximations}
    (hlooping : Looping n ts bindings scope k b body m₀ current q.memory) :
    Returns (eval lts limit analysis bindings body ((b, k) :: scope)) q fun next q' =>
      next.Represents (Fixpoint.operator ts ⟨k, b, body⟩ (valuation n bindings m₀ scope)
        (current.toSet n)) ∧ Looping n ts bindings scope k b body m₀ current q'.memory := by
  refine (hbody ((b, k) :: scope) q hfits.inside hlooping.prepared).imp ?_
  rintro next q' ⟨hnext, hprep', hsame⟩
  rw [hlooping.valuation_inside hfits.fresh] at hnext
  refine ⟨hnext, ⟨?_, hprep', fun id hid => ?_⟩⟩
  · rw [hsame b.id hfits.self_notMem]
    exact hlooping.stored
  · rw [hsame id fun hid' => hid (Formula.mem_binderIds_body hid')]
    exact hlooping.unchanged id hid

/-- **The loop of a fixpoint**, once entered. -/
theorem fix (hcount : lts.stateCount = n) (hlimit : n < limit)
    (hbody : Correct n ts lts limit analysis bindings body) :
    Correct n ts lts limit analysis bindings (.fix k b body) := by
  intro scope p hfits hprep
  have hinfo := annotation?_of_describes hfits.described
  refine returns_require_bind hinfo ((refresh_enters hcount hfits hprep).bind ?_)
  rintro - p₁ ⟨start, huniv, hleads, hloop⟩
  refine returns_memory_bind (returns_require_bind hloop.stored ?_)
  refine returns_modify_bind (Returns.imp (settle_returns (k := k)
    (I := Looping n ts bindings scope k b body p.memory)
    (Fixpoint.operator_mono ⟨k, b, body⟩ (valuation n bindings p.memory scope))
    (fun _ _ _ hlooping => hbody.round hfits hlooping)
    (fun _ _ _ hlooping hleads hnext => hlooping.returns_store hfits hleads hnext)
    huniv hleads hloop ?_) ?_)
  · exact Nat.lt_of_le_of_lt (Kind.remaining_le _) hlimit
  · rintro s q ⟨hs, hlooping⟩
    exact ⟨hs, hlooping.finish hfits hs, hlooping.unchanged⟩

end Correct

/-- **Evaluation of every formula is correct.** -/
theorem correct (hlts : Lts.build fits first n ts = .ok lts) (hlimit : n < limit)
    (hover : Bindings.Over n bindings) (f : Formula) :
    Correct n ts lts limit analysis bindings f := by
  have hcount : lts.stateCount = n := Lts.stateCount_eq hlts
  induction f with
  | tt =>
    intro scope p _ hprep
    refine Returns.pure ⟨?_, hprep, fun _ _ => rfl⟩
    rw [Lts.fullSet, hcount]
    exact StateSet.represents_full
  | ff =>
    intro scope p _ hprep
    refine Returns.pure ⟨?_, hprep, fun _ _ => rfl⟩
    rw [Lts.emptySet, hcount]
    exact StateSet.represents_empty
  | var x =>
    intro scope p hfits hprep
    refine (lookup_returns hover hprep.scope_holds (hfits.covered x List.mem_cons_self)).imp ?_
    rintro s _ ⟨hs, rfl⟩
    exact ⟨hs, hprep, fun _ _ => rfl⟩
  | and l r ihl ihr => exact ihl.and ihr
  | or l r ihl ihr => exact ihl.or ihr
  | dia a f ih => exact ih.dia hlts
  | box a f ih => exact ih.box hlts
  | fix k b body ih => exact ih.fix hcount hlimit

/-! ### Whole runs -/

/-- At the beginning every fixpoint is at its start. -/
theorem getElem?_initial {binders : List (Nat × Kind)} (hids : (binders.map (·.1)).Nodup)
    {id : Nat} (h : (id, k) ∈ binders) : (initial lts binders)[id]? = some (startValue lts k) := by
  have hfold : ∀ m : Approximations,
      binders.foldl (fun m e => m.insert e.1 (startValue lts e.2)) m =
        m.insertMany (binders.map fun e => (e.1, startValue lts e.2)) := by
    clear h hids
    induction binders with
    | nil => exact fun m => rfl
    | cons e binders ih =>
      intro m
      rw [List.foldl_cons, ih, List.map_cons, Std.TreeMap.insertMany_cons]
  have hinitial : initial lts binders = _ := hfold ∅
  rw [hinitial]
  refine Std.TreeMap.getElem?_insertMany_list_of_mem Std.ReflCmp.compare_self ?_
    (List.mem_map.2 ⟨(id, k), h, rfl⟩)
  rw [List.pairwise_map]
  refine (List.pairwise_map.1 hids).imp fun hne => ?_
  rwa [Std.compare_eq_iff_eq]

theorem getElem?_initial_scoping {f : Formula} (hids : f.binderIds.Nodup) {g : Fixpoint}
    (hg : g ∈ f.fixpoints) :
    (initial lts f.scoping.binders)[g.binder.id]? = some (startValue lts g.kind) := by
  rw [Formula.scoping_binders]
  refine getElem?_initial ?_ (List.mem_map.2 ⟨g, hg, rfl⟩)
  rwa [List.map_map]

/-- **Before the first step all is prepared.** -/
theorem prepared_initial (hcount : lts.stateCount = n) {f : Formula} (hids : f.binderIds.Nodup) :
    Prepared n ts bindings [] f (initial lts f.scoping.binders) := by
  have hstart : ∀ g ∈ f.fixpoints,
      (initial lts f.scoping.binders)[g.binder.id]? = some (startValue lts g.kind) :=
    fun g hg => getElem?_initial_scoping hids hg
  have hleads : ∀ g ∈ f.fixpoints, ∀ ρ : Var → Set (Fin n), g.kind.LeadsTo (g.operator ts ρ)
      (value n (initial lts f.scoping.binders) g.binder.id) := by
    intro g hg ρ
    rw [value_eq (hstart g hg), (represents_startValue hcount g.kind).toSet]
    exact Kind.LeadsTo.start
  refine ⟨?_, by simp, ready_of_leadsTo (fun g hg _ => hleads g hg) _, fun g hg _ => hleads g hg⟩
  intro id hid
  obtain ⟨g, hg, rfl⟩ := List.mem_map.1 hid
  exact ⟨_, hstart g hg, (represents_startValue hcount g.kind).univ⟩

/-- A formula whose variables have values fits outside all fixpoints. -/
theorem fits_analyze {f : Formula} (hids : f.binderIds.Nodup)
    (hcovered : ∀ x ∈ f.freeOccurrences, x ∈ bindings) : Fits f.analyze bindings [] f :=
  ⟨hids, by simp, Analysis.describes_analyze hids, fun x hx => Or.inr (hcovered x hx)⟩

/-- The search for a variable without a value, before the run begins. -/
theorem find?_scoping_free (f : Formula) (bindings : Bindings) :
    f.scoping.free.find? (fun x => !bindings.contains x) =
      Bindings.missing? bindings f.freeOccurrences := by
  rw [Formula.scoping_free, find?_distinct]
  rfl

theorem solve_fails (lts : Lts) (analysis : Analysis) {f : Formula} {x : Var}
    (hx : Bindings.missing? bindings f.freeOccurrences = some x) (logging : Bool) :
    (solve lts f analysis bindings logging).result = .error (.unboundVariable x) := by
  rw [solve, find?_scoping_free, hx]

/-- **The run returns the meaning.** -/
theorem run_returns (hlts : Lts.build fits first n ts = .ok lts) {f : Formula}
    (hids : f.binderIds.Nodup) (hover : Bindings.Over n bindings)
    (hx : Bindings.missing? bindings f.freeOccurrences = none) (logging : Bool) :
    ∃ states p',
      eval lts (roundLimit lts) f.analyze bindings f []
        (Progress.initial logging (initial lts f.scoping.binders)) = .ok states p' ∧
      (solve lts f f.analyze bindings logging).result = .ok ⟨states, p'.counters⟩ ∧
      states.Represents (f.denote ts (Bindings.valuation n bindings)) := by
  have hfits : Fits f.analyze bindings [] f := fits_analyze hids (Bindings.missing?_eq_none.1 hx)
  have hprep : Prepared n ts bindings [] f (initial lts f.scoping.binders) :=
    prepared_initial (Lts.stateCount_eq hlts) hids
  obtain ⟨states, p', hrun, hstates, -⟩ := correct hlts (lt_roundLimit hlts) hover f []
    (Progress.initial logging (initial lts f.scoping.binders)) hfits hprep
  rw [solve, find?_scoping_free, hx]
  exact ⟨states, p', hrun, report_result_of_ok .emersonLei hrun, hstates⟩

theorem solve_returns (hlts : Lts.build fits first n ts = .ok lts) {f : Formula}
    (hids : f.binderIds.Nodup) (hover : Bindings.Over n bindings)
    (hx : Bindings.missing? bindings f.freeOccurrences = none) (logging : Bool) :
    ∃ states counters,
      (solve lts f f.analyze bindings logging).result = .ok ⟨states, counters⟩ ∧
        states.Represents (f.denote ts (Bindings.valuation n bindings)) := by
  obtain ⟨states, p', -, hresult, hstates⟩ := run_returns hlts hids hover hx logging
  exact ⟨states, p'.counters, hresult, hstates⟩

/-- **Emerson-Lei evaluation agrees with naive evaluation.** Both find the same states, or both fail
with the first free occurrence of a variable that the caller gives no value; there is no other
failure. -/
theorem solve_eq_naive (hlts : Lts.build fits first n ts = .ok lts) {f : Formula}
    (hids : f.binderIds.Nodup) (hover : Bindings.Over n bindings) (logging logging' : Bool) :
    (solve lts f f.analyze bindings logging).result.map (·.states) =
        (Naive.solve lts f bindings logging').result.map (·.states) ∧
      match Bindings.missing? bindings f.freeOccurrences with
      | some x =>
        (solve lts f f.analyze bindings logging).result = .error (.unboundVariable x)
      | none => ∃ solution, (solve lts f f.analyze bindings logging).result = .ok solution := by
  rcases hx : Bindings.missing? bindings f.freeOccurrences with _ | x
  · obtain ⟨states, counters, hresult, hstates⟩ := solve_returns hlts hids hover hx logging
    obtain ⟨states', p', -, hresult', hstates'⟩ :=
      Naive.solve_returns hlts f hover (Bindings.missing?_eq_none.1 hx) logging'
    refine ⟨?_, ⟨_, hresult⟩⟩
    rw [hresult, hresult', hstates.unique hstates']
    rfl
  · have hresult := solve_fails lts f.analyze hx logging
    refine ⟨?_, hresult⟩
    rw [hresult, Naive.solve_fails hlts f hover hx logging']

/-- A greatest fixpoint inside a least one, with a variable that the caller gives a value. -/
theorem solve_eq_naive_alternating :
    ∃ lts f bindings, Lts.ofTransitions 0 2 [⟨0, "a", 1⟩, ⟨1, "a", 0⟩] = .ok lts ∧
      f = .fix .least ⟨0, 'X'⟩ (.fix .greatest ⟨1, 'Y'⟩
        (.or (.dia "a" (.var 'X')) (.and (.var 'Z') (.box "a" (.var 'Y'))))) ∧
      bindings = (∅ : Bindings).insert 'Z' ((StateSet.empty 2).insert 1) ∧
      (solve lts f f.analyze bindings false).result.map (·.states) =
        (Naive.solve lts f bindings false).result.map (·.states) := by
  obtain ⟨lts, hlts⟩ :
    ∃ lts, Lts.ofTransitions 0 2 [⟨0, "a", 1⟩, ⟨1, "a", 0⟩] = .ok lts := ⟨_, rfl⟩
  refine ⟨lts, _, _, hlts, rfl, rfl, (solve_eq_naive hlts (by decide) ?_ false false).1⟩
  exact Bindings.Over.insert (fun x s hs => by simp at hs) 'Z' rfl

end EmersonLei

end Solver

end ModalMu
