import ModalMu.Proofs.Dependency
import ModalMu.Proofs.Loop
import ModalMu.Solver.EmersonLei

/-!
# What the remembered approximations are good for

Evaluation that keeps its approximations is right as long as every approximation that will be used
again is on the way to its fixpoint, under the values that its enclosing variables have by then.

* `valuation` — the values of the variables inside some fixpoints: what is remembered of these, and
  else the caller's;
* `Ready` — **the invariant**: seen from outside, the approximations of a block of nested fixpoints
  of one kind lead to their fixpoints. A fixpoint of the opposite kind inside is exempt, since what
  may be stale in it is set back on entering;
* `Ready.mono` — while the variables around a block move in its direction, it stays ready;
* `ClosedReady` — closed fixpoints are never set back and lead to their fixpoints at any time;
* `Prepared` — all that evaluating a formula asks of the memory, and leaves behind.
-/

namespace ModalMu

namespace Solver

namespace EmersonLei

variable {n : Nat} {ts : List Transition} {bindings : Bindings} {scope : Scope}
  {m m' : Approximations}

/-! ### Reading the memory -/

/-- What is remembered of a fixpoint, as a set of states. -/
def value (n : Nat) (m : Approximations) (id : Nat) : Set (Fin n) :=
  (m.getD id (StateSet.empty n)).toSet n

/-- Something over `n` states is remembered of a fixpoint. -/
def Holds (n : Nat) (m : Approximations) (id : Nat) : Prop := ∃ s, m[id]? = some s ∧ s.univ = n

theorem value_eq {id : Nat} {s : StateSet} (h : m[id]? = some s) : value n m id = s.toSet n := by
  rw [value, Std.TreeMap.getD_eq_getD_getElem?, h]
  rfl

theorem value_congr {id : Nat} (h : m'[id]? = m[id]?) : value n m' id = value n m id := by
  rw [value, value, Std.TreeMap.getD_eq_getD_getElem?, Std.TreeMap.getD_eq_getD_getElem?, h]

theorem Holds.congr {id : Nat} (hm : Holds n m id) (h : m'[id]? = m[id]?) : Holds n m' id := by
  obtain ⟨s, hs, huniv⟩ := hm
  exact ⟨s, h.trans hs, huniv⟩

/-- Storing an approximation leaves the others alone. -/
theorem getElem?_insert_of_ne {i id : Nat} (hid : id ≠ i) (s : StateSet) :
    (m.insert i s)[id]? = m[id]? := by
  rw [Std.TreeMap.getElem?_insert, if_neg fun he => hid (Std.compare_eq_iff_eq.1 he).symm]

/-- The right record of a fixpoint is used. -/
theorem annotation?_of_get? {analysis : Analysis} {g : Fixpoint}
    (h : analysis.get? g.binder.id = some g.info) :
    annotation? analysis g.kind g.binder = some g.info := by
  rw [annotation?, h]
  exact Option.filter_eq_some_iff.2 ⟨rfl, by simp [Fixpoint.info, Fixpoint.outline]⟩

/-- An analysis that describes a fixpoint has its record. -/
theorem annotation?_of_describes {analysis : Analysis} {k : Kind} {b : Binder} {body : Formula}
    (h : analysis.Describes (.fix k b body)) :
    annotation? analysis k b = some (Fixpoint.info ⟨k, b, body⟩) :=
  annotation?_of_get? (h ⟨k, b, body⟩ Formula.self_mem_fixpoints)

/-- **The values of variables inside the fixpoints of a scope.** -/
def valuation (n : Nat) (bindings : Bindings) (m : Approximations) : Scope → Var → Set (Fin n)
  | [] => Bindings.valuation n bindings
  | (b, _) :: scope => Function.update (valuation n bindings m scope) b.var (value n m b.id)

theorem valuation_congr (h : ∀ e ∈ scope, m'[e.1.id]? = m[e.1.id]?) :
    valuation n bindings m' scope = valuation n bindings m scope := by
  induction scope with
  | nil => rfl
  | cons e scope ih =>
    obtain ⟨b, k⟩ := e
    rw [valuation, valuation, ih fun e he => h e (List.mem_cons_of_mem _ he),
      value_congr (h (b, k) List.mem_cons_self)]

/-- **A variable has the value that the valuation says.** -/
theorem lookup_returns (hover : Bindings.Over n bindings) {x : Var} {p : Progress Approximations}
    (hscope : ∀ e ∈ scope, Holds n p.memory e.1.id)
    (hx : x ∈ scope.map (·.1.var) ∨ x ∈ bindings) :
    Returns (lookup bindings scope x) p fun s p' =>
      s.Represents (valuation n bindings p.memory scope x) ∧ p' = p := by
  induction scope with
  | nil =>
    have hmem : x ∈ bindings := hx.resolve_left List.not_mem_nil
    obtain ⟨s, hs⟩ := Option.isSome_iff_exists.1 (Std.TreeMap.mem_iff_isSome_getElem?.1 hmem)
    refine returns_require hs ⟨⟨hover x s hs, ?_⟩, rfl⟩
    rw [valuation, Bindings.valuation, Std.TreeMap.getD_eq_getD_getElem?, hs]
    rfl
  | cons e scope ih =>
    obtain ⟨b, k⟩ := e
    by_cases hb : b.var = x
    · subst hb
      obtain ⟨s, hs, huniv⟩ := hscope (b, k) List.mem_cons_self
      have hfind : ((b, k) :: scope).find? (·.1.var == b.var) = some (b, k) :=
        List.find?_cons_of_pos (by simp)
      rw [lookup, hfind]
      refine returns_memory_bind (returns_require hs ⟨⟨huniv, ?_⟩, rfl⟩)
      rw [valuation, Function.update_self, value_eq hs]
    · have hfind : ((b, k) :: scope).find? (·.1.var == x) = scope.find? (·.1.var == x) :=
        List.find?_cons_of_neg (by simpa using hb)
      rw [lookup, hfind, valuation, Function.update_of_ne (Ne.symm hb)]
      refine ih (fun e he => hscope e (List.mem_cons_of_mem _ he)) (hx.imp_left fun h => ?_)
      exact (List.mem_cons.1 h).resolve_left (Ne.symm hb)

/-! ### The invariant of blocks -/

/-- **The approximations of a formula are ready**, seen from inside a fixpoint of kind `outer` (or
from outside all fixpoints) and under a valuation of its variables. -/
def Ready (ts : List Transition) (m : Approximations) :
    Option Kind → Formula → (Var → Set (Fin n)) → Prop
  | _, .tt, _ | _, .ff, _ | _, .var _, _ => True
  | outer, .and l r, ρ | outer, .or l r, ρ => Ready ts m outer l ρ ∧ Ready ts m outer r ρ
  | outer, .dia _ f, ρ | outer, .box _ f, ρ => Ready ts m outer f ρ
  | outer, .fix k b body, ρ =>
    outer = some k.opposite ∨
      (k.LeadsTo (Fixpoint.operator ts ⟨k, b, body⟩ ρ) (value n m b.id) ∧
        Ready ts m (some k) body (Function.update ρ b.var (value n m b.id)))

/-- Only what is remembered of the formula's own fixpoints matters. -/
theorem Ready.congr {outer : Option Kind} {f : Formula} {ρ : Var → Set (Fin n)}
    (h : Ready ts m outer f ρ) (hm : ∀ id ∈ f.binderIds, m'[id]? = m[id]?) :
    Ready ts m' outer f ρ := by
  induction f generalizing outer ρ with
  | tt | ff | var _ => trivial
  | and l r ihl ihr | or l r ihl ihr =>
    exact ⟨ihl h.1 fun id hid => hm id (Formula.mem_binderIds_left hid),
      ihr h.2 fun id hid => hm id (Formula.mem_binderIds_right hid)⟩
  | dia a f ih | box a f ih => exact ih h hm
  | fix k b body ih =>
    rcases h with h | ⟨hleads, hbody⟩
    · exact Or.inl h
    · refine Or.inr ?_
      rw [value_congr (hm b.id Formula.self_mem_binderIds)]
      exact ⟨hleads, ih hbody fun id hid => hm id (Formula.mem_binderIds_body hid)⟩

/-- **A block stays ready while its surroundings move in its direction.** -/
theorem Ready.mono {k : Kind} {f : Formula} {ρ ρ' : Var → Set (Fin n)}
    (h : Ready ts m (some k) f ρ) (hρ : ∀ x, k.Before (ρ x) (ρ' x)) : Ready ts m (some k) f ρ' := by
  induction f generalizing ρ ρ' with
  | tt | ff | var _ => trivial
  | and l r ihl ihr | or l r ihl ihr => exact ⟨ihl h.1 hρ, ihr h.2 hρ⟩
  | dia a f ih | box a f ih => exact ih h hρ
  | fix j b body ih =>
    rcases h with h | ⟨hleads, hbody⟩
    · exact Or.inl h
    · by_cases hj : j = k
      · subst hj
        exact Or.inr ⟨hleads.mono (Fixpoint.operator_before hρ),
          ih hbody (Kind.Before.update hρ b.var (Kind.Before.refl _))⟩
      · -- a fixpoint of the opposite kind is exempt
        exact Or.inl (by rw [Kind.ne_iff_eq_opposite.1 hj, Kind.opposite_opposite])

/-- A formula is ready when all approximations of the kinds that matter lead to their fixpoints
under every valuation. -/
theorem ready_of_leadsTo {outer : Option Kind} {f : Formula}
    (h : ∀ g ∈ f.fixpoints, outer ≠ some g.kind.opposite →
      ∀ ρ : Var → Set (Fin n), g.kind.LeadsTo (g.operator ts ρ) (value n m g.binder.id))
    (ρ : Var → Set (Fin n)) : Ready ts m outer f ρ := by
  induction f generalizing outer ρ with
  | tt | ff | var _ => trivial
  | and l r ihl ihr | or l r ihl ihr =>
    exact ⟨ihl (fun g hg => h g (List.mem_append_left _ hg)) ρ,
      ihr (fun g hg => h g (List.mem_append_right _ hg)) ρ⟩
  | dia a f ih | box a f ih => exact ih h ρ
  | fix k b body ih =>
    by_cases houter : outer = some k.opposite
    · exact Or.inl houter
    · refine Or.inr ⟨h ⟨k, b, body⟩ Formula.self_mem_fixpoints houter ρ,
        ih (fun g hg hg' => h g (List.mem_append_left _ hg) fun he => ?_) _⟩
      -- inside, only the kind of this fixpoint matters, and outside it mattered already
      have hkind : g.kind = k := by
        by_contra hne
        exact hg' (by rw [Kind.ne_iff_eq_opposite.1 hne, Kind.opposite_opposite])
      exact houter (hkind ▸ he)

/-- Closed fixpoints lead to their fixpoints, whatever the variables around them are. -/
def ClosedReady (n : Nat) (ts : List Transition) (m : Approximations) (f : Formula) : Prop :=
  ∀ g ∈ f.fixpoints, g.isOpen = false →
    ∀ ρ : Var → Set (Fin n), g.kind.LeadsTo (g.operator ts ρ) (value n m g.binder.id)

theorem ClosedReady.congr {f : Formula} (h : ClosedReady n ts m f)
    (hm : ∀ id ∈ f.binderIds, m'[id]? = m[id]?) : ClosedReady n ts m' f := by
  intro g hg hclosed ρ
  rw [value_congr (hm _ (List.mem_map_of_mem hg))]
  exact h g hg hclosed ρ

/-! ### All that is asked of the memory -/

/-- **The memory is prepared for evaluating a formula inside a scope.** -/
structure Prepared (n : Nat) (ts : List Transition) (bindings : Bindings) (scope : Scope)
    (f : Formula) (m : Approximations) : Prop where
  /-- every fixpoint of the formula has an approximation -/
  holds : ∀ id ∈ f.binderIds, Holds n m id
  /-- every enclosing fixpoint has one -/
  scope_holds : ∀ e ∈ scope, Holds n m e.1.id
  /-- the block that the formula belongs to is ready -/
  ready : Ready ts m (scope.head?.map (·.2)) f (valuation n bindings m scope)
  /-- closed fixpoints are ready -/
  closed : ClosedReady n ts m f

/-- Changes elsewhere in the memory do no harm. -/
theorem Prepared.congr {f : Formula} (h : Prepared n ts bindings scope f m)
    (hm : ∀ id ∈ f.binderIds, m'[id]? = m[id]?) (hscope : ∀ e ∈ scope, m'[e.1.id]? = m[e.1.id]?) :
    Prepared n ts bindings scope f m' where
  holds id hid := (h.holds id hid).congr (hm id hid)
  scope_holds e he := (h.scope_holds e he).congr (hscope e he)
  ready := by
    rw [valuation_congr hscope]
    exact h.ready.congr hm
  closed := h.closed.congr hm

end EmersonLei

end Solver

end ModalMu
