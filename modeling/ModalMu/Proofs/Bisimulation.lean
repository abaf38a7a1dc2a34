import ModalMu.Proofs.EmersonLei

/-!
# Bisimulation

Related states of two systems satisfy the same closed formulas, if each step of one can be answered
by a step of the other. The systems may be of different sizes, so their fixpoint loops need not take
the same rounds; the argument is about the meaning that both solvers compute.

* `Bisimulation` — each side can answer the steps of the other;
* `Carries` — a relation leads from a set into another. **It suffices to look at one direction**:
  since formulas have no negation, a relation that carries values carries meanings;
* `Carries.fixpoint` — fixpoints are carried when their operators are. For a least one, the states
  all of whose partners lie in a pre-fixpoint are a pre-fixpoint; for a greatest one, the partners
  of a post-fixpoint are a post-fixpoint;
* `solve_bisimilar` — both solvers, and the special case of renamed states.
-/

namespace ModalMu

/-! ### Relations that carry sets -/

section

variable {α β : Type} {R : α → β → Prop}

/-- **The relation leads from the one set into the other.** -/
def Carries (R : α → β → Prop) (A : Set α) (B : Set β) : Prop := ∀ s t, R s t → s ∈ A → t ∈ B

/-- **Fixpoints are carried** when each set that is carried into another one stays so after a
round. -/
theorem Carries.fixpoint {k : Kind} {F : Set α → Set α} {G : Set β → Set β}
    (h : ∀ A B, Carries R A B → Carries R (F A) (G B)) :
    Carries R (k.fixpoint F) (k.fixpoint G) := by
  intro s t hst hs
  cases k with
  | least =>
    rintro T hT
    -- the largest set that is carried into `T`
    have hcarries : Carries R {s | ∀ t, R s t → t ∈ T} T := fun s t hst hs => hs t hst
    have hpre : F {s | ∀ t, R s t → t ∈ T} ⊆ {s | ∀ t, R s t → t ∈ T} :=
      fun s hs t hst => hT (h _ _ hcarries s t hst hs)
    exact hs _ hpre t hst
  | greatest =>
    obtain ⟨S, hS, hmem⟩ := hs
    -- the smallest set that `S` is carried into
    have hcarries : Carries R S {t | ∃ s ∈ S, R s t} := fun s t hst hs => ⟨s, hs, hst⟩
    have hpost : {t | ∃ s ∈ S, R s t} ⊆ G {t | ∃ s ∈ S, R s t} := by
      rintro t ⟨s, hs, hst⟩
      exact h _ _ hcarries s t hst (hS hs)
    exact ⟨_, hpost, s, hmem, hst⟩

end

/-! ### Bisimulations -/

variable {n₁ n₂ : Nat} {ts₁ ts₂ : List Transition} {R : Fin n₁ → Fin n₂ → Prop}

/-- **A strong bisimulation**: from related states, every step on one side is answered by a step
with the same action on the other, and the states that are reached are related again. -/
structure Bisimulation (ts₁ ts₂ : List Transition) (R : Fin n₁ → Fin n₂ → Prop) : Prop where
  /-- steps of the first system are answered -/
  forth : ∀ {s t}, R s t → ∀ (a : String) (s' : Fin n₁), ⟨s, a, s'⟩ ∈ ts₁ →
    ∃ t' : Fin n₂, ⟨t, a, t'⟩ ∈ ts₂ ∧ R s' t'
  /-- steps of the second system are answered -/
  back : ∀ {s t}, R s t → ∀ (a : String) (t' : Fin n₂), ⟨t, a, t'⟩ ∈ ts₂ →
    ∃ s' : Fin n₁, ⟨s, a, s'⟩ ∈ ts₁ ∧ R s' t'

namespace Bisimulation

theorem converse (h : Bisimulation ts₁ ts₂ R) : Bisimulation ts₂ ts₁ fun t s => R s t where
  forth hst a t' hstep := h.back hst a t' hstep
  back hst a s' hstep := h.forth hst a s' hstep

/-- Renaming the states is a bisimulation. -/
theorem of_equiv (e : Fin n₁ ≃ Fin n₂)
    (h : ∀ (s : Fin n₁) (a : String) (s' : Fin n₁), ⟨s, a, s'⟩ ∈ ts₁ ↔ ⟨e s, a, e s'⟩ ∈ ts₂) :
    Bisimulation ts₁ ts₂ fun s t => e s = t where
  forth := by
    rintro s _ rfl a s' hstep
    exact ⟨e s', (h s a s').1 hstep, rfl⟩
  back := by
    rintro s _ rfl a t' hstep
    obtain ⟨s', rfl⟩ := e.surjective t'
    exact ⟨s', (h s a s').2 hstep, rfl⟩

/-- **A bisimulation that carries the values of the variables carries the meaning.** -/
theorem carries_denote (h : Bisimulation ts₁ ts₂ R) (f : Formula) {ρ₁ : Var → Set (Fin n₁)}
    {ρ₂ : Var → Set (Fin n₂)} (hρ : ∀ x, Carries R (ρ₁ x) (ρ₂ x)) :
    Carries R (f.denote ts₁ ρ₁) (f.denote ts₂ ρ₂) := by
  induction f generalizing ρ₁ ρ₂ with
  | tt => exact fun _ _ _ _ => trivial
  | ff => exact fun _ _ _ hs => hs
  | var x => exact hρ x
  | and l r ihl ihr =>
    rintro s t hst ⟨hl, hr⟩
    exact ⟨ihl hρ s t hst hl, ihr hρ s t hst hr⟩
  | or l r ihl ihr =>
    rintro s t hst (hl | hr)
    · exact Or.inl (ihl hρ s t hst hl)
    · exact Or.inr (ihr hρ s t hst hr)
  | dia a f ih =>
    rintro s t hst ⟨s', hstep, hs'⟩
    obtain ⟨t', hstep', hst'⟩ := h.forth hst a s' hstep
    exact ⟨t', hstep', ih hρ s' t' hst' hs'⟩
  | box a f ih =>
    intro s t hst hs t' hstep'
    obtain ⟨s', hstep, hst'⟩ := h.back hst a t' hstep'
    exact ih hρ s' t' hst' (hs s' hstep)
  | fix k b body ih =>
    refine Carries.fixpoint fun A B hAB => ih fun x => ?_
    by_cases hx : x = b.var
    · subst hx
      rwa [Function.update_self, Function.update_self]
    · rw [Function.update_of_ne hx, Function.update_of_ne hx]
      exact hρ x

/-- **Related states satisfy the same formulas.** -/
theorem mem_denote_iff (h : Bisimulation ts₁ ts₂ R) (f : Formula) {ρ₁ : Var → Set (Fin n₁)}
    {ρ₂ : Var → Set (Fin n₂)} (hρ : ∀ x s t, R s t → (s ∈ ρ₁ x ↔ t ∈ ρ₂ x)) {s : Fin n₁}
    {t : Fin n₂} (hst : R s t) : s ∈ f.denote ts₁ ρ₁ ↔ t ∈ f.denote ts₂ ρ₂ :=
  ⟨h.carries_denote f (fun x s t hst => (hρ x s t hst).1) s t hst,
    h.converse.carries_denote f (fun x t s hst => (hρ x s t hst).2) t s hst⟩

end Bisimulation

/-! ### Both solvers -/

namespace Solver

variable {fits fits₁ fits₂ : Nat → Bool} {first first₁ first₂ n : Nat} {ts : List Transition}
  {lts lts₁ lts₂ : Lts}

/-- **Both solvers return the meaning of a closed formula.** -/
theorem solve_closed (hlts : Lts.build fits first n ts = .ok lts) {f : Formula}
    (hids : f.binderIds.Nodup) (hclosed : f.freeOccurrences = []) (logging : Bool) :
    ∃ el naive : Solution,
      (EmersonLei.solve lts f f.analyze ∅ logging).result = .ok el ∧
      (Naive.solve lts f ∅ logging).result = .ok naive ∧
      el.states.Represents (f.denote ts (Bindings.valuation n ∅)) ∧
      naive.states.Represents (f.denote ts (Bindings.valuation n ∅)) := by
  have hcover : ∀ x ∈ f.freeOccurrences, x ∈ (∅ : Bindings) := by simp [hclosed]
  obtain ⟨states, counters, hel, hstates⟩ := EmersonLei.solve_returns hlts hids
    (Bindings.over_empty n) (Bindings.missing?_eq_none.2 hcover) logging
  obtain ⟨states', p', -, hnaive, hstates'⟩ :=
    Naive.solve_returns hlts f (Bindings.over_empty n) hcover logging
  exact ⟨_, _, hel, hnaive, hstates, hstates'⟩

/-- Nothing holds anywhere without values. -/
theorem Bindings.not_mem_valuation_empty (x : Var) (i : Fin n) :
    i ∉ Bindings.valuation n ∅ x := by
  simp [Bindings.valuation, StateSet.mem_iff]

/-- **Bisimilar states satisfy the same closed formulas**, as both solvers find. -/
theorem solve_bisimilar (hlts₁ : Lts.build fits₁ first₁ n₁ ts₁ = .ok lts₁)
    (hlts₂ : Lts.build fits₂ first₂ n₂ ts₂ = .ok lts₂) {f : Formula}
    (hids : f.binderIds.Nodup) (hclosed : f.freeOccurrences = []) (logging : Bool) :
    ∃ el₁ el₂ naive₁ naive₂ : Solution,
      (EmersonLei.solve lts₁ f f.analyze ∅ logging).result = .ok el₁ ∧
      (EmersonLei.solve lts₂ f f.analyze ∅ logging).result = .ok el₂ ∧
      (Naive.solve lts₁ f ∅ logging).result = .ok naive₁ ∧
      (Naive.solve lts₂ f ∅ logging).result = .ok naive₂ ∧
      (∀ R : Fin n₁ → Fin n₂ → Prop, Bisimulation ts₁ ts₂ R → ∀ s t, R s t →
        (s.val ∈ el₁.states ↔ t.val ∈ el₂.states) ∧
        (s.val ∈ naive₁.states ↔ t.val ∈ naive₂.states)) ∧
      ∀ e : Fin n₁ ≃ Fin n₂,
        (∀ (s : Fin n₁) (a : String) (s' : Fin n₁),
          ⟨s, a, s'⟩ ∈ ts₁ ↔ ⟨e s, a, e s'⟩ ∈ ts₂) →
        el₂.states.toSet n₂ = e '' el₁.states.toSet n₁ ∧
        naive₂.states.toSet n₂ = e '' naive₁.states.toSet n₁ := by
  obtain ⟨el₁, naive₁, hel₁, hnaive₁, hl₁, hn₁⟩ := solve_closed hlts₁ hids hclosed logging
  obtain ⟨el₂, naive₂, hel₂, hnaive₂, hl₂, hn₂⟩ := solve_closed hlts₂ hids hclosed logging
  have hsame : ∀ {R : Fin n₁ → Fin n₂ → Prop}, Bisimulation ts₁ ts₂ R → ∀ {s t}, R s t →
      (s ∈ f.denote ts₁ (Bindings.valuation n₁ ∅) ↔
        t ∈ f.denote ts₂ (Bindings.valuation n₂ ∅)) := by
    intro R hR s t hst
    refine hR.mem_denote_iff f (fun x s t _ => ?_) hst
    exact iff_of_false (Bindings.not_mem_valuation_empty x s) (Bindings.not_mem_valuation_empty x t)
  refine ⟨el₁, el₂, naive₁, naive₂, hel₁, hel₂, hnaive₁, hnaive₂, ?_, ?_⟩
  · intro R hR s t hst
    rw [hl₁.mem_iff, hl₂.mem_iff, hn₁.mem_iff, hn₂.mem_iff]
    exact ⟨hsame hR hst, hsame hR hst⟩
  · intro e he
    have himage : f.denote ts₂ (Bindings.valuation n₂ ∅) =
        e '' f.denote ts₁ (Bindings.valuation n₁ ∅) := by
      ext t
      rw [e.image_eq_preimage_symm, Set.mem_preimage]
      exact (hsame (Bisimulation.of_equiv e he) (e.apply_symm_apply t)).symm
    rw [hl₁.toSet, hl₂.toSet, hn₁.toSet, hn₂.toSet]
    exact ⟨himage, himage⟩

/-- A cycle of two states behaves like a loop at a single one. -/
theorem solve_bisimilar_cycle :
    ∃ lts₁ lts₂ f, Lts.ofTransitions 0 2 [⟨0, "a", 1⟩, ⟨1, "a", 0⟩] = .ok lts₁ ∧
      Lts.ofTransitions 0 1 [⟨0, "a", 0⟩] = .ok lts₂ ∧
      f = .fix .greatest ⟨0, 'X'⟩ (.and (.dia "a" (.var 'X'))
        (.fix .least ⟨1, 'Y'⟩ (.or (.box "b" .ff) (.box "a" (.var 'Y'))))) ∧
      ∃ el₁ el₂ : Solution,
        (EmersonLei.solve lts₁ f f.analyze ∅ false).result = .ok el₁ ∧
        (EmersonLei.solve lts₂ f f.analyze ∅ false).result = .ok el₂ ∧
        (1 ∈ el₁.states ↔ 0 ∈ el₂.states) := by
  obtain ⟨lts₁, hlts₁⟩ :
    ∃ lts, Lts.ofTransitions 0 2 [⟨0, "a", 1⟩, ⟨1, "a", 0⟩] = .ok lts := ⟨_, rfl⟩
  obtain ⟨lts₂, hlts₂⟩ : ∃ lts, Lts.ofTransitions 0 1 [⟨0, "a", 0⟩] = .ok lts := ⟨_, rfl⟩
  have hR : Bisimulation [⟨0, "a", 1⟩, ⟨1, "a", 0⟩] [⟨0, "a", 0⟩]
      fun (_ : Fin 2) (_ : Fin 1) => True := by
    refine ⟨?_, ?_⟩
    · rintro s t - a s' hstep
      obtain rfl : a = "a" := by
        simp only [List.mem_cons, Transition.mk.injEq, List.not_mem_nil, or_false] at hstep
        exact hstep.elim (·.2.1) (·.2.1)
      exact ⟨0, by revert t; decide, trivial⟩
    · rintro s t - a t' hstep
      obtain rfl : a = "a" := by
        simp only [List.mem_singleton, Transition.mk.injEq] at hstep
        exact hstep.2.1
      exact ⟨1 - s, by revert s; decide, trivial⟩
  obtain ⟨el₁, el₂, naive₁, naive₂, hel₁, hel₂, -, -, hsame, -⟩ :=
    solve_bisimilar hlts₁ hlts₂ (f := .fix .greatest ⟨0, 'X'⟩ (.and (.dia "a" (.var 'X'))
      (.fix .least ⟨1, 'Y'⟩ (.or (.box "b" .ff) (.box "a" (.var 'Y'))))))
      (by decide) (by decide) false
  exact ⟨lts₁, lts₂, _, hlts₁, hlts₂, rfl, el₁, el₂, hel₁, hel₂, (hsame _ hR 1 0 trivial).1⟩

end Solver

end ModalMu
