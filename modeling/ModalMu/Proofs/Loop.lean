import ModalMu.Proofs.Denotation

/-!
# Runs and their loops

A run either returns or fails, and in both cases leaves its progress behind.

* `Returns`, `Fails` — how a run ends, with a rule for sequencing each;
* `settle_relates` — **the rule for the loop of a fixpoint**: if each round computes the next
  approximation, the loop returns the fixpoint within one round more than there are states. What is
  remembered is tracked by an invariant, and what the rounds do is composed to what the loop does.
  `settle_returns` is the rule without the latter;
* `Extends` — one run does all that another does when this returns. **A higher limit extends the
  runs of a loop** (`settle_extends`), so a loop that returns does not depend on its limit.
-/

namespace ModalMu

namespace Solver

variable {μ α β : Type}

/-! ### How a run ends -/

/-- **The run returns**, and its answer and progress satisfy `Q`. -/
def Returns (m : Run μ α) (p : Progress μ) (Q : α → Progress μ → Prop) : Prop :=
  ∃ a p', m p = .ok a p' ∧ Q a p'

/-- **The run fails.** -/
def Fails (m : Run μ α) (p : Progress μ) (failure : Failure) : Prop :=
  ∃ p', m p = .error failure p'

theorem bind_eq_of_ok {m : Run μ α} {f : α → Run μ β} {p p' : Progress μ} {a : α}
    (h : m p = .ok a p') : (m >>= f) p = f a p' := by
  change EStateM.bind m f p = _
  rw [EStateM.bind, h]

theorem bind_eq_of_error {m : Run μ α} {f : α → Run μ β} {p p' : Progress μ} {failure : Failure}
    (h : m p = .error failure p') : (m >>= f) p = .error failure p' := by
  change EStateM.bind m f p = _
  rw [EStateM.bind, h]

theorem bind_eq_ok {m : Run μ α} {f : α → Run μ β} {p p' : Progress μ} {b : β}
    (h : (m >>= f) p = .ok b p') : ∃ a p₁, m p = .ok a p₁ ∧ f a p₁ = .ok b p' := by
  cases hrun : m p with
  | error failure p₁ =>
    rw [bind_eq_of_error hrun] at h
    cases h
  | ok a p₁ =>
    rw [bind_eq_of_ok hrun] at h
    exact ⟨a, p₁, rfl, h⟩

theorem require_eq_ok {failure : Failure} {o : Option α} {p p' : Progress μ} {a : α}
    (h : Run.require failure o p = .ok a p') : o = some a ∧ p' = p := by
  rcases o with _ | a <;> cases h
  exact ⟨rfl, rfl⟩

theorem combine_eq_ok {r : Except Fault StateSet} {p p' : Progress μ} {s : StateSet}
    (h : Run.combine r p = .ok s p') : p' = p := by
  rcases r with _ | t <;> cases h
  rfl

namespace Returns

variable {m : Run μ α} {f : α → Run μ β} {p : Progress μ} {Q R : α → Progress μ → Prop}

theorem pure {a : α} (h : Q a p) : Returns (pure a : Run μ α) p Q := ⟨a, p, rfl, h⟩

theorem imp (h : Returns m p Q) (hQR : ∀ a p', Q a p' → R a p') : Returns m p R := by
  obtain ⟨a, p', hm, hQ⟩ := h
  exact ⟨a, p', hm, hQR a p' hQ⟩

/-- A run that returns has one answer. -/
theorem of_ok {a : α} {p' : Progress μ} (h : Returns m p Q) (hrun : m p = .ok a p') : Q a p' := by
  obtain ⟨a', p'', hm, hQ⟩ := h
  obtain ⟨rfl, rfl⟩ : a' = a ∧ p'' = p' := by simpa [hrun] using hm.symm
  exact hQ

/-- What is done after a run that returns begins with its answer and progress. -/
theorem bind {S : β → Progress μ → Prop} (hm : Returns m p Q)
    (hf : ∀ a p', Q a p' → Returns (f a) p' S) : Returns (m >>= f) p S := by
  obtain ⟨a, p', hrun, hQ⟩ := hm
  obtain ⟨b, p'', hrun', hS⟩ := hf a p' hQ
  exact ⟨b, p'', (bind_eq_of_ok hrun).trans hrun', hS⟩

theorem bind_fails {failure : Failure} (hm : Returns m p Q)
    (hf : ∀ a p', Q a p' → Fails (f a) p' failure) : Fails (m >>= f) p failure := by
  obtain ⟨a, p', hrun, hQ⟩ := hm
  obtain ⟨p'', hrun'⟩ := hf a p' hQ
  exact ⟨p'', (bind_eq_of_ok hrun).trans hrun'⟩

end Returns

/-- A failure ends everything. -/
theorem Fails.bind {m : Run μ α} {f : α → Run μ β} {p : Progress μ} {failure : Failure}
    (h : Fails m p failure) : Fails (m >>= f) p failure := by
  obtain ⟨p', hrun⟩ := h
  exact ⟨p', bind_eq_of_error hrun⟩

theorem returns_require {failure : Failure} {o : Option α} {a : α} {p : Progress μ}
    {Q : α → Progress μ → Prop} (ho : o = some a) (h : Q a p) :
    Returns (Run.require failure o : Run μ α) p Q := by
  subst ho
  exact Returns.pure h

theorem fails_require {failure : Failure} {o : Option α} {p : Progress μ} (ho : o = none) :
    Fails (Run.require failure o : Run μ α) p failure := by
  subst ho
  exact ⟨p, rfl⟩

/-- A change of the progress, and what is done after it. -/
theorem returns_modify_bind {g : Progress μ → Progress μ} {f : Unit → Run μ β} {p : Progress μ}
    {S : β → Progress μ → Prop} (h : Returns (f ()) (g p) S) :
    Returns ((modify g : Run μ Unit) >>= f) p S := h

theorem fails_modify_bind {g : Progress μ → Progress μ} {f : Unit → Run μ β} {p : Progress μ}
    {failure : Failure} (h : Fails (f ()) (g p) failure) :
    Fails ((modify g : Run μ Unit) >>= f) p failure := h

theorem returns_memory_bind {f : μ → Run μ β} {p : Progress μ} {S : β → Progress μ → Prop}
    (h : Returns (f p.memory) p S) : Returns (Run.memory >>= f) p S := h

theorem returns_require_bind {failure : Failure} {o : Option α} {a : α} {f : α → Run μ β}
    {p : Progress μ} {S : β → Progress μ → Prop} (ho : o = some a) (h : Returns (f a) p S) :
    Returns (Run.require failure o >>= f) p S := by
  subst ho
  exact h

theorem fails_memory_bind {f : μ → Run μ β} {p : Progress μ} {failure : Failure}
    (h : Fails (f p.memory) p failure) : Fails (Run.memory >>= f) p failure := h

theorem fails_require_bind {failure failure' : Failure} {o : Option α} {a : α} {f : α → Run μ β}
    {p : Progress μ} (ho : o = some a) (h : Fails (f a) p failure') :
    Fails (Run.require failure o >>= f) p failure' := by
  subst ho
  exact h

/-- Two sets over one universe are combined without a failure. -/
theorem returns_combine {r : Except Fault StateSet} {s : StateSet} {p : Progress μ}
    {Q : StateSet → Progress μ → Prop} (hr : r = .ok s) (h : Q s p) :
    Returns (Run.combine r : Run μ StateSet) p Q := by
  subst hr
  exact Returns.pure h

/-! ### The loop -/

/-- The progress after a round, which is counted and noted. -/
def Progress.endRound (p : Progress μ) (b : Binder) (round : Nat) (value : StateSet) :
    Progress μ :=
  { p with
    counters.iterations := p.counters.iterations + 1
    events := p.events.map (·.push (.approximation b round value)) }

section

variable {n : Nat} {k : Kind} {F : Set (Fin n) → Set (Fin n)} {b : Binder}
  {body : StateSet → Run μ StateSet} {keep : StateSet → Run μ Unit} {I : StateSet → μ → Prop}

/-- **The loop of a fixpoint, and what its rounds amount to.** Here `B` tells of a round what it did
to the progress, and `T` of all rounds that are left. The measure is the number of states that can
still join or leave: each round that does not end the loop uses up one of them. -/
theorem settle_relates (hF : Monotone F) {B : Progress μ → StateSet → Progress μ → Prop}
    {T : Nat → StateSet → Progress μ → StateSet → Progress μ → Prop}
    (hbody : ∀ current p, current.univ = n → I current p.memory →
      Returns (body current) p fun next p' =>
        (next.Represents (F (current.toSet n)) ∧ I current p'.memory) ∧ B p next p')
    (hkeep : ∀ current next p, I current p.memory → k.LeadsTo F (current.toSet n) →
      next.Represents (F (current.toSet n)) → Returns (keep next) p fun _ p' => I next p'.memory)
    (hrest : ∀ round current p p', B p current p' →
      T round current p current (p'.endRound b round current))
    (hmove : ∀ round current next p p₁ p₂ s p', B p next p₁ →
      k.StrictlyBefore (current.toSet n) (next.toSet n) →
      keep next (p₁.endRound b round next) = .ok () p₂ → T (round + 1) next p₂ s p' →
      T round current p s p')
    {limit : Nat} (round : Nat) {current : StateSet} {p : Progress μ} (huniv : current.univ = n)
    (hleads : k.LeadsTo F (current.toSet n)) (hinv : I current p.memory)
    (hlimit : k.remaining (current.toSet n) < limit) :
    Returns (settle b body keep limit round current) p fun s p' =>
      (s.Represents (k.fixpoint F) ∧ I s p'.memory) ∧ T round current p s p' := by
  induction limit generalizing round current p with
  | zero => omega
  | succ limit ih =>
    rw [settle]
    refine (hbody current p huniv hinv).bind ?_
    rintro next p₁ ⟨⟨hnext, hinv₁⟩, hround⟩
    -- what is remembered does not change at the end of a round
    refine returns_modify_bind (returns_modify_bind ?_)
    change Returns _ (p₁.endRound b round next) _
    have hsame := hnext.eq_iff (StateSet.Represents.self huniv)
    by_cases hstable : next = current
    · have hfix := hleads.eq_fixpoint (hsame.1 hstable)
      subst hstable
      rw [if_pos rfl]
      exact Returns.pure ⟨⟨⟨huniv, hfix⟩, hinv₁⟩, hrest round next p p₁ hround⟩
    · rw [if_neg hstable]
      have hstrict : k.StrictlyBefore (current.toSet n) (next.toSet n) := by
        rw [hnext.toSet]
        exact hleads.moves.strictlyBefore fun h => hstable (hsame.2 h)
      have hleads' : k.LeadsTo F (next.toSet n) := by
        rw [hnext.toSet]
        exact hleads.next hF
      obtain ⟨_, p₂, hkept, hinv₂⟩ :=
        hkeep current next (p₁.endRound b round next) hinv₁ hleads hnext
      have hlt := hstrict.remaining_lt
      obtain ⟨s, p', hrun, hs, hrounds⟩ :=
        ih (round + 1) hnext.univ hleads' hinv₂ (by omega)
      exact ⟨s, p', (bind_eq_of_ok hkept).trans hrun, hs,
        hmove round current next p p₁ p₂ s p' hround hstrict hkept hrounds⟩

/-- **The loop of a fixpoint** returns the fixpoint, and the invariant of its memory holds. -/
theorem settle_returns (hF : Monotone F)
    (hbody : ∀ current p, current.univ = n → I current p.memory →
      Returns (body current) p fun next p' =>
        next.Represents (F (current.toSet n)) ∧ I current p'.memory)
    (hkeep : ∀ current next p, I current p.memory → k.LeadsTo F (current.toSet n) →
      next.Represents (F (current.toSet n)) → Returns (keep next) p fun _ p' => I next p'.memory)
    {limit round : Nat} {current : StateSet} {p : Progress μ} (huniv : current.univ = n)
    (hleads : k.LeadsTo F (current.toSet n)) (hinv : I current p.memory)
    (hlimit : k.remaining (current.toSet n) < limit) :
    Returns (settle b body keep limit round current) p fun s p' =>
      s.Represents (k.fixpoint F) ∧ I s p'.memory := by
  refine Returns.imp (settle_relates (B := fun _ _ _ => True) (T := fun _ _ _ _ _ => True) hF
    (fun current p huniv hinv => (hbody current p huniv hinv).imp fun _ _ h => ⟨h, trivial⟩) hkeep
    (fun _ _ _ _ _ => trivial) (fun _ _ _ _ _ _ _ _ _ _ _ _ => trivial)
    round huniv hleads hinv hlimit) ?_
  exact fun _ _ h => h.1

end

/-- A loop whose body fails at once fails. -/
theorem settle_fails {b : Binder} {body : StateSet → Run μ StateSet} {keep : StateSet → Run μ Unit}
    {limit round : Nat} {current : StateSet} {p : Progress μ} {failure : Failure}
    (hlimit : 0 < limit) (h : Fails (body current) p failure) :
    Fails (settle b body keep limit round current) p failure := by
  obtain ⟨limit, rfl⟩ := Nat.exists_eq_succ_of_ne_zero hlimit.ne'
  rw [settle]
  exact h.bind

/-! ### Limits -/

/-- **`m'` extends `m`**: when `m` returns, `m'` returns the same. -/
def Extends (m m' : Run μ α) : Prop := ∀ p a p', m p = .ok a p' → m' p = .ok a p'

theorem Extends.refl (m : Run μ α) : Extends m m := fun _ _ _ h => h

theorem Extends.bind {m m' : Run μ α} {f f' : α → Run μ β} (hm : Extends m m')
    (hf : ∀ a, Extends (f a) (f' a)) : Extends (m >>= f) (m' >>= f') := by
  intro p b p'' h
  obtain ⟨a, p', hrun, h⟩ := bind_eq_ok h
  rw [bind_eq_of_ok (hm p a p' hrun)]
  exact hf a p' b p'' h

/-- **A loop with a higher limit extends one with a lower limit.** -/
theorem settle_extends {b : Binder} {body body' : StateSet → Run μ StateSet}
    {keep : StateSet → Run μ Unit} (hbody : ∀ s, Extends (body s) (body' s)) {limit limit' : Nat}
    (hle : limit ≤ limit') (round : Nat) (current : StateSet) :
    Extends (settle b body keep limit round current)
      (settle b body' keep limit' round current) := by
  induction limit generalizing limit' round current with
  | zero =>
    intro p a p' h
    cases h
  | succ limit ih =>
    obtain ⟨limit', rfl⟩ := Nat.exists_eq_add_of_lt hle
    rw [settle, settle]
    refine (hbody current).bind fun next => Extends.bind (Extends.refl _) fun _ =>
      Extends.bind (Extends.refl _) fun _ => ?_
    split
    · exact Extends.refl _
    · exact Extends.bind (Extends.refl _) fun _ => ih (Nat.le_add_right _ _) _ _

/-- The loops of a solver may take a round more than there are states. -/
theorem lt_roundLimit {fits : Nat → Bool} {first n : Nat} {ts : List Transition} {lts : Lts}
    (hlts : Lts.build fits first n ts = .ok lts) : n < roundLimit lts := by
  rw [roundLimit, Lts.stateCount_eq hlts]
  omega

/-! ### Where loops start -/

theorem represents_startValue {lts : Lts} {n : Nat} (hn : lts.stateCount = n) (k : Kind) :
    (startValue lts k).Represents (k.start : Set (Fin n)) := by
  subst hn
  cases k with
  | least => exact StateSet.represents_empty
  | greatest => exact StateSet.represents_full

/-! ### Whole runs -/

theorem report_result_of_ok (algorithm : Algorithm) {run : Run μ StateSet} {p p' : Progress μ}
    {states : StateSet} (h : run p = .ok states p') :
    (report algorithm run p).result = .ok ⟨states, p'.counters⟩ := by
  rw [report, bind_eq_of_ok h]
  rfl

theorem report_log_of_ok (algorithm : Algorithm) {run : Run μ StateSet} {p p' : Progress μ}
    {states : StateSet} (h : run p = .ok states p') :
    (report algorithm run p).log =
      ((p'.events.map (·.push (.finished algorithm p'.counters states.size))).getD #[]).toList := by
  rw [report, bind_eq_of_ok h]
  rfl

theorem report_fails {algorithm : Algorithm} {run : Run μ StateSet} {p : Progress μ}
    {failure : Failure} (h : Fails run p failure) :
    (report algorithm run p).result = .error failure := by
  obtain ⟨p', hrun⟩ := h
  rw [report, bind_eq_of_error hrun]

end Solver

end ModalMu
