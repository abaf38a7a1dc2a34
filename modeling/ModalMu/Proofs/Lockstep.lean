import ModalMu.Proofs.Loop

/-!
# Runs that keep step

Two runs are compared by what corresponds in their progress and in their answers.

* `Follows` — whenever one run returns, so does the other, with a corresponding answer and
  corresponding progress; there is a rule for each way to build a run;
* `settle_lockstep` — **the rule for the loop of a fixpoint**: if the rounds correspond one by one,
  and values that correspond to equal ones are equal, the two loops end in the same round.
  `settle_follows` is the rule for a correspondence that does not depend on the current values;
* `Alike` — correspondence of the progress of two runs that have counted the same;
* `report_follows` — the answers of two whole runs.
-/

namespace ModalMu

namespace Solver

variable {μ ν α β γ δ : Type} {S : Progress μ → Progress ν → Prop}

/-- **The run `m'` follows `m`**: when `m` returns, `m'` returns a corresponding answer, and their
progress still corresponds. -/
def Follows (S : Progress μ → Progress ν → Prop) (A : α → β → Prop) (m : Run μ α) (m' : Run ν β) :
    Prop :=
  ∀ p q, S p q → ∀ a p', m p = .ok a p' → ∃ b q', m' q = .ok b q' ∧ A a b ∧ S p' q'

namespace Follows

variable {A : α → β → Prop} {B : γ → δ → Prop}

theorem pure {a : α} {b : β} (h : A a b) : Follows S A (pure a) (pure b) := by
  rintro p q hS _ _ ⟨⟩
  exact ⟨b, q, rfl, h, hS⟩

/-- What is done after two runs begins with corresponding answers. -/
theorem bind {m : Run μ α} {m' : Run ν β} {f : α → Run μ γ} {f' : β → Run ν δ}
    (hm : Follows S A m m') (hf : ∀ a b, A a b → Follows S B (f a) (f' b)) :
    Follows S B (m >>= f) (m' >>= f') := by
  intro p q hS c p'' h
  obtain ⟨a, p', hrun, h⟩ := bind_eq_ok h
  obtain ⟨b, q', hrun', hA, hS'⟩ := hm p q hS a p' hrun
  obtain ⟨d, q'', hrest, hB, hS''⟩ := hf a b hA p' q' hS' c p'' h
  exact ⟨d, q'', (bind_eq_of_ok hrun').trans hrest, hB, hS''⟩

/-- Changes of the progress that correspond. -/
theorem modify {g : Progress μ → Progress μ} {g' : Progress ν → Progress ν}
    (h : ∀ p q, S p q → S (g p) (g' q)) :
    Follows S (fun _ _ => True) (modify g : Run μ Unit) (modify g') := by
  rintro p q hS _ _ ⟨⟩
  exact ⟨(), g' q, rfl, trivial, h p q hS⟩

theorem memory {A : μ → ν → Prop} (h : ∀ p q, S p q → A p.memory q.memory) :
    Follows S A Run.memory Run.memory := by
  rintro p q hS _ _ ⟨⟩
  exact ⟨q.memory, q, rfl, h p q hS, hS⟩

theorem require {failure failure' : Failure} {o : Option α} {o' : Option β}
    (h : ∀ a, o = some a → ∃ b, o' = some b ∧ A a b) :
    Follows S A (Run.require failure o) (Run.require failure' o') := by
  rcases o with _ | a
  · rintro p q - _ _ ⟨⟩
  · obtain ⟨b, rfl, hA⟩ := h a rfl
    exact pure hA

theorem combine {A : StateSet → StateSet → Prop} {r r' : Except Fault StateSet}
    (h : ∀ s, r = .ok s → ∃ t, r' = .ok t ∧ A s t) :
    Follows S A (Run.combine r) (Run.combine r') := by
  rcases r with _ | s
  · rintro p q - _ _ ⟨⟩
  · obtain ⟨t, rfl, hA⟩ := h s rfl
    exact pure hA

end Follows

section

variable {A : StateSet → StateSet → Prop} {b b' : Binder} {body : StateSet → Run μ StateSet}
  {body' : StateSet → Run ν StateSet} {keep : StateSet → Run μ Unit} {keep' : StateSet → Run ν Unit}

/-- **The loops of two fixpoints**, when what corresponds in their progress depends on the current
values. The induction is on the number of rounds that are left, which is the same for both. -/
theorem settle_lockstep {I : StateSet → StateSet → Progress μ → Progress ν → Prop}
    (hround : ∀ s t p q round next next', I s t p q → A next next' →
      I s t (p.endRound b round next) (q.endRound b' round next'))
    (hend : ∀ s t s' t', A s t → A s' t' → (s = s' ↔ t = t'))
    (hbody : ∀ s t, A s t → Follows (I s t) A (body s) (body' t))
    (hkeep : ∀ s t p q next next' p', I s t p q → A next next' → keep next p = .ok () p' →
      ∃ q', keep' next' q = .ok () q' ∧ I next next' p' q')
    (limit round : Nat) {current current' : StateSet} (h : A current current') {p p' : Progress μ}
    {q : Progress ν} {s : StateSet} (hI : I current current' p q)
    (hrun : settle b body keep limit round current p = .ok s p') :
    ∃ t q', settle b' body' keep' limit round current' q = .ok t q' ∧ A s t ∧ I s t p' q' := by
  induction limit generalizing round current current' p q with
  | zero => cases hrun
  | succ limit ih =>
    rw [settle] at hrun ⊢
    obtain ⟨next, p₁, hnext, hrun⟩ := bind_eq_ok hrun
    obtain ⟨next', q₁, hnext', hA, hI₁⟩ := hbody current current' h p q hI next p₁ hnext
    rw [bind_eq_of_ok hnext']
    -- counting and noting the round is one change of the progress
    have hI₂ := hround current current' p₁ q₁ round next next' hI₁ hA
    have hsame := hend next next' current current' hA h
    by_cases hstable : next = current
    · rw [if_pos hstable] at hrun
      rw [if_pos (hsame.1 hstable)]
      cases hrun
      exact ⟨current', _, rfl, h, hI₂⟩
    · rw [if_neg hstable] at hrun
      rw [if_neg fun heq => hstable (hsame.2 heq)]
      obtain ⟨_, p₂, hkept, hrun⟩ :=
        bind_eq_ok (m := keep next) (p := p₁.endRound b round next) hrun
      obtain ⟨q₂, hkept', hI₃⟩ := hkeep _ _ _ _ _ _ _ hI₂ hA hkept
      obtain ⟨t, q', hrun', hs⟩ := ih (round + 1) hA hI₃ hrun
      exact ⟨t, q', (bind_eq_of_ok hkept').trans hrun', hs⟩

/-- **The loops of two fixpoints**, when the correspondence is the same in each round. -/
theorem settle_follows
    (hround : ∀ p q round s t, S p q → A s t → S (p.endRound b round s) (q.endRound b' round t))
    (hend : ∀ s t s' t', A s t → A s' t' → (s = s' ↔ t = t'))
    (hbody : ∀ s t, A s t → Follows S A (body s) (body' t))
    (hkeep : ∀ s t, A s t → Follows S (fun _ _ => True) (keep s) (keep' t))
    (limit round : Nat) {current current' : StateSet} (h : A current current') :
    Follows S A (settle b body keep limit round current)
      (settle b' body' keep' limit round current') := by
  intro p q hS s p' hrun
  refine settle_lockstep (I := fun _ _ => S) (fun _ _ p q round next next' => ?_) hend hbody
    (fun _ _ p q next next' p' hS hA hkept => ?_) limit round h hS hrun
  · exact hround p q round next next'
  · obtain ⟨_, q', hkept', -, hS'⟩ := hkeep next next' hA p q hS () p' hkept
    exact ⟨q', hkept', hS'⟩

end

/-! ### Runs that count the same -/

/-- Two runs that have counted the same and whose memories correspond. -/
structure Alike {μ ν : Type} (M : μ → ν → Prop) (p : Progress μ) (q : Progress ν) : Prop where
  /-- the counters are equal -/
  counters : p.counters = q.counters
  /-- what they remember corresponds -/
  memory : M p.memory q.memory

section

variable {μ ν : Type} {M : μ → ν → Prop} {p : Progress μ} {q : Progress ν}

theorem Alike.initial {m : μ} {m' : ν} (h : M m m') (logging logging' : Bool) :
    Alike M (Progress.initial logging m) (Progress.initial logging' m') := ⟨rfl, h⟩

theorem Alike.endRound (h : Alike M p q) (b b' : Binder) (round : Nat) (s t : StateSet) :
    Alike M (p.endRound b round s) (q.endRound b' round t) := by
  refine ⟨?_, h.memory⟩
  rw [Progress.endRound, Progress.endRound, h.counters]

theorem follows_note (e e' : Event) :
    Follows (Alike M) (fun _ _ => True) (Run.note e) (Run.note e') :=
  .modify fun _ _ h => ⟨h.counters, h.memory⟩

theorem follows_countResets (i : Nat) :
    Follows (Alike M) (fun _ _ => True) (Run.countResets i) (Run.countResets i) := by
  refine .modify fun p q h => ⟨?_, h.memory⟩
  dsimp only
  rw [h.counters]

theorem follows_remember {g : μ → μ} {g' : ν → ν} (h : ∀ m m', M m m' → M (g m) (g' m')) :
    Follows (Alike M) (fun _ _ => True) (Run.remember g) (Run.remember g') :=
  .modify fun _ _ hpq => ⟨hpq.counters, h _ _ hpq.memory⟩

end

/-! ### Whole runs -/

/-- **Two whole runs**: when the first one returns, the second one returns a corresponding answer,
and what they counted is found in corresponding progress. -/
theorem report_follows (algorithm : Algorithm) {A : StateSet → StateSet → Prop}
    {run : Run μ StateSet} {run' : Run ν StateSet} (h : Follows S A run run') {p : Progress μ}
    {q : Progress ν} (hS : S p q) {states : StateSet} {p' : Progress μ}
    (hrun : run p = .ok states p') :
    ∃ states' q', (report algorithm run' q).result = .ok ⟨states', q'.counters⟩ ∧
      A states states' ∧ S p' q' := by
  obtain ⟨states', q', hrun', hA, hS'⟩ := h p q hS states p' hrun
  exact ⟨states', q', report_result_of_ok algorithm hrun', hA, hS'⟩

end Solver

end ModalMu
