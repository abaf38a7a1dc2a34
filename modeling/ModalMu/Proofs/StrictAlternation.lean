import ModalMu.Proofs.Lockstep
import ModalMu.Proofs.Occurrences
import ModalMu.Proofs.Trace

/-!
# Strictly alternating formulas

When every fixpoint inside another one is open and has the opposite kind of the nearest fixpoint
around it, what is remembered of it is set back whenever it is entered. Then nothing is gained by
remembering: Emerson-Lei evaluation takes the rounds of naive evaluation one by one.

* `Formula.outermost` — the fixpoints of a formula that lie in no other one of it;
  `Formula.StrictlyAlternating` — the condition;
* `InStep` — two runs that have counted the same rounds and noted the same approximations;
* `StartsAnew`, `Enters.starts` — a fixpoint that begins at its start when it is entered;
* `Renders` — the values by name that stand for the approximations by number inside a scope;
* `Mimics` — **naive evaluation keeps step**, with a lemma for each construct;
* `solve_in_step` — the whole runs.
-/

namespace ModalMu

namespace Formula

/-- **The fixpoints that lie in no other one** of the formula. Those of a fixpoint's body are the
ones that have it as the nearest fixpoint around them. -/
def outermost : Formula → List Fixpoint
  | tt | ff | var _ => []
  | and l r | or l r => l.outermost ++ r.outermost
  | dia _ f | box _ f => f.outermost
  | fix k b body => [⟨k, b, body⟩]

theorem outermost_subset (f : Formula) : f.outermost ⊆ f.fixpoints := by
  induction f with
  | tt | ff | var _ => exact List.nil_subset _
  | and l r ihl ihr | or l r ihl ihr =>
    intro g hg
    rcases List.mem_append.1 hg with hg | hg
    · exact List.mem_append_left _ (ihl hg)
    · exact List.mem_append_right _ (ihr hg)
  | dia a f ih | box a f ih => exact ih
  | fix k b body _ => exact List.subset_append_right _ _

/-- **Every fixpoint inside another one is open and has the opposite kind** of the nearest one
around it. -/
def StrictlyAlternating (f : Formula) : Prop :=
  ∀ g ∈ f.fixpoints, ∀ h ∈ g.body.outermost, h.IsOpen ∧ h.kind = g.kind.opposite
  deriving Decidable

theorem StrictlyAlternating.mono {f g : Formula} (h : f.StrictlyAlternating)
    (hparts : g.fixpoints ⊆ f.fixpoints) : g.StrictlyAlternating := fun e he => h e (hparts he)

end Formula

namespace Solver

/-! ### Rounds and approximations -/

section

variable {μ ν : Type} {p p' : Progress μ} {q : Progress ν}

/-- The approximations that a run has noted, if it keeps a log. -/
def Progress.approximations (p : Progress μ) : Option (List Event) :=
  p.events.map fun log => log.toList.filter (·.level == .trace)

/-- **Two runs are in step**: they have counted the same rounds and noted the same
approximations. -/
structure InStep (p : Progress μ) (q : Progress ν) : Prop where
  /-- the rounds -/
  iterations : p.counters.iterations = q.counters.iterations
  /-- the approximations -/
  approximations : p.approximations = q.approximations

/-- What a run notes comes after what it has noted before. -/
theorem approximations_of_events {es : List Event}
    (h : p'.events = p.events.map (· ++ es.toArray)) :
    p'.approximations = p.approximations.map (· ++ es.filter (·.level == .trace)) := by
  rw [Progress.approximations, Progress.approximations, h, Option.map_map, Option.map_map]
  congr 1
  funext log
  simp

theorem approximations_note (p : Progress μ) (e : Event) :
    Progress.approximations { p with events := p.events.map (·.push e) } =
      p.approximations.map (· ++ [e].filter (·.level == .trace)) :=
  approximations_of_events (by simp)

/-- Both note the same event. -/
theorem InStep.note (h : InStep p q) (e : Event) :
    InStep { p with events := p.events.map (·.push e) }
      { q with events := q.events.map (·.push e) } := by
  refine ⟨h.iterations, ?_⟩
  rw [approximations_note, approximations_note, h.approximations]

theorem InStep.endRound (h : InStep p q) (b : Binder) (round : Nat) (value : StateSet) :
    InStep (p.endRound b round value) (q.endRound b round value) := by
  obtain ⟨-, happroximations⟩ := h.note (.approximation b round value)
  refine ⟨?_, happroximations⟩
  simp only [Progress.endRound, h.iterations]

/-- What is noted besides approximations makes no difference. -/
theorem InStep.of_noted {es : List Event} (h : InStep p q) (hnoted : Noted p es p')
    (hes : ∀ e ∈ es, e.level = .debug) : InStep p' q := by
  have hrounds : (es.map Event.rounds).sum = 0 := by
    refine List.sum_eq_zero fun i hi => ?_
    obtain ⟨e, he, rfl⟩ := List.mem_map.1 hi
    have hlevel := hes e he
    cases e with
    | approximation => cases hlevel
    | entering | finished => rfl
  have hnone : es.filter (·.level == .trace) = [] := by
    refine List.filter_eq_nil_iff.2 fun e he => ?_
    rw [hes e he]
    decide
  refine ⟨?_, ?_⟩
  · rw [hnoted.iterations, hrounds, Nat.add_zero, h.iterations]
  · rw [approximations_of_events hnoted.events, hnone, h.approximations]
    simp

/-- The approximations in the log of a whole run. -/
theorem report_approximations (algorithm : Algorithm) {run : Run μ StateSet} {states : StateSet}
    (h : run p = .ok states p') :
    (report algorithm run p).log.filter (·.level == .trace) = p'.approximations.getD [] := by
  rw [report_log_of_ok algorithm h, Progress.approximations]
  rcases p'.events with _ | log
  · rfl
  · simp [List.filter_append, Event.level]

end

namespace EmersonLei

variable {fits : Nat → Bool} {first n limit : Nat} {ts : List Transition} {lts : Lts}
  {analysis : Analysis} {bindings env : Bindings} {scope : Scope} {k : Kind} {b : Binder}
  {body : Formula} {m m' : Approximations}

/-! ### Starting anew -/

/-- **The fixpoint begins at its start when it is entered**: outside all fixpoints because it is
still there, and inside one because it is set back. -/
def StartsAnew (lts : Lts) (m : Approximations) (g : Fixpoint) : Scope → Prop
  | [] => m[g.binder.id]? = some (startValue lts g.kind)
  | e :: _ => g.IsOpen ∧ g.kind = e.2.opposite

theorem StartsAnew.congr {g : Fixpoint} (h : StartsAnew lts m g scope)
    (hm : m'[g.binder.id]? = m[g.binder.id]?) : StartsAnew lts m' g scope := by
  cases scope with
  | nil => exact hm.trans h
  | cons e scope => exact h

theorem Enters.starts {g : Fixpoint} {run : List Moment}
    (h : Enters lts (scope.head?.map (·.2)) g m run m') (hstarts : StartsAnew lts m g scope) :
    m'[g.binder.id]? = some (startValue lts g.kind) := by
  cases scope with
  | nil =>
    cases h with
    | fresh _ => exact hstarts
    | idle houter _ | anew houter _ => cases houter
  | cons e scope =>
    obtain ⟨hopen, hkind⟩ := hstarts
    have hstale : g.binder.id ∈ stale g.binder g.info :=
      mem_stale.2 ⟨g, Formula.self_mem_fixpoints, Fixpoint.isOpen_iff.2 hopen, rfl, rfl⟩
    cases h with
    | fresh houter =>
      refine absurd ?_ houter
      rw [hkind, Kind.opposite_opposite]
      rfl
    | idle _ hnone =>
      rw [hnone] at hstale
      cases hstale
    | anew _ _ => rw [getElem?_setBack, if_pos hstale]

theorem Enters.level_eq {outer : Option Kind} {g : Fixpoint} {run : List Moment}
    (h : Enters lts outer g m run m') : ∀ e ∈ run.map Moment.event, e.level = .debug := by
  cases h with
  | fresh _ | idle _ _ => exact fun e he => by cases he
  | anew _ _ => exact List.forall_mem_singleton.2 rfl

/-! ### Values by name -/

/-- **Values by name that stand for the approximations** of the fixpoints of a scope and for the
caller's values. -/
def Renders (bindings : Bindings) (m : Approximations) (scope : Scope) (env : Bindings) : Prop :=
  ∀ x, env[x]? = scoped? bindings m scope x

theorem Renders.congr (h : Renders bindings m scope env)
    (hm : ∀ e ∈ scope, m'[e.1.id]? = m[e.1.id]?) : Renders bindings m' scope env := by
  intro x
  rw [h x, scoped?, scoped?]
  cases hfind : scope.find? (·.1.var == x) with
  | none => rfl
  | some e => exact (hm e (List.mem_of_find?_eq_some hfind)).symm

/-- Inside a fixpoint its variable has the current approximation as its value. -/
theorem Renders.enter (h : Renders bindings m scope env) {current : StateSet}
    (hstored : m[b.id]? = some current) :
    Renders bindings m ((b, k) :: scope) (env.insert b.var current) := by
  intro x
  rw [Std.TreeMap.getElem?_insert, scoped?]
  by_cases hx : b.var = x
  · rw [if_pos (Std.compare_eq_iff_eq.2 hx), List.find?_cons_of_pos (by simpa using hx)]
    exact hstored.symm
  · rw [if_neg fun he => hx (Std.compare_eq_iff_eq.1 he),
      List.find?_cons_of_neg (by simpa using hx)]
    exact h x

/-! ### Keeping step -/

/-- **Naive evaluation of the formula keeps step** with Emerson-Lei evaluation, in every scope in
which the outermost fixpoints start anew. -/
def Mimics (lts : Lts) (limit : Nat) (analysis : Analysis) (bindings : Bindings) (f : Formula) :
    Prop :=
  ∀ {scope : Scope} {env : Bindings} {p p' : Progress Approximations} {q : Progress Unit}
    {s : StateSet},
    Fits analysis bindings scope f → f.StrictlyAlternating →
    (∀ g ∈ f.outermost, StartsAnew lts p.memory g scope) →
    Renders bindings p.memory scope env → InStep p q →
    eval lts limit analysis bindings f scope p = .ok s p' →
    ∃ q', Naive.eval lts limit f env q = .ok s q' ∧ InStep p' q' ∧
      Unchanged f.binderIds p.memory p'.memory

namespace Mimics

variable {l r f : Formula}

/-- **The two sides of a formula**: what the left one changes does not concern the right one. -/
theorem both (hl : Mimics lts limit analysis bindings l) (hr : Mimics lts limit analysis bindings r)
    {p p' : Progress Approximations} {q : Progress Unit} {s : StateSet}
    (hfits : Fits analysis bindings scope (.and l r)) (halt : (l.and r).StrictlyAlternating)
    (hstarts : ∀ g ∈ (l.and r).outermost, StartsAnew lts p.memory g scope)
    (hrenders : Renders bindings p.memory scope env) (hstep : InStep p q)
    {join : StateSet → StateSet → Except Fault StateSet}
    (hrun : (do
      let a ← eval lts limit analysis bindings l scope
      let b ← eval lts limit analysis bindings r scope
      Run.combine (join a b)) p = .ok s p') :
    ∃ q', (do
      let a ← Naive.eval lts limit l env
      let b ← Naive.eval lts limit r env
      Run.combine (join a b)) q = .ok s q' ∧ InStep p' q' ∧
        Unchanged (l.and r).binderIds p.memory p'.memory := by
  obtain ⟨a, p₁, hrunl, hrun⟩ := bind_eq_ok hrun
  obtain ⟨b, p₂, hrunr, hrun⟩ := bind_eq_ok hrun
  obtain ⟨q₁, hrunl', hstep₁, hsame₁⟩ := hl hfits.left (halt.mono (List.subset_append_left _ _))
    (fun g hg => hstarts g (List.mem_append_left _ hg)) hrenders hstep hrunl
  have hstarts₁ : ∀ g ∈ r.outermost, StartsAnew lts p₁.memory g scope := by
    intro g hg
    refine (hstarts g (List.mem_append_right _ hg)).congr (hsame₁ _ fun hid => ?_)
    exact hfits.disjoint hid (List.mem_map_of_mem (r.outermost_subset hg))
  have hrenders₁ : Renders bindings p₁.memory scope env :=
    hrenders.congr fun e he => hsame₁ _ (hfits.left.fresh e he)
  obtain ⟨q₂, hrunr', hstep₂, hsame₂⟩ := hr hfits.right (halt.mono (List.subset_append_right _ _))
    hstarts₁ hrenders₁ hstep₁ hrunr
  -- the two sets are the same, and so is what is made of them
  obtain ⟨_, q₃, hjoin, rfl, hstep₃⟩ :=
    Follows.combine (fun t ht => ⟨t, ht, rfl⟩) p₂ q₂ hstep₂ s p' hrun
  obtain rfl := combine_eq_ok hrun
  refine ⟨q₃, ?_, hstep₃, fun id hid => ?_⟩
  · rw [bind_eq_of_ok hrunl', bind_eq_of_ok hrunr']
    exact hjoin
  · rw [Formula.binderIds_and, List.mem_append, not_or] at hid
    rw [hsame₂ id hid.2, hsame₁ id hid.1]

/-- A modality of the same set. -/
theorem single (hf : Mimics lts limit analysis bindings f) {p p' : Progress Approximations}
    {q : Progress Unit} {s : StateSet} (hfits : Fits analysis bindings scope f)
    (halt : f.StrictlyAlternating) (hstarts : ∀ g ∈ f.outermost, StartsAnew lts p.memory g scope)
    (hrenders : Renders bindings p.memory scope env) (hstep : InStep p q)
    {modality : StateSet → StateSet}
    (hrun : (do return modality (← eval lts limit analysis bindings f scope)) p = .ok s p') :
    ∃ q', (do return modality (← Naive.eval lts limit f env)) q = .ok s q' ∧ InStep p' q' ∧
      Unchanged f.binderIds p.memory p'.memory := by
  obtain ⟨t, p₁, hrunf, hrun⟩ := bind_eq_ok hrun
  cases hrun
  obtain ⟨q', hrunf', hstep', hsame⟩ := hf hfits halt hstarts hrenders hstep hrunf
  exact ⟨q', bind_eq_of_ok hrunf', hstep', hsame⟩

/-- The two loops before a round: the current approximation is stored, and nothing but the fixpoint
and those inside it has changed since the memory `m₀`. -/
structure Abreast (k : Kind) (b : Binder) (body : Formula) (m₀ : Approximations)
    (current : StateSet) (p : Progress Approximations) (q : Progress Unit) : Prop where
  /-- the runs are in step -/
  step : InStep p q
  /-- the approximation is stored -/
  stored : p.memory[b.id]? = some current
  /-- nothing else has changed -/
  unchanged : Unchanged (Formula.fix k b body).binderIds m₀ p.memory

/-- Storing the next approximation changes nothing else. -/
theorem Abreast.store {m₀ : Approximations} {current : StateSet} {p p' : Progress Approximations}
    {q : Progress Unit} (h : Abreast k b body m₀ current p q) {next : StateSet}
    (hkept : EmersonLei.store b.id next p = .ok () p') : Abreast k b body m₀ next p' q := by
  cases hkept
  refine ⟨⟨h.step.iterations, h.step.approximations⟩, Std.TreeMap.getElem?_insert_self,
    fun id hid => ?_⟩
  have hne : id ≠ b.id := fun he => hid (he ▸ Formula.self_mem_binderIds)
  exact (getElem?_insert_of_ne hne next).trans (h.unchanged id hid)

/-- **A round of both loops.** The fixpoints in the body are inside this one, so they start anew. -/
theorem round (hbody : Mimics lts limit analysis bindings body)
    (hfits : Fits analysis bindings scope (.fix k b body))
    (halt : (Formula.fix k b body).StrictlyAlternating) {m₀ : Approximations}
    (hrenders : Renders bindings m₀ scope env) (current : StateSet) :
    Follows (Abreast k b body m₀ current) Eq
      (eval lts limit analysis bindings body ((b, k) :: scope))
      (Naive.eval lts limit body (env.insert b.var current)) := by
  intro p q habreast next p' hrun
  have hrenders' : Renders bindings p.memory ((b, k) :: scope) (env.insert b.var current) :=
    (hrenders.congr fun e he => habreast.unchanged _ (hfits.fresh e he)).enter habreast.stored
  obtain ⟨q', hrun', hstep', hsame⟩ := hbody hfits.inside (halt.mono (List.subset_append_left _ _))
    (halt ⟨k, b, body⟩ Formula.self_mem_fixpoints) hrenders' habreast.step hrun
  refine ⟨next, q', hrun', rfl, hstep', ?_, fun id hid => ?_⟩
  · rw [hsame b.id hfits.self_notMem]
    exact habreast.stored
  · rw [hsame id fun hid' => hid (Formula.mem_binderIds_body hid')]
    exact habreast.unchanged id hid

/-- **The two loops** end in the same round with the same set. -/
theorem loop (hbody : Mimics lts limit analysis bindings body)
    (hfits : Fits analysis bindings scope (.fix k b body))
    (halt : (Formula.fix k b body).StrictlyAlternating) {m₀ : Approximations}
    (hrenders : Renders bindings m₀ scope env) {start s : StateSet}
    {p p' : Progress Approximations} {q : Progress Unit} (habreast : Abreast k b body m₀ start p q)
    (hrun : settle b (fun _ => eval lts limit analysis bindings body ((b, k) :: scope))
      (store b.id) limit 1 start p = .ok s p') :
    ∃ q', settle b (fun current => Naive.eval lts limit body (env.insert b.var current))
        (fun _ => return ()) limit 1 start q = .ok s q' ∧ Abreast k b body m₀ s p' q' := by
  have hloop : ∃ t q',
      settle b (fun current => Naive.eval lts limit body (env.insert b.var current))
        (fun _ => return ()) limit 1 start q = .ok t q' ∧ s = t ∧ Abreast k b body m₀ s p' q' := by
    refine settle_lockstep (I := fun current _ => Abreast k b body m₀ current) ?_ ?_ ?_ ?_
      limit 1 rfl habreast hrun
    · rintro _ _ p q round next _ ⟨hstep, hstored, hunchanged⟩ rfl
      exact ⟨hstep.endRound b round next, hstored, hunchanged⟩
    · rintro _ _ _ _ rfl rfl
      rfl
    · rintro current _ rfl
      exact hbody.round hfits halt hrenders current
    · rintro _ _ p q next _ p' habreast rfl hkept
      exact ⟨q, rfl, habreast.store hkept⟩
  obtain ⟨_, q', hrun', rfl, habreast'⟩ := hloop
  exact ⟨q', hrun', habreast'⟩

/-- **A fixpoint** starts anew, so the two loops begin at the same set. -/
theorem fix (hbody : Mimics lts limit analysis bindings body) :
    Mimics lts limit analysis bindings (.fix k b body) := by
  intro scope env p p' q s hfits halt hstarts hrenders hstep hrun
  obtain ⟨p₁, start, hrefresh, hstored, hrun⟩ := eval_fix_eq_ok hfits.described hrun
  obtain ⟨run, hnoted, henters⟩ := enters_of_refresh hrefresh
  have hstart : p₁.memory[b.id]? = some (startValue lts k) :=
    henters.starts (hstarts ⟨k, b, body⟩ (List.mem_singleton_self _))
  obtain rfl : start = startValue lts k := Option.some.inj (hstored.symm.trans hstart)
  -- naive evaluation counts a reset, which is neither a round nor an approximation
  have hstep₁ : InStep p₁ { q with counters.resets := q.counters.resets + 1 } := by
    obtain ⟨hiterations, happroximations⟩ := hstep.of_noted hnoted henters.level_eq
    exact ⟨hiterations, happroximations⟩
  obtain ⟨q', hrun', habreast⟩ := hbody.loop hfits halt hrenders
    ⟨hstep₁.note (.approximation b 0 (startValue lts k)), hstart, henters.unchanged⟩ hrun
  exact ⟨q', hrun', habreast.step, habreast.unchanged⟩

end Mimics

/-- **Naive evaluation keeps step.** -/
theorem mimics (f : Formula) : Mimics lts limit analysis bindings f := by
  induction f with
  | tt | ff =>
    intro scope env p p' q s _ _ _ _ hstep hrun
    cases hrun
    exact ⟨q, rfl, hstep, fun _ _ => rfl⟩
  | var x =>
    intro scope env p p' q s _ _ _ hrenders hstep hrun
    rw [eval, lookup_eq, ← hrenders x] at hrun
    rw [Naive.eval]
    cases hx : env[x]? with
    | none =>
      rw [hx] at hrun
      cases hrun
    | some t =>
      rw [hx] at hrun
      cases hrun
      exact ⟨q, rfl, hstep, fun _ _ => rfl⟩
  | and l r ihl ihr =>
    intro scope env p p' q s hfits halt hstarts hrenders hstep hrun
    exact Mimics.both ihl ihr hfits halt hstarts hrenders hstep hrun
  | or l r ihl ihr =>
    intro scope env p p' q s hfits halt hstarts hrenders hstep hrun
    exact Mimics.both ihl ihr (Fits.or_iff.1 hfits) halt hstarts hrenders hstep hrun
  | dia a f ih | box a f ih =>
    intro scope env p p' q s hfits halt hstarts hrenders hstep hrun
    exact Mimics.single ih (by simpa using hfits) halt hstarts hrenders hstep hrun
  | fix k b body ih => exact ih.fix

/-! ### Whole runs -/

/-- **On strictly alternating formulas Emerson-Lei evaluation runs like naive evaluation.** Both
find the same states in the same number of rounds and note the same approximations one after the
other. -/
theorem solve_in_step (hlts : Lts.build fits first n ts = .ok lts) {f : Formula}
    (hids : f.binderIds.Nodup) (halt : f.StrictlyAlternating) (hover : Bindings.Over n bindings)
    (hcovered : ∀ x ∈ f.freeOccurrences, x ∈ bindings) (logging : Bool) :
    ∃ solution solution',
      (solve lts f f.analyze bindings logging).result = .ok solution ∧
      (Naive.solve lts f bindings logging).result = .ok solution' ∧
      solution.states = solution'.states ∧
      solution.counters.iterations = solution'.counters.iterations ∧
      (solve lts f f.analyze bindings logging).log.filter (·.level == .trace) =
        (Naive.solve lts f bindings logging).log.filter (·.level == .trace) := by
  have hx := Bindings.missing?_eq_none.2 hcovered
  obtain ⟨states, p', hrun, hresult, -⟩ := run_returns hlts hids hover hx logging
  have hstarts : ∀ g ∈ f.outermost, StartsAnew lts (initial lts f.scoping.binders) g [] :=
    fun g hg => getElem?_initial_scoping hids (f.outermost_subset hg)
  obtain ⟨q', hrun', hstep, -⟩ := mimics f (q := Progress.initial logging ())
    (fits_analyze hids hcovered) halt hstarts (fun _ => rfl) ⟨rfl, rfl⟩ hrun
  refine ⟨_, _, hresult, report_result_of_ok .naive hrun', rfl, hstep.iterations, ?_⟩
  rw [solve, find?_scoping_free, hx, Naive.solve, report_approximations .naive hrun',
    ← hstep.approximations]
  exact report_approximations .emersonLei hrun

/-- Three alternating fixpoints, beside a closed one that lies in no other. -/
theorem solve_in_step_three_deep :
    ∃ lts f bindings, Lts.ofTransitions 0 2 [⟨0, "a", 1⟩, ⟨1, "a", 0⟩] = .ok lts ∧
      f = .or
        (.fix .least ⟨0, 'X'⟩ (.fix .greatest ⟨1, 'Y'⟩ (.and (.box "a" (.var 'X'))
          (.fix .least ⟨2, 'V'⟩ (.or (.dia "a" (.var 'Y')) (.and (.var 'Z') (.var 'V')))))))
        (.fix .greatest ⟨3, 'W'⟩ (.dia "a" (.var 'W'))) ∧
      bindings = (∅ : Bindings).insert 'Z' ((StateSet.empty 2).insert 1) ∧
      f.StrictlyAlternating ∧
      ∃ solution solution',
        (solve lts f f.analyze bindings true).result = .ok solution ∧
        (Naive.solve lts f bindings true).result = .ok solution' ∧
        solution.states = solution'.states ∧
        solution.counters.iterations = solution'.counters.iterations ∧
        (solve lts f f.analyze bindings true).log.filter (·.level == .trace) =
          (Naive.solve lts f bindings true).log.filter (·.level == .trace) := by
  obtain ⟨lts, hlts⟩ :
    ∃ lts, Lts.ofTransitions 0 2 [⟨0, "a", 1⟩, ⟨1, "a", 0⟩] = .ok lts := ⟨_, rfl⟩
  refine ⟨lts, _, _, hlts, rfl, rfl, by decide,
    solve_in_step hlts (by decide) (by decide) ?_ ?_ true⟩
  · exact (Bindings.over_empty 2).insert 'Z' rfl
  · simp [Formula.freeOccurrences]

end EmersonLei

end Solver

end ModalMu
