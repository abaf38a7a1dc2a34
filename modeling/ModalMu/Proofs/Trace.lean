import ModalMu.Proofs.EmersonLei
import ModalMu.Proofs.InPlace

/-!
# What an evaluation does, moment by moment

An evaluation that returns is told as a relation between the memory before it, its answer, the
moments that it passes and the memory after it. A moment is an event together with what is
remembered just before it. The relation does not mention counters and logs, which are read off the
events:

* `Noted` — the progress of a run that has noted some events: each of them is logged, and the rounds
  and the fixpoints set back that they tell of are counted;
* `Passed` — the progress of a run in place that has passed some moments: their events are noted,
  and what was remembered then is on record;
* `Enters`, `Rounds` — entering a fixpoint, and the rounds of its loop. **A round that does not end
  the loop moves strictly** in the direction of the kind;
* `Trace` — evaluating a formula, by recursion on it;
* `traced` — **every evaluation from a prepared memory leaves such a trace**, whose moments are
  those that the machine has put on record.
-/

namespace ModalMu

namespace Solver

/-! ### Events and progress -/

namespace Event

/-- How many rounds an event tells of. -/
def rounds : Event → Nat
  | approximation _ (_ + 1) _ => 1
  | _ => 0

theorem rounds_le_one (e : Event) : e.rounds ≤ 1 := by
  rcases e with ⟨_, _ | _, _⟩ | _ | _ <;> simp [rounds]

/-- How many fixpoints an event sets back. -/
def resets : Event → Nat
  | entering _ stale => stale.length
  | _ => 0

end Event

/-- **The run has noted these events** on its way from one progress to the other. -/
structure Noted {μ : Type} (p : Progress μ) (es : List Event) (p' : Progress μ) : Prop where
  /-- the rounds are counted -/
  iterations : p'.counters.iterations = p.counters.iterations + (es.map Event.rounds).sum
  /-- the fixpoints set back are counted -/
  resets : p'.counters.resets = p.counters.resets + (es.map Event.resets).sum
  /-- if there is a log, it holds the events -/
  events : p'.events = p.events.map (· ++ es.toArray)

namespace Noted

variable {μ : Type} {p p₁ p' : Progress μ} {es es' : List Event}

theorem nil (p : Progress μ) : Noted p [] p := ⟨rfl, rfl, by simp⟩

theorem append (h : Noted p es p₁) (h' : Noted p₁ es' p') : Noted p (es ++ es') p' where
  iterations := by
    rw [h'.iterations, h.iterations, List.map_append, List.sum_append, Nat.add_assoc]
  resets := by
    rw [h'.resets, h.resets, List.map_append, List.sum_append, Nat.add_assoc]
  events := by
    rw [h'.events, h.events, Option.map_map]
    congr 1
    funext log
    simp

/-- What is remembered may change without notice. -/
theorem memory (h : Noted p es p') (m : μ) : Noted p es { p' with memory := m } :=
  ⟨h.iterations, h.resets, h.events⟩

/-- Only counters and logs matter. -/
theorem congr {ν : Type} {q q' : Progress ν} (h : Noted p es p')
    (hcounters : q.counters = p.counters) (hevents : q.events = p.events)
    (hcounters' : q'.counters = p'.counters) (hevents' : q'.events = p'.events) :
    Noted q es q' := by
  refine ⟨?_, ?_, ?_⟩
  · rw [hcounters', hcounters, h.iterations]
  · rw [hcounters', hcounters, h.resets]
  · rw [hevents', hevents, h.events]

theorem endRound (p : Progress μ) (b : Binder) (i : Nat) (value : StateSet) :
    Noted p [.approximation b (i + 1) value] (p.endRound b (i + 1) value) :=
  ⟨rfl, rfl, by simp [Progress.endRound]⟩

/-- The value before the first round is noted, but no round is counted. -/
theorem start (p : Progress μ) (b : Binder) (value : StateSet) :
    Noted p [.approximation b 0 value]
      { p with events := p.events.map (·.push (.approximation b 0 value)) } :=
  ⟨rfl, rfl, by simp⟩

end Noted

namespace EmersonLei

variable {fits : Nat → Bool} {first n limit : Nat} {ts : List Transition} {lts : Lts}
  {analysis : Analysis} {bindings : Bindings} {scope : Scope} {outer : Option Kind} {k : Kind}
  {b : Binder} {body : Formula} {m m' : Approximations}

/-! ### Moments -/

/-- **A moment of a run**: an event, and what is remembered just before it. -/
structure Moment where
  /-- what is remembered -/
  memory : Approximations
  /-- what happens -/
  event : Event

/-- **The run has passed these moments**: it has noted their events, and has put on record what was
remembered each time. -/
structure Passed (q : Progress Workspace) (run : List Moment) (q' : Progress Workspace) : Prop where
  /-- the events are noted -/
  noted : Noted q (run.map Moment.event) q'
  /-- what was remembered is on record -/
  history : q'.memory.history = q.memory.history ++ run.map Moment.memory

namespace Passed

variable {q q₁ q' : Progress Workspace} {run run' : List Moment}

theorem nil (q : Progress Workspace) : Passed q [] q := ⟨.nil q, by simp⟩

theorem append (h : Passed q run q₁) (h' : Passed q₁ run' q') : Passed q (run ++ run') q' := by
  refine ⟨?_, ?_⟩
  · rw [List.map_append]
    exact h.noted.append h'.noted
  · rw [h'.history, h.history, List.map_append, List.append_assoc]

/-- What is not on record may change without notice. -/
theorem memory (h : Passed q run q') {w : Workspace} (hw : w.history = q'.memory.history) :
    Passed q run { q' with memory := w } := ⟨h.noted.memory w, hw.trans h.history⟩

/-- The value before the first round. -/
theorem start (q : Progress Workspace) (b : Binder) (value : StateSet) :
    Passed q [⟨q.memory.approximations, .approximation b 0 value⟩]
      { q with
        events := q.events.map (·.push (.approximation b 0 value))
        memory := q.memory.mark } :=
  ⟨(Noted.start q b value).memory _, rfl⟩

/-- The end of a round. -/
theorem endRound (q : Progress Workspace) (b : Binder) (i : Nat) (value : StateSet) :
    Passed q [⟨q.memory.approximations, .approximation b (i + 1) value⟩]
      (Progress.endRound { q with memory := q.memory.mark } b (i + 1) value) :=
  ⟨(Noted.endRound q b i value).memory _, rfl⟩

end Passed

/-! ### Entering and looping -/

/-- The memory with some fixpoints of kind `k` set back. -/
def setBack (lts : Lts) (k : Kind) (ids : List Nat) (m : Approximations) : Approximations :=
  ids.foldl (fun m id => m.insert id (startValue lts k)) m

/-- **Entering a fixpoint** from one of kind `outer`, or from outside all fixpoints. -/
inductive Enters (lts : Lts) (outer : Option Kind) (g : Fixpoint) (m : Approximations) :
    List Moment → Approximations → Prop where
  /-- not from one of the opposite kind: what is stored can be used -/
  | fresh (houter : outer ≠ some g.kind.opposite) : Enters lts outer g m [] m
  /-- from one of the opposite kind, but nothing can be stale -/
  | idle (houter : outer = some g.kind.opposite) (hstale : stale g.binder g.info = []) :
    Enters lts outer g m [] m
  /-- from one of the opposite kind: what may be stale is set back -/
  | anew (houter : outer = some g.kind.opposite) (hstale : stale g.binder g.info ≠ []) :
    Enters lts outer g m [⟨m, .entering g.binder (stale g.binder g.info)⟩]
      (setBack lts g.kind (stale g.binder g.info) m)

/-- **The rounds of a loop** from round `i` on, where `E` tells of the evaluations of the body. The
value of a round is stored unless it is the current one, which ends the loop. -/
inductive Rounds (n : Nat) (k : Kind) (b : Binder)
    (E : Approximations → StateSet → List Moment → Approximations → Prop) :
    Nat → StateSet → Approximations → StateSet → List Moment → Approximations → Prop where
  /-- the last round -/
  | rest {i : Nat} {current : StateSet} {m m' : Approximations} {run : List Moment}
    (hbody : E m current run m') :
    Rounds n k b E i current m current (run ++ [⟨m', .approximation b i current⟩]) m'
  /-- a round that moves on, and those after it -/
  | move {i : Nat} {current next s : StateSet} {m m₁ m' : Approximations} {run run' : List Moment}
    (hbody : E m next run m₁) (hmoves : k.StrictlyBefore (current.toSet n) (next.toSet n))
    (hrest : Rounds n k b E (i + 1) next (m₁.insert b.id next) s run' m') :
    Rounds n k b E i current m s (run ++ ⟨m₁, .approximation b i next⟩ :: run') m'

/-- **The trace of an evaluation**: `m` and `m'` are the memory before and after it, `s` is its
answer and `run` are the moments that it passes. -/
def Trace (n : Nat) (ts : List Transition) (lts : Lts) :
    Option Kind → Formula → Approximations → StateSet → List Moment → Approximations → Prop
  | _, .tt, m, _, run, m' | _, .ff, m, _, run, m' | _, .var _, m, _, run, m' => run = [] ∧ m' = m
  | outer, .and l r, m, _, run, m' | outer, .or l r, m, _, run, m' =>
    ∃ a run₁ m₁ b run₂, Trace n ts lts outer l m a run₁ m₁ ∧ Trace n ts lts outer r m₁ b run₂ m' ∧
      run = run₁ ++ run₂
  | outer, .dia _ f, m, _, run, m' | outer, .box _ f, m, _, run, m' =>
    ∃ a, Trace n ts lts outer f m a run m'
  | outer, .fix k b body, m, s, run, m' =>
    ∃ run₀ m₁ start run₁, Enters lts outer ⟨k, b, body⟩ m run₀ m₁ ∧ m₁[b.id]? = some start ∧
      Rounds n k b (Trace n ts lts (some k) body) 1 start m₁ s run₁ m' ∧
      run = run₀ ++ ⟨m₁, .approximation b 0 start⟩ :: run₁ ∧
      ∃ ρ : Var → Set (Fin n), s.Represents ((Formula.fix k b body).denote ts ρ)

/-! ### What stays the same -/

theorem getElem?_setBack (lts : Lts) (k : Kind) (ids : List Nat) (m : Approximations) (id : Nat) :
    (setBack lts k ids m)[id]? = if id ∈ ids then some (startValue lts k) else m[id]? :=
  getElem?_foldl_insert ids (startValue lts k) m id

/-- Entering changes nothing but fixpoints of the node, and only open ones of its kind. -/
theorem Enters.getElem?_eq {g : Fixpoint} {run : List Moment} (h : Enters lts outer g m run m')
    {id : Nat} (hid : id ∉ stale g.binder g.info) : m'[id]? = m[id]? := by
  cases h with
  | fresh _ | idle _ _ => rfl
  | anew _ _ => rw [getElem?_setBack, if_neg hid]

theorem Enters.unchanged {run : List Moment} (h : Enters lts outer ⟨k, b, body⟩ m run m') :
    Unchanged (Formula.fix k b body).binderIds m m' := by
  intro id hid
  refine h.getElem?_eq fun hstale => ?_
  obtain ⟨g, hg, -, -, rfl⟩ := mem_stale.1 hstale
  exact hid (List.mem_map_of_mem hg)

namespace Rounds

variable {E : Approximations → StateSet → List Moment → Approximations → Prop} {i : Nat}
  {current s : StateSet} {run : List Moment}

/-- A loop changes what its body changes, and its own approximation. -/
theorem unchanged {ids : List Nat} (h : Rounds n k b E i current m s run m')
    (hE : ∀ m s run m', E m s run m' → Unchanged ids m m') : Unchanged (ids ++ [b.id]) m m' := by
  intro id hid
  rw [List.mem_append, List.mem_singleton, not_or] at hid
  induction h with
  | rest hbody => exact hE _ _ _ _ hbody id hid.1
  | move hbody _ _ ih => rw [ih, getElem?_insert_of_ne hid.2, hE _ _ _ _ hbody id hid.1]

/-- In the end the answer is stored. -/
theorem stored (h : Rounds n k b E i current m s run m')
    (hE : ∀ m s run m', E m s run m' → m'[b.id]? = m[b.id]?) (hm : m[b.id]? = some current) :
    m'[b.id]? = some s := by
  induction h with
  | rest hbody => rw [hE _ _ _ _ hbody, hm]
  | move _ _ _ ih => exact ih Std.TreeMap.getElem?_insert_self

end Rounds

/-- **An evaluation changes what is remembered of the formula's own fixpoints only.** -/
theorem Trace.unchanged {f : Formula} {s : StateSet} {run : List Moment}
    (h : Trace n ts lts outer f m s run m') : Unchanged f.binderIds m m' := by
  induction f generalizing outer m s run m' with
  | tt | ff | var _ =>
    obtain ⟨-, rfl⟩ := h
    exact fun _ _ => rfl
  | and l r ihl ihr | or l r ihl ihr =>
    obtain ⟨a, run₁, m₁, b, run₂, hl, hr, -⟩ := h
    intro id hid
    rw [ihr hr id fun hid' => hid (Formula.mem_binderIds_right hid'),
      ihl hl id fun hid' => hid (Formula.mem_binderIds_left hid')]
  | dia a f ih | box a f ih =>
    obtain ⟨a, hf⟩ := h
    exact ih hf
  | fix k b body ih =>
    obtain ⟨run₀, m₁, start, run₁, henters, -, hrounds, -, -⟩ := h
    have hloop := hrounds.unchanged fun m s run m' => ih
    rw [← Formula.binderIds_fix (k := k)] at hloop
    intro id hid
    rw [hloop id hid, henters.unchanged id hid]

/-! ### Evaluations leave traces -/

/-- Whether anything is set back depends on the kind of the fixpoint around. -/
theorem head?_any_iff :
    scope.head?.any (·.2 ≠ k) = true ↔ scope.head?.map (·.2) = some k.opposite := by
  rcases scope.head? with _ | e
  · simp
  · simp [Kind.ne_iff_eq_opposite]

/-- What entering a fixpoint does. -/
theorem enters_of_refreshInPlace {q q' : Progress Workspace}
    (h : refreshInPlace lts k b (Fixpoint.info ⟨k, b, body⟩) q = .ok () q') :
    ∃ run, Passed q run q' ∧ q'.memory.scope = q.memory.scope ∧
      Enters lts (q.memory.scope.head?.map (·.2)) ⟨k, b, body⟩ q.memory.approximations run
        q'.memory.approximations := by
  have hlast : q.memory.stack.getLast? = q.memory.scope.head? := List.head?_reverse.symm
  rw [refreshInPlace] at h
  obtain ⟨_, _, ⟨⟩, h⟩ := bind_eq_ok h
  rw [hlast] at h
  split at h
  · rename_i houter
    rw [head?_any_iff] at houter
    by_cases hstale : stale b (Fixpoint.info ⟨k, b, body⟩) = []
    · rw [hstale] at h
      obtain rfl : q' = q := by
        cases h
        rfl
      exact ⟨[], .nil q', rfl, .idle houter hstale⟩
    · simp only [if_neg hstale] at h
      cases h
      refine ⟨_, ⟨⟨?_, ?_, ?_⟩, ?_⟩, rfl, .anew houter hstale⟩
      · rfl
      · simp [Event.resets]
      · simp
      · rfl
  · rename_i houter
    rw [head?_any_iff] at houter
    cases h
    exact ⟨[], .nil _, rfl, .fresh houter⟩

/-- The same of entering inside a scope. -/
theorem enters_of_refresh {p p' : Progress Approximations}
    (h : refresh lts scope k b (Fixpoint.info ⟨k, b, body⟩) p = .ok () p') :
    ∃ run, Noted p (run.map Moment.event) p' ∧
      Enters lts (scope.head?.map (·.2)) ⟨k, b, body⟩ p.memory run p'.memory := by
  have hends := refreshInPlace_matches lts .eq scope k b (Fixpoint.info ⟨k, b, body⟩) p
    ⟨p.counters, p.events, p.memory, scope.reverse, []⟩ ⟨rfl, rfl, rfl, List.reverse_reverse scope⟩
  rw [h] at hends
  obtain ⟨q', hrun, hparallel⟩ := hends.ok_left
  obtain ⟨run, hpassed, -, henters⟩ := enters_of_refreshInPlace hrun
  refine ⟨run, hpassed.noted.congr rfl rfl hparallel.counters hparallel.events, ?_⟩
  rw [hparallel.memory.approximations, Workspace.scope, List.reverse_reverse] at henters
  exact henters

/-- **What the evaluation of a fixpoint does**: it enters the fixpoint, notes what is stored of it
then, and loops from there. -/
theorem eval_fix_eq_ok (hdescribed : analysis.Describes (.fix k b body))
    {p p' : Progress Approximations} {s : StateSet}
    (h : eval lts limit analysis bindings (.fix k b body) scope p = .ok s p') :
    ∃ p₁ start, refresh lts scope k b (Fixpoint.info ⟨k, b, body⟩) p = .ok () p₁ ∧
      p₁.memory[b.id]? = some start ∧
      settle b (fun _ => eval lts limit analysis bindings body ((b, k) :: scope)) (store b.id)
        limit 1 start { p₁ with events := p₁.events.map (·.push (.approximation b 0 start)) } =
          .ok s p' := by
  rw [eval, annotation?_of_describes hdescribed] at h
  obtain ⟨_, _, ⟨⟩, h⟩ := bind_eq_ok h
  obtain ⟨_, p₁, hrefresh, h⟩ := bind_eq_ok h
  obtain ⟨_, _, ⟨⟩, h⟩ := bind_eq_ok h
  obtain ⟨start, _, hrequire, hrun⟩ := bind_eq_ok h
  obtain ⟨hstored, rfl⟩ := require_eq_ok hrequire
  exact ⟨_, start, hrefresh, hstored, hrun⟩

/-- **What the evaluation of a fixpoint in place does**: it enters the fixpoint, puts it on the
stack and notes what is stored of it then, loops from there, and takes it from the stack again. -/
theorem evalInPlace_fix_eq_ok (hdescribed : analysis.Describes (.fix k b body))
    {q q' : Progress Workspace} {s : StateSet}
    (h : evalInPlace lts limit analysis bindings (.fix k b body) q = .ok s q') :
    ∃ q₁ start q₂, refreshInPlace lts k b (Fixpoint.info ⟨k, b, body⟩) q = .ok () q₁ ∧
      q₁.memory.approximations[b.id]? = some start ∧
      settle b
        (fun _ => do
          let next ← evalInPlace lts limit analysis bindings body
          Run.remember .mark
          return next)
        (fun next => Run.remember (.update (·.insert b.id next))) limit 1 start
        { q₁ with
          events := q₁.events.map (·.push (.approximation b 0 start))
          memory := (q₁.memory.push b k).mark } = .ok s q₂ ∧
      q' = { q₂ with memory := q₂.memory.pop } := by
  rw [evalInPlace, annotation?_of_describes hdescribed] at h
  obtain ⟨_, _, ⟨⟩, h⟩ := bind_eq_ok h
  obtain ⟨_, q₁, hrefresh, h⟩ := bind_eq_ok h
  obtain ⟨_, _, ⟨⟩, h⟩ := bind_eq_ok h
  obtain ⟨_, _, ⟨⟩, h⟩ := bind_eq_ok h
  obtain ⟨start, _, hrequire, hrun⟩ := bind_eq_ok h
  obtain ⟨hstored, rfl⟩ := require_eq_ok hrequire
  obtain ⟨_, _, ⟨⟩, hrun⟩ := bind_eq_ok hrun
  obtain ⟨_, _, ⟨⟩, hrun⟩ := bind_eq_ok hrun
  obtain ⟨_, q₂, hloop, hrun⟩ := bind_eq_ok hrun
  cases hrun
  exact ⟨q₁, start, q₂, hrefresh, hstored, hloop, rfl⟩

/-- What a run inside a scope returns is also returned in place. -/
theorem returns_inPlace {α : Type} {m : Run Approximations α} {m' : Run Workspace α}
    (hmatch : Matches Eq (Carries scope) (fun _ => Carries scope) m m') {q : Progress Workspace}
    (hscope : q.memory.scope = scope) {Q : α → Approximations → Prop}
    (h : Returns m ⟨q.counters, q.events, q.memory.approximations⟩ fun a p' => Q a p'.memory) :
    Returns m' q fun a q' => Q a q'.memory.approximations ∧ q'.memory.scope = scope := by
  obtain ⟨a, p', hrun, hQ⟩ := h
  have hends := hmatch ⟨q.counters, q.events, q.memory.approximations⟩ q ⟨rfl, rfl, rfl, hscope⟩
  rw [hrun] at hends
  obtain ⟨q', hrun', hparallel⟩ := hends.ok_left
  refine ⟨a, q', hrun', ?_, hparallel.memory.scope⟩
  rw [hparallel.memory.approximations]
  exact hQ

/-- **Evaluations of the formula leave traces**, in every scope that it fits into and from every
memory that is prepared for it. -/
def Traced (n : Nat) (ts : List Transition) (lts : Lts) (limit : Nat) (analysis : Analysis)
    (bindings : Bindings) (f : Formula) : Prop :=
  ∀ {scope : Scope} {q q' : Progress Workspace} {s : StateSet}, q.memory.scope = scope →
    Fits analysis bindings scope f →
    Prepared n ts bindings scope f q.memory.approximations →
    evalInPlace lts limit analysis bindings f q = .ok s q' →
    ∃ run, Passed q run q' ∧
      Trace n ts lts (scope.head?.map (·.2)) f q.memory.approximations s run
        q'.memory.approximations

namespace Traced

variable {l r f : Formula}

/-- The two sides of a formula, one after the other. -/
theorem both (hcorrect : Correct n ts lts limit analysis bindings l)
    (hl : Traced n ts lts limit analysis bindings l)
    (hr : Traced n ts lts limit analysis bindings r) {q q' : Progress Workspace}
    {s : StateSet} (hscope : q.memory.scope = scope)
    (hfits : Fits analysis bindings scope (.and l r))
    (hprep : Prepared n ts bindings scope (.and l r) q.memory.approximations)
    {join : StateSet → StateSet → Except Fault StateSet}
    (h : (do
      let a ← evalInPlace lts limit analysis bindings l
      let b ← evalInPlace lts limit analysis bindings r
      Run.combine (join a b)) q = .ok s q') :
    ∃ run, Passed q run q' ∧
      Trace n ts lts (scope.head?.map (·.2)) (.and l r) q.memory.approximations s run
        q'.memory.approximations := by
  obtain ⟨a, q₁, hrun₁, h⟩ := bind_eq_ok h
  obtain ⟨b, q₂, hrun₂, h⟩ := bind_eq_ok h
  obtain rfl := combine_eq_ok h
  have hleft := returns_inPlace (evalInPlace_matches lts limit analysis bindings .eq l scope) hscope
    (Q := fun _ m => Unchanged l.binderIds q.memory.approximations m)
    ((hcorrect scope _ hfits.left hprep.left).imp fun _ _ h => h.2.2)
  obtain ⟨hsame₁, hscope₁⟩ := hleft.of_ok hrun₁
  have hprep₁ : Prepared n ts bindings scope r q₁.memory.approximations :=
    hprep.right.frame hsame₁ (fun _ hid hid' => hfits.disjoint hid' hid) hfits.left.fresh
  obtain ⟨run₁, hpassed₁, htrace₁⟩ := hl hscope hfits.left hprep.left hrun₁
  obtain ⟨run₂, hpassed₂, htrace₂⟩ := hr hscope₁ hfits.right hprep₁ hrun₂
  exact ⟨run₁ ++ run₂, hpassed₁.append hpassed₂, a, run₁, _, b, run₂, htrace₁, htrace₂, rfl⟩

/-- **The loop of a fixpoint**: each round adds the trace of the body and its value. -/
theorem loop (hlimit : n < limit) (hcorrect : Correct n ts lts limit analysis bindings body)
    (hbody : Traced n ts lts limit analysis bindings body)
    (hfits : Fits analysis bindings scope (.fix k b body)) {m₀ : Approximations}
    {start : StateSet} {q : Progress Workspace} (hscope : q.memory.scope = (b, k) :: scope)
    (huniv : start.univ = n)
    (hleads : k.LeadsTo (Fixpoint.operator ts ⟨k, b, body⟩ (valuation n bindings m₀ scope))
      (start.toSet n))
    (hloop : Looping n ts bindings scope k b body m₀ start q.memory.approximations) :
    Returns (settle b
        (fun _ => do
          let next ← evalInPlace lts limit analysis bindings body
          Run.remember .mark
          return next)
        (fun next => Run.remember (.update (·.insert b.id next))) limit 1 start) q fun s q' =>
      s.Represents ((Formula.fix k b body).denote ts (valuation n bindings m₀ scope)) ∧
      ∃ run, Passed q run q' ∧
        Rounds n k b (Trace n ts lts (some k) body) 1 start q.memory.approximations s run
          q'.memory.approximations := by
  refine Returns.imp (settle_relates (k := k)
    (I := fun current w => Looping n ts bindings scope k b body m₀ current w.approximations ∧
      w.scope = (b, k) :: scope)
    (B := fun q next q' => ∃ run q₁, Passed q run q₁ ∧
      Trace n ts lts (some k) body q.memory.approximations next run q₁.memory.approximations ∧
      q' = { q₁ with memory := q₁.memory.mark })
    (T := fun round current q s q' => round ≠ 0 → ∃ run, Passed q run q' ∧
      Rounds n k b (Trace n ts lts (some k) body) round current q.memory.approximations s run
        q'.memory.approximations)
    (Fixpoint.operator_mono ⟨k, b, body⟩ (valuation n bindings m₀ scope))
    ?_ ?_ ?_ ?_ 1 huniv hleads ⟨hloop, hscope⟩
    (Nat.lt_of_le_of_lt (Kind.remaining_le _) hlimit)) ?_
  · rintro current q - ⟨hlooping, hscope⟩
    obtain ⟨next, q₁, hrun, hnext, hscope₁⟩ := returns_inPlace
      (evalInPlace_matches lts limit analysis bindings .eq body _) hscope
      (Q := fun next m => next.Represents (Fixpoint.operator ts ⟨k, b, body⟩
        (valuation n bindings m₀ scope) (current.toSet n)) ∧
          Looping n ts bindings scope k b body m₀ current m) (hcorrect.round hfits hlooping)
    obtain ⟨run, hpassed, htrace⟩ := hbody hscope hfits.inside hlooping.prepared hrun
    exact ⟨next, _, bind_eq_of_ok hrun, ⟨hnext.1, hnext.2, hscope₁⟩, run, q₁, hpassed, htrace, rfl⟩
  · rintro current next q ⟨hlooping, hscope⟩ hleads hnext
    have hstored := (hlooping.returns_store
      (q := ⟨q.counters, q.events, q.memory.approximations⟩) hfits hleads hnext).of_ok rfl
    exact ⟨(), _, rfl, hstored, hscope⟩
  · rintro round current q _ ⟨run, q₁, hpassed, htrace, rfl⟩ hround
    obtain ⟨i, rfl⟩ := Nat.exists_eq_succ_of_ne_zero hround
    exact ⟨_, hpassed.append (.endRound q₁ b i current), .rest htrace⟩
  · rintro round current next q _ q₂ s q' ⟨run, q₁, hpassed, htrace, rfl⟩ hmoves ⟨⟩ hrounds hround
    obtain ⟨i, rfl⟩ := Nat.exists_eq_succ_of_ne_zero hround
    obtain ⟨run', hpassed', hrounds⟩ := hrounds (Nat.succ_ne_zero _)
    refine ⟨_, hpassed.append (Passed.append (.memory (.endRound q₁ b i next) ?_) hpassed'),
      .move htrace hmoves hrounds⟩
    rfl
  · rintro s q' ⟨⟨hs, -⟩, hrounds⟩
    exact ⟨hs, hrounds Nat.one_ne_zero⟩

theorem fix (hcount : lts.stateCount = n) (hlimit : n < limit)
    (hcorrect : Correct n ts lts limit analysis bindings body)
    (hbody : Traced n ts lts limit analysis bindings body) :
    Traced n ts lts limit analysis bindings (.fix k b body) := by
  rintro scope q _ s hscope hfits hprep h
  obtain ⟨q₁, start, q₂, hrefresh, hstored, hsettle, rfl⟩ := evalInPlace_fix_eq_ok hfits.described h
  obtain ⟨run₀, hpassed₀, hscope₁, henters⟩ := enters_of_refreshInPlace hrefresh
  rw [hscope] at hscope₁ henters
  have hentered := returns_inPlace (refreshInPlace_matches lts .eq scope k b _) hscope
    (Q := fun _ m => ∃ start, start.univ = n ∧
      k.LeadsTo (Fixpoint.operator ts ⟨k, b, body⟩
        (valuation n bindings q.memory.approximations scope)) (start.toSet n) ∧
      Looping n ts bindings scope k b body q.memory.approximations start m)
    (refresh_enters hcount hfits hprep)
  obtain ⟨⟨_, huniv, hleads, hloop⟩, -⟩ := hentered.of_ok hrefresh
  obtain rfl := Option.some.inj (hstored.symm.trans hloop.stored)
  have hpushed : ((q₁.memory.push b k).mark).scope = (b, k) :: scope := by
    rw [← hscope₁]
    exact List.reverse_append
  have hlooped := hbody.loop (q := { q₁ with
      events := q₁.events.map (·.push (.approximation b 0 start))
      memory := (q₁.memory.push b k).mark }) hlimit hcorrect hfits hpushed huniv hleads hloop
  obtain ⟨hs, run₁, hpassed₁, hrounds⟩ := hlooped.of_ok hsettle
  have hstart : Passed q₁ [⟨q₁.memory.approximations, .approximation b 0 start⟩] _ :=
    (Passed.start q₁ b start).memory (w := (q₁.memory.push b k).mark) rfl
  refine ⟨_, (hpassed₀.append (hstart.append hpassed₁)).memory rfl, run₀, _, start, run₁, henters,
    hloop.stored, hrounds, rfl, _, hs⟩

end Traced

/-- **Every evaluation leaves a trace.** -/
theorem traced (hlts : Lts.build fits first n ts = .ok lts) (hlimit : n < limit)
    (hover : Bindings.Over n bindings) (f : Formula) :
    Traced n ts lts limit analysis bindings f := by
  have hcorrect : ∀ g, Correct n ts lts limit analysis bindings g := correct hlts hlimit hover
  induction f with
  | tt | ff =>
    intro scope q q' s _ _ _ h
    cases h
    exact ⟨[], .nil _, rfl, rfl⟩
  | var x =>
    intro scope q q' s hscope hfits hprep h
    obtain ⟨_, _, ⟨⟩, hrequire⟩ := bind_eq_ok h
    obtain ⟨-, rfl⟩ := require_eq_ok hrequire
    exact ⟨[], .nil _, rfl, rfl⟩
  | and l r ihl ihr =>
    intro scope q q' s hscope hfits hprep h
    exact Traced.both (hcorrect l) ihl ihr hscope hfits hprep h
  | or l r ihl ihr =>
    intro scope q q' s hscope hfits hprep h
    exact Traced.both (hcorrect l) ihl ihr hscope (Fits.or_iff.1 hfits) (Prepared.or_iff.1 hprep) h
  | dia a f ih | box a f ih =>
    intro scope q q' s hscope hfits hprep h
    obtain ⟨t, q₁, hrun, h⟩ := bind_eq_ok h
    cases h
    obtain ⟨run, hpassed, htrace⟩ :=
      ih hscope (by simpa using hfits) (by simpa using hprep) hrun
    exact ⟨run, hpassed, t, htrace⟩
  | fix k b body ih => exact ih.fix (Lts.stateCount_eq hlts) hlimit (hcorrect body)

/-! ### Whole runs -/

/-- **What a whole run does**: it starts from the initial memory, its counters and its log are those
of the events that it passes, and the same run in place has put each of its moments on record. -/
theorem run_traced (hlts : Lts.build fits first n ts = .ok lts) {f : Formula}
    (hids : f.binderIds.Nodup) (hover : Bindings.Over n bindings)
    (hcovered : ∀ x ∈ f.freeOccurrences, x ∈ bindings) (logging : Bool) :
    ∃ states p' run,
      eval lts (roundLimit lts) f.analyze bindings f []
        (Progress.initial logging (initial lts f.scoping.binders)) = .ok states p' ∧
      evalInPlace lts (roundLimit lts) f.analyze bindings f
        (Progress.initial true ⟨initial lts f.scoping.binders, [], []⟩) =
          .ok states ⟨p'.counters, some (run.map Moment.event).toArray,
            p'.memory, [], run.map Moment.memory⟩ ∧
      (solve lts f f.analyze bindings logging).result = .ok ⟨states, p'.counters⟩ ∧
      (solve lts f f.analyze bindings logging).log =
        (if logging then
          run.map Moment.event ++ [.finished .emersonLei p'.counters states.size] else []) ∧
      Noted (Progress.initial logging (initial lts f.scoping.binders)) (run.map Moment.event) p' ∧
      Trace n ts lts none f (initial lts f.scoping.binders) states run p'.memory := by
  have hx := Bindings.missing?_eq_none.2 hcovered
  obtain ⟨states, p', hrun, hresult, -⟩ := run_returns hlts hids hover hx logging
  -- the run in place keeps a log in any case
  have hends := evalInPlace_matches lts (roundLimit lts) f.analyze bindings (.optional logging) f []
    (Progress.initial logging (initial lts f.scoping.binders))
    (Progress.initial true ⟨initial lts f.scoping.binders, [], []⟩)
    ⟨rfl, by cases logging <;> rfl, rfl, rfl⟩
  rw [hrun] at hends
  obtain ⟨q', hrun', hcounters, hevents, happroximations, hscope⟩ := hends.ok_left
  obtain ⟨run, hpassed, htrace⟩ := traced hlts (lt_roundLimit hlts) hover f rfl
    (fits_analyze hids hcovered) (prepared_initial (Lts.stateCount_eq hlts) hids) hrun'
  have hlog : q'.events = some (run.map Moment.event).toArray := by
    simpa [Progress.initial] using hpassed.noted.events
  have hnoted : Noted (Progress.initial logging (initial lts f.scoping.binders))
      (run.map Moment.event) p' := by
    refine ⟨?_, ?_, ?_⟩
    · rw [hcounters]
      exact hpassed.noted.iterations
    · rw [hcounters]
      exact hpassed.noted.resets
    · rw [hevents, hlog]
      cases logging <;> simp [Progress.initial]
  have hstack : q'.memory.stack = [] := List.reverse_eq_nil_iff.1 hscope
  have hend : q' = ⟨p'.counters, some (run.map Moment.event).toArray,
      p'.memory, [], run.map Moment.memory⟩ := by
    rw [hcounters, ← hlog, ← happroximations, ← hstack]
    exact congrArg (fun history => (⟨q'.counters, q'.events, q'.memory.approximations,
      q'.memory.stack, history⟩ : Progress Workspace)) hpassed.history
  refine ⟨states, p', run, hrun, hend ▸ hrun', hresult, ?_, hnoted, happroximations ▸ htrace⟩
  rw [solve, find?_scoping_free, hx]
  refine (report_log_of_ok .emersonLei hrun).trans ?_
  rw [hnoted.events]
  cases logging <;> simp [Progress.initial]

end EmersonLei

end Solver

end ModalMu
