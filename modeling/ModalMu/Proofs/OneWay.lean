import ModalMu.Proofs.Trace

/-!
# Approximations move one way between resets

A run is told as a path through its memories, one step for each event.

* `Step`, `Path` — what an event does to the memory: it leaves it alone, overwrites one
  approximation or sets some back. `Trace.path` says that the moments of an evaluation are a path;
* `Path.overwrites_le` — **as long as a fixpoint is not set back, its approximation is overwritten
  at most as often as there are states**, since every overwriting uses up a state that can still
  join or leave;
* `Visit`, `Trace.visited` — how often a loop is entered, and the rounds that it takes each time. A
  closed fixpoint has found its value after the first visit, and then it is only confirmed;
* `solve_one_way` — all of this about whole runs.
-/

namespace ModalMu

namespace Solver

namespace EmersonLei

variable {fits : Nat → Bool} {first n : Nat} {ts : List Transition} {lts : Lts}
  {bindings : Bindings} {outer : Option Kind} {k : Kind} {b : Binder} {body f : Formula}
  {m m₁ m' : Approximations} {g : Fixpoint} {s : StateSet}
  {run : List Moment}

/-! ### Steps -/

/-- **What an event of a run of `f` does to the memory.** -/
inductive Step (n : Nat) (lts : Lts) (f : Formula) :
    Approximations → Event → Approximations → Prop where
  /-- the value is the stored one: a loop begins with it or ends with it -/
  | keep {m : Approximations} {b : Binder} {i : Nat} {value : StateSet}
    (hstored : m[b.id]? = some value) : Step n lts f m (.approximation b i value) m
  /-- a round overwrites the stored value of its fixpoint with one further on -/
  | overwrite {m : Approximations} {g : Fixpoint} {i : Nat} {old value : StateSet}
    (hg : g ∈ f.fixpoints) (hstored : m[g.binder.id]? = some old)
    (hmoves : g.kind.StrictlyBefore (old.toSet n) (value.toSet n)) :
    Step n lts f m (.approximation g.binder i value) (m.insert g.binder.id value)
  /-- on entering a fixpoint, open ones of its kind are set back -/
  | setBack {m : Approximations} {g : Fixpoint} {ids : List Nat}
    (hids : ∀ id ∈ ids, ∃ h ∈ f.fixpoints, h.isOpen = true ∧ h.kind = g.kind ∧ h.binder.id = id) :
    Step n lts f m (.entering g.binder ids) (setBack lts g.kind ids m)

namespace Moment

/-- Whether the stored value of a fixpoint is overwritten with another one. -/
def overwrites (b : Binder) (q : Moment) : Bool :=
  match q.event with
  | .approximation c _ value => c == b && q.memory[b.id]? != some value
  | _ => false

/-- Whether a fixpoint is set back. -/
def resets (id : Nat) (q : Moment) : Bool :=
  match q.event with
  | .entering _ ids => ids.contains id
  | _ => false

end Moment

/-- **A path through the memories of a run**, one step after the other. -/
inductive Path (n : Nat) (lts : Lts) (f : Formula) :
    Approximations → List Moment → Approximations → Prop where
  | nil {m : Approximations} : Path n lts f m [] m
  | cons {m m₁ m' : Approximations} {e : Event} {run : List Moment}
    (hstep : Step n lts f m e m₁) (hrest : Path n lts f m₁ run m') :
    Path n lts f m (⟨m, e⟩ :: run) m'

namespace Path

variable {run run' : List Moment}

theorem single {e : Event} (h : Step n lts f m e m') : Path n lts f m [⟨m, e⟩] m' := .cons h .nil

theorem append (h : Path n lts f m run m₁) (h' : Path n lts f m₁ run' m') :
    Path n lts f m (run ++ run') m' := by
  induction h with
  | nil => exact h'
  | cons hstep _ ih => exact .cons hstep (ih h')

theorem split (h : Path n lts f m (run ++ run') m') :
    ∃ m₁, Path n lts f m run m₁ ∧ Path n lts f m₁ run' m' := by
  induction run generalizing m with
  | nil => exact ⟨m, .nil, h⟩
  | cons q run ih =>
    obtain _ | ⟨hstep, hrest⟩ := h
    obtain ⟨m₁, hrun, hrun'⟩ := ih hrest
    exact ⟨m₁, .cons hstep hrun, hrun'⟩

/-- Every moment of a path is a step. -/
theorem step_of_mem (h : Path n lts f m run m') {q : Moment} (hq : q ∈ run) :
    ∃ m₁, Step n lts f q.memory q.event m₁ := by
  induction h with
  | nil => cases hq
  | cons hstep _ ih =>
    rcases List.mem_cons.1 hq with rfl | hq
    · exact ⟨_, hstep⟩
    · exact ih hq

end Path

/-! ### One fixpoint along a path -/

/-- **One step** that does not set a fixpoint back either leaves its approximation alone, or
overwrites it and uses up a state. -/
theorem Step.overwrites_le (hids : f.binderIds.Nodup) (hg : g ∈ f.fixpoints) {e : Event}
    (h : Step n lts f m e m') (hreset : (⟨m, e⟩ : Moment).resets g.binder.id = false) :
    (if (⟨m, e⟩ : Moment).overwrites g.binder then 1 else 0) +
        g.kind.remaining (value n m' g.binder.id) ≤ g.kind.remaining (value n m g.binder.id) := by
  cases h with
  | @keep b i value hstored =>
    have hkeeps : (⟨m, .approximation b i value⟩ : Moment).overwrites g.binder = false := by
      by_cases hb : b = g.binder
      · subst hb
        simp [Moment.overwrites, hstored]
      · simp [Moment.overwrites, hb]
    simp [hkeeps]
  | @overwrite h i old value hh hstored hmoves =>
    by_cases hid : h.binder.id = g.binder.id
    · obtain rfl := Formula.eq_of_id_eq hids hh hg hid
      rw [value_eq Std.TreeMap.getElem?_insert_self, value_eq hstored]
      have hlt := hmoves.remaining_lt
      split <;> omega
    · have hne : h.binder ≠ g.binder := fun he => hid (congrArg Binder.id he)
      have hother : (⟨m, .approximation h.binder i value⟩ : Moment).overwrites g.binder = false :=
        by simp [Moment.overwrites, hne]
      rw [value_congr (getElem?_insert_of_ne (Ne.symm hid) value), hother]
      simp
  | @setBack h ids _ =>
    have hnot : g.binder.id ∉ ids := by simpa [Moment.resets] using hreset
    have hsame : (EmersonLei.setBack lts h.kind ids m)[g.binder.id]? = m[g.binder.id]? := by
      rw [getElem?_setBack, if_neg hnot]
    rw [value_congr hsame]
    simp [Moment.overwrites]

/-- **Between resets** every overwriting uses up a state. -/
theorem Path.overwrites_le (hids : f.binderIds.Nodup) (hg : g ∈ f.fixpoints) {run : List Moment}
    (h : Path n lts f m run m') (hreset : ∀ q ∈ run, q.resets g.binder.id = false) :
    run.countP (·.overwrites g.binder) + g.kind.remaining (value n m' g.binder.id) ≤
      g.kind.remaining (value n m g.binder.id) := by
  induction h with
  | nil => simp
  | cons hstep _ ih =>
    have hfirst := hstep.overwrites_le hids hg (hreset _ List.mem_cons_self)
    have hrest := ih fun q hq => hreset q (List.mem_cons_of_mem _ hq)
    rw [List.countP_cons]
    omega

/-! ### The path of an evaluation -/

/-- The path of a loop, put together from those of its body. -/
theorem Rounds.path {E : Approximations → StateSet → List Moment → Approximations → Prop} {i : Nat}
    {current : StateSet} (h : Rounds n g.kind g.binder E i current m s run m')
    (hg : g ∈ f.fixpoints)
    (hE : ∀ m s run m', E m s run m' → m'[g.binder.id]? = m[g.binder.id]? ∧ Path n lts f m run m')
    (hm : m[g.binder.id]? = some current) : Path n lts f m run m' := by
  induction h with
  | rest hbody =>
    obtain ⟨hsame, hpath⟩ := hE _ _ _ _ hbody
    exact hpath.append (.single (.keep (hsame.trans hm)))
  | move hbody hmoves _ ih =>
    obtain ⟨hsame, hpath⟩ := hE _ _ _ _ hbody
    exact hpath.append (.cons (.overwrite hg (hsame.trans hm) hmoves)
      (ih Std.TreeMap.getElem?_insert_self))

/-- **The moments of an evaluation are a path.** -/
theorem Trace.path {f' : Formula} (h : Trace n ts lts outer f' m s run m')
    (hids : f'.binderIds.Nodup) (hparts : f'.fixpoints ⊆ f.fixpoints) : Path n lts f m run m' := by
  induction f' generalizing outer m s run m' with
  | tt | ff | var _ =>
    obtain ⟨rfl, rfl⟩ := h
    exact .nil
  | and l r ihl ihr | or l r ihl ihr =>
    obtain ⟨a, run₁, m₁, b, run₂, hl, hr, rfl⟩ := h
    obtain ⟨hidsl, hidsr, -⟩ := Formula.nodup_binderIds_and.1 hids
    have hpath₁ := ihl hl hidsl fun g hg => hparts (List.mem_append_left _ hg)
    have hpath₂ := ihr hr hidsr fun g hg => hparts (List.mem_append_right _ hg)
    exact hpath₁.append hpath₂
  | dia a f' ih | box a f' ih =>
    obtain ⟨a, hf⟩ := h
    exact ih hf hids hparts
  | fix k b body ih =>
    obtain ⟨run₀, m₁, start, run₁, henters, hstart, hrounds, rfl, -⟩ := h
    obtain ⟨hidsb, hself⟩ := Formula.nodup_binderIds_fix.1 hids
    have hg : (⟨k, b, body⟩ : Fixpoint) ∈ f.fixpoints := hparts Formula.self_mem_fixpoints
    have henter : Path n lts f m run₀ m₁ := by
      cases henters with
      | fresh _ | idle _ _ => exact .nil
      | anew _ _ =>
        refine .single (.setBack fun id hid => ?_)
        obtain ⟨h, hh, hopen, hkind, hid⟩ := mem_stale.1 hid
        exact ⟨h, hparts hh, hopen, hkind, hid⟩
    have hloop := Rounds.path (g := ⟨k, b, body⟩) hrounds hg
      (fun m s run m' htrace => ⟨htrace.unchanged b.id hself,
        ih htrace hidsb fun g hg => hparts (List.mem_append_left _ hg)⟩) hstart
    exact henter.append (.cons (.keep hstart) hloop)

/-! ### Visits -/

/-- **A visit to a fixpoint**: the value that it is entered with, and the values of the rounds. -/
structure Visit where
  /-- the stored value -/
  start : StateSet
  /-- what the rounds gave -/
  rounds : List StateSet

/-- The values of a visit as they are noted, with their rounds. -/
def Visit.values (v : Visit) : List (StateSet × Nat) := (v.start :: v.rounds).zipIdx

/-- The value of a fixpoint that an event tells of, with its round. -/
def valueOf (b : Binder) : Event → Option (StateSet × Nat)
  | .approximation c round value => if c = b then some (value, round) else none
  | _ => none

/-- The memory has what a closed fixpoint stands for. -/
def Found (n : Nat) (ts : List Transition) (g : Fixpoint) (m : Approximations) : Prop :=
  ∃ s, m[g.binder.id]? = some s ∧
    s.Represents (g.kind.fixpoint (g.operator ts fun _ : Var => (∅ : Set (Fin n))))

/-- **What visits to a fixpoint amount to.** -/
structure Settles (n : Nat) (ts : List Transition) (g : Fixpoint) (m : Approximations)
    (visits : List Visit) (m' : Approximations) : Prop where
  /-- none is longer than one round more than there are states -/
  rounds : ∀ v ∈ visits, 0 < v.rounds.length ∧ v.rounds.length ≤ n + 1
  /-- what was found of a closed fixpoint is only confirmed -/
  keeps : g.isOpen = false → Found n ts g m →
    Found n ts g m' ∧ ∀ v ∈ visits, v.rounds.length = 1
  /-- what a closed fixpoint stands for is found in the first visit -/
  finds : g.isOpen = false → visits ≠ [] →
    Found n ts g m' ∧ ∀ v ∈ visits.tail, v.rounds.length = 1

/-- **The moments tell of visits to a fixpoint**, and nothing else of it. -/
def Visited (n : Nat) (ts : List Transition) (g : Fixpoint) (m : Approximations) (run : List Moment)
    (m' : Approximations) : Prop :=
  ∃ visits, run.filterMap (fun q => valueOf g.binder q.event) = visits.flatMap Visit.values ∧
    Settles n ts g m visits m'

namespace Visited

variable {run' : List Moment}

/-- What happens elsewhere. -/
theorem none (hvalues : run.filterMap (fun q => valueOf g.binder q.event) = [])
    (hm : g.isOpen = false → m'[g.binder.id]? = m[g.binder.id]?) : Visited n ts g m run m' := by
  refine ⟨[], hvalues, ⟨by simp, ?_, fun _ h => absurd rfl h⟩⟩
  rintro hclosed ⟨s, hs, hrep⟩
  exact ⟨⟨s, (hm hclosed).trans hs, hrep⟩, by simp⟩

theorem append (h : Visited n ts g m run m₁) (h' : Visited n ts g m₁ run' m') :
    Visited n ts g m (run ++ run') m' := by
  obtain ⟨visits, hvalues, hsettles⟩ := h
  obtain ⟨visits', hvalues', hsettles'⟩ := h'
  refine ⟨visits ++ visits', ?_, ?_, ?_, ?_⟩
  · rw [List.filterMap_append, hvalues, hvalues', List.flatMap_append]
  · intro v hv
    exact (List.mem_append.1 hv).elim (hsettles.rounds v) (hsettles'.rounds v)
  · intro hclosed hfound
    obtain ⟨hfound₁, hone⟩ := hsettles.keeps hclosed hfound
    obtain ⟨hfound', hone'⟩ := hsettles'.keeps hclosed hfound₁
    exact ⟨hfound', fun v hv => (List.mem_append.1 hv).elim (hone v) (hone' v)⟩
  · intro hclosed hne
    rcases visits with _ | ⟨v, visits⟩
    · exact hsettles'.finds hclosed hne
    · obtain ⟨hfound₁, hone⟩ := hsettles.finds hclosed (List.cons_ne_nil _ _)
      obtain ⟨hfound', hone'⟩ := hsettles'.keeps hclosed hfound₁
      exact ⟨hfound', fun v hv => (List.mem_append.1 hv).elim (hone v) (hone' v)⟩

end Visited

/-! ### The visits of an evaluation -/

theorem Enters.valueOf_eq_nil (h : Enters lts outer g m run m') (c : Binder) :
    run.filterMap (fun q => valueOf c q.event) = [] := by
  cases h with
  | fresh _ | idle _ _ => rfl
  | anew _ _ => rfl

theorem valueOf_of_ne {c : Binder} (h : b ≠ c) (i : Nat) (value : StateSet) :
    valueOf c (.approximation b i value) = none := if_neg h

theorem valueOf_self (b : Binder) (i : Nat) (value : StateSet) :
    valueOf b (.approximation b i value) = some (value, i) := if_pos rfl

namespace Rounds

variable {E : Approximations → StateSet → List Moment → Approximations → Prop} {i : Nat}
  {current : StateSet}

/-- The loop of another fixpoint tells what its body tells. -/
theorem valueOf_eq_nil {c : Binder} (h : Rounds n k b E i current m s run m') (hne : b ≠ c)
    (hE : ∀ m s run m', E m s run m' → run.filterMap (fun q => valueOf c q.event) = []) :
    run.filterMap (fun q => valueOf c q.event) = [] := by
  induction h with
  | rest hbody => simp [hE _ _ _ _ hbody, valueOf_of_ne hne]
  | move hbody _ _ ih => simp [hE _ _ _ _ hbody, valueOf_of_ne hne, ih]

theorem visited (h : Rounds n k b E i current m s run m') (hne : b.id ≠ g.binder.id)
    (hE : ∀ m s run m', E m s run m' → Visited n ts g m run m') : Visited n ts g m run m' := by
  have hb : b ≠ g.binder := fun he => hne (congrArg Binder.id he)
  induction h with
  | rest hbody =>
    refine (hE _ _ _ _ hbody).append (.none ?_ fun _ => rfl)
    simp [valueOf_of_ne hb]
  | @move i _ next _ _ m₁ _ _ _ hbody _ _ ih =>
    have hstore : Visited n ts g m₁ [⟨m₁, .approximation b i next⟩] (m₁.insert b.id next) :=
      .none (by simp [valueOf_of_ne hb]) fun _ => getElem?_insert_of_ne (Ne.symm hne) next
    exact (hE _ _ _ _ hbody).append (hstore.append ih)

/-- **The loop's own values**: each but the last one uses up a state. -/
theorem values (h : Rounds n k b E i current m s run m')
    (hE : ∀ m s run m', E m s run m' → run.filterMap (fun q => valueOf b q.event) = []) :
    ∃ rounds : List StateSet, run.filterMap (fun q => valueOf b q.event) = rounds.zipIdx i ∧
      0 < rounds.length ∧
      rounds.length + k.remaining (s.toSet n) ≤ k.remaining (current.toSet n) + 1 := by
  induction h with
  | @rest i current _ _ _ hbody =>
    refine ⟨[current], ?_, Nat.one_pos, by simp [Nat.add_comm]⟩
    simp [hE _ _ _ _ hbody, valueOf_self]
  | @move i current next _ _ _ _ _ _ hbody hmoves _ ih =>
    obtain ⟨rounds, hrounds, -, hle⟩ := ih
    refine ⟨next :: rounds, ?_, Nat.succ_pos _, ?_⟩
    · simp [hE _ _ _ _ hbody, valueOf_self, hrounds]
    · have hlt := hmoves.remaining_lt
      simp only [List.length_cons]
      omega

end Rounds

/-- An evaluation tells of the formula's own fixpoints only. -/
theorem Trace.valueOf_eq_nil {c : Binder} (h : Trace n ts lts outer f m s run m')
    (hc : c.id ∉ f.binderIds) : run.filterMap (fun q => valueOf c q.event) = [] := by
  induction f generalizing outer m s run m' with
  | tt | ff | var _ =>
    obtain ⟨rfl, -⟩ := h
    rfl
  | and l r ihl ihr | or l r ihl ihr =>
    obtain ⟨a, run₁, m₁, b, run₂, hl, hr, rfl⟩ := h
    rw [List.filterMap_append, ihl hl fun hid => hc (Formula.mem_binderIds_left hid),
      ihr hr fun hid => hc (Formula.mem_binderIds_right hid), List.append_nil]
  | dia a f ih | box a f ih =>
    obtain ⟨a, hf⟩ := h
    exact ih hf hc
  | fix k b body ih =>
    obtain ⟨run₀, m₁, start, run₁, henters, -, hrounds, rfl, -⟩ := h
    have hne : b ≠ c := by
      rintro rfl
      exact hc Formula.self_mem_binderIds
    have hloop := hrounds.valueOf_eq_nil hne fun m s run m' htrace =>
      ih htrace fun hid => hc (Formula.mem_binderIds_body hid)
    simp [henters.valueOf_eq_nil, valueOf_of_ne hne, hloop]

/-- A visit to the fixpoint itself. -/
theorem Trace.visited_self (h : Trace n ts lts outer (.fix k b body) m s run m')
    (hids : (Formula.fix k b body).binderIds.Nodup) : Visited n ts ⟨k, b, body⟩ m run m' := by
  obtain ⟨-, hself⟩ := Formula.nodup_binderIds_fix.1 hids
  obtain ⟨run₀, m₁, start, run₁, henters, hstart, hrounds, rfl, ρ, hs⟩ := h
  obtain ⟨rounds, hvalues, hpos, hle⟩ :=
    hrounds.values fun m s run m' htrace => htrace.valueOf_eq_nil hself
  have hstored := hrounds.stored (fun m s run m' htrace => htrace.unchanged b.id hself) hstart
  have hfound : Fixpoint.isOpen ⟨k, b, body⟩ = false → s.Represents
      (k.fixpoint (Fixpoint.operator ts ⟨k, b, body⟩ fun _ : Var => (∅ : Set (Fin n)))) := by
    intro hclosed
    rw [Fixpoint.operator_eq_of_closed hclosed _ ρ]
    exact hs
  have hmax : rounds.length ≤ n + 1 := by
    have hall := k.remaining_le (start.toSet n)
    omega
  refine ⟨[⟨start, rounds⟩], ?_, List.forall_mem_singleton.2 ⟨hpos, hmax⟩, ?_, ?_⟩
  · simp [henters.valueOf_eq_nil, valueOf_self, hvalues, Visit.values]
  · rintro hclosed ⟨t, ht, hrep⟩
    -- the loop is entered with the value that it returns, so nothing can move
    have hsame :=
      henters.getElem?_eq (notMem_stale_of_closed hids Formula.self_mem_fixpoints hclosed)
    have hst : start = s := by
      rw [hsame, ht] at hstart
      cases hstart
      exact hrep.unique (hfound hclosed)
    have hone : rounds.length = 1 := by
      rw [hst] at hle
      omega
    exact ⟨⟨s, hstored, hfound hclosed⟩, List.forall_mem_singleton.2 hone⟩
  · exact fun hclosed _ => ⟨⟨s, hstored, hfound hclosed⟩, by simp⟩

theorem Trace.visited_of_notMem (h : Trace n ts lts outer f m s run m')
    (hnot : g.binder.id ∉ f.binderIds) : Visited n ts g m run m' :=
  .none (h.valueOf_eq_nil hnot) fun _ => h.unchanged _ hnot

/-- **Every evaluation makes visits** to the fixpoints of its formula. -/
theorem Trace.visited (h : Trace n ts lts outer f m s run m') (hids : f.binderIds.Nodup)
    (hg : g ∈ f.fixpoints) : Visited n ts g m run m' := by
  induction f generalizing outer m s run m' with
  | tt | ff | var _ => cases hg
  | and l r ihl ihr | or l r ihl ihr =>
    obtain ⟨a, run₁, m₁, b, run₂, hl, hr, rfl⟩ := h
    obtain ⟨hidsl, hidsr, hdisjoint⟩ := Formula.nodup_binderIds_and.1 hids
    rcases List.mem_append.1 hg with hg | hg
    · have hnot : g.binder.id ∉ r.binderIds := hdisjoint _ (List.mem_map_of_mem hg)
      exact (ihl hl hidsl hg).append (hr.visited_of_notMem hnot)
    · have hnot : g.binder.id ∉ l.binderIds := fun hid => hdisjoint _ hid (List.mem_map_of_mem hg)
      exact (hl.visited_of_notMem hnot).append (ihr hr hidsr hg)
  | dia a f ih | box a f ih =>
    obtain ⟨a, hf⟩ := h
    exact ih hf hids hg
  | fix k b body ih =>
    rcases List.mem_append.1 hg with hbody | hself
    · obtain ⟨hidsb, hself⟩ := Formula.nodup_binderIds_fix.1 hids
      obtain ⟨run₀, m₁, start, run₁, henters, -, hrounds, rfl, -⟩ := h
      have hne : b.id ≠ g.binder.id := fun he => hself (he ▸ List.mem_map_of_mem hbody)
      have hfirst : Visited n ts g m run₀ m₁ := .none (henters.valueOf_eq_nil _) fun hclosed =>
        henters.getElem?_eq (notMem_stale_of_closed hids hg hclosed)
      have hstart : Visited n ts g m₁ [⟨m₁, .approximation b 0 start⟩] m₁ := by
        refine .none ?_ fun _ => rfl
        simp [valueOf_of_ne fun he => hne (congrArg Binder.id he)]
      exact hfirst.append (hstart.append
        (hrounds.visited hne fun m s run m' htrace => ih htrace hidsb hbody))
    · rw [List.mem_singleton] at hself
      subst hself
      exact h.visited_self hids

/-! ### Whole runs -/

/-- **The approximations of a fixpoint move one way** during a run. -/
structure OneWay (n : Nat) (isOpen : Bool) (g : Fixpoint) (run : List Moment) : Prop where
  /-- a value is the stored one, or strictly further in the direction of the kind -/
  moves : ∀ q ∈ run, ∀ i value, q.event = .approximation g.binder i value →
    ∃ old, q.memory[g.binder.id]? = some old ∧
      (value = old ∨ g.kind.StrictlyBefore (old.toSet n) (value.toSet n))
  /-- while it is not set back, the stored value is overwritten no more often than there are
  states -/
  changes : ∀ part, part <:+: run → (∀ q ∈ part, q.resets g.binder.id = false) →
    part.countP (·.overwrites g.binder) ≤ n
  /-- every visit ends within one round more than there are states, and a closed fixpoint needs one
  round in every visit but the first -/
  visits : ∃ visits : List Visit,
    run.filterMap (fun q => valueOf g.binder q.event) = visits.flatMap Visit.values ∧
    (∀ v ∈ visits, 0 < v.rounds.length ∧ v.rounds.length ≤ n + 1) ∧
    (isOpen = false → ∀ v ∈ visits.tail, v.rounds.length = 1)
  /-- a closed fixpoint is never set back -/
  kept : isOpen = false → ∀ q ∈ run, q.resets g.binder.id = false

theorem Path.moves {run : List Moment} (h : Path n lts f m run m') (hids : f.binderIds.Nodup)
    (hg : g ∈ f.fixpoints) {q : Moment} (hq : q ∈ run) {i : Nat} {value : StateSet}
    (hevent : q.event = .approximation g.binder i value) :
    ∃ old, q.memory[g.binder.id]? = some old ∧
      (value = old ∨ g.kind.StrictlyBefore (old.toSet n) (value.toSet n)) := by
  obtain ⟨m₁, hstep⟩ := h.step_of_mem hq
  rw [hevent] at hstep
  generalize hb : g.binder = b at hstep
  cases hstep with
  | keep hstored => exact ⟨value, hb ▸ hstored, .inl rfl⟩
  | @overwrite h _ old _ hh hstored hmoves =>
    obtain rfl := Formula.eq_of_id_eq hids hh hg (congrArg Binder.id hb.symm)
    exact ⟨old, hstored, .inr hmoves⟩

theorem Path.kept {run : List Moment} (h : Path n lts f m run m') (hids : f.binderIds.Nodup)
    (hg : g ∈ f.fixpoints) (hclosed : g.isOpen = false) {q : Moment} (hq : q ∈ run) :
    q.resets g.binder.id = false := by
  obtain ⟨m₁, hstep⟩ := h.step_of_mem hq
  obtain ⟨memory, event⟩ := q
  cases hstep with
  | keep _ => rfl
  | overwrite _ _ _ => rfl
  | @setBack h ids hstale =>
    have hnot : g.binder.id ∉ ids := by
      intro hid
      obtain ⟨h, hh, hopen, -, hid⟩ := hstale _ hid
      rw [Formula.eq_of_id_eq hids hh hg hid, hclosed] at hopen
      cases hopen
    simpa [Moment.resets] using hnot

/-- **Emerson-Lei approximations move one way between resets.** The run takes a path from the
initial memory to the final one, and along it each fixpoint of the formula moves in the direction of
its kind. The events of the path are those that are counted and logged, and its memories are those
that the run in place has put on record, each when the event was noted. -/
theorem solve_one_way (hlts : Lts.build fits first n ts = .ok lts) {f : Formula}
    (hids : f.binderIds.Nodup) (hover : Bindings.Over n bindings)
    (hcovered : ∀ x ∈ f.freeOccurrences, x ∈ bindings) (logging : Bool) :
    ∃ states p' run,
      eval lts (roundLimit lts) f.analyze bindings f []
        (Progress.initial logging (initial lts f.scoping.binders)) = .ok states p' ∧
      evalInPlace lts (roundLimit lts) f.analyze bindings f
        (Progress.initial true ⟨initial lts f.scoping.binders, [], []⟩) =
          .ok states ⟨p'.counters, some (run.map Moment.event).toArray,
            p'.memory, [], run.map Moment.memory⟩ ∧
      (solve lts f f.analyze bindings logging).result = .ok ⟨states, p'.counters⟩ ∧
      (solve lts f f.analyze bindings logging).log =
        (if logging then
          run.map Moment.event ++ [.finished .emersonLei p'.counters states.size] else []) ∧
      Noted (Progress.initial logging (initial lts f.scoping.binders)) (run.map Moment.event) p' ∧
      Path n lts f (initial lts f.scoping.binders) run p'.memory ∧
      ∀ g ∈ f.fixpoints, OneWay n (f.analyze.isOpen g.binder.id) g run := by
  obtain ⟨states, p', run, hrun, hrecord, hresult, hlog, hnoted, htrace⟩ :=
    run_traced hlts hids hover hcovered logging
  have hpath := htrace.path hids (List.Subset.refl _)
  refine ⟨states, p', run, hrun, hrecord, hresult, hlog, hnoted, hpath, fun g hg => ?_⟩
  rw [Analysis.isOpen_analyze hids hg]
  refine ⟨fun q hq i value => hpath.moves hids hg hq, ?_, ?_, fun hclosed q hq =>
    hpath.kept hids hg hclosed hq⟩
  · rintro part ⟨before, after, rfl⟩ hreset
    obtain ⟨m₂, hfront, -⟩ := hpath.split
    obtain ⟨m₁, -, hpart⟩ := hfront.split
    have hle := hpart.overwrites_le hids hg hreset
    have hmax := g.kind.remaining_le (value n m₁ g.binder.id)
    omega
  · obtain ⟨visits, hvalues, hsettles⟩ := htrace.visited hids hg
    refine ⟨visits, hvalues, hsettles.rounds, fun hclosed v hv => ?_⟩
    refine (hsettles.finds hclosed ?_).2 v hv
    rintro rfl
    cases hv

/-- An open and a closed fixpoint inside one of the other kind, with a variable that the caller
gives a value, and no log. -/
theorem solve_one_way_nested :
    ∃ lts f bindings, Lts.ofTransitions 0 2 [⟨0, "a", 1⟩, ⟨1, "a", 0⟩] = .ok lts ∧
      f = .fix .least ⟨0, 'X'⟩ (.or
        (.fix .greatest ⟨1, 'Y'⟩ (.and (.dia "a" (.var 'X')) (.box "a" (.var 'Y'))))
        (.and (.var 'Z') (.fix .greatest ⟨2, 'W'⟩ (.dia "a" (.var 'W'))))) ∧
      bindings = (∅ : Bindings).insert 'Z' ((StateSet.empty 2).insert 1) ∧
      ∃ states p' run,
        eval lts (roundLimit lts) f.analyze bindings f []
          (Progress.initial false (initial lts f.scoping.binders)) = .ok states p' ∧
        evalInPlace lts (roundLimit lts) f.analyze bindings f
          (Progress.initial true ⟨initial lts f.scoping.binders, [], []⟩) =
            .ok states ⟨p'.counters, some (run.map Moment.event).toArray,
              p'.memory, [], run.map Moment.memory⟩ ∧
        (solve lts f f.analyze bindings false).result = .ok ⟨states, p'.counters⟩ ∧
        (solve lts f f.analyze bindings false).log = [] ∧
        Noted (Progress.initial false (initial lts f.scoping.binders)) (run.map Moment.event) p' ∧
        Path 2 lts f (initial lts f.scoping.binders) run p'.memory ∧
        ∀ g ∈ f.fixpoints, OneWay 2 (f.analyze.isOpen g.binder.id) g run := by
  obtain ⟨lts, hlts⟩ :
    ∃ lts, Lts.ofTransitions 0 2 [⟨0, "a", 1⟩, ⟨1, "a", 0⟩] = .ok lts := ⟨_, rfl⟩
  refine ⟨lts, _, _, hlts, rfl, rfl, solve_one_way hlts (by decide) ?_ ?_ false⟩
  · exact Bindings.Over.insert (fun x s hs => by simp at hs) 'Z' rfl
  · simp [Formula.freeOccurrences]

end EmersonLei

end Solver

end ModalMu
