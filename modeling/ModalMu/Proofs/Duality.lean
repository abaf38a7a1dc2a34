import ModalMu.Proofs.EmersonLei
import ModalMu.Proofs.Lockstep

/-!
# Duality

The dual of a formula swaps the constants, conjunction and disjunction, the two modalities and the
two kinds of fixpoint. Solving it with complemented values gives the complement, and both solvers
take exactly the same rounds and set back exactly the same fixpoints:

* `Formula.dual`, `StateSet.compl`, `Bindings.compl` — duals and complements;
* `info_dual` — the dependency analysis sees the same in a formula and in its dual, but for the
  kinds;
* `Opposed`, `Mirrored` — a value and its complement, and two maps of such values;
* `Naive.eval_dual`, `EmersonLei.eval_dual` — **the evaluation of the dual follows that of the
  formula**, round by round;
* `solve_dual` — the whole runs.
-/

namespace ModalMu

/-! ### Dual formulas -/

namespace Kind

theorem opposite_inj {j k : Kind} : j.opposite = k.opposite ↔ j = k := by
  cases j <;> cases k <;> decide

end Kind

/-- **The dual formula**: each construct is replaced by its counterpart, and binders stay. -/
def Formula.dual : Formula → Formula
  | .tt => .ff
  | .ff => .tt
  | .var x => .var x
  | .and l r => .or l.dual r.dual
  | .or l r => .and l.dual r.dual
  | .dia a f => .box a f.dual
  | .box a f => .dia a f.dual
  | .fix k b body => .fix k.opposite b body.dual

/-- The dual of a fixpoint node. -/
def Fixpoint.dual (g : Fixpoint) : Fixpoint := ⟨g.kind.opposite, g.binder, g.body.dual⟩

namespace Formula

@[simp] theorem fixpoints_dual (f : Formula) :
    f.dual.fixpoints = f.fixpoints.map Fixpoint.dual := by
  induction f with
  | tt | ff | var _ => rfl
  | and l r ihl ihr | or l r ihl ihr => simp [dual, fixpoints, ihl, ihr]
  | dia a f ih | box a f ih => exact ih
  | fix k b body ih => simp [dual, fixpoints, ih, Fixpoint.dual]

@[simp] theorem binderIds_dual (f : Formula) : f.dual.binderIds = f.binderIds := by
  rw [binderIds, fixpoints_dual, List.map_map]
  rfl

@[simp] theorem freeOccurrences_dual (f : Formula) :
    f.dual.freeOccurrences = f.freeOccurrences := by
  induction f with
  | tt | ff | var _ => rfl
  | and l r ihl ihr | or l r ihl ihr => simp [dual, freeOccurrences, ihl, ihr]
  | dia a f ih | box a f ih => exact ih
  | fix k b body ih => simp [dual, freeOccurrences, ih]

end Formula

namespace Fixpoint

@[simp] theorem isOpen_dual (g : Fixpoint) : g.dual.isOpen = g.isOpen := by
  have hfree : g.dual.toFormula.freeOccurrences = g.toFormula.freeOccurrences :=
    Formula.freeOccurrences_dual g.toFormula
  rw [isOpen, isOpen, Formula.freeVars_eq, Formula.freeVars_eq, hfree]

/-- **The analysis records the same of a node and of its dual**, apart from the kind. -/
theorem info_dual (g : Fixpoint) : g.dual.info = { g.info with kind := g.kind.opposite } := by
  have hinside : ∀ h : Fixpoint, (h.dual.isOpen && h.dual.kind == g.dual.kind) =
      (h.isOpen && h.kind == g.kind) := by
    intro h
    rw [isOpen_dual, Bool.eq_iff_iff]
    simp [dual, Kind.opposite_inj]
  have hids : (g.dual.body.fixpoints.filter fun h => h.isOpen && h.kind == g.dual.kind).map
      (·.binder.id) =
        (g.body.fixpoints.filter fun h => h.isOpen && h.kind == g.kind).map (·.binder.id) := by
    rw [dual, Formula.fixpoints_dual, List.filter_map, List.map_map]
    exact congrArg _ (List.filter_congr fun h _ => hinside h)
  simp only [info, outline, isOpen_dual, hids]
  rfl

end Fixpoint

/-! ### Complements -/

namespace StateSet

variable {n : Nat} {a b s t : StateSet}

/-- **The states of the universe that do not belong to the set.** -/
def compl (s : StateSet) : StateSet :=
  (full s.univ).zipWords s rfl (fun v w => v &&& ~~~w) (fun x y => x && !y) rfl fun _ _ _ => by simp

theorem contains_compl (s : StateSet) (i : Nat) :
    s.compl.contains i = (decide (i < s.univ) && !s.contains i) := by
  have hsize : (full s.univ).words.size = s.words.size := by
    rw [(full s.univ).size_words, s.size_words]
    rfl
  rw [← contains_full s.univ i]
  exact testAt_zipWith _ (fun x y => x && !y) rfl hsize (fun _ _ _ => by simp) i

theorem represents_compl (h : s.univ = n) : s.compl.Represents (s.toSet n)ᶜ := by
  refine ⟨h, ?_⟩
  ext i
  have hi : i.val < s.univ := h ▸ i.isLt
  rw [mem_toSet, mem_iff, contains_compl, Set.mem_compl_iff, mem_toSet, mem_iff]
  simp [hi]

/-- **Two sets over `n` states are complements of each other.** -/
structure Opposed (n : Nat) (s t : StateSet) : Prop where
  /-- the first set is over the `n` states -/
  univ : s.univ = n
  /-- the second one is its complement -/
  represents : t.Represents (s.toSet n)ᶜ

namespace Opposed

theorem of_represents {A : Set (Fin n)} (hs : s.Represents A) (ht : t.Represents Aᶜ) :
    Opposed n s t := ⟨hs.univ, hs.toSet.symm ▸ ht⟩

theorem symm (h : Opposed n s t) : Opposed n t s := by
  refine ⟨h.represents.univ, ?_⟩
  rw [h.represents.toSet, compl_compl]
  exact Represents.self h.univ

theorem eq_compl (h : Opposed n s t) : t = s.compl :=
  h.represents.unique (represents_compl h.univ)

/-- Complements are equal when the sets are. -/
theorem eq_iff (hs : Opposed n s t) (ha : Opposed n a b) : s = a ↔ t = b := by
  rw [hs.represents.eq_iff ha.represents, compl_inj_iff, toSet_inj hs.univ ha.univ]

theorem inter? {a' b' : StateSet} (ha : Opposed n a a') (hb : Opposed n b b')
    (h : a.inter? b = .ok s) : ∃ t, a'.union? b' = .ok t ∧ Opposed n s t := by
  obtain ⟨s', hs', hrep⟩ := (Represents.self ha.univ).inter? (Represents.self hb.univ)
  obtain ⟨t, ht, hrep'⟩ := ha.represents.union? hb.represents
  rw [h] at hs'
  obtain rfl := Except.ok.inj hs'
  rw [← Set.compl_inter] at hrep'
  exact ⟨t, ht, of_represents hrep hrep'⟩

theorem union? {a' b' : StateSet} (ha : Opposed n a a') (hb : Opposed n b b')
    (h : a.union? b = .ok s) : ∃ t, a'.inter? b' = .ok t ∧ Opposed n s t := by
  obtain ⟨t, ht, -⟩ := ha.represents.inter? hb.represents
  obtain ⟨s', hs', hopposed⟩ := ha.symm.inter? hb.symm ht
  rw [h] at hs'
  obtain rfl := Except.ok.inj hs'
  exact ⟨t, ht, hopposed.symm⟩

end Opposed

end StateSet

namespace Lts

open StateSet (Opposed)

variable {fits : Nat → Bool} {first n : Nat} {ts : List Transition} {lts : Lts} {s t : StateSet}

theorem opposed_fullSet (h : lts.stateCount = n) : Opposed n lts.fullSet lts.emptySet := by
  subst h
  refine .of_represents StateSet.represents_full ?_
  rw [Set.compl_univ]
  exact StateSet.represents_empty

/-- A member of the complement is a state that is not a member. -/
theorem mem_of_opposed (h : Opposed n s t) {i : Nat} (hi : i < n) : i ∈ t ↔ i ∉ s :=
  h.represents.mem_iff ⟨i, hi⟩

/-- **Some step leads into a set unless all steps lead into its complement.** -/
theorem opposed_diamond (hlts : build fits first n ts = .ok lts) (action : String)
    (h : Opposed n s t) : Opposed n (lts.diamond action s) (lts.box action t) := by
  have hcount := stateCount_eq hlts
  refine ⟨(univ_diamond action s).trans hcount, (univ_box action t).trans hcount, ?_⟩
  ext i
  rw [Set.mem_compl_iff, StateSet.mem_toSet, StateSet.mem_toSet, mem_diamond hlts,
    mem_box hlts h.represents.univ, not_exists]
  refine ⟨?_, ?_⟩
  · rintro ⟨-, hall⟩ j ⟨hstep, hj⟩
    exact (mem_of_opposed h (target_lt hlts hstep)).1 (hall j hstep) hj
  · intro hnone
    refine ⟨i.isLt, fun j hstep => ?_⟩
    rw [mem_of_opposed h (target_lt hlts hstep)]
    exact fun hj => hnone j ⟨hstep, hj⟩

/-- **All steps lead into a set unless some step leads into its complement.** -/
theorem opposed_box (hlts : build fits first n ts = .ok lts) (action : String)
    (h : Opposed n s t) : Opposed n (lts.box action s) (lts.diamond action t) :=
  (opposed_diamond hlts action h.symm).symm

end Lts

/-! ### Two runs -/

namespace Solver

open StateSet (Opposed)

variable {fits : Nat → Bool} {first n limit : Nat} {ts : List Transition} {lts : Lts}

/-- The caller's values, complemented. -/
def Bindings.compl (bindings : Bindings) : Bindings := bindings.map fun _ s => s.compl

theorem opposed_startValue (h : lts.stateCount = n) (k : Kind) :
    Opposed n (startValue lts k) (startValue lts k.opposite) := by
  cases k with
  | least => exact (Lts.opposed_fullSet h).symm
  | greatest => exact Lts.opposed_fullSet h

section

variable {κ ι : Type} [Ord κ] [Std.TransOrd κ] {m m' : Std.TreeMap κ StateSet}

/-- **Whatever a map holds, the other one holds its complement.** -/
def Mirrored (n : Nat) (m m' : Std.TreeMap κ StateSet) : Prop :=
  ∀ (x : κ) (s : StateSet), m[x]? = some s → ∃ t, m'[x]? = some t ∧ Opposed n s t

theorem Mirrored.insert (h : Mirrored n m m') (x : κ) {s t : StateSet} (hst : Opposed n s t) :
    Mirrored n (m.insert x s) (m'.insert x t) := by
  intro y u hu
  rw [Std.TreeMap.getElem?_insert] at hu ⊢
  split at hu
  · rename_i hxy
    obtain rfl := Option.some.inj hu
    rw [if_pos hxy]
    exact ⟨t, rfl, hst⟩
  · rename_i hxy
    rw [if_neg hxy]
    exact h y u hu

/-- Several entries at once. -/
theorem Mirrored.foldl_insert (h : Mirrored n m m') (entries : List ι) (key : ι → κ)
    {value value' : ι → StateSet} (hvalue : ∀ i, Opposed n (value i) (value' i)) :
    Mirrored n (entries.foldl (fun m i => m.insert (key i) (value i)) m)
      (entries.foldl (fun m' i => m'.insert (key i) (value' i)) m') := by
  induction entries generalizing m m' with
  | nil => exact h
  | cons i entries ih => exact ih (h.insert (key i) (hvalue i))

end

theorem mirrored_compl {bindings : Bindings} (h : Bindings.Over n bindings) :
    Mirrored n bindings bindings.compl := by
  intro x s hs
  refine ⟨s.compl, ?_, h x s hs, StateSet.represents_compl (h x s hs)⟩
  rw [Bindings.compl, Std.TreeMap.getElem?_map, hs]
  rfl

/-- **Naive evaluation of the dual** under complemented values takes the same rounds. -/
theorem Naive.eval_dual (hlts : Lts.build fits first n ts = .ok lts) (f : Formula)
    {env env' : Bindings} (henv : Mirrored n env env') :
    Follows (Alike fun _ _ => True) (Opposed n) (Naive.eval lts limit f env)
      (Naive.eval lts limit f.dual env') := by
  have hcount := Lts.stateCount_eq hlts
  induction f generalizing env env' with
  | tt => exact .pure (Lts.opposed_fullSet hcount)
  | ff => exact .pure (Lts.opposed_fullSet hcount).symm
  | var x => exact .require (henv x)
  | and l r ihl ihr =>
    refine (ihl henv).bind fun a a' ha => (ihr henv).bind fun b b' hb => ?_
    exact .combine fun s hs => ha.inter? hb hs
  | or l r ihl ihr =>
    refine (ihl henv).bind fun a a' ha => (ihr henv).bind fun b b' hb => ?_
    exact .combine fun s hs => ha.union? hb hs
  | dia a f ih => exact (ih henv).bind fun s t h => .pure (Lts.opposed_diamond hlts a h)
  | box a f ih => exact (ih henv).bind fun s t h => .pure (Lts.opposed_box hlts a h)
  | fix k b body ih =>
    refine (follows_countResets 1).bind fun _ _ _ => (follows_note _ _).bind fun _ _ _ => ?_
    refine settle_follows ?_ ?_ ?_ ?_ limit 1 (opposed_startValue hcount k)
    · exact fun p q round s t hpq _ => hpq.endRound b b round s t
    · exact fun s t s' t' h h' => h.eq_iff h'
    · exact fun s t h => ih (henv.insert b.var h)
    · exact fun s t _ => .pure trivial

namespace EmersonLei

variable {analysis analysis' : Analysis} {bindings bindings' : Bindings} {k : Kind} {b : Binder}

/-- The enclosing fixpoints of a dual formula. -/
def Scope.dual (scope : Scope) : Scope := scope.map fun e => (e.1, e.2.opposite)

/-- **A variable of the dual has the complement as its value.** -/
theorem lookup_dual (hb : Mirrored n bindings bindings') (scope : Scope) (x : Var) :
    Follows (Alike (Mirrored n)) (Opposed n) (lookup bindings scope x)
      (lookup bindings' scope.dual x) := by
  have hfind : scope.dual.find? (·.1.var == x) =
      (scope.find? (·.1.var == x)).map fun e => (e.1, e.2.opposite) := List.find?_map
  rw [lookup, lookup, hfind]
  rcases hentry : scope.find? (·.1.var == x) with _ | e
  · rw [hentry]
    exact .require (hb x)
  · rw [hentry]
    refine (Follows.memory (A := Mirrored n) fun _ _ h => h.memory).bind fun m m' hm => ?_
    exact .require (hm e.1.id)

/-- **The same fixpoints are set back** on entering the dual of a fixpoint. -/
theorem refresh_dual (hcount : lts.stateCount = n) (scope : Scope) {info info' : BinderInfo}
    (hstale : stale b info' = stale b info) :
    Follows (Alike (Mirrored n)) (fun _ _ => True) (refresh lts scope k b info)
      (refresh lts scope.dual k.opposite b info') := by
  have hkind : scope.dual.head?.any (·.2 ≠ k.opposite) = scope.head?.any (·.2 ≠ k) := by
    rw [Scope.dual, List.head?_map, Option.any_map]
    simp only [ne_eq, Kind.opposite_inj]
  rw [refresh, refresh, hkind, hstale]
  split
  · rw [reset, reset]
    refine (follows_remember ?_).bind fun _ _ _ => (follows_countResets _).bind fun _ _ _ => ?_
    · exact fun m m' hm => hm.foldl_insert _ id fun _ => opposed_startValue hcount k
    · split
      · exact .pure trivial
      · exact follows_note _ _
  · exact .pure trivial

/-- **Emerson-Lei evaluation of the dual** takes the same rounds and sets back the same
fixpoints. -/
theorem eval_dual (hlts : Lts.build fits first n ts = .ok lts)
    (hb : Mirrored n bindings bindings') {f : Formula} (hf : analysis.Describes f)
    (hf' : analysis'.Describes f.dual) (scope : Scope) :
    Follows (Alike (Mirrored n)) (Opposed n) (eval lts limit analysis bindings f scope)
      (eval lts limit analysis' bindings' f.dual scope.dual) := by
  have hcount := Lts.stateCount_eq hlts
  induction f generalizing scope with
  | tt => exact .pure (Lts.opposed_fullSet hcount)
  | ff => exact .pure (Lts.opposed_fullSet hcount).symm
  | var x => exact lookup_dual hb scope x
  | and l r ihl ihr =>
    have hl := ihl (hf.mono (List.subset_append_left _ _))
      (hf'.mono (List.subset_append_left _ _)) scope
    have hr := ihr (hf.mono (List.subset_append_right _ _))
      (hf'.mono (List.subset_append_right _ _)) scope
    exact hl.bind fun a a' ha => hr.bind fun b b' hb => .combine fun s hs => ha.inter? hb hs
  | or l r ihl ihr =>
    have hl := ihl (hf.mono (List.subset_append_left _ _))
      (hf'.mono (List.subset_append_left _ _)) scope
    have hr := ihr (hf.mono (List.subset_append_right _ _))
      (hf'.mono (List.subset_append_right _ _)) scope
    exact hl.bind fun a a' ha => hr.bind fun b b' hb => .combine fun s hs => ha.union? hb hs
  | dia a f ih =>
    exact (ih hf hf' scope).bind fun s t h => .pure (Lts.opposed_diamond hlts a h)
  | box a f ih =>
    exact (ih hf hf' scope).bind fun s t h => .pure (Lts.opposed_box hlts a h)
  | fix k b body ih =>
    have hinfo : ∀ info, annotation? analysis k b = some info →
        ∃ info', annotation? analysis' k.opposite b = some info' ∧
          stale b info' = stale b info := by
      intro info h
      rw [annotation?_of_describes hf] at h
      obtain rfl := Option.some.inj h
      refine ⟨(Fixpoint.dual ⟨k, b, body⟩).info, annotation?_of_describes hf', ?_⟩
      rw [Fixpoint.info_dual]
      rfl
    refine (Follows.require hinfo).bind fun info info' hstale => ?_
    refine (refresh_dual hcount scope hstale).bind fun _ _ _ => ?_
    refine (Follows.memory (A := Mirrored n) fun _ _ h => h.memory).bind fun m m' hm => ?_
    refine (Follows.require (hm b.id)).bind fun start start' hstart => ?_
    refine (follows_note _ _).bind fun _ _ _ => ?_
    refine settle_follows ?_ ?_ ?_ ?_ limit 1 hstart
    · exact fun p q round s t hpq _ => hpq.endRound b b round s t
    · exact fun s t s' t' h h' => h.eq_iff h'
    · intro s t _
      exact ih (hf.mono (List.subset_append_left _ _)) (hf'.mono (List.subset_append_left _ _))
        ((b, k) :: scope)
    · exact fun s t h => follows_remember fun m m' hm => hm.insert b.id h

/-- At the beginning every fixpoint of the dual is at the opposite end. -/
theorem mirrored_initial (hcount : lts.stateCount = n) (f : Formula) :
    Mirrored n (initial lts f.scoping.binders) (initial lts f.dual.scoping.binders) := by
  rw [Formula.scoping_binders, Formula.scoping_binders, Formula.fixpoints_dual, List.map_map,
    initial, initial, List.foldl_map, List.foldl_map]
  refine Mirrored.foldl_insert ?_ f.fixpoints (·.binder.id) fun g =>
    opposed_startValue hcount g.kind
  intro id s hs
  simp at hs

end EmersonLei

/-- **Solving the dual** with complemented values gives the complement, and counts the same. -/
theorem solve_dual (hlts : Lts.build fits first n ts = .ok lts) {f : Formula}
    (hids : f.binderIds.Nodup) {bindings : Bindings} (hover : Bindings.Over n bindings)
    (hcover : ∀ x ∈ f.freeOccurrences, x ∈ bindings) (logging logging' : Bool) :
    (∃ states counters,
      (Naive.solve lts f bindings logging).result = .ok ⟨states, counters⟩ ∧
      (Naive.solve lts f.dual bindings.compl logging').result = .ok ⟨states.compl, counters⟩) ∧
    ∃ states counters,
      (EmersonLei.solve lts f f.analyze bindings logging).result = .ok ⟨states, counters⟩ ∧
      (EmersonLei.solve lts f.dual f.dual.analyze bindings.compl logging').result =
        .ok ⟨states.compl, counters⟩ := by
  have hmirrored := mirrored_compl hover
  refine ⟨?_, ?_⟩
  · obtain ⟨states, p', hrun, hresult, -⟩ := Naive.solve_returns hlts f hover hcover logging
    obtain ⟨states', q', hresult', hopposed, halike⟩ := report_follows .naive
      (Naive.eval_dual hlts f hmirrored) (Alike.initial trivial logging logging') hrun
    refine ⟨states, p'.counters, hresult, ?_⟩
    rw [Naive.solve, hresult', hopposed.eq_compl, halike.counters]
  · have hnone : Bindings.missing? bindings f.freeOccurrences = none :=
      Bindings.missing?_eq_none.2 hcover
    have hnone' : Bindings.missing? bindings.compl f.dual.freeOccurrences = none := by
      rw [Formula.freeOccurrences_dual, Bindings.missing?_eq_none]
      exact fun x hx => Std.TreeMap.mem_map.2 (hcover x hx)
    have hdual : f.dual.analyze.Describes f.dual :=
      Analysis.describes_analyze (by rwa [Formula.binderIds_dual])
    obtain ⟨states, p', hrun, hresult, -⟩ :=
      EmersonLei.run_returns hlts hids hover hnone logging
    obtain ⟨states', q', hresult', hopposed, halike⟩ := report_follows .emersonLei
      (EmersonLei.eval_dual hlts hmirrored (Analysis.describes_analyze hids) hdual [])
      (Alike.initial (EmersonLei.mirrored_initial (Lts.stateCount_eq hlts) f) logging logging') hrun
    refine ⟨states, p'.counters, hresult, ?_⟩
    rw [EmersonLei.solve, EmersonLei.find?_scoping_free, hnone']
    exact hresult'.trans (by rw [hopposed.eq_compl, halike.counters])

/-- A least fixpoint around a greatest one, with a variable that the caller gives a value. -/
theorem solve_dual_alternating :
    ∃ lts f bindings, Lts.ofTransitions 0 2 [⟨0, "a", 1⟩, ⟨1, "a", 0⟩] = .ok lts ∧
      f = .fix .least ⟨0, 'X'⟩ (.fix .greatest ⟨1, 'Y'⟩
        (.or (.dia "a" (.var 'X')) (.and (.var 'Z') (.box "a" (.var 'Y'))))) ∧
      bindings = (∅ : Bindings).insert 'Z' ((StateSet.empty 2).insert 1) ∧
      (∃ states counters,
        (Naive.solve lts f bindings false).result = .ok ⟨states, counters⟩ ∧
        (Naive.solve lts f.dual (Bindings.compl bindings) false).result =
          .ok ⟨states.compl, counters⟩) ∧
      ∃ states counters,
        (EmersonLei.solve lts f f.analyze bindings false).result = .ok ⟨states, counters⟩ ∧
        (EmersonLei.solve lts f.dual f.dual.analyze (Bindings.compl bindings) false).result =
          .ok ⟨states.compl, counters⟩ := by
  obtain ⟨lts, hlts⟩ :
    ∃ lts, Lts.ofTransitions 0 2 [⟨0, "a", 1⟩, ⟨1, "a", 0⟩] = .ok lts := ⟨_, rfl⟩
  refine ⟨lts, _, _, hlts, rfl, rfl, solve_dual hlts (by decide) ?_ ?_ false false⟩
  · exact (Bindings.over_empty 2).insert 'Z' rfl
  · simp [Formula.freeOccurrences]

end Solver

end ModalMu
