import ModalMu.Proofs.Loop
import ModalMu.Solver.EmersonLei
import ModalMu.Solver.Naive

/-!
# Evaluation in place

Both evaluators are handed what surrounds a formula as an argument: naive evaluation the values of
all variables, Emerson-Lei evaluation the enclosing fixpoints. Here each of them is written a second
time, as a machine that has the surroundings in its memory, changes them on entering a fixpoint and
puts them back on leaving it.

* `Matches` — two runs give the same answer or fail for the same reason, and have counted and noted
  the same; there is a rule for each way to build a run;
* `Naive.evalInPlace` — one table of values. A fixpoint overwrites the value of its variable, and in
  the end the variable is as it was before. **This is naive evaluation** (`Naive.solve_eq_inPlace`);
* `EmersonLei.evalInPlace` — a stack of the fixpoints that are being evaluated, innermost last.
  **The stack is the scope, read from its end** (`EmersonLei.evalInPlace_matches`), and the runs are
  the same (`EmersonLei.solve_eq_inPlace`). The machine also keeps a history: the approximations as
  they were whenever something was noted.
-/

namespace ModalMu

namespace Solver

/-! ### Runs that match -/

/-- What two runs have noted, compared. -/
abbrev LogRelation := Option (Array Event) → Option (Array Event) → Prop

/-- The relation is kept when both runs note an event. -/
def LogRelation.Kept (R : LogRelation) : Prop :=
  ∀ log log' e, R log log' → R (log.map (·.push e)) (log'.map (·.push e))

theorem LogRelation.Kept.eq : LogRelation.Kept Eq := by
  rintro log _ e rfl
  rfl

/-- The first run need not keep a log. -/
theorem LogRelation.Kept.optional (logging : Bool) :
    LogRelation.Kept fun log log' => log = if logging then log' else none := by
  rintro _ log e rfl
  cases logging <;> rfl

/-- Two runs side by side: they have counted the same, and what they have noted and what they
remember corresponds. -/
structure Parallel {μ ν : Type} (R : LogRelation) (M : μ → ν → Prop) (p : Progress μ)
    (q : Progress ν) : Prop where
  /-- the counters are equal -/
  counters : p.counters = q.counters
  /-- the logs correspond -/
  events : R p.events q.events
  /-- what they remember corresponds -/
  memory : M p.memory q.memory

section

variable {μ ν α β : Type} {R : LogRelation}

/-- **Two runs end alike**: with the same answer `a`, and then `N a` holds of what they remember, or
with the same failure. -/
inductive EndAlike (R : LogRelation) (N : α → μ → ν → Prop) :
    EStateM.Result Failure (Progress μ) α → EStateM.Result Failure (Progress ν) α → Prop where
  | ok {a : α} {p : Progress μ} {q : Progress ν} (h : Parallel R (N a) p q) :
    EndAlike R N (.ok a p) (.ok a q)
  | error {failure : Failure} {p : Progress μ} {q : Progress ν}
    (h : Parallel R (fun _ _ => True) p q) : EndAlike R N (.error failure p) (.error failure q)

namespace EndAlike

variable {N : α → μ → ν → Prop} {a : α}

theorem ok_left {p : Progress μ} {r : EStateM.Result Failure (Progress ν) α}
    (h : EndAlike R N (.ok a p) r) : ∃ q, r = .ok a q ∧ Parallel R (N a) p q := by
  cases h with
  | ok h => exact ⟨_, rfl, h⟩

end EndAlike

/-- **The run `m'` matches `m`** when what they remember corresponds by `M`. Runs that fail are
compared as well. -/
def Matches (R : LogRelation) (M : μ → ν → Prop) (N : α → μ → ν → Prop) (m : Run μ α)
    (m' : Run ν α) : Prop :=
  ∀ p q, Parallel R M p q → EndAlike R N (m p) (m' q)

namespace Matches

variable {M M' : μ → ν → Prop} {N : α → μ → ν → Prop} {O : β → μ → ν → Prop} {m : Run μ α}
  {m' : Run ν α}

theorem pure {a : α} (h : ∀ x y, M x y → N a x y) : Matches R M N (pure a) (pure a) :=
  fun _ _ hpq => .ok ⟨hpq.counters, hpq.events, h _ _ hpq.memory⟩

/-- Two steps of each run. -/
theorem bind {f : α → Run μ β} {f' : α → Run ν β} (hm : Matches R M N m m')
    (hf : ∀ a, Matches R (N a) O (f a) (f' a)) : Matches R M O (m >>= f) (m' >>= f') := by
  intro p q hpq
  have h := hm p q hpq
  generalize hrun : m p = r at h
  generalize hrun' : m' q = r' at h
  cases h with
  | ok h =>
    rw [bind_eq_of_ok hrun, bind_eq_of_ok hrun']
    exact hf _ _ _ h
  | error h =>
    rw [bind_eq_of_error hrun, bind_eq_of_error hrun']
    exact .error h

/-- The second run begins by looking at its memory. -/
theorem look {f : ν → Run ν α} (h : ∀ x y, M x y → Matches R M N m (f y)) :
    Matches R M N m (Run.memory >>= f) :=
  fun p q hpq => h p.memory q.memory hpq.memory p q hpq

/-- Both runs begin by looking at their memory. -/
theorem lookBoth {f : μ → Run μ α} {f' : ν → Run ν α}
    (h : ∀ x y, M x y → Matches R M N (f x) (f' y)) :
    Matches R M N (Run.memory >>= f) (Run.memory >>= f') :=
  fun p q hpq => h p.memory q.memory hpq.memory p q hpq

/-- The second run begins by changing its memory. -/
theorem alter {g : ν → ν} {f : Unit → Run ν α} (hg : ∀ x y, M x y → M' x (g y))
    (h : Matches R M' N m (f ())) : Matches R M N m (Run.remember g >>= f) :=
  fun p q hpq => h p { q with memory := g q.memory } ⟨hpq.counters, hpq.events, hg _ _ hpq.memory⟩

/-- Only the second run changes its memory. -/
theorem alone {M' : Unit → μ → ν → Prop} {g : ν → ν} (hg : ∀ x y, M x y → M' () x (g y)) :
    Matches R M M' (Pure.pure ()) (Run.remember g) :=
  fun _ _ hpq => .ok ⟨hpq.counters, hpq.events, hg _ _ hpq.memory⟩

/-- The second run changes its memory before it returns. -/
theorem finish {g : ν → ν} {N' : α → μ → ν → Prop} (h : Matches R M N m m')
    (hg : ∀ a x y, N a x y → N' a x (g y)) :
    Matches R M N' m (do
      let a ← m'
      Run.remember g
      return a) := by
  have hrun : Matches R M N' (m >>= Pure.pure) (do
      let a ← m'
      Run.remember g
      return a) :=
    h.bind fun a => alter (hg a) (.pure fun _ _ hN => hN)
  rwa [bind_pure] at hrun

theorem countResets (i : Nat) :
    Matches R M (fun _ => M) (Run.countResets i) (Run.countResets i) := by
  intro p q hpq
  refine .ok ⟨?_, hpq.events, hpq.memory⟩
  dsimp only
  rw [hpq.counters]

theorem note (hR : R.Kept) (e : Event) : Matches R M (fun _ => M) (Run.note e) (Run.note e) :=
  fun _ _ hpq => .ok ⟨hpq.counters, hR _ _ e hpq.events, hpq.memory⟩

theorem remember {M' : Unit → μ → ν → Prop} {g : μ → μ} {g' : ν → ν}
    (h : ∀ x y, M x y → M' () (g x) (g' y)) :
    Matches R M M' (Run.remember g) (Run.remember g') :=
  fun _ _ hpq => .ok ⟨hpq.counters, hpq.events, h _ _ hpq.memory⟩

theorem require (failure : Failure) (o : Option α) :
    Matches R M (fun _ => M) (Run.require failure o) (Run.require failure o) := by
  intro p q hpq
  cases o with
  | none => exact .error ⟨hpq.counters, hpq.events, trivial⟩
  | some a => exact .ok hpq

theorem combine (r : Except Fault StateSet) :
    Matches R M (fun _ => M) (Run.combine r) (Run.combine r) := by
  intro p q hpq
  cases r with
  | error _ => exact .error ⟨hpq.counters, hpq.events, trivial⟩
  | ok s => exact .ok hpq

end Matches

/-- **The loops of two fixpoints match** when their rounds do, where what corresponds depends on the
current value. The induction is on the number of rounds that are left. -/
theorem settle_matches (hR : R.Kept) {I : StateSet → μ → ν → Prop} {b : Binder}
    {body : StateSet → Run μ StateSet} {body' : StateSet → Run ν StateSet}
    {keep : StateSet → Run μ Unit} {keep' : StateSet → Run ν Unit}
    (hbody : ∀ current, Matches R (I current) (fun _ => I current) (body current) (body' current))
    (hkeep : ∀ current next, Matches R (I current) (fun _ => I next) (keep next) (keep' next))
    (limit round : Nat) (current : StateSet) :
    Matches R (I current) I (settle b body keep limit round current)
      (settle b body' keep' limit round current) := by
  induction limit generalizing round current with
  | zero => exact fun _ _ hpq => .error ⟨hpq.counters, hpq.events, trivial⟩
  | succ limit ih =>
    refine (hbody current).bind fun next => ?_
    have hcount : Matches R (I current) (fun _ => I current) Run.countRound Run.countRound := by
      intro p q hpq
      refine .ok ⟨?_, hpq.events, hpq.memory⟩
      dsimp only
      rw [hpq.counters]
    refine hcount.bind fun _ => (Matches.note hR _).bind fun _ => ?_
    by_cases hstable : next = current
    · rw [if_pos hstable, if_pos hstable]
      exact .pure fun _ _ h => h
    · rw [if_neg hstable, if_neg hstable]
      exact (hkeep current next).bind fun _ => ih (round + 1) next

/-- **Whole runs that match** leave the same report behind. -/
theorem report_eq_of_matches (algorithm : Algorithm) {M : μ → ν → Prop}
    {N : StateSet → μ → ν → Prop} {run : Run μ StateSet} {run' : Run ν StateSet}
    (h : Matches Eq M N run run') {p : Progress μ} {q : Progress ν} (hpq : Parallel Eq M p q) :
    report algorithm run p = report algorithm run' q := by
  have hend := h p q hpq
  rw [report, report]
  generalize hrun : run p = r at hend
  generalize hrun' : run' q = r' at hend
  cases hend with
  | @ok states p' q' hend =>
    rw [bind_eq_of_ok hrun, bind_eq_of_ok hrun']
    obtain ⟨counters, events, memory⟩ := p'
    obtain ⟨counters', events', memory'⟩ := q'
    obtain ⟨rfl, rfl, -⟩ := hend
    rfl
  | @error failure p' q' hend =>
    rw [bind_eq_of_error hrun, bind_eq_of_error hrun']
    dsimp only [Progress.log]
    rw [hend.events]

end

/-! ### Naive evaluation -/

namespace Naive

/-- **Evaluates a formula** under the values that are remembered of its variables. -/
def evalInPlace (lts : Lts) (limit : Nat) : Formula → Run Bindings StateSet
  | .tt => return lts.fullSet
  | .ff => return lts.emptySet
  | .var x => do Run.require (.unboundVariable x) (← Run.memory)[x]?
  | .and l r => do
    let a ← evalInPlace lts limit l
    let b ← evalInPlace lts limit r
    Run.combine (a.inter? b)
  | .or l r => do
    let a ← evalInPlace lts limit l
    let b ← evalInPlace lts limit r
    Run.combine (a.union? b)
  | .dia action f => return lts.diamond action (← evalInPlace lts limit f)
  | .box action f => return lts.box action (← evalInPlace lts limit f)
  | .fix k b body => do
    let start := startValue lts k
    let before ← Run.memory
    Run.remember (·.insert b.var start)
    Run.countResets 1
    Run.note (.approximation b 0 start)
    let states ← settle b (fun _ => evalInPlace lts limit body)
      (fun next => Run.remember (·.insert b.var next)) limit 1 start
    -- the variable is left as it was outside of this fixpoint
    Run.remember fun env =>
      match before[b.var]? with
      | some value => env.insert b.var value
      | none => env.erase b.var
    return states

/-- The table has the values of an environment. -/
def Tabulates (env : Bindings) (_ : Unit) (table : Bindings) : Prop :=
  ∀ x : Var, table[x]? = env[x]?

section

variable {env table : Bindings}

theorem Tabulates.insert (h : Tabulates env () table) (x : Var) (value : StateSet) :
    Tabulates (env.insert x value) () (table.insert x value) := by
  intro y
  rw [Std.TreeMap.getElem?_insert, Std.TreeMap.getElem?_insert, h y]

theorem Tabulates.overwrite {x : Var} {value : StateSet}
    (h : Tabulates (env.insert x value) () table) (next : StateSet) :
    Tabulates (env.insert x next) () (table.insert x next) := by
  intro y
  rw [Std.TreeMap.getElem?_insert, Std.TreeMap.getElem?_insert, h y, Std.TreeMap.getElem?_insert]
  split <;> rfl

/-- **Putting a value back** undoes what was done to its variable since. -/
theorem Tabulates.restore {x : Var} {value : StateSet} (h : Tabulates (env.insert x value) () table)
    {before : Bindings} (hbefore : Tabulates env () before) :
    Tabulates env () (match before[x]? with
      | some old => table.insert x old
      | none => table.erase x) := by
  intro y
  have hother : x ≠ y → table[y]? = env[y]? := by
    intro hxy
    rw [h y, Std.TreeMap.getElem?_insert, if_neg fun he => hxy (Std.compare_eq_iff_eq.1 he)]
  rw [hbefore x]
  cases hold : env[x]? with
  | some old =>
    rw [Std.TreeMap.getElem?_insert]
    split
    · rename_i hxy
      rw [← Std.compare_eq_iff_eq.1 hxy, hold]
    · rename_i hxy
      exact hother fun he => hxy (Std.compare_eq_iff_eq.2 he)
  | none =>
    rw [Std.TreeMap.getElem?_erase]
    split
    · rename_i hxy
      rw [← Std.compare_eq_iff_eq.1 hxy, hold]
    · rename_i hxy
      exact hother fun he => hxy (Std.compare_eq_iff_eq.2 he)

/-- **Evaluation in place matches evaluation under an environment**, and in the end the table has
its values again. -/
theorem evalInPlace_matches (lts : Lts) (limit : Nat) {R : LogRelation} (hR : R.Kept) (f : Formula)
    (env : Bindings) :
    Matches R (Tabulates env) (fun _ => Tabulates env) (eval lts limit f env)
      (evalInPlace lts limit f) := by
  induction f generalizing env with
  | tt | ff => exact .pure fun _ _ h => h
  | var x =>
    refine .look fun _ table htable => ?_
    rw [htable x]
    exact .require _ _
  | and l r ihl ihr | or l r ihl ihr =>
    exact (ihl env).bind fun a => (ihr env).bind fun b => .combine _
  | dia a f ih | box a f ih => exact (ih env).bind fun s => .pure fun _ _ h => h
  | fix k b body ih =>
    refine .look fun _ before hbefore => .alter (fun _ _ h => h.insert b.var (startValue lts k)) ?_
    refine (Matches.countResets 1).bind fun _ => (Matches.note hR _).bind fun _ => ?_
    refine Matches.finish (settle_matches hR (I := fun s => Tabulates (env.insert b.var s))
      (fun current => ?_) (fun current next => ?_) limit 1 _) fun s _ _ h => h.restore hbefore
    · exact ih (env.insert b.var current)
    · exact .alone fun _ _ h => h.overwrite next

/-- **The whole run in place**, from a table with the caller's values. -/
def solveInPlace (lts : Lts) (f : Formula) (bindings : Bindings) (logging : Bool) : Report :=
  report .naive (evalInPlace lts (roundLimit lts) f) (Progress.initial logging bindings)

/-- **Naive evaluation can be done in place.** -/
theorem solve_eq_inPlace (lts : Lts) (f : Formula) (bindings : Bindings) (logging : Bool) :
    solve lts f bindings logging = solveInPlace lts f bindings logging :=
  report_eq_of_matches .naive (evalInPlace_matches lts (roundLimit lts) .eq f bindings)
    ⟨rfl, rfl, fun _ => rfl⟩

end

end Naive

/-! ### Emerson-Lei evaluation -/

namespace EmersonLei

/-- **What the machine remembers.** -/
structure Workspace where
  /-- the current approximation of each fixpoint -/
  approximations : Approximations
  /-- the fixpoints that are being evaluated, innermost last -/
  stack : List (Binder × Kind)
  /-- the approximations as they were whenever something was noted; nothing depends on this -/
  history : List Approximations

namespace Workspace

/-- The enclosing fixpoints are found from the end of the stack. -/
def scope (w : Workspace) : Scope := w.stack.reverse

/-- Changes approximations. -/
def update (g : Approximations → Approximations) (w : Workspace) : Workspace :=
  { w with approximations := g w.approximations }

/-- Puts a fixpoint on the stack. -/
def push (b : Binder) (k : Kind) (w : Workspace) : Workspace :=
  { w with stack := w.stack ++ [(b, k)] }

/-- Takes the last fixpoint from the stack. -/
def pop (w : Workspace) : Workspace := { w with stack := w.stack.dropLast }

/-- Puts the approximations on record. -/
def mark (w : Workspace) : Workspace := { w with history := w.history ++ [w.approximations] }

end Workspace

/-- What a variable stands for inside some fixpoints. -/
def scoped? (bindings : Bindings) (m : Approximations) (scope : Scope) (x : Var) :
    Option StateSet :=
  match scope.find? (·.1.var == x) with
  | some e => m[e.1.id]?
  | none => bindings[x]?

/-- The innermost fixpoint on the stack that binds the variable wins. -/
def lookupInPlace (bindings : Bindings) (x : Var) : Run Workspace StateSet := do
  let w ← Run.memory
  Run.require (.unboundVariable x) (scoped? bindings w.approximations w.stack.reverse x)

/-- On entering a fixpoint from one of the opposite kind, what is stale is set back. -/
def refreshInPlace (lts : Lts) (k : Kind) (b : Binder) (info : BinderInfo) :
    Run Workspace Unit := do
  let w ← Run.memory
  if w.stack.getLast?.any (·.2 ≠ k) then do
    let ids := stale b info
    -- what follows is noted unless there is nothing to set back
    Run.remember fun w => if ids = [] then w else w.mark
    Run.remember (.update fun m => ids.foldl (fun m id => m.insert id (startValue lts k)) m)
    Run.countResets ids.length
    if ids = [] then return () else Run.note (.entering b ids)
  else return ()

/-- **Evaluates a formula** inside the fixpoints on the stack. -/
def evalInPlace (lts : Lts) (limit : Nat) (analysis : Analysis) (bindings : Bindings) :
    Formula → Run Workspace StateSet
  | .tt => return lts.fullSet
  | .ff => return lts.emptySet
  | .var x => lookupInPlace bindings x
  | .and l r => do
    let a ← evalInPlace lts limit analysis bindings l
    let b ← evalInPlace lts limit analysis bindings r
    Run.combine (a.inter? b)
  | .or l r => do
    let a ← evalInPlace lts limit analysis bindings l
    let b ← evalInPlace lts limit analysis bindings r
    Run.combine (a.union? b)
  | .dia action f => return lts.diamond action (← evalInPlace lts limit analysis bindings f)
  | .box action f => return lts.box action (← evalInPlace lts limit analysis bindings f)
  | .fix k b body => do
    let info ← Run.require (.notAnalyzed b.var) (annotation? analysis k b)
    refreshInPlace lts k b info
    Run.remember (.push b k)
    let start ← Run.require (.notAnalyzed b.var) (← Run.memory).approximations[b.id]?
    Run.remember .mark
    Run.note (.approximation b 0 start)
    let states ← settle b
      (fun _ => do
        let next ← evalInPlace lts limit analysis bindings body
        Run.remember .mark
        return next)
      (fun next => Run.remember (.update (·.insert b.id next))) limit 1 start
    Run.remember .pop
    return states

/-- The workspace has the approximations, and the scope on its stack. -/
structure Carries (scope : Scope) (m : Approximations) (w : Workspace) : Prop where
  /-- the approximations are the same -/
  approximations : w.approximations = m
  /-- the stack is the scope, read from its end -/
  scope : w.scope = scope

namespace Carries

variable {scope : Scope} {m : Approximations} {w : Workspace}

theorem update (h : Carries scope m w) (g : Approximations → Approximations) :
    Carries scope (g m) (w.update g) := ⟨congrArg g h.approximations, h.scope⟩

theorem mark (h : Carries scope m w) : Carries scope m w.mark := ⟨h.approximations, h.scope⟩

theorem push (h : Carries scope m w) (b : Binder) (k : Kind) :
    Carries ((b, k) :: scope) m (w.push b k) := by
  refine ⟨h.approximations, ?_⟩
  rw [Workspace.scope, Workspace.push, List.reverse_append, ← h.scope]
  rfl

/-- **Leaving a fixpoint** takes it from the stack. -/
theorem pop {e : Binder × Kind} (h : Carries (e :: scope) m w) : Carries scope m w.pop := by
  refine ⟨h.approximations, ?_⟩
  have hstack : w.stack = scope.reverse ++ [e] := by
    rw [← List.reverse_cons, ← h.scope, Workspace.scope, List.reverse_reverse]
  rw [Workspace.scope, Workspace.pop, hstack, List.dropLast_concat, List.reverse_reverse]

theorem getLast? (h : Carries scope m w) : w.stack.getLast? = scope.head? := by
  rw [← h.scope, Workspace.scope, List.head?_reverse]

end Carries

section

variable (lts : Lts) (limit : Nat) (analysis : Analysis) (bindings : Bindings) {R : LogRelation}

theorem lookup_eq (scope : Scope) (x : Var) (p : Progress Approximations) :
    lookup bindings scope x p =
      Run.require (.unboundVariable x) (scoped? bindings p.memory scope x) p := by
  rw [lookup, scoped?]
  cases scope.find? (·.1.var == x) with
  | none | some e => rfl

theorem lookupInPlace_matches (scope : Scope) (x : Var) :
    Matches R (Carries scope) (fun _ => Carries scope) (lookup bindings scope x)
      (lookupInPlace bindings x) := by
  intro p q hpq
  have hvalue : scoped? bindings q.memory.approximations q.memory.stack.reverse x =
      scoped? bindings p.memory scope x := by
    rw [← hpq.memory.scope, hpq.memory.approximations]
    rfl
  change EndAlike R _ _ (Run.require _ (scoped? bindings _ _ x) q)
  rw [lookup_eq, hvalue]
  exact Matches.require _ _ p q hpq

theorem update_matches {scope : Scope} (g : Approximations → Approximations) :
    Matches R (Carries scope) (fun _ => Carries scope) (Run.remember g)
      (Run.remember (Workspace.update g)) :=
  .remember fun _ _ h => h.update g

theorem refreshInPlace_matches (hR : R.Kept) (scope : Scope) (k : Kind) (b : Binder)
    (info : BinderInfo) :
    Matches R (Carries scope) (fun _ => Carries scope) (refresh lts scope k b info)
      (refreshInPlace lts k b info) := by
  refine .look fun _ w hw => ?_
  rw [refresh, hw.getLast?]
  split
  · rw [reset]
    have hmark : ∀ m w, Carries scope m w →
        Carries scope m (if stale b info = [] then w else w.mark) := by
      intro m w h
      split
      · exact h
      · exact h.mark
    refine .alter hmark ?_
    refine (update_matches _).bind fun _ => (Matches.countResets _).bind fun _ => ?_
    split
    · exact .pure fun _ _ h => h
    · exact .note hR _
  · exact .pure fun _ _ h => h

/-- **The stack stands for the scope**: evaluation in place matches evaluation inside a scope, and
in the end the stack is as it was. -/
theorem evalInPlace_matches (hR : R.Kept) (f : Formula) (scope : Scope) :
    Matches R (Carries scope) (fun _ => Carries scope) (eval lts limit analysis bindings f scope)
      (evalInPlace lts limit analysis bindings f) := by
  induction f generalizing scope with
  | tt | ff => exact .pure fun _ _ h => h
  | var x => exact lookupInPlace_matches bindings scope x
  | and l r ihl ihr | or l r ihl ihr =>
    exact (ihl scope).bind fun a => (ihr scope).bind fun b => .combine _
  | dia a f ih | box a f ih => exact (ih scope).bind fun s => .pure fun _ _ h => h
  | fix k b body ih =>
    refine (Matches.require _ _).bind fun info => ?_
    refine (refreshInPlace_matches lts hR scope k b info).bind fun _ => ?_
    refine .alter (fun _ _ h => h.push b k) (.lookBoth fun m w hw => ?_)
    rw [hw.approximations]
    refine (Matches.require _ _).bind fun start => .alter (fun _ _ h => h.mark) ?_
    refine (Matches.note hR _).bind fun _ => ?_
    refine Matches.finish (settle_matches hR (I := fun _ => Carries ((b, k) :: scope))
      (fun current => ?_) (fun current next => ?_) limit 1 start) fun s _ _ h => h.pop
    · exact (ih ((b, k) :: scope)).finish fun _ _ _ h => h.mark
    · exact update_matches _

/-- **The whole run in place**, with nothing on the stack and nothing on record. -/
def solveInPlace (lts : Lts) (f : Formula) (analysis : Analysis) (bindings : Bindings)
    (logging : Bool) : Report :=
  let scoping := f.scoping
  match scoping.free.find? fun x => !bindings.contains x with
  | some x => ⟨.error (.unboundVariable x), []⟩
  | none =>
    report .emersonLei (evalInPlace lts (roundLimit lts) analysis bindings f)
      (Progress.initial logging ⟨initial lts scoping.binders, [], []⟩)

/-- **Emerson-Lei evaluation can be done in place.** -/
theorem solve_eq_inPlace (lts : Lts) (f : Formula) (analysis : Analysis) (bindings : Bindings)
    (logging : Bool) :
    solve lts f analysis bindings logging = solveInPlace lts f analysis bindings logging := by
  rw [solve, solveInPlace]
  cases f.scoping.free.find? fun x => !bindings.contains x with
  | some x => rfl
  | none =>
    exact report_eq_of_matches .emersonLei
      (evalInPlace_matches lts (roundLimit lts) analysis bindings .eq f []) ⟨rfl, rfl, rfl, rfl⟩

end

end EmersonLei

end Solver

end ModalMu
