import ModalMu.Formula.Dependency
import ModalMu.Solver.Modality
import ModalMu.Solver.Solution

/-!
# Emerson-Lei evaluation

Every fixpoint keeps its approximation for the whole run, and goes on from there when it is
reached again. On entering a fixpoint from one of the opposite kind, the enclosing variable has
changed in the direction that does not help; then the approximations that may depend on it, its
own if it is open and those of the open fixpoints of its kind inside it, start anew. The analysis
tells which these are.

* `EmersonLei.eval` — the states in which a formula holds, inside some fixpoints;
* `EmersonLei.solve` — the whole run; a variable without a value is found before it begins.
-/

namespace ModalMu

namespace Solver

namespace EmersonLei

/-- The current approximation of each fixpoint, by number. -/
abbrev Approximations := Std.TreeMap Nat StateSet

/-- The fixpoints around a subformula, innermost first. -/
abbrev Scope := List (Binder × Kind)

/-- What the analysis knows of a fixpoint, if it is the one it recorded. -/
def annotation? (analysis : Analysis) (k : Kind) (b : Binder) : Option BinderInfo :=
  (analysis.get? b.id).filter fun info => info.var == b.var && info.kind == k

/-- **The value of a variable**: that of the innermost fixpoint that binds it, or else the
caller's. -/
def lookup (bindings : Bindings) (scope : Scope) (x : Var) : Run Approximations StateSet :=
  match scope.find? (·.1.var == x) with
  | some (b, _) => do Run.require (.unboundVariable x) (← Run.memory)[b.id]?
  | none => Run.require (.unboundVariable x) bindings[x]?

/-- The fixpoints that have to start anew on entering one. -/
def stale (b : Binder) (info : BinderInfo) : List Nat :=
  (if info.isOpen then [b.id] else []) ++ info.openInside

/-- Stores an approximation. -/
def store (id : Nat) (value : StateSet) : Run Approximations Unit :=
  Run.remember (·.insert id value)

/-- **Sets approximations back** on entering a fixpoint of kind `k`. -/
def reset (lts : Lts) (k : Kind) (b : Binder) (ids : List Nat) : Run Approximations Unit := do
  Run.remember fun approximations =>
    ids.foldl (fun m id => m.insert id (startValue lts k)) approximations
  Run.countResets ids.length
  if ids = [] then return () else Run.note (.entering b ids)

/-- On entering a fixpoint from one of the opposite kind, what is stale is set back. -/
def refresh (lts : Lts) (scope : Scope) (k : Kind) (b : Binder) (info : BinderInfo) :
    Run Approximations Unit :=
  if scope.head?.any (·.2 ≠ k) then reset lts k b (stale b info) else return ()

/-- **Evaluates a formula** inside the fixpoints of `scope`. The loop of a fixpoint may take `limit`
rounds whenever it is entered. -/
def eval (lts : Lts) (limit : Nat) (analysis : Analysis) (bindings : Bindings) :
    Formula → Scope → Run Approximations StateSet
  | .tt, _ => return lts.fullSet
  | .ff, _ => return lts.emptySet
  | .var x, scope => lookup bindings scope x
  | .and l r, scope => do
    let a ← eval lts limit analysis bindings l scope
    let b ← eval lts limit analysis bindings r scope
    Run.combine (a.inter? b)
  | .or l r, scope => do
    let a ← eval lts limit analysis bindings l scope
    let b ← eval lts limit analysis bindings r scope
    Run.combine (a.union? b)
  | .dia action f, scope => return lts.diamond action (← eval lts limit analysis bindings f scope)
  | .box action f, scope => return lts.box action (← eval lts limit analysis bindings f scope)
  | .fix k b body, scope => do
    let info ← Run.require (.notAnalyzed b.var) (annotation? analysis k b)
    refresh lts scope k b info
    let start ← Run.require (.notAnalyzed b.var) (← Run.memory)[b.id]?
    Run.note (.approximation b 0 start)
    settle b (fun _ => eval lts limit analysis bindings body ((b, k) :: scope)) (store b.id)
      limit 1 start

/-- Each fixpoint at its start. -/
def initial (lts : Lts) (binders : List (Nat × Kind)) : Approximations :=
  binders.foldl (fun m (id, k) => m.insert id (startValue lts k)) ∅

/-- **Solves a formula** with an analysis and values for the variables that it does not bind. -/
def solve (lts : Lts) (f : Formula) (analysis : Analysis) (bindings : Bindings)
    (logging : Bool) : Report :=
  let scoping := f.scoping
  match scoping.free.find? fun x => !bindings.contains x with
  | some x => ⟨.error (.unboundVariable x), []⟩
  | none =>
    report .emersonLei (eval lts (roundLimit lts) analysis bindings f [])
      (Progress.initial logging (initial lts scoping.binders))

end EmersonLei

end Solver

end ModalMu
