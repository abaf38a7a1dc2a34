import ModalMu.Solver.Modality
import ModalMu.Solver.Solution

/-!
# Naive evaluation

A formula is evaluated by its definition. Whenever a fixpoint is reached it starts from the empty
or the full set and is iterated until its value stays the same; the values of the enclosing
fixpoints are those of their current rounds.

* `Naive.eval` — the states in which a formula holds, under values for its variables;
* `Naive.solve` — the whole run.
-/

namespace ModalMu

namespace Solver

namespace Naive

/-- **Evaluates a formula** under the values `env` of its variables. The loop of a fixpoint may take
`limit` rounds whenever it is entered. -/
def eval (lts : Lts) (limit : Nat) : Formula → Bindings → Run Unit StateSet
  | .tt, _ => return lts.fullSet
  | .ff, _ => return lts.emptySet
  | .var x, env => Run.require (.unboundVariable x) env[x]?
  | .and l r, env => do
    let a ← eval lts limit l env
    let b ← eval lts limit r env
    Run.combine (a.inter? b)
  | .or l r, env => do
    let a ← eval lts limit l env
    let b ← eval lts limit r env
    Run.combine (a.union? b)
  | .dia action f, env => return lts.diamond action (← eval lts limit f env)
  | .box action f, env => return lts.box action (← eval lts limit f env)
  | .fix k b body, env => do
    let start := startValue lts k
    Run.countResets 1
    Run.note (.approximation b 0 start)
    settle b (fun current => eval lts limit body (env.insert b.var current)) (fun _ => return ())
      limit 1 start

/-- **Solves a formula** with values for the variables that it does not bind. -/
def solve (lts : Lts) (f : Formula) (bindings : Bindings) (logging : Bool) : Report :=
  report .naive (eval lts (roundLimit lts) f bindings) (Progress.initial logging ())

end Naive

end Solver

end ModalMu
