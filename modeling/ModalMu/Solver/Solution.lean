import ModalMu.Solver.Run
import Std.Data.TreeMap

/-!
# Solutions

* `Bindings` — values for the variables that a formula does not bind;
* `Solution` — the states in which a formula holds, with the counters of the run;
* `Report` — a solution or a failure, with the log.
-/

namespace ModalMu

namespace Solver

/-- Values of variables, fixed for a whole run. -/
abbrev Bindings := Std.TreeMap Var StateSet

/-- **The answer of a solver.** -/
structure Solution where
  /-- the states in which the formula holds -/
  states : StateSet
  /-- what the run counted -/
  counters : Counters
  deriving DecidableEq

namespace Solution

/-- **Whether the formula holds in the first state.** -/
def holds (s : Solution) (lts : Lts) : Bool := s.states.contains lts.first

/-- The solution as text, with the time it took in milliseconds. -/
def render (s : Solution) (milliseconds : String) : String :=
  s.counters.render ++ ", " ++ s.states.render ++ " in " ++ milliseconds ++ " milliseconds"

end Solution

/-- Whole milliseconds in a number of microseconds, as text. -/
def millisecondsText (microseconds : Nat) : String := toString (microseconds / 1000)

/-- **What a run leaves behind.** -/
structure Report where
  /-- the answer, or why there is none -/
  result : Except Failure Solution
  /-- what was logged, up to the end or the failure -/
  log : List Event

/-- The events of a run so far. -/
def Progress.log {μ : Type} (p : Progress μ) : List Event := (p.events.getD #[]).toList

/-- **Runs a computation to its end**, which is logged as well. -/
def report {μ : Type} (algorithm : Algorithm) (run : Run μ StateSet) (start : Progress μ) :
    Report :=
  match (do
      let states ← run
      let counters := (← get).counters
      Run.note (.finished algorithm counters states.size)
      return { states, counters } : Run μ Solution) start with
  | .ok solution p => ⟨.ok solution, p.log⟩
  | .error failure p => ⟨.error failure, p.log⟩

end Solver

end ModalMu
