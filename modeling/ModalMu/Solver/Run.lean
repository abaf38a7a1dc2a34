import ModalMu.Formula.Basic
import ModalMu.Level
import ModalMu.Lts.Basic

/-!
# Runs of a solver

A solver computes a set of states from a formula and a system. On the way it counts what it does,
may keep a log, and may keep a memory of its own; if it fails, the log up to that point remains.

* `Failure` — why there is no answer;
* `Counters` — rounds of fixpoint loops, and fixpoints set back to their start;
* `Event` — what the log tells;
* `Run` — computations with counters, log and memory;
* `settle` — the loop that both solvers use: a fixpoint's body is evaluated again and again until
  its value no longer changes.
-/

namespace ModalMu

namespace Solver

/-- **Why there is no answer.** -/
inductive Failure where
  /-- a variable has no value -/
  | unboundVariable (x : Var)
  /-- the analysis at hand does not know a fixpoint on this variable -/
  | notAnalyzed (x : Var)
  /-- two sets over different universes met -/
  | universeMismatch
  /-- the loop of a fixpoint on this variable did not come to rest -/
  | unsettled (x : Var)
  deriving DecidableEq, Repr

/-- The failure as text. -/
def Failure.message : Failure → String
  | .unboundVariable x =>
    "variable " ++ String.singleton x ++ " is not bound by any fixpoint nor by the caller"
  | .notAnalyzed x =>
    "fixpoint on " ++ String.singleton x ++
      " is missing from the analysis, run `analyze` on this formula"
  | .universeMismatch => "sets over different universes cannot be combined"
  | .unsettled x => "the fixpoint on " ++ String.singleton x ++ " did not come to rest"

/-- **What a run counts.** -/
structure Counters where
  /-- rounds of fixpoint loops -/
  iterations : Nat
  /-- fixpoints set back to where they start -/
  resets : Nat
  deriving DecidableEq, Repr

namespace Counters

/-- Nothing was counted yet. -/
def zero : Counters := ⟨0, 0⟩

/-- The counters as text. -/
def render (c : Counters) : String :=
  "i=" ++ toString c.iterations ++ ", r=" ++ toString c.resets

end Counters

/-- The two ways to solve a formula. -/
inductive Algorithm where
  /-- every fixpoint starts anew whenever it is reached -/
  | naive
  /-- approximations are kept as long as they stay below (or above) the fixpoint -/
  | emersonLei
  deriving DecidableEq, Repr

/-- How reports name an algorithm. -/
def Algorithm.title : Algorithm → String
  | .naive => "Naive"
  | .emersonLei => "Emerson-Lei"

/-- **What the log tells.** -/
inductive Event where
  /-- the value of a fixpoint after a round, or before the first one -/
  | approximation (b : Binder) (round : Nat) (value : StateSet)
  /-- the fixpoints with these numbers were set back on entering one -/
  | entering (b : Binder) (stale : List Nat)
  /-- the run ended with a set of that size -/
  | finished (algorithm : Algorithm) (counters : Counters) (size : Nat)
  deriving DecidableEq

namespace Event

/-- How much a reader has to ask for to see the event. -/
def level : Event → Level
  | approximation .. => .trace
  | entering .. | finished .. => .debug

/-- The event as text. -/
def text : Event → String
  | approximation b round value =>
    String.singleton b.var ++ toString round ++ " = " ++ value.render
  | entering b stale =>
    "Entering " ++ String.singleton b.var ++ ": reset " ++ toString stale.length ++
      " stale fixpoints"
  | finished algorithm counters size =>
    algorithm.title ++ " evaluation done: " ++ counters.render ++ ", " ++ toString size ++ " states"

/-- The event as a line of the log. -/
def line (e : Event) : String := e.level.name ++ " " ++ e.text

end Event

/-- What a run has done so far; `events` is missing when no log is kept. -/
structure Progress (μ : Type) where
  /-- what was counted -/
  counters : Counters
  /-- the log -/
  events : Option (Array Event)
  /-- what the solver remembers -/
  memory : μ

/-- The start of a run. -/
def Progress.initial {μ : Type} (logging : Bool) (memory : μ) : Progress μ :=
  ⟨Counters.zero, if logging then some #[] else none, memory⟩

/-- **A computation that counts, logs and remembers**, and whose effects outlast a failure. -/
abbrev Run (μ : Type) := EStateM Failure (Progress μ)

namespace Run

variable {μ : Type}

/-- Writes an event to the log. -/
def note (e : Event) : Run μ Unit :=
  modify fun p => { p with events := p.events.map (·.push e) }

/-- Counts one round of a loop. -/
def countRound : Run μ Unit :=
  modify fun p => { p with counters.iterations := p.counters.iterations + 1 }

/-- Counts `n` fixpoints set back. -/
def countResets (n : Nat) : Run μ Unit :=
  modify fun p => { p with counters.resets := p.counters.resets + n }

/-- What the solver remembers. -/
def memory : Run μ μ := return (← get).memory

/-- Changes what the solver remembers. -/
def remember (f : μ → μ) : Run μ Unit :=
  modify fun p => { p with memory := f p.memory }

/-- A value that is there, or a failure. -/
def require {α : Type} (failure : Failure) : Option α → Run μ α
  | some a => return a
  | none => throw failure

/-- The result of combining two sets. -/
def combine : Except Fault StateSet → Run μ StateSet
  | .ok s => return s
  | .error _ => throw .universeMismatch

end Run

/-- Where the loop of a fixpoint starts: nothing for a least one, everything for a greatest one. -/
def startValue (lts : Lts) (k : Kind) : StateSet :=
  match k with
  | .least => lts.emptySet
  | .greatest => lts.fullSet

/-- How many rounds a loop may take. One more than there are states is enough for a value that
only grows or only shrinks; the rest is for approximations that were kept wrongly. -/
def roundLimit (lts : Lts) : Nat := lts.stateCount + 0x80000000

/-- **The loop of a fixpoint.** In each round `body` computes the next value from the
current one. The loop ends when the two are equal; otherwise `keep` stores the next one and it
becomes the current one. -/
def settle {μ : Type} (b : Binder) (body : StateSet → Run μ StateSet)
    (keep : StateSet → Run μ Unit) : (limit round : Nat) → StateSet → Run μ StateSet
  | 0, _, _ => throw (.unsettled b.var)
  | limit + 1, round, current => do
    let next ← body current
    Run.countRound
    Run.note (.approximation b round next)
    if next = current then return current
    else
      keep next
      settle b body keep limit (round + 1) next

end Solver

end ModalMu
