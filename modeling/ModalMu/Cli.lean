import ModalMu.Folder
import ModalMu.Formula.Comment
import ModalMu.Formula.Depth
import ModalMu.Formula.Parser
import ModalMu.Formula.Printer
import ModalMu.Lts.Aldebaran
import ModalMu.Solver.EmersonLei
import ModalMu.Solver.Naive

/-!
# The command line

The arguments name a transition file, a formula file and, if wanted, an algorithm. The files are
read and parsed; the formula and its depths are shown, it is solved, and the answer is shown.

* `Cli.load` — from the arguments to a job, with the files given as a function;
* `Job.solve` — the job's run;
* `Job.outcome` — everything that is printed, given how long the two steps before it took;
* `Cli.run` — the three together.
-/

namespace ModalMu

namespace Cli

/-! ### Problems -/

/-- **Why the program ends early.** -/
inductive Problem where
  /-- a message that says it all -/
  | plain (message : String)
  /-- a message about what was tried, and what stood in its way -/
  | caused (message cause : String)
  deriving DecidableEq, Repr

/-- The problem as text; a cause is indented by four blanks, after each of its line feeds too. -/
def Problem.text : Problem → String
  | .plain message => Text.endLines ["Error: " ++ message]
  | .caused message cause =>
    Text.endLines (["Error: " ++ message, "", "Caused by:"] ++
      (Text.segments cause.toList).map fun line => "    " ++ String.ofList line)

/-- **What the program leaves behind.** -/
structure Outcome where
  /-- zero, or one after a problem -/
  exitCode : Nat
  /-- the text of the report -/
  stdout : String
  /-- the text about a problem -/
  stderr : String
  deriving DecidableEq, Repr

/-- A report that comes to its end. -/
def Outcome.finished (report : List String) : Outcome := ⟨0, Text.endLines report, ""⟩

/-- A report that a problem cuts short. -/
def Outcome.stopped (report : List String) (p : Problem) : Outcome :=
  ⟨1, Text.endLines report, p.text⟩

/-! ### Jobs -/

/-- What there is to solve, and how. -/
structure Job where
  /-- the transition system -/
  lts : Lts
  /-- the formula -/
  formula : Formula
  /-- the algorithm, as it was asked for -/
  algorithm : String
  /-- the formula's analysis -/
  analysis : Analysis

/-- The contents of a file, or a problem that names it. -/
def readFile (file : String → Except Unreadable String) (what path : String) :
    Except Problem String :=
  (file path).mapError fun e =>
    .caused ("Failed to read " ++ what ++ " file " ++ path) e.message

/-- The argument at a place, or a problem. -/
def argument (args : List String) (i : Nat) (what : String) : Except Problem String :=
  match args[i]? with
  | some arg => .ok arg
  | none => .error (.plain ("No " ++ what ++ " file provided"))

/-- **From the arguments to a job.** Both files are read before either is parsed. -/
def load (file : String → Except Unreadable String) (args : List String) : Except Problem Job := do
  let autPath ← argument args 0 "aut"
  let formulaPath ← argument args 1 "mucalc"
  let aut ← readFile file "aut" autPath
  let text ← readFile file "mucalc" formulaPath
  let lts ← (Aldebaran.parse aut).mapError fun e => .caused "Failed to parse aut file" e.message
  let formula ← (Formula.parse (stripComments text)).mapError fun e =>
    .caused "Failed to parse mucalc file" e.message
  return { lts, formula, algorithm := args[2]?.getD "el", analysis := formula.analyze }

/-- The algorithm with a name. -/
def algorithm? : String → Option Solver.Algorithm
  | "naive" => some .naive
  | "el" => some .emersonLei
  | _ => none

namespace Job

/-- **Solves the formula**, if the algorithm is known. -/
def solve (job : Job) (logging : Bool) : Option Solver.Report :=
  (algorithm? job.algorithm).map fun
    | .naive => Solver.Naive.solve job.lts job.formula ∅ logging
    | .emersonLei => Solver.EmersonLei.solve job.lts job.formula job.analysis ∅ logging

/-- A line of the log, if it is seen. -/
def logLine (asked level : Level) (text : String) : List String :=
  if asked.shows level then ["[" ++ level.name ++ "] " ++ text] else []

/-- What is shown before the formula is solved. -/
def introduction (job : Job) (level : Level) : List String :=
  logLine level .info (toString job.lts.stateCount ++ " states, " ++
    toString job.lts.transitionCount ++ " transitions") ++
  ["Formula: " ++ job.formula.render,
    "Nesting depth " ++ toString job.formula.nestingDepth ++
      ", alternation depth " ++ toString job.formula.alternationDepth ++
      ", dependent alternation depth " ++ toString job.formula.dependentDepth]

/-- How long loading and solving took, as text; solving in milliseconds. -/
structure Timing where
  /-- from the start to the analysed formula -/
  loading : String
  /-- the solver alone -/
  solving : String
  deriving DecidableEq, Repr

/-- **Everything that is printed.** -/
def outcome (job : Job) (level : Level) (timing : Timing) (report : Option Solver.Report) :
    Outcome :=
  let introduction := job.introduction level
  match report with
  | none =>
    .stopped introduction
      (.plain ("Unknown algorithm " ++ Text.quote job.algorithm ++ ", expected naive or el"))
  | some report =>
    let shown := introduction ++ ["Preprocessing took " ++ timing.loading] ++
      report.log.flatMap fun e => logLine level e.level e.text
    match report.result with
    | .error failure => .stopped shown (.plain failure.message)
    | .ok solution =>
      .finished (shown ++
        ["Solution: " ++ solution.render timing.solving,
          "The formula " ++ (if solution.holds job.lts then "is" else "is not") ++ " satisfied"])

end Job

/-- Whether a log is kept at all: the solvers' events are shown from level `debug` on. -/
def wantsLog (level : Level) : Bool := level.shows .debug

/-- **The whole program**, but for the clock. -/
def run (file : String → Except Unreadable String) (args : List String) (level : Level)
    (timing : Job.Timing) : Outcome :=
  match load file args with
  | .error problem => .stopped [] problem
  | .ok job => job.outcome level timing (job.solve (wantsLog level))

/-- The level that a setting asks for; without one, or with a word that names none, `info`. -/
def levelOf (setting : Option String) : Level := (setting.bind Level.ofName?).getD .info

/-! ### Durations -/

/-- A number of parts in units of `unit` parts each, a power of ten, as a decimal without zeros at
its end. -/
def inUnits (parts unit : Nat) : String :=
  let fraction := (toString (unit + parts % unit)).toList.drop 1
  let digits := (fraction.reverse.dropWhile (· == '0')).reverse
  toString (parts / unit) ++ (if digits.isEmpty then "" else "." ++ String.ofList digits)

/-- A duration in the largest unit of which it is at least one. -/
def elapsed (nanoseconds : Nat) : String :=
  if nanoseconds < 1000 then inUnits nanoseconds 1 ++ "ns"
  else if nanoseconds < 1000000 then inUnits nanoseconds 1000 ++ "µs"
  else if nanoseconds < 1000000000 then inUnits nanoseconds 1000000 ++ "ms"
  else inUnits nanoseconds 1000000000 ++ "s"

end Cli

end ModalMu
