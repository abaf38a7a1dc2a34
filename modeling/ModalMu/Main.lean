import ModalMu.Cli

/-!
# The program

Reads the two files, asks the clock, and prints what `Cli` computes. The setting `MUCALC_LOG` picks
the log level.
-/

namespace ModalMu

namespace Cli

/-- Whether a system error has a number; some calls hand it over negated. -/
def hasNumber (code number : UInt32) : Bool := code == number || code == 0 - number

/-- Why a file could not be read. -/
def unreadable : IO.Error → Unreadable
  | .noFileOrDirectory .. => .missing
  | .permissionDenied .. => .denied
  | .inappropriateType _ code _ => if hasNumber code 20 then .notFolder else .folder
  | .invalidArgument _ code details =>
    if hasNumber code 36 then .nameTooLong else .other details
  | e => .other (toString e)

/-- The contents of a file as text, or why there are none. -/
def readText (path : String) : IO (Except Unreadable String) := do
  try
    let bytes ← IO.FS.readBinFile path
    match String.fromUTF8? bytes with
    | some text => return .ok text
    | none => return .error .notText
  catch e => return .error (unreadable e)

/-- Prints an outcome; the answer is the exit code. -/
def print (o : Outcome) : IO UInt32 := do
  IO.print o.stdout
  IO.eprint o.stderr
  return o.exitCode.toUInt32

end Cli

end ModalMu

open ModalMu in
/-- Runs the program on its arguments. -/
def main (args : List String) : IO UInt32 := do
  let level := Cli.levelOf (← IO.getEnv "MUCALC_LOG")
  let started ← IO.monoNanosNow
  let files ← (args.take 2).mapM fun path => return (path, ← Cli.readText path)
  let file := fun path => (files.lookup path).getD (.error .missing)
  match Cli.load file args with
  | .error problem => Cli.print (.stopped [] problem)
  | .ok job =>
    let loaded ← IO.monoNanosNow
    let report ← IO.lazyPure fun _ => job.solve (Cli.wantsLog level)
    let solved ← IO.monoNanosNow
    let timing := ⟨Cli.elapsed (loaded - started),
      Solver.millisecondsText ((solved - loaded) / 1000)⟩
    Cli.print (job.outcome level timing report)
