import ModalMu.StateSet.Members
import Std.Data.TreeMap

/-!
# Runs over sets

Registers hold sets, and a run is a list of steps that build, change and compare what the
registers hold. A step that is refused leaves every register as it was.

* `Step` — one operation on numbered registers;
* `Registers.step` — its answer, and the registers after it;
* `Registers.run` — the same for a list of steps.
-/

namespace ModalMu

namespace StateSet

/-- One step of a run; the first register is the one that is built, changed or asked. -/
inductive Step where
  /-- the empty set over `n` states -/
  | empty (r n : Nat)
  /-- the full set over `n` states -/
  | full (r n : Nat)
  /-- the listed states, over `n` states -/
  | ofList (r n : Nat) (states : List Nat)
  /-- what register `q` holds -/
  | copy (r q : Nat)
  /-- one more state -/
  | add (r state : Nat)
  /-- one state less -/
  | erase (r state : Nat)
  /-- every state -/
  | fill (r : Nat)
  /-- no state -/
  | clear (r : Nat)
  /-- joined with register `q` -/
  | union (r q : Nat)
  /-- cut down to register `q` -/
  | inter (r q : Nat)
  /-- whether a state is a member -/
  | contains (r state : Nat)
  /-- whether there is a common member with register `q` -/
  | intersects (r q : Nat)
  /-- whether register `q` has every member -/
  | subset (r q : Nat)
  /-- whether register `q` holds the same set -/
  | equal (r q : Nat)
  /-- the shortened text -/
  | render (r : Nat)
  /-- the whole text -/
  | renderAll (r : Nat)
  deriving DecidableEq, Repr

/-- The register that a step builds, changes or asks. -/
def Step.target : Step → Nat
  | .empty r _ | .full r _ | .ofList r _ _ | .copy r _ | .add r _ | .erase r _ | .fill r
  | .clear r | .union r _ | .inter r _ | .contains r _ | .intersects r _ | .subset r _
  | .equal r _ | .render r | .renderAll r => r

/-- What a step answers. -/
inductive Answer where
  /-- the register was changed -/
  | done
  /-- a yes or a no -/
  | truth (b : Bool)
  /-- a text -/
  | text (t : String)
  deriving DecidableEq, Repr

/-- Sets by register number; a register that was never written holds the empty set over no
states. -/
structure Registers where
  /-- the registers that were written -/
  written : Std.TreeMap Nat StateSet

namespace Registers

/-- No register is written yet. -/
def initial : Registers := ⟨∅⟩

/-- What a register holds. -/
def get (m : Registers) (r : Nat) : StateSet := m.written.getD r (StateSet.empty 0)

/-- Writes a register. -/
def set (m : Registers) (r : Nat) (s : StateSet) : Registers := ⟨m.written.insert r s⟩

theorem get_initial (r : Nat) : initial.get r = StateSet.empty 0 := by
  simp [initial, get]

theorem get_set (m : Registers) (r q : Nat) (s : StateSet) :
    (m.set r s).get q = if r = q then s else m.get q := by
  simp [get, set, Std.TreeMap.getD_insert]

/-- What a step makes of the registers it reads: an answer and, if it changes its target, the new
set. -/
def outcome (m : Registers) : Step → Except Fault (Answer × Option StateSet)
  | .empty _ n => .ok (.done, some (StateSet.empty n))
  | .full _ n => .ok (.done, some (StateSet.full n))
  | .ofList _ n states => (StateSet.ofList n states).map fun s => (.done, some s)
  | .copy _ q => .ok (.done, some (m.get q))
  | .add r i => ((m.get r).add i).map fun s => (.done, some s)
  | .erase r i => .ok (.done, some ((m.get r).erase i))
  | .fill r => .ok (.done, some (m.get r).fill)
  | .clear r => .ok (.done, some (m.get r).clear)
  | .union r q => ((m.get r).union? (m.get q)).map fun s => (.done, some s)
  | .inter r q => ((m.get r).inter? (m.get q)).map fun s => (.done, some s)
  | .contains r i => .ok (.truth ((m.get r).contains i), none)
  | .intersects r q => .ok (.truth ((m.get r).intersects (m.get q)), none)
  | .subset r q => .ok (.truth ((m.get r).subset (m.get q)), none)
  | .equal r q => .ok (.truth (m.get r = m.get q), none)
  | .render r => .ok (.text (m.get r).render, none)
  | .renderAll r => .ok (.text (m.get r).renderAll, none)

/-- **One step**: its answer, and the registers after it. -/
def step (m : Registers) (e : Step) : Except Fault Answer × Registers :=
  match m.outcome e with
  | .ok (answer, some s) => (.ok answer, m.set e.target s)
  | .ok (answer, none) => (.ok answer, m)
  | .error fault => (.error fault, m)

/-- **The registers after a list of steps**, refused ones included. -/
def run (m : Registers) (steps : List Step) : Registers :=
  steps.foldl (fun m e => (m.step e).2) m

/-- A refused step changes nothing. -/
theorem step_of_error {m : Registers} {e : Step} {fault : Fault}
    (h : m.outcome e = .error fault) : m.step e = (.error fault, m) := by
  simp [step, h]

end Registers

end StateSet

end ModalMu
