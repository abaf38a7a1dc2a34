/-!
# Refused calls

Some calls are refused outright, because what they are asked for has no meaning: a number that is
no index, a state outside of a set's universe, a union over two universes, a place that a table
does not have. A refused call changes nothing.

* `Fault` — the reasons;
* `Fault.message?` — the reasons that come with a text.
-/

namespace ModalMu

/-- How messages name the state with a given number. -/
def stateName (n : Nat) : String := "StateId \x7b index: " ++ toString n ++ " \x7d"

/-- Why a call was refused. -/
inductive Fault where
  /-- the number is too large to be an index -/
  | indexOverflow
  /-- the state does not belong to the set's universe -/
  | outsideUniverse (state : Nat)
  /-- two sets over different universes cannot be combined -/
  | universeMismatch
  /-- the table has no such place -/
  | outOfRange
  deriving DecidableEq, Repr

/-- The text that goes with a fault, for those that have one. -/
def Fault.message? : Fault → Option String
  | .indexOverflow => some "index overflow"
  | .outsideUniverse state => some ("state " ++ stateName state ++ " outside of the universe")
  | .universeMismatch => none
  | .outOfRange => none

end ModalMu
