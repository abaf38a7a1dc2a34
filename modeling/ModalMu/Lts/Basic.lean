import ModalMu.Registry
import ModalMu.StateSet.Members
import ModalMu.Table

/-!
# Labelled transition systems

A system has the states `0, …, stateCount - 1`, one of which is its first state, and a list of
transitions between them, each with a label. `Lts.build` checks the states and builds all indexes
at once, if there is room for them; afterwards the system is only read.

* labels are numbered by first appearance, and edges by their place in the list;
* `edgesFrom`, `edgesTo`, `edgesLabelled` — edges by one of their parts, in the order of the list;
* `successors`, `successorSets` — where one step with a label leads, from one state or from all
  states that have such a step.
-/

namespace ModalMu

/-- One step of a system, with its label as text. -/
structure Transition where
  /-- where the step starts -/
  start : Nat
  /-- the action -/
  label : String
  /-- where the step leads -/
  target : Nat
  deriving DecidableEq, Repr

/-- One step of a system, with its label by number. -/
structure Edge where
  /-- where the step starts -/
  start : Nat
  /-- the number of the action -/
  label : Nat
  /-- where the step leads -/
  target : Nat
  deriving DecidableEq, Repr

/-- **Why transitions do not make a system.** -/
inductive BuildError where
  /-- a state is named that the system does not have -/
  | unknownState (state stateCount : Nat)
  /-- there is no room for so many states -/
  | tooManyStates (stateCount : Nat)
  deriving DecidableEq, Repr

/-- The error as text. -/
def BuildError.message : BuildError → String
  | .unknownState state stateCount =>
    "state " ++ toString state ++ " doesn't exist, the lts has " ++ toString stateCount ++ " states"
  | .tooManyStates stateCount =>
    "cannot allocate an lts with " ++ toString stateCount ++ " states"

/-- **A labelled transition system with its indexes.** -/
structure Lts where
  /-- the state in which a formula has to hold -/
  first : Nat
  /-- the states are the numbers below this one -/
  stateCount : Nat
  /-- the labels, by first appearance -/
  labels : Registry String
  /-- the edges, in the order in which they were given -/
  edges : Table Edge
  /-- edge numbers by label -/
  byLabel : Array (Array Nat)
  /-- edge numbers by start -/
  byStart : Array (Array Nat)
  /-- edge numbers by target -/
  byTarget : Array (Array Nat)
  /-- for each label the successors of the states that have some -/
  successorMaps : Array (Std.TreeMap Nat StateSet)

namespace Lts

/-! ### Construction -/

/-- The most states that a system can have, `2 ^ 42`: at 32 bytes for each state, the indexes of
more would not fit into a 47-bit address space. -/
def capacity : Nat := 0x40000000000

/-- Insists on a state below `stateCount`. -/
def checkState (stateCount state : Nat) : Except BuildError Unit :=
  if state < stateCount then .ok () else .error (.unknownState state stateCount)

/-- Takes in one transition: its start and target are checked, its label is numbered. -/
def takeIn (stateCount : Nat) (acc : Registry String × Table Edge) (t : Transition) :
    Except BuildError (Registry String × Table Edge) := do
  checkState stateCount t.start
  checkState stateCount t.target
  let ((label, _), labels) := acc.1.insert t.label
  return (labels, (acc.2.push ⟨t.start, label, t.target⟩).2)

/-- Edge numbers, grouped by a part of the edge that is below `n`. -/
def groupEdges (n : Nat) (part : Edge → Nat) (edges : List Edge) : Array (Array Nat) :=
  edges.zipIdx.foldl (fun rows (e, i) => rows.modify (part e) (·.push i)) (Array.replicate n #[])

/-- Adds the target of an edge to the successors of its start. -/
def addSuccessor (stateCount : Nat) (successors : Std.TreeMap Nat StateSet) (e : Edge) :
    Std.TreeMap Nat StateSet :=
  let known := successors.getD e.start (StateSet.empty stateCount)
  successors.insert e.start (known.insert e.target)

/-- The successors of each state under each of the `n` labels. -/
def groupSuccessors (n stateCount : Nat) (edges : List Edge) :
    Array (Std.TreeMap Nat StateSet) :=
  edges.foldl (fun maps e => maps.modify e.label (addSuccessor stateCount · e))
    (Array.replicate n ∅)

/-- The system of checked edges, with all indexes. -/
def ofEdges (first stateCount : Nat) (labels : Registry String) (edges : Table Edge) : Lts :=
  let list := edges.rows.toList
  { first, stateCount, labels, edges
    byLabel := groupEdges labels.size (·.label) list
    byStart := groupEdges stateCount (·.start) list
    byTarget := groupEdges stateCount (·.target) list
    successorMaps := groupSuccessors labels.size stateCount list }

/-- **The system of a list of transitions.** The first state is checked, then the start and the
target of each transition in turn, and last whether there is room for the states, as `fits` tells
of their number. -/
def build (fits : Nat → Bool) (first stateCount : Nat) (transitions : List Transition) :
    Except BuildError Lts := do
  checkState stateCount first
  let (labels, edges) ← transitions.foldlM (takeIn stateCount) (Registry.empty, Table.empty)
  if fits stateCount then return ofEdges first stateCount labels edges
  else throw (.tooManyStates stateCount)

/-- **The system of a list of transitions**, with room for `capacity` states. -/
def ofTransitions (first stateCount : Nat) (transitions : List Transition) :
    Except BuildError Lts := build (· ≤ capacity) first stateCount transitions

/-! ### Queries -/

/-- How many transitions there are. -/
def transitionCount (lts : Lts) : Nat := lts.edges.size

/-- The states, ascending. -/
def states (lts : Lts) : List Nat := List.range lts.stateCount

/-- The set of all states. -/
def fullSet (lts : Lts) : StateSet := StateSet.full lts.stateCount

/-- The set of no state. -/
def emptySet (lts : Lts) : StateSet := StateSet.empty lts.stateCount

/-- The number of a label, if some edge has it. -/
def labelId? (lts : Lts) (label : String) : Option Nat := lts.labels.indexOf? label

/-- **The label with a number**, which must have been given. -/
def label (lts : Lts) (id : Nat) : Except Fault String := lts.labels.fetch id

/-- An edge with its label as text. -/
def decode (lts : Lts) (e : Edge) : Transition :=
  ⟨e.start, (lts.labels.get? e.label).getD "", e.target⟩

/-- All transitions, in order. -/
def transitions (lts : Lts) : List Transition := lts.edges.rows.toList.map lts.decode

/-- The edges with the given numbers. -/
def pick (lts : Lts) (ids : Option (Array Nat)) : List Edge :=
  (ids.getD #[]).toList.filterMap lts.edges.get?

/-- **The edges that start in a state**, in order; none if there is no such state. -/
def edgesFrom (lts : Lts) (state : Nat) : List Edge := lts.pick lts.byStart[state]?

/-- **The edges that lead to a state**, in order; none if there is no such state. -/
def edgesTo (lts : Lts) (state : Nat) : List Edge := lts.pick lts.byTarget[state]?

/-- **The edges with a label**, in order; none if there is no such label. -/
def edgesLabelled (lts : Lts) (label : String) : List Edge :=
  lts.pick ((lts.labelId? label).bind (lts.byLabel[·]?))

/-- The successors under a label, of the states that have some. -/
def successorMap (lts : Lts) (label : String) : Std.TreeMap Nat StateSet :=
  ((lts.labelId? label).bind (lts.successorMaps[·]?)).getD ∅

/-- **Where one step with a label leads from a state.** -/
def successors (lts : Lts) (label : String) (state : Nat) : StateSet :=
  (lts.successorMap label).getD state lts.emptySet

/-- **Each state that has a step with a label**, ascending, with where such steps lead. -/
def successorSets (lts : Lts) (label : String) : List (Nat × StateSet) :=
  (lts.successorMap label).toList

end Lts

end ModalMu
