import ModalMu.Formula.Scoping
import Std.Data.TreeMap

/-!
# Dependency analysis

An evaluation that keeps its approximations has to know which of them become stale when an
enclosing fixpoint changes. The analysis records this for each fixpoint node, by number:

* whether the node is *open*, that is, mentions a variable that it does not bind;
* the open nodes of its own kind inside it, each after those inside it.

If two nodes share a number, the later one (in the order of `Formula.fixpoints`) is recorded.
-/

namespace ModalMu

/-- What is recorded about one fixpoint node. -/
structure BinderInfo where
  /-- the variable that it binds -/
  var : Var
  /-- least or greatest -/
  kind : Kind
  /-- it mentions a variable that it does not bind -/
  isOpen : Bool
  /-- the open nodes of its kind inside it -/
  openInside : List Nat
  deriving DecidableEq, Repr

/-- **Facts about fixpoint nodes, by number.** -/
structure Analysis where
  /-- the recorded nodes -/
  binders : Std.TreeMap Nat BinderInfo

namespace Analysis

/-- Nothing is recorded. -/
def empty : Analysis := ⟨∅⟩

/-- What is recorded under a number. -/
def get? (a : Analysis) (id : Nat) : Option BinderInfo := a.binders[id]?

/-- How many numbers are recorded. -/
def size (a : Analysis) : Nat := a.binders.size

/-- Whether nothing is recorded. -/
def isEmpty (a : Analysis) : Bool := a.binders.isEmpty

/-- Everything recorded, by ascending number. -/
def entries (a : Analysis) : List (Nat × BinderInfo) := a.binders.toList

/-- **Whether two analyses record the same.** -/
def sameAs (a b : Analysis) : Bool := a.entries == b.entries

/-- Whether an open node is recorded under a number. -/
def isOpen (a : Analysis) (id : Nat) : Bool := (a.get? id).any (·.isOpen)

/-- Whether a node of kind `k` is recorded under a number. -/
def hasKind (a : Analysis) (k : Kind) (id : Nat) : Bool := (a.get? id).any (·.kind == k)

/-- Records a node, with no nodes inside it so far. -/
def record (a : Analysis) (g : Fixpoint) : Analysis :=
  ⟨a.binders.insert g.binder.id ⟨g.binder.var, g.kind, g.isOpen, []⟩⟩

/-- The nodes of a formula that are recorded as open, each after those inside it. -/
def openIds (a : Analysis) : Formula → List Nat
  | .tt | .ff | .var _ => []
  | .and l r | .or l r => a.openIds l ++ a.openIds r
  | .dia _ f | .box _ f => a.openIds f
  | .fix _ b body => if a.isOpen b.id then a.openIds body ++ [b.id] else a.openIds body

/-- Adds to the record of a node the open nodes of its kind inside it, as `flags` has them. -/
def link (flags a : Analysis) (g : Fixpoint) : Analysis :=
  ⟨a.binders.modify g.binder.id fun info =>
    { info with openInside := (flags.openIds g.body).filter (flags.hasKind g.kind) }⟩

end Analysis

/-- **The analysis of a formula**: first every node with its open flag, then what lies inside. -/
def Formula.analyze (f : Formula) : Analysis :=
  let flags := f.fixpoints.foldl Analysis.record Analysis.empty
  f.fixpoints.foldl (Analysis.link flags) flags

end ModalMu
