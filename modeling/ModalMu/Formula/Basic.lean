/-!
# Formulas of the modal mu-calculus

A formula is built from the constants, variables, conjunction, disjunction, the two modalities
over an action, and least and greatest fixpoints. There is no negation, so every formula is
monotone in its variables.

* `Kind` — the two kinds of fixpoint, opposite to each other;
* `Binder` — a fixpoint node's identity and the variable that it binds;
* `Formula` — the formulas; `subformulas` lists the nodes, a node before what it contains;
* `Fixpoint` — a fixpoint node taken apart; `Formula.fixpoints` lists them, a node after what it
  contains.

The reader of formula text numbers binders `0, 1, 2, …` and keeps nested variables apart. Nothing
here relies on it: identities may repeat, and a variable may be bound again inside its scope.
-/

namespace ModalMu

/-- A recursion variable; formula text has one upper-case letter for each. -/
abbrev Var := Char

/-- **The two kinds of fixpoint.** -/
inductive Kind where
  /-- least, grown from the empty set -/
  | least
  /-- greatest, cut down from the set of all states -/
  | greatest
  deriving DecidableEq, Repr

namespace Kind

/-- The other kind. -/
def opposite : Kind → Kind
  | least => greatest
  | greatest => least

@[simp] theorem opposite_opposite (k : Kind) : k.opposite.opposite = k := by
  cases k <;> rfl

/-- A kind differs from another one exactly when it is its opposite. -/
theorem ne_iff_eq_opposite {j k : Kind} : j ≠ k ↔ j = k.opposite := by
  cases j <;> cases k <;> decide

end Kind

/-- The identity of a fixpoint node and the variable that it binds. -/
structure Binder where
  /-- the node's number -/
  id : Nat
  /-- the variable bound in the node's body -/
  var : Var
  deriving DecidableEq, Repr

/-- **Formulas of the modal mu-calculus.** -/
inductive Formula where
  /-- holds in every state -/
  | tt
  /-- holds in no state -/
  | ff
  /-- holds where the variable does -/
  | var (x : Var)
  /-- both hold -/
  | and (l r : Formula)
  /-- one of them holds -/
  | or (l r : Formula)
  /-- some step with the action leads to where the formula holds -/
  | dia (action : String) (f : Formula)
  /-- every step with the action leads to where the formula holds -/
  | box (action : String) (f : Formula)
  /-- a fixpoint of the body, as a function of the binder's variable -/
  | fix (k : Kind) (b : Binder) (body : Formula)
  deriving DecidableEq, Repr

/-- A fixpoint node taken apart. -/
structure Fixpoint where
  /-- least or greatest -/
  kind : Kind
  /-- the identity and the variable -/
  binder : Binder
  /-- what the fixpoint is of -/
  body : Formula
  deriving DecidableEq, Repr

namespace Fixpoint

/-- The node put together again. -/
def toFormula (g : Fixpoint) : Formula := .fix g.kind g.binder g.body

end Fixpoint

namespace Formula

/-- The formula's outermost node taken apart, if it is a fixpoint. -/
def asFixpoint? : Formula → Option Fixpoint
  | fix k b body => some ⟨k, b, body⟩
  | _ => none

/-- **All subformulas**, the formula itself included, each before those inside it. -/
def subformulas : Formula → List Formula
  | tt => [tt]
  | ff => [ff]
  | var x => [var x]
  | and l r => and l r :: (l.subformulas ++ r.subformulas)
  | or l r => or l r :: (l.subformulas ++ r.subformulas)
  | dia a f => dia a f :: f.subformulas
  | box a f => box a f :: f.subformulas
  | fix k b body => fix k b body :: body.subformulas

/-- **All fixpoint nodes**, each after those inside it. -/
def fixpoints : Formula → List Fixpoint
  | tt | ff | var _ => []
  | and l r | or l r => l.fixpoints ++ r.fixpoints
  | dia _ f | box _ f => f.fixpoints
  | fix k b body => body.fixpoints ++ [⟨k, b, body⟩]

/-- The numbers of all fixpoint nodes, each after those inside it. -/
def binderIds (f : Formula) : List Nat := f.fixpoints.map (·.binder.id)

/-- Whether a variable occurs in the formula, bound or not. -/
def occurs (x : Var) : Formula → Bool
  | tt | ff => false
  | var y => y == x
  | and l r | or l r => l.occurs x || r.occurs x
  | dia _ f | box _ f => f.occurs x
  | fix _ _ body => body.occurs x

end Formula

end ModalMu
