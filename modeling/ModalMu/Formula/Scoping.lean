import ModalMu.Formula.Basic

/-!
# Scoping

Which variables a formula mentions without binding them, found in two ways:

* `Formula.freeVars` — from the inside out: a fixpoint takes its variable off the free variables
  of its body;
* `Formula.scoping` — from the outside in, with the variables bound so far; this walk also lists
  the fixpoint nodes, each after those inside it.

Both list the variables in the order of their first free occurrence.
-/

namespace ModalMu

/-- A list of distinct variables with one more at its end, unless it is there already. -/
def addVar (vars : List Var) (x : Var) : List Var := if x ∈ vars then vars else vars ++ [x]

theorem mem_addVar {vars : List Var} {x y : Var} : y ∈ addVar vars x ↔ y ∈ vars ∨ y = x := by
  unfold addVar
  split
  · rename_i h
    constructor
    · exact Or.inl
    · rintro (hy | rfl)
      · exact hy
      · exact h
  · simp

/-- The fixpoint nodes and the free variables of a formula. -/
structure Scoping where
  /-- number and kind of every fixpoint node, each after those inside it -/
  binders : List (Nat × Kind)
  /-- the variables that are mentioned and not bound, by first occurrence -/
  free : List Var
  deriving DecidableEq, Repr

namespace Scoping

/-- Nothing was met yet. -/
def empty : Scoping := ⟨[], []⟩

/-- Adds what a formula below the binders of `bound` contributes. -/
def visit (bound : List Var) : Formula → Scoping → Scoping
  | .tt, s | .ff, s => s
  | .var x, s => if x ∈ bound then s else { s with free := addVar s.free x }
  | .and l r, s | .or l r, s => visit bound r (visit bound l s)
  | .dia _ f, s | .box _ f, s => visit bound f s
  | .fix k b body, s =>
    let inner := visit (b.var :: bound) body s
    { inner with binders := inner.binders ++ [(b.id, k)] }

/-- **Whether two formulas are scoped alike**: the same fixpoint nodes in the same order, and the
same free variables in any order. -/
def sameAs (s t : Scoping) : Bool :=
  s.binders == t.binders && s.free.all (· ∈ t.free) && t.free.all (· ∈ s.free)

end Scoping

namespace Formula

/-- **The variables mentioned and not bound**, from the inside out. -/
def freeVars : Formula → List Var
  | tt | ff => []
  | var x => [x]
  | and l r | or l r => r.freeVars.foldl addVar l.freeVars
  | dia _ f | box _ f => f.freeVars
  | fix _ b body => body.freeVars.erase b.var

/-- **The fixpoint nodes and the free variables**, from the outside in. -/
def scoping (f : Formula) : Scoping := Scoping.visit [] f Scoping.empty

end Formula

/-- Whether a fixpoint mentions a variable that it does not bind. -/
def Fixpoint.isOpen (g : Fixpoint) : Bool := !g.toFormula.freeVars.isEmpty

end ModalMu
