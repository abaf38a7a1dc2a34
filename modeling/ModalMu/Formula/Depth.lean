import ModalMu.Formula.Basic

/-!
# Depths of a formula

Three measures of how fixpoints are nested, each an upper bound of the one after it:

* `nestingDepth` — the longest chain of nested fixpoints;
* `alternationDepth` — the longest chain whose kinds alternate;
* `dependentDepth` — as before, where the first step of a chain counts only if the inner fixpoint
  mentions the variable of the outer one.

Alternating chains are measured by `chains`, which keeps for each kind the length of the longest
chain that starts with a fixpoint of that kind, in one pass over the formula.
-/

namespace ModalMu

/-- Lengths of the longest alternating chains, by the kind of their first fixpoint. -/
structure Chains where
  /-- of the chains that start with a least fixpoint -/
  least : Nat
  /-- of the chains that start with a greatest fixpoint -/
  greatest : Nat
  deriving DecidableEq, Repr

namespace Chains

/-- There is no chain. -/
def none : Chains := ⟨0, 0⟩

/-- The longest chains on either side. -/
def sup (c d : Chains) : Chains := ⟨max c.least d.least, max c.greatest d.greatest⟩

/-- The chains of a fixpoint, from those of its body: it can stand in front of every chain that
starts with the opposite kind. -/
def enter (c : Chains) : Kind → Chains
  | .least => ⟨max c.least (c.greatest + 1), c.greatest⟩
  | .greatest => ⟨c.least, max c.greatest (c.least + 1)⟩

/-- The length of the longest chain that starts with a given kind. -/
def starting (c : Chains) : Kind → Nat
  | .least => c.least
  | .greatest => c.greatest

/-- The length of the longest chain. -/
def longest (c : Chains) : Nat := max c.least c.greatest

end Chains

/-- The largest number of a list, or zero. -/
def largest (ns : List Nat) : Nat := ns.foldl max 0

namespace Formula

/-- **The longest chain of nested fixpoints.** -/
def nestingDepth : Formula → Nat
  | tt | ff | var _ => 0
  | and l r | or l r => max l.nestingDepth r.nestingDepth
  | dia _ f | box _ f => f.nestingDepth
  | fix _ _ body => body.nestingDepth + 1

/-- The longest alternating chains of the formula, by the kind they start with. -/
def chains : Formula → Chains
  | tt | ff | var _ => Chains.none
  | and l r | or l r => l.chains.sup r.chains
  | dia _ f | box _ f => f.chains
  | fix k _ body => body.chains.enter k

/-- **The longest chain of nested fixpoints with alternating kinds.** -/
def alternationDepth (f : Formula) : Nat := f.chains.longest

/-- The largest alternation depth of the fixpoints of kind `k` in `f` that mention `x`. -/
def mentioningDepth (k : Kind) (x : Var) (f : Formula) : Nat :=
  largest ((f.fixpoints.filter fun g => g.kind == k && g.toFormula.occurs x).map
    (·.toFormula.alternationDepth))

/-- **The alternation depth below dependent fixpoints.** A fixpoint stands in front of the
alternating chains inside it whose first fixpoint has the opposite kind and mentions its
variable. -/
def dependentDepth : Formula → Nat
  | tt | ff | var _ => 0
  | and l r | or l r => max l.dependentDepth r.dependentDepth
  | dia _ f | box _ f => f.dependentDepth
  | fix k b body => max body.dependentDepth (body.mentioningDepth k.opposite b.var + 1)

end Formula

end ModalMu
