import ModalMu.Formula.Shape

/-!
# Reading formula text

The reader takes the blanks off a text, looks at its outermost shape and reads the parts. Binders
are numbered in the order in which their fixpoints begin in the text. A fixpoint may not bind a
variable that an enclosing one binds.

* `SyntaxError` — why a text is no formula; it holds the piece of text at fault, without blanks at
  its ends;
* `Formula.read` — reads a piece of text below some binders;
* `Formula.parse` — reads a whole text.
-/

namespace ModalMu

/-- **Why a text is no formula.** -/
inductive SyntaxError where
  /-- the piece has none of the shapes of a formula -/
  | unmatched (piece : String)
  /-- the piece is a fixpoint that binds a variable which an enclosing one binds already -/
  | shadowed (x : Var) (piece : String)
  deriving DecidableEq, Repr

/-- The error as text. -/
def SyntaxError.message : SyntaxError → String
  | .unmatched piece => "failed to parse input \"" ++ piece ++ "\""
  | .shadowed x piece =>
    "variable " ++ String.singleton x ++ " is already bound by an enclosing fixpoint in \"" ++
      piece ++ "\""

namespace Formula

/-- What remains of a text after trimming and taking one part is shorter. -/
theorem length_part_lt {cs p : List Char} {shape : Shape} (h : Shape.of (Text.trim cs) = shape)
    (hp : p ∈ shape.parts) : p.length < cs.length :=
  Nat.lt_of_lt_of_le (Shape.length_lt_of_mem_parts (h ▸ hp)) (Text.length_trim_le cs)

/-- **Reads a piece of text** that stands inside binders of the variables `scope`. The next binder
gets the number `next`; the answer tells the number after the last one given. -/
def read (scope : List Var) (next : Nat) (cs : List Char) : Except SyntaxError (Formula × Nat) :=
  match _hshape : Shape.of (Text.trim cs) with
  | .tt => .ok (tt, next)
  | .ff => .ok (ff, next)
  | .var x => .ok (var x, next)
  | .and l r => do
    let (f, next) ← read scope next l
    let (g, next) ← read scope next r
    return (and f g, next)
  | .or l r => do
    let (f, next) ← read scope next l
    let (g, next) ← read scope next r
    return (or f g, next)
  | .dia action rest => do
    let (f, next) ← read scope next rest
    return (dia (String.ofList action) f, next)
  | .box action rest => do
    let (f, next) ← read scope next rest
    return (box (String.ofList action) f, next)
  | .fix k x body =>
    if x ∈ scope then .error (.shadowed x (String.ofList (Text.trim cs)))
    else do
      let (f, after) ← read (x :: scope) (next + 1) body
      return (fix k ⟨next, x⟩ f, after)
  | .group inner => read scope next inner
  | .unmatched => .error (.unmatched (String.ofList (Text.trim cs)))
termination_by cs.length
decreasing_by all_goals exact length_part_lt _hshape (by simp [Shape.parts])

/-- **Reads a formula.** -/
def parse (s : String) : Except SyntaxError Formula :=
  (read [] 0 s.toList).map (·.1)

end Formula

end ModalMu
