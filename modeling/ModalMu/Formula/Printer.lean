import ModalMu.Formula.Basic

/-!
# Formulas as text

* `Kind.keyword`, `Kind.symbol` — how the two kinds of fixpoint are written;
* `Formula.render` — the text that the reader of formulas takes; operators are always bracketed,
  and nothing else is;
* `Formula.latex` — the same for a typesetter, with the body of a fixpoint in brackets.
-/

namespace ModalMu

namespace Kind

/-- The word that introduces a fixpoint in formula text. -/
def keyword : Kind → String
  | least => "mu"
  | greatest => "nu"

/-- The typesetter's symbol. -/
def symbol : Kind → String
  | least => "\\mu"
  | greatest => "\\nu"

end Kind

namespace Formula

/-- **The formula as text.** -/
def render : Formula → String
  | tt => "true"
  | ff => "false"
  | var x => String.singleton x
  | and l r => "(" ++ l.render ++ " && " ++ r.render ++ ")"
  | or l r => "(" ++ l.render ++ " || " ++ r.render ++ ")"
  | dia a f => "<" ++ a ++ ">" ++ f.render
  | box a f => "[" ++ a ++ "]" ++ f.render
  | fix k b body => k.keyword ++ " " ++ String.singleton b.var ++ "." ++ body.render

/-- **The formula for a typesetter.** -/
def latex : Formula → String
  | tt => "\\top"
  | ff => "\\bot"
  | var x => String.singleton x
  | and l r => "(" ++ l.latex ++ " \\wedge " ++ r.latex ++ ")"
  | or l r => "(" ++ l.latex ++ " \\vee " ++ r.latex ++ ")"
  | dia a f => "\\langle " ++ a ++ " \\rangle " ++ f.latex
  | box a f => "[" ++ a ++ "] " ++ f.latex
  | fix k b body => k.symbol ++ " " ++ String.singleton b.var ++ ".(" ++ body.latex ++ ")"

end Formula

end ModalMu
