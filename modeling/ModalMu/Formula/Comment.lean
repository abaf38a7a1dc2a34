import ModalMu.Text.Lines

/-!
# Comments in formula files

A line of a formula file whose first character that is not blank is `%` is a comment.

* `stripComments` — the text without its comments; the lines that stay are put together again
  with plain line feeds.
-/

namespace ModalMu

/-- Whether a line is a comment. -/
def isComment (line : List Char) : Bool := (Text.trimLeft line).head? == some '%'

/-- **The text without its comment lines.** -/
def stripComments (s : String) : String :=
  String.ofList (Text.joinLines ((Text.lines s.toList).filter (!isComment ·)))

end ModalMu
