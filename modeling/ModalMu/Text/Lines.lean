import ModalMu.Text.Blank

/-!
# Lines of a text

A line ends at a line feed, and one carriage return right before the line feed belongs to the
line's end. What follows the last line feed is a line of its own unless it is empty; a carriage
return that no line feed follows is an ordinary character.

* `pieces` — the pieces of a text between the places of one character;
* `segments` — the pieces between the line feeds;
* `lines`, `linesOf` — the lines without their ends;
* `joinLines` — lines put together again, with a line feed between two of them;
* `endLines` — lines put together again, with a line feed at the end of each.
-/

namespace ModalMu

namespace Text

/-- Puts a character in front of the first piece. -/
def consFirst (c : Char) : List (List Char) → List (List Char)
  | [] => [[c]]
  | piece :: rest => (c :: piece) :: rest

/-- The pieces of a text between the places where `sep` stands; there is one piece more than such
places. -/
def pieces (sep : Char) (cs : List Char) : List (List Char) :=
  cs.foldr (fun c found => if c = sep then [] :: found else consFirst c found) [[]]

/-- The pieces of a text between its line feeds. -/
def segments (cs : List Char) : List (List Char) := pieces '\n' cs

/-- A piece without the carriage return at its end, if there is one. -/
def dropReturn (cs : List Char) : List Char :=
  if cs.getLast? = some '\r' then cs.dropLast else cs

/-- **The lines of a text.** Every piece but the last was ended by a line feed and loses one
carriage return; the last one counts only if it holds something. -/
def lines (cs : List Char) : List (List Char) :=
  let found := segments cs
  found.dropLast.map dropReturn ++ found.getLast?.toList.filter (!·.isEmpty)

/-- The lines of a string. -/
def linesOf (s : String) : List String := (lines s.toList).map String.ofList

/-- Lines put together with a line feed between any two of them. -/
def joinLines (ls : List (List Char)) : List Char := List.intercalate ['\n'] ls

/-- Lines put together with a line feed at the end of each. -/
def endLines (ls : List String) : String := String.join (ls.map (· ++ "\n"))

/-- The number of line feeds in a text. -/
def lineFeeds (cs : List Char) : Nat := cs.count '\n'

end Text

end ModalMu
