import ModalMu.StateSet.Basic

/-!
# The members of a set

* `toList` — the members, ascending, read off word by word;
* `size` — their number, by counting the bits of each word, without listing them;
* `isEmpty`, `isFull` — the two extreme cases;
* `render`, `renderAll` — the set as text, cut after twenty members or whole.
-/

namespace ModalMu

namespace StateSet

/-- **The members, ascending.** -/
def toList (s : StateSet) : List Nat :=
  s.words.toList.zipIdx.flatMap fun (w, k) => (Word.ones w).map (64 * k + ·)

/-- **How many members there are.** -/
def size (s : StateSet) : Nat := s.words.foldl (fun n w => n + Word.population w) 0

/-- Whether there is no member. -/
def isEmpty (s : StateSet) : Bool := s.words.all (· == 0)

/-- Whether every state of the universe is a member. -/
def isFull (s : StateSet) : Bool := s.size == s.univ

/-- How many members a shortened text shows. -/
def shownMembers : Nat := 20

/-- **The set as text**, in square brackets, with an ellipsis after the first twenty members. -/
def render (s : StateSet) : String :=
  let members := s.toList
  let shown := ", ".intercalate ((members.take shownMembers).map toString)
  "[" ++ shown ++ (if shownMembers < members.length then ", ...]" else "]")

/-- All members as text, in curly brackets. -/
def renderAll (s : StateSet) : String :=
  "\x7b" ++ ", ".intercalate (s.toList.map toString) ++ "\x7d"

end StateSet

end ModalMu
