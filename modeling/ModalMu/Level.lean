/-!
# Log levels

Messages have a level, and a reader who asks for one level sees it and those before it.

* `Level.ofName?` — the level that a word names, in any mixture of cases;
* `Level.shows` — whether a message of some level is seen.
-/

namespace ModalMu

/-- How much a reader of the log wants to see. -/
inductive Level where
  /-- nothing -/
  | off
  /-- what went wrong -/
  | error
  /-- what looks wrong -/
  | warn
  /-- what goes on -/
  | info
  /-- each decision of the solver -/
  | debug
  /-- each approximation -/
  | trace
  deriving DecidableEq, Repr

namespace Level

/-- The level's name. -/
def name : Level → String
  | off => "OFF"
  | error => "ERROR"
  | warn => "WARN"
  | info => "INFO"
  | debug => "DEBUG"
  | trace => "TRACE"

/-- The place of a level, from the one that shows least. -/
def rank : Level → Nat
  | off => 0
  | error => 1
  | warn => 2
  | info => 3
  | debug => 4
  | trace => 5

/-- All levels, from the one that shows least. -/
def all : List Level := [off, error, warn, info, debug, trace]

/-- **The level that a word names.** Upper and lower case do not matter. -/
def ofName? (word : String) : Option Level :=
  all.find? fun level => level.name.toList == word.toList.map Char.toUpper

/-- Whether a reader who asks for `asked` sees a message of level `message`. -/
def shows (asked message : Level) : Bool := message.rank ≤ asked.rank

end Level

end ModalMu
