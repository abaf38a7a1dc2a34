import ModalMu.Lts.Basic
import ModalMu.Text.Lines

/-!
# Aldebaran text

A transition system is written as a header `des (first, transitions, states)`, whose word may be
missing, followed by one `(start, "label", target)` for each transition. Blanks may stand around
each word, number, comma, label, header and transition. A number is `0` or starts with another
digit, and a label is whatever stands between two quotes.

* `Reader` — reads a value off the front of a text, or tells where it stopped;
* `Aldebaran.read` — the header and the transitions of a text;
* `Aldebaran.parse` — the system; the number of transitions is compared with the header before any
  state is looked at.

Each reader looks at one character to decide how to go on, so it stops at the first character
that no text of this form could have there.
-/

namespace ModalMu

namespace Aldebaran

/-! ### Readers -/

/-- Where reading stopped: the text that was left, and the character that did not fit. There is
none at the end of the text, nor at a number that is too large. -/
structure Stop where
  /-- the text from the place at fault on -/
  rest : List Char
  /-- the character at fault -/
  found : Option Char
  deriving DecidableEq, Repr

/-- **Reads a value off the front of a text.** -/
abbrev Reader := StateT (List Char) (Except Stop)

/-- Stops in front of what is left. -/
def stop {α : Type} : Reader α := fun cs => .error ⟨cs, cs.head?⟩

/-- Passes over blanks. -/
def blanks : Reader Unit := fun cs => .ok ((), Text.trimLeft cs)

/-- Passes over one given character. -/
def expect (c : Char) : Reader Unit
  | d :: rest => if d = c then .ok ((), rest) else stop (d :: rest)
  | [] => stop []

/-- The characters up to the first one that does not satisfy `p`. -/
def takeWhile (p : Char → Bool) : Reader (List Char) :=
  fun cs => .ok (cs.takeWhile p, cs.dropWhile p)

/-- The value of a row of decimal digits. -/
def decimal (ds : List Char) : Nat := ds.foldl (fun n d => 10 * n + (d.toNat - 48)) 0

/-- The first number that is too large to be written: `2 ^ 64`. -/
def numberBound : Nat := 0x10000000000000000

/-- **A number**, without blanks: a zero, or a row of digits that starts with another one. One
that is too large is refused as a whole. -/
def digits : Reader Nat
  | '0' :: rest => .ok (0, rest)
  | d :: rest =>
    if d.isDigit then
      let n := decimal (d :: rest.takeWhile Char.isDigit)
      if n < numberBound then .ok (n, rest.dropWhile Char.isDigit)
      else .error ⟨d :: rest, none⟩
    else stop (d :: rest)
  | [] => stop []

/-- A number with the blanks around it. -/
def number : Reader Nat := do
  blanks
  let n ← digits
  blanks
  return n

/-- **A label** between its quotes. -/
def label : Reader String := do
  expect '"'
  let cs ← takeWhile (· ≠ '"')
  expect '"'
  return String.ofList cs

/-- The word in front of the header, if there is one. -/
def keyword : Reader Unit := fun cs =>
  match cs with
  | 'd' :: rest => (do expect 'e'; expect 's'; blanks : Reader Unit) rest
  | _ => .ok ((), cs)

/-- The three numbers in front of the transitions. -/
structure Header where
  /-- the first state -/
  first : Nat
  /-- how many transitions are announced -/
  transitions : Nat
  /-- how many states there are -/
  states : Nat
  deriving DecidableEq, Repr

/-- **The header**, with the blanks around it. -/
def header : Reader Header := do
  blanks
  keyword
  expect '('
  let first ← number
  expect ','
  let transitions ← number
  expect ','
  let states ← number
  expect ')'
  blanks
  return ⟨first, transitions, states⟩

/-- What follows the opening bracket of a transition, with the blanks after it. -/
def transitionBody : Reader Transition := do
  let start ← number
  expect ','
  blanks
  let label ← label
  blanks
  expect ','
  let target ← number
  expect ')'
  blanks
  return ⟨start, label, target⟩

/-- **One transition**, with the blanks after it. -/
def transition : Reader Transition := do
  expect '('
  transitionBody

/-! ### Readers do not lengthen the text -/

/-- What a reader leaves is no longer than what it was given. -/
def Shortens {α : Type} (r : Reader α) : Prop :=
  ∀ (cs : List Char) (a : α) (rest : List Char), r cs = .ok (a, rest) → rest.length ≤ cs.length

theorem Shortens.pure {α : Type} (a : α) : Shortens (Pure.pure a : Reader α) := by
  intro cs b rest h
  cases h
  exact Nat.le_refl _

theorem Shortens.bind {α β : Type} {r : Reader α} {f : α → Reader β} (hr : Shortens r)
    (hf : ∀ a, Shortens (f a)) : Shortens (r >>= f) := by
  intro cs b rest h
  cases hrun : r cs with
  | error e => simp [Bind.bind, StateT.bind, Except.bind, hrun] at h
  | ok v =>
    have h' : f v.1 v.2 = .ok (b, rest) := by
      simpa [Bind.bind, StateT.bind, Except.bind, hrun] using h
    exact Nat.le_trans (hf _ _ _ _ h') (hr _ _ _ hrun)

theorem Shortens.blanks : Shortens blanks := by
  intro cs a rest h
  cases h
  exact Text.length_trimLeft_le cs

theorem Shortens.takeWhile (p : Char → Bool) : Shortens (takeWhile p) := by
  intro cs a rest h
  cases h
  exact (List.dropWhile_sublist p).length_le

/-- Passing over a character leaves a shorter text. -/
theorem length_expect {c : Char} {cs rest : List Char} {a : Unit}
    (h : expect c cs = .ok (a, rest)) : rest.length < cs.length := by
  unfold expect at h
  split at h
  · split at h
    · cases h
      exact Nat.lt_succ_self _
    · cases h
  · cases h

theorem Shortens.expect (c : Char) : Shortens (expect c) :=
  fun _ _ _ h => Nat.le_of_lt (length_expect h)

theorem Shortens.digits : Shortens digits := by
  intro cs n rest h
  unfold Aldebaran.digits at h
  split at h
  · cases h
    exact Nat.le_succ _
  · split at h
    · dsimp only at h
      split at h
      · cases h
        exact Nat.le_succ_of_le (List.dropWhile_sublist _).length_le
      · cases h
    · cases h
  · cases h

theorem Shortens.number : Shortens number :=
  .bind .blanks fun _ => .bind .digits fun _ => .bind .blanks fun _ => .pure _

theorem Shortens.label : Shortens label :=
  .bind (.expect _) fun _ => .bind (.takeWhile _) fun _ => .bind (.expect _) fun _ => .pure _

theorem Shortens.transitionBody : Shortens transitionBody :=
  .bind .number fun _ => .bind (.expect _) fun _ => .bind .blanks fun _ =>
    .bind .label fun _ => .bind .blanks fun _ => .bind (.expect _) fun _ =>
    .bind .number fun _ => .bind (.expect _) fun _ => .bind .blanks fun _ => .pure _

/-- **Reading a transition leaves a shorter text**, so reading one after the other ends. -/
theorem length_transition {cs rest : List Char} {t : Transition}
    (h : transition cs = .ok (t, rest)) : rest.length < cs.length := by
  cases hopen : expect '(' cs with
  | error e => simp [transition, Bind.bind, StateT.bind, Except.bind, hopen] at h
  | ok v =>
    have hbody : transitionBody v.2 = .ok (t, rest) := by
      simpa [transition, Bind.bind, StateT.bind, Except.bind, hopen] using h
    exact Nat.lt_of_le_of_lt (Shortens.transitionBody _ _ _ hbody) (length_expect hopen)

/-! ### Whole texts -/

/-- The transitions up to the end of the text, after those in `seen`. -/
def transitions (seen : Array Transition) (cs : List Char) : Except Stop (List Transition) :=
  match cs with
  | [] => .ok seen.toList
  | c :: rest =>
    match _hread : transition (c :: rest) with
    | .error s => .error s
    | .ok (t, left) => transitions (seen.push t) left
termination_by cs.length
decreasing_by exact length_transition _hread

/-- The header and the transitions, or where reading stopped. -/
def readChars (cs : List Char) : Except Stop (Header × List Transition) := do
  let (h, rest) ← header cs
  let ts ← transitions #[] rest
  return (h, ts)

/-- **A place at which a text is no Aldebaran text.** -/
structure Malformed where
  /-- the line, counted from one -/
  line : Nat
  /-- that line, without blanks at its ends -/
  text : String
  /-- the character at fault, or none at the end of the text -/
  found : Option Char
  deriving DecidableEq, Repr

/-- What was found, in words. -/
def Malformed.foundText (m : Malformed) : String :=
  match m.found with
  | none => "found end of input"
  | some c => "found " ++ Text.quote (String.singleton c)

/-- The place in the text at which reading stopped. -/
def locate (cs : List Char) (s : Stop) : Malformed :=
  let line := Text.lineFeeds (cs.take (cs.length - s.rest.length))
  { line := line + 1
    text := String.ofList (Text.trim ((Text.lines cs)[line]?.getD []))
    found := s.found }

/-- **The header and the transitions of a text.** -/
def read (s : String) : Except Malformed (Header × List Transition) :=
  (readChars s.toList).mapError (locate s.toList)

/-- **Why a text is no transition system.** -/
inductive Error where
  /-- it is no Aldebaran text -/
  | malformed (place : Malformed)
  /-- the header announces another number of transitions -/
  | transitionCount (declared actual : Nat)
  /-- the transitions make no system -/
  | build (e : BuildError)
  deriving DecidableEq, Repr

/-- The error as text. -/
def Error.message : Error → String
  | .malformed place =>
    "syntax error at line " ++ toString place.line ++ ": " ++ place.foundText ++ " (in " ++
      Text.quote place.text ++ ")"
  | .transitionCount declared actual =>
    "wrong number of transitions: got " ++ toString actual ++ ", expected " ++ toString declared
  | .build e => e.message

/-- Reads a transition system, where `fits` tells whether there is room for so many states. -/
def parseWithin (fits : Nat → Bool) (s : String) : Except Error Lts := do
  let (h, ts) ← (read s).mapError .malformed
  if ts.length = h.transitions then (Lts.build fits h.first h.states ts).mapError .build
  else throw (.transitionCount h.transitions ts.length)

/-- **Reads a transition system.** -/
def parse (s : String) : Except Error Lts := parseWithin (· ≤ Lts.capacity) s

end Aldebaran

end ModalMu
