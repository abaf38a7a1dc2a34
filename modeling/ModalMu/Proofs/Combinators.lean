import ModalMu.Proofs.Malformed

/-!
# Reading by trial

A reader looks at one character and knows how to go on. A parser put together from smaller ones by
trial does not: it tries one thing, gives back what that took when it fails, and tries another. So
a failure does not end the reading. The one that happened furthest on is kept, and reported if the
text is refused in the end, however much was given back since.

* `Parser` — a parser that keeps the furthest failure, and `andThen`, `orElse`, `orNot`,
  `repeated`, `tryMap`, `padded` — the ways to put parsers together;
* `Parser.document` — the grammar of Aldebaran text as such a parser;
* `Mirrors` — **a parser that does what a reader does**, and never keeps a failure from further on
  than it went. It is closed under sequencing and padding;
* `alike_header`, `row_arrow` — the two places where something is given back: the word in
  front of the header, and the attempt at one more transition;
* `readByTrial_eq_readChars` — **the furthest failure is where the reader stops.**
-/

namespace ModalMu

namespace Aldebaran

open Text (trimLeft trimLeft_trimLeft)

/-! ### Failures -/

/-- **A failure**: how much of the text was left where it happened, and what is told about it. -/
structure Miss where
  /-- the length of the text that was left -/
  left : Nat
  /-- what is reported -/
  report : Stop
  deriving DecidableEq, Repr

/-- The next character does not fit. -/
def Miss.here (cs : List Char) : Miss := ⟨cs.length, ⟨cs, cs.head?⟩⟩

/-- **The further one** of a failure and one that was kept before it. Of two at the same place it
is the later one. -/
def furthest (before : Option Miss) (m : Miss) : Miss :=
  match before with
  | some m' => if m'.left < m.left then m' else m
  | none => m

/-- What is kept of two failures, either of which may be missing. -/
def keep (before : Option Miss) : Option Miss → Option Miss
  | some m => some (furthest before m)
  | none => before

theorem furthest_of_le {before : Option Miss} {m : Miss} (h : ∀ m' ∈ before, m.left ≤ m'.left) :
    furthest before m = m := by
  cases before with
  | none => rfl
  | some m' => exact if_neg (Nat.not_lt.2 (h m' rfl))

/-- What failed at the next character or behind it counts, and not that the next character does not
fit. -/
theorem furthest_here {cs : List Char} {m : Miss} (hle : m.left ≤ cs.length)
    (hhere : m.left = cs.length → m = .here cs) : furthest (some m) (.here cs) = m := by
  rcases Nat.lt_or_eq_of_le hle with hlt | heq
  · exact if_pos hlt
  · rw [← hhere heq]
    exact ite_self m

theorem length_le_left_here {cs : List Char} : ∀ m ∈ some (Miss.here cs), cs.length ≤ m.left := by
  rintro _ ⟨⟩
  exact Nat.le_refl _

/-- A failure at or behind some place counts more than what was kept up to that place. -/
theorem keep_some {kept : Option Miss} {m : Miss} {n : Nat} (hkept : ∀ m' ∈ kept, n ≤ m'.left)
    (hle : m.left ≤ n) : keep kept (some m) = some m :=
  congrArg some (furthest_of_le fun m' hm' => Nat.le_trans hle (hkept m' hm'))

theorem le_left_of_mem_keep {before later : Option Miss} {n : Nat}
    (hbefore : ∀ m ∈ before, n ≤ m.left) (hlater : ∀ m ∈ later, n ≤ m.left) :
    ∀ m ∈ keep before later, n ≤ m.left := by
  cases later with
  | none => exact hbefore
  | some m =>
    rintro _ ⟨⟩
    cases before with
    | none => exact hlater m rfl
    | some m' =>
      rw [furthest]
      split
      · exact hbefore m' rfl
      · exact hlater m rfl

/-! ### Parsers -/

/-- **What a parser that succeeds gives**: a value, the text that is left, and the furthest failure
on the way. -/
structure Parsed (α : Type) where
  /-- what was read -/
  value : α
  /-- the text that is left -/
  rest : List Char
  /-- the furthest failure that did not end the reading -/
  kept : Option Miss

/-- **Tries to read a value off the front of a text.** -/
abbrev Parser (α : Type) := List Char → Except Miss (Parsed α)

namespace Parser

variable {α β : Type}

/-- One character of a kind. -/
def satisfy (ok : Char → Bool) : Parser Char
  | c :: rest => if ok c then .ok ⟨c, rest, none⟩ else .error (.here (c :: rest))
  | [] => .error (.here [])

/-- A given word, which fails at its first character that is not there. -/
def exactly : List Char → Parser Unit
  | [], cs => .ok ⟨(), cs, none⟩
  | c :: word, d :: rest => if d = c then exactly word rest else .error (.here (d :: rest))
  | _ :: _, [] => .error (.here [])

/-- The end of the text. -/
def endOfText : Parser Unit
  | [] => .ok ⟨(), [], none⟩
  | c :: rest => .error (.here (c :: rest))

/-- Changes the value. -/
def map (f : α → β) (p : Parser α) : Parser β := fun cs =>
  match p cs with
  | .error m => .error m
  | .ok out => .ok ⟨f out.value, out.rest, out.kept⟩

/-- **One parser after the other.** What the first one keeps is compared with how the second one
fails. -/
def andThen (p : Parser α) (q : Parser β) : Parser (α × β) := fun cs =>
  match p cs with
  | .error m => .error m
  | .ok out =>
    match q out.rest with
    | .error m => .error (furthest out.kept m)
    | .ok out' => .ok ⟨(out.value, out'.value), out'.rest, keep out.kept out'.kept⟩

/-- One after the other, for the value of the second one. -/
def ignoreThen (p : Parser α) (q : Parser β) : Parser β := (p.andThen q).map Prod.snd

/-- One after the other, for the value of the first one. -/
def thenIgnore (p : Parser α) (q : Parser β) : Parser α := (p.andThen q).map Prod.fst

/-- Between two others. -/
def delimitedBy (p : Parser α) (opening closing : Parser Unit) : Parser α :=
  (opening.ignoreThen p).thenIgnore closing

/-- **Ordered choice**: the second parser is tried on the same text if the first one fails. -/
def orElse (p q : Parser α) : Parser α := fun cs =>
  match p cs with
  | .ok out => .ok out
  | .error m =>
    match q cs with
    | .ok out => .ok out
    | .error m' => .error (furthest (some m) m')

/-- **Reads it if it is there**: on a failure nothing is taken, and the failure is kept. -/
def orNot (p : Parser α) : Parser (Option α) := fun cs =>
  match p cs with
  | .ok out => .ok ⟨some out.value, out.rest, out.kept⟩
  | .error m => .ok ⟨none, cs, some m⟩

/-- As often as it succeeds. What the last attempt took is given back, and its failure is kept. An
attempt that takes nothing is not made again. -/
def row (p : Parser α) (cs : List Char) : Parsed (List α) :=
  match p cs with
  | .error m => ⟨[], cs, some m⟩
  | .ok out =>
    if _hshorter : out.rest.length < cs.length then
      let more := row p out.rest
      ⟨out.value :: more.value, more.rest, keep out.kept more.kept⟩
    else ⟨[out.value], out.rest, out.kept⟩
termination_by cs.length
decreasing_by exact _hshorter

/-- **As often as it succeeds**, which may be never. -/
def repeated (p : Parser α) : Parser (List α) := fun cs => .ok (p.row cs)

/-- **Refuses some values.** The failure happens behind what was read, but its beginning is
reported, without a character. -/
def tryMap (f : α → Option β) (p : Parser α) : Parser β := fun cs =>
  match p cs with
  | .error m => .error m
  | .ok out =>
    match f out.value with
    | some b => .ok ⟨b, out.rest, out.kept⟩
    | none => .error ⟨out.rest.length, ⟨cs, none⟩⟩

/-- With the blanks around it. -/
def padded (p : Parser α) : Parser α := fun cs =>
  match p (trimLeft cs) with
  | .error m => .error m
  | .ok out => .ok ⟨out.value, trimLeft out.rest, out.kept⟩

/-! ### The grammar -/

/-- A row of digits that does not start with a zero, or else a zero. -/
def numeral : Parser (List Char) :=
  (((satisfy fun c => c.isDigit && c != '0').andThen (satisfy Char.isDigit).repeated).map
    fun ds => ds.1 :: ds.2).orElse ((exactly ['0']).map fun _ => ['0'])

/-- The value of a row of digits, if it is not too large. -/
def value? (ds : List Char) : Option Nat :=
  if decimal ds < numberBound then some (decimal ds) else none

/-- A number. -/
def number : Parser Nat := (numeral.tryMap value?).padded

/-- A comma. -/
def comma : Parser Unit := (exactly [',']).padded

/-- A label. -/
def label : Parser String :=
  ((satisfy (· ≠ '"')).repeated.map String.ofList).delimitedBy (exactly ['"']) (exactly ['"'])

/-- The three numbers of the header. -/
def counts : Parser Header :=
  ((((number.thenIgnore comma).andThen number).thenIgnore comma).andThen number).map
    fun ns => ⟨ns.1.1, ns.1.2, ns.2⟩

/-- The three numbers in their brackets. -/
def bracketed : Parser Header := counts.delimitedBy (exactly ['(']) (exactly [')'])

/-- The word in front of the header. -/
def word : Parser Unit := (exactly ['d', 'e', 's']).padded

/-- The header, in front of which there may be the word. -/
def header : Parser Header := word.orNot.ignoreThen bracketed

/-- A transition. -/
def arrow : Parser Transition :=
  (((((number.thenIgnore comma).andThen label.padded).thenIgnore comma).andThen number).delimitedBy
    (exactly ['(']) (exactly [')'])).map fun parts => ⟨parts.1.1, parts.1.2, parts.2⟩

/-- **A whole text.** -/
def document : Parser (Header × List Transition) :=
  (header.padded.andThen arrow.padded.repeated).thenIgnore endOfText

end Parser

/-- **The header and the transitions, read by trial**, or what is reported. -/
def readByTrial (cs : List Char) : Except Stop (Header × List Transition) :=
  match Parser.document cs with
  | .ok out => .ok out.value
  | .error m => .error m.report

/-! ### Parsers that do what a reader does -/

/-- **A parser and a reader end in the same way** on a text. On success they leave the same, and no
failure is kept from further on. They fail with the same report, and right at the beginning only
if the first character does not fit. -/
inductive Alike {α : Type} (cs : List Char) :
    Except Miss (Parsed α) → Except Stop (α × List Char) → Prop where
  /-- both succeed -/
  | ok {a : α} {rest : List Char} {kept : Option Miss} (hsuffix : rest <:+ cs)
      (hkept : ∀ m ∈ kept, rest.length ≤ m.left) : Alike cs (.ok ⟨a, rest, kept⟩) (.ok (a, rest))
  /-- both fail -/
  | error {m : Miss} (hle : m.left ≤ cs.length) (hhere : m.left = cs.length → m = .here cs) :
      Alike cs (.error m) (.error m.report)

/-- **The parser does what the reader does**, on every text. -/
def Mirrors {α : Type} (p : Parser α) (r : Reader α) : Prop := ∀ cs, Alike cs (p cs) (r cs)

section

variable {α β : Type} {p : Parser α} {q : Parser β} {r : Reader α} {s : Reader β} {cs : List Char}

/-- Both fail at the first character. -/
theorem Alike.here : Alike cs (.error (.here cs)) ((stop : Reader α) cs) :=
  .error (Nat.le_refl _) fun _ => rfl

/-- Some of the text may have been passed over before. -/
theorem Alike.of_suffix {mid : List Char} {x : Except Miss (Parsed α)}
    {y : Except Stop (α × List Char)} (h : Alike mid x y) (hmid : mid <:+ cs) : Alike cs x y := by
  cases h with
  | ok hsuffix hkept => exact .ok (hsuffix.trans hmid) hkept
  | error hle hhere =>
    refine .error (Nat.le_trans hle hmid.length_le) fun heq => ?_
    have hlen : mid.length = cs.length := Nat.le_antisymm hmid.length_le (heq ▸ hle)
    obtain rfl := hmid.eq_of_length hlen
    exact hhere heq

theorem Alike.map (h : Alike cs (p cs) (r cs)) (f : α → β) :
    Alike cs (p.map f cs) ((f <$> r) cs) := by
  generalize hp : p cs = x at h
  generalize hr : r cs = y at h
  rw [map_eq_pure_bind, Parser.map, hp]
  cases h with
  | ok hsuffix hkept =>
    rw [bind_of_ok hr]
    exact .ok hsuffix hkept
  | error hle hhere =>
    rw [bind_of_error hr]
    exact .error hle hhere

/-- **Sequencing.** A failure of the second parser is at or behind the place where the first one
ended, and what the first one keeps is not: so it is the failure of the second one that counts. -/
theorem Alike.andThen (hp : Alike cs (p cs) (r cs)) (hq : Mirrors q s) :
    Alike cs (p.andThen q cs) ((do let a ← r; let b ← s; return (a, b) : Reader (α × β)) cs) := by
  generalize hpcs : p cs = x at hp
  generalize hrcs : r cs = y at hp
  cases hp with
  | error hle hhere =>
    rw [bind_of_error hrcs, Parser.andThen, hpcs]
    exact .error hle hhere
  | @ok a mid kept hmid hkept =>
    have hqmid := hq mid
    generalize hqcs : q mid = x at hqmid
    generalize hscs : s mid = y at hqmid
    simp only [Parser.andThen, hpcs, hqcs, bind_of_ok hrcs]
    cases hqmid with
    | ok hrest hkept' =>
      rw [bind_of_ok hscs]
      refine .ok (hrest.trans hmid) (le_left_of_mem_keep (fun m hm => ?_) hkept')
      exact Nat.le_trans hrest.length_le (hkept m hm)
    | error hle hhere =>
      simp only [bind_of_error hscs, furthest_of_le fun m hm => Nat.le_trans hle (hkept m hm)]
      exact (Alike.error hle hhere).of_suffix hmid

theorem Alike.ignoreThen (hp : Alike cs (p cs) (r cs)) (hq : Mirrors q s) :
    Alike cs (p.ignoreThen q cs) ((do let _ ← r; s : Reader β) cs) := by
  have h := (hp.andThen hq).map Prod.snd
  simpa [Parser.ignoreThen] using h

namespace Mirrors

theorem congr {r' : Reader α} (h : Mirrors p r) (hr : r = r') : Mirrors p r' := hr ▸ h

theorem map (h : Mirrors p r) (f : α → β) : Mirrors (p.map f) (f <$> r) := fun cs => (h cs).map f

theorem andThen (hp : Mirrors p r) (hq : Mirrors q s) :
    Mirrors (p.andThen q) (do let a ← r; let b ← s; return (a, b)) :=
  fun cs => (hp cs).andThen hq

theorem ignoreThen (hp : Mirrors p r) (hq : Mirrors q s) :
    Mirrors (p.ignoreThen q) (do let _ ← r; s) :=
  fun cs => (hp cs).ignoreThen hq

theorem thenIgnore (hp : Mirrors p r) (hq : Mirrors q s) :
    Mirrors (p.thenIgnore q) (do let a ← r; let _ ← s; return a) :=
  ((hp.andThen hq).map Prod.fst).congr (by simp)

theorem delimitedBy {opening closing : Parser Unit} {o c : Reader Unit} (hp : Mirrors p r)
    (ho : Mirrors opening o) (hc : Mirrors closing c) :
    Mirrors (p.delimitedBy opening closing) (do o; let a ← r; c; return a) :=
  ((ho.ignoreThen hp).thenIgnore hc).congr (by simp)

/-- **Padding.** The parser inside only sees texts that do not begin with a blank. -/
theorem padded (h : ∀ cs, trimLeft cs = cs → Alike cs (p cs) (r cs)) :
    Mirrors p.padded (do blanks; let a ← r; blanks; return a) := by
  intro cs
  have hp := h (trimLeft cs) (trimLeft_trimLeft cs)
  have hcs : trimLeft cs <:+ cs := List.dropWhile_suffix _
  generalize hpcs : p (trimLeft cs) = x at hp
  generalize hrcs : r (trimLeft cs) = y at hp
  simp only [Parser.padded, hpcs, bind_of_ok (show blanks cs = .ok ((), trimLeft cs) from rfl)]
  cases hp with
  | @ok a rest kept hrest hkept =>
    rw [bind_of_ok hrcs]
    have hshort : trimLeft rest <:+ rest := List.dropWhile_suffix _
    exact .ok (hshort.trans (hrest.trans hcs)) fun m hm =>
      Nat.le_trans hshort.length_le (hkept m hm)
  | error hle hhere =>
    rw [bind_of_error hrcs]
    exact (Alike.error hle hhere).of_suffix hcs

end Mirrors

end

/-! ### Words, numbers and labels -/

theorem mirrors_exactly_nil : Mirrors (Parser.exactly []) (pure ()) :=
  fun _ => .ok List.suffix_rfl (by simp)

theorem exactly_of_head_ne {c : Char} {word cs : List Char} (h : cs.head? ≠ some c) :
    Parser.exactly (c :: word) cs = .error (.here cs) := by
  cases cs with
  | nil => rfl
  | cons d rest => exact if_neg fun hd => h (congrArg some hd)

theorem mirrors_exactly_cons {c : Char} {word : List Char} {r : Reader Unit}
    (h : Mirrors (Parser.exactly word) r) :
    Mirrors (Parser.exactly (c :: word)) (do expect c; r) := by
  intro cs
  rcases cs with _ | ⟨d, rest⟩
  · exact .here
  · by_cases hd : d = c
    · subst hd
      rw [bind_of_ok (expect_cons d rest), Parser.exactly, if_pos rfl]
      exact (h rest).of_suffix (List.suffix_cons d rest)
    · rw [bind_of_error (expect_cons_of_ne hd rest), exactly_of_head_ne (by simpa using hd)]
      exact .here

theorem mirrors_exactly (c : Char) : Mirrors (Parser.exactly [c]) (expect c) :=
  (mirrors_exactly_cons mirrors_exactly_nil).congr (bind_pure _)

theorem row_of_error {α : Type} {p : Parser α} {cs : List Char} {m : Miss}
    (h : p cs = .error m) : p.row cs = ⟨[], cs, some m⟩ := by
  rw [Parser.row, h]

theorem row_of_ok {α : Type} {p : Parser α} {cs rest : List Char} {a : α} {kept : Option Miss}
    (h : p cs = .ok ⟨a, rest, kept⟩) (hshorter : rest.length < cs.length) :
    p.row cs =
      ⟨a :: (p.row rest).value, (p.row rest).rest, keep kept (p.row rest).kept⟩ := by
  rw [Parser.row, h]
  exact dif_pos hshorter

/-- A row of characters of one kind ends where the next one does not fit. -/
theorem row_satisfy (ok : Char → Bool) (cs : List Char) :
    (Parser.satisfy ok).row cs =
      ⟨cs.takeWhile ok, cs.dropWhile ok, some (.here (cs.dropWhile ok))⟩ := by
  induction cs with
  | nil => exact row_of_error rfl
  | cons c cs ih =>
    by_cases hc : ok c = true
    · have hstep : Parser.satisfy ok (c :: cs) = .ok ⟨c, cs, none⟩ := if_pos hc
      rw [row_of_ok hstep (Nat.lt_succ_self _), ih, List.takeWhile_cons_of_pos hc,
        List.dropWhile_cons_of_pos hc]
      rfl
    · have hstep : Parser.satisfy ok (c :: cs) = .error (.here (c :: cs)) := if_neg hc
      rw [row_of_error hstep, List.takeWhile_cons_of_neg hc, List.dropWhile_cons_of_neg hc]

theorem mirrors_repeated_satisfy (ok : Char → Bool) :
    Mirrors (Parser.satisfy ok).repeated (takeWhile ok) := by
  intro cs
  rw [Parser.repeated, row_satisfy]
  exact .ok (List.dropWhile_suffix _) length_le_left_here

theorem numeral_row {d : Char} (hd : '1' ≤ d ∧ d ≤ '9') (rest : List Char) :
    Parser.numeral (d :: rest) =
      .ok ⟨d :: rest.takeWhile Char.isDigit, rest.dropWhile Char.isDigit,
        some (.here (rest.dropWhile Char.isDigit))⟩ := by
  have hfirst : (d.isDigit && d != '0') = true := by
    have hne : d ≠ '0' := by
      rintro rfl
      exact absurd hd.1 (by decide)
    simp [isDigit_of_one_le hd, hne]
  simp [Parser.numeral, Parser.orElse, Parser.map, Parser.andThen, Parser.satisfy,
    Parser.repeated, row_satisfy, hfirst, keep, furthest]

theorem numeral_other {d : Char} (hd : d.isDigit = false) (rest : List Char) :
    Parser.numeral (d :: rest) = .error (.here (d :: rest)) := by
  have hne : d ≠ '0' := by
    rintro rfl
    cases hd
  simp [Parser.numeral, Parser.orElse, Parser.map, Parser.andThen, Parser.satisfy,
    Parser.exactly, hd, hne, furthest]

/-- A row of digits that is too large fails behind its last digit, so not at its beginning. -/
theorem mirrors_digits : Mirrors (Parser.numeral.tryMap Parser.value?) digits := by
  intro cs
  rcases cs with _ | ⟨d, rest⟩
  · exact .here
  · rcases zero_or_row_or_other d with rfl | hd | hd
    · exact .ok (List.suffix_cons _ _) (by simp)
    · have hrest : rest.dropWhile Char.isDigit <:+ rest := List.dropWhile_suffix _
      rw [digits_row hd, Parser.tryMap, numeral_row hd]
      by_cases hlt : decimal (d :: rest.takeWhile Char.isDigit) < numberBound
      · simp only [Parser.value?, if_pos hlt]
        exact .ok (hrest.trans (List.suffix_cons _ _)) length_le_left_here
      · simp only [Parser.value?, if_neg hlt]
        have hbehind : (rest.dropWhile Char.isDigit).length < (d :: rest).length :=
          Nat.lt_succ_of_le hrest.length_le
        exact .error (m := ⟨_, _⟩) (Nat.le_of_lt hbehind) fun heq =>
          absurd heq (Nat.ne_of_lt hbehind)
    · rw [digits_other hd, Parser.tryMap, numeral_other hd]
      exact .here

theorem mirrors_number : Mirrors Parser.number number :=
  .padded fun cs _ => mirrors_digits cs

theorem mirrors_comma : Mirrors Parser.comma (do blanks; expect ','; blanks) :=
  (Mirrors.padded fun cs _ => mirrors_exactly ',' cs).congr (by simp)

theorem mirrors_label : Mirrors Parser.label label :=
  (((mirrors_repeated_satisfy _).map _).delimitedBy (mirrors_exactly '"')
    (mirrors_exactly '"')).congr (by simp [label])

/-! ### The header -/

theorem blanks_of_trimmed {cs : List Char} (h : trimLeft cs = cs) : blanks cs = .ok ((), cs) := by
  rw [blanks, h]

/-- Blanks are passed over at once. -/
theorem blanks_bind_blanks {α : Type} (f : Unit → Reader α) :
    (do blanks; let u ← blanks; f u) = (do let u ← blanks; f u) := by
  funext cs
  have hcs : blanks cs = .ok ((), trimLeft cs) := rfl
  rw [bind_of_ok hcs, bind_of_ok (blanks_of_trimmed (trimLeft_trimLeft cs)), bind_of_ok hcs]

/-- The three numbers in their brackets. -/
def bracketed : Reader Header := do
  expect '('
  let first ← number
  expect ','
  let transitions ← number
  expect ','
  let states ← number
  expect ')'
  return ⟨first, transitions, states⟩

theorem mirrors_bracketed : Mirrors Parser.bracketed bracketed := by
  have hcounts := ((((mirrors_number.thenIgnore mirrors_comma).andThen
    mirrors_number).thenIgnore mirrors_comma).andThen mirrors_number).map
      fun ns => (⟨ns.1.1, ns.1.2, ns.2⟩ : Header)
  refine (hcounts.delimitedBy (mirrors_exactly '(') (mirrors_exactly ')')).congr ?_
  simp [bracketed, number, blanks_bind_blanks]

/-- The word in front of the header, in the form of its parser. -/
theorem mirrors_word : Mirrors Parser.word (do blanks; word) :=
  (Mirrors.padded fun cs _ => mirrors_exactly_cons (mirrors_exactly_cons
    (mirrors_exactly_cons mirrors_exactly_nil)) cs).congr (by simp [word])

/-- **The word is given back** when it is not there as a whole. It then either failed at its first
character, and the bracket is tried at the same place, or it failed further on, and the bracket
fails at the first letter of the word. -/
theorem alike_header {cs : List Char} (htrim : trimLeft cs = cs) :
    Alike cs (Parser.header cs) ((do keyword; bracketed : Reader Header) cs) := by
  have hword := mirrors_word cs
  rw [bind_of_ok (blanks_of_trimmed htrim)] at hword
  by_cases hd : cs.head? = some 'd'
  · have hkeyword : keyword cs = word cs := by rw [keyword_eq, if_pos hd]
    generalize hx : Parser.word cs = x at hword
    generalize hy : word cs = y at hword
    cases hword with
    | @ok u rest kept hrest hkept =>
      have hnot : Alike cs (Parser.word.orNot cs) ((some <$> word : Reader (Option Unit)) cs) := by
        rw [map_eq_pure_bind, bind_of_ok hy, Parser.orNot, hx]
        exact .ok hrest hkept
      have hall := hnot.ignoreThen mirrors_bracketed
      rw [map_eq_pure_bind, bind_assoc, bind_of_ok hy] at hall
      rw [bind_of_ok (hkeyword.trans hy)]
      exact hall
    | error hle hhere =>
      -- the reader stops here; the parser goes on at the bracket, and fails before the word did
      obtain ⟨rest, rfl⟩ := List.head?_eq_some_iff.1 hd
      have hopen : Parser.bracketed ('d' :: rest) = .error (.here ('d' :: rest)) := rfl
      rw [bind_of_error (hkeyword.trans hy)]
      simp only [Parser.header, Parser.ignoreThen, Parser.map, Parser.andThen, Parser.orNot, hx,
        hopen, furthest_here hle hhere]
      exact .error hle hhere
  · have hkeyword : keyword cs = .ok ((), cs) := by rw [keyword_eq, if_neg hd]
    have hfails : Parser.word cs = .error (.here cs) := by
      rw [Parser.word, Parser.padded, htrim, exactly_of_head_ne hd]
    have hnot : Alike cs (Parser.word.orNot cs) ((pure none : Reader (Option Unit)) cs) := by
      rw [Parser.orNot, hfails]
      exact .ok List.suffix_rfl length_le_left_here
    rw [bind_of_ok hkeyword]
    exact hnot.ignoreThen mirrors_bracketed

theorem mirrors_header : Mirrors Parser.header.padded header :=
  (Mirrors.padded fun _ => alike_header).congr (by simp [header, bracketed])

/-! ### The transitions -/

theorem mirrors_arrow : Mirrors Parser.arrow.padded (do blanks; transition) := by
  have hparts := ((((mirrors_number.thenIgnore mirrors_comma).andThen
    (Mirrors.padded fun cs _ => mirrors_label cs)).thenIgnore mirrors_comma).andThen mirrors_number)
  have harrow := (hparts.delimitedBy (mirrors_exactly '(') (mirrors_exactly ')')).map
    fun parts => (⟨parts.1.1, parts.1.2, parts.2⟩ : Transition)
  refine (Mirrors.padded fun cs _ => harrow cs).congr ?_
  simp [transition, transitionBody, number, blanks_bind_blanks]

/-- A parser with blanks around it leaves none in front. -/
theorem trimLeft_of_padded {α : Type} {p : Parser α} {cs rest : List Char} {a : α}
    {kept : Option Miss} (h : p.padded cs = .ok ⟨a, rest, kept⟩) : trimLeft rest = rest := by
  rw [Parser.padded] at h
  split at h
  · cases h
  · cases h
    exact trimLeft_trimLeft _

/-- **The transitions are read until an attempt at one more fails**, which gives back what it took.
Its failure is kept, and it is the one that the reader stops with unless the text is over. -/
theorem row_arrow {cs : List Char} (htrim : trimLeft cs = cs) (seen : Array Transition) :
    ∃ ts rest m, Parser.arrow.padded.row cs = ⟨ts, rest, some m⟩ ∧ rest <:+ cs ∧
      m.left ≤ rest.length ∧ (m.left = rest.length → m = .here rest) ∧
      transitions seen cs = if rest = [] then .ok (seen.toList ++ ts) else .error m.report := by
  -- by induction on the text that is left, as both go on behind the transition they have read
  induction hlen : cs.length using Nat.strongRecOn generalizing cs seen with
  | ind n ih =>
    have hstep := mirrors_arrow cs
    rw [bind_of_ok (blanks_of_trimmed htrim)] at hstep
    generalize hx : Parser.arrow.padded cs = x at hstep
    generalize hy : transition cs = y at hstep
    cases hstep with
    | @error m hle hhere =>
      refine ⟨[], cs, m, row_of_error hx, List.suffix_rfl, hle, hhere, ?_⟩
      cases cs with
      | nil => simp [transitions]
      | cons c cs => rw [transitions_of_error hy, if_neg (List.cons_ne_nil c cs)]
    | @ok t left kept hleft hkept =>
      have hshorter := length_transition hy
      obtain ⟨ts, rest, m, hrow, hrest, hle, hhere, hts⟩ :=
        ih _ (hlen ▸ hshorter) (trimLeft_of_padded hx) (seen.push t) rfl
      refine ⟨t :: ts, rest, m, ?_, hrest.trans hleft, hle, hhere, ?_⟩
      · rw [row_of_ok hx hshorter, hrow, keep_some hkept (Nat.le_trans hle hrest.length_le)]
      · cases cs with
        | nil => exact absurd hshorter (Nat.not_lt_zero _)
        | cons c cs => rw [transitions_cons hy, hts]; simp

/-! ### Whole texts -/

/-- **The furthest failure is where the reader stops**: reading by trial gives what the reader
gives, and reports the same about every text that is refused. -/
theorem readByTrial_eq_readChars (cs : List Char) : readByTrial cs = readChars cs := by
  have hhead := mirrors_header cs
  generalize hx : Parser.header.padded cs = x at hhead
  generalize hy : header cs = y at hhead
  cases hhead with
  | error hle hhere =>
    rw [readChars_of_error hy]
    simp [readByTrial, Parser.document, Parser.thenIgnore, Parser.map, Parser.andThen, hx]
  | @ok h mid kept hmid hkept =>
    obtain ⟨ts, rest, m, hrow, hrest, hle, hhere, hts⟩ := row_arrow (trimLeft_of_padded hx) #[]
    rw [readChars_of_ok hy, hts]
    simp only [readByTrial, Parser.document, Parser.thenIgnore, Parser.map, Parser.andThen, hx,
      Parser.repeated, hrow, keep_some hkept (Nat.le_trans hle hrest.length_le)]
    cases rest with
    | nil => simp [Parser.endOfText, Except.map]
    | cons c rest => simp [Parser.endOfText, Except.map, furthest_here hle hhere]

/-- The word is given back from its first letter on, but its second letter is at fault. -/
example : readByTrial ['d', 'x'] = .error ⟨['x'], some 'x'⟩ := by decide

/-- So the place that is reported is the place of the furthest failure. -/
theorem read_eq_readByTrial (s : String) :
    read s = (readByTrial s.toList).mapError (locate s.toList) := by
  rw [readByTrial_eq_readChars, read]

end Aldebaran

end ModalMu
