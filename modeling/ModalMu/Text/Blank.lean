/-!
# Blank characters

A character is *blank* when it has the Unicode property `White_Space`. Blanks
separate the parts of a formula and of a transition file and never belong to
them.

* `isBlank` — the property, as a short table of code points;
* `trimLeft`, `trimRight`, `trim` — a text without the blanks at its ends.
-/

namespace ModalMu

namespace Text

/-- **The property `White_Space`.** It holds of exactly twenty-five characters: the six ASCII
ones, `U+0085`, and the space, line and paragraph separators. -/
def isBlank (c : Char) : Bool :=
  let n := c.toNat
  (9 ≤ n && n ≤ 13) || n == 0x20 || n == 0x85 || n == 0xA0 || n == 0x1680 ||
    (0x2000 ≤ n && n ≤ 0x200A) || n == 0x2028 || n == 0x2029 || n == 0x202F || n == 0x205F ||
    n == 0x3000

/-- The text from its first character that is not blank. -/
def trimLeft (cs : List Char) : List Char := cs.dropWhile isBlank

/-- The text up to its last character that is not blank. -/
def trimRight (cs : List Char) : List Char := (cs.reverse.dropWhile isBlank).reverse

/-- The text without the blanks at either end. -/
def trim (cs : List Char) : List Char := trimRight (trimLeft cs)

theorem length_trimLeft_le (cs : List Char) : (trimLeft cs).length ≤ cs.length :=
  (List.dropWhile_sublist _).length_le

theorem length_trimRight_le (cs : List Char) : (trimRight cs).length ≤ cs.length := by
  simpa [trimRight] using (List.dropWhile_sublist isBlank (l := cs.reverse)).length_le

/-- **Trimming never lengthens a text**, so a reader may recurse on what it trimmed. -/
theorem length_trim_le (cs : List Char) : (trim cs).length ≤ cs.length :=
  Nat.le_trans (length_trimRight_le _) (length_trimLeft_le _)

end Text

end ModalMu
