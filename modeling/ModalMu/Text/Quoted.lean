import ModalMu.Text.Visible

/-!
# Quoted text

A text is shown between double quotes, with a backslash in front of what would end or disturb it:
the quote and the backslash themselves, four control characters by a short name, and any other character
that cannot be seen by its code point in hexadecimal, as in `\u{feff}`.

* `escapeChar` — how one character is written;
* `quote` — a whole text between its quotes.
-/

namespace ModalMu

namespace Text

/-- A number in lower-case hexadecimal. -/
def hexadecimal (n : Nat) : String := String.ofList (Nat.toDigits 16 n)

/-- **One character inside quotes.** -/
def escapeChar (c : Char) : String :=
  if c = '"' then "\\\""
  else if c = '\\' then "\\\\"
  else if c = '\n' then "\\n"
  else if c = '\r' then "\\r"
  else if c = '\t' then "\\t"
  else if c.toNat = 0 then "\\0"
  else if isVisible c then String.singleton c
  else "\\u\x7b" ++ hexadecimal c.toNat ++ "\x7d"

/-- **A text between quotes.** -/
def quote (s : String) : String :=
  "\"" ++ String.join (s.toList.map escapeChar) ++ "\""

/-- Texts quoted one by one, with a comma and a space between two of them. -/
def quoteAll (ss : List String) : String := ", ".intercalate (ss.map quote)

end Text

end ModalMu
