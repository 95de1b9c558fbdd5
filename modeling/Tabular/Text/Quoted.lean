import Tabular.Text.Basic
import Tabular.Text.HiddenData

/-!
# Quoted texts

A text in double quotes as messages show it. Quotes and backslashes are escaped, line and tab
characters have their short escapes, and a character without a visible form is named by its code
point in hexadecimal.

## Main definitions

* `Text.quoted`: one text.
* `Text.quotedList`: a list of texts in brackets.
-/

namespace Tabular.Text

/-- The code point in lower-case hexadecimal without leading zeros. -/
def hexadecimal (n : Nat) : String :=
  String.ofList (Nat.toDigits 16 n)

/-- One character inside quotes. -/
def quotedChar (c : Char) : String :=
  if c = '"' then "\\\""
  else if c = '\\' then "\\\\"
  else if c = '\t' then "\\t"
  else if c = '\n' then "\\n"
  else if c = '\r' then "\\r"
  else if c.toNat = 0 then "\\0"
  else if inRanges hiddenRanges c then "\\u\x7b" ++ hexadecimal c.toNat ++ "\x7d"
  else String.singleton c

/-- The text in double quotes. -/
def quoted (s : String) : String :=
  "\"" ++ concat (s.toList.map quotedChar) ++ "\""

/-- The quoted texts between brackets, separated by a comma and a space. -/
def quotedList (items : List String) : String :=
  "[" ++ String.intercalate ", " (items.map quoted) ++ "]"

end Tabular.Text
