import TraceRelay.Text.Extender
import TraceRelay.Text.Hex
import TraceRelay.Text.Printable

/-!
# Quoted text

A name in a message stands between double quotes. What could be mistaken, or would not be seen, is
escaped.

## Main definitions

* `Quoted.escape` : the form of one character.
* `quote` : the quoted form of a text.
-/

namespace TraceRelay.Text

/-- The form of a character between quotes. An extender is escaped wherever it stands. -/
def Quoted.escape (c : Char) : String :=
  match c with
  | '\x00' => "\\0"
  | '\t' => "\\t"
  | '\n' => "\\n"
  | '\r' => "\\r"
  | '"' => "\\\""
  | '\\' => "\\\\"
  | c =>
    if isPrintable c && !isExtender c then String.singleton c
    else "\\u\x7b" ++ Hex.digits c.toNat ++ "\x7d"

/-- The text between double quotes, escaped where needed. -/
def quote (s : String) : String := "\"" ++ String.join (s.toList.map Quoted.escape) ++ "\""

end TraceRelay.Text
