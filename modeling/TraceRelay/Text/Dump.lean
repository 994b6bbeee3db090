import TraceRelay.Bytes

/-!
# Bytes as hexadecimal text

A byte string is shown with two lowercase digits for each byte, and with nothing between them. The
tests give and take byte strings in this form; nothing else in the library uses it.

## Main definitions

* `Hex.value` : the number that digits stand for.
* `Hex.dump` : the digits of a byte string.
* `Hex.undump` : the byte string that digits show.
-/

namespace TraceRelay.Text.Hex

/-- What a digit of either case is worth. -/
def digitValue (c : Char) : Nat := if c.isDigit then c.toNat - 48 else c.toLower.toNat - 87

/-- The number that digits stand for, the most significant one first. -/
def value (ds : List Char) : Nat := ds.foldl (fun n c => 16 * n + digitValue c) 0

/-- The two digits of a byte. -/
def byteDigits (b : UInt8) : List Char :=
  [Nat.digitChar (b.toNat / 16), Nat.digitChar (b.toNat % 16)]

/-- The digits of a byte string. -/
def dump (bs : Bytes) : String := String.ofList (bs.flatMap byteDigits)

/-- The bytes that pairs of digits show, behind bytes that are given last one first. -/
private def undumpOnto (shown : Bytes) : List Char → Bytes
  | high :: low :: rest => undumpOnto (.ofNat (value [high, low]) :: shown) rest
  | _ => shown.reverse

/-- The byte string that digits show. -/
def undump (s : String) : Bytes := undumpOnto [] s.toList

end TraceRelay.Text.Hex
