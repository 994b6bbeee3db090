/-!
# Hexadecimal numerals

Numbers in lowercase base sixteen, with or without a least number of digits.

## Main definitions

* `Hex.digits` : no leading zeros.
* `Hex.padded` : at least a given number of digits.
-/

namespace TraceRelay.Text.Hex

/-- The lowercase base-sixteen digits of `n`, without leading zeros. -/
def digits (n : Nat) : String := String.ofList (Nat.toDigits 16 n)

/-- The digits of `n` after as many zeros as make `width` digits. -/
def padded (width n : Nat) : String :=
  let ds := Nat.toDigits 16 n
  String.ofList (List.replicate (width - ds.length) '0' ++ ds)

/-- A number behind `0x`, with at least `width` digits. -/
def literal (width n : Nat) : String := "0x" ++ padded width n

end TraceRelay.Text.Hex
