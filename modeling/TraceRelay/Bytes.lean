/-!
# Byte strings and little-endian integers

A byte string is a list of bytes. Integers of a fixed width are written least significant byte
first, and text is written as UTF-8.

## Main definitions

* `Bytes.littleEndian` : the low bytes of a number, least significant first.
* `Bytes.value` : the number that a byte string denotes.
* `Bytes.ofText`, `Bytes.text?` : text as UTF-8, and the text that bytes hold if they hold one.

## Main results

* `Bytes.value_littleEndian`, `Bytes.littleEndian_value` : the two directions of the integer form.
* `Bytes.text?_eq_some_iff` : bytes hold a text exactly when they are its UTF-8 form.
-/

namespace TraceRelay

/-- A byte string. -/
abbrev Bytes := List UInt8

namespace Bytes

/-! ### Integers -/

/-- The low `width` bytes of `n`, least significant first. -/
def littleEndian : (width n : Nat) → Bytes
  | 0, _ => []
  | width + 1, n => UInt8.ofNat n :: littleEndian width (n / 256)

/-- The number whose little-endian bytes are given. -/
def value : Bytes → Nat
  | [] => 0
  | b :: bs => b.toNat + 256 * value bs

@[simp] theorem length_littleEndian (width n : Nat) : (littleEndian width n).length = width := by
  induction width generalizing n with
  | zero => rfl
  | succ width ih => simp [littleEndian, ih]

theorem value_littleEndian (width n : Nat) :
    value (littleEndian width n) = n % Nat.pow 256 width := by
  induction width generalizing n with
  | zero => simp [littleEndian, value, Nat.mod_one]
  | succ width ih =>
    have hpow : Nat.pow 256 (width + 1) = 256 * Nat.pow 256 width := Nat.mul_comm _ _
    have hhead : (UInt8.ofNat n).toNat = n % 256 := UInt8.toNat_ofNat'
    rw [littleEndian, value, ih, hhead, hpow, Nat.mod_mul]

theorem littleEndian_value (bs : Bytes) : littleEndian bs.length (value bs) = bs := by
  induction bs with
  | nil => rfl
  | cons b bs ih =>
    have hb : b.toNat < 256 := b.toNat_lt
    have hdiv : (b.toNat + 256 * value bs) / 256 = value bs := by omega
    have hhead : UInt8.ofNat (b.toNat + 256 * value bs) = b := by
      apply UInt8.toNat_inj.1
      rw [UInt8.toNat_ofNat']
      omega
    rw [List.length_cons, littleEndian, value, hdiv, ih, hhead]

theorem value_lt (bs : Bytes) : value bs < Nat.pow 256 bs.length := by
  induction bs with
  | nil => exact Nat.one_pos
  | cons b bs ih =>
    have hb : b.toNat < 256 := b.toNat_lt
    have hpow : Nat.pow 256 (bs.length + 1) = 256 * Nat.pow 256 bs.length := Nat.mul_comm _ _
    rw [value, List.length_cons, hpow]
    omega

/-- The two bytes of a 16-bit word. -/
def ofUInt16 (v : UInt16) : Bytes := littleEndian 2 v.toNat

/-- The four bytes of a 32-bit word. -/
def ofUInt32 (v : UInt32) : Bytes := littleEndian 4 v.toNat

/-- The eight bytes of a 64-bit word. -/
def ofUInt64 (v : UInt64) : Bytes := littleEndian 8 v.toNat

/-! ### Text -/

/-- The UTF-8 form of a text. -/
def ofText (s : String) : Bytes := s.toUTF8.data.toList

/-- The text whose UTF-8 form is given, if there is one. -/
def text? (bs : Bytes) : Option String := String.fromUTF8? ⟨bs.toArray⟩

theorem text?_eq_some_iff {bs : Bytes} {s : String} : text? bs = some s ↔ bs = ofText s := by
  unfold text? ofText String.fromUTF8?
  constructor
  · intro h
    split at h
    · cases h
      simp [String.fromUTF8, String.toUTF8]
    · cases h
  · rintro rfl
    have hs : (⟨s.toUTF8.data.toList.toArray⟩ : ByteArray) = s.toByteArray := by
      simp [String.toUTF8]
    simp only [hs]
    rw [dif_pos s.isValidUTF8]
    rfl

end Bytes

end TraceRelay
