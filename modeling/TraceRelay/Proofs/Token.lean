import Mathlib.Data.Nat.Bitwise
import TraceRelay.Token

/-!
# The fields of a token

The fields of a token stand side by side in its word. So a word is a number in mixed base, and each
field is a digit of it. The digits leave no gap: a word is known by its fields.

## Main results

* `Token.toNat_word_ofFields` : the word of a token that is put together of fields.
* `Token.toNat_word_withData` : the word of a token that is renewed.
* `Token.toNat_objectId`, `Token.toNat_classId`, `Token.toNat_isClass`, `Token.toNat_hasData` : the
  fields of a word.
* `Token.objectId_ofFields`, `Token.classId_ofFields`, `Token.isClass_ofFields` : fields that are
  put into a token are read back, as far as they fit.
* `Token.fields_partition` : what is read back of any fields, how a token is put together again of
  its own, and which of them change if it is renewed.
-/

namespace TraceRelay

namespace Token

/-- Two numbers, one above the bits of the other. -/
private theorem or_shiftLeft {low width : Nat} (high : Nat) (h : low < 2 ^ width) :
    low ||| high <<< width = high * 2 ^ width + low := by
  rw [Nat.or_comm, ← Nat.shiftLeft_add_eq_or_of_lt h, Nat.shiftLeft_eq]

/-- A shift that loses no bits. -/
private theorem toNat_shiftLeft_of_fits {n : UInt64} {m : Nat} (shift : UInt64) (width : Nat)
    (hshift : shift.toNat % 64 = width) (hn : n.toNat = m) (h : m * 2 ^ width < 2 ^ 64) :
    (n <<< shift).toNat = m <<< width := by
  rw [UInt64.toNat_shiftLeft, hshift, hn, Nat.shiftLeft_eq, Nat.mod_eq_of_lt h]

/-- A class id above an object id stays below the class bit. -/
private theorem ids_lt (c i : Nat) : c % 2 ^ 22 * 2 ^ 40 + i % 2 ^ 40 < 2 ^ 62 := by omega

/-- The fields stand side by side: forty bits, twenty-two bits and one bit. -/
theorem toNat_word_ofFields (id : ObjectId) (ofClass : UInt32) (isClass : Bool) :
    (ofFields id ofClass isClass).word.toNat =
      isClass.toNat * 2 ^ 62 + (ofClass.toNat % 2 ^ 22 * 2 ^ 40 + id.toNat % 2 ^ 40) := by
  have hlow := ids_lt ofClass.toNat id.toNat
  have hclassFits : ofClass.toNat % 2 ^ 22 * 2 ^ 40 < 2 ^ 64 :=
    Nat.lt_of_le_of_lt (Nat.le_add_right _ _) (Nat.lt_trans hlow (by decide))
  have hbitFits : isClass.toNat * 2 ^ 62 < 2 ^ 64 := by cases isClass <;> decide
  have hid : (id &&& maxObjectId).toNat = id.toNat % 2 ^ 40 :=
    (UInt64.toNat_and _ _).trans (Nat.and_two_pow_sub_one_eq_mod _ 40)
  have hclass : (ofClass &&& maxClassId).toUInt64.toNat = ofClass.toNat % 2 ^ 22 :=
    (UInt32.toNat_and _ _).trans (Nat.and_two_pow_sub_one_eq_mod _ 22)
  have hbit : isClass.toUInt64.toNat = isClass.toNat := by cases isClass <;> rfl
  rw [ofFields, UInt64.toNat_or, UInt64.toNat_or, hid,
    toNat_shiftLeft_of_fits 40 40 rfl hclass hclassFits,
    toNat_shiftLeft_of_fits 62 62 rfl hbit hbitFits,
    or_shiftLeft _ (Nat.mod_lt _ (by decide)), or_shiftLeft _ hlow]

/-- The renewed word has its highest bit set, and the other bits as they were. -/
theorem toNat_word_withData (t : Token) :
    t.withData.word.toNat = 2 ^ 63 + t.word.toNat % 2 ^ 63 := by
  have hlow : (t.word.toNat ||| 2 ^ 63) % 2 ^ 63 = t.word.toNat % 2 ^ 63 := by
    rw [Nat.or_mod_two_pow, Nat.mod_self, Nat.or_zero]
  have hhigh : (t.word.toNat ||| 2 ^ 63) / 2 ^ 63 = 1 := by
    have hlt : t.word.toNat ||| 2 ^ 63 < 2 ^ 64 := Nat.or_lt_two_pow t.word.toNat_lt (by decide)
    have hle : 2 ^ 63 ≤ t.word.toNat ||| 2 ^ 63 := Nat.right_le_or
    omega
  have hbit : ((1 : UInt64) <<< 63).toNat = 2 ^ 63 := by decide
  rw [withData, UInt64.toNat_or, hbit, ← Nat.div_add_mod (t.word.toNat ||| 2 ^ 63) (2 ^ 63), hhigh,
    hlow, Nat.mul_one]

/-! ### The fields of a word -/

theorem toNat_objectId (t : Token) : t.objectId.toNat = t.word.toNat % 2 ^ 40 := by
  rw [objectId, UInt64.toNat_and]
  exact Nat.and_two_pow_sub_one_eq_mod _ 40

theorem toNat_classId (t : Token) : t.classId.toNat = t.word.toNat / 2 ^ 40 % 2 ^ 22 := by
  have hmask : t.classId.toNat = (t.word >>> 40).toUInt32.toNat % 2 ^ 22 := by
    rw [classId, UInt32.toNat_and]
    exact Nat.and_two_pow_sub_one_eq_mod _ 22
  rw [hmask, UInt64.toNat_toUInt32, UInt64.toNat_shiftRight]
  change t.word.toNat >>> 40 % 2 ^ 32 % 2 ^ 22 = _
  rw [Nat.shiftRight_eq_div_pow]
  omega

/-- A flag is a binary digit of the word. -/
private theorem toNat_flag {shift : UInt64} {n : Nat} (hshift : shift.toNat % 64 = n)
    (word : UInt64) : (word >>> shift &&& 1 == 1).toNat = word.toNat / 2 ^ n % 2 := by
  have hdigit : (word >>> shift &&& 1).toNat = word.toNat / 2 ^ n % 2 := by
    rw [UInt64.toNat_and, UInt64.toNat_shiftRight, hshift, Nat.shiftRight_eq_div_pow]
    exact Nat.and_one_is_mod _
  rcases Nat.mod_two_eq_zero_or_one (word.toNat / 2 ^ n) with hzero | hone
  · rw [hzero] at hdigit ⊢
    rw [UInt64.toNat_inj.mp (hdigit.trans UInt64.toNat_zero.symm)]
    rfl
  · rw [hone] at hdigit ⊢
    rw [UInt64.toNat_inj.mp (hdigit.trans UInt64.toNat_one.symm)]
    rfl

/-- A flag is known by its digit. -/
private theorem flag_inj {a b : Bool} (h : a.toNat = b.toNat) : a = b := by
  revert a b
  decide

theorem toNat_isClass (t : Token) : t.isClass.toNat = t.word.toNat / 2 ^ 62 % 2 :=
  toNat_flag rfl t.word

/-- There is nothing above the data bit. -/
theorem toNat_hasData (t : Token) : t.hasData.toNat = t.word.toNat / 2 ^ 63 := by
  have hlt : t.word.toNat < 2 ^ 64 := t.word.toNat_lt
  rw [hasData, toNat_flag (n := 63) rfl]
  omega

/-! ### Fields that are read back -/

theorem toNat_objectId_ofFields (id : ObjectId) (ofClass : UInt32) (isClass : Bool) :
    (ofFields id ofClass isClass).objectId.toNat = id.toNat % 2 ^ 40 := by
  rw [toNat_objectId, toNat_word_ofFields]
  omega

theorem toNat_classId_ofFields (id : ObjectId) (ofClass : UInt32) (isClass : Bool) :
    (ofFields id ofClass isClass).classId.toNat = ofClass.toNat % 2 ^ 22 := by
  rw [toNat_classId, toNat_word_ofFields]
  omega

/-- An object id that fits is read back. -/
theorem objectId_ofFields {id : ObjectId} (h : id ≤ maxObjectId) (ofClass : UInt32)
    (isClass : Bool) : (ofFields id ofClass isClass).objectId = id := by
  have hlt : id.toNat < 2 ^ 40 := Nat.lt_succ_of_le h
  rw [← UInt64.toNat_inj, toNat_objectId_ofFields, Nat.mod_eq_of_lt hlt]

/-- A class id that fits is read back. -/
theorem classId_ofFields {ofClass : UInt32} (h : ofClass ≤ maxClassId) (id : ObjectId)
    (isClass : Bool) : (ofFields id ofClass isClass).classId = ofClass := by
  have hlt : ofClass.toNat < 2 ^ 22 := Nat.lt_succ_of_le h
  rw [← UInt32.toNat_inj, toNat_classId_ofFields, Nat.mod_eq_of_lt hlt]

theorem isClass_ofFields (id : ObjectId) (ofClass : UInt32) (isClass : Bool) :
    (ofFields id ofClass isClass).isClass = isClass := by
  have hone := isClass.toNat_le
  refine flag_inj ?_
  rw [toNat_isClass, toNat_word_ofFields]
  omega

/-- A token that is put together of fields has not been renewed. -/
theorem hasData_ofFields (id : ObjectId) (ofClass : UInt32) (isClass : Bool) :
    (ofFields id ofClass isClass).hasData = false := by
  have hone := isClass.toNat_le
  refine flag_inj ?_
  rw [toNat_hasData, toNat_word_ofFields, Bool.toNat_false]
  omega

theorem classId_le (t : Token) : t.classId ≤ maxClassId := by
  rw [UInt32.le_iff_toNat_le, toNat_classId]
  exact Nat.le_of_lt_succ (Nat.mod_lt _ (by decide))

/-! ### A renewed token -/

theorem objectId_withData (t : Token) : t.withData.objectId = t.objectId := by
  rw [← UInt64.toNat_inj, toNat_objectId, toNat_objectId, toNat_word_withData]
  omega

theorem classId_withData (t : Token) : t.withData.classId = t.classId := by
  rw [← UInt32.toNat_inj, toNat_classId, toNat_classId, toNat_word_withData]
  omega

theorem isClass_withData (t : Token) : t.withData.isClass = t.isClass := by
  refine flag_inj ?_
  rw [toNat_isClass, toNat_isClass, toNat_word_withData]
  omega

theorem hasData_withData (t : Token) : t.withData.hasData = true := by
  refine flag_inj ?_
  rw [toNat_hasData, toNat_word_withData, Bool.toNat_true]
  omega

/-! ### A token by its fields -/

theorem eq_of_toNat_word {s t : Token} (h : s.word.toNat = t.word.toNat) : s = t :=
  congrArg Token.mk (UInt64.toNat_inj.mp h)

/-- The fields leave out no bit but the data bit. -/
theorem toNat_word_ofFields_fields (t : Token) :
    (ofFields t.objectId t.classId t.isClass).word.toNat = t.word.toNat % 2 ^ 63 := by
  rw [toNat_word_ofFields, toNat_objectId, toNat_classId, toNat_isClass]
  omega

/-- A token is put together again of its own fields, and renewed if it was. -/
theorem eq_ofFields (t : Token) :
    t = if t.hasData then (ofFields t.objectId t.classId t.isClass).withData
      else ofFields t.objectId t.classId t.isClass := by
  have hdata := t.toNat_hasData
  have hsplit := Nat.div_add_mod t.word.toNat (2 ^ 63)
  refine eq_of_toNat_word ?_
  cases h : t.hasData with
  | true =>
    rw [h, Bool.toNat_true] at hdata
    rw [if_pos rfl, toNat_word_withData, toNat_word_ofFields_fields, Nat.mod_mod]
    omega
  | false =>
    rw [h, Bool.toNat_false] at hdata
    rw [if_neg Bool.false_ne_true, toNat_word_ofFields_fields]
    omega

/-- Tokens with the same fields are the same. -/
theorem eq_of_fields {s t : Token} (hobject : s.objectId = t.objectId)
    (hclass : s.classId = t.classId) (hisClass : s.isClass = t.isClass)
    (hdata : s.hasData = t.hasData) : s = t := by
  rw [s.eq_ofFields, t.eq_ofFields, hobject, hclass, hisClass, hdata]

/-- **The fields take up the whole word and do not reach into one another.** Of any fields that are
put into a token, each is read back as far as it fits, and the token has not been renewed. Any word
is put together again of its own fields. Renewing a token sets its data bit, leaves the other fields
as they were, and does nothing a second time. -/
theorem fields_partition :
    (∀ (id : ObjectId) (ofClass : UInt32) (isClass : Bool),
      let t := ofFields id ofClass isClass
      t.objectId.toNat = id.toNat % 2 ^ 40 ∧ t.classId.toNat = ofClass.toNat % 2 ^ 22 ∧
        t.isClass = isClass ∧ t.hasData = false) ∧
    (∀ t : Token, t =
      if t.hasData then (ofFields t.objectId t.classId t.isClass).withData
      else ofFields t.objectId t.classId t.isClass) ∧
    ∀ t : Token,
      t.withData.objectId = t.objectId ∧ t.withData.classId = t.classId ∧
        t.withData.isClass = t.isClass ∧ t.withData.hasData = true ∧
        t.withData.withData = t.withData := by
  refine ⟨fun id ofClass isClass => ?_, eq_ofFields, fun t => ?_⟩
  · exact ⟨toNat_objectId_ofFields id ofClass isClass, toNat_classId_ofFields id ofClass isClass,
      isClass_ofFields id ofClass isClass, hasData_ofFields id ofClass isClass⟩
  · have htwice : t.withData.withData = t.withData :=
      eq_of_fields t.withData.objectId_withData t.withData.classId_withData
        t.withData.isClass_withData (t.withData.hasData_withData.trans t.hasData_withData.symm)
    exact ⟨t.objectId_withData, t.classId_withData, t.isClass_withData, t.hasData_withData, htwice⟩

end Token

end TraceRelay
