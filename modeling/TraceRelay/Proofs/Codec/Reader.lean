import TraceRelay.Message.Decode
import TraceRelay.Proofs.Codec.Written

/-!
# What readers accept

Each reader is described by the byte strings that it accepts: those that start with the written form
of the value that it gives, the rest being left. Since this is an equivalence, a reader accepts all
that the writer produces and nothing else.

## Main results

* `Read.take_eq_ok_iff`, `Read.number_eq_ok_iff`, `Read.blob_eq_ok_iff` : the parts of values.
* `Read.times_eq_ok_iff` : a reader that is run again and again.
* `Value.read_eq_ok_iff`, `Record.read_eq_ok_iff` : values and records.
-/

namespace TraceRelay

namespace Read

/-! ### Bytes and numbers -/

theorem take_eq_ok_iff {n : Nat} {bs head rest : Bytes} :
    take n bs = .ok head rest ↔ head.length = n ∧ bs = head ++ rest := by
  have htake : take n bs = if (bs.take n).length < n then .error (.truncated n bs.length) bs
      else .ok (bs.take n) (bs.drop n) := rfl
  rw [htake]
  by_cases h : (bs.take n).length < n
  · rw [if_pos h]
    refine ⟨nofun, ?_⟩
    rintro ⟨rfl, rfl⟩
    simp at h
  · rw [if_neg h]
    simp only [EStateM.Result.ok.injEq]
    constructor
    · rintro ⟨rfl, rfl⟩
      exact ⟨Nat.le_antisymm (List.length_take_le n bs) (Nat.not_lt.1 h),
        (List.take_append_drop n bs).symm⟩
    · rintro ⟨rfl, rfl⟩
      simp

theorem number_eq_ok_iff {width n : Nat} {bs rest : Bytes} :
    number width bs = .ok n rest ↔
      n < Nat.pow 256 width ∧ bs = Bytes.littleEndian width n ++ rest := by
  simp only [number, Step.bind_eq_ok_iff, Step.pure_eq_ok_iff, take_eq_ok_iff]
  constructor
  · rintro ⟨head, _, ⟨rfl, rfl⟩, rfl, rfl⟩
    exact ⟨Bytes.value_lt head, by rw [Bytes.littleEndian_value]⟩
  · rintro ⟨hn, rfl⟩
    refine ⟨_, _, ⟨Bytes.length_littleEndian width n, rfl⟩, ?_, rfl⟩
    rw [Bytes.value_littleEndian, Nat.mod_eq_of_lt hn]

/-- A word is read from the bytes of its number. -/
private theorem word_eq_ok_iff {ω : Type} {ofNat : Nat → ω} {toNat : ω → Nat} (width : Nat)
    (hof : ∀ n < Nat.pow 256 width, toNat (ofNat n) = n) (hto : ∀ v, ofNat (toNat v) = v)
    (hlt : ∀ v, toNat v < Nat.pow 256 width) {bs rest : Bytes} {v : ω} :
    (do return ofNat (← number width) : Read CodecError ω) bs = .ok v rest ↔
      bs = Bytes.littleEndian width (toNat v) ++ rest := by
  simp only [Step.bind_eq_ok_iff, Step.pure_eq_ok_iff, number_eq_ok_iff]
  constructor
  · rintro ⟨n, _, ⟨hn, rfl⟩, rfl, rfl⟩
    rw [hof n hn]
  · rintro rfl
    exact ⟨_, _, ⟨hlt v, rfl⟩, hto v, rfl⟩

theorem uint8_eq_ok_iff {bs rest : Bytes} {v : UInt8} :
    uint8 bs = .ok v rest ↔ bs = [v] ++ rest := by
  have hword : [v] = Bytes.littleEndian 1 v.toNat := by simp [Bytes.littleEndian]
  rw [hword]
  exact word_eq_ok_iff 1 (fun _ hn => UInt8.toNat_ofNat_of_lt' hn)
    (fun _ => UInt8.ofNat_toNat) fun v => v.toNat_lt

theorem uint16_eq_ok_iff {bs rest : Bytes} {v : UInt16} :
    uint16 bs = .ok v rest ↔ bs = Bytes.ofUInt16 v ++ rest :=
  word_eq_ok_iff 2 (fun _ hn => UInt16.toNat_ofNat_of_lt' hn) (fun _ => UInt16.ofNat_toNat)
    fun v => v.toNat_lt

theorem uint32_eq_ok_iff {bs rest : Bytes} {v : UInt32} :
    uint32 bs = .ok v rest ↔ bs = Bytes.ofUInt32 v ++ rest :=
  word_eq_ok_iff 4 (fun _ hn => UInt32.toNat_ofNat_of_lt' hn) (fun _ => UInt32.ofNat_toNat)
    fun v => v.toNat_lt

theorem uint64_eq_ok_iff {bs rest : Bytes} {v : UInt64} :
    uint64 bs = .ok v rest ↔ bs = Bytes.ofUInt64 v ++ rest :=
  word_eq_ok_iff 8 (fun _ hn => UInt64.toNat_ofNat_of_lt' hn) (fun _ => UInt64.ofNat_toNat)
    fun v => v.toNat_lt

/-! ### Tags and blobs -/

theorem peekTag_eq_ok_iff {bs rest : Bytes} {tag : Tag} :
    peekTag bs = .ok tag rest ↔ ∃ tail, bs = tag.byteOf :: tail ∧ rest = bs := by
  cases bs with
  | nil => simp [peekTag]
  | cons b tail =>
    cases hb : Tag.ofByte? b with
    | none => simp [peekTag, ← Tag.ofByte?_eq_some_iff, hb]
    | some found => simp [peekTag, ← Tag.ofByte?_eq_some_iff, hb, eq_comm (a := rest)]

/-- The tag byte of a value whose tag is known. -/
theorem skipTag_eq_ok_iff {b : UInt8} {tail rest : Bytes} {head : Bytes} :
    take 1 (b :: tail) = .ok head rest ↔ head = [b] ∧ rest = tail := by
  rw [take_eq_ok_iff]
  constructor
  · rintro ⟨hlen, h⟩
    obtain ⟨x, rfl⟩ := List.length_eq_one_iff.1 hlen
    simp only [List.singleton_append, List.cons.injEq] at h
    exact ⟨by rw [h.1], h.2.symm⟩
  · rintro ⟨rfl, rfl⟩
    exact ⟨rfl, rfl⟩

theorem expect_eq_ok_iff {tag : Tag} {bs rest : Bytes} {u : Unit} :
    expect tag bs = .ok u rest ↔ bs = tag.byteOf :: rest := by
  simp only [expect, Step.bind_eq_ok_iff, peekTag_eq_ok_iff]
  constructor
  · rintro ⟨found, _, ⟨tail, rfl, rfl⟩, h⟩
    by_cases hfound : found = tag
    · simp only [if_pos hfound, Step.bind_eq_ok_iff, skipTag_eq_ok_iff, Step.pure_eq_ok_iff] at h
      obtain ⟨_, _, ⟨rfl, rfl⟩, _, rfl⟩ := h
      rw [hfound]
    · simp only [if_neg hfound] at h
      exact absurd h Step.throw_ne_ok
  · rintro rfl
    refine ⟨tag, _, ⟨rest, rfl, rfl⟩, ?_⟩
    simp only [if_pos, Step.bind_eq_ok_iff, skipTag_eq_ok_iff, Step.pure_eq_ok_iff]
    exact ⟨_, _, ⟨rfl, rfl⟩, trivial, rfl⟩

theorem blob_eq_ok_iff {bs data rest : Bytes} :
    blob bs = .ok data rest ↔ data.length ≤ maxUInt32 ∧
      bs = Bytes.littleEndian 4 data.length ++ data ++ rest := by
  have hmax : Nat.pow 256 4 = maxUInt32 + 1 := rfl
  simp only [blob, Step.bind_eq_ok_iff, number_eq_ok_iff, take_eq_ok_iff]
  constructor
  · rintro ⟨n, _, ⟨hn, rfl⟩, rfl, rfl⟩
    exact ⟨by omega, by rw [List.append_assoc]⟩
  · rintro ⟨hlen, rfl⟩
    exact ⟨data.length, _, ⟨by omega, List.append_assoc _ _ _⟩, rfl, rfl⟩

/-! ### Values of one form -/

/-- The bytes behind an expected tag. -/
private theorem tagged_eq_ok_iff {α : Type} {tag : Tag} {r : Read CodecError α} {a : α}
    {bs rest : Bytes} :
    (do expect tag; r : Read CodecError α) bs = .ok a rest ↔
      ∃ tail, bs = tag.byteOf :: tail ∧ r tail = .ok a rest := by
  simp only [Step.bind_eq_ok_iff, expect_eq_ok_iff]
  constructor
  · rintro ⟨_, tail, rfl, h⟩
    exact ⟨tail, rfl, h⟩
  · rintro ⟨tail, rfl, h⟩
    exact ⟨(), tail, rfl, h⟩

/-- A number that stands for something else is read as that. -/
private theorem converted_eq_ok_iff {α ω : Type} {r : Read CodecError ω} {form : ω → Bytes}
    (hr : ∀ {v bs rest}, r bs = .ok v rest ↔ bs = form v ++ rest) {f : ω → α} {g : α → ω}
    (hgf : ∀ v, g (f v) = v) (hfg : ∀ a, f (g a) = a) {a : α} {bs rest : Bytes} :
    (do return f (← r) : Read CodecError α) bs = .ok a rest ↔ bs = form (g a) ++ rest := by
  simp only [Step.bind_eq_ok_iff, Step.pure_eq_ok_iff, hr]
  constructor
  · rintro ⟨v, _, rfl, rfl, rfl⟩
    rw [hgf]
  · rintro rfl
    exact ⟨g a, _, rfl, hfg a, rfl⟩

theorem bool_eq_ok_iff {v : Bool} {bs rest : Bytes} :
    bool bs = .ok v rest ↔ bs = (if v then Tag.boolTrue else Tag.boolFalse).byteOf :: rest := by
  simp only [bool, Step.bind_eq_ok_iff, peekTag_eq_ok_iff]
  constructor
  · rintro ⟨found, _, ⟨tail, rfl, rfl⟩, h⟩
    cases found with
    | boolTrue =>
      obtain ⟨_, _, hskip, h⟩ := Step.bind_eq_ok_iff.1 h
      obtain ⟨rfl, rfl⟩ := skipTag_eq_ok_iff.1 hskip
      obtain ⟨rfl, rfl⟩ := Step.pure_eq_ok_iff.1 h
      rfl
    | boolFalse =>
      obtain ⟨_, _, hskip, h⟩ := Step.bind_eq_ok_iff.1 h
      obtain ⟨rfl, rfl⟩ := skipTag_eq_ok_iff.1 hskip
      obtain ⟨rfl, rfl⟩ := Step.pure_eq_ok_iff.1 h
      rfl
    | _ => exact absurd h Step.throw_ne_ok
  · rintro rfl
    refine ⟨_, _, ⟨rest, rfl, rfl⟩, ?_⟩
    cases v <;> exact Step.bind_eq_ok_iff.2 ⟨_, _, skipTag_eq_ok_iff.2 ⟨rfl, rfl⟩, rfl⟩

theorem byte_eq_ok_iff {v : Int8} {bs rest : Bytes} :
    byte bs = .ok v rest ↔ bs = Tag.byte.byteOf :: v.toUInt8 :: rest := by
  rw [byte, tagged_eq_ok_iff]
  simp only [converted_eq_ok_iff uint8_eq_ok_iff (f := UInt8.toInt8)
    (g := Int8.toUInt8) (fun _ => rfl) fun _ => rfl, exists_eq_right, List.singleton_append]

theorem char_eq_ok_iff {v : UInt16} {bs rest : Bytes} :
    char bs = .ok v rest ↔ bs = Tag.char.byteOf :: Bytes.ofUInt16 v ++ rest := by
  rw [char, tagged_eq_ok_iff]
  simp only [uint16_eq_ok_iff, exists_eq_right, List.cons_append]

theorem short_eq_ok_iff {v : Int16} {bs rest : Bytes} :
    short bs = .ok v rest ↔ bs = Tag.short.byteOf :: Bytes.ofUInt16 v.toUInt16 ++ rest := by
  rw [short, tagged_eq_ok_iff]
  simp only [converted_eq_ok_iff uint16_eq_ok_iff (f := UInt16.toInt16) (g := Int16.toUInt16)
    (fun _ => rfl) fun _ => rfl, exists_eq_right, List.cons_append]

theorem int_eq_ok_iff {v : Int32} {bs rest : Bytes} :
    int bs = .ok v rest ↔ bs = Tag.int.byteOf :: Bytes.ofUInt32 v.toUInt32 ++ rest := by
  rw [int, tagged_eq_ok_iff]
  simp only [converted_eq_ok_iff uint32_eq_ok_iff (f := UInt32.toInt32) (g := Int32.toUInt32)
    (fun _ => rfl) fun _ => rfl, exists_eq_right, List.cons_append]

theorem long_eq_ok_iff {v : Int64} {bs rest : Bytes} :
    long bs = .ok v rest ↔ bs = Tag.long.byteOf :: Bytes.ofUInt64 v.toUInt64 ++ rest := by
  rw [long, tagged_eq_ok_iff]
  simp only [converted_eq_ok_iff uint64_eq_ok_iff (f := UInt64.toInt64) (g := Int64.toUInt64)
    (fun _ => rfl) fun _ => rfl, exists_eq_right, List.cons_append]

theorem float_eq_ok_iff {v : UInt32} {bs rest : Bytes} :
    float bs = .ok v rest ↔ bs = Tag.float.byteOf :: Bytes.ofUInt32 v ++ rest := by
  rw [float, tagged_eq_ok_iff]
  simp only [uint32_eq_ok_iff, exists_eq_right, List.cons_append]

theorem double_eq_ok_iff {v : UInt64} {bs rest : Bytes} :
    double bs = .ok v rest ↔ bs = Tag.double.byteOf :: Bytes.ofUInt64 v ++ rest := by
  rw [double, tagged_eq_ok_iff]
  simp only [uint64_eq_ok_iff, exists_eq_right, List.cons_append]

theorem text_eq_ok_iff {s : String} {bs rest : Bytes} :
    text bs = .ok s rest ↔
      ∃ e, (Write.blob .string (Bytes.ofText s)).result = .ok e ∧ bs = e ++ rest := by
  rw [text, tagged_eq_ok_iff]
  simp only [Step.bind_eq_ok_iff, blob_eq_ok_iff, Write.result_blob_eq_ok_iff]
  constructor
  · rintro ⟨_, rfl, data, _, ⟨hlen, rfl⟩, h⟩
    cases ht : Bytes.text? data with
    | none =>
      rw [ht] at h
      exact absurd h Step.throw_ne_ok
    | some found =>
      rw [ht] at h
      obtain ⟨rfl, rfl⟩ := Step.pure_eq_ok_iff.1 h
      obtain rfl := Bytes.text?_eq_some_iff.1 ht
      exact ⟨_, ⟨hlen, rfl⟩, rfl⟩
  · rintro ⟨_, ⟨hlen, rfl⟩, rfl⟩
    refine ⟨_, rfl, _, _, ⟨hlen, rfl⟩, ?_⟩
    rw [Bytes.text?_eq_some_iff.2 rfl]
    rfl

theorem bytes_eq_ok_iff {v bs rest : Bytes} :
    bytes bs = .ok v rest ↔ ∃ e, (Write.blob .bytes v).result = .ok e ∧ bs = e ++ rest := by
  rw [bytes, tagged_eq_ok_iff]
  simp only [blob_eq_ok_iff, Write.result_blob_eq_ok_iff]
  constructor
  · rintro ⟨_, rfl, hlen, rfl⟩
    exact ⟨_, ⟨hlen, rfl⟩, rfl⟩
  · rintro ⟨_, ⟨hlen, rfl⟩, rfl⟩
    exact ⟨_, rfl, hlen, rfl⟩

/-- An object is read under either of its two tags. -/
theorem object_eq_ok_iff {tag : Tag} (htag : tag = .object ∨ tag = .objectData) {t : Token}
    {tail rest : Bytes} : object (tag.byteOf :: tail) = .ok t rest ↔
      tail = Bytes.ofUInt64 t.word ++ rest := by
  have hpeek : peekTag (tag.byteOf :: tail) = .ok tag (tag.byteOf :: tail) :=
    peekTag_eq_ok_iff.2 ⟨tail, rfl, rfl⟩
  have hskip : take 1 (tag.byteOf :: tail) = .ok [tag.byteOf] tail :=
    skipTag_eq_ok_iff.2 ⟨rfl, rfl⟩
  have hword : (do return ⟨← uint64⟩ : Read CodecError Token) tail = .ok t rest ↔
      tail = Bytes.ofUInt64 t.word ++ rest :=
    converted_eq_ok_iff uint64_eq_ok_iff (fun _ => rfl) fun _ => rfl
  rw [← hword, object, Step.bind_of_ok hpeek]
  rcases htag with rfl | rfl
  all_goals
    dsimp only
    rw [Step.bind_of_ok hskip]

/-! ### Repetition -/

/-- What many runs of a reader accept: the written forms, one after the other. -/
theorem times_eq_ok_iff {ε ε' α : Type} {r : Read ε α} (one : α → Except ε' Bytes)
    (all : List α → Except ε' Bytes) (hnil : all [] = .ok [])
    (hcons : ∀ {a as e}, all (a :: as) = .ok e ↔
      ∃ xs, one a = .ok xs ∧ ∃ ys, all as = .ok ys ∧ e = xs ++ ys)
    (hr : ∀ {bs rest a}, r bs = .ok a rest ↔ ∃ e, one a = .ok e ∧ bs = e ++ rest)
    {n : Nat} {as : List α} {bs rest : Bytes} :
    times n r bs = .ok as rest ↔ as.length = n ∧ ∃ e, all as = .ok e ∧ bs = e ++ rest := by
  induction n generalizing as bs rest with
  | zero =>
    simp only [times_zero, EStateM.Result.ok.injEq, List.length_eq_zero_iff]
    constructor
    · rintro ⟨rfl, rfl⟩
      exact ⟨rfl, [], hnil, rfl⟩
    · rintro ⟨rfl, e, he, rfl⟩
      rw [hnil] at he
      cases he
      exact ⟨rfl, rfl⟩
  | succ n ih =>
    simp only [times_succ, Step.bind_eq_ok_iff, Step.pure_eq_ok_iff, hr, ih]
    constructor
    · rintro ⟨a, _, ⟨xs, hxs, rfl⟩, as, _, ⟨rfl, ys, hys, rfl⟩, rfl, rfl⟩
      exact ⟨rfl, xs ++ ys, hcons.2 ⟨xs, hxs, ys, hys, rfl⟩, (List.append_assoc _ _ _).symm⟩
    · rintro ⟨hlen, e, he, rfl⟩
      cases as with
      | nil => cases hlen
      | cons a as =>
        obtain ⟨xs, hxs, ys, hys, rfl⟩ := hcons.1 he
        exact ⟨a, _, ⟨xs, hxs, List.append_assoc _ _ _⟩, as, _,
          ⟨Nat.succ.inj hlen, ys, hys, rfl⟩, rfl, rfl⟩

end Read

/-! ### Values and records -/

/-- A byte string starts with a value exactly when it starts with what is written for it. -/
theorem Value.read_eq_ok_iff {v : Value} {bs rest : Bytes} :
    Value.read bs = .ok v rest ↔ ∃ e, v.write.result = .ok e ∧ bs = e ++ rest := by
  rw [Value.read, Step.bind_eq_ok_iff]
  simp only [Read.peekTag_eq_ok_iff]
  constructor
  · rintro ⟨tag, _, ⟨tail, rfl, rfl⟩, h⟩
    cases tag
    all_goals
      obtain ⟨a, _, ha, h⟩ := Step.bind_eq_ok_iff.1 h
      obtain ⟨rfl, rfl⟩ := Step.pure_eq_ok_iff.1 h
    case boolTrue | boolFalse => exact ⟨_, Write.result_append _, Read.bool_eq_ok_iff.1 ha⟩
    case byte => exact ⟨_, Write.result_append _, Read.byte_eq_ok_iff.1 ha⟩
    case char => exact ⟨_, Write.result_append _, Read.char_eq_ok_iff.1 ha⟩
    case short => exact ⟨_, Write.result_append _, Read.short_eq_ok_iff.1 ha⟩
    case int => exact ⟨_, Write.result_append _, Read.int_eq_ok_iff.1 ha⟩
    case long => exact ⟨_, Write.result_append _, Read.long_eq_ok_iff.1 ha⟩
    case float => exact ⟨_, Write.result_append _, Read.float_eq_ok_iff.1 ha⟩
    case double => exact ⟨_, Write.result_append _, Read.double_eq_ok_iff.1 ha⟩
    case string => exact Read.text_eq_ok_iff.1 ha
    case bytes => exact Read.bytes_eq_ok_iff.1 ha
    case object =>
      exact ⟨_, Write.result_append _, congrArg _ ((Read.object_eq_ok_iff (.inl rfl)).1 ha)⟩
    case objectData =>
      exact ⟨_, Write.result_append _, congrArg _ ((Read.object_eq_ok_iff (.inr rfl)).1 ha)⟩
  · have hfixed {bs e : Bytes} (he : (Write.append bs : Write CodecError Unit).result = .ok e) :
        e = bs := by
      rw [Write.result_append] at he
      cases he
      rfl
    rintro ⟨e, he, rfl⟩
    cases v with
    | bool v =>
      obtain rfl := hfixed he
      cases v
      · exact ⟨.boolFalse, _, ⟨_, rfl, rfl⟩,
          Step.bind_eq_ok_iff.2 ⟨_, _, Read.bool_eq_ok_iff.2 rfl, rfl⟩⟩
      · exact ⟨.boolTrue, _, ⟨_, rfl, rfl⟩,
          Step.bind_eq_ok_iff.2 ⟨_, _, Read.bool_eq_ok_iff.2 rfl, rfl⟩⟩
    | byte v =>
      obtain rfl := hfixed he
      exact ⟨.byte, _, ⟨_, rfl, rfl⟩,
        Step.bind_eq_ok_iff.2 ⟨_, _, Read.byte_eq_ok_iff.2 rfl, rfl⟩⟩
    | char v =>
      obtain rfl := hfixed he
      exact ⟨.char, _, ⟨_, rfl, rfl⟩,
        Step.bind_eq_ok_iff.2 ⟨_, _, Read.char_eq_ok_iff.2 rfl, rfl⟩⟩
    | short v =>
      obtain rfl := hfixed he
      exact ⟨.short, _, ⟨_, rfl, rfl⟩,
        Step.bind_eq_ok_iff.2 ⟨_, _, Read.short_eq_ok_iff.2 rfl, rfl⟩⟩
    | int v =>
      obtain rfl := hfixed he
      exact ⟨.int, _, ⟨_, rfl, rfl⟩,
        Step.bind_eq_ok_iff.2 ⟨_, _, Read.int_eq_ok_iff.2 rfl, rfl⟩⟩
    | long v =>
      obtain rfl := hfixed he
      exact ⟨.long, _, ⟨_, rfl, rfl⟩,
        Step.bind_eq_ok_iff.2 ⟨_, _, Read.long_eq_ok_iff.2 rfl, rfl⟩⟩
    | float bits =>
      obtain rfl := hfixed he
      exact ⟨.float, _, ⟨_, rfl, rfl⟩,
        Step.bind_eq_ok_iff.2 ⟨_, _, Read.float_eq_ok_iff.2 rfl, rfl⟩⟩
    | double bits =>
      obtain rfl := hfixed he
      exact ⟨.double, _, ⟨_, rfl, rfl⟩,
        Step.bind_eq_ok_iff.2 ⟨_, _, Read.double_eq_ok_iff.2 rfl, rfl⟩⟩
    | text s =>
      obtain ⟨-, rfl⟩ := Write.result_blob_eq_ok_iff.1 he
      exact ⟨.string, _, ⟨_, rfl, rfl⟩,
        Step.bind_eq_ok_iff.2 ⟨_, _, Read.text_eq_ok_iff.2 ⟨_, he, rfl⟩, rfl⟩⟩
    | bytes bs =>
      obtain ⟨-, rfl⟩ := Write.result_blob_eq_ok_iff.1 he
      exact ⟨.bytes, _, ⟨_, rfl, rfl⟩,
        Step.bind_eq_ok_iff.2 ⟨_, _, Read.bytes_eq_ok_iff.2 ⟨_, he, rfl⟩, rfl⟩⟩
    | object t =>
      obtain rfl := hfixed he
      exact ⟨.object, _, ⟨_, rfl, rfl⟩,
        Step.bind_eq_ok_iff.2 ⟨_, _, (Read.object_eq_ok_iff (.inl rfl)).2 rfl, rfl⟩⟩
    | objectWithData t =>
      obtain rfl := hfixed he
      exact ⟨.objectData, _, ⟨_, rfl, rfl⟩,
        Step.bind_eq_ok_iff.2 ⟨_, _, (Read.object_eq_ok_iff (.inr rfl)).2 rfl, rfl⟩⟩

theorem Value.times_read_eq_ok_iff {n : Nat} {vs : List Value} {bs rest : Bytes} :
    Read.times n Value.read bs = .ok vs rest ↔
      vs.length = n ∧ ∃ e, (writeAll vs).result = .ok e ∧ bs = e ++ rest :=
  Read.times_eq_ok_iff (fun v => v.write.result) (fun vs => (writeAll vs).result)
    result_writeAll_nil result_writeAll_cons_eq_ok_iff read_eq_ok_iff

theorem Record.read_eq_ok_iff {r : Record} {bs rest : Bytes} :
    Record.read bs = .ok r rest ↔ ∃ e, r.write.result = .ok e ∧ bs = e ++ rest := by
  unfold Record.read Read.ofValues
  simp only [Step.bind_eq_ok_iff, Step.pure_eq_ok_iff, Step.adaptExcept_eq_ok_iff,
    Read.uint16_eq_ok_iff, Read.uint8_eq_ok_iff, Record.result_write_eq_ok_iff,
    Value.times_read_eq_ok_iff]
  constructor
  · rintro ⟨method, _, rfl, count, _, rfl, args, _, ⟨hlen, xs, hxs, rfl⟩, rfl, rfl⟩
    have hcount : UInt8.ofNat args.length = count := by rw [hlen, UInt8.ofNat_toNat]
    have hmax : args.length ≤ Record.maxArgs := by
      have hlt := count.toNat_lt
      unfold Record.maxArgs
      omega
    exact ⟨_, ⟨hmax, xs, hxs, rfl⟩, by simp [Record.head, hcount]⟩
  · rintro ⟨_, ⟨hmax, xs, hxs, rfl⟩, rfl⟩
    have hlen : r.args.length = (UInt8.ofNat r.args.length).toNat := by
      unfold Record.maxArgs at hmax
      rw [UInt8.toNat_ofNat_of_lt' (by change _ < 256; omega)]
    exact ⟨r.method, _, by rw [Record.head, List.append_assoc, List.append_assoc], _, _, rfl,
      r.args, _, ⟨hlen, xs, hxs, rfl⟩, rfl, rfl⟩

theorem Record.times_read_eq_ok_iff {n : Nat} {rs : List Record} {bs rest : Bytes} :
    Read.times n Record.read bs = .ok rs rest ↔
      rs.length = n ∧ ∃ e, (writeAll rs).result = .ok e ∧ bs = e ++ rest :=
  Read.times_eq_ok_iff (fun r => r.write.result) (fun rs => (writeAll rs).result)
    result_writeAll_nil result_writeAll_cons_eq_ok_iff read_eq_ok_iff

theorem Token.read_eq_ok_iff {t : Token} {bs rest : Bytes} :
    Token.read bs = .ok t rest ↔ bs = Bytes.ofUInt64 t.word ++ rest := by
  unfold Token.read Read.ofValues
  simp only [Step.bind_eq_ok_iff, Step.pure_eq_ok_iff, Step.adaptExcept_eq_ok_iff,
    Read.uint64_eq_ok_iff]
  constructor
  · rintro ⟨w, _, rfl, rfl, rfl⟩
    rfl
  · rintro rfl
    exact ⟨_, _, rfl, rfl, rfl⟩

theorem Token.times_read_eq_ok_iff {n : Nat} {ts : List Token} {bs rest : Bytes} :
    Read.times n Token.read bs = .ok ts rest ↔
      ts.length = n ∧ ∃ e, (writeAll ts).result = .ok e ∧ bs = e ++ rest :=
  Read.times_eq_ok_iff (fun t => (Write.token t : Write WireError Unit).result)
    (fun ts => (writeAll ts).result) rfl
    ((Write.atomic_token _).local.result_seq_eq_ok_iff (local_writeAll _))
    (by simp [Token.read_eq_ok_iff])

end TraceRelay
