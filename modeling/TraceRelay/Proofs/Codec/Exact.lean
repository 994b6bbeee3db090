import Mathlib.Data.List.Basic
import TraceRelay.Proofs.Codec.Reader

/-!
# The stream format is exact

A body is accepted for a kind exactly when it is what the writer makes of the message that the
reader finds in it. Hence every message that can be written is read back as it was, and a byte
string is the body of at most one message of each kind, which has no other body.

## Main results

* `Message.readBody_eq_ok_iff` : the front of a byte string as the body of a message.
* `Message.decode_exact` : the accepted bodies and the frames of their messages.
-/

namespace TraceRelay

namespace Message

/-! ### Bodies as they are written -/

theorem result_analyze_eq_ok_iff {ordering : UInt64} {records : List Record} {e : Bytes} :
    (analyze ordering records).writeBody.result = .ok e ↔
      records.length ≤ maxUInt32 ∧ ∃ xs, (Record.writeAll records).result = .ok xs ∧
        e = Bytes.ofUInt64 ordering ++ (Bytes.ofUInt32 (.ofNat records.length) ++ xs) := by
  have hrecords := Record.local_writeAll records
  refine Iff.trans ((Write.atomic_append (Bytes.ofUInt64 ordering)).local.result_seq_eq_ok_iff
    (Write.local_counted records.length hrecords)) ?_
  simp only [Write.result_append, Except.ok.injEq, exists_eq_left',
    Write.result_counted_eq_ok_iff hrecords]
  constructor
  · rintro ⟨_, ⟨hlen, xs, hxs, rfl⟩, rfl⟩
    exact ⟨hlen, xs, hxs, rfl⟩
  · rintro ⟨hlen, xs, hxs, rfl⟩
    exact ⟨_, ⟨hlen, xs, hxs, rfl⟩, rfl⟩

theorem result_registerMethod_eq_ok_iff {id : MethodId} {name : String} {e : Bytes} :
    (registerMethod id name).writeBody.result = .ok e ↔
      ∃ xs, (Write.text name).result = .ok xs ∧ e = Bytes.ofUInt16 id ++ xs := by
  refine Iff.trans ((Write.atomic_append _).local.result_seq_eq_ok_iff
    (Write.atomic_text name).local) ?_
  simp only [Write.result_append, Except.ok.injEq, exists_eq_left']

theorem result_classInfo_eq_ok_iff {info : ClassInfo} {e : Bytes} :
    (classInfo info).writeBody.result = .ok e ↔
      ∃ xs, (Write.text info.signature).result = .ok xs ∧
        ∃ ys, (Write.text info.generic).result = .ok ys ∧
          e = Bytes.ofUInt64 info.subject.word ++ (xs ++ (ys ++
            (Bytes.ofUInt64 info.loader.word ++ Bytes.ofUInt64 info.parent.word))) := by
  have hloader := (Write.atomic_token (ε := WireError) info.loader).local
  have hparent := (Write.atomic_token (ε := WireError) info.parent).local
  have hgeneric := (Write.atomic_text info.generic).local
  have hsignature := (Write.atomic_text info.signature).local
  refine Iff.trans ((Write.atomic_token _).local.result_seq_eq_ok_iff
    (hsignature.seq (hgeneric.seq (hloader.seq hparent)))) ?_
  simp only [hsignature.result_seq_eq_ok_iff (hgeneric.seq (hloader.seq hparent)),
    hgeneric.result_seq_eq_ok_iff (hloader.seq hparent), hloader.result_seq_eq_ok_iff hparent,
    Write.result_token, Except.ok.injEq, exists_eq_left']
  constructor
  · rintro ⟨_, ⟨xs, hxs, _, ⟨ys, hys, _, rfl, rfl⟩, rfl⟩, rfl⟩
    exact ⟨xs, hxs, ys, hys, rfl⟩
  · rintro ⟨xs, hxs, ys, hys, rfl⟩
    exact ⟨_, ⟨xs, hxs, _, ⟨ys, hys, _, rfl, rfl⟩, rfl⟩, rfl⟩

theorem result_stringInfo_eq_ok_iff {subject : Token} {text : String} {e : Bytes} :
    (stringInfo subject text).writeBody.result = .ok e ↔
      ∃ xs, (Write.text text).result = .ok xs ∧ e = Bytes.ofUInt64 subject.word ++ xs := by
  refine Iff.trans ((Write.atomic_token _).local.result_seq_eq_ok_iff
    (Write.atomic_text text).local) ?_
  simp only [Write.result_token, Except.ok.injEq, exists_eq_left']

theorem result_threadInfo_eq_ok_iff {info : ThreadInfo} {e : Bytes} :
    (threadInfo info).writeBody.result = .ok e ↔
      ∃ xs, (Write.text info.name).result = .ok xs ∧
        e = Bytes.ofUInt64 info.subject.word ++ (xs ++
          [(if info.daemon then Tag.boolTrue else Tag.boolFalse).byteOf]) := by
  have hname := (Write.atomic_text info.name).local
  have hdaemon := ((Value.bool info.daemon).atomic_write.adaptExcept WireError.ofCodec).local
  refine Iff.trans ((Write.atomic_token _).local.result_seq_eq_ok_iff (hname.seq hdaemon)) ?_
  have hbool : Write.result (EStateM.adaptExcept WireError.ofCodec
      (Value.bool info.daemon).write) =
        .ok [(if info.daemon then Tag.boolTrue else Tag.boolFalse).byteOf] := by
    rw [Write.result_adaptExcept]
    exact congrArg _ (Write.result_append _)
  simp only [hname.result_seq_eq_ok_iff hdaemon, hbool, Write.result_token, Except.ok.injEq,
    exists_eq_left']
  constructor
  · rintro ⟨_, ⟨xs, hxs, rfl⟩, rfl⟩
    exact ⟨xs, hxs, rfl⟩
  · rintro ⟨xs, hxs, rfl⟩
    exact ⟨_, ⟨xs, hxs, rfl⟩, rfl⟩

/-! ### Bodies as they are read -/

private theorem le_maxUInt32 {n : Nat} {v : UInt32} (h : n = v.toNat) : n ≤ maxUInt32 := by
  have hlt := v.toNat_lt
  unfold maxUInt32
  omega

private theorem toNat_ofNat {n : Nat} (h : n ≤ maxUInt32) : (UInt32.ofNat n).toNat = n := by
  unfold maxUInt32 at h
  exact UInt32.toNat_ofNat_of_lt' (by change n < 2 ^ 32; omega)

/-- A byte string starts with the body of a message exactly when it starts with what is written for
the message, and the message is of the kind that is asked for. -/
theorem readBody_eq_ok_iff {kind : MessageKind} {m : Message} {bs rest : Bytes} :
    readBody kind bs = .ok m rest ↔
      m.kind = kind ∧ ∃ e, m.writeBody.result = .ok e ∧ bs = e ++ rest := by
  cases kind
  case close =>
    rw [readBody, Step.pure_eq_ok_iff]
    constructor
    · rintro ⟨rfl, rfl⟩
      exact ⟨rfl, [], rfl, rfl⟩
    · rintro ⟨hkind, e, he, rfl⟩
      cases m <;> cases hkind
      cases he
      exact ⟨rfl, rfl⟩
  all_goals
    unfold readBody Read.ofValues
    simp only [Step.bind_eq_ok_iff, Step.pure_eq_ok_iff, Step.adaptExcept_eq_ok_iff,
      Read.uint16_eq_ok_iff, Read.uint32_eq_ok_iff, Read.uint64_eq_ok_iff, Read.text_eq_ok_iff,
      ← Write.result_text_eq_ok_iff, Read.bool_eq_ok_iff, Token.read_eq_ok_iff,
      Record.times_read_eq_ok_iff, Token.times_read_eq_ok_iff]
  case analyze =>
    constructor
    · rintro ⟨ordering, _, rfl, count, _, rfl, records, _, ⟨hlen, xs, hxs, rfl⟩, rfl, rfl⟩
      refine ⟨rfl, _, result_analyze_eq_ok_iff.2 ⟨le_maxUInt32 hlen, xs, hxs, rfl⟩, ?_⟩
      simp [hlen]
    · rintro ⟨hkind, e, he, rfl⟩
      cases m <;> cases hkind
      obtain ⟨hlen, xs, hxs, rfl⟩ := result_analyze_eq_ok_iff.1 he
      exact ⟨_, _, by rw [List.append_assoc, List.append_assoc], _, _, rfl, _, _,
        ⟨(toNat_ofNat hlen).symm, xs, hxs, rfl⟩, rfl, rfl⟩
  case objectFree =>
    constructor
    · rintro ⟨count, _, rfl, tokens, _, ⟨hlen, xs, hxs, rfl⟩, rfl, rfl⟩
      refine ⟨rfl, _, (Write.result_counted_eq_ok_iff (Token.local_writeAll tokens)).2
        ⟨le_maxUInt32 hlen, xs, hxs, rfl⟩, ?_⟩
      simp [hlen]
    · rintro ⟨hkind, e, he, rfl⟩
      cases m <;> cases hkind
      rename_i tokens
      obtain ⟨hlen, xs, hxs, rfl⟩ :=
        (Write.result_counted_eq_ok_iff (Token.local_writeAll tokens)).1 he
      exact ⟨_, _, by rw [List.append_assoc], _, _,
        ⟨(toNat_ofNat hlen).symm, xs, hxs, rfl⟩, rfl, rfl⟩
  case registerMethod =>
    constructor
    · rintro ⟨id, _, rfl, name, _, ⟨xs, hxs, rfl⟩, rfl, rfl⟩
      exact ⟨rfl, _, result_registerMethod_eq_ok_iff.2 ⟨xs, hxs, rfl⟩, by simp⟩
    · rintro ⟨hkind, e, he, rfl⟩
      cases m <;> cases hkind
      obtain ⟨xs, hxs, rfl⟩ := result_registerMethod_eq_ok_iff.1 he
      exact ⟨_, _, List.append_assoc _ _ _, _, _, ⟨xs, hxs, rfl⟩, rfl, rfl⟩
  case classInfo =>
    constructor
    · rintro ⟨subject, _, rfl, signature, _, ⟨xs, hxs, rfl⟩, generic, _, ⟨ys, hys, rfl⟩,
        loader, _, rfl, parent, _, rfl, rfl, rfl⟩
      exact ⟨rfl, _, result_classInfo_eq_ok_iff.2 ⟨xs, hxs, ys, hys, rfl⟩, by simp⟩
    · rintro ⟨hkind, e, he, rfl⟩
      cases m <;> cases hkind
      obtain ⟨xs, hxs, ys, hys, rfl⟩ := result_classInfo_eq_ok_iff.1 he
      exact ⟨_, _, List.append_assoc _ _ _, _, _, ⟨xs, hxs, List.append_assoc _ _ _⟩, _, _,
        ⟨ys, hys, List.append_assoc _ _ _⟩, _, _, List.append_assoc _ _ _, _, _, rfl, rfl, rfl⟩
  case stringInfo =>
    constructor
    · rintro ⟨subject, _, rfl, text, _, ⟨xs, hxs, rfl⟩, rfl, rfl⟩
      exact ⟨rfl, _, result_stringInfo_eq_ok_iff.2 ⟨xs, hxs, rfl⟩, by simp⟩
    · rintro ⟨hkind, e, he, rfl⟩
      cases m <;> cases hkind
      obtain ⟨xs, hxs, rfl⟩ := result_stringInfo_eq_ok_iff.1 he
      exact ⟨_, _, List.append_assoc _ _ _, _, _, ⟨xs, hxs, rfl⟩, rfl, rfl⟩
  case threadInfo =>
    constructor
    · rintro ⟨subject, _, rfl, name, _, ⟨xs, hxs, rfl⟩, daemon, _, rfl, rfl, rfl⟩
      exact ⟨rfl, _, result_threadInfo_eq_ok_iff.2 ⟨xs, hxs, rfl⟩, by simp⟩
    · rintro ⟨hkind, e, he, rfl⟩
      cases m <;> cases hkind
      obtain ⟨xs, hxs, rfl⟩ := result_threadInfo_eq_ok_iff.1 he
      exact ⟨_, _, List.append_assoc _ _ _, _, _, ⟨xs, hxs, List.append_assoc _ _ _⟩, _, _,
        rfl, rfl, rfl⟩
  case threadEnd =>
    constructor
    · rintro ⟨ordering, _, rfl, rfl, rfl⟩
      exact ⟨rfl, _, Write.result_append _, rfl⟩
    · rintro ⟨hkind, e, he, rfl⟩
      cases m <;> cases hkind
      cases (Write.result_append _).symm.trans he
      exact ⟨_, _, rfl, rfl, rfl⟩

/-- A body is accepted exactly when it is what is written for the message that it gives. -/
theorem decode_eq_ok_iff_writeBody {kind : MessageKind} {body : Bytes} {m : Message} :
    decode kind body = .ok m ↔ m.kind = kind ∧ m.writeBody.result = .ok body := by
  have hwhole : decode kind body = .ok m ↔ readBody kind body = .ok m [] := by
    unfold decode Read.whole
    cases readBody kind body with
    | error e rest => simp
    | ok a rest => cases rest <;> simp
  rw [hwhole, readBody_eq_ok_iff]
  simp only [List.append_nil, exists_eq_right']

/-- Frames of which the bodies are not too long are equal only if kind and body are. -/
private theorem frame_inj {k l : UInt8} {bs cs : Bytes}
    (h : k :: Bytes.littleEndian 4 bs.length ++ bs = l :: Bytes.littleEndian 4 cs.length ++ cs) :
    k = l ∧ bs = cs := by
  obtain ⟨rfl, htail⟩ := List.cons.inj h
  exact ⟨rfl, (List.append_inj htail (by simp)).2⟩

theorem decode_eq_ok_iff_toBytes {kind : MessageKind} {body : Bytes} {m : Message}
    (hbody : body.length ≤ maxUInt32) :
    decode kind body = .ok m ↔ m.kind = kind ∧
      m.toBytes = .ok (kind.byteOf :: Bytes.littleEndian 4 body.length ++ body) := by
  rw [decode_eq_ok_iff_writeBody, toBytes_eq, (result_write m).2, except_bind_eq_ok_iff]
  constructor
  · rintro ⟨rfl, hm⟩
    exact ⟨rfl, body, hm, if_neg (by omega)⟩
  · rintro ⟨rfl, bs, hm, hframe⟩
    by_cases h : bs.length > maxUInt32
    · rw [if_pos h] at hframe
      cases hframe
    · rw [if_neg h] at hframe
      obtain ⟨-, rfl⟩ := frame_inj (Except.ok.inj hframe)
      exact ⟨rfl, hm⟩

/-- Every frame is made of a kind, the length of a body and the body, from which the message is
read back. -/
theorem decode_of_toBytes {m : Message} {frame : Bytes} (h : m.toBytes = .ok frame) :
    ∃ body : Bytes, body.length ≤ maxUInt32 ∧
      frame = m.kind.byteOf :: Bytes.littleEndian 4 body.length ++ body ∧
      decode m.kind body = .ok m := by
  rw [toBytes_eq, (result_write m).2, except_bind_eq_ok_iff] at h
  obtain ⟨body, hbody, hframe⟩ := h
  by_cases hlen : body.length > maxUInt32
  · rw [if_pos hlen] at hframe
    cases hframe
  · rw [if_neg hlen] at hframe
    exact ⟨body, by omega, (Except.ok.inj hframe).symm,
      decode_eq_ok_iff_writeBody.2 ⟨rfl, hbody⟩⟩

/-- Different messages have different frames. -/
theorem eq_of_toBytes {m m' : Message} {frame : Bytes} (h : m.toBytes = .ok frame)
    (h' : m'.toBytes = .ok frame) : m = m' := by
  obtain ⟨body, -, hframe, hm⟩ := decode_of_toBytes h
  obtain ⟨body', -, hframe', hm'⟩ := decode_of_toBytes h'
  obtain ⟨hkind, rfl⟩ := frame_inj (hframe.symm.trans hframe')
  have hsame : m.kind = m'.kind := by
    have hbyte := congrArg MessageKind.ofByte hkind
    rw [MessageKind.ofByte_byteOf, MessageKind.ofByte_byteOf] at hbyte
    exact Except.ok.inj hbyte
  rw [hsame, hm'] at hm
  exact (Except.ok.inj hm).symm

/-- **The format is exact.** A body is accepted for a kind, and gives a message, exactly when the
frame of that message is the kind, the length of the body and the body. Hence each message that can
be written is read back from its frame. -/
theorem decode_exact (m : Message) :
    (∀ (kind : MessageKind) (body : Bytes), body.length ≤ maxUInt32 →
      (decode kind body = .ok m ↔ m.kind = kind ∧
        m.toBytes = .ok (kind.byteOf :: Bytes.littleEndian 4 body.length ++ body))) ∧
    ∀ frame, m.toBytes = .ok frame → ∃ body : Bytes, body.length ≤ maxUInt32 ∧
      frame = m.kind.byteOf :: Bytes.littleEndian 4 body.length ++ body ∧
      decode m.kind body = .ok m :=
  ⟨fun _ _ hbody => decode_eq_ok_iff_toBytes hbody, fun _ h => decode_of_toBytes h⟩

/-- A record with a text and the bits of a number that is not one, in a batch. -/
theorem decode_exact_batch :
    let m := analyze 256 [⟨7, [.text "é", .float 0x7FC00001, .objectWithData ⟨5⟩]⟩]
    let body : Bytes := [0, 1, 0, 0, 0, 0, 0, 0, 1, 0, 0, 0, 7, 0, 3, 0x10, 2, 0, 0, 0, 0xC3, 0xA9,
      8, 1, 0, 0xC0, 0x7F, 0x21, 5, 0, 0, 0, 0, 0, 0, 0]
    body.length ≤ maxUInt32 ∧ decode .analyze body = .ok m ∧
      m.toBytes = .ok (MessageKind.analyze.byteOf :: Bytes.littleEndian 4 body.length ++ body) := by
  intro m body
  have hlen : body.length ≤ maxUInt32 := by decide
  have hframe : m.toBytes =
      .ok (MessageKind.analyze.byteOf :: Bytes.littleEndian 4 body.length ++ body) := by
    decide +kernel
  exact ⟨hlen, ((decode_exact m).1 .analyze body hlen).2 ⟨rfl, hframe⟩, hframe⟩

end Message

end TraceRelay
