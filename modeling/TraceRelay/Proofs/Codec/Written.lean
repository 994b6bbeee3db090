import TraceRelay.Proofs.Codec.Writer

/-!
# The written forms of values, records and messages

Values, records and whole frames are written all or nothing, whatever the buffer holds. The bytes of
a frame are the byte of its kind, the length of its body and the body; the length that was reserved
is filled in from what was written.

## Main results

* `Value.atomic_write`, `Record.atomic_write`, `Message.atomic_write` : all or nothing.
* `Record.result_write_eq_ok_iff` : the bytes of a record.
* `Message.result_write` : the bytes of a frame, or why there are none.
-/

namespace TraceRelay

/-! ### Values -/

namespace Write

theorem result_blob (tag : Tag) (bs : Bytes) :
    (blob tag bs).Atomic ∧ (blob tag bs).result =
      if bs.length > maxUInt32 then .error (.blobTooLarge bs.length)
      else .ok (tag.byteOf :: Bytes.littleEndian 4 bs.length ++ bs) := by
  have hblob : blob tag bs = if bs.length > maxUInt32 then throw (.blobTooLarge bs.length)
      else append (tag.byteOf :: Bytes.littleEndian 4 bs.length ++ bs) := rfl
  by_cases h : bs.length > maxUInt32
  · rw [hblob, if_pos h, if_pos h]
    exact ⟨atomic_throw _, rfl⟩
  · rw [hblob, if_neg h, if_neg h]
    exact ⟨atomic_append _, result_append _⟩

theorem result_blob_eq_ok_iff {tag : Tag} {bs e : Bytes} :
    (blob tag bs).result = .ok e ↔
      bs.length ≤ maxUInt32 ∧ e = tag.byteOf :: Bytes.littleEndian 4 bs.length ++ bs := by
  rw [(result_blob tag bs).2]
  by_cases h : bs.length > maxUInt32
  · rw [if_pos h]
    exact ⟨nofun, fun he => absurd he.1 (by omega)⟩
  · rw [if_neg h]
    simp only [Except.ok.injEq, eq_comm (a := e), show bs.length ≤ maxUInt32 by omega, true_and]

theorem atomic_text (s : String) : (text s).Atomic :=
  (result_blob _ _).1.adaptExcept _

theorem result_text_eq_ok_iff {s : String} {e : Bytes} :
    (text s).result = .ok e ↔ (blob .string (Bytes.ofText s)).result = .ok e := by
  unfold text ofValues
  rw [result_adaptExcept, except_mapError_eq_ok_iff]

theorem atomic_token {ε : Type} (t : Token) : (token t : Write ε Unit).Atomic :=
  atomic_append _

@[simp] theorem result_token {ε : Type} (t : Token) :
    (token t : Write ε Unit).result = .ok (Bytes.ofUInt64 t.word) := result_append _

end Write

namespace Value

theorem atomic_write (v : Value) : v.write.Atomic := by
  cases v with
  | text s => exact (Write.result_blob _ _).1
  | bytes bs => exact (Write.result_blob _ _).1
  | _ => exact Write.atomic_append _

theorem local_writeAll (vs : List Value) : (writeAll vs).Local := by
  induction vs with
  | nil => exact Write.atomic_pure.local
  | cons v vs ih => exact (atomic_write v).local.seq ih

theorem result_writeAll_nil : (writeAll []).result = .ok [] := rfl

theorem result_writeAll_cons_eq_ok_iff {v : Value} {vs : List Value} {e : Bytes} :
    (writeAll (v :: vs)).result = .ok e ↔
      ∃ xs, v.write.result = .ok xs ∧ ∃ ys, (writeAll vs).result = .ok ys ∧ e = xs ++ ys :=
  (atomic_write v).local.result_seq_eq_ok_iff (local_writeAll vs)

theorem result_writeAll_concat {vs : List Value} {v : Value} {xs ys : Bytes}
    (hvs : (writeAll vs).result = .ok xs) (hv : v.write.result = .ok ys) :
    (writeAll (vs ++ [v])).result = .ok (xs ++ ys) := by
  induction vs generalizing xs with
  | nil =>
    cases hvs
    exact result_writeAll_cons_eq_ok_iff.2 ⟨ys, hv, [], rfl, (List.append_nil ys).symm⟩
  | cons w vs ih =>
    obtain ⟨bs, hbs, cs, hcs, rfl⟩ := result_writeAll_cons_eq_ok_iff.1 hvs
    exact result_writeAll_cons_eq_ok_iff.2 ⟨bs, hbs, cs ++ ys, ih hcs, List.append_assoc _ _ _⟩

end Value

/-! ### Records -/

namespace Record

/-- A record is written behind its head, its arguments one after the other. -/
private theorem local_parts (r : Record) :
    (do
      Write.append (head r.method r.argCount)
      EStateM.adaptExcept WireError.ofCodec (Value.writeAll r.args) : Write WireError Unit).Local :=
  (Write.atomic_append _).local.seq ((Value.local_writeAll r.args).adaptExcept _)

private theorem write_eq (r : Record) : r.write =
    if r.args.length > maxArgs then throw (.tooManyArgs r.args.length)
    else Write.allOrNothing (do
      Write.append (head r.method r.argCount)
      EStateM.adaptExcept WireError.ofCodec (Value.writeAll r.args)) := rfl

theorem atomic_write (r : Record) : r.write.Atomic := by
  by_cases h : r.args.length > maxArgs
  · rw [write_eq, if_pos h]
    exact Write.atomic_throw _
  · rw [write_eq, if_neg h]
    exact (local_parts r).allOrNothing.1

/-- The bytes of a record: its head, and its arguments one after the other. -/
theorem result_write_eq_ok_iff {r : Record} {e : Bytes} :
    r.write.result = .ok e ↔ r.args.length ≤ maxArgs ∧
      ∃ xs, (Value.writeAll r.args).result = .ok xs ∧ e = head r.method r.args.length ++ xs := by
  by_cases h : r.args.length > maxArgs
  · rw [write_eq, if_pos h, Write.result_throw]
    exact ⟨nofun, fun he => absurd he.1 (by omega)⟩
  · have hhead : (Write.append (head r.method r.argCount) : Write WireError Unit).Local :=
      (Write.atomic_append _).local
    have hargs := (Value.local_writeAll r.args).adaptExcept WireError.ofCodec
    rw [write_eq, if_neg h, (local_parts r).allOrNothing.2, hhead.result_seq_eq_ok_iff hargs,
      Write.result_adaptExcept]
    simp only [Write.result_append, Except.ok.injEq, exists_eq_left', except_mapError_eq_ok_iff]
    exact ⟨fun he => ⟨by omega, he⟩, fun he => he.2⟩

theorem local_writeAll (rs : List Record) : (writeAll rs).Local := by
  induction rs with
  | nil => exact Write.atomic_pure.local
  | cons r rs ih => exact (atomic_write r).local.seq ih

theorem result_writeAll_nil : (writeAll []).result = .ok [] := rfl

theorem result_writeAll_cons_eq_ok_iff {r : Record} {rs : List Record} {e : Bytes} :
    (writeAll (r :: rs)).result = .ok e ↔
      ∃ xs, r.write.result = .ok xs ∧ ∃ ys, (writeAll rs).result = .ok ys ∧ e = xs ++ ys :=
  (atomic_write r).local.result_seq_eq_ok_iff (local_writeAll rs)

theorem result_writeAll_concat {rs : List Record} {r : Record} {xs ys : Bytes}
    (hrs : (writeAll rs).result = .ok xs) (hr : r.write.result = .ok ys) :
    (writeAll (rs ++ [r])).result = .ok (xs ++ ys) := by
  induction rs generalizing xs with
  | nil =>
    cases hrs
    exact result_writeAll_cons_eq_ok_iff.2 ⟨ys, hr, [], rfl, (List.append_nil ys).symm⟩
  | cons s rs ih =>
    obtain ⟨bs, hbs, cs, hcs, rfl⟩ := result_writeAll_cons_eq_ok_iff.1 hrs
    exact result_writeAll_cons_eq_ok_iff.2 ⟨bs, hbs, cs ++ ys, ih hcs, List.append_assoc _ _ _⟩

end Record

namespace Token

theorem local_writeAll (ts : List Token) : (writeAll ts).Local := by
  induction ts with
  | nil => exact Write.atomic_pure.local
  | cons t ts ih => exact (Write.atomic_token t).local.seq ih

/-- Tokens are never refused. -/
theorem result_writeAll (ts : List Token) :
    (writeAll ts).result = .ok (ts.flatMap fun t => Bytes.ofUInt64 t.word) := by
  induction ts with
  | nil => rfl
  | cons t ts ih =>
    have hseq := (Write.atomic_token t).local.result_seq (local_writeAll ts)
    rw [ih] at hseq
    exact hseq.trans (by simp [bind, Except.bind, pure, Except.pure])

end Token

/-! ### Frames -/

namespace Buffer

/-- Overwriting replaces as many bytes as are given. -/
theorem toList_overwrite {b : Buffer} {xs ys zs bs : Bytes} (hb : b.toList = xs ++ ys ++ zs)
    (hlen : bs.length = ys.length) : (b.overwrite xs.length bs).toList = xs ++ bs ++ zs := by
  induction bs generalizing b xs ys with
  | nil =>
    have hys : ys = [] := List.length_eq_zero_iff.mp hlen.symm
    rw [hys] at hb
    exact hb
  | cons byte bs ih =>
    obtain ⟨y, ys, rfl⟩ : ∃ y ys', ys = y :: ys' := List.exists_cons_of_length_eq_add_one hlen.symm
    have hset : (⟨b.bytes.set! xs.length byte⟩ : Buffer).toList =
        (xs ++ [byte]) ++ ys ++ zs := by
      change (b.bytes.data.setIfInBounds xs.length byte).toList = _
      rw [Array.toList_setIfInBounds]
      change b.toList.set xs.length byte = _
      rw [hb]
      simp
    have hrest := ih hset (by simpa using hlen)
    rw [List.length_append, List.length_singleton] at hrest
    rw [overwrite, hrest]
    simp

end Buffer

namespace Write

theorem patch_of_le {slot : Slot} {v : UInt32} {b : Buffer} {xs ys zs : Bytes}
    (hb : b.toList = xs ++ ys ++ zs) (hslot : slot.position = xs.length) (hys : ys.length = 4) :
    ∃ b' : Buffer, patch slot v b = .ok () b' ∧ b'.toList = xs ++ Bytes.ofUInt32 v ++ zs := by
  have hsize : ¬ slot.position + 4 > b.size := by
    rw [← Buffer.length_toList, hb, hslot]
    simp only [List.length_append]
    omega
  refine ⟨b.overwrite slot.position (Bytes.ofUInt32 v), if_neg hsize, ?_⟩
  rw [hslot]
  exact Buffer.toList_overwrite hb (by simp [Bytes.ofUInt32, hys])

/-- A number that does not fit its field ends the writing. -/
theorem count_bind (n : Nat) (w : UInt32 → Write WireError Unit) :
    (do let v ← count n; w v : Write WireError Unit) =
      if n > maxUInt32 then throw .batchTooLarge else w (.ofNat n) := by
  unfold count
  by_cases h : n > maxUInt32
  · rw [if_pos h, if_pos h]
    rfl
  · rw [if_neg h, if_neg h]
    rfl

/-- Content that starts with the number of its items. -/
theorem local_counted (n : Nat) {w : Write WireError Unit} (hw : w.Local) :
    (do append (Bytes.ofUInt32 (← count n)); w : Write WireError Unit).Local := by
  rw [count_bind]
  by_cases h : n > maxUInt32
  · rw [if_pos h]
    exact (atomic_throw _).local
  · rw [if_neg h]
    exact (atomic_append _).local.seq hw

theorem result_counted_eq_ok_iff {n : Nat} {w : Write WireError Unit} (hw : w.Local) {e : Bytes} :
    (do append (Bytes.ofUInt32 (← count n)); w : Write WireError Unit).result = .ok e ↔
      n ≤ maxUInt32 ∧ ∃ xs, w.result = .ok xs ∧ e = Bytes.ofUInt32 (.ofNat n) ++ xs := by
  rw [count_bind]
  by_cases h : n > maxUInt32
  · rw [if_pos h, result_throw]
    exact ⟨nofun, fun he => absurd he.1 (by omega)⟩
  · rw [if_neg h, (atomic_append _).local.result_seq_eq_ok_iff hw]
    simp only [result_append, Except.ok.injEq, exists_eq_left', true_and,
      show n ≤ maxUInt32 by omega]

/-- The field of a number is its four lowest bytes. -/
theorem ofUInt32_ofNat {n : Nat} (h : n ≤ maxUInt32) :
    Bytes.ofUInt32 (UInt32.ofNat n) = Bytes.littleEndian 4 n := by
  rw [Bytes.ofUInt32, UInt32.toNat_ofNat_of_lt' (by rw [maxUInt32] at h; change n < 2 ^ 32; omega)]

/-- A frame around a body: the length is the number of bytes that the body turned out to have. -/
def frame (kind : UInt8) (body : Write WireError Unit) : Write WireError Unit := do
  append [kind]
  let length ← reserve
  let start ← size
  body
  let stop ← size
  let bodySize ← count (stop - start)
  ofValues (patch length bodySize)

/-- The bytes of a frame without its body: the kind, and the length of the body. -/
theorem result_frame (kind : UInt8) {body : Write WireError Unit} (hbody : body.Local) :
    (frame kind body).Local ∧ (frame kind body).result = (do
      let bs ← body.result
      if bs.length > maxUInt32 then .error .batchTooLarge
      else .ok (kind :: Bytes.littleEndian 4 bs.length ++ bs)) := by
  have hopen (b : Buffer) : frame kind body b = (do
      body
      let stop ← size
      let bodySize ← count (stop - ((b.append [kind]).append [0, 0, 0, 0]).size)
      ofValues (patch ⟨(b.append [kind]).size⟩ bodySize) : Write WireError Unit)
        ((b.append [kind]).append [0, 0, 0, 0]) := rfl
  cases hr : body.result with
  | error e =>
    refine local_of_forall_error fun b => ?_
    obtain ⟨bs, hbs⟩ : ∃ bs, body ((b.append [kind]).append [0, 0, 0, 0]) =
        .error e (((b.append [kind]).append [0, 0, 0, 0]).append bs) := by
      simpa only [hr] using hbody ((b.append [kind]).append [0, 0, 0, 0])
    refine ⟨[kind] ++ [0, 0, 0, 0] ++ bs, ?_⟩
    rw [hopen, Step.bind_of_error hbs]
    simp only [append_append_buffer]
  | ok bs =>
    have hrun (b : Buffer) : body b = .ok () (b.append bs) := by simpa only [hr] using hbody b
    have hsize (b : Buffer) : (b.append bs).size - b.size = bs.length := by
      rw [← Buffer.length_toList, ← Buffer.length_toList, Buffer.toList_append,
        List.length_append, Nat.add_sub_cancel_left]
    have hbody (b : Buffer) : frame kind body b = (do
        let bodySize ← count bs.length
        ofValues (patch ⟨(b.append [kind]).size⟩ bodySize) : Write WireError Unit)
          (((b.append [kind]).append [0, 0, 0, 0]).append bs) := by
      rw [hopen, Step.bind_of_ok (hrun _), ← hsize ((b.append [kind]).append [0, 0, 0, 0])]
      rfl
    by_cases h : bs.length > maxUInt32
    · simp only [bind, Except.bind, if_pos h]
      refine local_of_forall_error fun b => ⟨[kind] ++ [0, 0, 0, 0] ++ bs, ?_⟩
      rw [hbody, count_bind, if_pos h]
      simp only [append_append_buffer]
      rfl
    · simp only [bind, Except.bind, if_neg h]
      refine local_of_forall_ok fun b => ?_
      have hzeros : (((b.append [kind]).append [0, 0, 0, 0]).append bs).toList =
          (b.append [kind]).toList ++ [0, 0, 0, 0] ++ bs := by simp only [Buffer.toList_append]
      obtain ⟨b', hb', hlist⟩ := patch_of_le (v := UInt32.ofNat bs.length) hzeros
        (Buffer.length_toList (b.append [kind])).symm rfl
      have hpatch : ofValues (patch ⟨(b.append [kind]).size⟩ (UInt32.ofNat bs.length))
          (((b.append [kind]).append [0, 0, 0, 0]).append bs) = .ok () b' :=
        Step.adaptExcept_eq_ok_iff.2 hb'
      rw [hbody, count_bind, if_neg h, hpatch]
      refine congrArg (EStateM.Result.ok ()) (Buffer.ext_toList ?_)
      rw [hlist, ofUInt32_ofNat (by omega)]
      simp

end Write

/-! ### Messages -/

namespace Message

theorem local_writeBody (m : Message) : m.writeBody.Local := by
  cases m with
  | close => exact Write.atomic_pure.local
  | analyze ordering records =>
    exact (Write.atomic_append _).local.seq
      (Write.local_counted records.length (Record.local_writeAll records))
  | objectFree tokens => exact Write.local_counted tokens.length (Token.local_writeAll tokens)
  | registerMethod id name =>
    exact (Write.atomic_append _).local.seq (Write.atomic_text name).local
  | classInfo info =>
    have htokens : (do Write.token info.loader; Write.token info.parent :
        Write WireError Unit).Local := (Write.atomic_token _).local.seq (Write.atomic_token _).local
    have htexts := (Write.atomic_text info.signature).local.seq
      ((Write.atomic_text info.generic).local.seq htokens)
    exact (Write.atomic_token info.subject).local.seq htexts
  | stringInfo subject text =>
    exact (Write.atomic_token subject).local.seq (Write.atomic_text text).local
  | threadInfo info =>
    have hdaemon := ((Value.bool info.daemon).atomic_write.adaptExcept WireError.ofCodec).local
    exact (Write.atomic_token info.subject).local.seq
      ((Write.atomic_text info.name).local.seq hdaemon)
  | threadEnd ordering => exact (Write.atomic_append _).local

/-- A message is written as a frame around its body, or not at all. -/
theorem result_write (m : Message) : m.write.Atomic ∧ m.write.result = (do
    let bs ← m.writeBody.result
    if bs.length > maxUInt32 then .error .batchTooLarge
    else .ok (m.kind.byteOf :: Bytes.littleEndian 4 bs.length ++ bs)) := by
  have hframe := Write.result_frame m.kind.byteOf m.local_writeBody
  have hwhole := hframe.1.allOrNothing
  exact ⟨hwhole.1, hwhole.2.trans hframe.2⟩

theorem toBytes_eq (m : Message) : m.toBytes = m.write.result := by
  unfold toBytes Write.result
  cases m.write {} <;> rfl

theorem toBytes_close : close.toBytes = .ok (MessageKind.close.byteOf :: [0, 0, 0, 0]) := by
  rw [toBytes_eq, (result_write close).2]
  rfl

theorem toBytes_threadEnd (ordering : UInt64) : (threadEnd ordering).toBytes =
    .ok (MessageKind.threadEnd.byteOf :: Bytes.littleEndian 4 8 ++ Bytes.ofUInt64 ordering) := by
  rw [toBytes_eq, (result_write _).2]
  rfl

end Message

end TraceRelay
