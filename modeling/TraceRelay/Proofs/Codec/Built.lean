import TraceRelay.Proofs.Codec.Limits
import TraceRelay.Record.Typed

/-!
# Records that are put together

A record is written at once, its head in front of its arguments, or put together argument by
argument, its head being written last. Both ways lead to the same bytes and are refused for the same
reason, whether the arguments are added as values or by their types.

## Main definitions

* `RecordBuilder.Argument` : an argument, and the way in which it is added.

## Main results

* `RecordBuilder.pushTyped_eq` : an argument is the same whichever way it is added.
* `RecordBuilder.push_refused` : what is refused leaves no trace.
* `RecordBuilder.finish_eq_write` : a record that is put together is written as a whole record is.
-/

namespace TraceRelay

namespace RecordBuilder

/-- An argument, which is added as a value or by its type. -/
structure Argument where
  value : Value
  byType : Bool
deriving DecidableEq

/-- Adds the argument. -/
def Argument.add (a : Argument) : EStateM WireError RecordBuilder Unit :=
  if a.byType then pushTyped a.value else push a.value

variable {b : RecordBuilder}

private theorem add_eq (tag : Tag) (content : Bytes) (b : RecordBuilder) :
    add tag content b = addWith (Write.append (tag.byteOf :: content)) b := by
  have hbody :
      (b.body.append [tag.byteOf]).append content = b.body.append (tag.byteOf :: content) :=
    Write.append_append_buffer _ _ _
  change EStateM.Result.ok () { b with
    count := b.count + 1, body := (b.body.append [tag.byteOf]).append content } = _
  rw [hbody]
  rfl

/-- An argument is the same whether it is added as a value or by its type. -/
theorem pushTyped_eq (v : Value) : pushTyped v = push v := by
  funext b
  have hpush : push v b = addWith v.write b := rfl
  rw [hpush]
  cases v with
  | text | bytes => rfl
  | _ => exact add_eq _ _ b

theorem Argument.add_eq_push (a : Argument) : a.add = push a.value := by
  rw [Argument.add, pushTyped_eq, ite_self]

/-- An argument that is refused leaves no trace, whatever was added before. -/
theorem push_refused {v : Value} {e : CodecError} (h : v.write.result = .error e) :
    push v b = .error (.ofCodec e) b := by
  have hpush : push v b = addWith v.write b := rfl
  rw [hpush, addWith, v.atomic_write, h]

/-- A record takes all arguments that can be written, even more than it can have in the end. -/
theorem forM_add_of_holds {r : Record} (h : b.Holds r) {args : List Argument}
    (hargs : ∀ a ∈ args, ∃ bs, a.value.write.result = .ok bs) :
    ∃ b', args.forM Argument.add b = .ok () b' ∧
      b'.Holds ⟨r.method, r.args ++ args.map Argument.value⟩ := by
  induction args generalizing b r with
  | nil => exact ⟨b, rfl, by simpa using h⟩
  | cons a args ih =>
    obtain ⟨⟨bs, ha⟩, hrest⟩ := List.forall_mem_cons.1 hargs
    have hpush := push_of_holds h a.value
    rw [ha] at hpush
    obtain ⟨b₁, hfirst, hholds⟩ := hpush
    rw [← a.add_eq_push] at hfirst
    obtain ⟨b', hb', hall⟩ := ih hholds hrest
    exact ⟨b', (Step.bind_of_ok hfirst).trans hb', by simpa using hall⟩

/-- The size of a record is known before it is finished. -/
theorem size_of_finish {out out' : Buffer} (h : b.finish out = .ok () out') :
    out'.size = out.size + b.encodedSize := by
  unfold finish at h
  split at h
  · cases h
  · rw [Write.appendWith_eq] at h
    cases h
    rw [← Buffer.length_toList, Buffer.toList_append, List.length_append, List.length_append,
      Buffer.length_toList, Buffer.length_toList, Record.head, encodedSize]
    simp [Bytes.ofUInt16]

/-- **A record that is put together is written as a whole record is.** Whichever way its arguments
are added one by one, if each can be written it takes them all, and finishing it does to any buffer
what writing the whole record does, also where there are too many arguments. It counts its arguments
and knows how many bytes are written in the end. An argument that cannot be written is refused
without a trace. -/
theorem finish_eq_write (method : MethodId) (args : List Argument)
    (hargs : ∀ a ∈ args, ∃ bs, a.value.write.result = .ok bs) :
    (∃ b, args.forM Argument.add (start method) = .ok () b ∧ b.count = args.length ∧
      ∀ out, b.finish out = Record.write ⟨method, args.map Argument.value⟩ out ∧
        ∀ out', b.finish out = .ok () out' → out'.size = out.size + b.encodedSize) ∧
    ∀ (a : Argument) (b : RecordBuilder) (e : CodecError), a.value.write.result = .error e →
      a.add b = .error (.ofCodec e) b := by
  constructor
  · obtain ⟨b, hb, hholds⟩ := forM_add_of_holds (holds_start method) hargs
    obtain ⟨hatomic, hresult⟩ := finish_of_holds hholds
    refine ⟨b, hb, by simpa using hholds.count, fun out => ⟨?_, fun out' => size_of_finish⟩⟩
    rw [hatomic out, hresult, Record.atomic_write _ out]
    rfl
  · intro a b e he
    rw [a.add_eq_push]
    exact push_refused he

/-- A number that is added by its type, a text that is added as a value, and a byte string that is
too long by one byte. -/
theorem finish_eq_write_twoWays :
    let args : List Argument := [⟨.int 5, true⟩, ⟨.text "a", false⟩]
    let tooLong : Argument := ⟨.bytes (.replicate (maxUInt32 + 1) 0), true⟩
    (∀ a ∈ args, ∃ bs, a.value.write.result = .ok bs) ∧
    (∃ b, args.forM Argument.add (start 7) = .ok () b ∧ b.count = 2 ∧
      b.finish (.ofList [0xFF]) = Record.write ⟨7, [.int 5, .text "a"]⟩ (.ofList [0xFF]) ∧
      b.finish (.ofList [0xFF]) =
        .ok () (.ofList [0xFF, 7, 0, 2, 6, 5, 0, 0, 0, 0x10, 1, 0, 0, 0, 0x61]) ∧
      b.encodedSize = 14) ∧
    tooLong.add (start 7) = .error (.ofCodec (.blobTooLarge (maxUInt32 + 1))) (start 7) := by
  intro args tooLong
  have hargs : ∀ a ∈ args, ∃ bs, a.value.write.result = .ok bs :=
    List.forall_mem_cons.2 ⟨⟨_, rfl⟩, List.forall_mem_singleton.2 ⟨_, rfl⟩⟩
  have hwrite : Record.write ⟨7, [.int 5, .text "a"]⟩ (.ofList [0xFF]) =
      .ok () (.ofList [0xFF, 7, 0, 2, 6, 5, 0, 0, 0, 0x10, 1, 0, 0, 0, 0x61]) := rfl
  have hrefused : tooLong.value.write.result = .error (.blobTooLarge (maxUInt32 + 1)) := by
    change (Write.blob .bytes (.replicate (maxUInt32 + 1) 0)).result = _
    rw [(Write.result_blob _ _).2, List.length_replicate]
    exact if_pos (Nat.lt_succ_self _)
  obtain ⟨⟨b, hb, hcount, hfinish⟩, hrefuse⟩ := finish_eq_write 7 args hargs
  obtain ⟨hsame, hsize⟩ := hfinish (.ofList [0xFF])
  have hbytes := hsame.trans hwrite
  refine ⟨hargs, ⟨b, hb, hcount, hsame, hbytes, ?_⟩, hrefuse tooLong (start 7) _ hrefused⟩
  exact (Nat.add_left_cancel (hsize _ hbytes)).symm

end RecordBuilder

end TraceRelay
