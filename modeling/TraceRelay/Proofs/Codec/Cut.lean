import TraceRelay.Proofs.Codec.Exact

/-!
# Byte strings that are cut

A reader decides nothing from the end of its input: it either asks for more bytes than are left, or
does what it would do whatever came behind. Readers of this kind can be put one after the other, and
all readers of values, records and bodies are of this kind. So wherever an accepted byte string is
cut, in whatever field of whatever value, the reader asks for more bytes than are left.

## Main definitions

* `Read.extend` : the result of a reader, more bytes being left.
* `Read.RunsShort` : a reader has asked for more bytes than were left.
* `Read.Steady` : the reader runs short, or does not depend on what comes behind.

## Main results

* `Read.Steady.bind`, `Read.Steady.times` : steady readers, one after the other.
* `Value.steady_read`, `Record.steady_read`, `Message.steady_readBody` : these readers are steady.
* `Read.Steady.runsShort_of_cut` : an accepted byte string that is cut.
* `Message.decode_of_cut`, `Message.decode_append` : a body that is cut, and one with more bytes
  behind it.
-/

namespace TraceRelay

namespace Read

variable {ε ε' α β : Type} {short : Nat → Nat → ε}

/-- The result of a reader, more bytes being left. -/
def extend (more : Bytes) : EStateM.Result ε Bytes α → EStateM.Result ε Bytes α
  | .ok a rest => .ok a (rest ++ more)
  | .error e rest => .error e (rest ++ more)

/-- A reader has asked for more bytes than were left. How it puts that is open. -/
def RunsShort (short : Nat → Nat → ε) (result : EStateM.Result ε Bytes α) : Prop :=
  ∃ needed rest, rest.length < needed ∧ result = .error (short needed rest.length) rest

/-- A reader runs short, or does what it does whatever comes behind its input. -/
def Steady (short : Nat → Nat → ε) (r : Read ε α) : Prop :=
  ∀ bs, RunsShort short (r bs) ∨ ∀ more, r (bs ++ more) = extend more (r bs)

namespace Steady

theorem pure (a : α) : Steady short (pure a) := fun _ => .inr fun _ => rfl

theorem throw (e : ε) : Steady short (throw e : Read ε α) := fun _ => .inr fun _ => rfl

/-- Two steady readers, one after the other. -/
theorem bind {r : Read ε α} {f : α → Read ε β} (hr : Steady short r)
    (hf : ∀ a, Steady short (f a)) : Steady short (r >>= f) := by
  intro bs
  rcases hr bs with ⟨needed, rest, hlt, hbs⟩ | hmore
  · exact .inl ⟨needed, rest, hlt, Step.bind_of_error hbs⟩
  · cases hbs : r bs with
    | error e rest =>
      refine .inr fun more => ?_
      rw [Step.bind_of_error hbs]
      exact Step.bind_of_error (by rw [hmore, hbs]; rfl)
    | ok a rest =>
      have hgo (more : Bytes) : (r >>= f) (bs ++ more) = f a (rest ++ more) :=
        Step.bind_of_ok (by rw [hmore, hbs]; rfl)
      rw [Step.bind_of_ok hbs]
      exact (hf a rest).imp_right fun hrest more => (hgo more).trans (hrest more)

theorem map {r : Read ε α} (hr : Steady short r) (f : α → β) :
    Steady short (do return f (← r)) :=
  hr.bind fun a => pure (f a)

/-- A steady reader, run again and again. -/
theorem times {r : Read ε α} (hr : Steady short r) (n : Nat) : Steady short (times n r) := by
  induction n with
  | zero => exact pure []
  | succ n ih =>
    rw [times_succ]
    exact hr.bind fun a => ih.map (a :: ·)

theorem adaptExcept {r : Read ε α} (hr : Steady short r) (f : ε → ε') :
    Steady (fun needed available => f (short needed available)) (EStateM.adaptExcept f r) := by
  intro bs
  unfold EStateM.adaptExcept
  rcases hr bs with ⟨needed, rest, hlt, hbs⟩ | hmore
  · exact .inl ⟨needed, rest, hlt, by rw [hbs]⟩
  · refine .inr fun more => ?_
    rw [hmore]
    cases r bs <;> rfl

/-- **An accepted byte string that is cut.** The reader asks for more bytes than are left. -/
theorem runsShort_of_cut {r : Read ε α} (hr : Steady short r) {bs missing : Bytes} {a : α}
    (hall : r (bs ++ missing) = .ok a []) (hmissing : missing ≠ []) : RunsShort short (r bs) := by
  refine (hr bs).resolve_right fun hmore => ?_
  rw [hmore] at hall
  cases hbs : r bs with
  | error e rest =>
    rw [hbs] at hall
    cases hall
  | ok a' rest =>
    rw [hbs] at hall
    have hrest : rest ++ missing = [] := (EStateM.Result.ok.inj hall).2
    exact hmissing (List.append_eq_nil_iff.mp hrest).2

end Steady

/-! ### Readers of parts -/

theorem steady_take (n : Nat) : Steady .truncated (take n) := by
  intro bs
  by_cases hlen : bs.length < n
  · refine .inl ⟨n, bs, hlen, if_pos ?_⟩
    exact Nat.lt_of_le_of_lt (List.length_take_le' n bs) hlen
  -- Enough bytes are left, so what is taken does not depend on what is behind them.
  · have htake (more : Bytes) : take n (bs ++ more) = .ok (bs.take n) (bs.drop n ++ more) :=
      take_eq_ok_iff.2 ⟨List.length_take_of_le (Nat.le_of_not_lt hlen),
        by rw [← List.append_assoc, List.take_append_drop]⟩
    refine .inr fun more => ?_
    have hnone := htake []
    rw [List.append_nil, List.append_nil] at hnone
    rw [htake, hnone]
    rfl

theorem steady_peekTag : Steady .truncated peekTag := by
  intro bs
  cases bs with
  | nil => exact .inl ⟨1, [], Nat.zero_lt_one, rfl⟩
  | cons b bs =>
    refine .inr fun more => ?_
    rw [List.cons_append, peekTag, peekTag]
    cases Tag.ofByte? b <;> rfl

theorem steady_number (width : Nat) : Steady .truncated (number width) := (steady_take width).map _

theorem steady_uint8 : Steady .truncated uint8 := (steady_number 1).map _

theorem steady_uint16 : Steady .truncated uint16 := (steady_number 2).map _

theorem steady_uint32 : Steady .truncated uint32 := (steady_number 4).map _

theorem steady_uint64 : Steady .truncated uint64 := (steady_number 8).map _

theorem steady_expect (tag : Tag) : Steady .truncated (expect tag) := by
  refine steady_peekTag.bind fun found => ?_
  by_cases hfound : found = tag
  · rw [if_pos hfound]
    exact (steady_take 1).map _
  · rw [if_neg hfound]
    exact .throw _

theorem steady_blob : Steady .truncated blob := (steady_number 4).bind fun n => steady_take n

/-! ### Readers of values -/

theorem steady_bool : Steady .truncated bool := by
  refine steady_peekTag.bind fun found => ?_
  cases found with
  | boolTrue | boolFalse => exact (steady_take 1).map _
  | _ => exact .throw _

theorem steady_text : Steady .truncated text := by
  refine (steady_expect .string).bind fun _ => steady_blob.bind fun bs => ?_
  cases Bytes.text? bs with
  | some s => exact .pure s
  | none => exact .throw _

theorem steady_object : Steady .truncated object := by
  refine steady_peekTag.bind fun found => ?_
  cases found with
  | object | objectData =>
    exact (steady_take 1).bind fun _ => steady_uint64.map _
  | _ => exact .throw _

end Read

open Read

theorem Value.steady_read : Steady .truncated Value.read := by
  refine steady_peekTag.bind fun tag => ?_
  cases tag with
  | boolTrue | boolFalse => exact steady_bool.map _
  | byte => exact ((steady_expect _).bind fun _ => steady_uint8.map _).map _
  | char => exact ((steady_expect _).bind fun _ => steady_uint16).map _
  | short => exact ((steady_expect _).bind fun _ => steady_uint16.map _).map _
  | int => exact ((steady_expect _).bind fun _ => steady_uint32.map _).map _
  | long => exact ((steady_expect _).bind fun _ => steady_uint64.map _).map _
  | float => exact ((steady_expect _).bind fun _ => steady_uint32).map _
  | double => exact ((steady_expect _).bind fun _ => steady_uint64).map _
  | string => exact steady_text.map _
  | bytes => exact ((steady_expect _).bind fun _ => steady_blob).map _
  | object | objectData => exact steady_object.map _

/-! ### Readers of the stream -/

/-- A reader of values as a part of a reader of the stream. -/
private theorem steady_ofValues {α : Type} {r : Read CodecError α} (hr : Steady .truncated r) :
    Steady .truncated (ofValues r) :=
  hr.adaptExcept WireError.ofCodec

theorem Record.steady_read : Steady .truncated Record.read :=
  (steady_ofValues steady_uint16).bind fun _ => (steady_ofValues steady_uint8).bind fun count =>
    (steady_ofValues (Value.steady_read.times count.toNat)).map _

theorem Token.steady_read : Steady .truncated Token.read :=
  (steady_ofValues steady_uint64).map _

namespace Message

theorem steady_readBody (kind : MessageKind) : Steady .truncated (readBody kind) := by
  have htext := steady_ofValues steady_text
  have hword := steady_ofValues steady_uint64
  have hcount := steady_ofValues steady_uint32
  cases kind with
  | close => exact .pure _
  | analyze =>
    exact hword.bind fun _ => hcount.bind fun count =>
      (Record.steady_read.times count.toNat).map _
  | objectFree =>
    exact hcount.bind fun count => (Token.steady_read.times count.toNat).map _
  | registerMethod =>
    exact (steady_ofValues steady_uint16).bind fun _ => htext.map _
  | classInfo =>
    exact Token.steady_read.bind fun _ => htext.bind fun _ => htext.bind fun _ =>
      Token.steady_read.bind fun _ => Token.steady_read.map _
  | stringInfo => exact Token.steady_read.bind fun _ => htext.map _
  | threadInfo =>
    exact Token.steady_read.bind fun _ => htext.bind fun _ =>
      (steady_ofValues steady_bool).map _
  | threadEnd => exact hword.map _

/-- A body that is cut anywhere lacks bytes: the reader needs more than are left for it. -/
theorem decode_of_cut {m : Message} {body part : Bytes} (h : decode m.kind body = .ok m)
    (hpart : part <+: body) (hcut : part ≠ body) :
    ∃ needed available, available < needed ∧
      decode m.kind part = .error (.truncated needed available) := by
  obtain ⟨missing, rfl⟩ := hpart
  have hmissing : missing ≠ [] := by
    rintro rfl
    exact hcut (List.append_nil part).symm
  obtain ⟨-, hbody⟩ := decode_eq_ok_iff_writeBody.1 h
  have hread : readBody m.kind (part ++ missing) = .ok m [] :=
    readBody_eq_ok_iff.2 ⟨rfl, _, hbody, (List.append_nil _).symm⟩
  obtain ⟨needed, rest, hlt, hshort⟩ := (steady_readBody m.kind).runsShort_of_cut hread hmissing
  exact ⟨needed, rest.length, hlt, by rw [decode, whole, hshort]⟩

/-- Bytes behind a body are refused. -/
theorem decode_append {m : Message} {body extra : Bytes} (h : decode m.kind body = .ok m)
    (hextra : extra ≠ []) :
    decode m.kind (body ++ extra) = .error (.trailingBytes extra.length) := by
  obtain ⟨-, hbody⟩ := decode_eq_ok_iff_writeBody.1 h
  have hread : readBody m.kind (body ++ extra) = .ok m extra :=
    readBody_eq_ok_iff.2 ⟨rfl, body, hbody, rfl⟩
  rw [decode, whole, hread]
  cases extra with
  | nil => exact absurd rfl hextra
  | cons b extra => rfl

end Message

end TraceRelay
