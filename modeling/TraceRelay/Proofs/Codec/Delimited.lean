import Mathlib.Data.List.Forall2
import TraceRelay.Proofs.Codec.Reader

/-!
# Values and records end by themselves

Nothing between two values says where the first one ends, and nothing has to: a reader takes the
written form of a value from the front of a byte string, whatever stands behind it, and leaves the
rest. So values and records can be read one after the other until nothing is left. A reader that
fails stops in front of what it could not take, and its fault describes what stands there.

## Main definitions

* `CodecError.Describes` : the fault of a reader, and where it stopped.
* `Read.Exhausts` : a reader that is run until nothing is left.

## Main results

* `Value.describes_of_read`, `Record.describes_of_read` : where these readers stop when they fail.
* `Read.exhausts_iff` : written forms, one behind the other, are read as what they were written for.
* `Read.self_delimiting` : what readers of values and records make of a byte string.
-/

namespace TraceRelay

/-- The fault of a reader says what stands where it stopped: too few bytes, a byte that is no tag,
or anything behind a string whose bytes are no text. -/
inductive CodecError.Describes : CodecError → Bytes → Prop
  | truncated {needed : Nat} {rest : Bytes} (h : rest.length < needed) :
    Describes (.truncated needed rest.length) rest
  | unknownTag {b : UInt8} {tail : Bytes} (h : Tag.ofByte? b = none) :
    Describes (.unknownTag b) (b :: tail)
  | invalidUtf8 {rest : Bytes} : Describes .invalidUtf8 rest

namespace Read

variable {ε ε' α : Type} {r : Read ε α}

/-- Runs of a reader, one after the other, use up a byte string. -/
inductive Exhausts (r : Read ε α) : Bytes → List α → Prop
  | done : Exhausts r [] []
  | step {bs rest : Bytes} {a : α} {as : List α} (hsome : bs ≠ []) (hone : r bs = .ok a rest)
    (hrest : Exhausts r rest as) : Exhausts r bs (a :: as)

/-- Written forms, one behind the other, are read as what they were written for, and nothing else
is. -/
theorem exhausts_iff {one : α → Except ε' Bytes}
    (hr : ∀ {bs rest a}, r bs = .ok a rest ↔ ∃ e, one a = .ok e ∧ bs = e ++ rest)
    (hnil : ∀ a, r [] ≠ .ok a []) {bs : Bytes} {as : List α} :
    Exhausts r bs as ↔ ∃ es, List.Forall₂ (fun a e => one a = .ok e) as es ∧ bs = es.flatten := by
  constructor
  · intro h
    induction h with
    | done => exact ⟨[], .nil, rfl⟩
    | step _ hone _ ih =>
      obtain ⟨es, hes, rfl⟩ := ih
      obtain ⟨e, he, rfl⟩ := hr.1 hone
      exact ⟨e :: es, .cons he hes, rfl⟩
  · rintro ⟨es, hes, rfl⟩
    induction hes with
    | nil => exact .done
    | @cons a e as es he _ ih =>
      refine .step (fun hempty => hnil a (hr.2 ⟨e, he, ?_⟩)) (hr.2 ⟨e, he, rfl⟩) ih
      rw [(List.append_eq_nil_iff.1 hempty).1, List.nil_append]

/-- Repeated runs of a reader fail in the first run that fails. -/
theorem exists_of_times_eq_error {n : Nat} {bs rest : Bytes} {e : ε}
    (h : times n r bs = .error e rest) :
    ∃ as front, as.length < n ∧ times as.length r bs = .ok as front ∧ r front = .error e rest := by
  induction n generalizing bs with
  | zero => cases h
  | succ n ih =>
    rw [times_succ] at h
    obtain hfirst | ⟨a, mid, hfirst, hmore⟩ := Step.bind_eq_error_iff.1 h
    · exact ⟨[], bs, Nat.zero_lt_succ n, rfl, hfirst⟩
    · obtain hmore | ⟨_, _, _, hpure⟩ := Step.bind_eq_error_iff.1 hmore
      · obtain ⟨as, front, hlt, has, hfails⟩ := ih hmore
        refine ⟨a :: as, front, Nat.succ_lt_succ hlt, ?_, hfails⟩
        rw [List.length_cons, times_succ, Step.bind_of_ok hfirst, Step.bind_of_ok has]
        rfl
      · cases hpure

/-! ### Where readers stop -/

section

variable {whole : Bytes}

/-- Bytes are taken from the front of `whole`. A fault tells of too few bytes, or of bytes that are
no text. -/
private def Lacks (whole : Bytes) (r : Read CodecError α) : Prop :=
  Step.Confines (· <:+ whole) (fun e rest =>
    e = .invalidUtf8 ∨ ∃ needed, rest.length < needed ∧ e = .truncated needed rest.length) r

private theorem Lacks.map {β : Type} {r : Read CodecError α} (hr : Lacks whole r) (f : α → β) :
    Lacks whole (do return f (← r)) :=
  Step.Confines.bind hr fun a => .pure (f a)

private theorem Lacks.describes {r : Read CodecError α} (hr : Lacks whole r) {rest : Bytes}
    {e : CodecError} (h : r whole = .error e rest) :
    rest <:+ whole ∧ e.Describes rest ∧ ∀ b, e ≠ .unknownTag b := by
  obtain ⟨hsuffix, hfault⟩ := hr whole List.suffix_rfl
  rw [h] at hsuffix
  obtain rfl | ⟨needed, hlt, rfl⟩ := hfault e rest h
  · exact ⟨hsuffix, .invalidUtf8, nofun⟩
  · exact ⟨hsuffix, .truncated hlt, nofun⟩

private theorem lacks_take (n : Nat) : Lacks whole (take n) := by
  intro bs hbs
  by_cases hlen : bs.length < n
  · have htake : take n bs = .error (.truncated n bs.length) bs :=
      if_pos (Nat.lt_of_le_of_lt (List.length_take_le' n bs) hlen)
    rw [htake]
    refine ⟨hbs, fun e rest heq => ?_⟩
    cases heq
    exact .inr ⟨n, hlen, rfl⟩
  · have htake : take n bs = .ok (bs.take n) (bs.drop n) :=
      take_eq_ok_iff.2 ⟨List.length_take_of_le (Nat.le_of_not_lt hlen),
        (List.take_append_drop n bs).symm⟩
    rw [htake]
    exact ⟨(List.drop_suffix n bs).trans hbs, nofun⟩

private theorem lacks_number (width : Nat) : Lacks whole (number width) := (lacks_take width).map _

private theorem lacks_uint8 : Lacks whole uint8 := (lacks_number 1).map _

private theorem lacks_uint16 : Lacks whole uint16 := (lacks_number 2).map _

private theorem lacks_uint32 : Lacks whole uint32 := (lacks_number 4).map _

private theorem lacks_uint64 : Lacks whole uint64 := (lacks_number 8).map _

private theorem lacks_blob : Lacks whole blob :=
  Step.Confines.bind (lacks_number 4) fun n => lacks_take n

private theorem lacks_text : Lacks whole (do
    match Bytes.text? (← blob) with
    | some s => return s
    | none => throw .invalidUtf8) := by
  refine Step.Confines.bind lacks_blob fun bs => ?_
  cases Bytes.text? bs with
  | some s => exact .pure s
  | none => exact .throw fun _ _ => .inl rfl

end

/-- What stands behind the tag of a value is read without another tag. -/
private theorem exists_content (tag : Tag) (tail : Bytes) : ∃ content : Read CodecError Value,
    Lacks tail content ∧ Value.read (tag.byteOf :: tail) = content tail := by
  cases tag with
  | boolTrue => exact ⟨_, .pure (.bool true), rfl⟩
  | boolFalse => exact ⟨_, .pure (.bool false), rfl⟩
  | byte => exact ⟨_, (lacks_uint8.map UInt8.toInt8).map .byte, rfl⟩
  | char => exact ⟨_, lacks_uint16.map .char, rfl⟩
  | short => exact ⟨_, (lacks_uint16.map UInt16.toInt16).map .short, rfl⟩
  | int => exact ⟨_, (lacks_uint32.map UInt32.toInt32).map .int, rfl⟩
  | long => exact ⟨_, (lacks_uint64.map UInt64.toInt64).map .long, rfl⟩
  | float => exact ⟨_, lacks_uint32.map .float, rfl⟩
  | double => exact ⟨_, lacks_uint64.map .double, rfl⟩
  | string => exact ⟨_, lacks_text.map .text, rfl⟩
  | bytes => exact ⟨_, lacks_blob.map .bytes, rfl⟩
  | object => exact ⟨_, (lacks_uint64.map Token.mk).map .object, rfl⟩
  | objectData => exact ⟨_, (lacks_uint64.map Token.mk).map .objectWithData, rfl⟩

end Read

open Read

/-- **Where the reader of a value stops** when it fails: in front of what it could not take. A byte
that is no tag is the first one. -/
theorem Value.describes_of_read {bs rest : Bytes} {e : CodecError}
    (h : Value.read bs = .error e rest) :
    rest <:+ bs ∧ e.Describes rest ∧ ∀ b, e = .unknownTag b → rest = bs := by
  cases bs with
  | nil =>
    have hempty : (CodecError.truncated 1 ([] : Bytes).length).Describes [] :=
      .truncated Nat.zero_lt_one
    cases h
    exact ⟨List.suffix_rfl, hempty, nofun⟩
  | cons b tail =>
    cases htag : Tag.ofByte? b with
    | none =>
      have hread : Value.read (b :: tail) = .error (.unknownTag b) (b :: tail) :=
        Step.bind_of_error (by simp [peekTag, htag])
      cases hread.symm.trans h
      exact ⟨List.suffix_rfl, .unknownTag htag, fun _ _ => rfl⟩
    | some tag =>
      obtain rfl := Tag.ofByte?_eq_some_iff.1 htag
      obtain ⟨content, hlacks, hread⟩ := exists_content tag tail
      obtain ⟨hsuffix, hdescribes, hknown⟩ := hlacks.describes (hread.symm.trans h)
      exact ⟨hsuffix.trans (List.suffix_cons _ tail), hdescribes,
        fun b' heq => absurd heq (hknown b')⟩

/-- **Where the reader of a record stops** when it fails: in front of what it could not take. A byte
that is no tag stands where one of the arguments should begin, behind those that were read. -/
theorem Record.describes_of_read {bs rest : Bytes} {e : WireError}
    (h : Record.read bs = .error e rest) :
    ∃ c : CodecError, e = .ofCodec c ∧ rest <:+ bs ∧ c.Describes rest ∧
      ∀ b, c = .unknownTag b → ∃ (method : MethodId) (count : UInt8) (vs : List Value) (xs : Bytes),
        vs.length < count.toNat ∧ (Value.writeAll vs).result = .ok xs ∧
          bs = head method count.toNat ++ xs ++ rest := by
  unfold Record.read ofValues at h
  obtain hfails | ⟨method, _, hmethod, hbehind⟩ := Step.bind_eq_error_iff.1 h
  · obtain ⟨c, hc, rfl⟩ := Step.adaptExcept_eq_error_iff.1 hfails
    obtain ⟨hsuffix, hdescribes, hknown⟩ := lacks_uint16.describes hc
    exact ⟨c, rfl, hsuffix, hdescribes, fun b heq => absurd heq (hknown b)⟩
  obtain rfl := uint16_eq_ok_iff.1 (Step.adaptExcept_eq_ok_iff.1 hmethod)
  obtain hfails | ⟨count, _, hcount, hargs⟩ := Step.bind_eq_error_iff.1 hbehind
  · obtain ⟨c, hc, rfl⟩ := Step.adaptExcept_eq_error_iff.1 hfails
    obtain ⟨hsuffix, hdescribes, hknown⟩ := lacks_uint8.describes hc
    exact ⟨c, rfl, hsuffix.trans (List.suffix_append _ _), hdescribes,
      fun b heq => absurd heq (hknown b)⟩
  obtain rfl := uint8_eq_ok_iff.1 (Step.adaptExcept_eq_ok_iff.1 hcount)
  obtain hfails | ⟨_, _, _, hpure⟩ := Step.bind_eq_error_iff.1 hargs
  · obtain ⟨c, hc, rfl⟩ := Step.adaptExcept_eq_error_iff.1 hfails
    obtain ⟨vs, front, hlt, hvs, hv⟩ := exists_of_times_eq_error hc
    obtain ⟨-, xs, hxs, rfl⟩ := Value.times_read_eq_ok_iff.1 hvs
    obtain ⟨hsuffix, hdescribes, htag⟩ := Value.describes_of_read hv
    have hhead : head method count.toNat = Bytes.ofUInt16 method ++ [count] := by
      rw [head, UInt8.ofNat_toNat]
    refine ⟨c, rfl, ?_, hdescribes, fun b heq => ⟨method, count, vs, xs, hlt, hxs, ?_⟩⟩
    · exact hsuffix.trans ((List.suffix_append _ _).trans
        ((List.suffix_append _ _).trans (List.suffix_append _ _)))
    · rw [hhead, htag b heq, List.append_assoc, List.append_assoc]
  · cases hpure

theorem Value.exhausts_read_iff {bs : Bytes} {vs : List Value} : Exhausts Value.read bs vs ↔
    ∃ es, List.Forall₂ (fun (v : Value) e => v.write.result = .ok e) vs es ∧ bs = es.flatten :=
  exhausts_iff Value.read_eq_ok_iff nofun

theorem Record.exhausts_read_iff {bs : Bytes} {rs : List Record} : Exhausts Record.read bs rs ↔
    ∃ es, List.Forall₂ (fun (r : Record) e => r.write.result = .ok e) rs es ∧ bs = es.flatten :=
  exhausts_iff Record.read_eq_ok_iff nofun

/-- **Values and records delimit themselves.** A byte string starts with a value or a record exactly
when it starts with what is written for it, and the rest is left as it is. So reading one after the
other until nothing is left gives the values or records of which the byte string holds the written
forms, one behind the other. A reader that fails has only taken bytes from the front. If it lacks
bytes, then it tells how many are left, and that it needs more. If it meets a byte that is no tag,
then this byte stands where it stopped: that is where the value begins, and in a record where an
argument begins, behind the head and the arguments before. -/
theorem Read.self_delimiting :
    (∀ (v : Value) (bs rest : Bytes),
      Value.read bs = .ok v rest ↔ ∃ e, v.write.result = .ok e ∧ bs = e ++ rest) ∧
    (∀ (r : Record) (bs rest : Bytes),
      Record.read bs = .ok r rest ↔ ∃ e, r.write.result = .ok e ∧ bs = e ++ rest) ∧
    (∀ (vs : List Value) (bs : Bytes), Exhausts Value.read bs vs ↔
      ∃ es, List.Forall₂ (fun (v : Value) e => v.write.result = .ok e) vs es ∧ bs = es.flatten) ∧
    (∀ (rs : List Record) (bs : Bytes), Exhausts Record.read bs rs ↔
      ∃ es, List.Forall₂ (fun (r : Record) e => r.write.result = .ok e) rs es ∧ bs = es.flatten) ∧
    (∀ (bs rest : Bytes) (e : CodecError), Value.read bs = .error e rest → rest <:+ bs ∧
      (∀ needed available, e = .truncated needed available →
        available < needed ∧ available = rest.length) ∧
      ∀ b, e = .unknownTag b → rest = bs ∧ bs.head? = some b ∧ Tag.ofByte? b = none) ∧
    ∀ (bs rest : Bytes) (e : WireError), Record.read bs = .error e rest → rest <:+ bs ∧
      (∀ needed available, e = .truncated needed available →
        available < needed ∧ available = rest.length) ∧
      ∀ b, e = .unknownTag b → rest.head? = some b ∧ Tag.ofByte? b = none ∧
        ∃ (method : MethodId) (count : UInt8) (vs : List Value) (xs : Bytes),
          vs.length < count.toNat ∧ (Value.writeAll vs).result = .ok xs ∧
            bs = Record.head method count.toNat ++ xs ++ rest := by
  refine ⟨fun _ _ _ => Value.read_eq_ok_iff, fun _ _ _ => Record.read_eq_ok_iff,
    fun _ _ => Value.exhausts_read_iff, fun _ _ => Record.exhausts_read_iff,
    fun bs rest e h => ?_, fun bs rest e h => ?_⟩
  · obtain ⟨hsuffix, hdescribes, hfirst⟩ := Value.describes_of_read h
    refine ⟨hsuffix, ?_, ?_⟩
    · rintro needed available rfl
      cases hdescribes with
      | truncated hlt => exact ⟨hlt, rfl⟩
    · rintro b rfl
      obtain rfl := hfirst b rfl
      cases hdescribes with
      | unknownTag htag => exact ⟨rfl, rfl, htag⟩
  · obtain ⟨c, rfl, hsuffix, hdescribes, hplace⟩ := Record.describes_of_read h
    refine ⟨hsuffix, ?_, ?_⟩
    · intro needed available heq
      cases hdescribes with
      | truncated hlt =>
        cases heq
        exact ⟨hlt, rfl⟩
      | unknownTag | invalidUtf8 => cases heq
    · intro b heq
      cases hdescribes with
      | unknownTag htag =>
        cases heq
        exact ⟨rfl, htag, hplace b rfl⟩
      | truncated | invalidUtf8 => cases heq

/-- Two values, one behind the other; a record of which the text of the second argument is cut off;
and one of which the second argument starts with a byte that is no tag. -/
theorem Read.self_delimiting_cutOff :
    let cut : Bytes := [7, 0, 2, 3, 5, 0x10, 4, 0, 0, 0, 0x61]
    let strange : Bytes := [7, 0, 2, 3, 5, 0x7F, 9]
    Exhausts Value.read [8, 1, 0, 0xC0, 0x7F, 0x10, 2, 0, 0, 0, 0xC3, 0xA9]
        [.float 0x7FC00001, .text "é"] ∧
      Record.read cut = .error (.truncated 4 1) [0x61] ∧ 1 < 4 ∧
      Record.read strange = .error (.unknownTag 0x7F) [0x7F, 9] ∧
      ∃ (method : MethodId) (count : UInt8) (vs : List Value) (xs : Bytes),
        vs.length < count.toNat ∧ (Value.writeAll vs).result = .ok xs ∧
          strange = Record.head method count.toNat ++ xs ++ [0x7F, 9] := by
  intro cut strange
  have hcut : Record.read cut = .error (.truncated 4 1) [0x61] := rfl
  have hstrange : Record.read strange = .error (.unknownTag 0x7F) [0x7F, 9] := rfl
  obtain ⟨-, -, hvalues, -, -, hfails⟩ := self_delimiting
  have hwritten : List.Forall₂ (fun (v : Value) e => v.write.result = .ok e)
      [.float 0x7FC00001, .text "é"]
      [[8, 1, 0, 0xC0, 0x7F], [0x10, 2, 0, 0, 0, 0xC3, 0xA9]] :=
    .cons (by decide +kernel) (.cons (by decide +kernel) .nil)
  exact ⟨(hvalues _ _).2 ⟨_, hwritten, rfl⟩, hcut, ((hfails _ _ _ hcut).2.1 4 1 rfl).1, hstrange,
    ((hfails _ _ _ hstrange).2.2 0x7F rfl).2.2⟩

end TraceRelay
