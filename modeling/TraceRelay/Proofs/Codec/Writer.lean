import TraceRelay.Message.Encode
import TraceRelay.Proofs.Steps

/-!
# What writers write

A writer that only appends behaves alike in every buffer: what it adds, and the fault that ends it,
do not depend on what is there. It is then described by its result in an empty buffer. Writers of
this kind can be put one after the other. A writer that takes back what it wrote when it fails adds
all of its bytes or none.

## Main definitions

* `Write.result` : the bytes that a writer adds to an empty buffer, or its fault.
* `Write.Local` : the writer adds these bytes, or meets this fault, in every buffer.
* `Write.Atomic` : the same of a writer that adds nothing when it fails.

## Main results

* `Write.Local.result_seq` : the result of two writers, one after the other.
* `Write.Local.allOrNothing` : a writer that takes back what it wrote adds all or nothing.
-/

namespace TraceRelay

namespace Write

variable {ε α : Type}

/-- The bytes that a writer adds to an empty buffer, or its fault. -/
def result (w : Write ε Unit) : Except ε Bytes :=
  match w {} with
  | .ok _ b => .ok b.toList
  | .error e _ => .error e

/-- A writer behaves in every buffer as it does in an empty one. What a failing writer has added
until then is left open. -/
def Local (w : Write ε Unit) : Prop :=
  ∀ b : Buffer, match w.result with
    | .ok bs => w b = .ok () (b.append bs)
    | .error e => ∃ bs, w b = .error e (b.append bs)

theorem append_nil_buffer (b : Buffer) : b.append [] = b :=
  Buffer.ext_toList (by simp)

theorem append_append_buffer (b : Buffer) (bs cs : Bytes) :
    (b.append bs).append cs = b.append (bs ++ cs) :=
  Buffer.ext_toList (by simp)

/-- A writer is local once its effect on every buffer is known. -/
theorem local_of_forall_ok {w : Write ε Unit} {bs : Bytes}
    (h : ∀ b : Buffer, w b = .ok () (b.append bs)) : w.Local ∧ w.result = .ok bs := by
  have hr : w.result = .ok bs := by
    simp only [result, h, Buffer.toList_append]
    rfl
  refine ⟨fun b => ?_, hr⟩
  simp only [hr]
  exact h b

theorem local_of_forall_error {w : Write ε Unit} {e : ε}
    (h : ∀ b : Buffer, ∃ bs, w b = .error e (b.append bs)) : w.Local ∧ w.result = .error e := by
  have hr : w.result = .error e := by
    obtain ⟨bs, hbs⟩ := h {}
    simp only [result, hbs]
  refine ⟨fun b => ?_, hr⟩
  simp only [hr]
  exact h b

/-- A writer adds its bytes or, if it fails, nothing at all, whatever the buffer holds. -/
def Atomic (w : Write ε Unit) : Prop :=
  ∀ b : Buffer, w b = match w.result with
    | .ok bs => .ok () (b.append bs)
    | .error e => .error e b

/-- A writer is atomic once its effect on every buffer is known. -/
theorem atomic_of_forall {w : Write ε Unit} {x : Except ε Bytes}
    (h : ∀ b : Buffer, w b = match x with
      | .ok bs => .ok () (b.append bs)
      | .error e => .error e b) : w.Atomic ∧ w.result = x := by
  have hr : w.result = x := by
    rw [result, h]
    cases x with
    | error e => rfl
    | ok bs => exact congrArg Except.ok (Buffer.toList_append {} bs)
  exact ⟨fun b => by rw [h, hr], hr⟩

theorem Atomic.local {w : Write ε Unit} (h : w.Atomic) : w.Local := by
  intro b
  have hb := h b
  cases hw : w.result with
  | error e => exact ⟨[], by simpa only [hw, append_nil_buffer] using hb⟩
  | ok bs => simpa only [hw] using hb

theorem atomic_append (bs : Bytes) : (append bs : Write ε Unit).Atomic :=
  (atomic_of_forall (x := .ok bs) fun _ => rfl).1

@[simp] theorem result_append (bs : Bytes) : (append bs : Write ε Unit).result = .ok bs :=
  (atomic_of_forall (x := .ok bs) fun _ => rfl).2

theorem atomic_pure : (pure () : Write ε Unit).Atomic := fun b =>
  congrArg (EStateM.Result.ok ()) (append_nil_buffer b).symm

theorem atomic_throw (e : ε) : (throw e : Write ε Unit).Atomic := fun _ => rfl

@[simp] theorem result_throw (e : ε) : (throw e : Write ε Unit).result = .error e := rfl

private theorem seq_parts {w v : Write ε Unit} (hw : w.Local) (hv : v.Local) :
    (do w; v : Write ε Unit).Local ∧
      (do w; v : Write ε Unit).result = do return (← w.result) ++ (← v.result) := by
  cases hwr : w.result with
  | error e =>
    refine local_of_forall_error fun b => ?_
    obtain ⟨bs, hbs⟩ : ∃ bs, w b = .error e (b.append bs) := by simpa only [hwr] using hw b
    exact ⟨bs, Step.bind_of_error hbs⟩
  | ok bs =>
    have hwb (b : Buffer) : w b = .ok () (b.append bs) := by simpa only [hwr] using hw b
    cases hvr : v.result with
    | error e =>
      refine local_of_forall_error fun b => ?_
      obtain ⟨cs, hcs⟩ : ∃ cs, v (b.append bs) = .error e ((b.append bs).append cs) := by
        simpa only [hvr] using hv (b.append bs)
      refine ⟨bs ++ cs, ?_⟩
      rw [Step.bind_of_ok (hwb b), ← append_append_buffer]
      exact hcs
    | ok cs =>
      have hvb (b : Buffer) : v b = .ok () (b.append cs) := by simpa only [hvr] using hv b
      refine local_of_forall_ok fun b => ?_
      rw [Step.bind_of_ok (hwb b), ← append_append_buffer]
      exact hvb _

theorem Local.seq {w v : Write ε Unit} (hw : w.Local) (hv : v.Local) :
    (do w; v : Write ε Unit).Local :=
  (seq_parts hw hv).1

/-- Two local writers, one after the other. -/
theorem Local.result_seq {w v : Write ε Unit} (hw : w.Local) (hv : v.Local) :
    (do w; v : Write ε Unit).result = do return (← w.result) ++ (← v.result) :=
  (seq_parts hw hv).2

theorem Local.result_seq_eq_ok_iff {w v : Write ε Unit} (hw : w.Local) (hv : v.Local)
    {bs : Bytes} : (do w; v : Write ε Unit).result = .ok bs ↔
      ∃ xs, w.result = .ok xs ∧ ∃ ys, v.result = .ok ys ∧ bs = xs ++ ys := by
  rw [hw.result_seq hv]
  simp only [except_bind_eq_ok_iff, pure, Except.pure, Except.ok.injEq, eq_comm (a := bs)]

/-- A local writer that takes back what it wrote adds all of its bytes or nothing. -/
theorem Local.allOrNothing {w : Write ε Unit} (h : w.Local) :
    w.allOrNothing.Atomic ∧ w.allOrNothing.result = w.result := by
  refine atomic_of_forall fun b => ?_
  have hb := h b
  cases hw : w.result with
  | error e =>
    obtain ⟨bs, hbs⟩ : ∃ bs, w b = .error e (b.append bs) := by simpa only [hw] using hb
    exact allOrNothing_error hbs (Buffer.toList_append b bs)
  | ok bs => exact allOrNothing_ok (by simpa only [hw] using hb)

/-- Renaming its faults does not change what a writer adds. -/
theorem result_adaptExcept {ε' : Type} (f : ε → ε') (w : Write ε Unit) :
    result (EStateM.adaptExcept f w) = w.result.mapError f := by
  unfold result EStateM.adaptExcept
  cases w {} <;> rfl

theorem Atomic.adaptExcept {ε' : Type} (f : ε → ε') {w : Write ε Unit} (h : w.Atomic) :
    Atomic (EStateM.adaptExcept f w) := by
  intro b
  rw [result_adaptExcept]
  unfold EStateM.adaptExcept
  rw [h b]
  cases w.result <;> rfl

theorem Local.adaptExcept {ε' : Type} (f : ε → ε') {w : Write ε Unit} (h : w.Local) :
    Local (EStateM.adaptExcept f w) := by
  intro b
  have hb := h b
  rw [result_adaptExcept]
  unfold EStateM.adaptExcept
  cases hw : w.result with
  | error e =>
    obtain ⟨bs, hbs⟩ : ∃ bs, w b = .error e (b.append bs) := by simpa only [hw] using hb
    exact ⟨bs, by rw [hbs]⟩
  | ok bs =>
    have hb : w b = .ok () (b.append bs) := by simpa only [hw] using hb
    rw [hb]
    rfl

end Write

end TraceRelay
