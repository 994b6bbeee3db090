import TraceRelay.Proofs.Client.Ledger

/-!
# Sound ledgers

Between two calls the streams that can take records are exactly those that threads have now, and the
shared ones. A stream that no thread has any more holds nothing back, and one that was never opened
is blank. Each change that a call makes keeps it so.

## Main definitions

* `Ledger.Sound` : a ledger between two calls.

## Main results

* `Ledger.Sound.appendTo` : a record goes to a stream that can take it.
* `Ledger.Sound.moves` : a ledger stays sound as long as nothing is taken.
-/

namespace TraceRelay

namespace Ledger

/-- A ledger between two calls. -/
structure Sound (l : Ledger) : Prop where
  inRange : l.InRange
  /-- No two threads share a stream of their own. -/
  injective : ∀ (t u : ThreadId) (p : Nat),
    l.streamOf[t]? = some p → l.streamOf[u]? = some p → t = u
  openShared : ∀ i, (l.pages (.shared i)).closed = false
  openOwn : ∀ (t : ThreadId) (p : Nat),
    l.streamOf[t]? = some p → (l.pages (.own p)).closed = false
  /-- A stream that was left holds nothing back. -/
  idle : ∀ p : Nat, (∀ t : ThreadId, l.streamOf[t]? ≠ some p) → (l.pages (.own p)).held = []
  blank : ∀ p : Nat, l.opened ≤ p → l.pages (.own p) = {}
  freesOpen : l.freesClosed = false

theorem sound_empty (methods : MethodTable) : Sound { methods } where
  inRange t p h := by simp at h
  injective t u p h := by simp at h
  openShared _ := rfl
  openOwn _ _ _ := rfl
  idle _ _ := rfl
  blank _ _ := rfl
  freesOpen := rfl

variable {l : Ledger} {ref ref' : StreamRef} {thread : ThreadId}

/-! ### The pages after a change -/

@[simp] theorem pages_post (p : Parcel) (l : Ledger) : (l.post p).pages = l.pages := rfl

theorem pages_sealStream (l : Ledger) (ref ref' : StreamRef) : (l.sealStream ref).pages ref' =
    if ref' = ref then { l.pages ref with held := [] } else l.pages ref' := by
  rcases l.sealStream_cases ref with ⟨hnone, h⟩ | ⟨-, h⟩ <;> rw [h]
  · by_cases heq : ref' = ref
    · rw [if_pos heq, heq]
      exact Page.ext hnone rfl rfl
    · rw [if_neg heq]
  · rw [pages_post, pages_setPage]

theorem pages_closeStream (l : Ledger) (ref ref' : StreamRef) : (l.closeStream ref).pages ref' =
    if ref' = ref then { l.pages ref with held := [], closed := true } else l.pages ref' := by
  rw [closeStream, pages_sealStream, pages_setPage, pages_setPage, if_pos rfl]
  by_cases heq : ref' = ref
  · rw [if_pos heq, if_pos heq]
  · rw [if_neg heq, if_neg heq, if_neg heq]

theorem pages_endStream (l : Ledger) (thread : ThreadId) (ref : StreamRef) :
    (l.endStream thread).pages ref =
      if l.streamOf[thread]?.map .own = some ref then
        { l.pages ref with held := [], closed := true }
      else l.pages ref := by
  rcases l.endStream_cases thread with ⟨hp, h⟩ | ⟨p, hp, h⟩ <;> rw [h, hp]
  · rfl
  · change (closeStream (.own p) _).pages ref = _
    rw [pages_closeStream, Option.map_some]
    by_cases heq : ref = .own p
    · rw [if_pos heq, if_pos (congrArg some heq.symm), heq]
    · rw [if_neg heq, if_neg fun h => heq (Option.some.inj h).symm]

@[simp] theorem freesClosed_sealStream (l : Ledger) (ref : StreamRef) :
    (l.sealStream ref).freesClosed = l.freesClosed := by
  rcases l.sealStream_cases ref with ⟨-, h⟩ | ⟨-, h⟩ <;> rw [h]
  rfl

@[simp] theorem freesClosed_endStream (l : Ledger) (thread : ThreadId) :
    (l.endStream thread).freesClosed = l.freesClosed := by
  rcases l.endStream_cases thread with ⟨-, h⟩ | ⟨p, -, h⟩ <;> rw [h]
  exact freesClosed_sealStream _ _

/-! ### Changes that keep a ledger sound -/

namespace Sound

theorem post (h : l.Sound) (p : Parcel) : (l.post p).Sound := { h with }

theorem announce (h : l.Sound) (name : String) : (l.announce name).Sound := { h with }

theorem free (h : l.Sound) (t : Token) : (l.free t).Sound := { h with }

theorem sealFrees (h : l.Sound) : l.sealFrees.Sound := by
  rcases l.sealFrees_cases with ⟨-, hsealed⟩ | ⟨-, hsealed⟩ <;> rw [hsealed]
  · exact h
  · exact { h with }

theorem sealStream (h : l.Sound) (ref : StreamRef) : (l.sealStream ref).Sound where
  inRange t p hp := by
    rw [opened_sealStream]
    rw [streamOf_sealStream] at hp
    exact h.inRange t p hp
  injective t u p := by
    rw [streamOf_sealStream]
    exact h.injective t u p
  openShared i := by
    rw [pages_sealStream]
    split
    · next heq => exact heq ▸ h.openShared i
    · exact h.openShared i
  openOwn t p hp := by
    rw [streamOf_sealStream] at hp
    rw [pages_sealStream]
    split
    · next heq => exact heq ▸ h.openOwn t p hp
    · exact h.openOwn t p hp
  idle p hp := by
    rw [streamOf_sealStream] at hp
    rw [pages_sealStream]
    split
    · rfl
    · exact h.idle p hp
  blank p hp := by
    rw [opened_sealStream] at hp
    rw [pages_sealStream]
    split
    · next heq =>
      rw [← heq, h.blank p hp]
    · exact h.blank p hp
  freesOpen := (freesClosed_sealStream l ref).trans h.freesOpen

/-- The stream of a record is a shared one, or one that a thread has. -/
theorem appendTo (h : l.Sound)
    (href : ∀ p, ref = .own p → ∃ t : ThreadId, l.streamOf[t]? = some p) (r : Record) :
    (l.appendTo ref r).Sound where
  inRange := h.inRange
  injective := h.injective
  openShared i := by
    rw [Ledger.appendTo, pages_setPage]
    split
    · next heq => exact heq ▸ h.openShared i
    · exact h.openShared i
  openOwn t p hp := by
    rw [Ledger.appendTo, pages_setPage]
    split
    · next heq => exact heq ▸ h.openOwn t p hp
    · exact h.openOwn t p hp
  idle p hp := by
    rw [Ledger.appendTo, pages_setPage]
    split
    · next heq =>
      obtain ⟨t, ht⟩ := href p heq.symm
      exact absurd ht (hp t)
    · exact h.idle p hp
  blank p hp := by
    rw [Ledger.appendTo, pages_setPage]
    split
    · next heq =>
      obtain ⟨t, ht⟩ := href p heq.symm
      have hlt := h.inRange t p ht
      have hle : l.opened ≤ p := hp
      omega
    · exact h.blank p hp
  freesOpen := h.freesOpen

theorem obtain (h : l.Sound) (thread : ThreadId) : (l.obtain thread).Sound := by
  rcases l.obtain_cases thread with ⟨p, -, hobtain⟩ | ⟨hthread, hobtain⟩ <;> rw [hobtain]
  · exact h
  · have hnew (t : ThreadId) : l.streamOf[t]? ≠ some l.opened := fun ht =>
      absurd (h.inRange t _ ht) (Nat.lt_irrefl _)
    refine ⟨fun t p hp => ?_, fun t u p ht hu => ?_, h.openShared, fun t p hp => ?_,
      fun p hp => ?_, fun p hp => ?_, h.freesOpen⟩
    · change p < l.opened + 1
      rw [getElem?_insert] at hp
      split at hp
      · cases hp
        omega
      · exact Nat.lt_succ_of_lt (h.inRange t p hp)
    · rw [getElem?_insert] at ht hu
      split at ht <;> split at hu
      · next htt huu => exact htt.trans huu.symm
      · cases ht
        exact absurd hu (hnew u)
      · cases hu
        exact absurd ht (hnew t)
      · exact h.injective t u p ht hu
    · rw [getElem?_insert] at hp
      split at hp
      · cases hp
        change (l.pages (.own l.opened)).closed = false
        rw [h.blank _ (Nat.le_refl _)]
      · exact h.openOwn t p hp
    · refine h.idle p fun t ht => ?_
      have hother := hp t
      rw [getElem?_insert] at hother
      split at hother
      · next heq =>
        rw [heq, hthread] at ht
        cases ht
      · exact hother ht
    · exact h.blank p (Nat.le_of_succ_le hp)

theorem endStream (h : l.Sound) (thread : ThreadId) : (l.endStream thread).Sound where
  inRange t p hp := by
    rw [opened_endStream]
    rw [streamOf_endStream] at hp
    split at hp
    · cases hp
    · exact h.inRange t p hp
  injective t u p ht hu := by
    rw [streamOf_endStream] at ht hu
    split at ht
    · cases ht
    · split at hu
      · cases hu
      · exact h.injective t u p ht hu
  openShared i := by
    rw [pages_endStream]
    split
    · next heq =>
      obtain ⟨p, -, hp⟩ := Option.map_eq_some_iff.1 heq
      cases hp
    · exact h.openShared i
  openOwn t p hp := by
    rw [streamOf_endStream] at hp
    rw [pages_endStream]
    split at hp
    · cases hp
    · next hne =>
      split
      · next heq =>
        obtain ⟨q, hq, hqp⟩ := Option.map_eq_some_iff.1 heq
        cases hqp
        exact absurd (h.injective t thread p hp hq) hne
      · exact h.openOwn t p hp
  idle p hp := by
    rw [pages_endStream]
    split
    · rfl
    · next hne =>
      refine h.idle p fun t ht => ?_
      have hother := hp t
      rw [streamOf_endStream] at hother
      split at hother
      · next heq =>
        rw [heq] at ht
        exact hne (by rw [ht]; rfl)
      · exact hother ht
  blank p hp := by
    rw [opened_endStream] at hp
    rw [pages_endStream]
    split
    · next heq =>
      obtain ⟨q, hq, hqp⟩ := Option.map_eq_some_iff.1 heq
      cases hqp
      have hlt := h.inRange thread p hq
      omega
    · exact h.blank p hp
  freesOpen := (freesClosed_endStream l thread).trans h.freesOpen

theorem orphan (h : l.Sound) (thread : ThreadId) : (l.orphan thread).Sound := by
  rcases l.orphan_cases thread with ⟨-, horphan⟩ | ⟨q, hthread, horphan⟩ <;> rw [horphan]
  · exact h
  · refine ⟨h.inRange, h.injective, fun i => ?_, fun t p hp => ?_, fun p hp => ?_, fun p hp => ?_,
      h.freesOpen⟩
    · rw [pages_setPage, if_neg nofun]
      exact h.openShared i
    · rw [pages_setPage]
      split
      · next heq => exact h.openOwn thread q hthread
      · exact h.openOwn t p hp
    · rw [pages_setPage, if_neg fun heq => hp thread (by cases heq; exact hthread)]
      exact h.idle p hp
    · have hlt := h.inRange thread q hthread
      have hle : l.opened ≤ p := hp
      rw [pages_setPage, if_neg fun heq => by cases heq; omega]
      exact h.blank p hp

/-- A ledger stays sound as long as nothing is taken. -/
theorem moves {l' : Ledger} (h : l.Sound) (hmoves : l.Moves l') : l'.Sound := by
  induction hmoves with
  | refl => exact h
  | sealStream _ ref ih => exact ih.sealStream ref
  | endStream _ thread ih => exact ih.endStream thread
  | sealFrees _ ih => exact ih.sealFrees
  | obtain _ thread ih => exact ih.obtain thread
  | orphan _ thread ih => exact ih.orphan thread

end Sound

end Ledger

end TraceRelay
