import TraceRelay.Proofs.Client.Sound
import TraceRelay.Proofs.Client.Tracking

/-!
# How calls change the ledger

A call of an open client ends as its arguments and the ledger say, and changes the ledger
accordingly. How full the batches are decides only when records and frees leave.

## Main definitions

* `Ledger.target`, `Ledger.prepare` : the stream that a record goes to, and the ledger before it
  does.
* `Ledger.Took` : a record was added to a stream, the records of which may have left then.

## Main results

* `Client.register_yields`, `Client.finishEvent_yields`, `Client.dispatch_yields`,
  `Client.objectFreed_yields`, `Client.tell_yields`, `Client.flush_yields`,
  `Client.threadEnd_yields` : the calls.
-/

namespace TraceRelay

namespace Ledger

/-- The stream that a record goes to. -/
def target (thread : ThreadId) (ordering : Option UInt8) (l : Ledger) : StreamRef :=
  match ordering with
  | none => l.streamFor thread
  | some i => .shared i

/-- The ledger before a record is added: a thread has a stream of its own, or the records on that
stream have left. -/
def prepare (thread : ThreadId) (ordering : Option UInt8) (l : Ledger) : Ledger :=
  match ordering with
  | none => l.obtain thread
  | some _ =>
    match l.streamOf[thread]? with
    | none => l
    | some position => l.sealStream (.own position)

/-- A record was added to a stream, the records of which may have left then. -/
def Took (ref : StreamRef) (r : Record) (l l' : Ledger) : Prop :=
  l' = l.appendTo ref r ∨ l' = (l.appendTo ref r).sealStream ref

variable {l l' : Ledger} {ref : StreamRef} {thread : ThreadId} {ordering : Option UInt8}
  {r : Record}

theorem streamOf_obtain (h : l.Sound) (thread : ThreadId) :
    ∃ position, l.streamFor thread = .own position ∧
      (l.obtain thread).streamOf[thread]? = some position ∧
      (l.obtain thread).Has (.own position) := by
  have hrange := (h.obtain thread).inRange
  have hthread : ∃ position, l.streamFor thread = .own position ∧
      (l.obtain thread).streamOf[thread]? = some position := by
    unfold streamFor obtain
    cases hp : l.streamOf[thread]? with
    | some p => exact ⟨p, rfl, hp⟩
    | none => exact ⟨l.opened, rfl, by rw [getElem?_insert, if_pos rfl]⟩
  obtain ⟨p, hfor, hp⟩ := hthread
  exact ⟨p, hfor, hp, hrange thread p hp⟩

theorem moves_prepare (l : Ledger) (thread : ThreadId) (ordering : Option UInt8) :
    l.Moves (l.prepare thread ordering) := by
  cases ordering with
  | none => exact .obtain .refl thread
  | some i =>
    unfold prepare
    cases l.streamOf[thread]? with
    | none => exact .refl
    | some p => exact .sealStream .refl _

theorem Took.moves (h : Took ref r l l') : (l.appendTo ref r).Moves l' := by
  rcases h with rfl | rfl
  · exact .refl
  · exact .sealStream .refl ref

theorem Sound.prepare (h : l.Sound) (thread : ThreadId) (ordering : Option UInt8) :
    (l.prepare thread ordering).Sound :=
  h.moves (moves_prepare l thread ordering)

/-- The stream that a record goes to is a shared one, or one that a thread has. -/
theorem streamOf_of_target (h : l.Sound) (p : Nat)
    (htarget : l.target thread ordering = .own p) :
    ∃ t : ThreadId, (l.prepare thread ordering).streamOf[t]? = some p := by
  cases ordering with
  | none =>
    obtain ⟨q, hfor, hq, -⟩ := streamOf_obtain h thread
    have heq : l.streamFor thread = .own p := htarget
    rw [hfor] at heq
    cases heq
    exact ⟨thread, hq⟩
  | some i => cases htarget

theorem has_target (h : l.Sound) :
    (l.prepare thread ordering).Has (l.target thread ordering) := by
  cases htarget : l.target thread ordering with
  | shared i => trivial
  | own p =>
    obtain ⟨t, ht⟩ := streamOf_of_target h p htarget
    exact (h.prepare thread ordering).inRange t p ht

theorem open_target (h : l.Sound) :
    ((l.prepare thread ordering).pages (l.target thread ordering)).closed = false := by
  cases htarget : l.target thread ordering with
  | shared i => exact (h.prepare thread ordering).openShared i
  | own p =>
    obtain ⟨t, ht⟩ := streamOf_of_target h p htarget
    exact (h.prepare thread ordering).openOwn t p ht

end Ledger

/-! ### Records under way -/

/-- A value that can be written. -/
def Value.fits (v : Value) : Bool := v.write.result.isOk

namespace EventWriter

variable {w : EventWriter} {r : Record}

private theorem send_eq (v : Value) (w : EventWriter) : w.send v =
    match RecordBuilder.push v w.record with
    | .ok _ record => ⟨record, w.ordering, w.fault⟩
    | .error e record => ⟨record, w.ordering, w.fault.or (some e)⟩ := rfl

/-- An argument is added, or the reason is kept why it was refused. -/
theorem send_of_holds (hw : w.fault = none → w.record.Holds r) (v : Value) :
    ((w.send v).fault = none → (w.send v).record.Holds ⟨r.method, r.args ++ [v]⟩) ∧
      ((w.send v).fault = none ↔ w.fault = none ∧ v.fits = true) ∧
      (w.send v).ordering = w.ordering := by
  rw [send_eq]
  cases hfault : w.fault with
  | some e =>
    cases RecordBuilder.push v w.record with
    | ok a record => exact ⟨nofun, ⟨nofun, nofun⟩, rfl⟩
    | error e' record => exact ⟨nofun, ⟨nofun, nofun⟩, rfl⟩
  | none =>
    have hpush := RecordBuilder.push_of_holds (hw hfault) v
    cases hv : v.write.result with
    | error e =>
      rw [hv] at hpush
      have hfail : RecordBuilder.push v w.record = .error (.ofCodec e) w.record := hpush
      have hfits : v.fits = false := by rw [Value.fits, hv]; rfl
      rw [hfail, hfits]
      exact ⟨nofun, ⟨nofun, nofun⟩, rfl⟩
    | ok bs =>
      rw [hv] at hpush
      obtain ⟨record, hrecord, hholds⟩ := hpush
      have hfits : v.fits = true := by rw [Value.fits, hv]; rfl
      rw [hrecord]
      exact ⟨fun _ => hholds, ⟨fun _ => ⟨rfl, hfits⟩, fun _ => rfl⟩, rfl⟩

/-- Arguments are added one after the other, unless one of them is refused. -/
theorem foldl_send_of_holds (hw : w.fault = none → w.record.Holds r) (vs : List Value) :
    ((vs.foldl (fun w v => w.send v) w).fault = none →
        (vs.foldl (fun w v => w.send v) w).record.Holds ⟨r.method, r.args ++ vs⟩) ∧
      ((vs.foldl (fun w v => w.send v) w).fault = none ↔
        w.fault = none ∧ ∀ v ∈ vs, v.fits = true) ∧
      (vs.foldl (fun w v => w.send v) w).ordering = w.ordering := by
  induction vs generalizing w r with
  | nil =>
    refine ⟨fun h => ?_, ⟨fun h => ⟨h, nofun⟩, fun h => h.1⟩, rfl⟩
    rw [List.append_nil]
    exact hw h
  | cons v vs ih =>
    obtain ⟨hholds, hfault, hordering⟩ := send_of_holds hw v
    obtain ⟨hholds', hfault', hordering'⟩ := ih hholds
    refine ⟨fun h => ?_, ?_, hordering'.trans hordering⟩
    · rw [List.append_cons]
      exact hholds' h
    · rw [List.foldl_cons, hfault', hfault, List.forall_mem_cons, and_assoc]

end EventWriter

/-! ### Calls -/

namespace Client

variable {c : Client} {l : Ledger} {out : List Bytes} {w : EventWriter} {r : Record}

private theorem register_of_old (hopen : c.closed = false) {name : String} {id : MethodId}
    (hfind : c.methods.find? name = some id) : register name c = .ok id c := by
  rw [register, ensureOpen_bind hopen, Step.get_bind]
  rw [MethodTable.register, hfind]
  rfl

private theorem register_of_many (hopen : c.closed = false) {name : String}
    (hfind : c.methods.find? name = none) (hmany : c.methods.count ≥ MethodTable.maxId) :
    register name c = .error (.registration .tooMany) c := by
  rw [register, ensureOpen_bind hopen, Step.get_bind]
  simp only [MethodTable.register, hfind, if_pos hmany]
  rfl

private theorem register_of_new (hopen : c.closed = false) {name : String}
    (hfind : c.methods.find? name = none) (hfew : ¬ c.methods.count ≥ MethodTable.maxId) :
    register name c = (do
      enqueueMessage (.registerMethod (.ofNat (c.methods.count + 1)) name)
      modify ({ · with methods := c.methods.insert name })
      return .ofNat (c.methods.count + 1) : EStateM ClientError Client MethodId) c := by
  rw [register, ensureOpen_bind hopen, Step.get_bind]
  simp only [MethodTable.register, hfind, if_neg hfew, bind_assoc, pure_bind]

/-- The number of a method. A name that is new is announced first. -/
theorem register_yields (h : c.Shows out l) (hopen : c.closed = false) (name : String) :
    Yields out
      (fun id l' => (l.methods.find? name = some id ∧ l' = l) ∨
        l.methods.find? name = none ∧ l.methods.count < MethodTable.maxId ∧
          id = .ofNat (l.methods.count + 1) ∧ l' = l.announce name ∧
          ∃ frame, (Message.registerMethod id name).toBytes = .ok frame)
      (fun _ l' => l' = l ∧ l.methods.find? name = none ∧ (MethodTable.maxId ≤ l.methods.count ∨
        ∃ cause, (Message.registerMethod (.ofNat (l.methods.count + 1)) name).toBytes =
          .error cause))
      (register name c) := by
  have hmethods := h.methods
  cases hfind : l.methods.find? name with
  | some id =>
    rw [register_of_old hopen (by rw [hmethods, hfind])]
    exact .ok h (.inl ⟨rfl, rfl⟩)
  | none =>
    by_cases hmany : l.methods.count ≥ MethodTable.maxId
    · rw [register_of_many hopen (by rw [hmethods, hfind]) (by rwa [hmethods])]
      exact .error h ⟨rfl, rfl, .inl hmany⟩
    · rw [register_of_new hopen (by rw [hmethods, hfind]) (by rwa [hmethods]), hmethods]
      have hannounce := (enqueueMessage_yields h none
        (.registerMethod (.ofNat (l.methods.count + 1)) name))
      refine Yields.bind (hannounce.mono (fun _ _ hl => hl) ?_) fun _ c' l' hc' hl' => ?_
      · rintro _ l' ⟨rfl, cause, hcause, -⟩
        exact ⟨rfl, rfl, .inr ⟨cause, hcause⟩⟩
      · obtain ⟨rfl, hframe⟩ := hl'
        have hshows : Shows out { c' with methods := l.methods.insert name } (l.announce name) :=
          { hc' with methods := rfl }
        exact .ok hshows (.inr ⟨rfl, by omega, rfl, rfl, hframe⟩)

/-- Whether a record can be begun is decided by the number of its method. -/
theorem beginEvent_of_open (hopen : c.closed = false) (id : MethodId) (ordering : Option UInt8) :
    beginEvent id ordering c =
      if c.methods.contains id then .ok { record := .start id, ordering } c
      else .error (.unknownMethod id) c := by
  rw [beginEvent, ensureOpen_bind hopen, Step.get_bind]
  split <;> rfl

theorem beginEvent_eq (h : c.Shows out l) (hopen : c.closed = false) (id : MethodId)
    (ordering : Option UInt8) : beginEvent id ordering c =
      if l.methods.contains id then .ok { record := .start id, ordering } c
      else .error (.unknownMethod id) c := by
  rw [beginEvent_of_open hopen, h.methods]

private theorem append_yields (out : List Bytes) (hsound : l.Sound) (thread : ThreadId)
    (ordering : Option UInt8) {b : RecordBuilder} (hb : b.Holds r)
    (h : c.Shows out (l.prepare thread ordering)) :
    Yields out
      (fun _ l' => r.args.length ≤ Record.maxArgs ∧
        Ledger.Took (l.target thread ordering) r (l.prepare thread ordering) l')
      (fun _ l' => r.args.length > Record.maxArgs ∧ l' = l.prepare thread ordering)
      (appendTo (l.target thread ordering) b c) :=
  (appendTo_yields h (Ledger.has_target hsound) (Ledger.open_target hsound) hb).mono
    (fun _ _ hl => hl) fun _ _ hl => ⟨hl.2.1, hl.1⟩

private theorem appendLocal_yields (h : c.Shows out l) (hsound : l.Sound) (thread : ThreadId)
    {b : RecordBuilder} (hb : b.Holds r) :
    Yields out
      (fun _ l' => r.args.length ≤ Record.maxArgs ∧
        Ledger.Took (l.target thread none) r (l.prepare thread none) l')
      (fun _ l' => r.args.length > Record.maxArgs ∧ l' = l.prepare thread none)
      (appendLocal thread b c) := by
  refine Yields.bind ((obtain_yields h thread).mono (fun _ _ hl => hl)
    fun _ _ hfalse => hfalse.elim) fun ref c' l' hc' hl' => ?_
  obtain ⟨rfl, rfl⟩ := hl'
  exact append_yields out hsound thread none hb hc'

private theorem appendShared_yields (h : c.Shows out l) (hsound : l.Sound) (thread : ThreadId)
    (i : UInt8) {b : RecordBuilder} (hb : b.Holds r) :
    Yields out
      (fun _ l' => r.args.length ≤ Record.maxArgs ∧
        Ledger.Took (l.target thread (some i)) r (l.prepare thread (some i)) l')
      (fun _ l' => r.args.length > Record.maxArgs ∧ l' = l.prepare thread (some i))
      (appendShared thread i b c) := by
  have happend {c' : Client} := append_yields (c := c') out hsound thread (some i) hb
  rw [appendShared, Step.get_bind, streamOf?_of_shows h thread]
  unfold Ledger.prepare at happend ⊢
  cases hp : l.streamOf[thread]? with
  | none =>
    rw [hp] at happend
    exact happend h
  | some p =>
    rw [hp] at happend
    have hhas : l.Has (.own p) := hsound.inRange thread p hp
    exact Yields.next ((sealStream_yields h hhas).mono (fun _ _ hl => hl)
      fun _ _ hfalse => hfalse.elim) fun _ c' hc' => happend hc'

/-- A record is added to its stream if none of its arguments was refused and there are not too
many. -/
theorem finishEvent_yields (h : c.Shows out l) (hsound : l.Sound) (thread : ThreadId)
    (hw : w.fault = none → w.record.Holds r) :
    Yields out
      (fun _ l' => w.fault = none ∧ r.args.length ≤ Record.maxArgs ∧
        Ledger.Took (l.target thread w.ordering) r (l.prepare thread w.ordering) l')
      (fun _ l' => (w.fault ≠ none ∧ l' = l) ∨
        w.fault = none ∧ r.args.length > Record.maxArgs ∧ l' = l.prepare thread w.ordering)
      (finishEvent thread w c) := by
  unfold finishEvent
  cases hfault : w.fault with
  | some e => exact .error h (.inl ⟨nofun, rfl⟩)
  | none =>
    cases hordering : w.ordering with
    | none =>
      exact (appendLocal_yields h hsound thread (hw hfault)).mono (fun _ _ hl => ⟨rfl, hl⟩)
        fun _ _ hl => .inr ⟨rfl, hl⟩
    | some i =>
      exact (appendShared_yields h hsound thread i (hw hfault)).mono (fun _ _ hl => ⟨rfl, hl⟩)
        fun _ _ hl => .inr ⟨rfl, hl⟩

/-- A whole record is added to the stream of the thread, if its method has a number and it can be
written. -/
theorem dispatch_yields (h : c.Shows out l) (hopen : c.closed = false) (hsound : l.Sound)
    (thread : ThreadId) (id : MethodId) (args : List Value) :
    Yields out
      (fun _ l' => l.methods.contains id = true ∧ (∀ v ∈ args, v.fits = true) ∧
        args.length ≤ Record.maxArgs ∧
        Ledger.Took (l.target thread none) ⟨id, args⟩ (l.prepare thread none) l')
      (fun _ l' => (¬ (l.methods.contains id = true ∧ ∀ v ∈ args, v.fits = true) ∧ l' = l) ∨
        (l.methods.contains id = true ∧ ∀ v ∈ args, v.fits = true) ∧
          args.length > Record.maxArgs ∧ l' = l.prepare thread none)
      (dispatch thread id args c) := by
  unfold dispatch
  by_cases hid : l.methods.contains id = true
  · have hbegin : beginEvent id none c = .ok { record := .start id, ordering := none } c := by
      rw [beginEvent_eq h hopen, if_pos hid]
    obtain ⟨hholds, hfault, hordering⟩ := EventWriter.foldl_send_of_holds
      (w := { record := .start id, ordering := none })
      (fun _ => RecordBuilder.holds_start id) args
    have hfinish := finishEvent_yields h hsound thread hholds
    rw [Step.bind_of_ok hbegin]
    simp only [List.nil_append, ne_eq, hfault, hordering, true_and] at hfinish
    refine hfinish.mono (fun _ _ hl => ⟨hid, hl.1, hl.2⟩) ?_
    rintro _ l' (⟨hfits, rfl⟩ | ⟨hfits, hmany, rfl⟩)
    · exact .inl ⟨fun hboth => hfits hboth.2, rfl⟩
    · exact .inr ⟨⟨hid, hfits⟩, hmany, rfl⟩
  · have hbegin : beginEvent id none c = .error (.unknownMethod id) c := by
      rw [beginEvent_eq h hopen, if_neg hid]
    rw [Step.bind_of_error hbegin]
    exact .error h (.inl ⟨fun hboth => hid hboth.1, rfl⟩)

/-- A token is taken. If there are as many then as fit a frame, all records leave, and all tokens
behind them. -/
theorem objectFreed_yields (h : c.Shows out l) (hopen : c.closed = false) (hsound : l.Sound)
    (t : Token) :
    Yields out (fun _ l' => l' = l.free t ∨ l' = (l.free t).sealEvents.sealFrees) noFault
      (objectFreed t c) := by
  rw [objectFreed, ensureOpen_bind hopen]
  refine Yields.next (takeFree_yields h hsound.freesOpen t) fun _ c' hc' => ?_
  rw [Step.get_bind]
  by_cases hfull : c'.frees.isFull c'.settings = true
  · rw [if_pos hfull]
    refine Yields.next (sealEvents_yields hc' (hsound.free t).inRange) fun _ c'' hc'' => ?_
    exact (sealFrees_yields hc'').mono (fun _ _ hl => .inr hl) fun _ _ => id
  · rw [if_neg hfull]
    exact .ok hc' (.inl rfl)

/-- A message that is not held back. -/
theorem tell_yields (h : c.Shows out l) (hopen : c.closed = false) (m : Message) :
    Yields out (fun _ l' => l' = l.post ⟨none, m⟩ ∧ ∃ frame, m.toBytes = .ok frame)
      (fun e l' => l' = l ∧ ∃ cause, m.toBytes = .error cause ∧ e = .wire cause)
      (tell m c) := by
  rw [tell, ensureOpen_bind hopen]
  exact enqueueMessage_yields h none m

/-- All records leave, and all tokens behind them. -/
theorem flush_yields (h : c.Shows out l) (hopen : c.closed = false) (hsound : l.Sound) :
    Yields out (fun _ l' => l' = l.sealEvents.sealFrees) noFault (flush c) := by
  rw [flush, ensureOpen_bind hopen]
  exact Yields.next (sealEvents_yields h hsound.inRange) fun _ _ hc' => sealFrees_yields hc'

/-- The stream of a thread ends. -/
theorem threadEnd_yields (h : c.Shows out l) (hopen : c.closed = false) (hsound : l.Sound)
    (thread : ThreadId) :
    Yields out (fun _ l' => l' = l.endStream thread) noFault (threadEnd thread c) := by
  rw [threadEnd, ensureOpen_bind hopen]
  exact endStream_yields h hsound.inRange thread

end Client

end TraceRelay
