import TraceRelay.Proofs.Client.Outcome

/-!
# Runs keep their ledger

What a run accepted is accounted for by its ledger, call after call. A transport that has failed
stays so, and then a session does not end in order; so the ledger is there whenever one does.

## Main results

* `Run.Tracks.step`, `Run.Tracks.play` : one call, and a whole script.
* `Run.Completed.tracks` : the ledger of a session that ended in order.
-/

namespace TraceRelay

namespace Run

variable {r : Run} {l l' : Ledger} {c : Client} {α : Type}

/-! ### Faults and failures -/

private theorem mem_faults_perform {e : ClientError} {call : EStateM ClientError Client α}
    {note : α → Run → Run} (hnote : ∀ a r, (note a r).faults = r.faults) (h : e ∈ r.faults) :
    e ∈ (r.perform call note).faults := by
  unfold perform
  cases call r.client with
  | ok a c =>
    change e ∈ (note a _).faults
    rw [hnote]
    exact h
  | error e' c => exact List.mem_append_left _ h

/-- The faults of a run only become more. -/
theorem mem_faults_step {e : ClientError} (h : e ∈ r.faults) (call : Call) :
    e ∈ (r.step call).faults := by
  cases call with
  | send | discard | threadGone | runSender => exact h
  | finish thread n =>
    cases hd : r.drafts n with
    | none =>
      rw [step_finish_of_none hd]
      exact h
    | some d =>
      rw [step_finish_of_some hd]
      exact mem_faults_perform (fun _ _ => rfl) h
  | _ => exact mem_faults_perform (fun _ _ => rfl) h

theorem mem_faults_play {e : ClientError} (h : e ∈ r.faults) (calls : List Call) :
    e ∈ (r.play calls).faults :=
  List.foldlRecOn (motive := fun r : Run => e ∈ r.faults) calls step h
    fun _ h call _ => mem_faults_step h call

/-- What a call leaves of the client, whether it succeeds or not. -/
theorem client_perform {call : EStateM ClientError Client α} {note : α → Run → Run}
    (hnote : ∀ a r, (note a r).client = r.client) :
    (r.perform call note).client = Step.final (call r.client) := by
  unfold perform
  cases call r.client with
  | ok a c => exact hnote a _
  | error e c => rfl

theorem keeps_perform {P : Client → Prop} {call : EStateM ClientError Client α}
    {note : α → Run → Run} (hnote : ∀ a r, (note a r).client = r.client)
    (hkeeps : Step.Keeps P call) (h : P r.client) : P (r.perform call note).client := by
  rw [client_perform hnote]
  exact hkeeps r.client h

/-- What lasts is ended by the sender alone. -/
theorem lasting_step {P : Client → Prop} (hP : Client.Lasting P) (h : P r.client) (call : Call)
    (hcall : ∀ deliver, call ≠ .runSender deliver) : P (r.step call).client := by
  cases call with
  | send | discard => exact h
  | threadGone thread => exact hP.threadGone thread h
  | runSender deliver => exact absurd rfl (hcall deliver)
  | finish thread n =>
    cases hd : r.drafts n with
    | none =>
      rw [step_finish_of_none hd]
      exact h
    | some d =>
      rw [step_finish_of_some hd]
      exact keeps_perform (fun _ _ => rfl) (hP.keeps_finishEvent thread d.writer) h
  | register name => exact keeps_perform (fun _ _ => rfl) (hP.keeps_register name) h
  | dispatch thread id args =>
    exact keeps_perform (fun _ _ => rfl) (hP.keeps_dispatch thread id args) h
  | begin n id ordering =>
    exact keeps_perform (fun _ _ => rfl) (Client.keeps_beginEvent id ordering) h
  | objectFreed t => exact keeps_perform (fun _ _ => rfl) (hP.keeps_objectFreed t) h
  | classInfo | stringInfo | threadInfo =>
    exact keeps_perform (fun _ _ => rfl) (hP.keeps_tell _) h
  | flush => exact keeps_perform (fun _ _ => rfl) hP.keeps_flush h
  | threadEnd thread => exact keeps_perform (fun _ _ => rfl) (hP.keeps_threadEnd thread) h

/-- Whether calls are refused is decided by the sender alone. -/
theorem gate_step (r : Run) (call : Call) (hcall : ∀ deliver, call ≠ .runSender deliver) :
    (r.step call).client.gate = r.client.gate :=
  lasting_step (Client.lasting_gate _) rfl call hcall

/-! ### What a run keeps -/

section

variable {sent : List Bytes} {faults : List ClientError}

/-- The ledger changes, but nothing is taken. -/
private theorem Tracks.moves (h : r.Tracks l) (hopen : c.closed = false) (hshows : c.Shows sent l')
    (hmoves : l.Moves l') : Tracks { r with client := c, sent, faults } l' where
  isOpen := hopen
  shows := hshows
  sound := h.sound.moves hmoves
  accounts := h.accounts.moves hmoves
  announces := h.announces.moves hmoves
  ends := h.ends.moves h.sound hmoves
  has entry hentry := (h.has entry hentry).mono hmoves.opened_le
  drafts := by
    rw [hmoves.methods]
    exact h.drafts

/-- A record is taken. -/
private theorem Tracks.took (h : r.Tracks l) {thread : ThreadId} {ordering : Option UInt8}
    {record : Record} (hmethod : l.methods.contains record.method = true) (hopen : c.closed = false)
    (hshows : c.Shows sent l')
    (htook : Ledger.Took (l.target thread ordering) record (l.prepare thread ordering) l') :
    (accept (l.target thread ordering) record { r with client := c, sent, faults }).Tracks l' := by
  have hprepare := Ledger.moves_prepare l thread ordering
  have happend := (h.sound.moves hprepare).appendTo (Ledger.streamOf_of_target h.sound) record
  have hmethods : l'.methods = l.methods := htook.moves.methods.trans hprepare.methods
  have hmethod' : (l.prepare thread ordering).methods.contains record.method = true := by
    rw [hprepare.methods]
    exact hmethod
  exact {
    isOpen := hopen
    shows := hshows
    sound := happend.moves htook.moves
    accounts := ((h.accounts.moves hprepare).appendTo _ record).moves htook.moves
    announces := ((h.announces.moves hprepare).appendTo _ hmethod').moves htook.moves
    ends := ((h.ends.moves h.sound hprepare).appendTo _ record).moves happend htook.moves
    has := fun entry hentry => by
      have hopened : (l.prepare thread ordering).opened ≤ l'.opened := htook.moves.opened_le
      rcases List.mem_append.1 hentry with hold | hnew
      · exact (h.has entry hold).mono (Nat.le_trans hprepare.opened_le hopened)
      · rw [List.mem_singleton.1 hnew]
        exact (Ledger.has_target h.sound).mono hopened
    drafts := by
      rw [hmethods]
      exact h.drafts }

/-- A token is taken. -/
private theorem Tracks.freed (h : r.Tracks l) {t : Token} (hopen : c.closed = false)
    (hshows : c.Shows sent l') (hmoves : (l.free t).Moves l') :
    Tracks { r with client := c, sent, faults, freed := r.freed ++ [t] } l' where
  isOpen := hopen
  shows := hshows
  sound := (h.sound.free t).moves hmoves
  accounts := (h.accounts.free t).moves hmoves
  announces := (h.announces.free t).moves hmoves
  ends := (h.ends.free t).moves (h.sound.free t) hmoves
  has entry hentry := (h.has entry hentry).mono hmoves.opened_le
  drafts := by
    rw [hmoves.methods]
    exact h.drafts

/-- A name that is new is registered. -/
private theorem Tracks.announced (h : r.Tracks l) {name : String} (hopen : c.closed = false)
    (hshows : c.Shows sent (l.announce name)) (hnew : l.methods.find? name = none)
    (hfew : l.methods.count < MethodTable.maxId) :
    Tracks { r with
      client := c, sent, faults
      named := r.named ++ [(name, .ofNat (l.methods.count + 1))] } (l.announce name) where
  isOpen := hopen
  shows := hshows
  sound := h.sound.announce name
  accounts := h.accounts.announce name
  announces := h.announces.announce hnew hfew
  ends := h.ends.announce name
  has := h.has
  drafts n d hd := by
    obtain ⟨hid, hholds⟩ := h.drafts n d hd
    refine ⟨?_, hholds⟩
    unfold MethodTable.contains at hid ⊢
    rw [Bool.and_eq_true, decide_eq_true_eq] at hid ⊢
    exact ⟨hid.1, Nat.le_succ_of_le hid.2⟩

/-- A message is told that carries no record and no token, and announces nothing. -/
private theorem Tracks.told (h : r.Tracks l) {call : Call} {m : Message}
    (hcall : call.tells? = some m) (hopen : c.closed = false)
    (hshows : c.Shows sent (l.post ⟨none, m⟩)) :
    Tracks { r with client := c, sent, faults } (l.post ⟨none, m⟩) := by
  obtain ⟨hsound, hrecords, htokens, hnone⟩ : Parcel.Sound ⟨none, m⟩ ∧ m.records = [] ∧
      Parcel.tokens ⟨none, m⟩ = [] ∧ m.announces? = none := by
    cases call <;> cases hcall <;> exact ⟨trivial, rfl, rfl, rfl⟩
  exact {
    isOpen := hopen
    shows := hshows
    sound := h.sound.post _
    accounts := h.accounts.post hsound (fun ref => by cases m <;> rfl) htokens
    announces := h.announces.post hnone (by rw [hrecords]; nofun)
    ends := h.ends.post (by cases m <;> rfl)
    has := h.has
    drafts := h.drafts }

end

/-- A run keeps a ledger through a call. -/
theorem Tracks.step (h : r.Tracks l) {call : Call} {r' : Run} (hreaches : r.Reaches l call r' l') :
    r'.Tracks l' := by
  obtain ⟨note, c, sent, faults, houtcome, rfl, hopen, hshows⟩ := hreaches
  have hsame (hc : c.Shows sent l) : Tracks { r with client := c, sent, faults } l :=
    h.moves hopen hc .refl
  cases houtcome with
  | again hold => exact { hsame hshows with announces := h.announces.again hold }
  | announced hnew hfew => exact h.announced hopen hshows hnew hfew
  | unnamed | undispatched | unbegun | noDraft | untold | senderRan => exact hsame hshows
  | dispatched hmethod _ _ htook => exact h.took hmethod hopen hshows htook
  | dispatchedTooMany => exact h.moves hopen hshows (Ledger.moves_prepare l _ none)
  | @begun n method ordering hmethod =>
    refine (hsame hshows).setDraft n fun d hd => ?_
    obtain rfl := Option.some.inj hd
    exact ⟨hmethod, fun _ => RecordBuilder.holds_start method⟩
  | sent n v =>
    refine (hsame hshows).setDraft n fun d hd => ?_
    obtain ⟨d, hold, rfl⟩ := Option.map_eq_some_iff.1 hd
    obtain ⟨hid, hholds⟩ := h.drafts n d hold
    exact ⟨hid, (EventWriter.send_of_holds hholds v).1⟩
  | @finished thread n d _ hd _ _ htook =>
    have hnone : (r.setDraft n none).Tracks l := h.dropDraft n
    exact hnone.took (h.drafts n d hd).1 hopen hshows htook
  | unfinished | discarded => exact (hsame hshows).dropDraft _
  | @finishedTooMany thread n d =>
    exact (h.moves hopen hshows (Ledger.moves_prepare l thread d.writer.ordering)).dropDraft n
  | freed hfree =>
    refine h.freed hopen hshows ?_
    rcases hfree with hl | hl <;> rw [hl]
    · exact .refl
    · exact .sealFrees (.sealEvents .refl)
  | told hcall => exact h.told hcall hopen hshows
  | flushed => exact h.moves hopen hshows (.sealFrees (.sealEvents .refl))
  | threadEnded thread => exact h.moves hopen hshows (.endStream .refl thread)
  | threadGone thread => exact h.moves hopen hshows (.orphan .refl thread)

/-! ### Scripts -/

theorem failure_step (call : Call) (h : (r.step call).client.outbox.failure = none) :
    r.client.outbox.failure = none := by
  by_cases hcall : ∃ deliver, call = .runSender deliver
  · obtain ⟨deliver, rfl⟩ := hcall
    exact Outbox.failure_of_pump h
  · have hgate := gate_step r call fun deliver heq => hcall ⟨deliver, heq⟩
    exact (congrArg (·.2.2.2.failure) hgate).symm.trans h

private theorem ending_step (r : Run) (call : Call) :
    (r.step call).client.ending = r.client.ending := by
  by_cases hcall : ∃ deliver, call = .runSender deliver
  · obtain ⟨deliver, rfl⟩ := hcall
    rfl
  · exact congrArg (·.2.2.1) (gate_step r call fun deliver heq => hcall ⟨deliver, heq⟩)

theorem failure_play (calls : List Call) (h : (r.play calls).client.outbox.failure = none) :
    r.client.outbox.failure = none := by
  induction calls generalizing r with
  | nil => exact h
  | cons call calls ih => exact failure_step call (ih h)

/-- No call of a script ends the session. -/
theorem ending_play (r : Run) (calls : List Call) :
    (r.play calls).client.ending = r.client.ending :=
  List.foldlRecOn (motive := fun r' : Run => r'.client.ending = r.client.ending) calls Run.step rfl
    fun r' h call _ => (ending_step r' call).trans h

/-- What each call keeps of a run and its ledger is kept by all calls of a script. -/
theorem Tracks.play_induction (h : r.Tracks l) {P : Run → Ledger → Prop} (hP : P r l)
    (calls : List Call)
    (hstep : ∀ r l call r' l', call ∈ calls → r.Tracks l → r.Reaches l call r' l' → P r l → P r' l')
    (hlarge : .wire .batchTooLarge ∉ (r.play calls).faults)
    (hfailure : (r.play calls).client.outbox.failure = none) :
    ∃ l', (r.play calls).Tracks l' ∧ P (r.play calls) l' := by
  induction calls generalizing r l with
  | nil => exact ⟨l, h, hP⟩
  | cons call calls ih =>
    have hfirst : .wire .batchTooLarge ∉ (r.step call).faults := fun hmem =>
      hlarge (mem_faults_play hmem calls)
    obtain ⟨l', hl'⟩ := h.reaches call hfirst (failure_play calls hfailure)
    exact ih (h.step hl') (hstep r l call _ l' List.mem_cons_self h hl' hP)
      (fun r l call' r' l' hmem => hstep r l call' r' l' (List.mem_cons_of_mem call hmem))
      hlarge hfailure

/-- A run keeps a ledger through all calls of a script. -/
theorem Tracks.play (h : r.Tracks l) (calls : List Call)
    (hlarge : .wire .batchTooLarge ∉ (r.play calls).faults)
    (hfailure : (r.play calls).client.outbox.failure = none) : ∃ l', (r.play calls).Tracks l' := by
  obtain ⟨l', hl', -⟩ := h.play_induction (P := fun _ _ => True) trivial calls
    (fun _ _ _ _ _ _ _ _ _ => trivial) hlarge hfailure
  exact ⟨l', hl'⟩

/-- A client before its first call shows the empty ledger. -/
private theorem shows_start (settings : ClientSettings) : Client.Shows [] { settings } {} where
  accepting := rfl
  frames := .nil
  streams ref := by
    cases ref with
    | own p => exact ⟨rfl, rfl, rfl⟩
    | shared i =>
      rw [Client.stream_start]
      exact ⟨rfl, rfl, rfl⟩
  ordering ref href := by
    cases ref with
    | own p => exact absurd href (Nat.not_lt_zero p)
    | shared i =>
      rw [Client.stream_start]
      rfl
  size_shared := by
    change ((Array.range Message.sharedOrderings).map _).size = _
    rw [Array.size_map, Array.size_range]
  size_own := rfl
  streamOf := rfl
  methods := rfl
  frees := FreeBatch.holds_empty
  freesClosed := rfl

theorem tracks_start (settings : ClientSettings) : Tracks { client := { settings } } {} where
  isOpen := rfl
  shows := shows_start settings
  sound := Ledger.sound_empty {}
  accounts := Ledger.accounts_empty {}
  announces := Ledger.announces_empty
  ends := Ledger.ends_empty
  has _ hentry := nomatch hentry
  drafts _ _ hd := nomatch hd

/-- A session that ended in order is the run of its script, and its transport did not fail. -/
theorem Completed.eq_play {settings : ClientSettings} {calls : List Call} {frames : List Bytes}
    (h : Completed settings calls r frames) :
    r = play { client := { settings } } calls ∧ r.client.outbox.failure = none := by
  obtain ⟨⟨c₀, hstart, rfl⟩, -, deliver, out, c, hend, -⟩ := h
  have hc₀ : c₀ = { settings } := by
    unfold Client.start at hstart
    split at hstart
    · cases hstart
    · exact (Except.ok.inj hstart).symm
  subst hc₀
  exact ⟨rfl, Client.failure_of_shutdown (ending_play { client := { settings } } calls) hend⟩

/-- **The ledger of a session that ended in order.** -/
theorem Completed.tracks {settings : ClientSettings} {calls : List Call} {frames : List Bytes}
    (h : Completed settings calls r frames) : ∃ l, r.Tracks l ∧
      List.Forall₂ (fun p frame => p.message.toBytes = .ok frame) l.closeAll.parcels frames := by
  obtain ⟨deliver, out, c, hend, rfl⟩ := h.ended
  obtain ⟨rfl, hfailure⟩ := h.eq_play
  obtain ⟨l, hl⟩ := (tracks_start settings).play calls h.noneTooLarge hfailure
  have hending := ending_play { client := { settings } } calls
  exact ⟨l, hl, Client.frames_of_shutdown hl.shows hl.sound.inRange hending hend⟩

end Run

end TraceRelay
