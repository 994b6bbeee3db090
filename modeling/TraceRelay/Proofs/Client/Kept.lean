import TraceRelay.Proofs.Client.Chronicle
import TraceRelay.Proofs.Client.Custody

/-!
# Calls and the records that are held back

Each call of the client is made of steps that let the records of a stream leave together, and of at
most one step that lets a record come. What such steps do not end holds after each call. Records are
lost only if a call fails because they are too large for a frame, or if frames are not accepted any
more. If all streams are to be sent and the call succeeds, then no stream holds a record.

## Main definitions

* `Custody.Lasting` : what does not end when records leave.
* `Client.Kept` : it is known where the records are, and which of them are lost.
* `Client.Moves` : what a step does to that, if it succeeds and if it fails.

## Main results

* `Client.moves_sealEvents`, `Client.moves_flush`, `Client.moves_threadEnd`, … : calls that let
  records leave.
* `Client.Kept.finishEvent`, `Client.Kept.dispatch` : calls that let a record come.
* `Client.Kept.runSender`, `Client.Kept.shutdown` : the sender, and the end of the session.
-/

namespace TraceRelay

namespace Custody

/-- What does not end when the records of a stream leave or are lost, or when a message is told. -/
structure Lasting (P : Custody → Prop) : Prop where
  ship : ∀ k ref, P k → P (k.ship ref)
  lose : ∀ k ref, P k → P (k.lose ref)
  tell : ∀ k m, P k → P (k.tell m)

theorem Lasting.and {P Q : Custody → Prop} (hP : Lasting P) (hQ : Lasting Q) :
    Lasting fun k => P k ∧ Q k where
  ship k ref := And.imp (hP.ship k ref) (hQ.ship k ref)
  lose k ref := And.imp (hP.lose k ref) (hQ.lose k ref)
  tell k m := And.imp (hP.tell k m) (hQ.tell k m)

theorem Lasting.all {ι : Sort*} {P : ι → Custody → Prop} (h : ∀ i, Lasting (P i)) :
    Lasting fun k => ∀ i, P i k where
  ship k ref hk i := (h i).ship k ref (hk i)
  lose k ref hk i := (h i).lose k ref (hk i)
  tell k m hk i := (h i).tell k m (hk i)

/-- A stream that holds nothing holds nothing afterwards. -/
theorem lasting_empty (ref : StreamRef) : Lasting (·.held ref = []) where
  ship k other h := by
    dsimp only [ship, replaced]
    split
    · rfl
    · exact h
  lose k other h := by
    dsimp only [lose, replaced]
    split
    · rfl
    · exact h
  tell _ _ h := h

/-- The streams of threads hold nothing, but for some of them. -/
def EmptyBut (refs : List (ThreadId × StreamRef)) (k : Custody) : Prop :=
  ∀ p, (∀ entry ∈ refs, entry.2 ≠ .own p) → k.held (.own p) = []

theorem lasting_emptyBut (refs : List (ThreadId × StreamRef)) : Lasting (EmptyBut refs) :=
  .all fun _ => .all fun _ => lasting_empty _

/-- No stream holds anything if neither those of threads do nor those that threads share. -/
theorem EmptyBut.empty {refs : List (ThreadId × StreamRef)} {k : Custody} (h : k.EmptyBut refs)
    (hown : ∀ entry ∈ refs, k.held entry.2 = [])
    (hshared : ∀ ref ∈ Client.sharedRefs, k.held ref = []) (ref : StreamRef) : k.held ref = [] := by
  cases ref with
  | shared i => exact hshared _ (Ledger.mem_sharedRefs i)
  | own p =>
    by_cases hthere : ∃ entry ∈ refs, entry.2 = .own p
    · obtain ⟨entry, hentry, heq⟩ := hthere
      rw [← heq]
      exact hown entry hentry
    · exact h p fun entry hentry heq => hthere ⟨entry, hentry, heq⟩

end Custody

namespace Client

open Step (Keeps)

variable {c : Client} {past : List Bytes} {old : List Receipt} {P Q R : Custody → Prop}
  {noted : Prop} {ref : StreamRef} {thread : ThreadId} {α β : Type}

/-- It is known where the records are. No more of them are lost than before, unless it is noted or
frames are not accepted. -/
def Kept (past : List Bytes) (old : List Receipt) (P : Custody → Prop) (noted : Prop)
    (c : Client) : Prop :=
  ∃ k, c.Attests past k ∧ c.Assigns k ∧ P k ∧ (k.lost = old ∨ noted ∨ c.outbox.accepting = false)

/-- It is known where the records are after a step, and more if it succeeded. If it failed because
records are too large, that is noted. -/
inductive KeptAfter (past : List Bytes) (old : List Receipt) (P Q : Custody → Prop) (noted : Prop) :
    EStateM.Result ClientError Client α → Prop where
  | ok {a : α} {c : Client} (h : c.Kept past old Q noted) : KeptAfter past old P Q noted (.ok a c)
  | error {cause : ClientError} {c : Client}
    (h : c.Kept past old P (noted ∨ cause = .wire .batchTooLarge)) :
    KeptAfter past old P Q noted (.error cause c)

/-- From what is known before a step it is known what holds if it fails, and what if it succeeds. -/
def Moves (P Q : Custody → Prop) (m : EStateM ClientError Client α) : Prop :=
  ∀ ⦃past old noted c⦄, c.Kept past old P noted → KeptAfter past old P Q noted (m c)

theorem Kept.mono {noted' : Prop} (h : c.Kept past old P noted) (hP : ∀ k, P k → Q k)
    (hnoted : noted → noted') : c.Kept past old Q noted' := by
  obtain ⟨k, hattests, hassigns, hk, hlost⟩ := h
  exact ⟨k, hattests, hassigns, hP k hk, hlost.imp_right (Or.imp_left hnoted)⟩

namespace KeptAfter

variable {result : EStateM.Result ClientError Client α}

theorem of_kept (h : (Step.final result).Kept past old P noted) :
    KeptAfter past old P P noted result := by
  cases result with
  | ok a c => exact .ok h
  | error cause c => exact .error (h.mono (fun _ => id) .inl)

theorem mono {R' Q' : Custody → Prop} (h : KeptAfter past old P Q noted result)
    (hP : ∀ k, P k → R' k) (hQ : ∀ k, Q k → Q' k) : KeptAfter past old R' Q' noted result := by
  cases h with
  | ok h => exact .ok (h.mono hQ id)
  | error h => exact .error (h.mono hP id)

/-- Two steps, of which the second one may depend on how the first one ended. -/
theorem bind {m : EStateM ClientError Client α} {f : α → EStateM ClientError Client β}
    (hm : KeptAfter past old P Q noted (m c))
    (hf : ∀ a d, m c = .ok a d → d.Kept past old Q noted → KeptAfter past old P R noted (f a d)) :
    KeptAfter past old P R noted ((m >>= f) c) := by
  cases hresult : m c with
  | error cause d =>
    rw [hresult] at hm
    rw [Step.bind_of_error hresult]
    cases hm with
    | error h => exact .error h
  | ok a d =>
    rw [hresult] at hm
    rw [Step.bind_of_ok hresult]
    cases hm with
    | ok h => exact hf a d hresult h

/-- After the records of a stream have left, the stream holds none. -/
theorem of_ships {k k' : Custody} {accepting : Bool} {result : Custody.Result}
    (hships : k.Ships ref accepting result k') (hattests : (Step.final result).Attests past k')
    (hassigns : (Step.final result).Assigns k')
    (hgate : (Step.final result).outbox.accepting = accepting)
    (hP : Custody.Lasting P) (hk : P k) (hlost : k.lost = old ∨ noted ∨ accepting = false) :
    KeptAfter past old P (fun k => P k ∧ k.held ref = []) noted result := by
  subst hgate
  cases hships with
  | nothing hnone => exact .ok ⟨k, hattests, hassigns, ⟨hk, hnone⟩, hlost⟩
  | sent => exact .ok ⟨_, hattests, hassigns, ⟨hP.ship k ref hk, if_pos rfl⟩, hlost⟩
  | refused hno => exact .error ⟨_, hattests, hassigns, hP.lose k ref hk, .inr (.inr hno)⟩
  | unwritable => exact .error ⟨_, hattests, hassigns, hP.lose k ref hk, .inr (.inl (.inr rfl))⟩

/-- A record comes to its stream, unless it is refused or lost. -/
theorem of_takes {k k' : Custody} {e : Receipt} {accepting : Bool} {result : Custody.Result}
    (htakes : k.Takes e accepting result k') (hattests : (Step.final result).Attests past k')
    (hassigns : (Step.final result).Assigns k')
    (hgate : (Step.final result).outbox.accepting = accepting)
    (hP : Custody.Lasting P) (hQ : Custody.Lasting Q) (hk : P k) (htake : Q (k.take e))
    (hlost : k.lost = old ∨ noted ∨ accepting = false) :
    KeptAfter past old P Q noted result := by
  subst hgate
  cases htakes with
  | refused => exact .error ⟨k, hattests, hassigns, hk, hlost.imp_right (Or.imp_left .inl)⟩
  | kept => exact .ok ⟨_, hattests, hassigns, htake, hlost⟩
  | sent => exact .ok ⟨_, hattests, hassigns, hQ.ship _ _ htake, hlost⟩
  | closed hno => exact .error ⟨_, hattests, hassigns, hP.lose k e.ref hk, .inr (.inr hno)⟩
  | unwritable => exact .error ⟨_, hattests, hassigns, hP.lose k e.ref hk, .inr (.inl (.inr rfl))⟩

/-- A record is finished. What is known of the records if it was taken may be something else. -/
theorem of_finishes {k k' : Custody} {e : Receipt} {accepting : Bool} {result : Custody.Result}
    (hfinishes : k.Finishes e accepting result k') (hattests : (Step.final result).Attests past k')
    (hassigns : (Step.final result).Assigns k')
    (hgate : (Step.final result).outbox.accepting = accepting)
    (hP : Custody.Lasting P) (hQ : Custody.Lasting Q) (hk : P k)
    (htake : ∀ k, P k → k.Ready e → Q (k.take e))
    (hlost : k.lost = old ∨ noted ∨ accepting = false) :
    KeptAfter past old P Q noted result := by
  cases hfinishes with
  | refused =>
    rw [← hgate] at hlost
    exact .error ⟨k, hattests, hassigns, hk, hlost.imp_right (Or.imp_left .inl)⟩
  | taken hready htakes =>
    exact of_takes htakes hattests hassigns hgate hP hQ hk (htake k hk hready) hlost
  | blocked hships =>
    cases of_ships hships hattests hassigns hgate hP hk hlost with
    | error h => exact .error h
  | passed hships hready htakes =>
    cases hships with
    | nothing => exact of_takes htakes hattests hassigns hgate hP hQ hk (htake k hk hready) hlost
    | sent =>
      exact of_takes htakes hattests hassigns hgate hP hQ (hP.ship k _ hk)
        (htake _ (hP.ship k _ hk) hready) hlost

end KeptAfter

theorem Moves.bind {m : EStateM ClientError Client α} {f : α → EStateM ClientError Client β}
    (hm : Moves P Q m) (hf : ∀ a, Moves Q R (f a)) (hQP : ∀ k, Q k → P k) : Moves P R (m >>= f) :=
  fun _ _ _ _ h => (hm h).bind fun a _ _ h' => (hf a h').mono hQP fun _ => id

/-- A step that keeps what is known, whether it succeeds or fails. -/
theorem moves_of_keeps {m : EStateM ClientError Client α}
    (hm : ∀ past old noted, Keeps (Kept past old P noted) m) : Moves P P m :=
  fun past old noted c h => .of_kept (hm past old noted c h)

theorem moves_ensureOpen : Moves P P ensureOpen :=
  moves_of_keeps fun _ _ _ => keeps_ensureOpen

/-- No step between the calls of the sender decides whether frames are accepted. -/
private theorem accepting_final {m : EStateM ClientError Client α}
    (hm : ∀ {L : Client → Prop}, Lasting L → Keeps L m) (c : Client) :
    (Step.final (m c)).outbox.accepting = c.outbox.accepting :=
  congrArg (·.2.2.2.accepting) (hm (lasting_gate c.gate) c rfl)

namespace Kept

/-! ### Frames, frees and methods -/

/-- The streams are the same. Frames may leave the outbox. -/
theorem sent (h : c.Kept past old P noted) {c' : Client} (hc : c.SameStreams c')
    (hfrees : ∃ tokens, c'.frees.Holds tokens) {past' : List Bytes}
    (hframes : past' ++ c'.outbox.waiting.toList = past ++ c.outbox.waiting.toList)
    (hno : c.outbox.accepting = false → c'.outbox.accepting = false) :
    c'.Kept past' old P noted := by
  obtain ⟨k, hattests, hassigns, hk, hlost⟩ := h
  exact ⟨k, hattests.same hc hfrees hframes, hassigns.mono (fun _ _ => id) hc.streamOf, hk,
    hlost.imp_right (Or.imp_right hno)⟩

theorem same (h : c.Kept past old P noted) {c' : Client} (hc : c.SameStreams c')
    (hfrees : ∃ tokens, c'.frees.Holds tokens) (houtbox : c'.outbox = c.outbox) :
    c'.Kept past old P noted :=
  h.sent hc hfrees (by rw [houtbox]) (by rw [houtbox]; exact id)

theorem frees (h : c.Kept past old P noted) : ∃ tokens, c.frees.Holds tokens := by
  obtain ⟨k, hattests, -⟩ := h
  exact hattests.frees

/-- A message without records is told. -/
theorem tellMessage (hP : Custody.Lasting P) (h : c.Kept past old P noted) {m : Message}
    (hm : m.stamped = []) : (Step.final (enqueueMessage m c)).Kept past old P noted := by
  obtain ⟨k, hattests, hassigns, hk, hlost⟩ := h
  obtain ⟨frame, hfinal, -⟩ := (enqueueMessage_sends m c).final
  have hstreams : (Step.final (enqueueMessage m c)).streamOf = c.streamOf := by
    rw [hfinal, (sameStreams_posted c frame).streamOf]
  rw [← accepting_final (fun hL => hL.keeps_enqueueMessage m) c] at hlost
  rcases hattests.tells hm with ⟨hattests', -⟩ | hattests'
  · exact ⟨k, hattests', hassigns.mono (fun _ _ => id) hstreams, hk, hlost⟩
  · exact ⟨_, hattests', hassigns.mono (fun _ _ => id) hstreams, hP.tell k m hk, hlost⟩

theorem sealFrees (hP : Custody.Lasting P) (h : c.Kept past old P noted) :
    (Step.final (sealFrees c)).Kept past old P noted := by
  obtain ⟨tokens, hholds⟩ := h.frees
  obtain ⟨hempty, hseal⟩ := sealFrees_of_holds hholds
  have hsame : Kept past old P noted { c with frees := c.frees.take.2 } :=
    h.same ⟨rfl, rfl, rfl⟩ ⟨[], hempty⟩ rfl
  rw [hseal]
  split
  · exact hsame
  · exact hsame.tellMessage hP rfl

theorem onFrees (h : c.Kept past old P noted) (t : Token) :
    (Step.final (onFrees (FreeStream.append t) c)).Kept past old P noted := by
  obtain ⟨tokens, hholds⟩ := h.frees
  rw [final_onFrees]
  exact h.same ⟨rfl, rfl, rfl⟩ (FreeStream.exists_holds_append hholds t) rfl

end Kept

theorem moves_register (hP : Custody.Lasting P) (name : String) : Moves P P (register name) :=
  moves_of_keeps fun _ _ _ => keeps_register_of (fun _ _ h => h.tellMessage hP rfl)
    fun _ _ h => h.same ⟨rfl, rfl, rfl⟩ h.frees rfl

theorem moves_tell (hP : Custody.Lasting P) {m : Message} (hm : m.stamped = []) :
    Moves P P (tell m) :=
  moves_of_keeps fun _ _ _ => .bind keeps_ensureOpen fun _ _ h => h.tellMessage hP hm

namespace Kept

/-! ### Records that leave -/

theorem sealStream (hP : Custody.Lasting P) (h : c.Kept past old P noted) (href : c.Has ref) :
    KeptAfter past old P (fun k => P k ∧ k.held ref = []) noted (sealStream ref c) := by
  obtain ⟨k, hattests, hassigns, hk, hlost⟩ := h
  obtain ⟨k', hships, hattests'⟩ := hattests.sealStream href
  have hstreams : (Step.final (Client.sealStream ref c)).streamOf = c.streamOf :=
    congrArg (·.2.1) (holdings_sealStream ref c)
  exact .of_ships hships hattests' (hassigns.mono (fun _ _ he => (hships.mem_held.1 he).2) hstreams)
    (accepting_final (fun hL => hL.keeps_sealStream ref) c) hP hk hlost

theorem closeStream (hP : Custody.Lasting P) (h : c.Kept past old P noted) (href : c.Has ref) :
    KeptAfter past old P (fun k => P k ∧ k.held ref = []) noted (closeStream ref c) := by
  obtain ⟨k, hattests, hassigns, hk, hlost⟩ := h
  obtain ⟨k', hships, hattests'⟩ := hattests.closeStream href
  have hstreams : (Step.final (Client.closeStream ref c)).streamOf = c.streamOf :=
    congrArg (·.2.1) (holdings_closeStream ref c)
  exact .of_ships hships hattests' (hassigns.mono (fun _ _ he => (hships.mem_held.1 he).2) hstreams)
    (accepting_final (fun hL => hL.keeps_closeStream ref) c) hP hk hlost

/-- The stream of a thread ends. -/
theorem endStream (hP : Custody.Lasting P) (h : c.Kept past old P noted) {p : Nat}
    (hp : c.streamOf[thread]? = some p) :
    KeptAfter past old P (fun k => P k ∧ k.held (.own p) = []) noted (endStream thread c) := by
  obtain ⟨k, hattests, hassigns, hk, hlost⟩ := h
  rw [endStream_of_some hp]
  have hdetached := hattests.detach thread
  have href : Has { c with streamOf := c.streamOf.erase thread } (.own p) :=
    hattests.placed.inRange thread p hp
  obtain ⟨k', hships, hattests'⟩ := hdetached.closeStream href
  have hstreams : (Step.final (Client.closeStream (.own p)
      { c with streamOf := c.streamOf.erase thread })).streamOf = c.streamOf.erase thread :=
    congrArg (·.2.1) (holdings_closeStream (.own p) _)
  have hgate := accepting_final (fun hL => hL.keeps_closeStream (.own p))
    { c with streamOf := c.streamOf.erase thread }
  -- The records of the thread have left its stream.
  have hassigns' : (Step.final (Client.closeStream (.own p)
      { c with streamOf := c.streamOf.erase thread })).Assigns k' := by
    intro q e he
    obtain ⟨hother, he⟩ := hships.mem_held.1 he
    have hold := hassigns q e he
    have hne : e.thread ≠ thread := by
      rintro rfl
      cases hp.symm.trans hold
      exact hother rfl
    rw [hstreams, getElem?_erase, if_neg hne]
    exact hold
  have hclose := KeptAfter.of_ships hships hattests' hassigns' hgate hP hk hlost
  refine hclose.bind fun _ d _ hd => ?_
  rw [Step.get_bind]
  have htell := hd.tellMessage (hP.and (Custody.lasting_empty _))
    (m := .threadEnd (d.stream (.own p)).ordering) rfl
  exact (KeptAfter.of_kept htell).mono (fun _ => And.left) fun _ => id

theorem visit (hP : Custody.Lasting P) (h : c.Kept past old P noted) {p : Nat}
    (hp : c.streamOf[thread]? = some p) :
    KeptAfter past old P (fun k => P k ∧ k.held (.own p) = []) noted
      (visit thread (.own p) c) := by
  have hplaced : c.Placed := by
    obtain ⟨k, hattests, -⟩ := h
    exact hattests.placed
  rw [visit_eq]
  split
  · exact h.endStream hP hp
  · exact h.sealStream hP (hplaced.inRange thread p hp)

/-- Threads that have streams are visited one after the other. -/
private theorem visits {entries : List (ThreadId × StreamRef)}
    (hnodup : (entries.map Prod.fst).Nodup) (hP : Custody.Lasting P) (h : c.Kept past old P noted)
    (hhas : ∀ entry ∈ entries, ∃ p, entry.2 = .own p ∧ c.streamOf[entry.1]? = some p) :
    KeptAfter past old P (fun k => P k ∧ ∀ entry ∈ entries, k.held entry.2 = []) noted
      (entries.forM (fun entry => Client.visit entry.1 entry.2) c) := by
  induction entries generalizing c P with
  | nil => exact .ok (h.mono (fun _ hk => ⟨hk, nofun⟩) id)
  | cons entry entries ih =>
    obtain ⟨⟨p, href, hp⟩, hrest⟩ := List.forall_mem_cons.1 hhas
    rw [List.map_cons, List.nodup_cons] at hnodup
    have hfirst := h.visit hP hp
    rw [← href] at hfirst
    have hboth (k : Custody) (hk : (P k ∧ k.held entry.2 = []) ∧
        ∀ other ∈ entries, k.held other.2 = []) :
        P k ∧ ∀ other ∈ entry :: entries, k.held other.2 = [] :=
      ⟨hk.1.1, List.forall_mem_cons.2 ⟨hk.1.2, hk.2⟩⟩
    refine hfirst.bind fun _ d hd h' => ?_
    have hlater := ih hnodup.2 (hP.and (Custody.lasting_empty entry.2)) h' fun other hother => by
      obtain ⟨q, hother', hq⟩ := hrest other hother
      have hne : other.1 ≠ entry.1 := fun heq => hnodup.1 (heq ▸ List.mem_map_of_mem hother)
      have hstays := streamOf_visit entry.1 entry.2 c hne
      rw [hd] at hstays
      exact ⟨q, hother', hstays.trans hq⟩
    exact hlater.mono (fun _ => And.left) hboth

/-- Streams are sent or ended one after the other. -/
private theorem empties {step : StreamRef → EStateM ClientError Client Unit}
    (hstep : ∀ {P : Custody → Prop} {c : Client} {ref : StreamRef}, Custody.Lasting P →
      c.Kept past old P noted → c.Has ref →
        KeptAfter past old P (fun k => P k ∧ k.held ref = []) noted (step ref c))
    (hsize : ∀ ref c, (Step.final (step ref c)).own.size = c.own.size) {entries : List α}
    {g : α → StreamRef} (hP : Custody.Lasting P) (h : c.Kept past old P noted)
    (hhas : ∀ entry ∈ entries, c.Has (g entry)) :
    KeptAfter past old P (fun k => P k ∧ ∀ entry ∈ entries, k.held (g entry) = []) noted
      (entries.forM (fun entry => step (g entry)) c) := by
  induction entries generalizing c P with
  | nil => exact .ok (h.mono (fun _ hk => ⟨hk, nofun⟩) id)
  | cons entry entries ih =>
    obtain ⟨hfirst, hrest⟩ := List.forall_mem_cons.1 hhas
    have hboth (k : Custody) (hk : (P k ∧ k.held (g entry) = []) ∧
        ∀ other ∈ entries, k.held (g other) = []) :
        P k ∧ ∀ other ∈ entry :: entries, k.held (g other) = [] :=
      ⟨hk.1.1, List.forall_mem_cons.2 ⟨hk.1.2, hk.2⟩⟩
    refine (hstep hP h hfirst).bind fun _ d hd h' => ?_
    have hthere := hsize (g entry) c
    rw [hd] at hthere
    have hlater := ih (hP.and (Custody.lasting_empty (g entry))) h' fun other hother =>
      (has_iff_of_size hthere _).2 (hrest other hother)
    exact hlater.mono (fun _ => And.left) hboth
where
  has_iff_of_size {c d : Client} (hsize : d.own.size = c.own.size) (ref : StreamRef) :
      d.Has ref ↔ c.Has ref := by
    cases ref with
    | shared i => exact Iff.rfl
    | own p => exact iff_of_eq (congrArg (p < ·) hsize)

private theorem seals {entries : List α} {g : α → StreamRef} (hP : Custody.Lasting P)
    (h : c.Kept past old P noted) (hhas : ∀ entry ∈ entries, c.Has (g entry)) :
    KeptAfter past old P (fun k => P k ∧ ∀ entry ∈ entries, k.held (g entry) = []) noted
      (entries.forM (fun entry => Client.sealStream (g entry)) c) :=
  empties (fun hP h href => h.sealStream hP href)
    (fun ref c => congrArg (·.2.2) (holdings_sealStream ref c)) hP h hhas

private theorem closes {entries : List α} {g : α → StreamRef} (hP : Custody.Lasting P)
    (h : c.Kept past old P noted) (hhas : ∀ entry ∈ entries, c.Has (g entry)) :
    KeptAfter past old P (fun k => P k ∧ ∀ entry ∈ entries, k.held (g entry) = []) noted
      (entries.forM (fun entry => Client.closeStream (g entry)) c) :=
  empties (fun hP h href => h.closeStream hP href)
    (fun ref c => congrArg (·.2.2) (holdings_closeStream ref c)) hP h hhas

/-- Only streams of threads hold records, besides those that threads share. -/
private theorem emptyBut (h : c.Kept past old P noted) :
    c.Kept past old (fun k => P k ∧ k.EmptyBut c.ownRefs) noted := by
  obtain ⟨k, hattests, hassigns, hk, hlost⟩ := h
  refine ⟨k, hattests, hassigns, ⟨hk, fun p hnone => ?_⟩, hlost⟩
  refine List.eq_nil_iff_forall_not_mem.2 fun e he => ?_
  exact hnone _ (mem_ownRefs.2 ⟨p, rfl, hassigns p e he⟩) rfl

end Kept

private theorem has_of_mem_sharedRefs (h : ref ∈ sharedRefs) : c.Has ref := by
  obtain ⟨_, -, rfl⟩ := List.mem_map.1 h
  trivial

/-- After all streams have been sent, none holds a record. -/
theorem moves_sealEvents (hP : Custody.Lasting P) :
    Moves P (fun k => P k ∧ ∀ ref, k.held ref = []) sealEvents := by
  intro past old noted c h
  have hbut := hP.and (Custody.lasting_emptyBut c.ownRefs)
  have hown := hbut.and (.all fun entry : ThreadId × StreamRef =>
    .all fun _ : entry ∈ c.ownRefs => Custody.lasting_empty entry.2)
  rw [sealEvents, Step.get_bind]
  have hvisits := h.emptyBut.visits c.nodup_ownRefs hbut fun entry hentry => mem_ownRefs.1 hentry
  refine (hvisits.mono (fun _ => And.left) fun _ => id).bind fun _ d _ h' => ?_
  have hseals := h'.seals hown fun ref href => has_of_mem_sharedRefs href
  exact hseals.mono (fun _ hk => hk.1.1) fun _ hk => ⟨hk.1.1.1, hk.1.1.2.empty hk.1.2 hk.2⟩

theorem moves_sealFrees (hP : Custody.Lasting P) : Moves P P sealFrees :=
  moves_of_keeps fun _ _ _ _ h => h.sealFrees hP

private theorem lasting_allEmpty (hP : Custody.Lasting P) :
    Custody.Lasting fun k => P k ∧ ∀ ref, k.held ref = [] :=
  hP.and (.all Custody.lasting_empty)

/-- After records and frees have been sent early, no stream holds a record. -/
theorem moves_flush (hP : Custody.Lasting P) :
    Moves P (fun k => P k ∧ ∀ ref, k.held ref = []) flush :=
  moves_ensureOpen.bind (fun _ => (moves_sealEvents hP).bind
    (fun _ => moves_sealFrees (lasting_allEmpty hP)) fun _ => And.left) fun _ => id

theorem moves_objectFreed (hP : Custody.Lasting P) (t : Token) : Moves P P (objectFreed t) := by
  refine moves_ensureOpen.bind (fun _ => Moves.bind (Q := P)
    (moves_of_keeps fun _ _ _ _ h => h.onFrees t) (fun _ => Moves.bind (Q := P)
      (moves_of_keeps fun _ _ _ => .get) (fun c => ?_) fun _ => id) fun _ => id) fun _ => id
  split
  · intro past old noted d h
    exact (moves_sealEvents hP h).bind fun _ _ _ h' =>
      (moves_sealFrees (lasting_allEmpty hP) h').mono (fun _ => And.left) fun _ => And.left
  · exact moves_of_keeps fun _ _ _ => .pure _

theorem moves_threadEnd (hP : Custody.Lasting P) (thread : ThreadId) :
    Moves P P (threadEnd thread) := by
  refine moves_ensureOpen.bind (fun _ past old noted c h => ?_) fun _ => id
  cases hp : c.streamOf[thread]? with
  | none =>
    rw [endStream_of_none hp]
    exact .ok h
  | some p => exact (h.endStream hP hp).mono (fun _ => id) fun _ => And.left

/-- After all streams have ended, none holds a record. -/
theorem moves_closeAll (hP : Custody.Lasting P) :
    Moves P (fun k => P k ∧ ∀ ref, k.held ref = []) closeAll := by
  intro past old noted c h
  have hplaced : c.Placed := by
    obtain ⟨k, hattests, -⟩ := h
    exact hattests.placed
  have hbut := hP.and (Custody.lasting_emptyBut c.ownRefs)
  have hown := hbut.and (.all fun entry : ThreadId × StreamRef =>
    .all fun _ : entry ∈ c.ownRefs => Custody.lasting_empty entry.2)
  have hhas (entry : ThreadId × StreamRef) (hentry : entry ∈ c.ownRefs) : c.Has entry.2 := by
    obtain ⟨p, heq, hp⟩ := mem_ownRefs.1 hentry
    rw [heq]
    exact hplaced.inRange entry.1 p hp
  rw [closeAll, Step.get_bind]
  have hcloses := h.emptyBut.closes hbut hhas
  refine (hcloses.mono (fun _ => And.left) fun _ => id).bind fun _ d _ h' => ?_
  have hshared := h'.closes hown fun ref href => has_of_mem_sharedRefs href
  refine KeptAfter.bind (hshared.mono (fun _ hk => hk.1.1) fun _ hk =>
    (⟨hk.1.1.1, hk.1.1.2.empty hk.1.2 hk.2⟩ : _ ∧ ∀ ref, _)) fun _ d' _ hempty => ?_
  have hmoves : Moves (fun k => P k ∧ ∀ ref, k.held ref = []) _ (do
      modify fun c => { c with frees := { c.frees with closed := true } }
      sealFrees
      enqueueMessage .close : EStateM ClientError Client Unit) :=
    moves_of_keeps fun _ _ _ => .bind (.modify fun _ h => h.same ⟨rfl, rfl, rfl⟩ h.frees rfl)
      fun _ => .bind (fun _ h => h.sealFrees (lasting_allEmpty hP)) fun _ _ h =>
        h.tellMessage (lasting_allEmpty hP) rfl
  exact (hmoves hempty).mono (fun _ => And.left) fun _ => id

namespace Kept

variable {w : EventWriter} {r : Record} {turn : Nat}

/-! ### Records that come -/

theorem finishEvent (hP : Custody.Lasting P) (hQ : Custody.Lasting Q)
    (h : c.Kept past old P noted) (thread : ThreadId) (hw : w.fault = none → w.record.Holds r)
    (htake : ∀ k, P k → k.Ready ⟨c.streamFor thread w.ordering, r, thread, turn⟩ →
      Q (k.take ⟨c.streamFor thread w.ordering, r, thread, turn⟩)) :
    KeptAfter past old P Q noted (finishEvent thread w c) := by
  obtain ⟨k, hattests, hassigns, hk, hlost⟩ := h
  obtain ⟨k', hfinishes, hattests', hassigns'⟩ := hattests.finishes hassigns thread hw turn
  have hgate := accepting_final (fun hL => hL.keeps_finishEvent thread w) c
  exact .of_finishes hfinishes hattests' hassigns' hgate hP hQ hk htake hlost

theorem dispatch (hP : Custody.Lasting P) (hQ : Custody.Lasting Q) (h : c.Kept past old P noted)
    (thread : ThreadId) (id : MethodId) (args : List Value)
    (htake : ∀ k, P k → k.Ready ⟨c.streamFor thread none, ⟨id, args⟩, thread, turn⟩ →
      Q (k.take ⟨c.streamFor thread none, ⟨id, args⟩, thread, turn⟩)) :
    KeptAfter past old P Q noted (dispatch thread id args c) := by
  obtain ⟨k, hattests, hassigns, hk, hlost⟩ := h
  obtain ⟨k', hfinishes, hattests', hassigns'⟩ := hattests.dispatches hassigns thread id args turn
  have hgate := accepting_final (fun hL => hL.keeps_dispatch thread id args) c
  exact .of_finishes hfinishes hattests' hassigns' hgate hP hQ hk htake hlost

/-! ### Threads that are gone, the sender and the end of the session -/

theorem threadGone (h : c.Kept past old P noted) (thread : ThreadId) :
    (c.threadGone thread).Kept past old P noted := by
  obtain ⟨k, hattests, hassigns, hk, hlost⟩ := h
  cases hp : c.streamOf[thread]? with
  | none =>
    rw [threadGone_of_none hp]
    exact ⟨k, hattests, hassigns, hk, hlost⟩
  | some p =>
    rw [threadGone_of_some hp]
    have href : c.Has (.own p) := hattests.placed.inRange thread p hp
    exact ⟨k, hattests.setStream_same href rfl (hattests.held _ href),
      hassigns.mono (fun _ _ => id) (streamOf_setStream ..), hk, hlost⟩

/-- The sender takes frames out of the outbox, and does nothing else. -/
theorem runSender (h : c.Kept past old P noted) (deliver : Nat → Delivery) :
    ∃ past', past' ++ (c.runSender deliver).2.outbox.waiting.toList =
        past ++ c.outbox.waiting.toList ∧
      (c.runSender deliver).2.Kept past' old P noted := by
  obtain ⟨past', hframes⟩ := Outbox.exists_pump deliver c.outbox past
  have hsame : c.SameStreams (c.runSender deliver).2 := ⟨rfl, rfl, rfl⟩
  refine ⟨past', hframes, h.sent hsame h.frees hframes fun hno => ?_⟩
  rcases Outbox.pump_cases deliver c.outbox with ⟨-, haccepting⟩ | ⟨-, hno'⟩
  · exact haccepting.trans hno
  · exact hno'

/-- The end of a session. If it succeeds, no stream holds a record, and no more of them are lost. -/
theorem shutdown (hP : Custody.Lasting P) (h : c.Kept past old P noted) (hending : c.ending = false)
    {deliver : Nat → Delivery} {answer : Except ClientError Unit} {out : List Bytes} {c' : Client}
    (hshutdown : c.shutdown deliver = (answer, out, c')) :
    ∃ past' k, past' ++ c'.outbox.waiting.toList = past ++ (Step.final
        (Client.closeAll { c with ending := true, closed := true })).outbox.waiting.toList ∧
      c'.Attests past' k ∧ c'.Assigns k ∧ P k ∧ (answer = .ok () → (∀ ref, k.held ref = []) ∧
        (k.lost = old ∨ noted ∨ c.outbox.accepting = false)) := by
  have hmarked : Kept past old P noted { c with ending := true, closed := true } :=
    h.same ⟨rfl, rfl, rfl⟩ h.frees rfl
  have hgate := accepting_final (fun hL => hL.keeps_closeAll)
    { c with ending := true, closed := true }
  obtain ⟨d, hd, hsame, hfrees, -, hframes⟩ := shutdown_streams hending hshutdown
  have hdrained : ∃ k, d.Attests past k ∧ d.Assigns k ∧ P k ∧ (answer = .ok () →
      (∀ ref, k.held ref = []) ∧ (k.lost = old ∨ noted ∨ c.outbox.accepting = false)) := by
    have hkept := moves_closeAll hP hmarked
    cases hclose : Client.closeAll { c with ending := true, closed := true } with
    | ok a d' =>
      rw [hclose] at hkept hd hgate
      cases hkept with | ok hkept =>
      obtain ⟨k, hattests, hassigns, ⟨hk, hempty⟩, hlost⟩ := hkept
      subst hd
      exact ⟨k, hattests, hassigns, hk, fun _ =>
        ⟨hempty, hlost.imp_right (Or.imp_right hgate.symm.trans)⟩⟩
    | error e d' =>
      rw [hclose] at hkept hd
      cases hkept with | error hkept =>
      obtain ⟨k, hattests, hassigns, hk, -⟩ := hkept
      subst hd
      refine ⟨k, hattests, hassigns, hk, fun hok => ?_⟩
      subst hok
      obtain ⟨_, hclose', -⟩ := closeAll_of_shutdown hending hshutdown
      cases hclose.symm.trans hclose'
  obtain ⟨k, hattests, hassigns, hk, hok⟩ := hdrained
  obtain ⟨past', hframes⟩ := hframes past
  rw [← hd]
  exact ⟨past', k, hframes, hattests.same hsame (hfrees ▸ hattests.frees) hframes,
    hassigns.mono (fun _ _ => id) hsame.streamOf, hk, hok⟩

end Kept

end Client

end TraceRelay
