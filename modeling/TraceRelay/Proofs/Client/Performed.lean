import TraceRelay.Proofs.Client.Interleaved

/-!
# What each job does

Each job changes the streams in one of few ways and puts at most one frame into the outbox. The
frame carries what is written down of it.

## Main definitions

* `Client.Owns`, `Job.Fits` : what a job relies on.
* `Machine.Effect` : what a job does to the client and to what is written down.

## Main results

* `Machine.Right.effect_perform` : each job has its effect.
-/

namespace TraceRelay

/-- Messages that carry neither records nor freed tokens. -/
def Message.isTold : Message → Bool
  | .analyze .. | .objectFree .. => false
  | _ => true

/-- A stream that no thread has but, possibly, the given one. -/
def Client.Owns (c : Client) (thread : ThreadId) (ref : StreamRef) : Prop :=
  ∃ p, ref = .own p ∧ p < c.own.size ∧ ∀ t : ThreadId, c.streamOf[t]? = some p → t = thread

/-- What a job relies on: its streams are there, and its record is the one that was written. -/
def Job.Fits (c : Client) : Job → Prop
  | .finish w r => w.fault = none → w.record.Holds r
  | .append ref b r => c.Has ref ∧ b.Holds r
  | .collect _ _ found _ => ∀ entry ∈ found, c.Owns entry.1 entry.2
  | .visit thread ref => c.Owns thread ref
  | .seal ref | .close ref | .tellEnd ref => c.Has ref
  | .post m => m.isTold = true
  | _ => True

namespace Machine

/-- What a job does that leaves the client as it is given. -/
structure Effect (m : Machine) (job : Job) (ok : Bool) (c : Client) : Prop where
  shift : Shift m.clock m.client m.held c (m.noted job ok c).held
  frees : c.frees.Holds ((m.noted job ok c).pending.map (·.token))
  frames : ∃ frame : Option Bytes,
    c.outbox.waiting.toList = m.client.outbox.waiting.toList ++ frame.toList ∧
    ∀ bs, frame = some bs → (m.load ok job).message.toBytes = .ok bs
  closed : m.client.closed = true → c.closed = true

/-- What is written down is right. -/
structure Right (m : Machine) : Prop where
  streams : Faithful m.clock m.client m.held
  frees : m.client.frees.Holds (m.pending.map (·.token))

/-- Two clients that do not differ in what is written down. -/
structure Alike (c c' : Client) : Prop extends c.SameStreams c' where
  frees : c'.frees = c.frees
  waiting : c'.outbox.waiting = c.outbox.waiting
  closed : c.closed = true → c'.closed = true

variable {m : Machine} {job : Job} {ok : Bool} {c c' : Client} {frame : Option Bytes}

theorem held_noted_of_same (m : Machine) (job : Job) (ok : Bool) (hc : c.SameStreams c') :
    (m.noted job ok c').held = (m.noted job ok c).held := by
  simp only [noted, hc.stream]

theorem Effect.alike (h : m.Effect job ok c) (hc : Alike c c') : m.Effect job ok c' where
  shift := by
    rw [held_noted_of_same m job ok hc.toSameStreams]
    exact h.shift.same_after hc.toSameStreams
  frees := by
    rw [hc.frees]
    exact h.frees
  frames := by
    rw [hc.waiting]
    exact h.frames
  closed hclosed := hc.closed (h.closed hclosed)

/-- A job that changes the streams as it may, and then sends a frame, if there is one. -/
theorem Effect.posted (hshift : Shift m.clock m.client m.held c (m.noted job ok c).held)
    (hfrees : c.frees.Holds ((m.noted job ok c).pending.map (·.token)))
    (hwaiting : c.outbox.waiting = m.client.outbox.waiting)
    (hclosed : m.client.closed = true → c.closed = true)
    (hframe : ∀ bs, frame = some bs → (m.load ok job).message.toBytes = .ok bs) :
    m.Effect job ok (c.posted frame) where
  shift := by
    rw [held_noted_of_same m job ok (c.sameStreams_posted frame)]
    exact hshift.same_after (c.sameStreams_posted frame)
  frees := by
    cases frame <;> exact hfrees
  frames := ⟨frame, by rw [Client.toList_posted, hwaiting], hframe⟩
  closed := by
    cases frame <;> exact hclosed

/-- A job that sends a frame and does nothing else. -/
theorem Right.effect_of_posted (h : m.Right) (hpage : m.page? ok job = none)
    (hpending : ∀ c, (m.noted job ok c).pending = m.pending)
    (hframe : ∀ bs, frame = some bs → (m.load ok job).message.toBytes = .ok bs) :
    m.Effect job ok (m.client.posted frame) := by
  refine .posted ?_ ?_ rfl id hframe
  · have hheld : (m.noted job ok m.client).held = m.held := by simp only [noted, hpage]
    rw [hheld]
    exact .same ⟨rfl, rfl, rfl⟩
  · rw [hpending]
    exact h.frees

/-! ### Records -/

/-- The frame of a stream carries its records. -/
private theorem toBytes_of_take {s : RecordStream} {records : List Record}
    (hholds : s.Holds records) {bs : Bytes} (htake : s.take.1 = .ok (some bs)) :
    (Message.analyze s.ordering records).toBytes = .ok bs := by
  rw [(RecordStream.take_of_holds hholds).1] at htake
  split at htake
  · cases htake
  · cases hbytes : (Message.analyze s.ordering records).toBytes with
    | error e =>
      rw [hbytes] at htake
      cases htake
    | ok bs' =>
      rw [hbytes] at htake
      cases htake
      rfl

/-- A stream has other records, and its frame is sent, if there is one. -/
private theorem Right.effect_of_set (h : m.Right) {ref : StreamRef} (href : m.client.Has ref)
    {entries left : List Accepted} (hpage : m.page? ok job = some (ref, entries))
    (hpending : ∀ c, (m.noted job ok c).pending = m.pending) {s : RecordStream}
    (hleft : (if s.batch.isNone then [] else entries) = left)
    (hordering : s.ordering = (m.client.stream ref).ordering)
    (hholds : s.Holds (left.map (·.record)))
    (hentries : ∀ e ∈ left, e ∈ m.held ref ∨ e.moment = m.clock)
    (hclosed : (m.client.stream ref).closed = true → s.closed = true)
    (hended : s.closed = true → left = [])
    (hframe : ∀ bs, frame = some bs →
      (Message.analyze ref.ordering (entries.map (·.record))).toBytes = .ok bs) :
    m.Effect job ok ((m.client.setStream ref s).posted frame) := by
  have hheld : (m.noted job ok (m.client.setStream ref s)).held =
      Function.update m.held ref left := by
    simp only [noted, hpage, Client.stream_setStream_of_has h.streams.placed.size_shared href,
      if_true, hleft]
  refine .posted ?_ ?_ ?_ ?_ fun bs hbs => ?_
  · rw [hheld]
    exact .set ⟨rfl, rfl, rfl⟩ href hordering hholds hentries hclosed hended
  · rw [hpending]
    cases ref <;> exact h.frees
  · cases ref <;> rfl
  · cases ref <;> exact id
  · simp only [load, hpage]
    exact hframe bs hbs

/-- All records of a stream are sent. -/
private theorem Right.effect_of_sealed (h : m.Right) {ref : StreamRef} (href : m.client.Has ref)
    {entries : List Accepted} (hpage : m.page? ok job = some (ref, entries))
    (hpending : ∀ c, (m.noted job ok c).pending = m.pending) {s : RecordStream}
    (hordering : s.ordering = (m.client.stream ref).ordering)
    (hclosed : (m.client.stream ref).closed = true → s.closed = true) (hbatch : s.batch = none)
    (hframe : ∀ bs, frame = some bs →
      (Message.analyze ref.ordering (entries.map (·.record))).toBytes = .ok bs) :
    m.Effect job ok ((m.client.setStream ref s).posted frame) := by
  have hempty : s.Holds [] := by
    rw [RecordStream.Holds, hbatch]
  have hleft : (if s.batch.isNone then [] else entries) = [] := by
    rw [hbatch]
    rfl
  exact h.effect_of_set href hpage hpending hleft hordering hempty (fun e he => by cases he)
    hclosed (fun _ => rfl) hframe

/-- A stream without a batch holds nothing. -/
private theorem page_of_holds {s : RecordStream} {entries : List Accepted}
    (h : s.Holds (entries.map (·.record))) :
    (if s.batch.isNone then [] else entries) = entries := by
  cases hbatch : s.batch with
  | none =>
    rw [RecordStream.Holds, hbatch] at h
    rw [List.map_eq_nil_iff.1 h]
    rfl
  | some batch => rfl

/-- A record that is added to a stream. -/
theorem Right.effect_append (h : m.Right) {ref : StreamRef} {b : RecordBuilder} {r : Record}
    (href : m.client.Has ref) (hb : b.Holds r) :
    m.Effect (.append ref b r) (Step.succeeded (Client.appendTo ref b m.client))
      (Step.final (Client.appendTo ref b m.client)) := by
  have hsize := h.streams.placed.size_shared
  have hheld := h.streams.holds ref
  rcases Client.appendTo_cases hsize href b with
    ⟨e, s, happend, hresult⟩ | ⟨s, happend, hrest⟩
  · -- The record was refused, and the stream holds what it held.
    obtain ⟨hholds, hgate⟩ : s.Holds ((m.held ref).map (·.record)) ∧
        (m.client.stream ref).SameGate s := by
      cases hclosed : (m.client.stream ref).closed with
      | true =>
        rw [RecordStream.append_of_closed hclosed] at happend
        cases happend
        exact ⟨hheld, rfl, rfl, rfl⟩
      | false =>
        rcases RecordStream.append_of_holds hheld hclosed hb with
          ⟨s', hs', -⟩ | ⟨cause, s', hs', hholds, hgate, -⟩
        · cases happend.symm.trans hs'
        · cases happend.symm.trans hs'
          exact ⟨hholds, hgate⟩
    have hpage : m.page? false (.append ref b r) = some (ref, m.held ref) := by
      rw [page?, taken, if_neg Bool.false_ne_true, List.append_nil]
    have heffect : m.Effect (.append ref b r) false ((m.client.setStream ref s).posted none) :=
      h.effect_of_set href hpage (fun _ => rfl) (page_of_holds hholds) hgate.ordering hholds
        (fun e he => .inl he) (fun hclosed => hgate.closed.trans hclosed)
        (fun hclosed => h.streams.ended ref (hgate.closed.symm.trans hclosed)) nofun
    rw [hresult]
    exact heffect
  · -- The record was taken.
    obtain ⟨hopen, hholds, hgate⟩ : (m.client.stream ref).closed = false ∧
        s.Holds ((m.held ref ++ m.taken r true).map (·.record)) ∧
        (m.client.stream ref).SameGate s := by
      cases hclosed : (m.client.stream ref).closed with
      | true =>
        rw [RecordStream.append_of_closed hclosed] at happend
        cases happend
      | false =>
        rcases RecordStream.append_of_holds hheld hclosed hb with
          ⟨s', hs', hholds, hgate, -⟩ | ⟨cause, s', hs', -⟩
        · cases happend.symm.trans hs'
          rw [List.map_append]
          exact ⟨rfl, hholds, hgate⟩
        · cases happend.symm.trans hs'
    rcases hrest with ⟨-, hresult⟩ | ⟨-, hsends⟩
    · have heffect : m.Effect (.append ref b r) true ((m.client.setStream ref s).posted none) := by
        refine h.effect_of_set href rfl (fun _ => rfl) (page_of_holds hholds) hgate.ordering hholds
          (fun e he => ?_) (fun hclosed => hgate.closed.trans hclosed)
          (fun hclosed => absurd (hgate.closed.symm.trans hclosed) (ne_true_of_eq_false hopen))
          nofun
        rcases List.mem_append.1 he with he | he
        · exact .inl he
        · exact .inr (congrArg Accepted.moment (List.mem_singleton.1 he))
      rw [hresult]
      exact heffect
    · obtain ⟨-, -, hgate'⟩ := RecordStream.take_of_holds hholds
      obtain ⟨frame, hfinal, hframe⟩ := hsends.final
      rw [hfinal]
      refine h.effect_of_sealed href rfl (fun _ => rfl)
        (hgate'.ordering.trans hgate.ordering)
        (fun hclosed => hgate'.closed.trans (hgate.closed.trans hclosed)) s.batch_take
        fun bs hbs => ?_
      obtain ⟨htake, hresult⟩ := hframe bs hbs
      have hbytes := toBytes_of_take hholds htake
      rw [hgate.ordering, h.streams.ordering ref href] at hbytes
      rw [hresult]
      exact hbytes

/-- A job that sends all records of a stream, whether or not the stream ends. -/
theorem Right.effect_of_sends (h : m.Right) {ref : StreamRef} (href : m.client.Has ref)
    (hpage : ∀ ok, m.page? ok job = some (ref, m.held ref))
    (hpending : ∀ ok c, (m.noted job ok c).pending = m.pending) {s : RecordStream}
    (hordering : s.ordering = (m.client.stream ref).ordering)
    (hclosed : (m.client.stream ref).closed = true → s.closed = true) (hbatch : s.batch = none)
    {result : EStateM.Result ClientError Client Unit}
    (hsends : Client.Sends (m.client.stream ref).take.1 (m.client.setStream ref s) result) :
    m.Effect job (Step.succeeded result) (Step.final result) := by
  obtain ⟨frame, hfinal, hframe⟩ := hsends.final
  rw [hfinal]
  refine h.effect_of_sealed href (hpage _) (hpending _) hordering hclosed hbatch fun bs hbs => ?_
  have hbytes := toBytes_of_take (h.streams.holds ref) (hframe bs hbs).1
  rwa [h.streams.ordering ref href] at hbytes

/-! ### Other jobs -/

/-- A job that sends a message. -/
theorem Right.effect_of_told (h : m.Right) {message : Message}
    (hpage : ∀ ok, m.page? ok job = none)
    (hpending : ∀ ok c, (m.noted job ok c).pending = m.pending)
    (hload : ∀ ok, m.load ok job = .told message) :
    m.Effect job (Step.succeeded (Client.enqueueMessage message m.client))
      (Step.final (Client.enqueueMessage message m.client)) := by
  obtain ⟨frame, hfinal, hframe⟩ := (Client.enqueueMessage_sends message m.client).final
  rw [hfinal]
  refine h.effect_of_posted (hpage _) (hpending _) fun bs hbs => ?_
  have hbytes := (hframe bs hbs).1
  rw [hload]
  cases hm : message.toBytes with
  | error e =>
    rw [hm] at hbytes
    cases hbytes
  | ok bs' =>
    rw [hm] at hbytes
    cases hbytes
    exact hm

/-- A job that neither touches streams nor sends anything. -/
theorem Right.effect_of_alike (h : m.Right) (hpage : m.page? ok job = none)
    (hpending : ∀ c, (m.noted job ok c).pending = m.pending) (hc : Alike m.client c) :
    m.Effect job ok c := by
  have heffect : m.Effect job ok (m.client.posted none) :=
    h.effect_of_posted hpage hpending nofun
  exact heffect.alike hc

theorem Alike.refl (c : Client) : Alike c c := ⟨⟨rfl, rfl, rfl⟩, rfl, rfl, id⟩

/-- A freed token that is taken, or is refused. -/
theorem Right.effect_free (h : m.Right) (t : Token) (called : Nat) :
    m.Effect (.free t called)
      (Step.succeeded (Client.onFrees (FreeStream.append t) m.client))
      (Step.final (Client.onFrees (FreeStream.append t) m.client)) := by
  have hsame (frees : FreeStream) : m.client.SameStreams { m.client with frees } := ⟨rfl, rfl, rfl⟩
  have heffect (ok : Bool) {frees : FreeStream}
      (hfrees : frees.Holds ((m.noted (.free t called) ok { m.client with frees }).pending.map
        (·.token))) :
      m.Effect (.free t called) ok (({ m.client with frees } : Client).posted none) :=
    .posted (.same (hsame frees)) hfrees rfl id nofun
  have hresult : Client.onFrees (FreeStream.append t) m.client =
      match FreeStream.append t m.client.frees with
      | .ok a frees => .ok a { m.client with frees }
      | .error e frees => .error e { m.client with frees } := by
    cases happend : FreeStream.append t m.client.frees <;> simp only [Client.onFrees, happend]
  rw [hresult]
  cases hclosed : m.client.frees.closed with
  | true =>
    rw [FreeStream.append_of_closed hclosed]
    exact heffect false h.frees
  | false =>
    rcases FreeStream.append_of_holds h.frees hclosed t with ⟨frees, happend, hholds, -⟩ | happend
    · rw [happend]
      refine heffect true ?_
      simp only [noted, if_true, List.map_append]
      exact hholds
    · rw [happend]
      exact heffect false h.frees

/-- The freed tokens that are held back are sent, whether or not more of them will be taken. -/
theorem effect_sealFrees {frees : FreeStream}
    (hfrees : frees.Holds (m.pending.map (·.token))) (occasion : Occasion) (since : Nat) :
    m.Effect (.sealFrees occasion since)
      (Step.succeeded (Client.sealFrees { m.client with frees }))
      (Step.final (Client.sealFrees { m.client with frees })) := by
  obtain ⟨htake, hempty, -⟩ := FreeStream.take_of_holds hfrees
  obtain ⟨frame, hfinal, hframe⟩ := (Client.sealFrees_sends { m.client with frees }).final
  rw [hfinal]
  refine .posted (.same ⟨rfl, rfl, rfl⟩) hempty rfl id fun bs hbs => ?_
  have hbytes := (hframe bs hbs).1
  have htokens : frees.take.1 = .ok (some bs) := hbytes
  rw [htake] at htokens
  split at htokens
  · cases htokens
  · cases hm : (Message.objectFree (m.pending.map (·.token))).toBytes with
    | error e =>
      rw [hm] at htokens
      cases htokens
    | ok bs' =>
      rw [hm] at htokens
      cases htokens
      exact hm

/-- A method is announced, if it is new and has a number. -/
private theorem Right.effect_register (h : m.Right) (parts : Parts) (thread : ThreadId)
    (name : String) :
    m.Effect (.register name)
      (Step.succeeded ((Job.register name).perform parts thread m.clock m.client))
      (Step.final ((Job.register name).perform parts thread m.clock m.client)) := by
  have hquiet (ok : Bool) : m.Effect (.register name) ok m.client :=
    h.effect_of_alike rfl (fun _ => rfl) (.refl m.client)
  have htold : m.Effect (.register name) _ _ :=
    h.effect_of_told (fun _ => rfl) (fun _ _ => rfl) fun _ => rfl
  rw [Job.perform, Step.get_bind, MethodTable.register]
  cases m.client.methods.find? name with
  | some id => exact hquiet true
  | none =>
    by_cases hmany : m.client.methods.count ≥ MethodTable.maxId
    · simp only [if_pos hmany]
      exact hquiet false
    · simp only [if_neg hmany]
      cases hsend : Client.enqueueMessage
          (.registerMethod (.ofNat (m.client.methods.count + 1)) name) m.client with
      | ok a c' =>
        rw [hsend] at htold
        rw [bind_assoc, Step.bind_of_ok hsend]
        exact htold.alike ⟨⟨rfl, rfl, rfl⟩, rfl, rfl, id⟩
      | error e c' =>
        rw [hsend] at htold
        rw [bind_assoc, Step.bind_of_error hsend]
        exact htold

/-- A thread that has no stream gets one. -/
private theorem Right.effect_obtain (h : m.Right) (thread : ThreadId)
    (hpage : m.page? ok job = none) (hpending : ∀ c, (m.noted job ok c).pending = m.pending)
    {ref : StreamRef} (hobtain : Client.obtain thread m.client = .ok ref c) :
    m.Effect job ok c := by
  have hquiet : m.Effect job ok m.client := h.effect_of_alike hpage hpending (.refl m.client)
  cases hstream : m.client.streamOf[thread]? with
  | some p =>
    cases hobtain.symm.trans (Client.obtain_of_some hstream)
    exact hquiet
  | none =>
    cases hobtain.symm.trans (Client.obtain_of_none hstream)
    have hheld (c : Client) : (m.noted job ok c).held = m.held := by simp only [noted, hpage]
    exact {
      shift := by
        rw [hheld]
        exact .obtain thread hstream ⟨rfl, rfl, rfl⟩
      frees := by
        rw [hpending]
        exact h.frees
      frames := ⟨none, (List.append_nil _).symm, nofun⟩
      closed := id }

/-- The stream of a thread is taken away from it, if it has one. -/
private theorem Right.effect_detach (h : m.Right) (thread : ThreadId)
    (hpage : m.page? ok job = none) (hpending : ∀ c, (m.noted job ok c).pending = m.pending)
    {ref : Option StreamRef} (hdetach : Client.detach thread m.client = .ok ref c) :
    m.Effect job ok c := by
  have hquiet : m.Effect job ok m.client := h.effect_of_alike hpage hpending (.refl m.client)
  cases hstream : m.client.streamOf[thread]? with
  | none =>
    cases hdetach.symm.trans (Client.detach_of_none hstream)
    exact hquiet
  | some p =>
    cases hdetach.symm.trans (Client.detach_of_some hstream)
    have hheld (c : Client) : (m.noted job ok c).held = m.held := by simp only [noted, hpage]
    exact {
      shift := by
        rw [hheld]
        exact .detach thread ⟨rfl, rfl, rfl⟩
      frees := by
        rw [hpending]
        exact h.frees
      frames := ⟨none, (List.append_nil _).symm, nofun⟩
      closed := id }

/-! ### Every job -/

/-- **Each job has its effect.** -/
theorem Right.effect_perform (h : m.Right) (parts : Parts) (thread : ThreadId)
    (hfits : job.Fits m.client) :
    m.Effect job (Step.succeeded (job.perform parts thread m.clock m.client))
      (Step.final (job.perform parts thread m.clock m.client)) := by
  have hsize := h.streams.placed.size_shared
  have hquiet {job : Job} (ok : Bool) (hpage : m.page? ok job = none)
      (hpending : ∀ c, (m.noted job ok c).pending = m.pending) : m.Effect job ok m.client :=
    h.effect_of_alike hpage hpending (.refl m.client)
  cases job with
  | append ref b r =>
    rw [Job.perform, Step.succeeded_bind_pure, Step.final_bind_pure]
    exact h.effect_append hfits.1 hfits.2
  | post message =>
    rw [Job.perform, Step.succeeded_bind_pure, Step.final_bind_pure]
    exact h.effect_of_told (fun _ => rfl) (fun _ _ => rfl) (fun _ => rfl)
  | tellEnd ref =>
    rw [Job.perform, Step.get_bind, Step.succeeded_bind_pure, Step.final_bind_pure]
    exact h.effect_of_told (fun _ => rfl) (fun _ _ => rfl) (fun _ => rfl)
  | «seal» ref =>
    obtain ⟨-, -, hgate⟩ := RecordStream.take_of_holds (h.streams.holds ref)
    rw [Job.perform, Step.succeeded_bind_pure, Step.final_bind_pure]
    exact h.effect_of_sends hfits (fun _ => rfl) (fun _ _ => rfl) hgate.ordering
      (fun hclosed => hgate.closed.trans hclosed) (RecordStream.batch_take _)
      (Client.sealStream_sends ref m.client)
  | close ref =>
    obtain ⟨-, -, hgate⟩ := RecordStream.take_of_holds (h.streams.holds ref)
    rw [Job.perform, Step.succeeded_bind_pure, Step.final_bind_pure]
    exact h.effect_of_sends hfits (fun _ => rfl) (fun _ _ => rfl)
      (s := { (m.client.stream ref).take.2 with closed := true }) hgate.ordering (fun _ => rfl)
      (RecordStream.batch_take _) (Client.closeStream_sends hsize hfits)
  | visit other ref =>
    rw [Job.perform, Step.get_bind]
    cases horphaned : (m.client.stream ref).orphaned with
    | true =>
      -- Only the thread is to lose its stream; what it holds is sent later.
      have hheld : (m.noted (.visit other ref) true m.client).held = m.held := by
        simp only [noted, page?, page_of_holds (h.streams.holds ref), Function.update_eq_self]
      exact {
        shift := by
          change Shift m.clock m.client m.held m.client (m.noted _ true m.client).held
          rw [hheld]
          exact .same ⟨rfl, rfl, rfl⟩
        frees := h.frees
        frames := ⟨none, (List.append_nil _).symm, fun _ h => by cases h⟩
        closed := id }
    | false =>
      obtain ⟨-, -, hgate⟩ := RecordStream.take_of_holds (h.streams.holds ref)
      have href : m.client.Has ref := by
        obtain ⟨p, rfl, hp, -⟩ := hfits
        exact hp
      simp only [Bool.false_eq_true, if_false]
      rw [Step.succeeded_bind_pure, Step.final_bind_pure]
      exact h.effect_of_sends href (fun _ => rfl) (fun _ _ => rfl) hgate.ordering
        (fun hclosed => hgate.closed.trans hclosed) (RecordStream.batch_take _)
        (Client.sealStream_sends ref m.client)
  | sealFrees occasion since =>
    have hfrees : ({ m.client.frees with closed := true } : FreeStream).Holds
      (m.pending.map (·.token)) := h.frees
    by_cases hend : occasion = .shutdown
    · rw [Job.perform, if_pos hend, Step.modify_bind, Step.succeeded_bind_pure,
        Step.final_bind_pure]
      exact effect_sealFrees hfrees occasion since
    · have hperform : (Job.sealFrees occasion since).perform parts thread m.clock =
          (do Client.sealFrees; return []) := by
        rw [Job.perform, if_neg hend]
      rw [hperform, Step.succeeded_bind_pure, Step.final_bind_pure]
      exact effect_sealFrees h.frees occasion since
  | free t called =>
    have heffect := h.effect_free t called
    rw [Job.perform]
    cases happend : Client.onFrees (FreeStream.append t) m.client with
    | ok a c' =>
      rw [happend] at heffect
      rw [Step.bind_of_ok happend]
      exact heffect
    | error e c' =>
      rw [happend] at heffect
      rw [Step.bind_of_error happend]
      exact heffect
  | check request called =>
    rw [Job.perform, Step.succeeded_bind_pure, Step.final_bind_pure, Client.ensureOpen,
      Step.get_bind]
    cases m.client.closed <;> exact hquiet _ rfl fun _ => rfl
  | known id =>
    rw [Job.perform, Step.get_bind]
    cases m.client.methods.contains id <;> exact hquiet _ rfl fun _ => rfl
  | register name => exact h.effect_register parts thread name
  | finish w r =>
    rw [Job.perform]
    cases w.fault with
    | some e => exact hquiet false rfl fun _ => rfl
    | none =>
      cases w.ordering with
      | none =>
        obtain ⟨ref, c, hobtain⟩ := Client.exists_obtain thread m.client
        simp only [Step.bind_of_ok hobtain]
        exact h.effect_obtain thread rfl (fun _ => rfl) hobtain
      | some i =>
        simp only [Step.get_bind]
        cases m.client.streamOf? thread <;> exact hquiet true rfl fun _ => rfl
  | beginEnd =>
    rw [Job.perform, Step.get_bind]
    cases m.client.ending with
    | true => exact hquiet true rfl fun _ => rfl
    | false => exact h.effect_of_alike rfl (fun _ => rfl) ⟨⟨rfl, rfl, rfl⟩, rfl, rfl, fun _ => rfl⟩
  | sealAll occasion =>
    rw [Job.perform, Job.lookUp, Step.get_bind]
    split <;> exact hquiet true rfl fun _ => rfl
  | collect occasion part found since =>
    rw [Job.perform, Job.lookUp, Step.get_bind]
    split <;> exact hquiet true rfl fun _ => rfl
  | detach other =>
    obtain ⟨ref, c, hdetach⟩ : ∃ ref c, Client.detach other m.client = .ok ref c := by
      unfold Client.detach
      cases m.client.streamOf? other <;> exact ⟨_, _, rfl⟩
    rw [Job.perform, Step.bind_of_ok hdetach]
    cases ref <;> exact h.effect_detach other rfl (fun _ => rfl) hdetach
  | closeOutbox => exact h.effect_of_alike rfl (fun _ => rfl) ⟨⟨rfl, rfl, rfl⟩, rfl, rfl, id⟩

end Machine

end TraceRelay
