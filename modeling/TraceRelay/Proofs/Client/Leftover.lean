import TraceRelay.Proofs.Client.Calls
import TraceRelay.Proofs.Client.Performed

/-!
# What jobs leave to do

A job that was done may leave others to do: a stream was found that a record goes to, or all streams
that are to be sent. What is left can be done as well, whatever other threads do in between.

## Main definitions

* `Job.Leaves` : what is left of a job, and what the client was like.
* `Job.Stems` : how a job is related to one that is left of it.
* `Job.Precedes` : one job may stand before another.

## Main results

* `Job.leaves_perform` : what is left of a job that was done.
* `Job.Fits.shift`, `Job.Leaves.fits` : jobs can be done that other jobs leave.
* `Job.Leaves.stems` : what is left of a job is related to it.
* `Job.Leaves.pairwise` : jobs stay in order.
-/

namespace TraceRelay

/-! ### What jobs rely on -/

theorem Shift.has {now : Nat} {c c' : Client} {held held' : StreamRef → List Accepted}
    (h : Shift now c held c' held') {ref : StreamRef} (href : c.Has ref) : c'.Has ref := by
  cases h with
  | same hc | detach _ hc => exact (hc.has ref).2 href
  | set hc => exact (hc.has ref).2 ((Client.has_setStream ..).2 href)
  | obtain thread _ hc => exact (hc.has ref).2 (Client.has_push.2 (.inl href))

/-- A stream does not go from one thread to another. -/
theorem Shift.owner {now : Nat} {c c' : Client} {held held' : StreamRef → List Accepted}
    (h : Shift now c held c' held') {p : Nat} (hp : p < c.own.size) {t : ThreadId}
    (ht : c'.streamOf[t]? = some p) : c.streamOf[t]? = some p := by
  cases h with
  | same hc => rwa [hc.streamOf] at ht
  | set hc => rwa [hc.streamOf, Client.streamOf_setStream] at ht
  | obtain thread _ hc =>
    rw [hc.streamOf, getElem?_insert] at ht
    split at ht
    · cases ht
      exact absurd hp (Nat.lt_irrefl _)
    · exact ht
  | detach thread hc =>
    rw [hc.streamOf, getElem?_erase] at ht
    split at ht
    · cases ht
    · exact ht

theorem Client.Owns.shift {now : Nat} {c c' : Client} {held held' : StreamRef → List Accepted}
    {thread : ThreadId} {ref : StreamRef} (h : c.Owns thread ref)
    (hshift : Shift now c held c' held') : c'.Owns thread ref := by
  obtain ⟨p, rfl, hp, howner⟩ := h
  have hthere : c'.Has (.own p) := hshift.has hp
  exact ⟨p, rfl, hthere, fun t ht => howner t (hshift.owner hp ht)⟩

theorem Job.Fits.shift {now : Nat} {c c' : Client} {held held' : StreamRef → List Accepted}
    {job : Job} (h : job.Fits c) (hshift : Shift now c held c' held') : job.Fits c' := by
  cases job with
  | append ref b r => exact ⟨hshift.has h.1, h.2⟩
  | collect occasion part found since => exact fun entry hentry => (h entry hentry).shift hshift
  | visit thread ref => exact Client.Owns.shift h hshift
  | «seal» ref | close ref | tellEnd ref => exact hshift.has h
  | _ => exact h

theorem Client.Owns.has {c : Client} {thread : ThreadId} {ref : StreamRef}
    (h : c.Owns thread ref) : c.Has ref := by
  obtain ⟨p, rfl, hp, -⟩ := h
  exact hp

/-- The thread that has a stream is the only one that has it. -/
theorem Client.Placed.owns {c : Client} (h : c.Placed) {thread : ThreadId} {p : Nat}
    (hp : c.streamOf[thread]? = some p) : c.Owns thread (.own p) :=
  ⟨p, rfl, h.inRange thread p hp, fun t ht => h.single t thread p ht hp⟩

namespace Job

/-- What is left of a job that was done, and what the client was like. -/
inductive Leaves (parts : Parts) (thread : ThreadId) (now : Nat) (c c' : Client) :
    Job → List Job → Prop
  | registered (name : String) : Leaves parts thread now c c' (.register name) []
  | known (id : MethodId) : Leaves parts thread now c c' (.known id) []
  | appended (ref : StreamRef) (b : RecordBuilder) (r : Record) :
    Leaves parts thread now c c' (.append ref b r) []
  | posted (m : Message) : Leaves parts thread now c c' (.post m) []
  | told (ref : StreamRef) : Leaves parts thread now c c' (.tellEnd ref) []
  | sentFrees (occasion : Occasion) (since : Nat) :
    Leaves parts thread now c c' (.sealFrees occasion since) []
  | closedOutbox : Leaves parts thread now c c' .closeOutbox []
  | passed (request : Request) (called : Nat) (hopen : c.closed = false) :
    Leaves parts thread now c c' (.check request called) (request.rest thread called)
  | found (w : EventWriter) (r : Record) (hfault : w.fault = none) {ref : StreamRef}
    (href : c'.Has ref) : Leaves parts thread now c c' (.finish w r) [.append ref w.record r]
  /-- The records on the stream of the thread are to be sent before the record goes to another. -/
  | foundShared (w : EventWriter) (r : Record) (hfault : w.fault = none) {ref : StreamRef}
    (href : c'.Has ref) (i : UInt8) :
    Leaves parts thread now c c' (.finish w r) [.seal ref, .append (.shared i) w.record r]
  | freed (t : Token) (called : Nat) : Leaves parts thread now c c' (.free t called) []
  | full (t : Token) (called : Nat) :
    Leaves parts thread now c c' (.free t called) [.sealAll .full]
  | endedBefore : Leaves parts thread now c c' .beginEnd []
  | ends (hclosed : c'.closed = true) : Leaves parts thread now c c' .beginEnd
      [.sealAll .shutdown, .post .close, .closeOutbox]
  | looksUp (occasion : Occasion) {more : List Job}
    (h : lookUp parts occasion 0 [] now c = .ok more c') :
    Leaves parts thread now c c' (.sealAll occasion) more
  | looksOn (occasion : Occasion) (part : Nat) (found : List (ThreadId × StreamRef)) (since : Nat)
    {more : List Job} (h : lookUp parts occasion part found since c = .ok more c') :
    Leaves parts thread now c c' (.collect occasion part found since) more
  | visited (other : ThreadId) (ref : StreamRef)
    (h : Client.sealStream ref c = .ok ⟨⟩ c') : Leaves parts thread now c c' (.visit other ref) []
  | orphaned (other : ThreadId) (ref : StreamRef) (hc : c' = c) :
    Leaves parts thread now c c' (.visit other ref) [.detach other]
  | sealed (ref : StreamRef) (h : Client.sealStream ref c = .ok ⟨⟩ c') :
    Leaves parts thread now c c' (.seal ref) []
  | closed (ref : StreamRef) (h : Client.closeStream ref c = .ok ⟨⟩ c') :
    Leaves parts thread now c c' (.close ref) []
  | detachedBefore (other : ThreadId) (hnone : c.streamOf[other]? = none) :
    Leaves parts thread now c c' (.detach other) []
  | detached (other : ThreadId) {p : Nat} (hsome : c.streamOf[other]? = some p)
    (hown : c'.own = c.own) :
    Leaves parts thread now c c' (.detach other) [.close (.own p), .tellEnd (.own p)]

variable {parts : Parts} {thread : ThreadId} {now : Nat} {c c' : Client} {job : Job}
  {more : List Job}

private theorem of_bind_nil {m : EStateM ClientError Client Unit}
    (h : (m >>= fun _ => pure []) c = .ok more c') : more = [] ∧ m c = .ok ⟨⟩ c' := by
  obtain ⟨a, d, hm, hpure⟩ := Step.bind_eq_ok_iff.1 h
  obtain ⟨rfl, rfl⟩ := Step.pure_eq_ok_iff.1 hpure
  exact ⟨rfl, hm⟩

private theorem leaves_finish (hplaced : c.Placed) (w : EventWriter) (r : Record)
    (h : (Job.finish w r).perform parts thread now c = .ok more c') :
    Leaves parts thread now c c' (.finish w r) more := by
  rw [perform] at h
  cases hfault : w.fault with
  | some e =>
    rw [hfault] at h
    cases h
  | none =>
    cases hordering : w.ordering with
    | none =>
      rw [hfault, hordering] at h
      obtain ⟨ref, d, hobtain, hpure⟩ := Step.bind_eq_ok_iff.1 h
      obtain ⟨rfl, rfl⟩ := Step.pure_eq_ok_iff.1 hpure
      refine .found w r hfault ?_
      cases hstream : c.streamOf[thread]? with
      | some p =>
        cases hobtain.symm.trans (Client.obtain_of_some hstream)
        exact hplaced.inRange thread p hstream
      | none =>
        cases hobtain.symm.trans (Client.obtain_of_none hstream)
        exact Client.has_push.2 (.inr rfl)
    | some i =>
      rw [hfault, hordering] at h
      simp only [Step.get_bind, Client.streamOf?] at h
      cases hstream : c.streamOf[thread]? with
      | some p =>
        rw [hstream] at h
        cases h
        have href : c.Has (.own p) := hplaced.inRange thread p hstream
        exact .foundShared w r hfault href i
      | none =>
        rw [hstream] at h
        cases h
        exact .found w r hfault trivial

/-- **What is left of a job.** -/
theorem leaves_perform (hplaced : c.Placed)
    (h : job.perform parts thread now c = .ok more c') : Leaves parts thread now c c' job more := by
  cases job with
  | check request called =>
    obtain ⟨a, d, hopen, hpure⟩ := Step.bind_eq_ok_iff.1 h
    obtain ⟨rfl, rfl⟩ := Step.pure_eq_ok_iff.1 hpure
    refine .passed request called ?_
    cases hclosed : c.closed with
    | false => rfl
    | true => cases hopen.symm.trans (Client.ensureOpen_of_closed hclosed)
  | register name =>
    rw [perform, Step.get_bind] at h
    obtain ⟨a, d, -, hrest⟩ := Step.bind_eq_ok_iff.1 h
    cases hrest
    exact .registered name
  | known id =>
    rw [perform, Step.get_bind] at h
    split at h
    · cases h
      exact .known id
    · cases h
  | finish w r => exact leaves_finish hplaced w r h
  | append ref b r =>
    obtain ⟨rfl, -⟩ := of_bind_nil h
    exact .appended ref b r
  | post m =>
    obtain ⟨rfl, -⟩ := of_bind_nil h
    exact .posted m
  | free t called =>
    rw [perform] at h
    obtain ⟨a, d, -, hrest⟩ := Step.bind_eq_ok_iff.1 h
    rw [Step.get_bind] at hrest
    obtain ⟨rfl, rfl⟩ := Step.pure_eq_ok_iff.1 hrest
    split
    · exact .full t called
    · exact .freed t called
  | beginEnd =>
    rw [perform, Step.get_bind] at h
    split at h
    · cases h
      exact .endedBefore
    · cases h
      exact .ends rfl
  | sealAll occasion => exact .looksUp occasion h
  | collect occasion part found since => exact .looksOn occasion part found since h
  | visit other ref =>
    rw [perform, Step.get_bind] at h
    split at h
    · cases h
      exact .orphaned other ref rfl
    · obtain ⟨rfl, hseal⟩ := of_bind_nil h
      exact .visited other ref hseal
  | «seal» ref =>
    obtain ⟨rfl, hseal⟩ := of_bind_nil h
    exact .sealed ref hseal
  | close ref =>
    obtain ⟨rfl, hclose⟩ := of_bind_nil h
    exact .closed ref hclose
  | detach other =>
    rw [perform] at h
    obtain ⟨ref, d, hdetach, hrest⟩ := Step.bind_eq_ok_iff.1 h
    cases hstream : c.streamOf[other]? with
    | none =>
      cases hdetach.symm.trans (Client.detach_of_none hstream)
      cases hrest
      exact .detachedBefore other hstream
    | some p =>
      cases hdetach.symm.trans (Client.detach_of_some hstream)
      cases hrest
      exact .detached other hstream rfl
  | tellEnd ref =>
    rw [perform, Step.get_bind] at h
    obtain ⟨rfl, -⟩ := of_bind_nil h
    exact .told ref
  | sealFrees occasion since =>
    rw [perform] at h
    split at h
    · rw [Step.modify_bind] at h
      obtain ⟨rfl, -⟩ := of_bind_nil h
      exact .sentFrees occasion since
    · obtain ⟨rfl, -⟩ := of_bind_nil h
      exact .sentFrees occasion since
  | closeOutbox =>
    cases h
    exact .closedOutbox

/-- The streams of a part were found, and either there is another part to look at, or all streams
that were found are to be sent. -/
theorem lookUp_cases {occasion : Occasion} {part since : Nat} {found : List (ThreadId × StreamRef)}
    (h : lookUp parts occasion part found since c = .ok more c') :
    c' = c ∧ ∃ found', found' =
        found ++ c.ownRefs.filter (fun entry => (parts.of entry.1).val == part) ∧
      (part + 1 < parts.count ∧ more = [.collect occasion (part + 1) found' since] ∨
        parts.count ≤ part + 1 ∧
          more = visits found' occasion ++ [.sealFrees occasion since]) := by
  rw [lookUp, Step.get_bind] at h
  split at h
  · next hnext =>
    cases h
    exact ⟨rfl, _, rfl, .inl ⟨hnext, rfl⟩⟩
  · next hlast =>
    cases h
    exact ⟨rfl, _, rfl, .inr ⟨Nat.le_of_not_lt hlast, rfl⟩⟩

/-! ### What is left can be done -/

/-- A record that was begun and given arguments is the one that was written. -/
private theorem fits_finish (id : MethodId) (ordering : Option UInt8) (args : List Value) :
    (Job.finish (.given id ordering args) ⟨id, args⟩).Fits c := by
  have hstart : RecordBuilder.Holds (.start id) ⟨id, []⟩ := RecordBuilder.holds_start id
  exact (EventWriter.foldl_send_of_holds (w := { record := .start id, ordering }) (fun _ => hstart)
    args).1

/-- What a request asks for can be done. -/
theorem fits_rest (thread : ThreadId) (called : Nat) (request : Request) (c : Client) :
    ∀ next ∈ request.rest thread called, next.Fits c := by
  cases request with
  | finish id ordering args => exact List.forall_mem_singleton.2 (fits_finish id ordering args)
  | dispatch id args =>
    exact List.forall_mem_cons.2 ⟨trivial, List.forall_mem_singleton.2 (fits_finish id none args)⟩
  | classInfo info | stringInfo subject text | threadInfo info =>
    exact List.forall_mem_singleton.2 rfl
  | _ => exact List.forall_mem_singleton.2 trivial

theorem fits_jobs (thread : ThreadId) (called : Nat) (request : Request) (c : Client) :
    ∀ next ∈ request.jobs thread called, next.Fits c := by
  cases request with
  | finish id ordering args => exact fits_rest thread called (.finish id ordering args) c
  | shutdown => exact fits_rest thread called .shutdown c
  | _ => exact List.forall_mem_singleton.2 trivial

/-- What is to be done with streams that belong to their threads can be done. -/
private theorem fits_visits {found : List (ThreadId × StreamRef)}
    (hfound : ∀ entry ∈ found, c.Owns entry.1 entry.2) (occasion : Occasion) :
    ∀ next ∈ visits found occasion, next.Fits c := by
  have hmap {α : Type} {f : α → Job} {as : List α} (hf : ∀ a ∈ as, (f a).Fits c) :
      ∀ next ∈ as.map f, next.Fits c := by
    intro next hnext
    obtain ⟨a, ha, rfl⟩ := List.mem_map.1 hnext
    exact hf a ha
  have hshared : ∀ ref ∈ Client.sharedRefs, c.Has ref := by
    intro ref href
    obtain ⟨i, -, rfl⟩ := List.mem_map.1 href
    trivial
  cases occasion with
  | shutdown => exact List.forall_mem_append.2 ⟨hmap fun e he => (hfound e he).has, hmap hshared⟩
  | full | flush => exact List.forall_mem_append.2 ⟨hmap hfound, hmap hshared⟩

private theorem fits_lookUp (hplaced : c.Placed) {occasion : Occasion} {part since : Nat}
    {found : List (ThreadId × StreamRef)} (hfound : ∀ entry ∈ found, c.Owns entry.1 entry.2)
    (h : lookUp parts occasion part found since c = .ok more c') :
    ∀ next ∈ more, next.Fits c' := by
  obtain ⟨rfl, found', hfound', hmore⟩ := lookUp_cases h
  have hall : ∀ entry ∈ found', c'.Owns entry.1 entry.2 := by
    rw [hfound']
    refine List.forall_mem_append.2 ⟨hfound, fun entry hentry => ?_⟩
    obtain ⟨p, href, hp⟩ := Client.mem_ownRefs.1 (List.mem_filter.1 hentry).1
    rw [href]
    exact hplaced.owns hp
  rcases hmore with ⟨-, rfl⟩ | ⟨-, rfl⟩
  · exact List.forall_mem_singleton.2 hall
  · exact List.forall_mem_append.2
      ⟨fits_visits hall occasion, List.forall_mem_singleton.2 trivial⟩

/-- **What is left of a job** can be done as well. -/
theorem Leaves.fits (hplaced : c.Placed) (hfits : job.Fits c)
    (h : Leaves parts thread now c c' job more) : ∀ next ∈ more, next.Fits c' := by
  cases h with
  | passed request called hopen => exact fits_rest thread called request c'
  | found w r hfault href => exact List.forall_mem_singleton.2 ⟨href, hfits hfault⟩
  | foundShared w r hfault href i =>
    exact List.forall_mem_cons.2 ⟨href, List.forall_mem_singleton.2 ⟨trivial, hfits hfault⟩⟩
  | ends hclosed =>
    exact List.forall_mem_cons.2 ⟨trivial, List.forall_mem_cons.2 ⟨rfl,
      List.forall_mem_singleton.2 trivial⟩⟩
  | looksUp occasion h => exact fits_lookUp hplaced (fun _ h => absurd h List.not_mem_nil) h
  | looksOn occasion part found since h => exact fits_lookUp hplaced hfits h
  | @detached other p hsome hown =>
    have href : c'.Has (.own p) := by
      change p < c'.own.size
      rw [hown]
      exact hplaced.inRange other p hsome
    exact List.forall_mem_cons.2 ⟨href, List.forall_mem_singleton.2 href⟩
  | full | orphaned => exact List.forall_mem_singleton.2 trivial
  | _ => exact fun _ h => absurd h List.not_mem_nil

/-! ### Where jobs come from -/

/-- The moment at which the looking up began for frees that will be sent. -/
def since? : Job → Option Nat
  | .collect _ _ _ since | .sealFrees _ since => some since
  | _ => none

/-- Why frees will be sent. -/
def occasion? : Job → Option Occasion
  | .sealAll occasion | .collect occasion .. | .sealFrees occasion _ => some occasion
  | _ => none

/-- When a call was made that is still to be looked at, or that reported a freed object. -/
def called? : Job → Option Nat
  | .check _ called | .free _ called => some called
  | _ => none

/-- Whether a job is to send frees, or may leave one that is. -/
def isRoot : Job → Bool
  | .check .. | .free .. | .beginEnd | .sealAll _ | .collect .. | .sealFrees .. => true
  | _ => false

/-- Whether a job is one of those that end a session after its frees. -/
def isTail : Job → Bool
  | .post _ | .closeOutbox => true
  | _ => false

/-- How a job is related to one that is left of it. -/
inductive Stems (thread : ThreadId) (now : Nat) (c c' : Client) : Job → Job → Prop
  | plain {job next : Job} (h : next.isRoot = false) : Stems thread now c c' job next
  | passed {request : Request} {called : Nat} {next : Job} (hopen : c.closed = false)
    (h : next ∈ request.rest thread called) : Stems thread now c c' (.check request called) next
  | full (t : Token) (called : Nat) : Stems thread now c c' (.free t called) (.sealAll .full)
  | ends (hclosed : c'.closed = true) : Stems thread now c c' .beginEnd (.sealAll .shutdown)
  | looksUp {occasion : Occasion} {next : Job} (hoccasion : next.occasion? = some occasion)
    (hsince : next.since? = some now) (hcalled : next.called? = none) :
    Stems thread now c c' (.sealAll occasion) next
  | looksOn {occasion : Occasion} {part since : Nat} {found : List (ThreadId × StreamRef)}
    {next : Job} (hoccasion : next.occasion? = some occasion) (hsince : next.since? = some since)
    (hcalled : next.called? = none) :
    Stems thread now c c' (.collect occasion part found since) next

/-- One job may stand before another: behind those that send frees there are only those that end
the session. -/
def Precedes (job next : Job) : Prop := job.isRoot = true → next.isTail = true

theorem isRoot_of_mem_visits {found : List (ThreadId × StreamRef)} {occasion : Occasion}
    {next : Job} (h : next ∈ visits found occasion) : next.isRoot = false := by
  cases occasion <;> rcases List.mem_append.1 h with h | h <;>
    obtain ⟨_, -, rfl⟩ := List.mem_map.1 h <;> rfl

private theorem mem_lookUp {occasion : Occasion} {part since : Nat}
    {found : List (ThreadId × StreamRef)}
    (h : lookUp parts occasion part found since c = .ok more c') {next : Job}
    (hnext : next ∈ more) : next.isRoot = false ∨
      next.occasion? = some occasion ∧ next.since? = some since ∧ next.called? = none := by
  obtain ⟨-, found', -, ⟨-, rfl⟩ | ⟨-, rfl⟩⟩ := lookUp_cases h
  · cases List.mem_singleton.1 hnext
    exact .inr ⟨rfl, rfl, rfl⟩
  · rcases List.mem_append.1 hnext with hvisit | hfrees
    · exact .inl (isRoot_of_mem_visits hvisit)
    · cases List.mem_singleton.1 hfrees
      exact .inr ⟨rfl, rfl, rfl⟩

theorem Leaves.stems (h : Leaves parts thread now c c' job more) {next : Job}
    (hnext : next ∈ more) : Stems thread now c c' job next := by
  cases h with
  | passed request called hopen => exact .passed hopen hnext
  | full t called =>
    cases List.mem_singleton.1 hnext
    exact .full t called
  | ends hclosed =>
    rcases List.mem_cons.1 hnext with rfl | hnext
    · exact .ends hclosed
    · rcases List.mem_cons.1 hnext with rfl | hnext
      · exact .plain rfl
      · cases List.mem_singleton.1 hnext
        exact .plain rfl
  | looksUp occasion h =>
    rcases mem_lookUp h hnext with hplain | ⟨hoccasion, hsince, hcalled⟩
    · exact .plain hplain
    · exact .looksUp hoccasion hsince hcalled
  | looksOn occasion part found since h =>
    rcases mem_lookUp h hnext with hplain | ⟨hoccasion, hsince, hcalled⟩
    · exact .plain hplain
    · exact .looksOn hoccasion hsince hcalled
  | found | orphaned =>
    cases List.mem_singleton.1 hnext
    exact .plain rfl
  | foundShared | detached =>
    rcases List.mem_cons.1 hnext with rfl | hnext
    · exact .plain rfl
    · cases List.mem_singleton.1 hnext
      exact .plain rfl
  | _ => exact absurd hnext List.not_mem_nil

/-- A job that does not lead to frees has nothing to do with them. -/
private theorem none_of_plain (h : job.isRoot = false) :
    job.since? = none ∧ job.occasion? = none ∧ job.called? = none := by
  cases job with
  | check | free | beginEnd | sealAll | collect | sealFrees => cases h
  | _ => exact ⟨rfl, rfl, rfl⟩

theorem none_of_tail (h : job.isTail = true) : job.occasion? = none := by
  cases job with
  | post | closeOutbox => rfl
  | _ => cases h

/-- What a request asks for was not looked up, and no session ended with it. -/
private theorem mem_rest {request : Request} {called : Nat} {next : Job}
    (h : next ∈ request.rest thread called) : next.since? = none ∧
      (next.occasion? = none ∨ next.occasion? = some .flush) ∧
      ∀ n, next.called? = some n → n = called := by
  cases request with
  | dispatch id args =>
    rcases List.mem_cons.1 h with rfl | h
    · exact ⟨rfl, .inl rfl, nofun⟩
    · cases List.mem_singleton.1 h
      exact ⟨rfl, .inl rfl, nofun⟩
  | objectFreed t =>
    cases List.mem_singleton.1 h
    exact ⟨rfl, .inl rfl, fun n hn => (Option.some.inj hn).symm⟩
  | flush =>
    cases List.mem_singleton.1 h
    exact ⟨rfl, .inr rfl, nofun⟩
  | _ =>
    cases List.mem_singleton.1 h
    exact ⟨rfl, .inl rfl, nofun⟩

namespace Stems

variable {next : Job} {since : Nat}

/-- Looking up begins now, or goes on. -/
theorem since_eq (h : Stems thread now c c' job next) (hsince : next.since? = some since) :
    job.since? = some since ∨ (∃ occasion, job = .sealAll occasion) ∧ since = now := by
  cases h with
  | plain h => cases (none_of_plain h).1.symm.trans hsince
  | passed hopen h => cases (mem_rest h).1.symm.trans hsince
  | full | ends => cases hsince
  | looksUp hoccasion hnow => exact .inr ⟨⟨_, rfl⟩, Option.some.inj (hsince.symm.trans hnow)⟩
  | looksOn hoccasion hold => exact .inl (hold.symm.trans hsince)

theorem called_eq (h : Stems thread now c c' job next) {n : Nat} (hcalled : next.called? = some n) :
    job.called? = some n := by
  cases h with
  | plain h => cases (none_of_plain h).2.2.symm.trans hcalled
  | passed hopen h => exact congrArg some ((mem_rest h).2.2 n hcalled).symm
  | full | ends => cases hcalled
  | looksUp hoccasion hsince hnone | looksOn hoccasion hsince hnone =>
    cases hnone.symm.trans hcalled

/-- A freed object is reported only while the session is open. -/
theorem opened (h : Stems thread now c c' job next) {t : Token} {n : Nat}
    (hnext : next = .free t n) : c.closed = false := by
  subst hnext
  cases h with
  | plain h => cases h
  | passed hopen h => exact hopen
  | looksUp hoccasion | looksOn hoccasion => cases hoccasion

theorem full_eq (h : Stems thread now c c' job next) (hnext : next.occasion? = some .full) :
    job.occasion? = some .full ∨ ∃ t called, job = .free t called := by
  cases h with
  | plain h => cases (none_of_plain h).2.1.symm.trans hnext
  | passed hopen h =>
    rcases (mem_rest h).2.1 with hnone | hflush
    · cases hnone.symm.trans hnext
    · cases hflush.symm.trans hnext
  | full t called => exact .inr ⟨t, called, rfl⟩
  | ends => cases hnext
  | looksUp hoccasion | looksOn hoccasion => exact .inl (hoccasion.symm.trans hnext)

theorem shutdown_eq (h : Stems thread now c c' job next)
    (hnext : next.occasion? = some .shutdown) :
    job.occasion? = some .shutdown ∨ c'.closed = true ∧ next = .sealAll .shutdown := by
  cases h with
  | plain h => cases (none_of_plain h).2.1.symm.trans hnext
  | passed hopen h =>
    rcases (mem_rest h).2.1 with hnone | hflush
    · cases hnone.symm.trans hnext
    · cases hflush.symm.trans hnext
  | full => cases hnext
  | ends hclosed => exact .inr ⟨hclosed, rfl⟩
  | looksUp hoccasion | looksOn hoccasion => exact .inl (hoccasion.symm.trans hnext)

theorem root (h : Stems thread now c c' job next) (hnext : next.isRoot = true) :
    job.isRoot = true := by
  cases h with
  | plain h => cases h.symm.trans hnext
  | _ => rfl

end Stems

/-! ### The order of jobs -/

private theorem pairwise_of_plain {jobs : List Job} (h : ∀ job ∈ jobs, job.isRoot = false) :
    jobs.Pairwise Precedes :=
  List.pairwise_of_forall_mem_list fun a ha b _ hroot => by cases (h a ha).symm.trans hroot

theorem pairwise_rest (thread : ThreadId) (called : Nat) (request : Request) :
    (request.rest thread called).Pairwise Precedes := by
  cases request with
  | dispatch id args =>
    exact List.pairwise_pair.2 fun hroot => by cases hroot
  | _ => exact List.pairwise_singleton _ _

theorem pairwise_jobs (thread : ThreadId) (called : Nat) (request : Request) :
    (request.jobs thread called).Pairwise Precedes := by
  cases request with
  | finish id ordering args => exact pairwise_rest thread called (.finish id ordering args)
  | shutdown => exact pairwise_rest thread called .shutdown
  | _ => exact List.pairwise_singleton _ _

private theorem pairwise_lookUp {occasion : Occasion} {part since : Nat}
    {found : List (ThreadId × StreamRef)}
    (h : lookUp parts occasion part found since c = .ok more c') : more.Pairwise Precedes := by
  obtain ⟨-, found', -, ⟨-, rfl⟩ | ⟨-, rfl⟩⟩ := lookUp_cases h
  · exact List.pairwise_singleton _ _
  · refine List.pairwise_append.2 ⟨pairwise_of_plain fun job => isRoot_of_mem_visits,
      List.pairwise_singleton _ _, fun a ha b hb hroot => ?_⟩
    cases (isRoot_of_mem_visits ha).symm.trans hroot

private theorem Leaves.pairwise_more (h : Leaves parts thread now c c' job more) :
    more.Pairwise Precedes := by
  cases h with
  | passed request called hopen => exact pairwise_rest thread called request
  | looksUp occasion h => exact pairwise_lookUp h
  | looksOn occasion part found since h => exact pairwise_lookUp h
  | ends hclosed =>
    refine List.pairwise_cons.2 ⟨fun next hnext _ => ?_, List.pairwise_pair.2 fun hroot => ?_⟩
    · rcases List.mem_cons.1 hnext with rfl | hnext
      · rfl
      · cases List.mem_singleton.1 hnext
        rfl
    · cases hroot
  | foundShared | detached => exact List.pairwise_pair.2 fun hroot => by cases hroot
  | found | full | orphaned => exact List.pairwise_singleton _ _
  | _ => exact .nil

/-- What is left of a job stands before what stood behind it. -/
theorem Leaves.pairwise {rest : List Job} (h : Leaves parts thread now c c' job more)
    (hjobs : (job :: rest).Pairwise Precedes) : (more ++ rest).Pairwise Precedes := by
  obtain ⟨hjob, hrest⟩ := List.pairwise_cons.1 hjobs
  exact List.pairwise_append.2 ⟨h.pairwise_more, hrest,
    fun next hnext behind hbehind hroot => hjob behind hbehind ((h.stems hnext).root hroot)⟩

end Job

end TraceRelay
