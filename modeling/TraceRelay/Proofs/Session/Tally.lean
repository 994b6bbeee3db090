import Mathlib.Algebra.BigOperators.Group.List.Lemmas
import Mathlib.Data.List.Count
import Mathlib.Data.List.Perm.Basic
import Mathlib.Data.String.Basic
import TraceRelay.Proofs.Session.Routes

/-!
# What a session counts

The analysis that counts is installed for a scope and gets all records of a session. It counts a
record under the method that the name of its number has behind the scope. So when the session has
ended well the numbers are those of the names among the records: they say nothing of the order in
which records, objects that went and new names came.

## Main definitions

* `Message.called` : the names under which the records of messages are called.
* `Tally.Counts` : the numbers of calls are those of a list of methods.
* `Host.Tallies` : a host that has counted certain records.

## Main results

* `Tally.Counts.exists_names` : the methods that were called, and their numbers as a text.
* `Tally.Counts.totals_eq` : the text does not tell the order of the calls.
* `Host.Tallies.actAll` : any actions that succeed.
* `Session.run_counts` : a whole session.
-/

namespace TraceRelay

namespace Tally

/-- The numbers of calls are those of a list of methods. -/
def Counts (t : Tally) (methods : List String) : Prop :=
  ∀ m, t.calls[m]? = if m ∈ methods then some (methods.count m) else none

variable {t t' : Tally} {methods methods' : List String}

theorem counts_nil : Counts {} [] := fun _ => rfl

theorem Counts.count (h : t.Counts methods) (m : String) : t.count m = methods.count m := by
  rw [Tally.count, h m]
  split
  · rfl
  next hnot => exact (List.count_eq_zero.2 hnot).symm

theorem Counts.addCall (h : t.Counts methods) (m : String) :
    (t.addCall m).Counts (methods ++ [m]) := by
  intro other
  change (t.calls.insert m (t.count m + 1))[other]? = _
  rw [getElem?_insert, h.count m, h other, List.count_append]
  by_cases hm : other = m
  · subst hm
    simp
  · simp [hm, Ne.symm hm]

/-- **The methods that were called**, in the order of their names, each with its number. -/
theorem Counts.exists_names (h : t.Counts methods) :
    ∃ names : List String, names.Pairwise (· < ·) ∧ (∀ m, m ∈ names ↔ 0 < t.count m) ∧
      t.totals = " & ".intercalate (names.map fun m => s!"{m} {t.count m}") ∧
      (names.map t.count).sum = methods.length := by
  have hmem (m : String) : m ∈ t.calls.keys ↔ m ∈ methods := by
    rw [Std.TreeMap.mem_keys, Std.TreeMap.mem_iff_isSome_getElem?, h m]
    split <;> simp_all
  refine ⟨t.calls.keys, ?_, fun m => ?_, ?_, ?_⟩
  · exact (Std.TreeMap.ordered_keys (t := t.calls)).imp compareOfLessAndEq_eq_lt.1
  · rw [hmem, h.count, List.count_pos_iff]
  · rw [totals, ← Std.TreeMap.map_fst_toList_eq_keys, List.map_map]
    refine congrArg (" & ".intercalate ·) (List.map_congr_left fun entry hentry => ?_)
    have hcount : t.count entry.1 = entry.2 := by
      rw [Tally.count, Std.TreeMap.mem_toList_iff_getElem?_eq_some.1 hentry, Option.getD_some]
    rw [Function.comp_apply, hcount]
  · have hperm : t.calls.keys.Perm methods.dedup := by
      rw [List.perm_ext_iff_of_nodup Std.TreeMap.nodup_keys methods.nodup_dedup]
      exact fun m => (hmem m).trans List.mem_dedup.symm
    calc (t.calls.keys.map t.count).sum
        = (methods.dedup.map t.count).sum := (hperm.map _).sum_eq
      _ = (methods.dedup.map fun m => methods.count m).sum := by
        rw [funext h.count]
      _ = methods.length := List.sum_map_count_dedup_eq_length methods

/-- **The order of the calls does not matter.** -/
theorem Counts.totals_eq (h : t.Counts methods) (h' : t'.Counts methods')
    (hperm : methods.Perm methods') : t.totals = t'.totals := by
  have hsame : t.calls.Equiv t'.calls := by
    refine .of_forall_constGet?_eq fun m => ?_
    rw [h m, h' m, hperm.count_eq]
    simp only [hperm.mem_iff]
  rw [totals, totals, hsame.toList_eq]

end Tally

/-! ### Messages -/

/-- The names under which the records of messages are called: for each record the name that was
announced first for its number, if there is one. -/
def Message.called (ms : List Message) : List (Option String) :=
  (ms.flatMap Message.records).map fun r => (ms.filterMap Message.announces?).lookup r.method

/-- Each record of a message asks for one delivery, in order. -/
theorem Message.records_actions (ms : List Message) :
    ((ms.flatMap Message.actions).filterMap Action.record?).map (·.2) =
      ms.flatMap Message.records := by
  rw [List.filterMap_flatMap, List.map_flatMap]
  refine List.flatMap_congr fun m _ => ?_
  cases m with
  | analyze ordering records =>
    simp [Message.actions, Message.records, List.filterMap_map, Function.comp_def, Action.record?]
  | objectFree tokens =>
    simp [Message.actions, Message.records, List.filterMap_map, Function.comp_def, Action.record?]
  | _ => rfl

/-! ### Hosts -/

namespace Host

/-- A host with no other analysis than the one that counts, for a scope, that has counted certain
records. -/
structure Tallies (scope : String) (rs : List Record) (host : Host Tally) : Prop where
  installed : host.registry.installed = #[⟨scope, Tally.analysis⟩]
  routed : host.registry.Routed
  calls : ∃ methods, host.state.Counts methods ∧
    List.Forall₂ (fun r m => host.boundName? r.method = some (scope ++ "." ++ m)) rs methods
  frees : host.state.frees = host.frees

variable {scope : String} {rs : List Record} {host host' : Host Tally}

theorem tallies_start {registry : Registry Tally} (h : Tally.registry scope = .ok registry)
    (maxFreed : Nat) : Tallies scope [] (.start registry {} maxFreed) where
  installed := by
    cases h
    rfl
  routed := (Registry.Installs.install .empty h).routed
  calls := ⟨[], Tally.counts_nil, .nil⟩
  frees := rfl

theorem Tallies.analyses (h : host.Tallies scope rs) :
    host.registry.analyses = [Tally.analysis] :=
  congrArg (fun installed => installed.toList.map Installed.analysis) h.installed

/-- A record is counted under the method that its number is bound to. -/
theorem Tallies.deliver (h : host.Tallies scope rs) {ordering : UInt64} {r : Record}
    (hok : deliver ordering r host = .ok () host') :
    ∃ m, host.boundName? r.method = some (scope ++ "." ++ m) ∧
      host'.state = host.state.addCall m ∧ host'.frees = host.frees := by
  obtain ⟨b, analysis, args, heap, state, hroute, -, hhandle, rfl⟩ := exists_of_deliver hok
  obtain ⟨hbinding, installed, hposition, rfl⟩ := Registry.route?_eq_some_iff.1 hroute
  obtain ⟨-, -, installed', hposition', hname⟩ := h.routed.binding hbinding
  obtain rfl := Option.some.inj (hposition.symm.trans hposition')
  obtain rfl : installed = ⟨scope, Tally.analysis⟩ := by
    have hmem := Array.mem_of_getElem? hposition
    rwa [h.installed, Array.mem_singleton] at hmem
  cases hhandle
  exact ⟨b.method, (congrArg (Option.map Binding.name) hbinding).trans (congrArg some hname),
    rfl, rfl⟩

/-- No other action counts a call. An object that went is counted by the host and by the only
analysis. -/
theorem Tallies.act_of_none (h : host.Tallies scope rs) {a : Action} (ha : a.record? = none)
    (hok : act a host = .ok () host') :
    host'.state.calls = host.state.calls ∧ host'.state.frees = host'.frees := by
  have hfrees := h.frees
  cases a with
  | deliver => cases ha
  | free t =>
    cases hok
    unfold notifyFree
    dsimp only
    split
    · exact ⟨rfl, hfrees⟩
    · rw [h.analyses]
      exact ⟨rfl, congrArg (· + 1) hfrees⟩
  | bind id name =>
    change Host.bind id name host = _ at hok
    unfold Host.bind at hok
    split at hok <;> cases hok
    exact ⟨rfl, hfrees⟩
  | attach t data =>
    rw [← attach_eq_act, attach] at hok
    split at hok <;> cases hok
    exact ⟨rfl, hfrees⟩

/-- **One action** that succeeds. -/
theorem Tallies.act (h : host.Tallies scope rs) {a : Action} (hok : act a host = .ok () host') :
    host'.Tallies scope (rs ++ a.record?.toList.map (·.2)) := by
  have hkeeps := act_keeps a host
  have hinstalled := installed_act a host
  rw [hok, Step.final] at hkeeps hinstalled
  have hrouted : host'.registry.Routed := by
    rcases hkeeps.1 with hsame | ⟨id, name, -, hbind⟩
    · exact hsame ▸ h.routed
    · exact h.routed.bind hbind
  obtain ⟨methods, hcounts, hmethods⟩ := h.calls
  -- What was counted under a name stays under it, since no number changes its name.
  have hkept {id : MethodId} {name : String} (hbound : host.boundName? id = some name) :
      host'.boundName? id = some name := by
    rw [act_name hok, hbound, Option.some_or]
  have hmethods' := hmethods.imp fun r m => hkept
  cases hrecord : a.record? with
  | none =>
    obtain ⟨hcalls, hfrees⟩ := h.act_of_none hrecord hok
    refine ⟨hinstalled.trans h.installed, hrouted, ⟨methods, fun m => ?_, ?_⟩, hfrees⟩
    · rw [hcalls, hcounts m]
    · simpa using hmethods'
  | some asked =>
    cases a with
    | deliver ordering r =>
      cases hrecord
      obtain ⟨m, hbound, hstate, hfrees⟩ := h.deliver ((deliver_eq_act ..).trans hok)
      refine ⟨hinstalled.trans h.installed, hrouted, ⟨methods ++ [m], ?_, ?_⟩, ?_⟩
      · exact hstate ▸ hcounts.addCall m
      · exact List.rel_append hmethods' (.cons (hkept hbound) .nil)
      · rw [hstate, hfrees]
        exact h.frees
    | free | bind | attach => cases hrecord

/-- The end of the session changes no number. -/
theorem Tallies.notifyExit (h : host.Tallies scope rs) :
    host.notifyExit.2.state = host.state ∧ host.notifyExit.2.frees = host.frees := by
  unfold Host.notifyExit
  split
  · exact ⟨rfl, rfl⟩
  · rw [h.analyses]
    exact ⟨rfl, rfl⟩

/-- **Actions** that succeed. -/
theorem Tallies.actAll (h : host.Tallies scope rs) {as : List Action}
    (hok : actAll as host = .ok () host') :
    host'.Tallies scope (rs ++ (as.filterMap Action.record?).map (·.2)) := by
  induction as generalizing host rs with
  | nil =>
    cases hok
    simpa using h
  | cons a as ih =>
    obtain ⟨⟨⟩, host₁, hfirst, hrest⟩ := Step.bind_eq_ok_iff.mp hok
    have hall := ih (h.act hfirst) hrest
    have hrecords : (a :: as).filterMap Action.record? =
        a.record?.toList ++ as.filterMap Action.record? := by
      rw [List.filterMap_cons]
      cases a.record? <;> rfl
    rwa [hrecords, List.map_append, ← List.append_assoc]

end Host

namespace Session

/-- The names under which the records of a session were called, and the numbers at its end. -/
theorem run_tallies {scope : String} {registry : Registry Tally}
    (hregistry : Tally.registry scope = .ok registry) (maxFrame maxFreed : Nat)
    (arrivals : List (Except TransportError Bytes)) {summary : Summary}
    (hok : ((start registry {} maxFrame maxFreed).run arrivals).1 = .ok summary) :
    ∃ ms es behind, Reading maxFrame (arrived arrivals) ms es behind ∧
      ∃ methods, Message.called ms = methods.map (fun m => some (scope ++ "." ++ m)) ∧
        methods.length = summary.events ∧
        ((start registry {} maxFrame maxFreed).run arrivals).2.host.state.Counts methods ∧
        ((start registry {} maxFrame maxFreed).run arrivals).2.host.state.frees =
          summary.frees := by
  obtain ⟨-, ms, es, behind, hreading, hcases, -⟩ :=
    run_reads registry {} maxFrame maxFreed arrivals
  refine ⟨ms, es, behind, hreading, ?_⟩
  generalize (start registry {} maxFrame maxFreed).run arrivals = ended at hok hcases ⊢
  generalize hpair : (ended.1, ended.2.host) = pair at hcases
  cases hcases with
  | failed => cases hok.symm.trans (congrArg (·.1) hpair)
  | broken => cases hok.symm.trans (congrArg (·.1) hpair)
  | @done host' hacts hend =>
    obtain ⟨hsummary, hhost⟩ := Prod.mk.inj hpair
    cases hok.symm.trans hsummary
    have htallies := (Host.tallies_start hregistry maxFreed).actAll hacts
    have hunbound : (Host.start registry {} maxFreed).boundName? = fun _ => none :=
      funext fun id => congrArg (Option.map Binding.name)
        ((Registry.Installs.install .empty hregistry).binding? id)
    rw [List.nil_append, Message.records_actions] at htallies
    obtain ⟨hstate, hfrees⟩ := htallies.notifyExit
    obtain ⟨methods, hcounts, hmethods⟩ := htallies.calls
    rw [hhost, hstate]
    refine ⟨methods, ?_, hmethods.length_eq.symm, hcounts, htallies.frees.trans hfrees.symm⟩
    have hnames : List.Forall₂ (fun r m => (ms.filterMap Message.announces?).lookup r.method =
        some (scope ++ "." ++ m)) (ms.flatMap Message.records) methods :=
      hmethods.imp fun r m hbound => by
        rwa [Host.actAll_name hacts, hunbound, Option.none_or, Message.binds_actions] at hbound
    rw [Message.called, ← List.forall₂_eq_eq_eq, List.forall₂_map_left_iff,
      List.forall₂_map_right_iff]
    exact hnames

/-- **What a session counts.** A session that has no other analysis than the one that counts, for a
scope, and that ends well has read messages. It has counted each method as often as their records
are called by the name of the scope, a dot and the method, which is the name that their numbers are
bound to. The text of the numbers lists the methods that were called at all, each once and in the
order of their names, and the numbers add up to the records of the summary. The objects that went
are counted as in the summary. A second session whose records are called by the same names, in
whatever order and among whatever other messages, has the same text. -/
theorem run_counts (scope : String) :
    ∃ registry, Tally.registry scope = .ok registry ∧
    ∀ (maxFrame maxFreed : Nat) (arrivals : List (Except TransportError Bytes)) (summary : Summary),
      let ended := (start registry {} maxFrame maxFreed).run arrivals
      let t := ended.2.host.state
      ended.1 = .ok summary →
      ∃ ms es behind, Reading maxFrame (arrived arrivals) ms es behind ∧
        (∀ m, t.count m = (Message.called ms).count (some (scope ++ "." ++ m))) ∧
        (∃ names : List String, names.Pairwise (· < ·) ∧ (∀ m, m ∈ names ↔ 0 < t.count m) ∧
          t.totals = " & ".intercalate (names.map fun m => s!"{m} {t.count m}") ∧
          (names.map t.count).sum = summary.events) ∧
        t.frees = summary.frees ∧
        ∀ (maxFrame' maxFreed' : Nat) (arrivals' : List (Except TransportError Bytes))
          (summary' : Summary) (ms' : List Message) (es' : List Bytes) (behind' : Bytes),
          let ended' := (start registry {} maxFrame' maxFreed').run arrivals'
          ended'.1 = .ok summary' → Reading maxFrame' (arrived arrivals') ms' es' behind' →
          (Message.called ms).Perm (Message.called ms') →
          ended'.2.host.state.totals = t.totals := by
  have hinjective : Function.Injective fun m => some (scope ++ "." ++ m) :=
    fun _ _ heq => (String.append_right_inj _).1 (Option.some.inj heq)
  obtain ⟨registry, hregistry⟩ : ∃ registry, Tally.registry scope = .ok registry := ⟨_, rfl⟩
  refine ⟨registry, hregistry, ?_⟩
  intro maxFrame maxFreed arrivals summary ended t hok
  obtain ⟨ms, es, behind, hreading, methods, hcalled, hlength, hcounts, hfrees⟩ :=
    run_tallies hregistry maxFrame maxFreed arrivals hok
  refine ⟨ms, es, behind, hreading, fun m => ?_, ?_, hfrees, ?_⟩
  · rw [hcalled, List.count_map_of_injective methods _ hinjective]
    exact hcounts.count m
  · rw [← hlength]
    exact hcounts.exists_names
  · intro maxFrame' maxFreed' arrivals' summary' ms' es' behind' ended' hok' hreading' hperm
    obtain ⟨ms₁, _, _, hreading₁, methods', hcalled', -, hcounts', -⟩ :=
      run_tallies hregistry maxFrame' maxFreed' arrivals' hok'
    obtain rfl : ms' = ms₁ := hreading'.eq_acted.trans hreading₁.eq_acted.symm
    rw [hcalled, hcalled', List.map_perm_map_iff hinjective] at hperm
    exact hcounts'.totals_eq hcounts hperm.symm

/-- Two numbers are bound to one name, and an object that a record names goes. -/
def twoNumbers : List Message :=
  [.registerMethod 1 "canvas.draw", .registerMethod 2 "canvas.draw",
    .analyze 256 [⟨1, [.object ⟨5⟩]⟩, ⟨2, []⟩], .objectFree [⟨5⟩], .registerMethod 3 "canvas.add",
    .analyze 256 [⟨3, []⟩], .close]

/-- What is written for these messages. -/
def twoNumbersFrames : List Bytes :=
  [[3, 18, 0, 0, 0, 1, 0, 16, 11, 0, 0, 0, 99, 97, 110, 118, 97, 115, 46, 100, 114, 97, 119],
    [3, 18, 0, 0, 0, 2, 0, 16, 11, 0, 0, 0, 99, 97, 110, 118, 97, 115, 46, 100, 114, 97, 119],
    [1, 27, 0, 0, 0, 0, 1, 0, 0, 0, 0, 0, 0, 2, 0, 0, 0, 1, 0, 1, 32, 5, 0, 0, 0, 0, 0, 0, 0, 2, 0,
      0],
    [2, 12, 0, 0, 0, 1, 0, 0, 0, 5, 0, 0, 0, 0, 0, 0, 0],
    [3, 17, 0, 0, 0, 3, 0, 16, 10, 0, 0, 0, 99, 97, 110, 118, 97, 115, 46, 97, 100, 100],
    [1, 15, 0, 0, 0, 0, 1, 0, 0, 0, 0, 0, 0, 1, 0, 0, 0, 3, 0, 0], [0, 0, 0, 0, 0]]

/-- The same methods are called in another order, each under one number, and nothing goes. -/
def oneNumber : List Message :=
  [.registerMethod 3 "canvas.add", .registerMethod 1 "canvas.draw",
    .analyze 256 [⟨3, []⟩], .analyze 7 [⟨1, []⟩], .analyze 7 [⟨1, []⟩], .close]

/-- What is written for these messages. -/
def oneNumberFrames : List Bytes :=
  (twoNumbersFrames.drop 4).take 1 ++ twoNumbersFrames.take 1 ++ (twoNumbersFrames.drop 5).take 1 ++
    [[1, 15, 0, 0, 0, 7, 0, 0, 0, 0, 0, 0, 0, 1, 0, 0, 0, 1, 0, 0],
      [1, 15, 0, 0, 0, 7, 0, 0, 0, 0, 0, 0, 0, 1, 0, 0, 0, 1, 0, 0], [0, 0, 0, 0, 0]]

theorem reading_twoNumbers :
    Reading 64 twoNumbersFrames.flatten twoNumbers twoNumbersFrames [] := by
  refine .of_close ?_ (by decide) (by decide)
  refine .cons ?_ (.cons ?_ (.cons ?_ (.cons ?_ (.cons ?_ (.cons ?_ (.cons ?_ .nil)))))) <;>
    decide +kernel

theorem reading_oneNumber : Reading 64 oneNumberFrames.flatten oneNumber oneNumberFrames [] := by
  refine .of_close ?_ (by decide) (by decide)
  refine .cons ?_ (.cons ?_ (.cons ?_ (.cons ?_ (.cons ?_ (.cons ?_ .nil))))) <;> decide +kernel

/-- Under either number the method is counted, and the order leaves no trace in the text. -/
theorem run_counts_oneNumber :
    let first := (start Run.canvasRegistry {} 64 8).run [.ok twoNumbersFrames.flatten]
    let second := (start Run.canvasRegistry {} 64 8).run [.ok oneNumberFrames.flatten]
    first.1.isOk ∧ second.1.isOk ∧ first.2.host.state.count "draw" = 2 ∧
      first.2.host.state.count "fill" = 0 ∧
      second.2.host.state.totals = first.2.host.state.totals := by
  have hfirst : ((start Run.canvasRegistry {} 64 8).run [.ok twoNumbersFrames.flatten]).1 = .ok
      { events := 3, frees := 1, registrations := 3, bytes := 142, closedCleanly := true } := by
    decide +kernel
  have hsecond : ((start Run.canvasRegistry {} 64 8).run [.ok oneNumberFrames.flatten]).1 = .ok
      { events := 3, registrations := 2, bytes := 110, closedCleanly := true } := by
    decide +kernel
  obtain ⟨registry, hregistry, hcounts⟩ := run_counts "canvas"
  obtain rfl : Run.canvasRegistry = registry := Except.ok.inj hregistry
  obtain ⟨ms, es, behind, hreading, hcount, -, -, hsame⟩ := hcounts 64 8 _ _ hfirst
  have hbytes (bs : Bytes) : arrived [.ok bs] = bs := List.append_nil _
  rw [hbytes] at hreading
  obtain rfl := hreading.eq_acted.trans reading_twoNumbers.eq_acted.symm
  have hperm : (Message.called twoNumbers).Perm (Message.called oneNumber) := by decide +kernel
  have hdraw : (Message.called twoNumbers).count (some ("canvas" ++ "." ++ "draw")) = 2 := by
    decide +kernel
  have hfill : (Message.called twoNumbers).count (some ("canvas" ++ "." ++ "fill")) = 0 := by
    decide +kernel
  dsimp only
  rw [hfirst, hsecond, hcount, hcount, hdraw, hfill]
  refine ⟨rfl, rfl, rfl, rfl, hsame 64 8 _ _ oneNumber oneNumberFrames [] hsecond ?_ hperm⟩
  rw [hbytes]
  exact reading_oneNumber

end Session

end TraceRelay
