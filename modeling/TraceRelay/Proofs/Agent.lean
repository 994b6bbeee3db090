import Mathlib.Data.List.Basic
import TraceRelay.Settings.Agent

/-!
# Options and addresses

The options that a text gives have a host that is not empty and starts with no blank. Options with
such a host are given by their address: the number behind its last colon is the port, and all that
stands before it is the host.

## Main definitions

* `AgentOptions.NamesHost` : the hosts that a text can give.

## Main results

* `AgentOptions.namesHost_of_ofText` : the host that a text gives.
* `AgentOptions.ofText_address` : the options that an address gives.
* `AgentOptions.options_through_address` : the two together.
-/

namespace TraceRelay.AgentOptions

/-- A host that is not empty and starts with no blank. -/
def NamesHost (host : String) : Prop := host ≠ "" ∧ ∀ c ∈ host.toList.head?, Text.isBlank c = false

/-- What stands before the last colon, or the usual host if nothing does. -/
theorem namesHost_hostOr {cs : List Char} (h : ∀ c ∈ cs.head?, Text.isBlank c = false) :
    NamesHost (hostOr cs) := by
  unfold hostOr
  cases cs with
  | nil =>
    refine ⟨by decide, ?_⟩
    rintro c ⟨⟩
    decide
  | cons c cs =>
    rw [List.isEmpty_cons, if_neg Bool.false_ne_true]
    refine ⟨fun hempty => ?_, by rwa [String.toList_ofList]⟩
    simpa using congrArg String.toList hempty

theorem namesHost_of_ofText {text : String} {o : AgentOptions} (h : ofText text = .ok o) :
    NamesHost o.host := by
  have hfirst : ∀ c ∈ (Text.trimBlanks text.toList).head?, Text.isBlank c = false :=
    fun _ => Text.head?_trimBlanks
  unfold ofText at h
  dsimp only at h
  generalize Text.trimBlanks text.toList = cs at h hfirst
  cases hsplit : Text.splitLast ':' cs with
  | none =>
    rw [hsplit] at h
    cases h
    exact namesHost_hostOr hfirst
  | some parts =>
    obtain ⟨host, port⟩ := parts
    obtain ⟨rfl, -⟩ := Text.splitLast_eq_some_iff.1 hsplit
    have hhost : ∀ c ∈ host.head?, Text.isBlank c = false := by
      intro c hc
      refine hfirst c ?_
      rw [List.head?_append, Option.mem_def.1 hc]
      rfl
    simp only [hsplit] at h
    split at h
    · cases h
    · cases h
      exact namesHost_hostOr hhost

/-- The digits of a port hold no colon, and the last of them is no blank. -/
private theorem digits_of_port (port : UInt16) :
    ':' ∉ Nat.toDigits 10 port.toNat ∧
      ∃ c, (Nat.toDigits 10 port.toNat).getLast? = some c ∧ Text.isBlank c = false := by
  have hdigit {c : Char} (hc : c ∈ Nat.toDigits 10 port.toNat) : c.isDigit = true :=
    Nat.isDigit_of_mem_toDigits (by decide) (by decide) hc
  refine ⟨fun hcolon => absurd (hdigit hcolon) (by decide), ?_⟩
  have hlast := List.getLast?_eq_some_getLast (Nat.toDigits_ne_nil (n := port.toNat) (b := 10))
  exact ⟨_, hlast, Text.isBlank_of_isDigit (hdigit (List.mem_of_getLast? hlast))⟩

/-- **An address gives the options that it was made of**, whatever colons and blanks its host
holds. -/
theorem ofText_address {o : AgentOptions} (h : NamesHost o.host) : ofText o.address = .ok o := by
  obtain ⟨host, port⟩ := o
  obtain ⟨hsome, hfirst⟩ := h
  obtain ⟨hcolon, last, hlast, hblank⟩ := digits_of_port port
  have haddress : (address ⟨host, port⟩).toList =
      host.toList ++ ':' :: Nat.toDigits 10 port.toNat := by
    simp [address, String.toList_append, Nat.toList_repr, toString]
  have hchars : host.toList ≠ [] := fun hempty => hsome (String.ext hempty)
  have htrim : Text.trimBlanks (address ⟨host, port⟩).toList = (address ⟨host, port⟩).toList := by
    rw [haddress]
    refine Text.trimBlanks_eq_self ?_ ?_
    · obtain ⟨c, cs, hcs⟩ := List.exists_cons_of_ne_nil hchars
      rw [hcs] at hfirst ⊢
      exact hfirst
    · rw [List.getLast?_append, List.getLast?_cons, hlast]
      rintro c hc
      cases hc
      exact hblank
  have hsplit : Text.splitLast ':' (address ⟨host, port⟩).toList =
      some (host.toList, Nat.toDigits 10 port.toNat) := by
    rw [haddress]
    exact Text.splitLast_append hcolon
  have hport : Text.Numeral.read? 65535 (Nat.toDigits 10 port.toNat) = some port.toNat :=
    Text.Numeral.read?_toDigits (Nat.le_of_lt_succ port.toNat_lt)
  have hhost : hostOr host.toList = host := by
    rw [hostOr, List.isEmpty_eq_false_iff.2 hchars, if_neg Bool.false_ne_true, String.ofList_toList]
  simp only [ofText, htrim, hsplit, hport, hhost, UInt16.ofNat_toNat]

/-- **Options pass through their address.** The options that a text gives have a host, and their
address gives the same options again. Any host that is not empty and starts with no blank is taken
from an address as it stands, with any port: what is behind the last colon is the port. -/
theorem options_through_address :
    (∀ (text : String) (o : AgentOptions), ofText text = .ok o →
      o.host ≠ "" ∧ ofText o.address = .ok o) ∧
    ∀ (host : String) (port : UInt16), host ≠ "" →
      (∀ c ∈ host.toList.head?, Text.isBlank c = false) →
      ofText (host ++ ":" ++ toString port.toNat) = .ok ⟨host, port⟩ := by
  refine ⟨fun text o h => ?_, fun host port hsome hfirst => ?_⟩
  · have hhost := namesHost_of_ofText h
    exact ⟨hhost.1, ofText_address hhost⟩
  · exact ofText_address (o := ⟨host, port⟩) ⟨hsome, hfirst⟩

/-- A text with blanks of several kinds around it, colons in the host, and a port with a sign and
leading zeros; and a host with blanks inside. -/
theorem options_through_address_colons :
    let text := "\u2003[fe80::1]:+0080 \t"
    let o : AgentOptions := ⟨"[fe80::1]", 80⟩
    ofText text = .ok o ∧ ofText o.address = .ok o ∧ "a b: " ≠ "" ∧
      ofText ("a b: " ++ ":" ++ toString (65535 : UInt16).toNat) = .ok ⟨"a b: ", 65535⟩ := by
  intro text o
  have htext : ofText text = .ok o := by decide +kernel
  have hsome : "a b: " ≠ "" := by decide
  have hfirst : ∀ c ∈ "a b: ".toList.head?, Text.isBlank c = false := by
    rintro c ⟨⟩
    decide
  exact ⟨htext, (options_through_address.1 text o htext).2, hsome,
    options_through_address.2 "a b: " 65535 hsome hfirst⟩

end TraceRelay.AgentOptions
