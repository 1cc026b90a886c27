import Ddirc.Lib.Chunks
import Ddirc.Conn.SaslMoves

/-! # When the password is released

The account and password leave the negotiator only in the step that answers `AUTHENTICATE +`, at the
end of an exchange that the server took part in: `sasl` offered, requested, acknowledged, and PLAIN
announced (`Entitled`). `History` carries that exchange along the run, phase by phase. A run without
it does not depend on the credentials at all (`trace_withCredentials`). -/

namespace Ddirc.Conn
open List
open Irc Run
variable {t : List (SaslInput × SaslStep)}

/-- The server offers `sasl` in a `CAP LS` line. -/
def SaslInput.OffersSasl (i : SaslInput) : Prop :=
  ∃ payload, i.IsCap .ls payload ∧ containsCapability payload "sasl"

def SaslInput.IsAck (i : SaslInput) : Prop := ∃ payload, i.IsCap .ack payload

namespace SaslStep

def RequestsSasl (s : SaslStep) : Prop :=
  ∃ text, .cap none .req none (some text) ∈ s.send ∧ "sasl" ∈ Str.split ' ' text

def SendsPlain (s : SaslStep) : Prop := .authenticate "PLAIN" ∈ s.send

/-- An `AUTHENTICATE` line other than the announcement of the mechanism is sent. -/
def SendsPayload (s : SaslStep) : Prop := ∃ text, .authenticate text ∈ s.send ∧ text ≠ "PLAIN"

end SaslStep

/-! ## The exchange that comes before -/

def Requested (t : List (SaslInput × SaslStep)) : Prop :=
  ∃ a b, a ≤ b ∧ At t a (·.1.OffersSasl) ∧ At t b (·.2.RequestsSasl)

/-- `sasl` was offered, then requested, and then a `CAP ACK` answered by `AUTHENTICATE PLAIN`. -/
def Announced (t : List (SaslInput × SaslStep)) : Prop :=
  ∃ a b c, a ≤ b ∧ b < c ∧ At t a (·.1.OffersSasl) ∧ At t b (·.2.RequestsSasl) ∧
    At t c fun x => x.1.IsAck ∧ x.2.SendsPlain

/-- The whole exchange, with the server's `AUTHENTICATE +` as entry `d`. -/
def Entitled (t : List (SaslInput × SaslStep)) (d : Nat) : Prop :=
  ∃ a b c, a ≤ b ∧ b < c ∧ c < d ∧ At t a (·.1.OffersSasl) ∧ At t b (·.2.RequestsSasl) ∧
    At t c (fun x => x.1.IsAck ∧ x.2.SendsPlain) ∧ At t d (·.1.IsChallenge)

theorem Requested.append (h : Requested t) (u) : Requested (t ++ u) := by
  obtain ⟨a, b, hab, ha, hb⟩ := h
  exact ⟨a, b, hab, ha.append u, hb.append u⟩

theorem Announced.append (h : Announced t) (u) : Announced (t ++ u) := by
  obtain ⟨a, b, c, hab, hbc, ha, hb, hc⟩ := h
  exact ⟨a, b, c, hab, hbc, ha.append u, hb.append u, hc.append u⟩

theorem Requested.of_last
    (ha : At (t ++ [x]) a (·.1.OffersSasl)) (hx : x.2.RequestsSasl) : Requested (t ++ [x]) := by
  have hlt := ha.lt_length
  rw [length_append, length_singleton] at hlt
  exact ⟨a, t.length, by omega, ha, At.last t x hx⟩

theorem Requested.announced (h : Requested t) (hx : x.1.IsAck ∧ x.2.SendsPlain) :
    Announced (t ++ [x]) := by
  obtain ⟨a, b, hab, ha, hb⟩ := h
  exact ⟨a, b, t.length, hab, hb.lt_length, ha.append _, hb.append _, At.last t x hx⟩

theorem Announced.entitled (h : Announced (t.take d))
    (hd : At t d (·.1.IsChallenge)) : Entitled t d := by
  obtain ⟨a, b, c, hab, hbc, ha, hb, hc⟩ := h
  have hlt := hc.lt_length
  rw [length_take] at hlt
  exact ⟨a, b, c, hab, hbc, by omega, ha.of_take, hb.of_take, hc.of_take, hd⟩

/-! ## What is sent -/

abbrev plainText [Base64] (account password : String) : List Char :=
  Base64.encode (Str.bytes ("\x00" ++ account ++ "\x00" ++ password))

/-- The arguments are full pieces of the text and then what is left of it, or `+` for nothing. -/
theorem encodePlain_eq_map [Base64] (account password : String) :
    ∃ (full : List (List Char)) (rest : List Char),
      plainText account password = full.flatten ++ rest ∧
      (∀ piece ∈ full, piece.length = authenticateChunk) ∧ rest.length < authenticateChunk ∧
      rest.length % 4 = 0 ∧ encodePlain account password =
        (full.map String.ofList ++ [if rest.isEmpty then "+" else String.ofList rest]).map
          .authenticate := by
  obtain ⟨full, rest, htext, hfull, hrest, hchunks⟩ := Str.chunks_eq_append
    (show 0 < authenticateChunk by decide) (plainText account password)
  have hlength := Base64.length_encode (Str.bytes ("\x00" ++ account ++ "\x00" ++ password))
  refine ⟨full, rest, htext, hfull, ?_, ?_, ?_⟩
  · rw [hrest]
    exact Nat.mod_lt _ (by decide)
  · rw [hrest, Nat.mod_mod_of_dvd _ (by decide), hlength, Nat.mul_mod_left]
  · have hne : (plainText account password).isEmpty = false := by
      have : (Str.bytes ("\x00" ++ account ++ "\x00" ++ password)).length ≠ 0 := by
        simp [Str.bytes, show '\x00'.utf8Size ≠ 0 by decide]
      rw [isEmpty_eq_false_iff, ← length_pos_iff, hlength]
      omega
    have heven : ((plainText account password).length % authenticateChunk == 0) =
        rest.isEmpty := by
      rw [← hrest]
      cases rest <;> rfl
    simp only [encodePlain, hne, heven, hchunks]
    cases rest <;> simp

/-- No piece of the payload reads like the announcement of the mechanism. -/
theorem plain_notMem_encodePlain [Base64] (account password : String) :
    .authenticate "PLAIN" ∉ encodePlain account password := by
  obtain ⟨full, rest, -, hfull, -, hmod, heq⟩ := encodePlain_eq_map account password
  have hlen {l : List Char} (h : String.ofList l = "PLAIN") : l.length = 5 := by
    rw [← String.toList_ofList (l := l), h]
    rfl
  rw [heq]
  intro h
  obtain ⟨arg, harg, heq⟩ := mem_map.1 h
  obtain rfl := Command.authenticate.inj heq
  rcases mem_append.1 harg with harg | harg
  · obtain ⟨piece, hpiece, hplain⟩ := mem_map.1 harg
    have := (hfull piece hpiece).symm.trans (hlen hplain)
    exact absurd this (by decide)
  · have hplain := (mem_singleton.1 harg).symm
    split at hplain
    · exact absurd hplain (by decide)
    · rw [hlen hplain] at hmod
      cases hmod

theorem sendsPayload_encodePlain [Base64] (account password : String) :
    SaslStep.SendsPayload { send := encodePlain account password } := by
  obtain ⟨full, rest, -, -, -, -, heq⟩ := encodePlain_eq_map account password
  have hlast : .authenticate (if rest.isEmpty then "+" else String.ofList rest) ∈
      encodePlain account password := by simp [heq]
  exact ⟨_, hlast, fun hplain => plain_notMem_encodePlain account password (hplain ▸ hlast)⟩

theorem split_join_wanted {n : SaslNegotiator} (hn : n.requestedSasl) :
    Str.split ' ' (Str.join " " n.wanted) = n.wanted := by
  have hblank : ∀ s ∈ "sasl" :: extraCapabilities, ' ' ∉ s.toList := by decide
  refine Str.split_join (by decide) (by simp [SaslNegotiator.wanted, hn]) fun s hs => hblank s ?_
  simp only [SaslNegotiator.wanted, hn, if_true, singleton_append, mem_cons,
    mem_filter] at hs
  exact mem_cons.2 (hs.imp_right And.left)

/-- A list that gained a line has what it had and what the line has. -/
theorem containsCapability_collect (n : SaslNegotiator) (payload wanted : String) :
    containsCapability (n.collect payload) wanted =
      (containsCapability n.offered wanted || containsCapability payload wanted) := by
  simp only [SaslNegotiator.collect]
  split
  next h =>
    obtain h : n.offered = "" := by simpa using h
    simp [h, containsCapability]
  · simp [containsCapability, Str.splitWhitespace_append_space]

namespace SaslNegotiator

/-- The payload was not sent, and the credentials are those the negotiation was given. -/
def Holds (creds : Option Credentials) (t : List (SaslInput × SaslStep)) (n : SaslNegotiator) :
    Prop :=
  n.credentials = creds ∧ ∀ x ∈ t, ¬x.2.SendsPayload

/-- What the trace of a run has shown, for each phase the negotiator can be in. -/
def History (creds : Option Credentials) (t : List (SaslInput × SaslStep)) (n : SaslNegotiator) :
    Prop :=
  match n.state with
  | .new => False
  | .awaitingCapabilities => Holds creds t n ∧
    (containsCapability n.offered "sasl" → ∃ a, At t a (·.1.OffersSasl))
  | .awaitingAck => Holds creds t n ∧ (n.requestedSasl → Requested t)
  | .awaitingChallenge => Holds creds t n ∧ Announced t
  | .awaitingResult => ∃ d, At t d (·.2.SendsPayload)
  | .finished => True

theorem History.init (creds : Option Credentials) : History creds [] (started creds) :=
  ⟨⟨rfl, fun _ h => absurd h not_mem_nil⟩,
    fun h => absurd h (show ¬containsCapability "" "sasl" by decide)⟩

theorem Move.of_sendsPayload (h : Move n i n' s) (hs : s.SendsPayload) :
    n.state = .awaitingChallenge ∧ i.IsChallenge ∧ n'.state = .awaitingResult ∧
      ∃ c, n.credentials = some c ∧ s = { send := encodePlain c.account c.password } := by
  obtain ⟨text, hmem, hne⟩ := hs
  cases h with
  | releases hn hi hc => exact ⟨hn, hi, rfl, _, hc, rfl⟩
  | acked => simp_all [SaslStep.sendOne]
  | _ => simp [SaslStep.nothing, SaslStep.sendOne, SaslStep.finish] at hmem

theorem Move.of_authenticated (h : Move n i n' s) (hs : s.outcome = some .authenticated) :
    n.state = .awaitingResult ∧ i.IsSuccess := by
  cases h with
  | ends _ _ _ ho => exact ho (by simpa [SaslStep.finish] using hs)
  | _ => simp [SaslStep.nothing, SaslStep.sendOne] at hs

theorem Holds.append (h : Holds creds t n) (hc : n'.credentials = n.credentials)
    (hx : ¬x.2.SendsPayload) : Holds creds (t ++ [x]) n' := by
  refine ⟨hc.trans h.1, fun y hy => ?_⟩
  rcases mem_append.1 hy with hy | hy
  · exact h.2 y hy
  · exact mem_singleton.1 hy ▸ hx

theorem History.quiet (H : History creds t n)
    (hx : ¬x.2.SendsPayload) : History creds (t ++ [x]) n := by
  unfold History at H ⊢
  split at H
  · exact H
  · exact ⟨H.1.append rfl hx, fun hc => (H.2 hc).imp fun _ h => h.append _⟩
  · exact ⟨H.1.append rfl hx, fun hr => (H.2 hr).append _⟩
  · exact ⟨H.1.append rfl hx, H.2.append _⟩
  · exact H.imp fun _ h => h.append _
  · exact H

/-- A line added to the list either brings the offer itself or leaves an earlier one standing. -/
theorem offered_collect {n : SaslNegotiator}
    (H : containsCapability n.offered "sasl" → ∃ a, At t a (·.1.OffersSasl))
    (hi : i.IsCap .ls payload) (hc : containsCapability (n.collect payload) "sasl") (s : SaslStep) :
    ∃ a, At (t ++ [(i, s)]) a (·.1.OffersSasl) := by
  rw [containsCapability_collect, Bool.or_eq_true] at hc
  rcases hc with hc | hc
  · obtain ⟨a, ha⟩ := H hc
    exact ⟨a, ha.append _⟩
  · exact ⟨t.length, At.last t (i, s) ⟨payload, hi, hc⟩⟩

theorem History.step (H : History creds t n) (hm : Move n i n' s) :
    History creds (t ++ [(i, s)]) n' := by
  have hsent (hn' : n'.state ≠ .awaitingResult) : ¬s.SendsPayload := fun hp =>
    hn' (hm.of_sendsPayload hp).2.2.1
  cases hm with
  | quiet => exact H.quiet fun h => by simp [SaslStep.SendsPayload, SaslStep.nothing] at h
  | collects hn hi =>
    simp only [History, hn] at H ⊢
    exact ⟨H.1.append rfl (hsent (by simp [hn])), fun hc => offered_collect H.2 hi hc _⟩
  | requests hn hi hs hc _ ho hr =>
    simp only [History, hn] at H
    simp only [History, hs]
    refine ⟨H.1.append hc (hsent (by simp [hs])), fun hreq => ?_⟩
    obtain ⟨a, ha⟩ := offered_collect H.2 hi (ho ▸ (Bool.and_eq_true _ _ ▸ hr ▸ hreq).2) _
    refine Requested.of_last ha ⟨_, mem_singleton_self _, ?_⟩
    rw [split_join_wanted hreq]
    simp [wanted, hreq]
  | acked hn hr hi hs hc =>
    simp only [History, hn] at H
    simp only [History, hs]
    exact ⟨H.1.append hc (hsent (by simp [hs])),
      (H.2 hr).announced ⟨⟨_, hi⟩, mem_singleton_self _⟩⟩
  | releases => exact ⟨t.length, At.last t (i, _) (sendsPayload_encodePlain ..)⟩
  | ends _ hs => simp only [History, hs]

theorem history (creds : Option Credentials) (is : List SaslInput) :
    History creds (trace step (started creds) is)
      (after step (started creds) is) := by
  refine after_history (P := fun is n => History creds (trace step (started creds) is) n)
    (History.init creds) (fun is i H => ?_) is
  rw [trace_append]
  exact H.step (step_move _ i)

/-! ## Two runs with different credentials -/

/-- The same negotiator with `c` in place of the credentials it holds, if it holds any. -/
def withCredentials (n : SaslNegotiator) (c : Credentials) : SaslNegotiator :=
  { n with credentials := n.credentials.map fun _ => c }

private theorem requestSaslOrFinish_withCredentials (n : SaslNegotiator) (c : Credentials) :
    (n.withCredentials c).requestSaslOrFinish =
      (n.requestSaslOrFinish.1.withCredentials c, n.requestSaslOrFinish.2) := by
  have hd : (n.withCredentials c).decideSasl = n.decideSasl.withCredentials c := by
    simp [decideSasl, withCredentials]
  have hw : (n.decideSasl.withCredentials c).wanted = n.decideSasl.wanted := rfl
  simp only [requestSaslOrFinish, hd, hw]
  by_cases he : n.decideSasl.wanted.isEmpty
  · simp only [he]
    rfl
  · simp only [he]
    rfl

private theorem onCapLs_withCredentials (n : SaslNegotiator) (c : Credentials) (payload more) :
    (n.withCredentials c).onCapLs payload more =
      ((n.onCapLs payload more).1.withCredentials c, (n.onCapLs payload more).2) := by
  have ho : (n.withCredentials c).offered = n.offered := rfl
  simp only [onCapLs, ho]
  by_cases hlen : Str.len n.offered + Str.len payload > maxCapabilityBytes
  · simp only [hlen]
    rfl
  · simp only [hlen]
    cases more with
    | true => rfl
    | false => exact requestSaslOrFinish_withCredentials { n with offered := n.collect payload } c

private theorem onCapAck_withCredentials (n : SaslNegotiator) (c : Credentials) (payload) :
    (n.withCredentials c).onCapAck payload =
      ((n.onCapAck payload).1.withCredentials c, (n.onCapAck payload).2) := by
  have hr : (n.withCredentials c).requestedSasl = n.requestedSasl := rfl
  simp only [onCapAck, hr]
  cases n.requestedSasl with
  | false => rfl
  | true =>
    cases containsCapability payload "sasl" with
    | false => rfl
    | true => rfl

private theorem onCap_withCredentials (n : SaslNegotiator) (c : Credentials) (sub arg suffix) :
    (n.withCredentials c).onCap sub arg suffix =
      ((n.onCap sub arg suffix).1.withCredentials c, (n.onCap sub arg suffix).2) := by
  have hs : (n.withCredentials c).state = n.state := rfl
  cases sub with
  | ls =>
    simp only [onCap, hs, onCapLs_withCredentials]
    by_cases h : n.state = .awaitingCapabilities <;> simp only [h, if_true, if_false]
  | ack =>
    simp only [onCap, hs, onCapAck_withCredentials]
    by_cases h : n.state = .awaitingAck <;> simp only [h, if_true, if_false]
  | nak =>
    simp only [onCap, hs]
    by_cases h : n.state = .awaitingAck
    · simp only [h]
      rfl
    · simp only [h, if_false]
  | _ => rfl

private theorem onResponse_withCredentials (n : SaslNegotiator) (c : Credentials) (r args) :
    (n.withCredentials c).onResponse r args =
      ((n.onResponse r args).1.withCredentials c, (n.onResponse r args).2) := by
  have hs : (n.withCredentials c).state = n.state := rfl
  cases r with
  | rplSaslSuccess | errSaslFail | errSaslTooLong | errSaslAbort | errSaslAlready
  | errNickLocked =>
    simp only [onResponse, hs]
    split <;> rfl
  | _ => rfl

private theorem onAuthenticate_withCredentials (n : SaslNegotiator) (c : Credentials) (payload) :
    ((n.withCredentials c).onAuthenticate payload).1 =
        (n.onAuthenticate payload).1.withCredentials c ∧
      (((n.withCredentials c).onAuthenticate payload).2 = (n.onAuthenticate payload).2 ∨
        (n.onAuthenticate payload).2.SendsPayload) := by
  have hs : (n.withCredentials c).state = n.state := rfl
  simp only [onAuthenticate, hs]
  by_cases h : n.state ≠ .awaitingChallenge ∨ Str.trim payload ≠ "+"
  · simp [h]
  · simp only [h]
    cases hc : n.credentials with
    | none => simp [withCredentials, hc]
    | some d => simp [withCredentials, hc, sendsPayload_encodePlain]

/-- One step in two runs that differ in the credentials: the same state up to these, and the same
output unless it is the payload. -/
theorem step_withCredentials (n : SaslNegotiator) (c : Credentials) (i : SaslInput) :
    ((n.withCredentials c).step i).1 = (n.step i).1.withCredentials c ∧
      (((n.withCredentials c).step i).2 = (n.step i).2 ∨ (n.step i).2.SendsPayload) := by
  have hs : (n.withCredentials c).state = n.state := rfl
  cases i with
  | abandon =>
    simp only [step, abandon, hs]
    split
    · exact ⟨rfl, .inl rfl⟩
    · simp [withCredentials]
  | message m =>
    simp only [step, advance, hs]
    split
    · exact ⟨rfl, .inl rfl⟩
    cases m.command with
    | cap => simp [onCap_withCredentials]
    | authenticate => exact onAuthenticate_withCredentials n c _
    | response => simp [onResponse_withCredentials]
    | _ => exact ⟨rfl, .inl rfl⟩

/-- A run in which the payload is not sent is the same for any credentials. -/
theorem trace_withCredentials (c : Credentials) (h : ∀ x ∈ trace step n is, ¬x.2.SendsPayload) :
    trace step (n.withCredentials c) is = trace step n is := by
  induction is generalizing n with
  | nil => rfl
  | cons i is ih =>
    rw [trace_cons, forall_mem_cons] at h
    obtain ⟨hstate, hout⟩ := step_withCredentials n c i
    rw [trace_cons, trace_cons, hstate, ih h.2, hout.resolve_right h.1]

/-! ## Whole negotiations -/

section
variable {creds : Option Credentials} {is : List SaslInput}

/-- The payload is sent only at the end of the whole exchange, and it is that of the credentials the
negotiation was given. -/
theorem entitled_of_sendsPayload (hd : (trace step (started creds) is)[d]? = some x)
    (hx : x.2.SendsPayload) :
    Entitled (trace step (started creds) is) d ∧
      ∃ c, creds = some c ∧ x.2.send = encodePlain c.account c.password := by
  have hd' := (trace_getElem?_eq_some ..).1 hd
  have H := history creds (is.take d)
  have hm := step_move (after step (started creds) (is.take d)) x.1
  rw [hd'.2] at hm
  obtain ⟨hn, hi, -, c, hc, hs⟩ := hm.of_sendsPayload hx
  simp only [History, hn] at H
  refine ⟨Announced.entitled ?_ ⟨x, hd, hi⟩, c, H.1.1.symm.trans hc, by rw [hs]⟩
  rw [← trace_take]
  exact H.2

theorem sendsPayload_unique (ha : At (trace step (started creds) is) a (·.2.SendsPayload))
    (hb : At (trace step (started creds) is) b (·.2.SendsPayload)) : a = b := by
  wlog hab : a < b generalizing a b
  · rcases Nat.lt_or_ge b a with h | h
    · exact (this hb ha h).symm
    · omega
  obtain ⟨x, hx, hxp⟩ := ha
  obtain ⟨y, hy, hyp⟩ := hb
  have hm := step_move (after step (started creds) (is.take b)) y.1
  rw [((trace_getElem?_eq_some ..).1 hy).2] at hm
  have H := history creds (is.take b)
  simp only [History, (hm.of_sendsPayload hyp).1] at H
  refine absurd hxp (H.1.2 x ?_)
  rw [trace_take, mem_iff_getElem?]
  exact ⟨a, by rw [List.getElem?_take_of_lt hab, hx]⟩

theorem isSuccess_of_authenticated (hd : (trace step (started creds) is)[d]? = some x)
    (hx : x.2.outcome = some .authenticated) :
    x.1.IsSuccess ∧ ∃ b < d, At (trace step (started creds) is) b (·.2.SendsPayload) := by
  have hd' := (trace_getElem?_eq_some ..).1 hd
  have hm := step_move (after step (started creds) (is.take d)) x.1
  rw [hd'.2] at hm
  obtain ⟨hn, hi⟩ := hm.of_authenticated hx
  have H := history creds (is.take d)
  simp only [History, hn] at H
  obtain ⟨b, hb⟩ := H
  rw [trace_take] at hb
  have hlt := hb.lt_length
  rw [length_take] at hlt
  exact ⟨hi, b, by omega, hb.of_take⟩

end

/-- The password leaves the negotiator in at most one step, at the end of the exchange `Entitled`
describes; a run without that exchange is the same for any account and password; and success is
reported only on a `903` that comes after the payload. -/
theorem password_release (creds : Option Credentials) (is : List SaslInput) :
    let t := trace step (started creds) is
    (∀ (d : Nat) (x : SaslInput × SaslStep), t[d]? = some x → x.2.SendsPayload →
      Entitled t d ∧ ∃ c, creds = some c ∧ x.2.send = encodePlain c.account c.password) ∧
    (∀ a b, At t a (·.2.SendsPayload) → At t b (·.2.SendsPayload) → a = b) ∧
    (∀ c c', creds = some c → (∀ d, ¬Entitled t d) → trace step (started (some c')) is = t) ∧
    (∀ (d : Nat) (x : SaslInput × SaslStep), t[d]? = some x →
      x.2.outcome = some .authenticated →
        x.1.IsSuccess ∧ ∃ b < d, At t b (·.2.SendsPayload)) := by
  intro t
  refine ⟨fun d x hd hx => entitled_of_sendsPayload hd hx, fun a b => sendsPayload_unique, ?_,
    fun d x hd hx => isSuccess_of_authenticated hd hx⟩
  rintro c c' rfl hno
  refine trace_withCredentials (n := started (some c)) c' fun x hx hp => ?_
  obtain ⟨d, hd⟩ := mem_iff_getElem?.1 hx
  exact hno d (entitled_of_sendsPayload hd hp).1

-- the exchange does run to its end: offer, acknowledgement, challenge, success
example :
    let line (command : Command) := SaslInput.message { command }
    (trace step (started (some ⟨"a", "b"⟩)) [
      line (.cap (some "*") .ls (some "sasl") none), line (.cap (some "*") .ack none (some "sasl")),
      line (.authenticate "+"), line (.response .rplSaslSuccess [])]).map (·.2) =
    [.sendOne (.cap none .req none (some "sasl")), .sendOne (.authenticate "PLAIN"),
      .sendOne (.authenticate "AGEAYg=="), .finish .authenticated] := by
  decide

end SaslNegotiator

end Ddirc.Conn
