import Ddirc.Conn.SaslRelease

/-! # The payload of SASL PLAIN, and when it is asked for

`encodePlain` cuts the encoded credentials into arguments of 400 bytes, with a lone `+` at the end
when the cut comes out even. `receivePlain` is the other side: it joins the arguments up to the
first short one and decodes. `AUTHENTICATE PLAIN` answers a `CAP ACK`; what that granted is another
reading of the same list. -/

namespace Ddirc.Conn
open List
open Irc Run

/-! ## The receiver -/

/-- The text of a payload: the arguments up to the first one shorter than 400 bytes, where a lone
`+` stands for an empty one. Until that argument has come there is none. -/
def assemble : List String → Option String
  | [] => none
  | arg :: args =>
    if Str.len arg < authenticateChunk then some (if arg = "+" then "" else arg)
    else (assemble args).map (arg ++ ·)

/-- What a server reads from the arguments of `AUTHENTICATE`. -/
def receivePlain [Base64] (args : List String) : Option (List UInt8) :=
  (assemble args).bind (Base64.decode ·.toList)

theorem assemble_append (hfull : ∀ arg ∈ full, Str.len arg = authenticateChunk)
    (hlast : Str.len last < authenticateChunk) : assemble (full ++ [last]) =
      some (String.ofList
        (full.flatMap String.toList ++ if last = "+" then [] else last.toList)) := by
  induction full with
  | nil =>
    rw [nil_append, assemble, if_pos hlast]
    split <;> simp
  | cons arg full ih =>
    obtain ⟨harg, hfull⟩ := forall_mem_cons.1 hfull
    rw [cons_append, assemble, if_neg (by omega), ih hfull, Option.map_some,
      flatMap_cons, append_assoc, @String.ofList_append arg.toList, String.ofList_toList]

/-! ## The sender -/

/-- Every account and password arrive: the arguments are as long as they have to be, and a receiver
reads the very bytes from them. -/
theorem encodePlain_received [Base64] (account password : String) : ∃ full last,
    encodePlain account password = (full ++ [last]).map .authenticate ∧
    (∀ arg ∈ full, Str.len arg = authenticateChunk) ∧
    Str.len last < authenticateChunk ∧ last ≠ "" ∧
    receivePlain (full ++ [last]) = some (Str.bytes ("\x00" ++ account ++ "\x00" ++ password)) := by
  obtain ⟨full, rest, htext, hfull, hrest, hmod, heq⟩ := encodePlain_eq_map account password
  have hascii : ∀ c ∈ plainText account password, c.utf8Size = 1 := Base64.utf8Size_encode _
  rw [htext] at hascii
  have hlens : ∀ arg ∈ full.map String.ofList, Str.len arg = authenticateChunk := by
    intro arg harg
    obtain ⟨piece, hpiece, rfl⟩ := mem_map.1 harg
    rw [Str.len_ofList fun c hc => hascii c (mem_append_left _
      (mem_flatten_of_mem hpiece hc)), Nat.mul_one, hfull piece hpiece]
  have hlast : Str.len (if rest.isEmpty then "+" else String.ofList rest) < authenticateChunk := by
    split
    · decide
    · rwa [Str.len_ofList fun c hc => hascii c (mem_append_right _ hc), Nat.mul_one]
  -- what is left has four characters at least, so it is not taken for the marker
  have hread : (if (if rest.isEmpty then "+" else String.ofList rest) = "+" then []
      else (if rest.isEmpty then "+" else String.ofList rest).toList) = rest := by
    match rest with
    | [] => rfl
    | [c] => simp at hmod
    | c :: d :: rest =>
      have hne : String.ofList (c :: d :: rest) ≠ "+" := by
        intro h
        simpa using congrArg (List.length ∘ String.toList) h
      simp only [isEmpty_cons, Bool.false_eq_true, if_false, hne, String.toList_ofList]
  refine ⟨_, _, heq, hlens, hlast, ?_, ?_⟩
  · cases rest <;> simp
  · rw [receivePlain, assemble_append hlens hlast, hread, Option.bind_some, flatMap_map]
    simp only [String.toList_ofList]
    rw [flatMap_id', ← htext]
    exact Base64.decode_encode _

theorem encodePlain_received_me : ∃ full last,
    encodePlain "me" "pw" = (full ++ [last]).map .authenticate ∧
    (∀ arg ∈ full, Str.len arg = authenticateChunk) ∧
    Str.len last < authenticateChunk ∧ last ≠ "" ∧
    receivePlain (full ++ [last]) = some [0, 109, 101, 0, 112, 119] :=
  encodePlain_received "me" "pw"

/-! ## When the mechanism is announced -/

namespace SaslNegotiator

/-- Nothing is granted before the acknowledgement. -/
theorem acked_after (credentials : Option Credentials) (is : List SaslInput) :
    let n := after step (started credentials) is
    n.state = .awaitingCapabilities ∨ n.state = .awaitingAck → n.acked = [] := by
  refine after_induction (P := fun n : SaslNegotiator => n.state = .awaitingCapabilities ∨
    n.state = .awaitingAck → n.acked = []) (fun _ => rfl) (fun n i ih h' => ?_) is
  have hmove := step_move n i
  generalize (n.step i).1 = n', (n.step i).2 = s at h' hmove ⊢
  cases hmove with
  | quiet | collects => exact ih h'
  | requests hs _ _ _ hsame => exact hsame.trans (ih (.inl hs))
  | acked _ _ _ hs => simp [hs] at h'
  | releases => simp at h'
  | ends _ hs => simp [hs] at h'

end SaslNegotiator

open SaslNegotiator

/-- The words kept of an acknowledgement have the name among them if one of its words is the
name. -/
theorem any_acked_iff :
    (((Str.splitAsciiWhitespace payload).filter (!Str.startsWith · '-')).map
      Str.toAsciiLowercase).any (Str.eqIgnoreAsciiCase · "sasl") ↔
    ∃ cap ∈ Str.splitAsciiWhitespace payload, Str.eqIgnoreAsciiCase cap "sasl" := by
  have hlower (cap : String) :
      Str.toAsciiLowercase (Str.toAsciiLowercase cap) = Str.toAsciiLowercase cap := by
    simp only [Str.toAsciiLowercase, String.toList_ofList, map_map, Function.comp_def,
      Str.toLower_toLower]
  have hdash {cap : String} (h : Str.eqIgnoreAsciiCase cap "sasl") :
      Str.startsWith cap '-' = false := by
    have hhead := congrArg (fun s => s.toList.head?) (Str.eqIgnoreAsciiCase_iff.1 h)
    simp only [Str.toAsciiLowercase, String.toList_ofList, List.head?_map] at hhead
    rw [Str.startsWith, beq_eq_false_iff_ne]
    intro hcap
    rw [hcap] at hhead
    exact absurd hhead (by decide)
  simp only [any_map, any_filter, any_eq_true, Function.comp_apply,
    Bool.and_eq_true, Bool.not_eq_true', Str.eqIgnoreAsciiCase_iff, hlower]
  exact ⟨fun ⟨cap, hcap, _, h⟩ => ⟨cap, hcap, h⟩, fun ⟨cap, hcap, h⟩ =>
    ⟨cap, hcap, hdash (Str.eqIgnoreAsciiCase_iff.2 h), h⟩⟩

section
variable {n : SaslNegotiator} {payload : String}

theorem granted_onCapAck (hn : n.acked = []) (payload : String) :
    (n.onCapAck payload).1.granted "sasl" ↔
      ∃ cap ∈ Str.splitAsciiWhitespace payload, Str.eqIgnoreAsciiCase cap "sasl" := by
  rw [← any_acked_iff]
  simp only [onCapAck, hn]
  split
  · rfl
  split
  · rfl
  · rfl

theorem step_of_ack (hn : n.state = .awaitingAck) (hi : i.IsCap .ack payload) :
    n.step i = n.onCapAck payload := by
  obtain ⟨m, target, arg, suffix, rfl, hm, rfl⟩ := hi
  simp [step, advance, onCap, hm, hn]

theorem SaslNegotiator.Move.ack_of_sendsPlain (h : Move n i n' s) (hs : s.SendsPlain) :
    n.state = .awaitingAck ∧ ∃ payload, i.IsCap .ack payload := by
  cases h with
  | acked hn _ hi => exact ⟨hn, _, hi⟩
  | releases =>
    simp only [SaslStep.SendsPlain] at hs
    exact absurd hs (plain_notMem_encodePlain _ _)
  | quiet | collects | requests | ends =>
    simp [SaslStep.SendsPlain, SaslStep.nothing, SaslStep.sendOne, SaslStep.finish] at hs

end

/-- The mechanism is announced in answer to an acknowledgement, and `sasl` is granted by then
exactly if the acknowledgement has the bare name among its words. -/
theorem granted_of_sendsPlain_iff (credentials : Option Credentials) (is : List SaslInput)
    (i : SaslInput) (h : ((after step (started credentials) is).step i).2.SendsPlain) :
    ∃ payload, i.IsCap .ack payload ∧
      (((after step (started credentials) is).step i).1.granted "sasl" = true ↔
        ∃ cap ∈ Str.splitAsciiWhitespace payload, Str.eqIgnoreAsciiCase cap "sasl" = true) := by
  obtain ⟨hs, payload, hi⟩ := (step_move _ i).ack_of_sendsPlain h
  refine ⟨payload, hi, ?_⟩
  rw [step_of_ack hs hi]
  exact granted_onCapAck (acked_after credentials is (.inr hs)) payload

theorem granted_of_sendsPlain_iff_acked :
    let is := [SaslInput.message (.ofCommand (.cap (some "*") .ls (some "sasl") none))]
    let i := SaslInput.message (.ofCommand (.cap (some "*") .ack (some "sasl") none))
    ∃ payload, i.IsCap .ack payload ∧
      (((after step (started (some ⟨"me", "pw"⟩)) is).step i).1.granted "sasl" = true ↔
        ∃ cap ∈ Str.splitAsciiWhitespace payload, Str.eqIgnoreAsciiCase cap "sasl" = true) :=
  granted_of_sendsPlain_iff _ _ _ (by unfold SaslStep.SendsPlain; decide +kernel)

/-- `CAP ACK :-sasl`, which switches the capability off, announces the mechanism just the same. -/
theorem sendsPlain_of_switched_off :
    let n := after step (started (some ⟨"me", "pw"⟩))
      [.message (.ofCommand (.cap (some "*") .ls (some "sasl") none))]
    let r := n.step (.message (.ofCommand (.cap (some "*") .ack (some "-sasl") none)))
    r.2.SendsPlain ∧ r.1.granted "sasl" = false := by
  unfold SaslStep.SendsPlain
  decide +kernel

end Ddirc.Conn
