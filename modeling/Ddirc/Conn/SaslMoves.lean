import Ddirc.Lib.Run
import Ddirc.Conn.Sasl

/-! # What one step of a negotiation can do

The inputs of a negotiation are the server's messages and the caller's `abandon`. `Move` lists every
way one of them can take a negotiator to the next, with what is emitted; `step_move` shows that the
list is complete. -/

namespace Ddirc.Conn
open Irc

/-- What drives a negotiation once it has begun. -/
inductive SaslInput where
  | message (m : Message)
  | abandon
  deriving Repr, DecidableEq

namespace SaslInput

def IsCap (sub : CapSubCommand) (payload : String) (i : SaslInput) : Prop :=
  ∃ m target arg suffix, i = .message m ∧ m.command = .cap target sub arg suffix ∧
    payload = (suffix.or arg).getD ""

def IsChallenge (i : SaslInput) : Prop :=
  ∃ m payload, i = .message m ∧ m.command = .authenticate payload ∧ Str.trim payload = "+"

def IsSuccess (i : SaslInput) : Prop :=
  ∃ m args, i = .message m ∧ m.command = .response .rplSaslSuccess args

end SaslInput

namespace SaslNegotiator
variable {n : SaslNegotiator} {m : Message}

def step (n : SaslNegotiator) : SaslInput → SaslNegotiator × SaslStep
  | .message m => n.advance m
  | .abandon => n.abandon

def started (credentials : Option Credentials) : SaslNegotiator := (init credentials).start.1

def collect (n : SaslNegotiator) (payload : String) : String :=
  (if n.offered.isEmpty then n.offered else n.offered ++ " ") ++ payload

/-- Whether the credentials go if the negotiation ends here: when the caller gives up on it, or once
the server has agreed to SASL. -/
def dropsCredentials (n : SaslNegotiator) (i : SaslInput) : Bool :=
  i = .abandon || n.state = .awaitingChallenge || n.state = .awaitingResult

/-- The ways an input can take a negotiator to the next. -/
inductive Move (n : SaslNegotiator) (i : SaslInput) : SaslNegotiator → SaslStep → Prop where
  | quiet : Move n i n .nothing
  | collects : n.state = .awaitingCapabilities → i.IsCap .ls payload →
    Move n i { n with offered := n.collect payload } .nothing
  | requests : n.state = .awaitingCapabilities → i.IsCap .ls payload →
    n'.state = .awaitingAck → n'.credentials = n.credentials → n'.acked = n.acked →
    n'.offered = n.collect payload →
    n'.requestedSasl = (n.credentials.isSome && containsCapability n'.offered "sasl") →
    Move n i n' (.sendOne (.cap none .req none (some (Str.join " " n'.wanted))))
  | acked : n.state = .awaitingAck → n.requestedSasl = true → i.IsCap .ack payload →
    n'.state = .awaitingChallenge → n'.credentials = n.credentials →
    Move n i n' (.sendOne (.authenticate "PLAIN"))
  | releases : n.state = .awaitingChallenge → i.IsChallenge → n.credentials = some c →
    Move n i { n with state := .awaitingResult } { send := encodePlain c.account c.password }
  | ends : n.state ≠ .finished → n'.state = .finished →
    (n'.credentials = none ↔ n.credentials = none ∨ n.dropsCredentials i = true) →
    (outcome = .authenticated → n.state = .awaitingResult ∧ i.IsSuccess) →
    Move n i n' (.finish outcome)

/-- A `CAP` line that ends the negotiation does not touch the credentials. -/
theorem Move.ends_of_cap (hn : n.state = .awaitingCapabilities ∨ n.state = .awaitingAck)
    (hi : i.IsCap sub payload) (hn' : n'.state = .finished) (hsame : n'.credentials = n.credentials)
    (ho : outcome ≠ .authenticated) : Move n i n' (.finish outcome) := by
  obtain ⟨m, _, _, _, rfl, -⟩ := hi
  have hkeeps : n.dropsCredentials (.message m) = false ∧ n.state ≠ .finished := by
    rcases hn with hn | hn <;> simp [dropsCredentials, hn]
  exact .ends hkeeps.2 hn' (by simp [hkeeps.1, hsame]) fun h => absurd h ho

private theorem move_requestSaslOrFinish (hs : n.state = .awaitingCapabilities)
    (hi : i.IsCap .ls payload) :
    let r := ({ n with offered := n.collect payload } : SaslNegotiator).requestSaslOrFinish
    Move n i r.1 r.2 := by
  intro r
  simp only [r, requestSaslOrFinish]
  split
  · exact .ends_of_cap (.inl hs) hi rfl rfl nofun
  · exact .requests hs hi rfl rfl rfl rfl rfl

private theorem move_onCap (hm : m.command = .cap target sub arg suffix) :
    Move n (.message m) (n.onCap sub arg suffix).1 (n.onCap sub arg suffix).2 := by
  have hi : (SaslInput.message m).IsCap sub ((suffix.or arg).getD "") :=
    ⟨m, target, arg, suffix, rfl, hm, rfl⟩
  cases sub with
  | ls =>
    simp only [onCap]
    split
    next hs =>
      simp only [onCapLs]
      split
      · exact .ends_of_cap (.inl hs) hi rfl rfl nofun
      split
      · exact .collects hs hi
      · exact move_requestSaslOrFinish hs hi
    · exact .quiet
  | ack =>
    simp only [onCap]
    split
    next hs =>
      simp only [onCapAck]
      split
      · exact .ends_of_cap (.inr hs) hi rfl rfl nofun
      next hr =>
        split
        · exact .ends_of_cap (.inr hs) hi rfl rfl nofun
        · exact .acked hs (by simpa using hr) hi rfl rfl
    · exact .quiet
  | nak =>
    simp only [onCap]
    split
    next hs => exact .ends_of_cap (.inr hs) hi rfl rfl (by split <;> simp)
    · exact .quiet
  | _ => exact .quiet

private theorem move_onAuthenticate (hm : m.command = .authenticate payload) :
    Move n (.message m) (n.onAuthenticate payload).1 (n.onAuthenticate payload).2 := by
  simp only [onAuthenticate]
  split
  · exact .quiet
  next h =>
    simp only [not_or, Decidable.not_not] at h
    split
    next hc => exact .ends (by simp [h.1]) rfl (iff_of_true hc (.inl hc)) nofun
    next hc => exact .releases h.1 ⟨m, payload, rfl, hm, h.2⟩ hc

private theorem move_onResponse (hn : n.state ≠ .finished)
    (hm : m.command = .response response args) :
    Move n (.message m) (n.onResponse response args).1 (n.onResponse response args).2 := by
  cases response with
  | rplSaslSuccess =>
    simp only [onResponse]
    split
    next hs =>
      exact .ends hn rfl (iff_of_true rfl (.inr (by simp [dropsCredentials, hs])))
        fun _ => ⟨hs, m, args, rfl, hm⟩
    · exact .quiet
  | errSaslFail | errSaslTooLong | errSaslAbort | errSaslAlready | errNickLocked =>
    simp only [onResponse]
    split
    · exact .quiet
    next hs =>
      refine .ends hn rfl (iff_of_true rfl (.inr ?_)) nofun
      rw [dropsCredentials]
      cases hstate : n.state <;> simp [hstate] at hs ⊢
  | _ => exact .quiet

/-- `Move` is complete: every step is one of its cases. -/
theorem step_move (n : SaslNegotiator) (i : SaslInput) : Move n i (n.step i).1 (n.step i).2 := by
  cases i with
  | abandon =>
    simp only [step, abandon]
    split
    · exact .quiet
    next hn => exact .ends hn rfl (iff_of_true rfl (.inr rfl)) (by split <;> simp)
  | message m =>
    simp only [step, advance]
    split
    · exact .quiet
    next hn =>
      cases hm : m.command with
      | cap => exact move_onCap hm
      | authenticate => exact move_onAuthenticate hm
      | response => exact move_onResponse hn hm
      | _ => exact .quiet

/-- A negotiation that is over stays over and says nothing. -/
theorem step_of_finished (hn : n.state = .finished) (i : SaslInput) : n.step i = (n, .nothing) := by
  cases i <;> simp [step, advance, abandon, hn]

theorem after_of_finished (hn : n.state = .finished) (is : List SaslInput) :
    Run.after step n is = n := by
  induction is with
  | nil => rfl
  | cons i is ih => rw [Run.after_cons, step_of_finished hn, ih]

end SaslNegotiator

end Ddirc.Conn
