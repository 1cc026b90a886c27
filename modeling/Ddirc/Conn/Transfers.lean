import Ddirc.Irc.Proto
import Ddirc.Dcc.Transfer

/-! # Resuming a file

The part of the connection actor that two clients settle a resumed transfer with: what it remembers
of the files it serves and of the resumes it asked for, and the two messages about them. -/

namespace Ddirc.Conn
open Irc Dcc

/-- A `DCC RESUME` that was sent and is waiting to be answered. -/
structure AwaitedResume where
  filename : String
  /-- The transfer whose task the answer goes to. -/
  reply : Nat
  deriving Repr, DecidableEq

/-- A file that was offered and is listened for. -/
structure Serving where
  target : String
  filename : String
  size : Nat
  /-- Where the transfer should start, which the serving task reads when the receiver connects. -/
  offset : Nat
  /-- Whether the serving task still has its share of the offset. -/
  live : Bool
  deriving Repr, DecidableEq

structure Transfers where
  resumes : Map (String × Nat) AwaitedResume := ∅
  serving : Map Nat Serving := ∅

namespace Transfers

def forgetFinished (t : Transfers) : Transfers :=
  { t with serving := Map.retain t.serving fun _ s => s.live }

end Transfers

def isChannelTarget (target : String) : Bool :=
  (target.toList.head?).any fun c => c == '#' || c == '&' || c == '+' || c == '!'

/-- A `DCC` line about a file, a port and a position. -/
def resumeLine (keyword filename : String) (port position : Nat) : String :=
  "\x01DCC " ++ keyword ++ " " ++ quoteFilename filename ++ " " ++ toString port ++ " " ++
    toString position ++ "\x01"

namespace Transfers

/-- Ask the sender to carry on from an unfinished file, if there is one worth carrying on from.
Returns what is asked and the position, for the task of the transfer `id`. -/
def askToResume (t : Transfers) (d : Directory) (id : Nat) (sender : String) (offer : DccOffer) :
    Transfers × Option (Message × Nat) :=
  if offer.isReverse then (t, none)
  else match offer.port, offer.size with
    | some port, some size =>
      match resumableLen d offer.filename sender size with
      | some len =>
        if len ≥ size then (t, none)
        else
          let awaited := { filename := offer.filename, reply := id }
          ({ t with resumes := t.resumes.insert (Str.toAsciiLowercase sender, port) awaited },
            some (.ofCommand (.privmsg sender (resumeLine "RESUME" offer.filename port len)), len))
      | none => (t, none)
    | _, _ => (t, none)

/-- Someone asks us to carry on a file we are serving. Returns the answer, if there is one. -/
def onResumeRequest (t : Transfers) (sender : String) (request : ResumeMessage) :
    Transfers × Option Message :=
  if request.token.isSome || request.port == 0 then (t, none)
  else
    let t := t.forgetFinished
    match t.serving.lookup request.port with
    | none => (t, none)
    | some serving =>
      if safeFilename serving.filename ≠ some request.filename then (t, none)
      else if request.position = 0 ∨ request.position ≥ serving.size then (t, none)
      else if isChannelTarget serving.target || !Str.eqIgnoreAsciiCase serving.target sender then
        (t, none)
      else
        ({ t with
            serving := t.serving.insert request.port { serving with offset := request.position } },
          some (.ofCommand (.privmsg sender
            (resumeLine "ACCEPT" serving.filename request.port request.position))))

/-- A sender agrees to carry on from where we asked. Returns the transfer that was waiting to hear
it and the position. -/
def onResumeAccepted (t : Transfers) (sender : String) (accepted : ResumeMessage) :
    Transfers × Option (Nat × Nat) :=
  if accepted.token.isSome || accepted.port == 0 then (t, none)
  else
    let key := (Str.toAsciiLowercase sender, accepted.port)
    match t.resumes.lookup key with
    | none => (t, none)
    | some waiting =>
      if waiting.filename ≠ accepted.filename then (t, none)
      else ({ t with resumes := t.resumes.erase key }, some (waiting.reply, accepted.position))

/-- What a CTCP request from `sender` leads to. -/
structure Heard where
  transfers : Transfers
  /-- What is queued in answer. -/
  answer : Option Message := none
  /-- The transfer that hears where to start, and the position. -/
  resumed : Option (Nat × Nat) := none

/-- A CTCP request that is addressed to us. An offer is only reported. -/
def onCtcp (t : Transfers) (sender body : String) : Heard :=
  match parseResume body with
  | some request =>
    let (transfers, answer) := t.onResumeRequest sender request
    { transfers, answer }
  | none =>
    match parseAccept body with
    | some accepted =>
      let (transfers, resumed) := t.onResumeAccepted sender accepted
      { transfers, resumed }
    | none => { transfers := t }

/-- All that is ever said in answer is that a file will be carried on. -/
theorem onCtcp_answer {t : Transfers} {sender body : String}
    (h : (t.onCtcp sender body).answer = some m) : ∃ filename port position,
      m = .ofCommand (.privmsg sender (resumeLine "ACCEPT" filename port position)) := by
  simp only [onCtcp] at h
  split at h
  next request _ =>
    simp only [onResumeRequest] at h
    repeat' split at h
    all_goals try cases h
    exact ⟨_, _, _, rfl⟩
  · split at h <;> cases h

end Transfers

end Ddirc.Conn
