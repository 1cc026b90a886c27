import Ddirc.Lib.Str
import Ddirc.Lib.Base64
import Ddirc.Irc.Proto

/-! # Capability negotiation and SASL PLAIN

The state machine of `conn/sasl.rs`: `SaslNegotiator.advance` takes one parsed message and returns
the commands to send, `SaslNegotiator.abandon` is the caller running out of patience. Both return
the negotiator after the call beside the `SaslStep`. -/

namespace Ddirc.Conn
open Irc

def maxCapabilityBytes : Nat := 8 * 1024

def authenticateChunk : Nat := 400

/-- `EXTRA_CAPABILITIES`: what is worth asking for besides `sasl`. -/
def extraCapabilities : List String := ["away-notify", "message-tags", "server-time"]

structure Credentials where
  account : String
  password : String
  deriving Repr, DecidableEq

inductive NotAttempted where
  | noCredentials
  | unsupported
  deriving Repr, DecidableEq

inductive SaslOutcome where
  | authenticated
  | notAttempted (reason : NotAttempted)
  | rejected (reason : String)
  deriving Repr, DecidableEq

/-- The commands to send in response to one message, and the outcome if it concluded negotiation. -/
structure SaslStep where
  send : List Command := []
  outcome : Option SaslOutcome := none
  deriving Repr, DecidableEq

namespace SaslStep

def nothing : SaslStep := {}

def sendOne (cmd : Command) : SaslStep := { send := [cmd] }

def finish (outcome : SaslOutcome) : SaslStep :=
  { send := [.cap none .end none none], outcome := some outcome }

end SaslStep

inductive SaslState where
  | new | awaitingCapabilities | awaitingAck | awaitingChallenge | awaitingResult | finished
  deriving Repr, DecidableEq

structure SaslNegotiator where
  state : SaslState
  credentials : Option Credentials
  /-- Capabilities accumulated across `CAP LS` continuation lines. -/
  offered : String
  /-- Whether the request that is in flight included `sasl`. -/
  requestedSasl : Bool
  /-- What to report if the exchange ends without SASL having been attempted. -/
  withoutSasl : NotAttempted
  /-- Every capability the server acknowledged, lower-cased. -/
  acked : List String
  deriving Repr, DecidableEq

def containsCapability (list wanted : String) : Bool :=
  (Str.splitWhitespace list).any fun token =>
    let token := Str.trimStartMatches (fun c => c == '-' || c == '~' || c == '=') token
    let name := (Str.split '=' token).headD token
    Str.eqIgnoreAsciiCase name wanted

/-- The `AUTHENTICATE` commands carrying base64 `\0account\0password`, in pieces of 400. -/
def encodePlain [Base64] (account password : String) : List Command :=
  let raw := "\x00" ++ account ++ "\x00" ++ password
  let encoded := Base64.encode (Str.bytes raw)
  if encoded.isEmpty then [.authenticate "+"]
  else
    let commands := (Str.chunks authenticateChunk encoded).map
      fun chunk => Command.authenticate (String.ofList chunk)
    if encoded.length % authenticateChunk == 0 then commands ++ [.authenticate "+"]
    else commands

/-- The reason of a SASL failure numeric, at most 200 characters of the server's text. -/
def saslFailureReason (response : Response) (args : List String) : String :=
  let text := (args.getLast?.filter (!·.isEmpty)).getD "SASL authentication failed"
  let reason := Str.takeChars 200 text
  if response = .errNickLocked then reason ++ " (nick is account-locked)" else reason

namespace SaslNegotiator

def init (credentials : Option Credentials) : SaslNegotiator where
  state := .new
  credentials := credentials
  offered := ""
  requestedSasl := false
  withoutSasl := .noCredentials
  acked := []

def granted (n : SaslNegotiator) (capability : String) : Bool :=
  n.acked.any (Str.eqIgnoreAsciiCase · capability)

def isFinished (n : SaslNegotiator) : Bool := n.state == .finished

def start (n : SaslNegotiator) : SaslNegotiator × Command :=
  ({ n with state := .awaitingCapabilities }, .cap none .ls (some "302") none)

/-- Give up on negotiation and close it, without waiting for the server. -/
def abandon (n : SaslNegotiator) : SaslNegotiator × SaslStep :=
  if n.state = .finished then (n, .nothing)
  else
    let unanswered := n.state = .new ∨ n.state = .awaitingCapabilities
    let outcome :=
      if n.requestedSasl = true ∨ (unanswered ∧ n.credentials.isSome = true) then
        SaslOutcome.rejected "server did not finish capability negotiation in time"
      else .notAttempted n.withoutSasl
    ({ n with state := .finished, credentials := none }, .finish outcome)

/-- The capabilities to request: `sasl` if it is to be attempted, and the extra ones on offer. -/
def wanted (n : SaslNegotiator) : List String :=
  (if n.requestedSasl then ["sasl"] else []) ++
    extraCapabilities.filter (containsCapability n.offered ·)

/-- Settle, on the full capability list, whether SASL is attempted and what is reported if not. -/
def decideSasl (n : SaslNegotiator) : SaslNegotiator :=
  { n with
    withoutSasl := if n.credentials.isNone then .noCredentials else .unsupported
    requestedSasl := n.credentials.isSome && containsCapability n.offered "sasl" }

/-- Decide what to do once the full capability list is known. -/
def requestSaslOrFinish (n : SaslNegotiator) : SaslNegotiator × SaslStep :=
  let n := n.decideSasl
  if n.wanted.isEmpty then ({ n with state := .finished }, .finish (.notAttempted n.withoutSasl))
  else ({ n with state := .awaitingAck },
    .sendOne (.cap none .req none (some (Str.join " " n.wanted))))

def onCapLs (n : SaslNegotiator) (payload : String) (moreToCome : Bool) :
    SaslNegotiator × SaslStep :=
  if Str.len n.offered + Str.len payload > maxCapabilityBytes then
    ({ n with state := .finished },
      .finish (.rejected "server sent an oversized capability list"))
  else
    let n := { n with
      offered := (if n.offered.isEmpty then n.offered else n.offered ++ " ") ++ payload }
    if moreToCome then (n, .nothing) else n.requestSaslOrFinish

def onCapAck (n : SaslNegotiator) (payload : String) : SaslNegotiator × SaslStep :=
  -- `-cap` in an ACK is a capability being switched off
  let n := { n with
    acked := n.acked ++
      ((Str.splitAsciiWhitespace payload).filter (!Str.startsWith · '-')).map Str.toAsciiLowercase }
  if n.requestedSasl = false then
    ({ n with state := .finished }, .finish (.notAttempted n.withoutSasl))
  else if containsCapability payload "sasl" = false then
    ({ n with state := .finished },
      .finish (.rejected "server acknowledged unexpected capabilities"))
  else ({ n with state := .awaitingChallenge }, .sendOne (.authenticate "PLAIN"))

def onCapNak (n : SaslNegotiator) : SaslNegotiator × SaslStep :=
  ({ n with state := .finished },
    .finish (if n.requestedSasl = false then .notAttempted n.withoutSasl
      else .rejected "server refused the sasl capability"))

def onCap (n : SaslNegotiator) (sub : CapSubCommand) (arg suffix : Option String) :
    SaslNegotiator × SaslStep :=
  let payload := (suffix.or arg).getD ""
  let moreToCome := suffix.isSome && arg == some "*"
  match sub with
  | .ls => if n.state = .awaitingCapabilities then n.onCapLs payload moreToCome else (n, .nothing)
  | .ack => if n.state = .awaitingAck then n.onCapAck payload else (n, .nothing)
  | .nak => if n.state = .awaitingAck then n.onCapNak else (n, .nothing)
  | _ => (n, .nothing)

def onAuthenticate (n : SaslNegotiator) (payload : String) : SaslNegotiator × SaslStep :=
  if n.state ≠ .awaitingChallenge ∨ Str.trim payload ≠ "+" then (n, .nothing)
  else match n.credentials with
    | none => ({ n with state := .finished }, .finish (.notAttempted .noCredentials))
    | some c => ({ n with state := .awaitingResult }, { send := encodePlain c.account c.password })

def onResponse (n : SaslNegotiator) (response : Response) (args : List String) :
    SaslNegotiator × SaslStep :=
  match response with
  | .rplSaslSuccess =>
    if n.state = .awaitingResult then
      ({ n with state := .finished, credentials := none }, .finish .authenticated)
    else (n, .nothing)
  | .errSaslFail | .errSaslTooLong | .errSaslAbort | .errSaslAlready | .errNickLocked =>
    if n.state ≠ .awaitingResult ∧ n.state ≠ .awaitingChallenge then (n, .nothing)
    else ({ n with state := .finished, credentials := none },
      .finish (.rejected (saslFailureReason response args)))
  | _ => (n, .nothing)

def advance (n : SaslNegotiator) (message : Message) : SaslNegotiator × SaslStep :=
  if n.state = .finished then (n, .nothing)
  else match message.command with
    | .cap _ sub arg suffix => n.onCap sub arg suffix
    | .authenticate payload => n.onAuthenticate payload
    | .response response args => n.onResponse response args
    | _ => (n, .nothing)

end SaslNegotiator

end Ddirc.Conn
