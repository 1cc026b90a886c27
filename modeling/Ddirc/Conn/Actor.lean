import Ddirc.Lib.Run
import Ddirc.Client.Session
import Ddirc.Conn.Sasl
import Ddirc.Conn.RateLimit
import Ddirc.Conn.Transfers

/-! # One connection

The loop of `conn/actor.rs` that runs from the registration burst to the end of a connection. Its
inputs are what its `select!` waits for: the negotiation deadline, the timer of the outgoing queue,
commands and the server's messages. What is shown to the user is left out. -/

namespace Ddirc.Conn
open Irc Client

structure ServerConfig where
  nickname : String
  username : Option String := none
  realname : Option String := none
  channels : List String := []
  saslAccount : Option String := none
  saslPassword : Option String := none
  /-- Used only if SASL was not attempted or was refused. -/
  nickservPassword : Option String := none
  serverPassword : Option String := none
  deriving Repr, DecidableEq

def ServerConfig.saslCredentials (c : ServerConfig) : Option Credentials := do
  let account ← c.saslAccount
  let password ← c.saslPassword
  some { account, password }

inductive AuthOutcome where
  | sasl
  | nickServFallback (reason : String)
  | anonymous
  deriving Repr, DecidableEq

def ServerConfig.authOutcome (c : ServerConfig) : SaslOutcome → AuthOutcome
  | .authenticated => .sasl
  | .notAttempted .noCredentials =>
    if c.nickservPassword.isSome then .nickServFallback "no SASL credentials configured"
    else .anonymous
  | .notAttempted .unsupported => .nickServFallback "server does not offer SASL"
  | .rejected reason => .nickServFallback reason

/-- A `LIST` in progress, by how many replies were seen. -/
structure Listing where
  seen : Nat := 0
  deriving Repr, DecidableEq

/-- How many `LIST` replies are read before the answer counts as unreasonable. -/
def maxListReplies : Nat := 60000

def isListReply (m : Message) : Bool :=
  match m.command with
  | .response .rplListStart _ | .response .rplList _ | .response .rplListEnd _ => true
  | _ => false

structure Connection where
  config : ServerConfig
  session : Session
  sasl : SaslNegotiator
  auth : AuthOutcome := .anonymous
  registered : Bool := false
  /-- Whether the server granted `message-tags`. -/
  clientTags : Bool := false
  listing : Option Listing
  transfers : Transfers
  recvLimiter : ReceiveLimiter
  sendLimiter : SendLimiter
  outgoing : List Message := []

inductive Input where
  | deadline
  | flush (now : Instant)
  | listChannels
  | message (now : Instant) (m : Message)
  deriving Repr, DecidableEq

structure Turn where
  sent : List Message := []
  queued : List Message := []
  outcome : Option SaslOutcome := none
  /-- A transfer hears where to start. -/
  resumed : Option (Nat × Nat) := none
  /-- A message was refused by flood protection. -/
  dropped : Bool := false
  deriving Repr, DecidableEq

namespace Connection

/-- The start of a connection: the negotiator is started, and with it goes the registration
burst. -/
def start (config : ServerConfig) (transfers : Transfers) (listing : Option Listing)
    (recvLimiter : ReceiveLimiter) (now : Instant) : Connection × List Message :=
  let (sasl, hello) := (SaslNegotiator.init config.saslCredentials).start
  ({ config, sasl, listing, transfers, recvLimiter
     session := Session.init config.nickname
     sendLimiter := .init now },
    ([hello] ++ (config.serverPassword.map Command.pass).toList ++
      [Command.nick config.nickname, Command.user (config.username.getD config.nickname) "0"
        (config.realname.getD config.nickname)]).map .ofCommand)

def push (c : Connection) (ms : List Message) : Connection × Turn :=
  ({ c with outgoing := c.outgoing ++ ms }, { queued := ms })

def identify (password : String) : Message :=
  .ofCommand (.privmsg "NickServ" ("IDENTIFY " ++ password))

/-- Finish registration: authenticate via NickServ if SASL did not, then join the configured
channels. -/
def onRegistered (c : Connection) : Connection × Turn :=
  let fallback := match c.auth with
    | .nickServFallback _ => (c.config.nickservPassword.map identify).toList
    | _ => []
  c.push (fallback ++ c.config.channels.map fun channel => .ofCommand (.join channel none none))

/-- One `RPL_LIST` line, which is ignored when no `LIST` is in flight. -/
def onListReply (c : Connection) (args : List String) : Connection :=
  match c.listing with
  | none => c
  | some listing =>
    if listing.seen ≥ maxListReplies then { c with listing := none }
    else if args.length < 2 then c
    else { c with listing := some { seen := listing.seen + 1 } }

/-- A CTCP request that is not `ACTION`. A notice is never one. -/
def onCtcp (c : Connection) (target body sender : String) (isNotice : Bool) : Connection × Turn :=
  if isNotice || !c.session.isSelf target then (c, {})
  else
    let heard := c.transfers.onCtcp sender body
    let answer := heard.answer.toList
    ({ c with transfers := heard.transfers, outgoing := c.outgoing ++ answer },
      { queued := answer, resumed := heard.resumed })

def onChat (c : Connection) (target text : String) (source : Option String) (isNotice : Bool) :
    Connection × Turn :=
  match source with
  | none => (c, {})
  | some sender =>
    let trimmed := Str.trimMatches (·.toNat == 1) text
    if Str.startsWithStr trimmed "ACTION " then (c, {})
    else if text.toList.head?.any (·.toNat == 1) then c.onCtcp target trimmed sender isNotice
    else (c, {})

def handle (c : Connection) (m : Message) : Connection × Turn :=
  let c := { c with session := c.session.receive m }
  match m.command with
  | .response .rplWelcome _ => { c with registered := true }.onRegistered
  | .response .rplListStart _ => ({ c with listing := c.listing.map fun _ => {} }, {})
  | .response .rplList args => (c.onListReply args, {})
  | .response .rplListEnd _ => ({ c with listing := none }, {})
  | .privmsg target text => c.onChat target text m.sourceNickname false
  | .notice target text => c.onChat target text m.sourceNickname true
  | _ => (c, {})

def negotiated (c : Connection) (r : SaslNegotiator × SaslStep) : Connection × Turn :=
  ({ c with
      sasl := r.1
      auth := (r.2.outcome.map c.config.authOutcome).getD c.auth
      clientTags := r.1.granted "message-tags" },
    { sent := r.2.send.map .ofCommand, outcome := r.2.outcome })

/-- SASL runs before anything else and is never rate limited. -/
def negotiate (c : Connection) (m : Message) : Connection × Turn :=
  if c.sasl.isFinished then (c, {}) else c.negotiated (c.sasl.advance m)

/-- The answer to our own `LIST` is exempt from flood protection. -/
def askedFor (c : Connection) (m : Message) : Bool := c.listing.isSome && isListReply m

/-- Whether flood protection lets a message through, and what it leaves of the limiter. -/
def meter (c : Connection) (now : Instant) (m : Message) : Connection × Bool :=
  if c.askedFor m then (c, true)
  else
    let (recvLimiter, ok) := c.recvLimiter.tryAdmit now
    ({ c with recvLimiter }, ok)

def reportDrops (c : Connection) : Connection :=
  { c with recvLimiter := { c.recvLimiter with dropped := 0 } }

def onMessage (c : Connection) (now : Instant) (m : Message) : Connection × Turn :=
  let (c, turn) := c.negotiate m
  match c.meter now m with
  | (c, true) =>
    let (c, handled) := c.handle m
    (c.reportDrops, { handled with sent := turn.sent, outcome := turn.outcome })
  | (c, false) => (c, { turn with dropped := true })

/-- Flush one queued command when the limiter allows. The timer is armed only while there is one. -/
def onFlush (c : Connection) (now : Instant) : Connection × Turn :=
  match c.outgoing with
  | [] => (c, {})
  | m :: rest =>
    let (sendLimiter, wait) := c.sendLimiter.acquire now
    if wait = 0 then ({ c with sendLimiter, outgoing := rest }, { sent := [m] })
    else ({ c with sendLimiter }, {})

def step (c : Connection) : Input → Connection × Turn
  | .deadline =>
    if c.sasl.isFinished then (c, {})
    else
      let (c, turn) := c.negotiated c.sasl.abandon
      (c.reportDrops, turn)
  | .flush now =>
    let (c, turn) := c.onFlush now
    (c.reportDrops, turn)
  | .listChannels =>
    if c.listing.isSome then (c.reportDrops, {})
    else
      let (c, turn) := { c with listing := some {} }.push [.ofCommand (.list none none)]
      (c.reportDrops, turn)
  | .message now m => c.onMessage now m

end Connection

end Ddirc.Conn
