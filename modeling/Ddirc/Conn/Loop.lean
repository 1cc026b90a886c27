import Ddirc.Conn.Command

/-! # The connection actor

`run` of `conn/actor.rs`: one connection after another, until the user disconnects. The mailbox of
commands outlives a connection, and so do the flood limiter, the transfers and a `LIST` in flight;
the session and the outgoing queue do not. Which close is a refusal is an input; the configuration
is one that validates. -/

namespace Ddirc.Conn
open Irc Client Api

inductive Phase where
  | dialing
  | online (c : Connection)
  /-- For the delay before the next attempt. -/
  | waiting
  /-- For the user to try again. -/
  | stopped
  | finished

def maxAttemptsBeforeFirstSuccess : Nat := 3

def maxCommands : Nat := 64

structure Actor where
  config : ServerConfig
  phase : Phase := .dialing
  mailbox : List ClientCommand := []
  /-- Every handle was dropped. -/
  hungUp : Bool := false
  everRegistered : Bool := false
  attempt : Nat := 0
  recvLimiter : ReceiveLimiter
  transfers : Transfers := {}
  listing : Option Listing := none

namespace Actor

inductive Input where
  | send (cmd : ClientCommand)
  | hangUp
  | dialed (now : Instant)
  | dialFailed
  | take
  | wake
  | deadline
  | flush (now : Instant)
  /-- A message, with the channel that a nick is looked up in first and the id for an offer. -/
  | message (now : Instant) (m : Message) (pick id : Nat)
  /-- The connection ended, or a send on it failed. -/
  | closed (refused : Bool)
  | file (e : IrcEvent)
  deriving Repr, DecidableEq

structure Output where
  events : List IrcEvent := []
  sent : List Message := []
  queued : List Message := []
  accepted : Bool := true
  deriving Repr, DecidableEq

def connection (a : Actor) : Option Connection :=
  match a.phase with
  | .online c => some c
  | _ => none

def isFinished (a : Actor) : Bool :=
  match a.phase with
  | .finished => true
  | _ => false

def upWith (a : Actor) (c : Connection) : Actor :=
  { a with
    phase := .online c
    everRegistered := a.everRegistered || c.registered
    attempt := if c.registered then 0 else a.attempt }

/-- What of a connection the actor keeps. -/
def keep (a : Actor) (c : Connection) : Actor :=
  { a with recvLimiter := c.recvLimiter, transfers := c.transfers, listing := c.listing }

/-- After an attempt that failed or a connection that was lost: try again, or wait to be asked. -/
def retry (a : Actor) (refused : Bool) : Actor :=
  if refused || (!a.everRegistered && a.attempt ≥ maxAttemptsBeforeFirstSuccess) then
    { a with phase := .stopped }
  else { a with phase := .waiting, attempt := a.attempt + 1 }

/-- The user disconnected, or nobody is left to command: the mailbox goes with the actor. -/
def finish (a : Actor) : Actor := { a with phase := .finished, mailbox := [] }

def drops (c : Connection) : List IrcEvent :=
  if c.recvLimiter.dropped > 0 then [.messagesDropped none c.recvLimiter.dropped] else []

def admits (c : Connection) (now : Instant) (m : Message) : Bool :=
  !(c.step (.message now m)).2.dropped

def commandOnline (u : Platform) (a : Actor) (c : Connection) : ClientCommand → Actor × Output
  | .disconnect reason => (a.finish, { sent := [.ofCommand (.quit (some (reason.getD "ddIRC")))] })
  | cmd =>
    let (c', turn) := c.command cmd
    (a.upWith c', { events := c.shown u cmd ++ drops c, queued := turn.queued })

/-- One command, taken with no connection: what is not about connecting has nowhere to go. -/
def commandOffline (a : Actor) (stopped : Bool) : ClientCommand → Actor
  | .disconnect _ => a.finish
  | .reconnect => { a with phase := .dialing, attempt := if stopped then 0 else a.attempt }
  | _ => a

def take (u : Platform) (a : Actor) : Actor × Output :=
  match a.phase, a.mailbox with
  | .online _, [] => if a.hungUp then (a.finish, { sent := [.ofCommand (.quit none)] }) else (a, {})
  | .online c, cmd :: rest => { a with mailbox := rest }.commandOnline u c cmd
  | .waiting, [] | .stopped, [] => (if a.hungUp then a.finish else a, {})
  | .waiting, cmd :: rest => ({ a with mailbox := rest }.commandOffline false cmd, {})
  | .stopped, cmd :: rest => ({ a with mailbox := rest }.commandOffline true cmd, {})
  | .dialing, _ | .finished, _ => (a, {})

/-- What the connection does on its own, with what is shown of it. -/
def turn (a : Actor) (c : Connection) (i : Conn.Input) (events : List IrcEvent) : Actor × Output :=
  let (c', turn) := c.step i
  (a.upWith c', { events, sent := turn.sent, queued := turn.queued })

section
variable (a : Actor) (c : Connection) (i : Conn.Input) (events : List IrcEvent)

@[simp] theorem turn_connection : (a.turn c i events).1.connection = some (c.step i).1 := rfl
@[simp] theorem turn_sent : (a.turn c i events).2.sent = (c.step i).2.sent := rfl

end

def isFileEvent : IrcEvent → Bool
  | .fileTransferStarted .. | .fileTransferProgress .. | .fileTransferEnded .. => true
  | _ => false

def step (u : Platform) (a : Actor) : Input → Actor × Output
  | .send cmd =>
    if a.isFinished || a.mailbox.length ≥ maxCommands then (a, { accepted := false })
    else ({ a with mailbox := a.mailbox ++ [cmd] }, {})
  | .hangUp => ({ a with hungUp := true }, {})
  | .take => a.take u
  | .file e => (a, { events := if isFileEvent e then [e] else [] })
  | .dialed now =>
    match a.phase with
    | .dialing =>
      let (c, burst) := Connection.start a.config a.transfers a.listing a.recvLimiter now
      (a.upWith c, { sent := burst })
    | _ => (a, {})
  | .dialFailed =>
    match a.phase with
    | .dialing => (a.retry false, {})
    | _ => (a, {})
  | .wake =>
    match a.phase with
    | .waiting => ({ a with phase := .dialing }, {})
    | _ => (a, {})
  | .deadline =>
    match a.phase with
    | .online c => a.turn c .deadline (if c.sasl.isFinished then [] else drops c)
    | _ => (a, {})
  | .flush now =>
    match a.phase with
    -- The timer is armed only while something waits.
    | .online c => if c.outgoing.isEmpty then (a, {}) else a.turn c (.flush now) (drops c)
    | _ => (a, {})
  | .message now m pick id =>
    match a.phase with
    | .online c =>
      a.turn c (.message now m)
        (if admits c now m then report u c.session pick id m ++ drops c else [])
    | _ => (a, {})
  | .closed refused =>
    match a.phase with
    | .online c => ((a.keep c).retry refused, {})
    | _ => (a, {})

end Actor

end Ddirc.Conn
