import Ddirc.Conn.Loop
import Ddirc.Xmpp.Session

/-! # The XMPP connection actor

`run` of `xmpp/actor.rs`: one session after another, each kept over every reconnection until the
stream ends for good, and what the session sends on its way to the stream. Messages wait for the
send limiter, everything else goes out at once. Uploads, the commands that concern contacts, kicks
and topics, and what is told of logins that are tried again are left out; the configuration is one
that validates. -/

namespace Ddirc.Xmpp
open Conn (ClientCommand Instant ReceiveLimiter SendLimiter)

/-- Whether a stanza is a message, which has to wait for the limiter. -/
def Outgoing.isMessage : Outgoing → Bool
  | .say .. | .correct .. | .retract .. => true
  | _ => false

def Session.onClientCommand (rules : JidRules) (s : Session) : ClientCommand → Session × Effects
  | .join channel key => s.onCommand rules (.join channel key)
  | .part channel _ => s.onCommand rules (.part channel)
  | .sendMessage target text => s.onCommand rules (.say target text)
  | .sendAction target text => s.onCommand rules (.act target text)
  | .sendReply target text reply => s.onCommand rules (.reply target text reply)
  | .setNick nick => s.onCommand rules (.setNick nick)
  | .catchUpChats since => s.onCommand rules (.catchUpChats since)
  | .editMessage target msgid text => s.onCommand rules (.edit target msgid text)
  | .retractMessage target msgid => s.onCommand rules (.retract target msgid)
  | .listChannels | .whois _ | .acceptFile .. => (s, .error "That is not available over XMPP yet.")
  | .kick .. | .setTopic .. | .contacts | .sendFile .. | .cancelTransfer _ | .reconnect
  | .disconnect _ => (s, {})

structure Config where
  account : BareJid
  roomNick : String
  rooms : List BareJid := []

/-- Where the actor waits. -/
inductive Phase where
  /-- `connect_once` sets up a stream. -/
  | starting
  /-- In the loop of `connect_once`, with the messages that wait for the limiter. -/
  | running (session : Session) (paced : List Outgoing)
  | stopped
  | finished

structure Actor where
  config : Config
  phase : Phase := .starting
  /-- Commands the actor has not taken yet. -/
  mailbox : List ClientCommand := []
  /-- Every handle was dropped. -/
  hungUp : Bool := false
  recvLimiter : ReceiveLimiter
  sendLimiter : SendLimiter

namespace Actor

inductive Input where
  | send (cmd : ClientCommand)
  | hangUp
  | started (idStem : String)
  | startFailed (message : String)
  | take (now : Instant)
  /-- What the stream gives: a fresh login, or a stanza. -/
  | received (now : Instant) (i : Xmpp.Input)
  /-- The limiter's time is over. -/
  | release (now : Instant)
  /-- The stream ended, or logging in failed for good, with what is said of it. -/
  | ended (message : Option String)
  /-- Nobody listens to the events any more. -/
  | unheard

structure Output where
  events : List Event := []
  sent : List Outgoing := []
  accepted : Bool := true

def isFinished (a : Actor) : Bool :=
  match a.phase with
  | .finished => true
  | _ => false

def finish (a : Actor) : Actor := { a with phase := .finished, mailbox := [] }

/-- `release`: as many waiting messages as the limiter allows, and those that are left. -/
def release (limiter : SendLimiter) (now : Instant) :
    List Outgoing → SendLimiter × List Outgoing × List Outgoing
  | [] => (limiter, [], [])
  | m :: rest =>
    let (limiter, wait) := limiter.acquire now
    if wait = 0 then
      let (limiter, out, left) := release limiter now rest
      (limiter, m :: out, left)
    else (limiter, [], m :: rest)

/-- `apply`: carry out what the session decided. -/
def apply (a : Actor) (now : Instant) (paced : List Outgoing) (r : Session × Effects) :
    Actor × Output :=
  let (sendLimiter, out, left) := release a.sendLimiter now (paced ++ r.2.send.filter (·.isMessage))
  ({ a with phase := .running r.1 left, sendLimiter },
    { events := r.2.events, sent := r.2.send.filter (!·.isMessage) ++ out })

section
variable (rules : JidRules)

def commandRunning (a : Actor) (now : Instant) (s : Session) (paced : List Outgoing) :
    ClientCommand → Actor × Output
  | .disconnect _ => (a.finish, {})
  -- A login that waits for its next attempt is told to hurry.
  | .reconnect => (a, {})
  | cmd => a.apply now paced (s.onClientCommand rules cmd)

def commandStopped (a : Actor) : ClientCommand → Actor × Output
  | .disconnect _ => (a.finish, {})
  | .reconnect => ({ a with phase := .starting }, {})
  | _ => (a, { events := [.error "Not connected."] })

def take (a : Actor) (now : Instant) : Actor × Output :=
  match a.phase, a.mailbox with
  | .running _ _, [] | .stopped, [] => (if a.hungUp then a.finish else a, {})
  | .running s paced, cmd :: rest => { a with mailbox := rest }.commandRunning rules now s paced cmd
  | .stopped, cmd :: rest => { a with mailbox := rest }.commandStopped cmd
  | .starting, _ | .finished, _ => (a, {})

/-- Only chat counts against the flood limit. -/
def tryAdmit (a : Actor) (now : Instant) : Xmpp.Input → Actor × Bool
  | .message _ =>
    let (recvLimiter, ok) := a.recvLimiter.tryAdmit now
    ({ a with recvLimiter }, ok)
  | _ => (a, true)

def step (a : Actor) : Input → Actor × Output
  | .send cmd =>
    if a.isFinished || a.mailbox.length ≥ Conn.maxCommands then (a, { accepted := false })
    else ({ a with mailbox := a.mailbox ++ [cmd] }, {})
  | .hangUp => ({ a with hungUp := true }, {})
  | .started idStem =>
    match a.phase with
    | .starting =>
      let session := .new a.config.account a.config.roomNick idStem a.config.rooms
      ({ a with phase := .running session [] }, {})
    | _ => (a, {})
  | .startFailed message =>
    match a.phase with
    | .starting => ({ a with phase := .stopped }, { events := [.error message] })
    | _ => (a, {})
  | .take now => a.take rules now
  -- The stream gives no commands.
  | .received _ (.command _) => (a, {})
  | .received now i =>
    match a.phase with
    | .running s paced =>
      let (a, ok) := a.tryAdmit now i
      if ok then a.apply now paced (s.step rules i) else (a, {})
    | _ => (a, {})
  | .release now =>
    match a.phase with
    | .running s paced => a.apply now paced (s, {})
    | _ => (a, {})
  | .ended message =>
    match a.phase with
    | .running _ _ => ({ a with phase := .stopped }, { events := message.toList.map .error })
    | _ => (a, {})
  | .unheard => (a.finish, {})

end

end Actor
end Ddirc.Xmpp
