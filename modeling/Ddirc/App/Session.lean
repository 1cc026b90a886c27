import Ddirc.Lib.Run
import Ddirc.App.Conversation

/-! # The app's session model

`SessionModel` of the app: the conversations of one network, the tabs that are open and the one on
screen, moved by the events of the core and by what the user does. Calls that go out (to the core,
to the message store, to the notifier) are returned. Notices, the connection log, the directory,
contacts and profiles are left out. -/

namespace Ddirc.App
open Api Text

/-- What a session is given and never changes. -/
structure Env where
  lower : String → String
  markdownToMirc : String → String
  isXmpp : Bool := false

/-- What the app-wide settings say about one network; names are held in lower case. -/
structure Settings where
  accepted : Finset String := ∅
  blocked : Finset String := ∅
  mutedNicks : Finset String := ∅
  notify : Map String NotifyLevel := ∅
  fileTransfers : Bool := false
  markdown : Bool := true

namespace Settings

/-- Let someone in, which also unblocks them. -/
def accept (s : Settings) (key : String) : Settings :=
  if key ∈ s.accepted then s
  else { s with accepted := insert key s.accepted, blocked := s.blocked.erase key }

/-- Turn someone away, which also takes back having let them in. -/
def block (s : Settings) (key : String) : Settings :=
  if key ∈ s.blocked then s
  else { s with blocked := insert key s.blocked, accepted := s.accepted.erase key }

def unblock (s : Settings) (key : String) : Settings := { s with blocked := s.blocked.erase key }

def setNickMuted (s : Settings) (key : String) (muted : Bool) : Settings :=
  { s with mutedNicks := if muted then insert key s.mutedNicks else s.mutedNicks.erase key }

def notifyFor (s : Settings) (key : String) : NotifyLevel := (s.notify.lookup key).getD .all

end Settings

inductive Call where
  | sendMessage (target text : String)
  | sendReply (target text : String) (reply : ReplyRef)
  | sendAction (target text : String)
  | sendFile (target path : String)
  | editMessage (target msgid text : String)
  | retractMessage (target msgid : String)
  | join (channel : String) (key : Option String)
  | part (channel : String) (reason : Option String)
  | setNick (nick : String)
  | setTopic (channel topic : String)
  | acceptFile (id : Nat) (directory : String)
  | cancelTransfer (id : Nat)
  deriving DecidableEq

inductive Effect where
  | call (c : Call)
  /-- Handed to the message store under the name of a conversation. -/
  | save (name : String) (line : ChatLine)
  /-- Handed to the chat log. -/
  | log (name : String) (line : ChatLine)
  | editSaved (name msgid sender : String) (m : ChatMessage)
  | removeSaved (name msgid sender : String)
  /-- `onLine`: a line landed in a conversation. -/
  | line (key : String) (line : ChatLine)
  /-- `onRead`: a conversation was seen. -/
  | read (key : String)
  /-- What the composer shows under the text. -/
  | refused (reason : String)
  deriving DecidableEq

structure Session where
  nick : String
  settings : Settings := {}
  conversations : Map String Conversation := ∅
  /-- Every conversation, as they were opened. -/
  order : List String := []
  tabs : List String := []
  active : Option String := none
  /-- Channels the user asked to be in, until the server says they are. -/
  requested : Finset String := ∅
  /-- Whether the session put the user anywhere yet. -/
  landed : Bool := false
  cards : List FileTransfer := []
  /-- The card of each offer and transfer that is not over. -/
  transfers : Map Nat Nat := ∅

namespace Session
variable (env : Env)

def key (name : String) : String := env.lower name

def modify (s : Session) (key : String) (f : Conversation → Conversation) : Session :=
  { s with conversations := Map.modify s.conversations key f }

def conversationFor (s : Session) (name : String) (isChannel : Bool) (pending : Bool := false)
    (openTab : Bool := true) : Session :=
  if (s.conversations.lookup (key env name)).isSome then s
  else
    let s := { s with
      conversations := s.conversations.insert (key env name) { name, isChannel, pending }
      order := s.order ++ [key env name] }
    -- Being messaged by a stranger opens nothing.
    if pending || !openTab then s
    else { s with tabs := s.tabs ++ [key env name], active := s.active.or (some (key env name)) }

def addLine (s : Session) (name : String) (line : ChatLine) (isChannel : Bool)
    (pending : Bool := false) (openTab : Bool := true) : Session × List Effect :=
  let s := s.conversationFor env name isChannel pending openTab
  let notify := s.settings.notifyFor (key env name)
  (s.modify (key env name) (·.add line (s.active = some (key env name)) notify),
    [.log name line, .save name line, .line (key env name) line])

def select (s : Session) (name : String) : Session × List Effect :=
  if (s.conversations.lookup (key env name)).isNone then (s, [])
  else
    let tabs := if key env name ∈ s.tabs then s.tabs else s.tabs ++ [key env name]
    ({ s with tabs, active := some (key env name) }.modify (key env name) (·.markRead),
      [.read (key env name)])

/-- Leaving for real: the tab goes with the conversation. -/
def close (s : Session) (name : String) : Session :=
  let s' := { s with
    conversations := s.conversations.erase (key env name)
    order := s.order.erase (key env name)
    tabs := s.tabs.erase (key env name) }
  if s.active = some (key env name) then
    let active := s'.tabs.getLast?.or s'.order.getLast?
    { s' with
      active
      tabs := s'.tabs ++ active.toList.filter (· ∉ s'.tabs) }
  else s'

/-- Close a tab without leaving the conversation: its neighbour is shown instead. -/
def closeTab (s : Session) (name : String) : Session :=
  match s.tabs.idxOf? (key env name) with
  | none => s
  | some i =>
    let tabs := s.tabs.eraseIdx i
    if s.active = some (key env name) then
      let active := tabs[min i (tabs.length - 1)]?
      let s := { s with tabs, active }
      match active with
      | none => s
      | some k => s.modify k (·.markRead)
    else { s with tabs }

/-- File a line into whatever the user is reading. -/
def addToActive (s : Session) (line : ChatLine) : Session × List Effect :=
  let into : Session × String :=
    match s.active.filter fun k => (s.conversations.lookup k).isSome with
    | some k => (s, k)
    | none => (s.conversationFor env "server" false, key env "server")
  let name := ((into.1.conversations.lookup into.2).map (·.name)).getD ""
  (into.1.modify into.2 (·.add line true), [.save name line])

/-! ## Events -/

def system (text : String) (kind : SystemKind) (now : Nat) : ChatLine := .system text kind now

/-- When a message was said: the server's time, but never later than now. -/
def sentAt (m : ChatMessage) (now : Nat) : Nat := min (m.serverTimeMs.getD now) now

def describeReason (reason : Option String) : String :=
  match reason with
  | none => ""
  | some r => if r.isEmpty then "" else " (" ++ r ++ ")"

def looksLikeChannel (target : String) : Bool := target.toList.head?.any ("#&+!".toList.contains ·)

def isChannelName (s : Session) (target : String) : Bool :=
  if env.isXmpp then (s.conversations.lookup (key env target)).any (·.isChannel)
  else looksLikeChannel target

def onMessage (s : Session) (m : ChatMessage) (now : Nat) : Session × List Effect :=
  let line := ChatLine.message m false (sentAt m now)
  match m.target with
  | .channel name =>
    if !m.isSelf ∧ key env m.sender ∈ s.settings.mutedNicks then (s, [.save name line])
    else s.addLine env name line true
  | .direct nick =>
    if !m.isSelf ∧ key env nick ∈ s.settings.blocked then (s, [])
    else
      let stranger := !m.isSelf && key env nick ∉ s.settings.accepted
      s.addLine env nick line false stranger

def onJoined (s : Session) (channel nick : String) (isSelf : Bool) (now : Nat) :
    Session × List Effect :=
  -- The intention is used up, so that a later join by the server opens nothing.
  let asked := isSelf && key env channel ∈ s.requested
  let moves := isSelf && (asked || !s.landed)
  let s := if isSelf then { s with requested := s.requested.erase (key env channel) } else s
  let text := if isSelf then "you joined " ++ channel else nick ++ " joined"
  let (s, effects) := s.addLine env channel (system text .presence now) true false asked
  if moves then
    let (s, more) := { s with landed := true }.select env channel
    (s, effects ++ more)
  else (s, effects)

def onFileOffered (s : Session) (id : Nat) (channel sender filename : String)
    (size port : Option Nat)
    (now : Nat) : Session × List Effect :=
  if !s.settings.fileTransfers then (s, [])
  else
    let card := s.cards.length
    let s := { s with
      cards := s.cards ++ [FileTransfer.offered id filename sender size port.isNone]
      transfers := s.transfers.insert id card }
    s.addLine env channel (.file card now) (looksLikeChannel channel)

def onFileTransferStarted (s : Session) (id : Nat) (channel filename : String) (incoming : Bool)
    (total : Option Nat) (now : Nat) : Session × List Effect :=
  match s.transfers.lookup id with
  | some card => ({ s with cards := s.cards.modify card (·.begin total) }, [])
  | none =>
    let card := s.cards.length
    let s := { s with
      cards := s.cards ++ [FileTransfer.running id filename incoming total]
      transfers := s.transfers.insert id card }
    s.addLine env channel (.file card now) (looksLikeChannel channel)

def onFileTransferEnded (s : Session) (id : Nat) (channel filename : String)
    (path error : Option String) (now : Nat) : Session × List Effect :=
  match s.transfers.lookup id with
  | some card =>
    let s := { s with
      cards := s.cards.modify card (·.finish path error)
      transfers := s.transfers.erase id }
    -- The card changed in place; the store and the log get a line that says how it ended.
    let line := system ((s.cards[card]?.map (·.outcome)).getD "") .connection now
    (s, [.log channel line, .save channel line])
  | none =>
    let text := FileTransfer.describeOutcome filename path error
    s.addLine env channel (system text .connection now) (looksLikeChannel channel)

/-- A correction is believed only from whoever wrote the original. -/
def onMessageEdited (s : Session) (target : Target) (msgid sender : String) (m : ChatMessage) :
    Session × List Effect :=
  match s.conversations.lookup (key env target.name) with
  | none => (s, [])
  | some c =>
    match c.lineWithId msgid with
    | none => (s, [])
    | some i =>
      match c.lines[i]? with
      | some (.message original _ time) =>
        if original.sender ≠ sender then (s, [])
        else
          (s.modify (key env target.name)
            ({ · with lines := c.lines.set i (.message m true time) }),
            [.editSaved target.name msgid sender m])
      | _ => (s, [])

def onMessageRetracted (s : Session) (target : Target) (msgid sender : String) (now : Nat) :
    Session × List Effect :=
  match s.conversations.lookup (key env target.name) with
  | none => (s, [])
  | some c =>
    match c.lineWithId msgid with
    | none => (s, [])
    | some i =>
      if (c.lines[i]?.bind ChatLine.said).map (·.sender) ≠ some sender then (s, [])
      else
        let s := s.modify (key env target.name) ({ · with lines := c.lines.eraseIdx i })
        let (s, effects) := s.addLine env target.name
          (system (sender ++ " deleted a message") .presence now) c.isChannel false false
        (s, .removeSaved target.name msgid sender :: effects)

def onEvent (s : Session) (now : Nat) : IrcEvent → Session × List Effect
  | .registered nick => ({ s with nick }, [])
  | .message m => s.onMessage env m now
  | .joined channel nick isSelf => s.onJoined env channel nick isSelf now
  | .parted channel nick isSelf reason =>
    if isSelf then (s.close env channel, [])
    else
      s.addLine env channel (system (nick ++ " left" ++ describeReason reason) .presence now) true
  | .quit channel nick reason =>
    s.addLine env channel (system (nick ++ " quit" ++ describeReason reason) .presence now) true
  | .nickChanged channel old new isSelf =>
    let s := if isSelf then { s with nick := new } else s
    s.addLine env channel (system (old ++ " is now " ++ new) .presence now) true
  | .topicChanged channel topic setBy =>
    let text := match setBy with
      | none => "topic: " ++ topic
      | some nick => nick ++ " set the topic: " ++ topic
    let s := s.conversationFor env channel true
    let shown := s.active = some (key env channel)
    (s.modify (key env channel)
      fun c => { c with topic := some topic }.add (system text .topic now) shown, [])
  | .memberList channel members =>
    ((s.conversationFor env channel true).modify (key env channel) ({ · with members }), [])
  | .memberChanged channel previous member =>
    ((s.conversationFor env channel true).modify (key env channel)
      (·.applyMemberChange env.lower previous member), [])
  | .modeChanged channel setBy affected =>
    let text := setBy.getD "server" ++ " changed modes: " ++ Str.join ", " affected
    s.addLine env channel (system text .mode now) true
  | .messagesDropped channel count =>
    let line := system (toString count ++ " message(s) dropped — flood protection") .connection now
    match channel with
    | none => s.addToActive env line
    | some channel => s.addLine env channel line true
  | .fileOffered id channel sender filename size port =>
    s.onFileOffered env id channel sender filename size port now
  | .fileTransferStarted id channel filename incoming total =>
    s.onFileTransferStarted env id channel filename incoming total now
  | .fileTransferProgress id transferred =>
    match s.transfers.lookup id with
    | some card => ({ s with cards := s.cards.modify card ({ · with transferred }) }, [])
    | none => (s, [])
  | .fileTransferEnded id channel filename path error =>
    s.onFileTransferEnded env id channel filename path error now
  | .messageEdited target msgid sender m => s.onMessageEdited env target msgid sender m
  | .messageRetracted target msgid sender => s.onMessageRetracted env target msgid sender now
  -- A notice and a line of the connection log.
  | .error _ _ => (s, [])

/-! ## What the user does -/

def trim (text : String) : String :=
  Str.trimMatches (fun c => Str.isWhitespace c || c.toNat == 0xFEFF) text

def openDirect (s : Session) (nick : String) : Session × List Effect :=
  let nick := trim nick
  if nick.isEmpty then (s, [])
  else
    let s := { s with settings := s.settings.accept (key env nick) }
    let s := (s.conversationFor env nick false).modify (key env nick) ({ · with pending := false })
    s.select env nick

def acceptDirect (s : Session) (nick : String) : Session × List Effect :=
  match s.conversations.lookup (key env nick) with
  | none => (s, [])
  | some c =>
    if !c.pending then (s, [])
    else
      let s := s.modify (key env nick) ({ · with pending := false })
      { s with settings := s.settings.accept (key env c.name) }.select env c.name

def declineDirect (s : Session) (nick : String) : Session × List Effect :=
  match s.conversations.lookup (key env nick) with
  | none => (s, [])
  | some c =>
    if !c.pending then (s, [])
    else
      ({ s with settings := s.settings.block (key env c.name) }.close env c.name,
        [.read (key env nick)])

def markRead (s : Session) (name : String) : Session × List Effect :=
  if (s.conversations.lookup (key env name)).isNone then (s, [])
  else (s.modify (key env name) (·.markRead), [.read (key env name)])

def joinChannel (s : Session) (channel : String) (password : Option String := none) :
    Session × List Effect :=
  let name := trim channel
  if name.isEmpty then (s, [])
  else
    -- The server sends no second `JOIN` for a channel we are in, so it is opened here.
    if (s.conversations.lookup (key env name)).isSome then
      { s with requested := s.requested.erase (key env name) }.select env name
    else
      ({ s with requested := insert (key env name) s.requested }, [.call (.join name password)])

def joinFailed (s : Session) (channel : String) : Session :=
  { s with requested := s.requested.erase (key env (trim channel)) }

inductive SlashCommand where
  | join | msg | query | me | nick | topic | part
  deriving Repr, DecidableEq

namespace SlashCommand

def all : List SlashCommand := [.join, .msg, .query, .me, .nick, .topic, .part]

def name : SlashCommand → String
  | .join => "join" | .msg => "msg" | .query => "query" | .me => "me" | .nick => "nick"
  | .topic => "topic" | .part => "part"

def usage : SlashCommand → String
  | .join => "<#channel>" | .msg => "<nick> <message>" | .query => "<nick>" | .me => "<action>"
  | .nick => "<nickname>" | .topic => "<text>" | .part => "[reason]"

def usageLine (c : SlashCommand) : String := "/" ++ c.name ++ " " ++ c.usage

def parse (verb : String) : Option SlashCommand := all.find? (·.name = verb)

end SlashCommand

inductive Typed where
  | nothing
  | text (body : String)
  | unknown (verb : String)
  | command (c : SlashCommand) (argument : String)
  deriving Repr, DecidableEq

/-- Markdown becomes formatting before anything else looks at the line. -/
def Typed.read (markdown : Bool) (input : String) : Typed :=
  let trimmed := trim input
  let text :=
    if markdown && !env.isXmpp && !Str.startsWith trimmed '/' then env.markdownToMirc trimmed
    else trimmed
  if trimmed.isEmpty then .nothing
  else match Str.stripChar '/' text with
    | none => .text text
    | some body =>
      let (verb, argument) := match Str.splitOnce ' ' body with
        | none => (env.lower body, "")
        | some (verb, argument) => (env.lower verb, trim argument)
      match SlashCommand.parse verb with
      | none => .unknown verb
      | some c => .command c argument

def shown (s : Session) : Option Conversation := s.active.bind s.conversations.lookup

def sayIn (c : Option Conversation) (missing : String) (send : String → Call) : List Effect :=
  match c with
  | none => [.refused missing]
  | some c => if c.pending then [.refused "accept the request first"] else [.call (send c.name)]

def send (text : String) (reply : Option ReplyRef) (target : String) : Call :=
  match reply with
  | none => .sendMessage target text
  | some reply => .sendReply target text reply

def say (s : Session) (target text : String) (reply : Option ReplyRef) : List Effect :=
  sayIn (s.conversations.lookup (key env target)) ("no conversation " ++ target) (send text reply)

def firstWord (text : String) : String := ((Str.splitOnce ' ' text).map (·.1)).getD text

def runCommand (s : Session) (command : SlashCommand) (argument : String) : Session × List Effect :=
  let usage := (s, [Effect.refused ("usage: " ++ command.usageLine)])
  let noChannel := (s, [Effect.refused "not in a channel"])
  match command with
  | .join => if argument.isEmpty then usage else s.joinChannel env argument
  | .part =>
    match s.shown with
    | none => noChannel
    | some c => (s, [.call (.part c.name (if argument.isEmpty then none else some argument))])
  | .nick => if argument.isEmpty then usage else (s, [.call (.setNick argument)])
  | .me =>
    if argument.isEmpty then usage
    else match s.shown with
      | none => noChannel
      | some c =>
        -- Nothing here asks whether the conversation is a request.
        let text :=
          if s.settings.markdown && !env.isXmpp then env.markdownToMirc argument else argument
        (s, [.call (.sendAction c.name text)])
  | .topic =>
    if argument.isEmpty then usage
    else match s.shown with
      | none => noChannel
      | some c => if c.isChannel then (s, [.call (.setTopic c.name argument)]) else noChannel
  | .msg =>
    match Str.splitOnce ' ' argument with
    | none => usage
    | some (target, text) =>
      let s :=
        if s.isChannelName env target then s
        else { s with settings := s.settings.accept (key env target) }
      (s, [.call (.sendMessage target text)])
  | .query =>
    if argument.isEmpty then usage
    else
      if s.isChannelName env (firstWord argument) then
        (s, [.refused (firstWord argument ++ " is a channel — use /join")])
      else s.openDirect env (firstWord argument)

def submit (s : Session) (input : String) (reply : Option ReplyRef) : Session × List Effect :=
  match Typed.read env s.settings.markdown input with
  | .nothing => (s, [])
  | .text body => (s, sayIn s.shown "not in a channel" (send body reply))
  | .unknown verb => (s, [.refused ("unknown command: /" ++ verb)])
  | .command command argument => s.runCommand env command argument

/-- An offer turned down is answered at once; a running transfer reports when it has stopped. -/
def cancelTransfer (s : Session) (id : Nat) : Session × List Effect :=
  match s.transfers.lookup id with
  | none => (s, [.call (.cancelTransfer id)])
  | some card =>
    if s.cards[card]?.any (·.stage = .offered) then
      ({ s with cards := s.cards.modify card (·.decline), transfers := s.transfers.erase id },
        [.call (.cancelTransfer id)])
    else (s, [.call (.cancelTransfer id)])

inductive Preference where
  | fileTransfers (on : Bool)
  | markdown (on : Bool)
  | mute (nick : String) (muted : Bool)
  | notify (name : String) (level : NotifyLevel)
  | block (nick : String)
  | unblock (nick : String)
  deriving Repr, DecidableEq

def prefer (s : Settings) : Preference → Settings
  | .fileTransfers on => { s with fileTransfers := on }
  | .markdown on => { s with markdown := on }
  | .mute nick muted => s.setNickMuted (key env nick) muted
  | .notify name level => { s with notify := s.notify.insert (key env name) level }
  | .block nick => s.block (key env nick)
  | .unblock nick => s.unblock (key env nick)

inductive Input where
  | event (now : Nat) (e : IrcEvent)
  | openDirect (nick : String)
  | acceptDirect (nick : String)
  | declineDirect (nick : String)
  | select (name : String)
  | markRead (name : String)
  | closeTab (name : String)
  | joinChannel (channel : String) (password : Option String)
  | joinFailed (channel : String)
  | submit (input : String) (reply : Option ReplyRef)
  | say (target text : String) (reply : Option ReplyRef)
  | leave (channel : String) (reason : Option String)
  | changeNick (nick : String)
  | setTopic (channel topic : String)
  | sendFile (target path : String)
  | acceptTransfer (id : Nat) (directory : String)
  | cancelTransfer (id : Nat)
  | editMessage (conversation msgid text : String)
  | retractMessage (conversation msgid : String)
  | prefer (p : Preference)
  deriving DecidableEq

def step (s : Session) : Input → Session × List Effect
  | .event now e => s.onEvent env now e
  | .openDirect nick => s.openDirect env nick
  | .acceptDirect nick => s.acceptDirect env nick
  | .declineDirect nick => s.declineDirect env nick
  | .select name => s.select env name
  | .markRead name => s.markRead env name
  | .closeTab name => (s.closeTab env name, [])
  | .joinChannel channel password => s.joinChannel env channel password
  | .joinFailed channel => (s.joinFailed env channel, [])
  | .submit input reply => s.submit env input reply
  | .say target text reply => (s, s.say env target text reply)
  | .leave channel reason =>
    let reason := (reason.map trim).filter (!·.isEmpty)
    (s, [.call (.part channel reason)])
  | .changeNick nick => (s, [.call (.setNick (trim nick))])
  | .setTopic channel topic => (s, [.call (.setTopic channel (trim topic))])
  | .sendFile target path => (s, [.call (.sendFile target path)])
  | .acceptTransfer id directory => (s, [.call (.acceptFile id directory)])
  | .cancelTransfer id => s.cancelTransfer id
  | .editMessage conversation msgid text => (s, [.call (.editMessage conversation msgid text)])
  | .retractMessage conversation msgid => (s, [.call (.retractMessage conversation msgid)])
  | .prefer p => ({ s with settings := prefer env s.settings p }, [])

end Session

end Ddirc.App
