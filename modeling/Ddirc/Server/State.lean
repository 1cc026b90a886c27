import Mathlib.Data.String.Basic
import Mathlib.Data.Finset.Card
import Ddirc.Lib.Map
import Ddirc.Irc.Proto
import Ddirc.Server.Event

/-! # The local server

Everything the server knows, and every reply it makes (`ddirc-server/src/state.rs`). One task owns
the `Network` and handles one event at a time, so an operation is a function on it.

What a client's writer task has been given so far is its queue, `Network.queues`. Where the code
walks a hash set or a hash map, each client it meets is given one message, so that no queue depends
on the order of the walk; `Network.deliver` is such a walk. `Network.clock` is what `now()`
reads. -/

namespace Ddirc.Server
open Irc

def host : String := "localhost"
def nickLen : Nat := 30
def channelLen : Nat := 50
def topicLen : Nat := 390

structure Client where
  nick : Option String := none
  user : Option String := none
  real : Option String := none
  registered : Bool := false
  /-- Set by `CAP LS`; registration then waits for `CAP END`. -/
  negotiating : Bool := false
  quitReason : Option String := none
  /-- Folded names of the channels this client is in. -/
  channels : Finset String := ∅
  connectedAt : Nat

def Client.shownNick (c : Client) : String := c.nick.getD "*"

/-- `Client::prefix`: the `nick!user@host` the client's own messages are attributed to. -/
def Client.origin (c : Client) : Prefix := .nickname c.shownNick (c.user.getD c.shownNick) host

structure Topic where
  text : String
  setBy : String
  at_ : Nat

structure Channel where
  /-- As it was first typed. -/
  name : String
  topic : Option Topic := none
  members : Finset ClientId := ∅
  operators : Finset ClientId := ∅

def Channel.without (c : Channel) (id : ClientId) : Channel :=
  { c with members := c.members.erase id, operators := c.operators.erase id }

structure Network where
  serverName : String
  networkName : String
  version : String
  clients : Map ClientId Client
  /-- Folded nick to the client holding it. -/
  nicks : Map String ClientId
  channels : Map String Channel
  motd : List String
  /-- Folded nicks that may not be claimed. -/
  banned : Finset String
  /-- Whether there is an observer, and what it was sent. -/
  observed : Bool
  events : List ServerEvent
  startedAt : Nat
  connectionsTotal : Nat
  messagesTotal : Nat
  clock : Nat
  queues : ClientId → List Message

def defaultMotd : List String := [
  "This network runs inside ddIRC, on this machine only.",
  "It is a beta feature: expect gaps, and do not rely on it.",
  "Nothing here is reachable from any other machine."]

def fold (name : String) : String := Str.toAsciiLowercase name

/-- Cut a string down to `max` bytes, on a character boundary. -/
def truncate (text : String) (max : Nat) : String :=
  if Str.len text ≤ max then text else Str.takeBytes max text

def isChannel (name : String) : Bool := Str.startsWith name '#'

/-- Nicks that would break the protocol are refused. -/
def validNick (nick : String) : Bool :=
  !nick.isEmpty && Str.len nick ≤ nickLen && !Str.startsWith nick '#' && !Str.startsWith nick ':' &&
  !Str.contains nick ' ' && !Str.contains nick ',' && !Str.contains nick '!' &&
  !Str.contains nick '@' && nick.toList.all (!Str.isControl ·)

def validChannel (name : String) : Bool :=
  isChannel name && Str.len name ≤ channelLen && 1 < Str.len name && !Str.contains name ' ' &&
  !Str.contains name ',' && name.toList.all (!Str.isControl ·)

namespace Network

def init (serverName networkName : String) (now : Nat) : Network where
  serverName
  networkName
  version := "ddirc-server-0.1.0"
  clients := ∅
  nicks := ∅
  channels := ∅
  motd := defaultMotd
  banned := ∅
  observed := false
  events := []
  startedAt := now
  connectionsTotal := 0
  messagesTotal := 0
  clock := now
  queues _ := []

def observe (n : Network) : Network := { n with observed := true }

def emit (n : Network) (kind : EventKind) : Network :=
  if n.observed then { n with events := n.events ++ [⟨n.clock, kind.sanitized⟩] } else n

/-- `if let Some(client) = self.clients.get_mut(&id)`. -/
def modifyClient (n : Network) (id : ClientId) (f : Client → Client) : Network :=
  { n with clients := Map.modify n.clients id f }

/-! ## Sending -/

def isRegistered (n : Network) (id : ClientId) : Bool := (n.clients.lookup id).any (·.registered)

def nickOf (n : Network) (id : ClientId) : String :=
  ((n.clients.lookup id).map Client.shownNick).getD "*"

def originOf (n : Network) (id : ClientId) : Prefix :=
  ((n.clients.lookup id).map Client.origin).getD (.serverName n.serverName)

/-- Queue to each connected client what `out` has for it. -/
def deliver (n : Network) (out : ClientId → Option Message) : Network :=
  { n with queues := fun i =>
      if (n.clients.lookup i).isSome then n.queues i ++ (out i).toList else n.queues i }

def send (n : Network) (id : ClientId) (message : Message) : Network :=
  n.deliver fun i => if i = id then some message else none

def broadcast (n : Network) (key : String) (message : Message) (except : Option ClientId) :
    Network :=
  match n.channels.lookup key with
  | none => n
  | some channel =>
    n.deliver fun i => if i ∈ channel.members ∧ some i ≠ except then some message else none

def sharesOne (n : Network) (names : Finset String) (i : ClientId) : Prop :=
  ∃ name ∈ names, (n.channels.lookup name).any (i ∈ ·.members)

instance : Decidable (sharesOne n names i) := inferInstanceAs (Decidable (∃ _ ∈ _, _))

/-- Everyone sharing a channel with `id`, each told once. -/
def tellPeers (n : Network) (id : ClientId) (message : Message) (includeSelf : Bool) : Network :=
  match n.clients.lookup id with
  | none => n
  | some client => n.deliver fun i =>
      if (includeSelf = true ∧ i = id) ∨ n.sharesOne client.channels i then some message else none

/-- A numeric addressed to `id`: its own nick is the first parameter. -/
def numericArgs (n : Network) (id : ClientId) (response : Response) (args : List String) :
    Network :=
  n.send id {
    source := some (.serverName n.serverName)
    command := .response response (n.nickOf id :: args) }

def numeric (n : Network) (id : ClientId) (response : Response) (args : List String) : Network :=
  n.numericArgs id response args

/-- A command `irc_proto` has no variant for. -/
def raw (n : Network) (id : ClientId) (command : String) (args : List String) : Network :=
  n.send id { source := some (.serverName n.serverName), command := .raw command args }

/-! ## Coming and going -/

def connect (n : Network) (id : ClientId) : Network :=
  let n := { n with connectionsTotal := n.connectionsTotal + 1 }
  let n := n.emit (.connected id)
  { n with
    clients := n.clients.insert id { connectedAt := n.clock }
    -- the new connection comes with a channel of its own
    queues := Function.update n.queues id [] }

def release (n : Network) (nick : Option String) : Network :=
  { n with nicks := match nick with
      | some nick => n.nicks.erase (fold nick)
      | none => n.nicks }

def leaveAll (n : Network) (id : ClientId) (names : Finset String) : Network :=
  { n with channels := Map.mapVal n.channels fun name channel =>
      if name ∈ names then channel.without id else channel }

def dropEmpty (n : Network) : Network :=
  { n with channels := Map.retain n.channels fun _ channel => channel.members ≠ ∅ }

/-- A connection has gone, for any reason. Everyone who shared a channel is told once. -/
def disconnect (n : Network) (id : ClientId) (reason : String) : Network :=
  match n.clients.lookup id with
  | none => n
  | some client =>
    let n := { n with clients := n.clients.erase id }
    let n := n.release client.nick
    let said := client.quitReason.getD reason
    let event : EventKind := match client.nick, client.registered with
      | some nick, true => .quit nick said
      | _, _ => .dropped id said
    let n := n.emit event
    let quit : Message := { source := some client.origin, command := .quit (some said) }
    let n := n.leaveAll id client.channels
    let n := n.deliver fun i => if n.sharesOne client.channels i then some quit else none
    n.dropEmpty

/-- End a connection from the server's side. -/
def close (n : Network) (id : ClientId) (reason : String) : Network :=
  let reason := truncate reason topicLen
  let n := n.send id (.ofCommand (.error ("Closing Link: " ++ host ++ " (" ++ reason ++ ")")))
  let n := n.modifyClient id ({ · with quitReason := some reason })
  n.disconnect id reason

/-! ## Registration -/

def sendMotd (n : Network) (id : ClientId) : Network :=
  let n := n.numeric id .rplMotdStart ["- " ++ n.serverName ++ " Message of the Day -"]
  let n := n.motd.foldl (fun n line => n.numeric id .rplMotd ["- " ++ line]) n
  n.numeric id .rplEndOfMotd ["End of /MOTD command"]

/-- The `ISUPPORT` tokens, for a network of that name. -/
def isupportTokens (network : String) : List String :=
  let tokens := "NETWORK=" ++ network ++
    " CASEMAPPING=ascii CHANTYPES=# PREFIX=(o)@ CHANMODES=,,, NICKLEN=" ++ toString nickLen ++
    " CHANNELLEN=" ++ toString channelLen ++ " TOPICLEN=" ++ toString topicLen
  (Str.split ' ' tokens).filter (!·.isEmpty)

def sendServerInfo (n : Network) (id : ClientId) : Network :=
  let n := n.numeric id .rplYourHost
    ["Your host is " ++ n.serverName ++ ", running version " ++ n.version]
  let n := n.numeric id .rplCreated ["This server was created when you started it"]
  n.numericArgs id .rplMyInfo [n.serverName, n.version, "", ""]

def sendWelcome (n : Network) (id : ClientId) : Network :=
  let n := n.numeric id .rplWelcome
    ["Welcome to the " ++ n.networkName ++ " Network, " ++ n.nickOf id]
  let n := n.sendServerInfo id
  let n := n.numericArgs id .rplISupport
    (isupportTokens n.networkName ++ ["are supported by this server"])
  n.sendMotd id

def tryRegister (n : Network) (id : ClientId) : Network :=
  let ready := (n.clients.lookup id).any fun c =>
    !c.registered && !c.negotiating && c.nick.isSome && c.user.isSome
  if ready then
    let n := n.modifyClient id ({ · with registered := true })
    let n := n.sendWelcome id
    n.emit (.registered id (n.nickOf id))
  else n

def onCap (n : Network) (id : ClientId) (sub : CapSubCommand) (_arg : Option String) : Network :=
  match sub with
  | .ls | .list =>
    let n := n.modifyClient id ({ · with negotiating := true })
    n.raw id "CAP" [n.nickOf id, "LS", ""]
  | .req => n.raw id "CAP" [n.nickOf id, "NAK", ""]
  | .end =>
    let n := n.modifyClient id ({ · with negotiating := false })
    n.tryRegister id
  | _ => n

def claimNick (n : Network) (id : ClientId) (nick : String) : Network :=
  let n := n.release ((n.clients.lookup id).bind (·.nick))
  let n := { n with nicks := n.nicks.insert (fold nick) id }
  n.modifyClient id ({ · with nick := some nick })

/-- What follows a nick that was free to take. -/
def changeNick (n : Network) (id : ClientId) (nick : String) : Network :=
  let was := (n.clients.lookup id).bind (·.nick)
  let registered := n.isRegistered id
  let n := n.claimNick id nick
  match registered, was with
  | true, some old =>
    if old ≠ nick then
      let n := n.emit (.nickChanged old nick)
      let user := ((n.clients.lookup id).bind (·.user)).getD nick
      n.tellPeers id { source := some (.nickname old user host), command := .nick nick } true
    else n
  | true, none => n
  | false, _ => n.tryRegister id

def onNick (n : Network) (id : ClientId) (nick : String) : Network :=
  let nick := Str.trim nick
  if nick.isEmpty then n.numeric id .errNoNicknameGiven ["No nickname given"]
  else if !validNick nick then
    n.numericArgs id .errErroneousNickname [nick, "Erroneous nickname"]
  else if fold nick ∈ n.banned then
    n.numericArgs id .errErroneousNickname [nick, "Nickname is banned from this server"]
  else if (n.nicks.lookup (fold nick)).any (· ≠ id) then
    n.numericArgs id .errNicknameInUse [nick, "Nickname is already in use"]
  else n.changeNick id nick

def onUser (n : Network) (id : ClientId) (user real : String) : Network :=
  if n.isRegistered id then n.numeric id .errAlreadyRegistred ["You may not reregister"]
  else
    let n := n.modifyClient id ({ · with user := some user, real := some real })
    n.tryRegister id

/-! ## Channels -/

/-- The topic as a reply. `explicit` is a `TOPIC` query, which says "no topic" out loud. -/
def sendTopic (n : Network) (id : ClientId) (key : String) (explicit : Bool) : Network :=
  match n.channels.lookup key with
  | none => n
  | some channel =>
    match channel.topic with
    | some topic =>
      let n := n.numericArgs id .rplTopic [channel.name, topic.text]
      n.numericArgs id .rplTopicWhoTime [channel.name, topic.setBy, toString topic.at_]
    | none =>
      if explicit then n.numericArgs id .rplNoTopic [channel.name, "No topic is set"] else n

/-- The nicks of a channel's members, `@` before an operator's, in order. -/
def memberNames (n : Network) (channel : Channel) : List String :=
  sorted (channel.members.val.filterMap fun m =>
    ((n.clients.lookup m).bind (·.nick)).map fun nick =>
      if m ∈ channel.operators then "@" ++ nick else nick)

def sendNames (n : Network) (id : ClientId) (name : String) : Network :=
  let (shown, names) := match n.channels.lookup (fold name) with
    | some channel => (channel.name, n.memberNames channel)
    | none => (name, [])
  let n := if names.isEmpty then n
    else n.numericArgs id .rplNamReply ["=", shown, Str.join " " names]
  n.numericArgs id .rplEndOfNames [shown, "End of /NAMES list"]

/-- The channel `id` is in once it has joined `name`; whoever creates one is its operator. -/
def entered (n : Network) (id : ClientId) (name : String) : Channel :=
  match n.channels.lookup (fold name) with
  | some channel => { channel with members := insert id channel.members }
  | none => { name, members := {id}, operators := {id} }

/-- Put `id` into a channel it is not in, and tell everyone there. -/
def enter (n : Network) (id : ClientId) (name : String) : Network :=
  let key := fold name
  let channel := n.entered id name
  let shown := channel.name
  let n := { n with channels := n.channels.insert key channel }
  let n := n.modifyClient id fun c => { c with channels := insert key c.channels }
  let join : Message := { source := some (n.originOf id), command := .join shown none none }
  -- the joiner is told first
  let n := n.send id join
  let n := n.broadcast key join (some id)
  let n := n.emit (.joined (n.nickOf id) shown)
  let n := n.sendTopic id key false
  n.sendNames id shown

def onJoin (n : Network) (id : ClientId) (name : String) : Network :=
  if !validChannel name then n.numericArgs id .errNoSuchChannel [name, "No such channel"]
  else if (n.channels.lookup (fold name)).any (id ∈ ·.members) then n
  else n.enter id name

/-- Take `id` out of the channel at `key`, and the channel away with its last member. -/
def removeMember (n : Network) (key : String) (id : ClientId) : Network :=
  let n := { n with
    channels := match n.channels.lookup key with
      | some channel =>
        if (channel.without id).members = ∅ then n.channels.erase key
        else n.channels.insert key (channel.without id)
      | none => n.channels }
  n.modifyClient id fun c => { c with channels := c.channels.erase key }

def onPart (n : Network) (id : ClientId) (name : String) (reason : Option String) : Network :=
  let key := fold name
  match (n.channels.lookup key).filter (id ∈ ·.members) with
  | none => n.numericArgs id .errNotOnChannel [name, "You're not on that channel"]
  | some channel =>
    let part : Message :=
      { source := some (n.originOf id), command := .part channel.name reason }
    -- sent while still a member, so the leaver sees their own PART too
    let n := n.broadcast key part none
    let n := n.emit (.parted (n.nickOf id) channel.name reason)
    n.removeMember key id

/-- Set or clear a topic, `by_` being whoever did it and `origin` how they are shown. -/
def setTopic (n : Network) (key by_ : String) (origin : Prefix) (channel : Channel)
    (text : String) : Network :=
  let n := { n with
    channels := Map.modify n.channels key fun c =>
      { c with topic := if text.isEmpty then none else some ⟨text, by_, n.clock⟩ } }
  let n := n.emit (.topic channel.name by_ text)
  n.broadcast key { source := some origin, command := .topic channel.name (some text) } none

def onTopic (n : Network) (id : ClientId) (name : String) (topic : Option String) : Network :=
  let key := fold name
  match n.channels.lookup key with
  | none => n.numericArgs id .errNoSuchChannel [name, "No such channel"]
  | some channel =>
    match topic with
    | none => n.sendTopic id key true
    | some text =>
      if id ∉ channel.members then
        n.numericArgs id .errNotOnChannel [name, "You're not on that channel"]
      else n.setTopic key (n.nickOf id) (n.originOf id) channel (truncate text topicLen)

/-! ## Messages -/

/-- Whether a message from `id` is going somewhere. -/
def reportable (n : Network) (id : ClientId) (target : String) : Bool :=
  if isChannel target then (n.channels.lookup (fold target)).any (id ∈ ·.members)
  else (n.nicks.lookup (fold target)).isSome

/-- Pass a message on, or say why not. A `NOTICE` never draws a reply. -/
def forward (n : Network) (id : ClientId) (target : String) (message : Message) (notice : Bool) :
    Network :=
  if isChannel target then
    if (n.channels.lookup (fold target)).any (id ∈ ·.members) then
      n.broadcast (fold target) message (some id)
    else if notice then n
    else n.numericArgs id .errCannotSendToChan [target, "Cannot send to channel"]
  else match n.nicks.lookup (fold target) with
    | some receiver => n.send receiver message
    | none =>
      if notice then n else n.numericArgs id .errNoSuchNick [target, "No such nick/channel"]

def onMessage (n : Network) (id : ClientId) (target text : String) (notice : Bool) : Network :=
  if target.isEmpty then
    if notice then n else n.numeric id .errNoRecipient ["No recipient given"]
  else if text.isEmpty then
    if notice then n else n.numeric id .errNoTextToSend ["No text to send"]
  else
    let command : Command := if notice then .notice target text else .privmsg target text
    let message : Message := { source := some (n.originOf id), command }
    let n := { n with messagesTotal := n.messagesTotal + 1 }
    let n := if n.reportable id target then
        n.emit (.message (n.nickOf id) target (if isChannel target then some text else none) notice)
      else n
    n.forward id target message notice

/-! ## Kicks -/

/-- Remove `victim` from a channel, telling everyone in it, the victim included. -/
def kickMember (n : Network) (key : String) (victim : ClientId) (by_ : Prefix)
    (reason : Option String) : Network :=
  match n.channels.lookup key with
  | none => n
  | some channel =>
    let victimNick := n.nickOf victim
    let byName := by_.shown
    let n := n.broadcast key
      { source := some by_, command := .kick channel.name victimNick (some (reason.getD byName)) }
      none
    let n := n.emit (.kicked victimNick channel.name byName reason)
    n.removeMember key victim

/-- `KICK`, from a client. Only a channel operator may. -/
def onKick (n : Network) (id : ClientId) (name nick : String) (reason : Option String) :
    Network :=
  let key := fold name
  match n.channels.lookup key with
  | none => n.numericArgs id .errNoSuchChannel [name, "No such channel"]
  | some channel =>
    if id ∉ channel.members then
      n.numericArgs id .errNotOnChannel [name, "You're not on that channel"]
    else if id ∉ channel.operators then
      n.numericArgs id .errChanOPrivsNeeded [channel.name, "You're not channel operator"]
    else match (n.nicks.lookup (fold nick)).filter (· ∈ channel.members) with
      | none =>
        n.numericArgs id .errUserNotInChannel
          [nick, channel.name, "They aren't on that channel"]
      | some victim =>
        n.kickMember key victim (n.originOf id) (reason.map (truncate · topicLen))

/-- One channel and several nicks kicks them all from it; otherwise the two lists pair off. -/
def kickPairs (channels nicks : String) : List (String × String) :=
  let nicks := (Str.split ',' nicks).map Str.trim
  match (Str.split ',' channels).map Str.trim with
  | [only] => nicks.map (only, ·)
  | many => many.zip nicks

/-! ## Queries -/

/-- `LIST`: every channel, or the ones named, sorted. -/
def onList (n : Network) (id : ClientId) (only : Option String) : Network :=
  let wanted := only.map fun names => (Str.split ',' names).map fun name => fold (Str.trim name)
  let keys := sorted (n.channels.keys.filter fun key => wanted.all (key ∈ ·) : Multiset String)
  let n := n.numericArgs id .rplListStart ["Channel", "Users  Name"]
  let n := keys.foldl (fun n key =>
    match n.channels.lookup key with
    | none => n
    | some c => n.numericArgs id .rplList
        [c.name, toString c.members.card, (c.topic.map (·.text)).getD ""]) n
  n.numeric id .rplListEnd ["End of /LIST"]

/-- The channels a client is in, `@` before those it is an operator of, in order. -/
def roomsOf (n : Network) (target : ClientId) (client : Client) : List String :=
  sorted (client.channels.val.filterMap fun key =>
    (n.channels.lookup key).map fun c => if target ∈ c.operators then "@" ++ c.name else c.name)

def onWhois (n : Network) (id : ClientId) (nick : String) : Network :=
  match (n.nicks.lookup (fold nick)).filter n.isRegistered with
  | none =>
    let n := n.numericArgs id .errNoSuchNick [nick, "No such nick/channel"]
    n.numericArgs id .rplEndOfWhois [nick, "End of /WHOIS list"]
  | some target =>
    match n.clients.lookup target with
    | none => n
    | some client =>
      let name := client.shownNick
      let rooms := n.roomsOf target client
      let n := n.numericArgs id .rplWhoisUser
        [name, client.user.getD name, host, "*", client.real.getD ""]
      let n := n.numericArgs id .rplWhoisServer [name, n.serverName, n.networkName]
      let n := if rooms.isEmpty then n
        else n.numericArgs id .rplWhoisChannels [name, Str.join " " rooms]
      n.numericArgs id .rplEndOfWhois [name, "End of /WHOIS list"]

def ping (n : Network) (id : ClientId) : Network :=
  if n.isRegistered id then n.send id (.ofCommand (.ping n.serverName none)) else n

def onPing (n : Network) (id : ClientId) (token : String) : Network :=
  n.send id {
    source := some (.serverName n.serverName), command := .pong n.serverName (some token) }

/-! ## Dispatch -/

def registeredCommand (n : Network) (id : ClientId) : Command → Network
  | .join targets _ _ =>
    (Str.split ',' targets).foldl (fun n target => n.onJoin id (Str.trim target)) n
  | .part targets reason =>
    (Str.split ',' targets).foldl (fun n target => n.onPart id (Str.trim target) reason) n
  | .privmsg target text => n.onMessage id target text false
  | .notice target text => n.onMessage id target text true
  | .topic channel topic => n.onTopic id channel topic
  | .kick channels nicks reason =>
    (kickPairs channels nicks).foldl (fun n p => n.onKick id p.1 p.2 reason) n
  | .names (some channels) _ =>
    (Str.split ',' channels).foldl (fun n name => n.sendNames id (Str.trim name)) n
  | .motd _ => n.sendMotd id
  | .list channels _ => n.onList id channels
  | .whois target masks =>
    -- the nick is the last word, whichever form was used
    let asked := if masks.isEmpty then target.getD "" else masks
    (((Str.split ',' asked).map Str.trim).filter (!·.isEmpty)).foldl
      (fun n nick => n.onWhois id nick) n
  | .channelMode channel [] => n.raw id "324" [n.nickOf id, channel, "+"]
  | .channelMode .. | .userMode .. => n
  | other => n.numericArgs id .errUnknownCommand [other.verb, "Unknown command"]

def handle (n : Network) (id : ClientId) (message : Message) : Network :=
  if (n.clients.lookup id).isNone then n
  else match message.command with
    | .cap _ sub arg suffix => n.onCap id sub (arg.or suffix)
    | .nick nick => n.onNick id nick
    | .user user _ real => n.onUser id user real
    | .pass _ => n
    | .ping token _ => n.onPing id token
    | .pong .. => n
    | .quit reason => n.close id ((reason.map (truncate · topicLen)).getD "Quit")
    | command =>
      if n.isRegistered id then n.registeredCommand id command
      else n.numeric id .errNotRegistered ["You have not registered"]

end Network

end Ddirc.Server
