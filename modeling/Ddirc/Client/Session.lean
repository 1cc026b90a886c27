import Ddirc.Lib.Map
import Ddirc.Irc.Proto
import Ddirc.Client.Isupport

/-! # What the client knows of a session

`state/mod.rs`: channels, members, privileges and topics, as the server's messages give them. Names
are filed under their normal form and shown as the server spelled them. `Session.receive` is the
part of the connection actor's `handle` that touches the session. -/

namespace Ddirc.Client
open Irc

def maxChannels : Nat := 512
def maxMembers : Nat := 20000
def maxTopic : Nat := 1000
def maxNick : Nat := 64
def maxChannelName : Nat := 200

structure Member where
  nick : String
  prefixes : Finset Char := ∅
  away : Bool := false
  deriving DecidableEq

def Member.ofNick (nick : String) : Member := { nick := Str.takeChars maxNick nick }

structure Channel where
  name : String
  topic : Option String := none
  members : Map String Member := ∅
  /-- Set while a `NAMES` burst is being received: its first line replaces the roster. -/
  namesInProgress : Bool := false

def Channel.ofName (name : String) : Channel := { name := Str.takeChars maxChannelName name }

structure Session where
  nick : String
  isupport : ISupport := {}
  channels : Map String Channel := ∅

namespace Session

def init (nick : String) : Session := { nick := Str.takeChars maxNick nick }

def setNick (s : Session) (nick : String) : Session := { s with nick := Str.takeChars maxNick nick }

def normalize (s : Session) (name : String) : String := s.isupport.casemapping.normalize name

def isSelf (s : Session) (nick : String) : Bool := s.isupport.casemapping.eq nick s.nick

def channel (s : Session) (name : String) : Option Channel := s.channels.lookup (s.normalize name)

def modifyChannel (s : Session) (key : String) (f : Channel → Channel) : Session :=
  { s with channels := Map.modify s.channels key f }

def mapChannels (s : Session) (f : Channel → Channel) : Session :=
  { s with channels := Map.mapVal s.channels fun _ => f }

/-- Rebuild every key after a change of case mapping. -/
def rekey (s : Session) : Session :=
  let mapping := s.isupport.casemapping
  let refile (ms : Map String Member) : Map String Member :=
    (Map.values ms).foldl (fun ms m => ms.insert (mapping.normalize m.nick) m) ∅
  let file (cs : Map String Channel) (c : Channel) : Map String Channel :=
    cs.insert (mapping.normalize c.name) { c with members := refile c.members }
  { s with channels := (Map.values s.channels).foldl file ∅ }

def onIsupport (s : Session) (tokens : List String) : Session :=
  let s' := { s with isupport := s.isupport.apply tokens }
  if s'.isupport.casemapping ≠ s.isupport.casemapping then s'.rekey else s'

def track (s : Session) (key name : String) : Session :=
  { s with channels := s.channels.insert key (Channel.ofName name) }

def addMember (s : Session) (key nick : String) : Session × Bool :=
  let memberKey := s.normalize nick
  match s.channels.lookup key with
  | none => (s, false)
  | some c =>
    if c.members.entries.length ≥ maxMembers ∧ (c.members.lookup memberKey).isNone then (s, false)
    else
      let c := { c with members := c.members.insert memberKey (Member.ofNick nick) }
      ({ s with channels := s.channels.insert key c }, true)

/-- `nick` joined `channel`. A channel is created only for our own join. -/
def onJoin (s : Session) (channel nick : String) : Session × Bool :=
  let key := s.normalize channel
  if (s.channels.lookup key).isSome then s.addMember key nick
  else if !s.isSelf nick ∨ s.channels.entries.length ≥ maxChannels then (s, false)
  else (s.track key channel).addMember key nick

/-- `nick` left `channel`; our own part removes it. -/
def onPart (s : Session) (channel nick : String) : Session × Bool :=
  let key := s.normalize channel
  if s.isSelf nick then
    ({ s with channels := s.channels.erase key }, (s.channels.lookup key).isSome)
  else
    let memberKey := s.normalize nick
    (s.modifyChannel key fun c => { c with members := c.members.erase memberKey },
      (s.channels.lookup key).any fun c => (c.members.lookup memberKey).isSome)

/-- `nick` quit the network. Returns the names of the channels they were in. -/
def onQuit (s : Session) (nick : String) : Session × List String :=
  if s.isSelf nick then ({ s with channels := ∅ }, (Map.values s.channels).map (·.name))
  else
    let memberKey := s.normalize nick
    (s.mapChannels fun c => { c with members := c.members.erase memberKey },
      ((Map.values s.channels).filter fun c => (c.members.lookup memberKey).isSome).map (·.name))

/-- A member filed under `oldKey` is filed under `newKey`, with the new spelling. -/
def renameMember (oldKey newKey shown : String) (ms : Map String Member) : Map String Member :=
  match ms.lookup oldKey with
  | none => ms
  | some member => (ms.erase oldKey).insert newKey { member with nick := shown }

/-- A nick change, preserving privileges. Returns the names of the channels affected. -/
def onNickChange (s : Session) (old new : String) : Session × List String :=
  let s := if s.isSelf old then s.setNick new else s
  let oldKey := s.normalize old
  (s.mapChannels fun c =>
      { c with
        members := renameMember oldKey (s.normalize new) (Str.takeChars maxNick new) c.members },
    ((Map.values s.channels).filter fun c => (c.members.lookup oldKey).isSome).map (·.name))

def addName (i : ISupport) (ms : Map String Member) (entry : String) : Map String Member :=
  if ms.entries.length ≥ maxMembers then ms
  else
    let (found, nick) := i.prefixes.splitPrefixes entry
    if nick.isEmpty then ms
    else
      let key := i.casemapping.normalize nick
      let member := (ms.lookup key).getD (Member.ofNick nick)
      ms.insert key { member with prefixes := member.prefixes ∪ found.toFinset }

/-- One `353` line; the first of a burst replaces the roster. -/
def onNamesReply (s : Session) (channel names : String) : Session :=
  let key := s.normalize channel
  let fill (c : Channel) : Channel :=
    { c with
      namesInProgress := true
      members := (Str.splitWhitespace names).foldl (addName s.isupport)
        (if c.namesInProgress then c.members else ∅) }
  if (s.channels.lookup key).isSome then s.modifyChannel key fill
  else if s.channels.entries.length ≥ maxChannels then s
  else (s.track key channel).modifyChannel key fill

def onEndOfNames (s : Session) (channel : String) : Session :=
  s.modifyChannel (s.normalize channel) ({ · with namesInProgress := false })

def onTopic (s : Session) (channel topic : String) : Session :=
  s.modifyChannel (s.normalize channel) ({ · with topic := some (Str.takeChars maxTopic topic) })

def setPrefix (ms : Map String Member) (key : String) (mark : Char) (adding : Bool) :
    Map String Member :=
  Map.modify ms key fun m =>
    { m with prefixes := if adding then insert mark m.prefixes else m.prefixes.erase mark }

/-- The letters of a mode string against their parameters. Returns the nicks affected. -/
def modeLoop (i : ISupport) :
    List Char → List String → Bool → Map String Member → Map String Member × List String
  | [], _, _, ms => (ms, [])
  | mode :: modes, params, adding, ms =>
    if mode = '+' then modeLoop i modes params true ms
    else if mode = '-' then modeLoop i modes params false ms
    else if i.prefixes.isPrefixMode mode then
      match params with
      | [] => (ms, [])
      | target :: params =>
        let key := i.casemapping.normalize target
        match i.prefixes.prefixForMode mode, ms.lookup key with
        | some mark, some member =>
          let (ms, changed) := modeLoop i modes params adding (setPrefix ms key mark adding)
          (ms, member.nick :: changed)
        | _, _ => modeLoop i modes params adding ms
    else if i.chanmodes.takesParameter mode adding then
      match params with
      | [] => (ms, [])
      | _ :: params => modeLoop i modes params adding ms
    else modeLoop i modes params adding ms

/-- A channel `MODE` change. Returns the nicks whose privileges changed. -/
def onMode (s : Session) (channel modes : String) (params : List String) :
    Session × List String :=
  let key := s.normalize channel
  match s.channels.lookup key with
  | none => (s, [])
  | some c =>
    let (members, changed) := modeLoop s.isupport modes.toList params true c.members
    ({ s with channels := s.channels.insert key { c with members } }, changed)

/-- Mark a member away or back in every channel. Returns the channels where that was news. -/
def setAway (s : Session) (nick : String) (away : Bool) : Session × List String :=
  let key := s.normalize nick
  (s.mapChannels fun c => { c with members := Map.modify c.members key ({ · with away }) },
    ((Map.values s.channels).filter fun c => (c.members.lookup key).any (·.away ≠ away)).map
      (·.name))

end Session

/-! ## Messages -/

/-- A mode as its sign, letter and argument; one with no sign is being set. -/
def modeParts : Mode → Char × Char × Option String
  | .plus mode arg => ('+', mode, arg)
  | .minus mode arg => ('-', mode, arg)
  | .noPrefix mode => ('+', mode, none)

/-- The mode string of the actor's `on_mode`: a sign wherever it changes. -/
def modeString : Option Char → List Mode → List Char
  | _, [] => []
  | sign, m :: ms =>
    let (s, mode, _) := modeParts m
    (if sign = some s then [mode] else [s, mode]) ++ modeString (some s) ms

def modeParams (ms : List Mode) : List String := ms.filterMap fun m => (modeParts m).2.2

namespace Session

/-- The actor's `on_mode`, up to its events. -/
def onModes (s : Session) (channel : String) (modes : List Mode) : Session × List String :=
  s.onMode channel (String.ofList (modeString none modes)) (modeParams modes)

def receive (s : Session) (m : Message) : Session :=
  match m.command, m.sourceNickname with
  | .response .rplWelcome args, _ => (args.head?.map s.setNick).getD s
  | .response .rplISupport args, _ => s.onIsupport args
  | .response .rplNamReply args, _ =>
    match args[2]?, args[3]? with
    | some channel, some names => s.onNamesReply channel names
    | _, _ => s
  | .response .rplEndOfNames args, _ => (args[1]?.map s.onEndOfNames).getD s
  | .response .rplTopic args, _ =>
    match args[1]?, args[2]? with
    | some channel, some topic => s.onTopic channel topic
    | _, _ => s
  | .topic channel (some topic), _ => s.onTopic channel topic
  | .join channel _ _, some nick => (s.onJoin channel nick).1
  | .part channel _, some nick => (s.onPart channel nick).1
  | .kick channel victim _, _ => (s.onPart channel victim).1
  | .quit _, some nick => (s.onQuit nick).1
  | .nick new, some old => (s.onNickChange old new).1
  | .away message, some nick => (s.setAway nick message.isSome).1
  | .channelMode channel modes, _ => (s.onModes channel modes).1
  | _, _ => s

end Session

end Ddirc.Client
