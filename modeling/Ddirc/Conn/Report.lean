import Ddirc.Api.Event
import Ddirc.Text.Format
import Ddirc.Dcc.Offer
import Ddirc.Client.Session
import Ddirc.Lib.Match

/-! # What the user interface is told of a message

The other half of the actor's `handle`: the events that it emits for a message from the server, by
the session before and after it. Numerics that only raise an error line, a directory or a profile
are left out. -/

namespace Ddirc.Conn
open Irc Client Api

/-- What the standard library knows of characters and addresses, and when a tag says a message was
said. -/
structure Platform where
  isAlphanumeric : Char → Bool
  lowercase : Char → List Char
  parseIp : String → Option Dcc.IpAddr
  serverTime : String → Option Nat

end Ddirc.Conn

namespace Ddirc.Client
open Irc Conn

def Prefixes.rank (p : Prefixes) (mark : Char) : Option Nat := p.pairs.findIdx? (·.2 == mark)

/-- The most privileged prefix held: the first of the server's that is. -/
def Prefixes.highest (p : Prefixes) (held : Finset Char) : Option Char :=
  (p.pairs.map (·.2)).find? (· ∈ held)

def Member.displayPrefix (m : Member) (p : Prefixes) : Option Char := p.highest m.prefixes

/-- A number below `2 ^ 16` in four hexadecimal digits. -/
def hex4 (n : Nat) : List Char :=
  [12, 8, 4, 0].map fun shift => Nat.digitChar ((n >>> shift) &&& 0xf)

/-- Where a member sorts, as one string: privilege first, then the nick in lower case. -/
def Member.sortKey (lowercase : Char → List Char) (m : Member) (p : Prefixes) : String :=
  let rank := ((m.displayPrefix p).bind p.rank).elim 0xffff (min 0xffff)
  String.ofList (hex4 rank ++ [Char.ofNat 1] ++ m.nick.toList.flatMap lowercase)

namespace Session

/-- How the roster spells a nick, wherever it knows them. The channels are held in no order: `pick`
is the one that comes first. -/
def knownNick (s : Session) (nick : String) (pick : Nat) : Option String :=
  let found := (Map.values s.channels).filterMap fun c =>
    (c.members.lookup (s.normalize nick)).map (·.nick)
  found[pick % found.length]?

def isNickChar (u : Platform) (c : Char) : Bool :=
  u.isAlphanumeric c || "[]\\`_^\x7b|\x7d-".toList.contains c

def isMention (u : Platform) (s : Session) (text : String) : Bool :=
  let needle := (s.normalize s.nick).toList
  let haystack := (s.normalize text).toList
  Match.hasWord (isNickChar u) needle haystack

end Session

end Ddirc.Client

namespace Ddirc.Conn
open Irc Client Api

variable (u : Platform)

def maxMsgid : Nat := 128

/-! ## Members -/

def viewOf (p : Prefixes) (m : Member) : MemberView :=
  { nick := m.nick, mark := (m.displayPrefix p).map String.singleton, away := m.away
    sortKey := m.sortKey u.lowercase p }

def memberView (s : Session) (channel nick : String) : Option MemberView := do
  let c ← s.channel channel
  let m ← c.members.lookup (s.normalize nick)
  some (viewOf u s.isupport.prefixes m)

def emitMemberChanged (s : Session) (channel previous nick : String) : List IrcEvent :=
  let member := memberView u s channel nick
  if member.isNone && (s.channel channel).isNone then []
  else [.memberChanged channel previous member]

/-- The members in the order of their keys, which are compared by their bytes. -/
def sortedMembers (s : Session) (c : Channel) : List MemberView :=
  ((Map.values c.members).map (viewOf u s.isupport.prefixes)).insertionSort
    fun a b => Str.bytes a.sortKey ≤ Str.bytes b.sortKey

def emitMemberList (s : Session) (channel : String) : List IrcEvent :=
  match s.channel channel with
  | none => []
  | some c => [.memberList c.name (sortedMembers u s c)]

/-! ## Chat -/

def Message.tag (m : Message) (name : String) : Option String :=
  (((m.tags.getD []).find? (·.key = name)).bind (·.value)).filter (!·.isEmpty)

/-- What is left of a line when the quoted beginning of a reply is taken off. -/
def replyBody (text : String) : String :=
  ((Text.parseReply u.isAlphanumeric text).map (·.2)).getD text

/-- A CTCP request that is not `ACTION` is shown only if it offers a file. -/
def reportCtcp (s : Session) (id : Nat) (target body sender : String) (isNotice : Bool) :
    List IrcEvent :=
  if isNotice then []
  else if s.isSelf target &&
    ((Dcc.parseResume body).isSome || (Dcc.parseAccept body).isSome) then []
  else match Dcc.parseSend u.parseIp body with
    | none => []
    | some offer =>
      let channel := if s.isSelf target then sender else target
      [.fileOffered id channel sender offer.filename offer.size offer.port]

def reportChat (s : Session) (id : Nat) (m : Message) (target text sender : String)
    (isNotice : Bool) : List IrcEvent :=
  let trimmed := Str.trimMatches (·.toNat == 1) text
  let action := Str.stripStr "ACTION " trimmed
  if action.isNone && text.toList.head?.any (·.toNat == 1) then
    reportCtcp u s id target trimmed sender isNotice
  else
    let body := action.getD (replyBody u text)
    [.message
      { target := if s.isSelf target then .direct sender else .channel target
        sender
        text := Text.strip body
        isSelf := s.isSelf sender
        isMention := !s.isSelf sender && s.isMention u body
        isAction := action.isSome
        isNotice
        msgid := (Message.tag m "msgid").map (Str.takeChars maxMsgid)
        serverTimeMs := (Message.tag m "time").bind u.serverTime }]

/-! ## Messages -/

def kickReason (source : Option String) (reason : Option String) : String :=
  let setBy := source.getD "the server"
  match reason.map Text.strip with
  | some why => if why.isEmpty then "kicked by " ++ setBy else "kicked by " ++ setBy ++ ": " ++ why
  | none => "kicked by " ++ setBy

def reportPart (s : Session) (pick : Nat) (channel nick : String) (reason : Option String) :
    List IrcEvent :=
  let filedAs := (s.knownNick nick pick).getD nick
  let (s', left) := s.onPart channel nick
  if !left then []
  else
    .parted channel nick (s.isSelf nick) reason ::
      if s.isSelf nick then [] else emitMemberChanged u s' channel filedAs filedAs

def report (s : Session) (pick id : Nat) (m : Message) : List IrcEvent :=
  let s' := s.receive m
  match m.command, m.sourceNickname with
  | .response .rplWelcome _, _ => [.registered s'.nick]
  | .response .rplEndOfNames args, _ => (args[1]?.map (emitMemberList u s')).getD []
  | .response .rplTopic args, _ =>
    match args[1]?, args[2]? with
    | some channel, some topic => [.topicChanged channel (Text.strip topic) none]
    | _, _ => []
  | .topic channel (some topic), source => [.topicChanged channel (Text.strip topic) source]
  | .join channel _ _, some nick =>
    if !(s.onJoin channel nick).2 then []
    else
      .joined channel nick (s'.isSelf nick) ::
        if s'.isSelf nick then emitMemberList u s' channel
        else emitMemberChanged u s' channel nick nick
  | .part channel reason, some nick => reportPart u s pick channel nick (reason.map Text.strip)
  | .kick channel victim reason, source =>
    reportPart u s pick channel victim (some (kickReason source reason))
  | .quit reason, some nick =>
    let filedAs := (s.knownNick nick pick).getD nick
    (s.onQuit nick).2.flatMap fun channel =>
      .quit channel nick (reason.map Text.strip) :: emitMemberChanged u s' channel filedAs filedAs
  | .nick new, some old =>
    let filedAs := (s.knownNick old pick).getD old
    (s.onNickChange old new).2.flatMap fun channel =>
      .nickChanged channel old new (s.isSelf old) :: emitMemberChanged u s' channel filedAs new
  | .away message, some nick =>
    let filedAs := (s.knownNick nick pick).getD nick
    (s.setAway nick message.isSome).2.flatMap fun channel =>
      emitMemberChanged u s' channel filedAs filedAs
  | .channelMode channel modes, source =>
    let affected := (s.onModes channel modes).2
    if affected.isEmpty then []
    else
      .modeChanged channel source affected ::
        affected.flatMap fun nick => emitMemberChanged u s' channel nick nick
  | .privmsg target text, some sender => reportChat u s id m target text sender false
  | .notice target text, some sender => reportChat u s id m target text sender true
  | _, _ => []

end Ddirc.Conn
