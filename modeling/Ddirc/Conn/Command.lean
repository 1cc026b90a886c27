import Ddirc.Conn.Actor
import Ddirc.Conn.Report

/-! # Commands of the user

What the user interface asks of a connection, and what the actor's `queue` makes of it: messages on
the outgoing queue, and our own lines shown at once, before any of them is sent. -/

namespace Ddirc.Conn
open Irc Client Api Text

inductive ClientCommand where
  | join (channel : String) (key : Option String)
  | part (channel : String) (reason : Option String)
  | kick (channel nick : String) (reason : Option String)
  | sendMessage (target text : String)
  | sendAction (target text : String)
  | sendReply (target text : String) (reply : ReplyRef)
  | setNick (nick : String)
  | setTopic (channel topic : String)
  | listChannels
  | whois (nick : String)
  | editMessage (target msgid text : String)
  | retractMessage (target msgid : String)
  | catchUpChats (sinceMs : Int)
  /-- What concerns contacts and presence, which only XMPP has. -/
  | contacts
  | reconnect
  | disconnect (reason : Option String)
  | sendFile (target path : String)
  | acceptFile (id : Nat) (directory : String)
  | cancelTransfer (id : Nat)
  deriving Repr, DecidableEq

def maxMessageChars : Nat := 400

def sanitizeOutgoing (text : String) : List String :=
  let cleaned (line : String) := line.toList.filter fun c => c != '\r' && c != '\n' && c.toNat != 0
  ((Str.lines text).flatMap fun line =>
    (Str.chunks maxMessageChars (cleaned line)).map String.ofList).filter
      fun line => !(Str.trim line).isEmpty

def replyTag : String := "+draft/reply"

/-- One word, which cannot become a second argument or a second command. -/
def isWord (s : String) : Bool :=
  !s.isEmpty && !s.toList.any fun c => Str.isWhitespace c || Str.isControl c

/-- A topic is one line: its line ends become blanks. -/
def topicLine (topic : String) : String :=
  Str.takeChars maxTopic
    (Str.trim (String.ofList (topic.toList.map fun c => if Str.isControl c then ' ' else c)))

namespace ClientCommand

/-- The lines of a command that says something, as the server is to get them. -/
def lines : ClientCommand → List (String × String)
  | .sendMessage target text => (sanitizeOutgoing text).map (target, ·)
  | .sendReply target text reply => (sanitizeOutgoing (reply.quote text)).map (target, ·)
  | .sendAction target text =>
    (sanitizeOutgoing text).map fun line => (target, "\x01ACTION " ++ line ++ "\x01")
  | _ => []

end ClientCommand

namespace Connection

def queued (c : Connection) : ClientCommand → List Message
  | .join channel key => [.ofCommand (.join channel key none)]
  | .part channel reason => [.ofCommand (.part channel reason)]
  | .kick channel nick reason =>
    let reason := (reason.map fun r =>
      String.ofList (r.toList.filter (!Str.isControl ·))).filter (!·.isEmpty)
    if isWord channel && isWord nick then [.ofCommand (.kick channel nick reason)] else []
  | .sendMessage target text =>
    (sanitizeOutgoing text).map fun line => .ofCommand (.privmsg target line)
  | .sendReply target text reply =>
    let tag := (reply.msgid.filter fun _ => c.clientTags).map fun id =>
      [{ key := replyTag, value := some id : Tag }]
    -- Only the first line carries the tag: the rest of a long reply is its continuation.
    match sanitizeOutgoing (reply.quote text) with
    | [] => []
    | first :: rest =>
      { tags := tag, command := .privmsg target first } ::
        rest.map fun line => .ofCommand (.privmsg target line)
  | .sendAction target text =>
    (sanitizeOutgoing text).map fun line =>
      .ofCommand (.privmsg target ("\x01ACTION " ++ line ++ "\x01"))
  | .listChannels => if c.listing.isNone then [.ofCommand (.list none none)] else []
  | .whois nick => if isWord (Str.trim nick) then [.ofCommand (.whois none (Str.trim nick))] else []
  | .setNick nick => [.ofCommand (.nick nick)]
  | .setTopic channel topic => [.ofCommand (.topic channel (some (topicLine topic)))]
  | .reconnect | .disconnect _ | .sendFile .. | .acceptFile .. | .cancelTransfer _
  | .editMessage .. | .retractMessage .. | .catchUpChats _ | .contacts => []

/-- One of our own lines, shown when it is queued. A target that is tracked is a channel. -/
def echo (u : Platform) (c : Connection) (target line : String) (isAction : Bool) : IrcEvent :=
  .message
    { target := if (c.session.channel target).isSome then .channel target else .direct target
      sender := c.session.nick
      text := Text.strip (if isAction then line else replyBody u line)
      isSelf := true
      isAction }

def shown (u : Platform) (c : Connection) : ClientCommand → List IrcEvent
  | .sendMessage target text => (sanitizeOutgoing text).map fun line => c.echo u target line false
  | .sendReply target text reply =>
    (sanitizeOutgoing (reply.quote text)).map fun line => c.echo u target line false
  | .sendAction target text => (sanitizeOutgoing text).map fun line => c.echo u target line true
  | .editMessage .. | .retractMessage .. | .catchUpChats _ | .contacts =>
    [.error "That is not available on IRC." false]
  | _ => []

def command (c : Connection) (cmd : ClientCommand) : Connection × Turn :=
  let listing := match cmd with
    | .listChannels => some (c.listing.getD {})
    | _ => c.listing
  let (c, turn) := { c with listing }.push (c.queued cmd)
  (c.reportDrops, turn)

end Connection

end Ddirc.Conn
