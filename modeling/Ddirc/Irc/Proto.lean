import Mathlib.Data.List.Basic

/-! # IRC messages

The message type shared by the local server and the client: the part of `irc_proto` that either
side distinguishes. A command that neither looks at, or that the library has no variant for, is
`raw`. A channel mode is its letter. -/

namespace Ddirc.Irc

inductive CapSubCommand where
  | ls | list | req | ack | nak | «end» | new | del
  deriving Repr, DecidableEq

/-- The numeric replies that the code names; `other` is any other, by its code. -/
inductive Response where
  | rplWelcome | rplYourHost | rplCreated | rplMyInfo | rplISupport
  | rplListStart | rplList | rplListEnd
  | rplNoTopic | rplTopic | rplTopicWhoTime
  | rplNamReply | rplEndOfNames
  | rplMotdStart | rplMotd | rplEndOfMotd
  | rplAway | rplWhoisUser | rplWhoisServer | rplWhoisOperator | rplWhoisIdle
  | rplWhoisChannels | rplEndOfWhois
  | errNoSuchNick | errNoSuchChannel | errCannotSendToChan | errNoRecipient | errNoTextToSend
  | errUnknownCommand | errNoNicknameGiven | errErroneousNickname | errNicknameInUse
  | errUserNotInChannel | errNotOnChannel | errNotRegistered | errAlreadyRegistred
  | errChanOPrivsNeeded
  | rplSaslSuccess | errNickLocked | errSaslFail | errSaslTooLong | errSaslAbort | errSaslAlready
  | other (code : Nat)
  deriving Repr, DecidableEq

def Response.code : Response → Nat
  | rplWelcome => 1 | rplYourHost => 2 | rplCreated => 3 | rplMyInfo => 4 | rplISupport => 5
  | rplListStart => 321 | rplList => 322 | rplListEnd => 323
  | rplNoTopic => 331 | rplTopic => 332 | rplTopicWhoTime => 333
  | rplNamReply => 353 | rplEndOfNames => 366
  | rplMotdStart => 375 | rplMotd => 372 | rplEndOfMotd => 376
  | rplAway => 301 | rplWhoisUser => 311 | rplWhoisServer => 312 | rplWhoisOperator => 313
  | rplWhoisIdle => 317 | rplWhoisChannels => 319 | rplEndOfWhois => 318
  | errNoSuchNick => 401 | errNoSuchChannel => 403 | errCannotSendToChan => 404
  | errNoRecipient => 411 | errNoTextToSend => 412
  | errUnknownCommand => 421 | errNoNicknameGiven => 431 | errErroneousNickname => 432
  | errNicknameInUse => 433 | errUserNotInChannel => 441 | errNotOnChannel => 442
  | errNotRegistered => 451 | errAlreadyRegistred => 462 | errChanOPrivsNeeded => 482
  | rplSaslSuccess => 903 | errNickLocked => 902 | errSaslFail => 904 | errSaslTooLong => 905
  | errSaslAbort => 906 | errSaslAlready => 907
  | other n => n

/-- One change of a `MODE` line: its sign, the mode's letter and the argument it took. -/
inductive Mode where
  | plus (mode : Char) (arg : Option String)
  | minus (mode : Char) (arg : Option String)
  | noPrefix (mode : Char)
  deriving Repr, DecidableEq

inductive Command where
  | cap (target : Option String) (sub : CapSubCommand) (arg suffix : Option String)
  | nick (nick : String)
  | user (user mode real : String)
  | pass (password : String)
  | ping (server : String) (server2 : Option String)
  | pong (server : String) (server2 : Option String)
  | quit (reason : Option String)
  | join (channels : String) (keys real : Option String)
  | part (channels : String) (reason : Option String)
  | privmsg (target text : String)
  | notice (target text : String)
  | topic (channel : String) (topic : Option String)
  | kick (channels nicks : String) (reason : Option String)
  | names (channels target : Option String)
  | motd (target : Option String)
  | list (channels server : Option String)
  | whois (target : Option String) (masks : String)
  | channelMode (channel : String) (modes : List Mode)
  | userMode (nick : String) (modes : List Mode)
  | away (message : Option String)
  | error (message : String)
  | authenticate (payload : String)
  | response (response : Response) (args : List String)
  | raw (command : String) (args : List String)
  deriving Repr, DecidableEq

/-- The first word of a command's rendering. -/
def Command.verb : Command → String
  | cap .. => "CAP" | nick _ => "NICK" | user .. => "USER" | pass _ => "PASS" | ping .. => "PING"
  | pong .. => "PONG" | quit _ => "QUIT" | join .. => "JOIN" | part .. => "PART"
  | privmsg .. => "PRIVMSG" | notice .. => "NOTICE" | topic .. => "TOPIC" | kick .. => "KICK"
  | names .. => "NAMES" | motd _ => "MOTD" | list .. => "LIST" | whois .. => "WHOIS"
  | channelMode .. => "MODE" | userMode .. => "MODE" | away _ => "AWAY" | error _ => "ERROR"
  | authenticate _ => "AUTHENTICATE"
  | response r _ =>
    (if r.code < 10 then "00" else if r.code < 100 then "0" else "") ++ toString r.code
  | raw command _ => String.ofList (command.toList.takeWhile (· != ' '))

/-- Where a message comes from: `nick!user@host`, or a server's name. -/
inductive Prefix where
  | nickname (nick user host : String)
  | serverName (name : String)
  deriving Repr, DecidableEq

def Prefix.shown : Prefix → String
  | .nickname nick _ _ => nick
  | .serverName name => name

structure Tag where
  key : String
  value : Option String
  deriving Repr, DecidableEq

structure Message where
  tags : Option (List Tag) := none
  source : Option Prefix := none
  command : Command
  deriving Repr, DecidableEq

def Message.ofCommand (command : Command) : Message := { command }

def Message.sourceNickname (m : Message) : Option String :=
  match m.source with
  | some (.nickname nick _ _) => some nick
  | _ => none

/-! ## Reading a line back -/

def isChannelName (name : String) : Bool :=
  name.toList.head?.any fun c => "#&+!".toList.contains c

/-- How a client reads back what a server here sends it. The wire alters nothing, but a `MODE` that
was sent as a raw line is read as the command its words spell. -/
class LineReader where
  reread : Command → Command
  reread_cooked : ∀ {c}, (∀ command args, c ≠ .raw command args) → reread c = c
  reread_raw : ∀ {command} args, command ≠ "MODE" → reread (.raw command args) = .raw command args
  reread_mode : ∀ {name}, isChannelName name → ∀ (give : Bool) nick,
    reread (.raw "MODE" [name, if give then "+o" else "-o", nick]) =
      .channelMode name [if give then .plus 'o' (some nick) else .minus 'o' (some nick)]

def Message.reread [LineReader] (m : Message) : Message :=
  { m with command := LineReader.reread m.command }

theorem Message.reread_cooked [LineReader] {m : Message}
    (h : ∀ command args, m.command ≠ .raw command args) : m.reread = m := by
  rw [reread, LineReader.reread_cooked h]

end Ddirc.Irc
