import Ddirc.Text.Reply

/-! # What the core tells the app

`api/types.rs` and `api/events.rs`. The two sides share these types and nothing else. Events that
concern no conversation (the connection's state, the directory, contacts, profiles) are left out. -/

namespace Ddirc.Api

inductive Target where
  | channel (name : String)
  | direct (nick : String)
  deriving Repr, DecidableEq

def Target.name : Target → String
  | .channel name | .direct name => name

/-- A chat message, with its formatting flattened. -/
structure ChatMessage where
  target : Target
  sender : String
  text : String
  isSelf : Bool := false
  isMention : Bool := false
  isAction : Bool := false
  isNotice : Bool := false
  msgid : Option String := none
  serverTimeMs : Option Nat := none
  deriving Repr, DecidableEq

structure MemberView where
  nick : String
  mark : Option String := none
  away : Bool := false
  sortKey : String
  deriving Repr, DecidableEq

inductive IrcEvent where
  | registered (nick : String)
  | message (m : ChatMessage)
  | joined (channel nick : String) (isSelf : Bool)
  | parted (channel nick : String) (isSelf : Bool) (reason : Option String)
  | quit (channel nick : String) (reason : Option String)
  | nickChanged (channel old new : String) (isSelf : Bool)
  | topicChanged (channel topic : String) (setBy : Option String)
  | memberList (channel : String) (members : List MemberView)
  /-- The row filed under `previous` becomes `member`, or goes. -/
  | memberChanged (channel previous : String) (member : Option MemberView)
  | modeChanged (channel : String) (setBy : Option String) (affected : List String)
  | messagesDropped (channel : Option String) (count : Nat)
  | fileOffered (id : Nat) (channel sender filename : String) (size : Option Nat)
    (port : Option Nat)
  | fileTransferStarted (id : Nat) (channel filename : String) (incoming : Bool)
    (total : Option Nat)
  | fileTransferProgress (id transferred : Nat)
  | fileTransferEnded (id : Nat) (channel filename : String) (path error : Option String)
  | messageEdited (target : Target) (msgid sender : String) (m : ChatMessage)
  | messageRetracted (target : Target) (msgid sender : String)
  | error (message : String) (fatal : Bool)
  deriving Repr, DecidableEq

end Ddirc.Api
