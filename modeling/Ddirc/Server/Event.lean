import Ddirc.Lib.Str

/-! # The operator's side of the local server

`AdminCommand` is what the person running the server can ask of it, `EventKind` what they are told.
Text that a client chose is escaped where an event is made. -/

namespace Ddirc.Server

abbrev ClientId := Nat

inductive AdminCommand where
  | kick (channel nick : String) (reason : Option String)
  | disconnect (nick : String) (reason : Option String)
  | ban (nick : String) (reason : Option String)
  | unban (nick : String)
  | setTopic (channel topic : String)
  | closeChannel (channel : String) (reason : Option String)
  | op (channel nick : String)
  | deop (channel nick : String)
  | notice (target text : String)
  | wall (text : String)
  | setMotd (lines : List String)
  deriving Repr, DecidableEq

inductive EventKind where
  | connected (id : ClientId)
  | dropped (id : ClientId) (reason : String)
  | registered (id : ClientId) (nick : String)
  | nickChanged (old new : String)
  | joined (nick channel : String)
  | parted (nick channel : String) (reason : Option String)
  | kicked (nick channel by_ : String) (reason : Option String)
  | quit (nick reason : String)
  | mode (channel by_ nick : String) (op : Bool)
  | topic (channel by_ topic : String)
  | message (sender target : String) (text : Option String) (notice : Bool)
  | admin (ok : Bool) (text : String)
  deriving Repr, DecidableEq

def hex (n : Nat) : String := String.ofList (Nat.toDigits 16 n)

/-- Characters that change the direction text is laid out in. -/
def isBidi (c : Char) : Bool :=
  c.toNat == 0x061c || c.toNat == 0x200e || c.toNat == 0x200f ||
  (0x202a ≤ c.toNat && c.toNat ≤ 0x202e) || (0x2066 ≤ c.toNat && c.toNat ≤ 0x2069)

/-- One character, made safe to put in front of a person's terminal. -/
def cleanChar (c : Char) : String :=
  if Str.isControl c || isBidi c then
    let n := c.toNat
    if n ≤ 0xff then "\\x" ++ (if n < 16 then "0" else "") ++ hex n
    else "\\u\x7b" ++ hex n ++ "\x7d"
  else String.singleton c

def clean (text : String) : String := String.join (text.toList.map cleanChar)

/-- The same event with every string a client could have chosen made safe. -/
def EventKind.sanitized : EventKind → EventKind
  | .connected id => .connected id
  | .dropped id reason => .dropped id (clean reason)
  | .registered id nick => .registered id (clean nick)
  | .nickChanged old new => .nickChanged (clean old) (clean new)
  | .joined nick channel => .joined (clean nick) (clean channel)
  | .parted nick channel reason => .parted (clean nick) (clean channel) (reason.map clean)
  | .kicked nick channel by_ reason =>
    .kicked (clean nick) (clean channel) (clean by_) (reason.map clean)
  | .quit nick reason => .quit (clean nick) (clean reason)
  | .mode channel by_ nick op => .mode (clean channel) (clean by_) (clean nick) op
  | .topic channel by_ text => .topic (clean channel) (clean by_) (clean text)
  | .message sender target text notice =>
    .message (clean sender) (clean target) (text.map clean) notice
  | .admin ok text => .admin ok (clean text)

/-- One thing that happened, and when, in seconds since the epoch. -/
structure ServerEvent where
  at_ : Nat
  kind : EventKind
  deriving Repr, DecidableEq

end Ddirc.Server
