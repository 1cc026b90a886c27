import Ddirc.Lib.Map
import Ddirc.Xmpp.Stanza

/-! # Rooms

`xmpp/state.rs`: what the client knows of a room it is in or is joining. -/

namespace Ddirc.Xmpp

def maxNick : Nat := 64
def maxTopic : Nat := 1000
def recentIds : Nat := 512

/-- Characters that change how text is laid out. -/
def isLayoutControl (c : Char) : Bool :=
  c.toNat == 0x200e || c.toNat == 0x200f || (0x202a ≤ c.toNat && c.toNat ≤ 0x202e) ||
    (0x2066 ≤ c.toNat && c.toNat ≤ 0x2069)

/-- `clean_name`: a name from the network, made safe to show. -/
def cleanName (name : String) : String :=
  String.ofList ((name.toList.filter fun c => !Str.isControl c && !isLayoutControl c).take maxNick)

structure Occupant where
  nick : String
  affiliation : Affiliation
  role : Role
  away : Bool
  deriving Repr, DecidableEq

structure Room where
  jid : BareJid
  nick : String
  /-- The room has sent our own presence back. -/
  joined : Bool := false
  leaving : Bool := false
  /-- How many times the nick was refused as taken. -/
  nickAttempts : Nat := 0
  topic : Option String := none
  /-- `renaming`: nick changes announced but not yet completed, from the new nick to the old. -/
  renames : Map String String := ∅
  /-- The id the room's archive gave the last message shown: the place to catch up from. -/
  lastId : Option String := none
  /-- The ids most recently shown, oldest first; `recent_set` holds the same ids. -/
  recent : List String := []
  occupants : Map String Occupant := ∅

namespace Room
variable {room room' : Room} {id : Option String}

def new (jid : BareJid) (nick : String) : Room := { jid, nick }

def name (room : Room) : String := room.jid.text

def isSelf (room : Room) (nick : String) : Bool := nick == room.nick

/-- Note that a message with this id is being shown; `none` if it already was. -/
def remember (room : Room) (id : String) : Option Room :=
  if room.recent.contains id then none
  else
    let recent := if room.recent.length ≥ recentIds then room.recent.tail else room.recent
    some { room with recent := recent ++ [id] }

/-- Note a message's id: it is now the place to catch up from. `none` if it was shown before. -/
def note (room : Room) : Option String → Option Room
  | none => some room
  | some id => (room.remember id).map fun room => { room with lastId := some id }

theorem remember_eq_some {id : String} (h : room.remember id = some room') :
    id ∉ room.recent ∧ ∃ recent, room' = { room with recent } := by
  unfold remember at h
  split at h
  · cases h
  next hnew =>
    cases h
    exact ⟨by simpa using hnew, _, rfl⟩

/-- Noting an id touches nothing but what is known of ids. -/
theorem note_eq_some (h : room.note id = some room') :
    ∃ lastId recent, room' = { room with lastId, recent } := by
  cases id with
  | none => cases h; exact ⟨_, _, rfl⟩
  | some id =>
    obtain ⟨room₁, h₁, rfl⟩ := Option.map_eq_some_iff.1 h
    obtain ⟨-, recent, rfl⟩ := remember_eq_some h₁
    exact ⟨_, _, rfl⟩

theorem note_name (h : room.note id = some room') : room'.name = room.name := by
  obtain ⟨_, _, rfl⟩ := note_eq_some h
  rfl

def occupant (room : Room) (nick : String) : Option Occupant := room.occupants.lookup nick

/-- Everyone in the room. The source also sorts them for the user interface. -/
def members (room : Room) : List Occupant := Map.values room.occupants

end Room
end Ddirc.Xmpp
