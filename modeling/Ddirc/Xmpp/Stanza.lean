import Ddirc.Lib.Str

/-! # Addresses and stanzas

What `tokio_xmpp` hands to the session. Of a stanza only the parts are kept that the session reads:
a payload is the first valid one of its kind, as `extract_valid_payload` gives it. -/

namespace Ddirc.Xmpp

/-! ## Addresses -/

/-- An address without a resource, `node@domain` or `domain`, in its normal form. -/
structure BareJid where
  text : String
  noSlash : Str.contains text '/' = false
  deriving DecidableEq

theorem BareJid.text_inj {a b : BareJid} : a.text = b.text ↔ a = b :=
  ⟨fun h => by cases a; cases b; cases h; rfl, fun h => h ▸ rfl⟩

/-- The addresses of the examples: ours, a friend's and a room's. -/
def BareJid.alice : BareJid := ⟨"alice@example.org", rfl⟩

def BareJid.bob : BareJid := ⟨"bob@example.org", rfl⟩

def BareJid.den : BareJid := ⟨"den@muc.example.org", rfl⟩

def BareJid.node (j : BareJid) : Option String := (Str.splitOnce '@' j.text).map (·.1)

def BareJid.domain (j : BareJid) : String := ((Str.splitOnce '@' j.text).map (·.2)).getD j.text

theorem BareJid.noSlash_domain (j : BareJid) : Str.contains j.domain '/' = false := by
  have hslash := j.noSlash
  simp only [Str.contains, List.contains_eq_mem, decide_eq_false_iff_not] at hslash ⊢
  rw [domain, Str.splitOnce]
  split
  · simp only [Option.map_some, Option.getD_some, String.toList_ofList]
    exact fun h => hslash ((List.dropWhile_sublist _).subset (List.mem_of_mem_drop h))
  · exact hslash

def BareJid.server (j : BareJid) : BareJid := ⟨j.domain, j.noSlash_domain⟩

/-- An address. In a room, the resource is an occupant's nickname. -/
structure Jid where
  bare : BareJid
  resource : Option String := none
  deriving DecidableEq

def Jid.text (j : Jid) : String :=
  match j.resource with
  | none => j.bare.text
  | some r => j.bare.text ++ "/" ++ r

/-- What the `jid` crate makes of text: how an address is read, and which text can be a resource
and in what form. -/
structure JidRules where
  parse : String → Option Jid
  resourcePart : String → Option String

def JidRules.withResource (rules : JidRules) (j : BareJid) (text : String) : Option Jid :=
  (rules.resourcePart text).map fun r => { bare := j, resource := some r }

/-- `BareJid::from_str`: an address with a resource is not one. -/
def JidRules.parseBare (rules : JidRules) (text : String) : Option BareJid :=
  (rules.parse text).bind fun j => if j.resource.isNone then some j.bare else none

/-- Rules that take text as it is written; whatever has no `/` in it is an address. -/
def JidRules.verbatim : JidRules where
  parse text := if h : Str.contains text '/' = false then some { bare := ⟨text, h⟩ } else none
  resourcePart := some

/-! ## Messages -/

inductive MessageType where
  | chat
  | error
  | groupchat
  | headline
  | normal
  deriving Repr, DecidableEq

/-- An id that a server or a room put on a message (XEP-0359), and who did. -/
structure StanzaId where
  id : String
  assigner : Jid
  deriving DecidableEq

inductive DefinedCondition where
  | conflict
  | forbidden
  | notAuthorized
  | registrationRequired
  | itemNotFound
  | notAllowed
  | serviceUnavailable
  | remoteServerNotFound
  | remoteServerTimeout
  | resourceConstraint
  | recipientUnavailable
  | other
  deriving Repr, DecidableEq

/-- An error condition in words. -/
def DefinedCondition.describe : DefinedCondition → String
  | .conflict => "that nickname is already in use"
  | .forbidden => "you are not allowed"
  | .notAuthorized => "a password is required"
  | .registrationRequired => "the room is for members only"
  | .itemNotFound => "there is no such room"
  | .notAllowed => "that is not allowed"
  | .serviceUnavailable => "the service is not available"
  | .remoteServerNotFound => "the server could not be found"
  | .remoteServerTimeout => "the server did not answer"
  | .resourceConstraint => "the room is full"
  | .recipientUnavailable => "the recipient is not available"
  | .other => "the server refused"

structure Message where
  sender : Option Jid := none
  recipient : Option Jid := none
  type : MessageType
  id : Option String := none
  originId : Option String := none
  stanzaId : Option StanzaId := none
  /-- The best body, as `get_best_body` picks it. -/
  body : Option String := none
  subject : Option String := none
  /-- The id a correction (XEP-0308) replaces. -/
  replace : Option String := none
  /-- The `id` of the `retract` payload (XEP-0424), when it has one. -/
  retract : Option String := none
  /-- When the message says it was sent, in milliseconds. -/
  delay : Option Int := none
  error : Option DefinedCondition := none
  deriving DecidableEq

/-- A message inside another: a carbon copy, or an archived one. -/
structure Forwarded where
  delay : Option Int := none
  message : Message
  deriving DecidableEq

/-- An archive's answer to a query, one message of it (XEP-0313). -/
structure ArchiveResult where
  queryId : Option String
  /-- The archive's id for the message. -/
  id : String
  forwarded : Forwarded
  deriving DecidableEq

/-- A message as it arrives, with what it may carry. -/
structure Envelope extends Message where
  archived : Option ArchiveResult := none
  /-- Carbon copies (XEP-0280). -/
  received : Option Forwarded := none
  sent : Option Forwarded := none
  deriving DecidableEq

/-! ## Presences -/

inductive PresenceType where
  | available
  | error
  | probe
  | subscribe
  | subscribed
  | unavailable
  | unsubscribe
  | unsubscribed
  deriving Repr, DecidableEq

inductive Availability where
  | away
  | chat
  | dnd
  | xa
  deriving Repr, DecidableEq

/-- The status codes of a room's presence. -/
inductive Status where
  | selfPresence
  | newNick
  | banned
  | kicked
  | removalFromRoom
  | configMembersOnly
  | serviceShutdown
  | other
  deriving Repr, DecidableEq

inductive Affiliation where
  | owner
  | admin
  | member
  | outcast
  | none
  deriving Repr, DecidableEq

inductive Role where
  | moderator
  | participant
  | visitor
  | none
  deriving Repr, DecidableEq

/-- One `item` of a room's presence. -/
structure MucItem where
  nick : Option String := none
  affiliation : Affiliation := .none
  role : Role := .none
  reason : Option String := none
  deriving Repr, DecidableEq

structure Presence where
  sender : Option Jid := none
  type : PresenceType := .available
  availability : Option Availability := none
  /-- The status codes of the `muc#user` payload. -/
  statuses : List Status := []
  /-- Its first item. -/
  item : Option MucItem := none
  error : Option DefinedCondition := none
  deriving DecidableEq

structure PageEnd where
  complete : Bool
  last : Option String
  deriving Repr, DecidableEq

end Ddirc.Xmpp
