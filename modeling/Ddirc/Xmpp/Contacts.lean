import Mathlib.Data.Finset.Basic
import Ddirc.Lib.Run
import Ddirc.Xmpp.Session

/-! # Contacts

`xmpp/contacts.rs` and the contacts of `session/features.rs`: the list that the server keeps, and
the people who asked to see when we are there. Where the people on the list are and what they say of
themselves is left out. -/

namespace Ddirc.Xmpp

def maxContacts : Nat := 2000
def maxRequests : Nat := 100

inductive Subscription where
  | none
  | toOnly
  | fromOnly
  | both
  | remove
  deriving Repr, DecidableEq

def Subscription.letsSee : Subscription → Bool
  | .fromOnly | .both => true
  | _ => false

/-- An entry of the list, as the server sends it. -/
structure RosterItem where
  jid : BareJid
  name : Option String := none
  subscription : Subscription := .none
  /-- We asked to see them. -/
  ask : Bool := false
  deriving DecidableEq

structure Contact where
  name : Option String
  subscription : Subscription
  asked : Bool
  deriving Repr, DecidableEq

structure Contacts where
  items : Map BareJid Contact := ∅
  /-- People waiting for an answer, in the order they asked. -/
  requests : List BareJid := []

inductive ContactEvent where
  | contact (jid : BareJid) (contact : Contact)
  | removed (jid : BareJid)
  | requested (jid : BareJid)
  | error (message : String)
  deriving DecidableEq

namespace Contacts

def contains (c : Contacts) (jid : BareJid) : Bool := (c.items.lookup jid).isSome

def isFull (c : Contacts) : Bool := c.items.entries.length ≥ maxContacts

def applyItem (own : BareJid) (c : Contacts) (item : RosterItem) : Contacts × List ContactEvent :=
  if item.jid = own then (c, [])
  else if item.subscription = .remove then
    ({ c with items := c.items.erase item.jid },
      if c.contains item.jid then [.removed item.jid] else [])
  else if !c.contains item.jid && c.isFull then (c, [])
  else
    let contact : Contact :=
      { name := (item.name.map cleanName).filter (!·.isEmpty)
        subscription := item.subscription
        asked := item.ask }
    ({ items := c.items.insert item.jid contact
       -- The request is moot once they can see us.
       requests := if item.subscription.letsSee then c.requests.filter (· ≠ item.jid)
         else c.requests },
      [.contact item.jid contact])

def applyItems (own : BareJid) (c : Contacts) : List RosterItem → Contacts × List ContactEvent
  | [] => (c, [])
  | item :: items =>
    let (c, events) := c.applyItem own item
    let (c, more) := c.applyItems own items
    (c, events ++ more)

/-- Apply the server's list; a full one is the entire truth. -/
def applyRoster (c : Contacts) (items : List RosterItem) (own : BareJid) (full : Bool) :
    Contacts × List ContactEvent :=
  let (c, events) := c.applyItems own items
  if full then
    let gone := c.items.keys.filter fun jid => !items.any fun i => i.jid = jid && i.jid ≠ own
    ({ c with items := gone.foldl (fun m jid => m.erase jid) c.items },
      events ++ gone.map .removed)
  else (c, events)

/-- Note that someone asked to see us, if there is room and they had not. -/
def addRequest (c : Contacts) (jid : BareJid) : Option Contacts :=
  if jid ∈ c.requests ∨ c.requests.length ≥ maxRequests then none
  else some { c with requests := c.requests ++ [jid] }

/-- Whether this person is waiting on us; one request is answered once. -/
def takeRequest (c : Contacts) (jid : BareJid) : Contacts × Bool :=
  ({ c with requests := c.requests.filter (· ≠ jid) }, jid ∈ c.requests)

end Contacts

/-! ## The session with its contacts -/

inductive AccountOutgoing where
  | session (o : Outgoing)
  | setRoster (id : String) (item : RosterItem)
  /-- The answer to a push of the list. -/
  | pushed (dest : Option Jid) (id : String) (applied : Bool)
  | subscribe (dest : BareJid)
  | subscribed (dest : BareJid)
  | unsubscribed (dest : BareJid)
  deriving DecidableEq

structure AccountEffects where
  events : List Event := []
  contacts : List ContactEvent := []
  send : List AccountOutgoing := []
  deriving DecidableEq

def AccountEffects.error (message : String) : AccountEffects := { contacts := [.error message] }

structure Account where
  session : Session
  contacts : Contacts := {}

inductive AccountInput where
  | session (i : Input)
  /-- The whole list, in answer to our asking; nothing if it cannot be read. -/
  | roster (sender : Option Jid) (id : String) (items : Option (List RosterItem))
  /-- A change of the list. -/
  | push (sender : Option Jid) (id : String) (items : Option (List RosterItem))
  | addContact (text : String) (name : Option String)
  | removeContact (text : String)
  | answerSubscription (text : String) (accept : Bool)
  | setAvailability
  deriving DecidableEq

namespace Account
variable (rules : JidRules)

def lift (a : Account) (r : Session × Effects) : Account × AccountEffects :=
  ({ a with session := r.1 }, { events := r.2.events, send := r.2.send.map .session })

def contactJid (text : String) : Option BareJid :=
  ((rules.parse (Str.trim text)).map (·.bare)).filter (·.node.isSome)

/-- A fresh login: whoever is still waiting will ask again. -/
def onOnline (a : Account) : Account × AccountEffects :=
  let (a', fx) := a.lift (a.session.onOnline rules)
  let gone := a.contacts.requests.filter (!a.contacts.contains ·)
  ({ a' with contacts := { a.contacts with requests := [] } },
    { fx with contacts := gone.map .removed })

def onPresence (a : Account) (p : Presence) : Account × AccountEffects :=
  match p.sender with
  | none => (a, {})
  | some sender =>
    if (a.session.rooms.lookup sender.bare).isSome then a.lift (a.session.onPresence rules p)
    else
      match p.type with
      | .subscribe =>
        -- Never answered on the user's behalf, and from a person only.
        if sender.bare ≠ a.session.account ∧ sender.bare.node.isSome then
          match a.contacts.addRequest sender.bare with
          | some contacts => ({ a with contacts }, { contacts := [.requested sender.bare] })
          | none => (a, {})
        else (a, {})
      | .unsubscribe =>
        let (contacts, waiting) := a.contacts.takeRequest sender.bare
        ({ a with contacts },
          { contacts := if waiting && !a.contacts.contains sender.bare then [.removed sender.bare]
              else [] })
      | _ => (a, {})

/-- Whether a push is from our own server. -/
def isOurs (a : Account) (sender : Option Jid) : Bool :=
  sender.all fun j => j.resource.isNone && j.bare = a.session.account

def onPush (a : Account) (sender : Option Jid) (id : String) (items : Option (List RosterItem)) :
    Account × AccountEffects :=
  match items.filter fun _ => a.isOurs sender with
  | none => (a, { send := [.pushed sender id false] })
  | some items =>
    let (contacts, events) := a.contacts.applyRoster items a.session.account false
    ({ a with contacts }, { contacts := events, send := [.pushed sender id true] })

/-- Whether the whole list is what we asked for, from where we asked. -/
def isAwaited (a : Account) (sender : Option Jid) (id : String) : Bool :=
  a.session.cameFromExpected id sender && a.session.pending.lookup id = some .roster

def onRoster (a : Account) (sender : Option Jid) (id : String) (items : Option (List RosterItem)) :
    Account × AccountEffects :=
  let (a', fx) := a.lift (a.session.onResult sender id none)
  match items.filter fun _ => a.isAwaited sender id with
  | none => (a', fx)
  | some items =>
    let (contacts, events) := a.contacts.applyRoster items a.session.account true
    ({ a' with contacts }, { fx with contacts := events })

def addContact (a : Account) (text : String) (name : Option String) : Account × AccountEffects :=
  match contactJid rules text with
  | none => (a, .error ("'" ++ cleanName text ++
      "' is not a person's address; it looks like name@example.org."))
  | some jid =>
    if jid = a.session.account then (a, .error "That is your own address.")
    else if (a.session.rooms.lookup jid).isSome then
      (a, .error "That is a room. Join it instead of adding it as a contact.")
    else if !a.contacts.contains jid && a.contacts.isFull then
      (a, .error "Your contact list is full.")
    else
      let (session, id) := a.session.nextId
      ({ a with session },
        { send := [.setRoster id { jid, name := (name.map cleanName).filter (!·.isEmpty) },
            .subscribe jid] })

def removeContact (a : Account) (text : String) : Account × AccountEffects :=
  match contactJid rules text with
  | none => (a, .error ("'" ++ cleanName text ++ "' is not an address."))
  | some jid =>
    let (session, id) := a.session.nextId
    ({ a with session }, { send := [.setRoster id { jid, subscription := .remove }] })

/-- Only a request that was made is answered. -/
def answerSubscription (a : Account) (text : String) (accept : Bool) : Account × AccountEffects :=
  match contactJid rules text with
  | none => (a, .error ("'" ++ cleanName text ++ "' is not an address."))
  | some jid =>
    let (contacts, waiting) := a.contacts.takeRequest jid
    if waiting then
      ({ a with contacts }, { send := [if accept then .subscribed jid else .unsubscribed jid] })
    else ({ a with contacts }, .error (jid.text ++ " has not asked to see you."))

/-- To everyone who can see us, and to each room we are in. -/
def setAvailability (a : Account) : Account × AccountEffects :=
  let rooms := (Map.values a.session.rooms).filter (·.joined)
  let occupants := rooms.filterMap fun r => rules.withResource r.jid r.nick
  (a, { send := (.ownPresence :: occupants.map .available).map .session })

def step (a : Account) : AccountInput → Account × AccountEffects
  | .session .online => a.onOnline rules
  | .session (.presence p) => a.onPresence rules p
  | .session i => a.lift (a.session.step rules i)
  | .roster sender id items => a.onRoster sender id items
  | .push sender id items => a.onPush sender id items
  | .addContact text name => a.addContact rules text name
  | .removeContact text => a.removeContact rules text
  | .answerSubscription text accept => a.answerSubscription rules text accept
  | .setAvailability => a.setAvailability rules

end Account

end Ddirc.Xmpp
