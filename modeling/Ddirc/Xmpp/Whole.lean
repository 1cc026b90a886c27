import Ddirc.Xmpp.Contacts
import Ddirc.Xmpp.Upload

/-! # The whole session

The session and its contacts with what else `xmpp/session.rs` keeps: the other requests that it
waits on, uploads, what the user said of themselves and where their contacts are. Here an IQ stanza
stands as it comes, a request or an answer. -/

namespace Ddirc.Xmpp

def maxResources : Nat := 16
/-- `MAX_STATUS`, and `STATUS_CHARS` for our own. -/
def maxStatus : Nat := 200
def maxUploads : Nat := 4
def maxDiscoItems : Nat := 16

/-- `clean_line`: text from the network, made safe to show on one line. -/
def cleanLine (text : String) (max : Nat) : String :=
  Str.trim (String.ofList (((text.toList.map fun c => if Str.isControl c then ' ' else c).filter
    fun c => !isLayoutControl c).take max))

/-! ## IQ stanzas -/

inductive Query where
  /-- The contact list, and what stands on it if that can be read. -/
  | roster (items : Option (List RosterItem))
  | ping
  | other
  deriving DecidableEq

structure DiscoItem where
  jid : Jid
  node : Option String := none
  deriving DecidableEq

inductive Payload where
  | page (fin : PageEnd)
  | roster (items : List RosterItem)
  | items (items : List DiscoItem)
  | info (info : DiscoInfo)
  | slot (slot : SlotResult)
  | other
  deriving DecidableEq

inductive Iq where
  | get (sender : Option Jid) (id : String) (payload : Query)
  | set (sender : Option Jid) (id : String) (payload : Query)
  | result (sender : Option Jid) (id : String) (payload : Option Payload)
  | error (sender : Option Jid) (id : String) (condition : DefinedCondition)
  deriving DecidableEq

/-! ## Where contacts are -/

inductive UserAvailability where
  | offline
  | available
  | away
  | dnd
  | extendedAway
  deriving Repr, DecidableEq

/-- How available a state is, for choosing between a person's devices. -/
def UserAvailability.rank : UserAvailability → Nat
  | .available => 4
  | .away => 3
  | .extendedAway => 2
  | .dnd => 1
  | .offline => 0

/-- What one place a person is signed in from has said. -/
structure Seen where
  availability : UserAvailability
  status : String
  priority : Int
  deriving Repr, DecidableEq

/-- By priority, then by how available. -/
def Seen.le (b seen : Seen) : Prop :=
  b.priority < seen.priority ∨
    b.priority = seen.priority ∧ b.availability.rank ≤ seen.availability.rank

instance : DecidableRel Seen.le := fun _ _ => inferInstanceAs (Decidable (_ ∨ _))

def louder (best : Option Seen) (seen : Seen) : Option Seen :=
  match best with
  | none => some seen
  | some b => if b.le seen then some seen else some b

/-- `max_by_key`: the last of the best. -/
def loudest (seens : List Seen) : Option Seen := seens.foldl louder none

/-- `Contacts::render`, with the places a person is signed in from in the order of the hash map. -/
def drawn (seens : List Seen) : UserAvailability × String :=
  (((loudest seens).map (·.availability)).getD .offline, ((loudest seens).map (·.status)).getD "")

def shownAs (resources : Map String Seen) : UserAvailability × String :=
  drawn (Map.values resources)

def seenAs (p : Presence) (status : Option String) (priority : Int) : Seen where
  availability := match p.availability with
    | some .away => .away
    | some .dnd => .dnd
    | some .xa => .extendedAway
    | some .chat | none => .available
  status := (status.map fun s => cleanLine s maxStatus).getD ""
  priority := priority

/-- Where the people on the contact list are signed in from. -/
abbrev Whereabouts := Map BareJid (Map String Seen)

namespace Whereabouts

def of (w : Whereabouts) (jid : BareJid) : Map String Seen := (w.lookup jid).getD ∅

/-- A person who is taken off the list is forgotten. -/
def applyItem (own : BareJid) (w : Whereabouts) (item : RosterItem) : Whereabouts :=
  if item.jid ≠ own ∧ item.subscription = .remove then w.erase item.jid else w

end Whereabouts

/-! ## What a step produces -/

structure UploadJob where
  ticket : Nat
  slot : Slot
  contentType : String
  deriving DecidableEq

inductive WholeEvent where
  | session (e : Event)
  | contact (e : ContactEvent)
  /-- A contact as they are drawn. -/
  | contactView (jid : BareJid) (contact : Contact) (availability : UserAvailability)
      (status : String)
  | uploadAvailable (maxBytes : Nat)
  | transferStarted (ticket : Nat) (channel filename : String) (total : Nat)
  | transferEnded (ticket : Nat) (channel filename : String) (error : Option String)
  deriving DecidableEq

inductive WholeOutgoing where
  | account (o : AccountOutgoing)
  /-- An IQ result with nothing in it. -/
  | result (dest : Jid) (id : String)
  /-- An IQ error that says only that the service is not available. -/
  | declined (dest : Option Jid) (id : String)
  | getInfo (id : String) (dest : Jid)
  | getSlot (id : String) (dest : Jid) (filename contentType : String) (size : Nat)
  | kick (id : String) (room : BareJid) (nick : String) (reason : Option String)
  | topic (id : String) (room : BareJid) (topic : String)
  /-- Our presence, with what the user said of themselves. -/
  | presence (dest : Option Jid) (availability : Option Availability) (status : String)
  /-- A message about the address of a file. -/
  | share (dest : Jid) (group : Bool) (id body url : String)
  deriving DecidableEq

structure WholeEffects where
  events : List WholeEvent := []
  send : List WholeOutgoing := []
  uploads : List UploadJob := []
  deriving DecidableEq

instance : Append WholeEffects :=
  ⟨fun a b => ⟨a.events ++ b.events, a.send ++ b.send, a.uploads ++ b.uploads⟩⟩

def WholeEffects.error (message : String) : WholeEffects :=
  { events := [.session (.error message)] }

/-! ## State -/

/-- The requests waited on that `Pending` leaves out. -/
inductive Asked where
  | discoInfo (jid : Jid)
  | slot (ticket : Nat)
  | rosterSet (jid : BareJid)
  | kick (room : BareJid)
  deriving DecidableEq

/-- How a file being shared stands. -/
structure Ticket where
  /-- The conversation it is for. -/
  target : String
  filename : String
  /-- Where it can be fetched from, once the server has granted a slot. -/
  get : Option String := none
  deriving Repr, DecidableEq

/-- One account's conversation with its server. Requests waited on stand in
`account.session.pending` or in `asked`, under ids of one series. -/
structure Whole where
  account : Account
  asked : Map String Asked := ∅
  whereabouts : Whereabouts := ∅
  /-- Where files go, once the server has said. -/
  upload : Option UploadService := none
  tickets : Map Nat Ticket := ∅
  nextTicket : Nat := 0
  /-- How the user has said they are. -/
  own : Option (UserAvailability × String) := none

/-- What other crates make of text: addresses, and what can be written in XML. -/
structure Rules where
  jids : JidRules
  urls : UrlRules
  /-- Whether a kick can be written, for this nickname and reason. -/
  fitsXml : String → Option String → Bool

namespace Whole

def new (account : BareJid) (roomNick idStem : String) (rooms : List BareJid) : Whole :=
  { account := { session := .new account roomNick idStem rooms } }

def session (w : Whole) : Session := w.account.session

def jid (w : Whole) : BareJid := w.account.session.account

def nextId (w : Whole) : Whole × String :=
  let (session, id) := w.session.nextId
  ({ w with account := { w.account with session } }, id)

def ask (w : Whole) (asked : Asked) (request : String → WholeOutgoing) : Whole × WholeEffects :=
  let (w, id) := w.nextId
  ({ w with asked := w.asked.insert id asked }, { send := [request id] })

def each {α : Type} (f : Whole → α → Whole × WholeEffects) (w : Whole) :
    List α → Whole × WholeEffects
  | [] => (w, {})
  | a :: rest =>
    let (w, fx) := f w a
    let (w, more) := each f w rest
    (w, fx ++ more)

def ownPresence (w : Whole) (dest : Option Jid) : WholeOutgoing :=
  match w.own with
  | none => .presence dest none ""
  | some (availability, status) =>
    let shown := match availability with
      | .away => some .away
      | .dnd => some .dnd
      | .extendedAway => some .xa
      | .available | .offline => none
    .presence dest shown status

def outgoing (w : Whole) : AccountOutgoing → WholeOutgoing
  | .session .ownPresence => w.ownPresence none
  | o => .account o

def noteSent (asked : Map String Asked) : AccountOutgoing → Map String Asked
  | .setRoster id item => asked.insert id (.rosterSet item.jid)
  | _ => asked

def lift (w : Whole) (r : Account × AccountEffects) : Whole × WholeEffects :=
  ({ w with account := r.1, asked := r.2.send.foldl noteSent w.asked },
    { events := r.2.events.map .session ++ r.2.contacts.map .contact
      send := r.2.send.map w.outgoing })

/-! ## Contacts -/

/-- `Contacts::apply_roster`. -/
def applyRoster (w : Whole) (items : List RosterItem) (full : Bool) : Whole × List WholeEvent :=
  let own := w.jid
  let item (r : (Contacts × Whereabouts) × List WholeEvent) (i : RosterItem) :
      (Contacts × Whereabouts) × List WholeEvent :=
    let (contacts, events) := r.1.1.applyItem own i
    let whereabouts := r.1.2.applyItem own i
    let draw : ContactEvent → WholeEvent
      | .contact jid c =>
        let (availability, status) := shownAs (whereabouts.of jid)
        .contactView jid c availability status
      | e => .contact e
    ((contacts, whereabouts), r.2 ++ events.map draw)
  let ((contacts, whereabouts), events) :=
    items.foldl item ((w.account.contacts, w.whereabouts), [])
  if full then
    let gone := contacts.items.keys.filter fun jid =>
      !items.any fun i => i.jid = jid && i.jid ≠ own
    ({ w with
        account := { w.account with contacts :=
          { contacts with items := gone.foldl (fun m jid => m.erase jid) contacts.items } }
        whereabouts := gone.foldl (fun m jid => m.erase jid) whereabouts },
      events ++ gone.map fun jid => .contact (.removed jid))
  else ({ w with account := { w.account with contacts }, whereabouts }, events)

/-- `Contacts::apply_presence`: believed of someone on the list only. -/
def applyPresence (w : Whole) (sender : Jid) (p : Presence) (status : Option String)
    (priority : Int) : Whole × WholeEffects :=
  match sender.resource, w.account.contacts.items.lookup sender.bare with
  | some resource, some contact =>
    let before := w.whereabouts.of sender.bare
    let after := match p.type with
      | .unavailable => some (before.erase resource)
      | .available =>
        if (before.lookup resource).isNone ∧ before.entries.length ≥ maxResources then none
        else some (before.insert resource (seenAs p status priority))
      | _ => none
    match after with
    | none => (w, {})
    | some after =>
      let (availability, shown) := shownAs after
      ({ w with whereabouts := w.whereabouts.insert sender.bare after },
        { events := if shownAs after = shownAs before then []
            else [.contactView sender.bare contact availability shown] })
  | _, _ => (w, {})

def forgetPresence (w : Whole) : Whole × List WholeEvent :=
  let here := w.account.contacts.items.entries.filter fun e =>
    !(w.whereabouts.of e.1).entries.isEmpty
  ({ w with whereabouts := ∅ }, here.map fun e => .contactView e.1 e.2 .offline "")

/-! ## Files -/

def failUpload (w : Whole) (ticket : Nat) (why : String) : Whole × WholeEffects :=
  match w.tickets.lookup ticket with
  | none => (w, {})
  | some entry =>
    ({ w with tickets := w.tickets.erase ticket },
      { events := [.transferEnded ticket entry.target entry.filename (some why)] })

/-- The name of a file, out of a path and fit to show. -/
def shownFilename (filename : String) : String :=
  let name := cleanLine (String.ofList (filename.toList.rtakeWhile fun c => c ≠ '/' ∧ c ≠ '\\')) 100
  if name.isEmpty then "file" else name

/-- Start sharing a file: ask the server for a slot. -/
def beginUpload (rules : Rules) (w : Whole) (target filename : String) (size : Nat) :
    Whole × WholeEffects :=
  match w.session.destination rules.jids target, w.upload with
  | none, _ => (w, .error ("'" ++ cleanName target ++ "' is not an address."))
  | some _, none => (w, .error "This server has nowhere to put a file.")
  | some (dest, group), some service =>
    if group && !(w.session.rooms.lookup dest.bare).any (·.joined) then
      (w, .error ("You are not in " ++ dest.bare.text ++ " yet."))
    else if size = 0 then (w, .error "That file is empty.")
    else if size > service.limit then
      (w, .error ("That file is larger than this server takes (" ++
        toString (service.limit / (1024 * 1024)) ++ " MB)."))
    else if w.tickets.entries.length ≥ maxUploads then
      (w, .error "Too many files are already being sent. Wait for one to finish.")
    else
      let filename := shownFilename filename
      let ticket := w.nextTicket + 1
      let w := { w with
        nextTicket := ticket
        tickets := w.tickets.insert ticket { target, filename } }
      let (w, fx) := w.ask (.slot ticket) fun id =>
        .getSlot id service.jid filename (contentType filename) size
      (w, { events := [.transferStarted ticket target filename size] } ++ fx)

def onSlot (rules : Rules) (w : Whole) (ticket : Nat) (payload : Option Payload) :
    Whole × WholeEffects :=
  match w.tickets.lookup ticket, payload with
  | none, _ => (w, {})
  | some entry, some (.slot result) =>
    match rules.urls.checkSlot result w.jid.domain with
    | .error e => w.failUpload ticket (e.message ++ ".")
    | .ok slot =>
      ({ w with tickets := w.tickets.insert ticket { entry with get := some slot.get } },
        { uploads := [{ ticket, slot, contentType := contentType entry.filename }] })
  | some _, _ =>
    w.failUpload ticket "The server's answer about where to put it was not understood."

/-- `say_with`: a message that is about the address of a file. -/
def shareLink (rules : Rules) (w : Whole) (target url : String) : Whole × WholeEffects :=
  let (session, fx) := w.session.say rules.jids target url false
  let about : Outgoing → WholeOutgoing
    | .say dest group id body => .share dest group id body url
    | o => .account (.session o)
  ({ w with account := { w.account with session } },
    { events := fx.events.map .session, send := fx.send.map about })

/-- The bytes have been sent, or could not be. The card says that they were only if the link was. -/
def uploadFinished (rules : Rules) (w : Whole) (ticket : Nat) (error : Option String) :
    Whole × WholeEffects :=
  match error with
  | some why => w.failUpload ticket why
  | none =>
    match w.tickets.lookup ticket with
    | none => (w, {})
    | some entry =>
      let w := { w with tickets := w.tickets.erase ticket }
      match entry.get with
      | none => (w, {})
      | some url =>
        let (w, sent) := w.shareLink rules entry.target url
        let refused := sent.events.findSome? fun
          | .session (.error message) => some message
          | _ => none
        let outcome := refused.map ("It was uploaded, but the link was not sent: " ++ ·)
        let ended : WholeEffects :=
          { events := [.transferEnded ticket entry.target entry.filename outcome] }
        (w, if outcome.isNone then ended ++ sent else ended)

/-! ## A fresh login -/

def onOnline (rules : Rules) (w : Whole) : Whole × WholeEffects :=
  let (w, forgotten) := w.forgetPresence
  let (w', fx) := { w with asked := ∅, upload := none }.lift (w.account.onOnline rules.jids)
  let waiting := (w.tickets.entries.filter fun e => e.2.get.isNone).map (·.1)
  let (w', failed) := each (fun w ticket =>
    w.failUpload ticket "The connection was lost before the upload began.") w' waiting
  -- that we are there is told first, and last what became of the rooms
  let isContact : WholeEvent → Bool
    | .contact _ => true
    | _ => false
  let session := fx.events.filter fun e => !isContact e
  (w', { events := session.take 1 ++ forgotten ++ fx.events.filter isContact ++ failed.events ++
           session.drop 1
         send := fx.send })

/-! ## Requests and answers -/

def server (w : Whole) : Jid := { bare := w.jid.server }

def onRosterPush (w : Whole) (sender : Option Jid) (id : String)
    (items : Option (List RosterItem)) : Whole × WholeEffects :=
  match items.filter fun _ => w.account.isOurs sender with
  | none => (w, { send := [.declined sender id] })
  | some items =>
    let (w', events) := w.applyRoster items false
    (w', { events, send := [.result (sender.getD { bare := w.jid }) id] })

/-- Every request has to be answered. A ping says nothing about us; anything else is declined in the
way that says nothing either. -/
def onRequest (w : Whole) (sender : Option Jid) (id : String) : Query → WholeOutgoing
  | .ping => .result (sender.getD w.server) id
  | _ => .declined sender id

/-- An answer is only believed from where the question went. -/
def cameFromExpected (w : Whole) (id : String) (sender : Option Jid) : Bool :=
  match w.asked.lookup id, sender with
  | none, _ => w.session.cameFromExpected id sender
  | some (.rosterSet _), none => true
  | some _, none => false
  | some (.kick room), some sender => sender.resource.isNone && sender.bare = room
  | some (.rosterSet _), some sender =>
    sender.bare = w.jid || (sender.bare.domain = w.jid.domain && sender.bare.node.isNone)
  | some (.discoInfo jid), some sender => sender = jid
  | some (.slot _), some sender => w.upload.any fun service => sender = service.jid

def askInfo (w : Whole) (item : DiscoItem) : Whole × WholeEffects :=
  if item.node.isSome then (w, {}) else w.ask (.discoInfo item.jid) fun id => .getInfo id item.jid

def onInfo (w : Whole) (jid : Jid) (payload : Option Payload) : Whole × WholeEffects :=
  match w.upload, payload with
  | none, some (.info info) =>
    match serviceFromInfo jid info with
    | some service =>
      ({ w with upload := some service }, { events := [.uploadAvailable service.limit] })
    | none => (w, {})
  | _, _ => (w, {})

def onAnswer (rules : Rules) (w : Whole) (sender : Option Jid) (id : String)
    (payload : Option Payload) : Whole × WholeEffects :=
  match w.asked.lookup id, w.session.pending.lookup id with
  | some asked, _ =>
    let w := { w with asked := w.asked.erase id }
    match asked with
    | .discoInfo jid => w.onInfo jid payload
    | .slot ticket => w.onSlot rules ticket payload
    | .kick _ | .rosterSet _ => (w, {})
  | none, some (.catchUp ..) =>
    let fin := match payload with
      | some (.page fin) => some fin
      | _ => none
    w.lift (w.account.lift (w.session.onResult sender id fin))
  | none, some pending =>
    let (w, fx) := w.lift (w.account.lift (w.session.onResult sender id none))
    match pending, payload with
    | .roster, some (.roster items) =>
      let (w, events) := w.applyRoster items true
      (w, fx ++ { events })
    | .discoItems, some (.items items) =>
      let (w, asked) := each askInfo w (items.take maxDiscoItems)
      (w, fx ++ asked)
    | _, _ => (w, fx)
  | none, none => (w, {})

def onRefusal (w : Whole) (sender : Option Jid) (id : String) (condition : DefinedCondition) :
    Whole × WholeEffects :=
  match w.asked.lookup id with
  | some asked =>
    let w := { w with asked := w.asked.erase id }
    match asked with
    | .kick room => (w, .error ("Could not remove them from " ++ room.text ++ ": " ++
        condition.describe ++ "."))
    | .rosterSet jid => (w, .error ("Could not change " ++ jid.text ++ " on your contact list: " ++
        condition.describe ++ "."))
    | .slot ticket =>
      w.failUpload ticket ("The server would not take the file: " ++ condition.describe ++ ".")
    | .discoInfo _ => (w, {})
  | none => w.lift (w.account.lift (w.session.onFailure sender id))

def onIq (rules : Rules) (w : Whole) : Iq → Whole × WholeEffects
  | .set sender id (.roster items) => w.onRosterPush sender id items
  | .get sender id payload | .set sender id payload =>
    (w, { send := [w.onRequest sender id payload] })
  | .result sender id payload =>
    if w.cameFromExpected id sender then w.onAnswer rules sender id payload else (w, {})
  | .error sender id condition =>
    if w.cameFromExpected id sender then w.onRefusal sender id condition else (w, {})

/-! ## Commands -/

def kick (rules : Rules) (w : Whole) (channel nick : String) (reason : Option String) :
    Whole × WholeEffects :=
  match Session.roomJid rules.jids channel with
  | none => (w, {})
  | some room =>
    let reason := (reason.map cleanText).filter fun r => !r.isEmpty
    let nick := Str.trim nick
    if rules.fitsXml nick reason then w.ask (.kick room) fun id => .kick id room nick reason
    else (w.nextId.1, .error "That nickname cannot be sent.")

def setTopic (rules : Rules) (w : Whole) (channel topic : String) : Whole × WholeEffects :=
  match Session.roomJid rules.jids channel with
  | none => (w, {})
  | some room =>
    let flattened := String.ofList (topic.toList.map fun c => if Str.isControl c then ' ' else c)
    let (w, id) := w.nextId
    (w, { send := [.topic id room (Str.takeChars maxTopic (Str.trim flattened))] })

def setAvailability (rules : Rules) (w : Whole) (availability : UserAvailability)
    (status : Option String) : Whole × WholeEffects :=
  let w := { w with
    own := some (availability, (status.map fun s => cleanLine s maxStatus).getD "") }
  let rooms := (Map.values w.session.rooms).filter (·.joined)
  let occupants := rooms.filterMap fun r => rules.jids.withResource r.jid r.nick
  (w, { send := w.ownPresence none :: occupants.map fun occupant => w.ownPresence (some occupant) })

end Whole

/-! ## Steps -/

inductive WholeCommand where
  | session (c : Command)
  | kick (channel nick : String) (reason : Option String)
  | setTopic (channel topic : String)
  | addContact (text : String) (name : Option String)
  | removeContact (text : String)
  | answerSubscription (text : String) (accept : Bool)
  | setAvailability (availability : UserAvailability) (status : Option String)
  /-- A command that XMPP has nothing for. -/
  | notAvailable
  deriving Repr, DecidableEq

inductive WholeInput where
  | online
  | command (c : WholeCommand)
  | message (e : Envelope)
  | presence (p : Presence) (status : Option String) (priority : Int)
  | iq (iq : Iq)
  | beginUpload (target filename : String) (size : Nat)
  | uploadFinished (ticket : Nat) (error : Option String)
  deriving DecidableEq

namespace Whole
variable (rules : Rules)

def onCommand (w : Whole) : WholeCommand → Whole × WholeEffects
  | .session c => w.lift (w.account.lift (w.session.onCommand rules.jids c))
  | .kick channel nick reason => w.kick rules channel nick reason
  | .setTopic channel topic => w.setTopic rules channel topic
  | .addContact text name => w.lift (w.account.addContact rules.jids text name)
  | .removeContact text => w.lift (w.account.removeContact rules.jids text)
  | .answerSubscription text accept => w.lift (w.account.answerSubscription rules.jids text accept)
  | .setAvailability availability status => w.setAvailability rules availability status
  | .notAvailable => (w, .error "That is not available over XMPP yet.")

def onPresence (w : Whole) (p : Presence) (status : Option String) (priority : Int) :
    Whole × WholeEffects :=
  match p.sender with
  | none => (w, {})
  | some sender =>
    if (w.session.rooms.lookup sender.bare).isNone ∧ (p.type = .available ∨ p.type = .unavailable)
    then w.applyPresence sender p status priority
    else w.lift (w.account.onPresence rules.jids p)

def step (w : Whole) : WholeInput → Whole × WholeEffects
  | .online => w.onOnline rules
  | .command c => w.onCommand rules c
  | .message e => w.lift (w.account.lift (w.session.onMessage e))
  | .presence p status priority => w.onPresence rules p status priority
  | .iq iq => w.onIq rules iq
  | .beginUpload target filename size => w.beginUpload rules target filename size
  | .uploadFinished ticket error => w.uploadFinished rules ticket error

end Whole

end Ddirc.Xmpp
