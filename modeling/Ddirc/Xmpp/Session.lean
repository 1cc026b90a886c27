import Ddirc.Text.Reply
import Ddirc.Xmpp.Index
import Ddirc.Xmpp.Room

/-! # The XMPP session

`xmpp/session.rs`, the state machine that turns stanzas and commands into events to show and stanzas
to send, with the correcting and taking back of `session/features.rs`. Contacts, the user's own
availability, file uploads and the layout of a shown text (reply quotes, mentions, formatting) are
left out; a body stands as it was cleaned. -/

namespace Ddirc.Xmpp
open Text

def maxBodyChars : Nat := 4000
def catchUpPage : Nat := 100
def catchUpTotal : Nat := 500
def catchUpPages : Nat := catchUpTotal / catchUpPage + 1
/-- `MAX_ARCHIVE_ID`, and the bound on every other id from the network. -/
def maxId : Nat := 200
def maxNickAttempts : Nat := 3

/-! ## What a step produces -/

inductive Target where
  | channel (name : String)
  | direct (name : String)
  deriving Repr, DecidableEq

structure ChatMessage where
  target : Target
  sender : String
  body : String
  isSelf : Bool
  isAction : Bool
  isNotice : Bool := false
  /-- A correction that found nothing to correct. -/
  isCorrection : Bool := false
  msgid : Option String
  time : Option Int := none
  deriving Repr, DecidableEq

inductive Event where
  | registered (nick network : String)
  | error (message : String)
  | joined (channel nick : String) (isSelf : Bool)
  | parted (channel nick : String) (isSelf : Bool) (reason : Option String)
  | memberList (channel : String) (members : List Occupant)
  | memberChanged (channel previous : String) (member : Option Occupant)
  | nickChanged (channel old new : String) (isSelf : Bool)
  | topicChanged (channel topic : String) (setBy : Option String)
  | message (m : ChatMessage)
  | edited (target : Target) (msgid sender : String) (m : ChatMessage)
  | retracted (target : Target) (msgid sender : String)
  deriving Repr, DecidableEq

inductive Outgoing where
  | enableCarbons (id : String)
  | getRoster (id : String)
  | getItems (id : String)
  | ownPresence
  | join (occupant : Jid) (password : Option String)
  | available (occupant : Jid)
  | unavailable (occupant : Jid)
  /-- A page of an archive: a room's, or our own account's. -/
  | catchUp (id : String) (room : Option BareJid) (after : Option String) (since : Option Int)
  | say (dest : Jid) (group : Bool) (id body : String)
  | correct (dest : Jid) (group : Bool) (id replaces body : String)
  | retract (dest : Jid) (group : Bool) (id retracts : String)
  deriving DecidableEq

structure Effects where
  events : List Event := []
  send : List Outgoing := []
  deriving DecidableEq

instance : Append Effects := ⟨fun a b => ⟨a.events ++ b.events, a.send ++ b.send⟩⟩

@[simp] theorem Effects.append_events (a b : Effects) : (a ++ b).events = a.events ++ b.events :=
  rfl
@[simp] theorem Effects.append_send (a b : Effects) : (a ++ b).send = a.send ++ b.send := rfl

theorem Effects.append_nil (a : Effects) : a ++ {} = a :=
  congrArg₂ Effects.mk (List.append_nil _) (List.append_nil _)

theorem Effects.append_assoc (a b c : Effects) : a ++ b ++ c = a ++ (b ++ c) :=
  congrArg₂ Effects.mk (List.append_assoc ..) (List.append_assoc ..)

def Effects.error (message : String) : Effects := { events := [.error message] }

/-! ## Text -/

/-- Text from the network made safe to show. -/
def cleanText (text : String) : String :=
  String.ofList ((text.toList.filter fun c => c == '\n' || c == '\t' || !Str.isControl c).take
    maxBodyChars)

/-- `/me` at the start of a body is an action (XEP-0245). -/
def splitAction (body : String) : Bool × String :=
  match Str.stripStr "/me " body with
  | some rest => (true, rest)
  | none => (false, body)

/-- `replace("\r\n", "\n")`. -/
def joinCrLf : List Char → List Char
  | '\r' :: '\n' :: rest => '\n' :: joinCrLf rest
  | c :: rest => c :: joinCrLf rest
  | [] => []

/-- `sanitize_outgoing`: text fit for sending, in pieces a server will take. -/
def sanitizeOutgoing (text : String) : List String :=
  let cleaned := String.ofList (((joinCrLf text.toList).filter fun c =>
    c == '\n' || c == '\t' || !Str.isControl c).filter fun c =>
      c.toNat != 0xfffe && c.toNat != 0xffff)
  let cleaned := Str.trim cleaned
  if cleaned.isEmpty then [] else (Str.chunks maxBodyChars cleaned.toList).map String.ofList

/-- The id a sender put on a message (`edits::origin_id`). -/
def Message.origin (m : Message) : Option String :=
  (m.originId.or m.id).map (Str.takeChars maxId)

/-- The id a retraction names, if this message is one (`edits::retraction`). -/
def Message.retraction (m : Message) : Option String :=
  (m.retract.filter fun id => !id.isEmpty).map (Str.takeChars maxId)

/-- The id that `owner` itself put on the message. Anyone can put any other id on a stanza. -/
def Message.assignedId (m : Message) (owner : BareJid) : Option String :=
  (m.stanzaId.filter fun i => i.assigner.bare = owner).map fun i => Str.takeChars maxId i.id

/-- The cleaned body, if there is one that is not blank. -/
def Message.text (m : Message) : Option String :=
  (m.body.map cleanText).filter fun body => !(Str.trim body).isEmpty

def removalReason (statuses : List Status) : Option String :=
  statuses.findSome? fun
    | .banned => some "banned"
    | .kicked => some "removed from the room"
    | .removalFromRoom => some "removed: their standing changed"
    | .configMembersOnly => some "the room became members-only"
    | .serviceShutdown => some "the service is shutting down"
    | _ => none

/-! ## State -/

/-- A request we sent and are waiting on the answer to. -/
inductive Pending where
  | roster
  | carbons
  | discoItems
  /-- A page of an archive: a room's, or our own account's. `fetched` counts the messages of every
  page so far and `pages` the requests, this one included. -/
  | catchUp (room : Option BareJid) (fetched pages : Nat) (after : String) (fetchedAtStart : Nat)
  deriving DecidableEq

/-- One account's conversation with its server. -/
structure Session where
  account : BareJid
  defaultNick : String
  rooms : Map BareJid Room := ∅
  pending : Map String Pending := ∅
  /-- `id_prefix`: makes our ids our own. -/
  idStem : String := ""
  counter : Nat := 0
  index : Index := .empty
  /-- The last id our own archive gave a one-to-one message. -/
  chatCursor : Option String := none

/-- Where an archive request starts from. -/
inductive CatchUpFrom where
  | after (id : String)
  | since (ms : Int)
  deriving Repr, DecidableEq

namespace Session

/-- `Session::new`, for the account, the nickname and the rooms of the configuration. -/
def new (account : BareJid) (roomNick idStem : String) (rooms : List BareJid) : Session :=
  let nick := cleanName roomNick
  { account, defaultNick := nick, idStem
    rooms := rooms.foldl (fun rooms jid => rooms.insert jid (.new jid nick)) ∅ }

def nextId (s : Session) : Session × String :=
  ({ s with counter := s.counter + 1 }, s.idStem ++ "-" ++ toString (s.counter + 1))

def ask (s : Session) (pending : Pending) (request : String → Outgoing) : Session × Effects :=
  let (s, id) := s.nextId
  ({ s with pending := s.pending.insert id pending }, { send := [request id] })

def sendCatchUp (s : Session) (room : Option BareJid) (start : CatchUpFrom) (fetched pages : Nat) :
    Session × Effects :=
  let (after, since) := match start with
    | .after id => (some id, none)
    | .since ms => (none, some ms)
  s.ask (.catchUp room fetched (pages + 1) (after.getD "") fetched)
    fun id => .catchUp id room after since

/-! ## Rooms, joined and left -/

/-- `room_jid`: the address of a room, from what was typed. -/
def roomJid (rules : JidRules) (channel : String) : Option BareJid :=
  (rules.parseBare (Str.trim channel)).filter (·.node.isSome)

def sendJoin (rules : JidRules) (s : Session) (jid : BareJid) (password : Option String) :
    Session × Effects :=
  match s.rooms.lookup jid with
  | none => (s, {})
  | some room =>
    match rules.withResource jid room.nick with
    | none => ({ s with rooms := s.rooms.erase jid },
        .error ("'" ++ room.nick ++ "' cannot be used as a nickname in a room."))
    | some occupant => (s, { send := [.join occupant (password.filter fun p => !p.isEmpty)] })

/-- A fresh login has lost the room: ask for it again. -/
def rejoin (rules : JidRules) (s : Session) (jid : BareJid) : Session × Effects :=
  let s := { s with rooms := Map.modify s.rooms jid fun room =>
    { room with joined := false, leaving := false, occupants := ∅, renames := ∅ } }
  s.sendJoin rules jid none

/-- Do one thing after another to the session, with all their effects. -/
def each {α : Type} (f : Session → α → Session × Effects) (s : Session) : List α → Session × Effects
  | [] => (s, {})
  | a :: rest =>
    let (s, fx) := f s a
    let (s, more) := each f s rest
    (s, fx ++ more)

/-- `on_online`: the connection is up, on a fresh login. -/
def onOnline (rules : JidRules) (s : Session) : Session × Effects :=
  let s := { s with pending := ∅ }
  let hello : Effects := { events := [.registered s.account.text s.account.domain] }
  let (s, carbons) := s.ask .carbons .enableCarbons
  let (s, roster) := s.ask .roster .getRoster
  let (s, items) := s.ask .discoItems .getItems
  let (s, chats) := match s.chatCursor with
    | some cursor => s.sendCatchUp none (.after cursor) 0 0
    | none => (s, {})
  let (s, rooms) := each (rejoin rules) s s.rooms.keys
  (s, hello ++ carbons ++ roster ++ items ++ { send := [.ownPresence] } ++ chats ++ rooms)

def join (rules : JidRules) (s : Session) (channel : String) (password : Option String) :
    Session × Effects :=
  match roomJid rules channel with
  | none => (s, .error ("'" ++ cleanName channel ++
      "' is not a room address; it looks like room@conference.example.org."))
  | some jid =>
    if (s.rooms.lookup jid).any fun r => r.joined && !r.leaving then (s, {})
    else
      let s := { s with rooms := s.rooms.insert jid (.new jid s.defaultNick) }
      s.sendJoin rules jid password

def part (rules : JidRules) (s : Session) (channel : String) : Session × Effects :=
  match roomJid rules channel with
  | none => (s, {})
  | some jid =>
    match s.rooms.lookup jid with
    | none => (s, {})
    | some room =>
      if !room.joined then
        -- never confirmed, so there will be no presence to wait for
        ({ s with rooms := s.rooms.erase jid },
          { events := [.parted room.name room.nick true none] })
      else
        ({ s with rooms := s.rooms.insert jid { room with leaving := true } },
          { send := ((rules.withResource jid room.nick).map Outgoing.unavailable).toList })

def setNick (rules : JidRules) (s : Session) (nick : String) : Session × Effects :=
  let nick := cleanName (Str.trim nick)
  if nick.isEmpty then (s, .error "A nickname cannot be empty.")
  else
    let joined := (Map.values s.rooms).filter (·.joined)
    let announce (room : Room) : Effects :=
      match rules.withResource room.jid nick with
      | some occupant => { send := [.available occupant] }
      | none => .error ("'" ++ nick ++ "' cannot be used as a nickname in a room.")
    ({ s with defaultNick := nick }, joined.foldl (fun fx room => fx ++ announce room) {})

/-! ## Talking -/

/-- One piece of what is said: sent, and shown now unless a room will reflect it. -/
def sayPart (dest : Jid) (inRoom action : Bool) (conversation : String) (s : Session)
    (text : String) : Session × Effects :=
  let body := if action then "/me " ++ text else text
  let (s, id) := s.nextId
  let sent : Effects := { send := [.say dest inRoom id body] }
  if inRoom then (s, sent)
  else
    let m : ChatMessage :=
      { target := .direct conversation, sender := s.account.text, body := text, isSelf := true
        isAction := action, msgid := some id }
    let entry : Entry :=
      { conversation, author := s.account.text, msgid := id, origin := some id, mine := true }
    ({ s with index := s.index.record entry }, sent ++ { events := [.message m] })

def say (rules : JidRules) (s : Session) (target text : String) (action : Bool) :
    Session × Effects :=
  match rules.parse (Str.trim target) with
  | none => (s, .error ("'" ++ cleanName target ++ "' is not an address."))
  | some dest =>
    let knownRoom := s.rooms.lookup dest.bare
    let inRoom := knownRoom.isSome && dest.resource.isNone
    if knownRoom.any fun r => !r.joined then
      (s, .error ("You are not in " ++ dest.bare.text ++ " yet."))
    else
      -- a private message to someone in a room is filed under their address in it
      let conversation := if knownRoom.isSome then dest.text else dest.bare.text
      each (sayPart dest inRoom action conversation) s (sanitizeOutgoing text)

/-- Where a conversation's messages go, and whether it is a room. -/
def destination (rules : JidRules) (s : Session) (target : String) : Option (Jid × Bool) :=
  (rules.parse (Str.trim target)).map fun dest =>
    (dest, (s.rooms.lookup dest.bare).isSome && dest.resource.isNone)

def edit (rules : JidRules) (s : Session) (target msgid text : String) : Session × Effects :=
  match s.destination rules target with
  | none => (s, .error ("'" ++ cleanName target ++ "' is not an address."))
  | some (dest, group) =>
    match s.index.ours target msgid with
    | none => (s, .error "That message can no longer be edited.")
    | some entry =>
      match entry.origin with
      | none => (s, .error "That message can no longer be edited.")
      | some origin =>
        match sanitizeOutgoing text with
        | [] => (s, .error "An edited message cannot be empty. Delete it instead.")
        | _ :: _ :: _ => (s, .error "That is too long to edit into one message.")
        | [body] =>
          let (s, id) := s.nextId
          let sent : Effects := { send := [.correct dest group id origin body] }
          if group then (s, sent)
          else
            let m : ChatMessage :=
              { target := .direct target, sender := s.account.text, body, isSelf := true
                isAction := false, msgid := some entry.msgid }
            (s, sent ++ { events := [.edited (.direct target) entry.msgid s.account.text m] })

def retract (rules : JidRules) (s : Session) (target msgid : String) : Session × Effects :=
  match s.destination rules target with
  | none => (s, .error ("'" ++ cleanName target ++ "' is not an address."))
  | some (dest, group) =>
    match s.index.ours target msgid with
    | none => (s, .error "That message can no longer be deleted.")
    | some entry =>
      let (s, id) := s.nextId
      let sent : Effects := { send := [.retract dest group id entry.msgid] }
      if group then (s, sent)
      else
        ({ s with index := s.index.forget target entry.msgid },
          sent ++ { events := [.retracted (.direct target) entry.msgid s.account.text] })

/-! ## Presence -/

/-- An occupant gives up a nickname for another, which the room names. -/
def onRenameAway (s : Session) (jid : BareJid) (room : Room) (rawNick : String) (p : Presence) :
    Session × Effects :=
  match (p.item.bind (·.nick)).map cleanName with
  | none => (s, {})
  | some new =>
    let nick := cleanName rawNick
    let room' := { room with
      occupants := room.occupants.erase nick
      renames := room.renames.insert new nick }
    -- the private chat is filed under the address as it arrived
    ({ s with
        rooms := s.rooms.insert jid room'
        index := s.index.forgetConversation (room.name ++ "/" ++ rawNick) }, {})

/-- An occupant leaves, or we do. -/
def onDeparture (s : Session) (jid : BareJid) (room : Room) (rawNick : String) (isSelf : Bool)
    (p : Presence) : Session × Effects :=
  let nick := cleanName rawNick
  let channel := room.name
  let reason := (((p.item.bind (·.reason)).map cleanText).filter fun r => !r.isEmpty).or
    (removalReason p.statuses)
  if isSelf then
    ({ s with
        rooms := s.rooms.erase jid
        index := (s.index.forgetConversation channel).forgetConversations (channel ++ "/") },
      { events := [.parted channel nick true reason] })
  else
    ({ s with
        rooms := s.rooms.insert jid { room with occupants := room.occupants.erase nick }
        index := (s.index.forgetAuthor channel nick).forgetConversation
          (channel ++ "/" ++ rawNick) },
      { events := [.parted channel nick false reason, .memberChanged channel nick none] })

/-- An occupant is here: a rename completed, an arrival, the end of the list, or news of someone. -/
def onArrival (s : Session) (jid : BareJid) (room : Room) (nick : String) (isSelf : Bool)
    (p : Presence) : Session × Effects :=
  let channel := room.name
  let occupant : Occupant :=
    { nick
      affiliation := (p.item.map (·.affiliation)).getD .none
      role := (p.item.map (·.role)).getD .none
      away := match p.availability with
        | some .away | some .xa | some .dnd => true
        | _ => false }
  let oldNick := room.renames.lookup nick
  let before := room.occupant nick
  let room := { room with
    renames := room.renames.erase nick
    occupants := room.occupants.insert nick occupant }
  match oldNick with
  | some old =>
    let room := if room.isSelf old then { room with nick } else room
    ({ s with
        rooms := s.rooms.insert jid room
        index := s.index.renameAuthor channel old nick },
      { events := [.nickChanged channel old nick isSelf,
          .memberChanged channel old (some occupant)] })
  | none =>
    if !room.joined then
      -- the room lists everyone who is there and ends with us
      if isSelf then
        let room := { room with joined := true, nick }
        let s := { s with rooms := s.rooms.insert jid room }
        let here : Effects :=
          { events := [.joined channel nick true, .memberList channel room.members] }
        match room.lastId with
        | some after =>
          let (s, asked) := s.sendCatchUp (some jid) (.after after) 0 0
          (s, here ++ asked)
        | none => (s, here)
      else ({ s with rooms := s.rooms.insert jid room }, {})
    else
      let s := { s with rooms := s.rooms.insert jid room }
      match before with
      | none => (s, { events := [.joined channel nick isSelf,
          .memberChanged channel nick (some occupant)] })
      | some previous =>
        if previous ≠ occupant then
          (s, { events := [.memberChanged channel nick (some occupant)] })
        else (s, {})

/-- A join was refused. A nick that is taken is tried again, a few times, with another. -/
def onRoomError (rules : JidRules) (s : Session) (jid : BareJid) (p : Presence) :
    Session × Effects :=
  match s.rooms.lookup jid with
  | none => (s, {})
  | some room =>
    if room.joined then (s, {})
    else if p.error = some .conflict ∧ room.nickAttempts < maxNickAttempts then
      let room := { room with nickAttempts := room.nickAttempts + 1, nick := room.nick ++ "_" }
      { s with rooms := s.rooms.insert jid room }.sendJoin rules jid none
    else
      ({ s with rooms := s.rooms.erase jid },
        { events := [
            .error ("Could not join " ++ room.name ++ ": " ++
              (p.error.map DefinedCondition.describe).getD "the room refused" ++ "."),
            .parted room.name s.defaultNick true none] })

def onRoomPresence (rules : JidRules) (s : Session) (jid : BareJid) (nick : Option String)
    (p : Presence) : Session × Effects :=
  if p.type = .error then s.onRoomError rules jid p
  else
    match nick, s.rooms.lookup jid with
    | some rawNick, some room =>
      let nick := cleanName rawNick
      let isSelf := p.statuses.contains .selfPresence || room.isSelf nick
      if p.type = .unavailable then
        if p.statuses.contains .newNick then s.onRenameAway jid room rawNick p
        else s.onDeparture jid room rawNick isSelf p
      else s.onArrival jid room nick isSelf p
    | _, _ => (s, {})

/-- A presence. Those that are not a room's concern contacts only. -/
def onPresence (rules : JidRules) (s : Session) (p : Presence) : Session × Effects :=
  match p.sender with
  | none => (s, {})
  | some sender =>
    if (s.rooms.lookup sender.bare).isSome then
      s.onRoomPresence rules sender.bare sender.resource p
    else (s, {})

/-! ## Messages in a room -/

/-- A retraction by `author`, applied if it comes from whoever wrote what it names. -/
def applyRetraction (s : Session) (target : Target) (conversation id author shown : String) :
    Session × Effects :=
  match s.index.forRetraction conversation id author with
  | none => (s, {})
  | some entry =>
    ({ s with index := s.index.forget conversation entry.msgid },
      { events := [.retracted target entry.msgid shown] })

/-- A subject with no body is the room's topic. -/
def onSubject (s : Session) (jid : BareJid) (room : Room) (sender : Option String) (m : Message) :
    Session × Effects :=
  match m.subject with
  | none => (s, {})
  | some subject =>
    let topic := Str.takeChars maxTopic
      (String.ofList ((cleanText subject).toList.map fun c => if c = '\n' then ' ' else c))
    if topic = room.topic.getD "" then (s, {})
    else
      ({ s with rooms := s.rooms.insert jid { room with topic := some topic } },
        { events := [.topicChanged room.name topic (if room.joined then sender else none)] })

/-- A message with a body: a correction of one already shown, or one to show. -/
def onRoomText (s : Session) (jid : BareJid) (room : Room) (sender : Option String) (m : Message)
    (body : String) (time : Option Int) (roomId : Option String) : Session × Effects :=
  let channel := room.name
  let origin := m.origin
  let msgid := roomId.or origin
  let (isAction, text) := splitAction body
  let nick := sender.getD jid.text
  let isSelf := sender.any room.isSelf
  let isNotice := sender.isNone
  let shown : ChatMessage :=
    { target := .channel channel, sender := nick, body := text, isSelf, isAction, isNotice, msgid
      time }
  let original := if isNotice then none else
    m.replace.bind fun id => s.index.forCorrection channel id nick
  match original with
  | some entry =>
    (s, { events := [.edited (.channel channel) entry.msgid nick
      { shown with msgid := some entry.msgid }] })
  | none =>
    let s := match isNotice, msgid with
      | false, some id =>
        let entry : Entry :=
          { conversation := channel, author := nick, msgid := id, origin, mine := isSelf }
        { s with index := s.index.record entry }
      | _, _ => s
    (s, { events := [.message { shown with isCorrection := m.replace.isSome }] })

/-- Show a message said in a room, live or replayed from its archive under the id `archived`. -/
def showRoomMessage (s : Session) (jid : BareJid) (sender : Jid) (m : Message) (time : Option Int)
    (archived : Option String) : Session × Effects :=
  match s.rooms.lookup jid with
  | none => (s, {})
  | some room =>
    let author := sender.resource.map cleanName
    let roomId := archived.or (m.assignedId jid)
    match room.note roomId with
    | none => (s, {})
    | some room =>
      let s := { s with rooms := s.rooms.insert jid room }
      match m.retraction with
      | some id =>
        match author with
        | some author => s.applyRetraction (.channel room.name) room.name id author author
        | none => (s, {})
      | none =>
        match m.text with
        | some body => s.onRoomText jid room author m body time roomId
        | none => if archived.isSome then (s, {}) else s.onSubject jid room author m

/-! ## One-to-one messages -/

/-- How a one-to-one message is filed: the conversation, the author shown, and the author recorded.
In a room's private chat the name shown is a nickname, which can be anything, so the author is
recorded under the occupant's full address. -/
def chatNames (s : Session) (other : Jid) (outgoing : Bool) : String × String × String :=
  let fromRoom := (s.rooms.lookup other.bare).isSome
  let name := if fromRoom then other.text else other.bare.text
  let sender := if fromRoom then (other.resource.map cleanName).getD "" else other.bare.text
  let author := if outgoing then s.account.text else sender
  let key := if outgoing then s.account.text else if fromRoom then other.text else author
  (name, author, key)

/-- A one-to-one message with a body: a correction of one already shown, or one to show. -/
def onChatText (s : Session) (name author key : String) (outgoing : Bool) (m : Message)
    (body : String) (time : Option Int) : Session × Effects :=
  let (isAction, text) := splitAction body
  let msgid := m.id.map (Str.takeChars maxId)
  let shown : ChatMessage :=
    { target := .direct name, sender := author, body := text, isSelf := outgoing, isAction, msgid
      time }
  match m.replace.bind fun id => s.index.forCorrection name id key with
  | some entry =>
    (s, { events := [.edited (.direct name) entry.msgid author
      { shown with msgid := some entry.msgid }] })
  | none =>
    let s := match msgid with
      | some id =>
        let entry : Entry :=
          { conversation := name, author := key, msgid := id, origin := m.origin, mine := outgoing }
        { s with index := s.index.record entry }
      | none => s
    (s, { events := [.message { shown with isCorrection := m.replace.isSome }] })

def showChat (s : Session) (other : Jid) (m : Message) (outgoing : Bool) (time : Option Int)
    (replayed : Bool) : Session × Effects :=
  let (name, author, key) := s.chatNames other outgoing
  -- said before, live, and now again from the archive: shown once
  if replayed && (m.id.any fun id => s.index.contains name (Str.takeChars maxId id)) then (s, {})
  else
    match m.retraction with
    | some id => s.applyRetraction (.direct name) name id key author
    | none =>
      match m.text with
      | some body => s.onChatText name author key outgoing m body time
      | none => (s, {})

/-! ## The archive -/

def onArchivedChat (s : Session) (m : Message) (id : String) (time : Option Int) :
    Session × Effects :=
  -- the place to carry on from, whatever becomes of the message
  let s := { s with chatCursor := some id }
  if m.type ≠ .chat ∧ m.type ≠ .normal then (s, {})
  else
    match m.sender, m.recipient with
    | some sender, some recipient =>
      let outgoing : Bool := sender.bare = s.account
      let other := if outgoing then recipient else sender
      if other.bare = s.account then (s, {}) else s.showChat other m outgoing time true
    | _, _ => (s, {})

/-- Count a result against the request it answers. The room it is from, or our own account's
archive; `none` if it answers no request of ours or comes from elsewhere. -/
def admitResult (s : Session) (sender : Jid) (r : ArchiveResult) :
    Option (Session × Option BareJid) :=
  match r.queryId.bind fun q => (s.pending.lookup q).map (q, ·) with
  | some (query, .catchUp room fetched pages after fetchedAtStart) =>
    if sender.resource.isNone && sender.bare = room.getD s.account then
      let pending := .catchUp room (fetched + 1) pages after fetchedAtStart
      some ({ s with pending := s.pending.insert query pending }, room)
    else none
  | _ => none

def onArchived (s : Session) (sender : Jid) (r : ArchiveResult) : Session × Effects :=
  match s.admitResult sender r with
  | none => (s, {})
  | some (s, room) =>
    let time := r.forwarded.delay
    let m := r.forwarded.message
    let id := Str.takeChars maxId r.id
    match room with
    | none => s.onArchivedChat m id time
    | some room =>
      match m.sender with
      | none => (s, {})
      | some saidBy =>
        if saidBy.bare ≠ room ∨ m.type ≠ .groupchat then (s, {})
        else s.showRoomMessage room saidBy m time (some id)

def onChat (s : Session) (sender : Jid) (e : Envelope) : Session × Effects :=
  match e.received, e.sent with
  | some copy, _ =>
    match copy.message.sender with
    | some other =>
      if sender.bare = s.account then s.showChat other copy.message false copy.delay false
      else (s, {})
    | none => (s, {})
  | none, some copy =>
    match copy.message.recipient with
    | some other =>
      if sender.bare = s.account then s.showChat other copy.message true copy.delay false
      else (s, {})
    | none => (s, {})
  | none, none =>
    -- our own account speaks to us in carbons only
    if sender.bare = s.account then (s, {})
    else
      { s with chatCursor := (e.assignedId s.account).or s.chatCursor }.showChat sender e.toMessage
        false e.delay false

def onMessage (s : Session) (e : Envelope) : Session × Effects :=
  match e.sender with
  | none => (s, {})
  | some sender =>
    match e.archived with
    | some r => s.onArchived sender r
    | none =>
      match e.type with
      | .groupchat => s.showRoomMessage sender.bare sender e.toMessage e.delay none
      | .error => (s, .error ("Message to " ++ sender.bare.text ++ " failed: " ++
          (e.error.map DefinedCondition.describe).getD "it was not delivered" ++ "."))
      | .chat | .normal => s.onChat sender e
      | .headline => (s, {})

/-! ## Answers -/

/-- An answer is only believed from where the question went. -/
def cameFromExpected (s : Session) (id : String) (sender : Option Jid) : Bool :=
  match s.pending.lookup id, sender with
  | none, _ => false
  | some (.catchUp (some _) ..), none => false
  | some _, none => true
  | some (.catchUp (some room) ..), some sender => sender.resource.isNone && sender.bare = room
  | some (.catchUp none ..), some sender => sender.resource.isNone && sender.bare = s.account
  | some .discoItems, some sender =>
    sender.resource.isNone && sender.bare.node.isNone && sender.bare.domain = s.account.domain
  | some .roster, some sender | some .carbons, some sender =>
    sender.bare = s.account || (sender.bare.domain = s.account.domain && sender.bare.node.isNone)

/-- The end of a page. Another is asked for if the archive says there is one and every limit
agrees. -/
def onPageEnd (s : Session) (room : Option BareJid) (fetched pages : Nat) (after : String)
    (fetchedAtStart : Nat) (fin : Option PageEnd) : Session × Effects :=
  let more := ((fin.filter fun f => !f.complete).bind (·.last)).filter fun last =>
    fetched > fetchedAtStart && last ≠ after && fetched < catchUpTotal && pages < catchUpPages
  match more with
  | some last => s.sendCatchUp room (.after last) fetched pages
  | none => (s, {})

def onResult (s : Session) (sender : Option Jid) (id : String) (fin : Option PageEnd) :
    Session × Effects :=
  if s.cameFromExpected id sender then
    let pending := s.pending.lookup id
    let s := { s with pending := s.pending.erase id }
    match pending with
    | some (.catchUp room fetched pages after fetchedAtStart) =>
      s.onPageEnd room fetched pages after fetchedAtStart fin
    | _ => (s, {})
  else (s, {})

/-- An error in answer to a request. None of these is worth telling. -/
def onFailure (s : Session) (sender : Option Jid) (id : String) : Session × Effects :=
  if s.cameFromExpected id sender then ({ s with pending := s.pending.erase id }, {}) else (s, {})

end Session

/-! ## Steps -/

inductive Command where
  | join (channel : String) (key : Option String)
  | part (channel : String)
  | say (target text : String)
  | act (target text : String)
  | reply (target text : String) (reply : ReplyRef)
  | setNick (nick : String)
  | catchUpChats (sinceMs : Int)
  | edit (target msgid text : String)
  | retract (target msgid : String)
  deriving Repr, DecidableEq

inductive Input where
  | online
  | command (c : Command)
  | message (e : Envelope)
  | presence (p : Presence)
  | result (sender : Option Jid) (id : String) (fin : Option PageEnd)
  | failure (sender : Option Jid) (id : String)
  deriving DecidableEq

namespace Session

def onCommand (rules : JidRules) (s : Session) : Command → Session × Effects
  | .join channel key => s.join rules channel key
  | .part channel => s.part rules channel
  | .say target text => s.say rules target text false
  | .act target text => s.say rules target text true
  | .reply target text reply => s.say rules target (reply.quote text) false
  | .setNick nick => s.setNick rules nick
  -- only with nothing better to go on: our own cursor knows exactly where we left off
  | .catchUpChats since =>
    if s.chatCursor.isNone then s.sendCatchUp none (.since since) 0 0 else (s, {})
  | .edit target msgid text => s.edit rules target msgid text
  | .retract target msgid => s.retract rules target msgid

def step (rules : JidRules) (s : Session) : Input → Session × Effects
  | .online => s.onOnline rules
  | .command c => s.onCommand rules c
  | .message e => s.onMessage e
  | .presence p => s.onPresence rules p
  | .result sender id fin => s.onResult sender id fin
  | .failure sender id => s.onFailure sender id

end Session
end Ddirc.Xmpp
