import Ddirc.Xmpp.Session

/-! # What comes of a message

Whatever a message carries, at most one thing is said of it to the user, about the room or the chat
that it is filed in. Beside that a result is counted against its request, the id of what is said in
a room is noted, and the place to carry on from may move. -/

namespace Ddirc.Xmpp
open Option

/-- Something that an occupant says in a room, as it comes to us. -/
structure Utterance where
  room : BareJid
  /-- The occupant's nickname, as it came. -/
  nick : String
  /-- The id that it is shown under. -/
  msgid : Option String
  /-- It comes from the archive. -/
  replayed : Bool
  deriving DecidableEq

def Message.utterance (m : Message) (sender : Option Jid) (archived : Option String) :
    Option Utterance :=
  match sender with
  | some { bare := room, resource := some nick } =>
    if m.type = .groupchat then
      some { room, nick, msgid := (archived.or (m.assignedId room)).or m.origin
             replayed := archived.isSome }
    else none
  | _ => none

theorem Message.utterance_eq {m : Message} (htype : m.type = .groupchat) (sender : Jid)
    (archived : Option String) : m.utterance (some sender) archived =
      sender.resource.map fun nick =>
        { room := sender.bare, nick, msgid := (archived.or (m.assignedId sender.bare)).or m.origin
          replayed := archived.isSome } := by
  obtain ⟨room, resource⟩ := sender
  cases resource with
  | none => rfl
  | some nick => exact if_pos htype

def Input.utterance : Input → Option Utterance
  | .message e =>
    match e.archived with
    | some r => r.forwarded.message.utterance r.forwarded.message.sender
        (some (Str.takeChars maxId r.id))
    | none => e.toMessage.utterance e.sender none
  | _ => none

def Envelope.occupant (e : Envelope) : Option String :=
  match e.archived with
  | some r => r.forwarded.message.sender.bind (·.resource)
  | none => e.sender.bind (·.resource)

def Target.name : Target → String
  | .channel name | .direct name => name

/-! ## Where a message is filed -/

inductive Filing where
  /-- As said in a room, by an occupant or by the room itself. -/
  | room (jid : BareJid) (nick msgid : Option String)
  | chat (other : Jid) (outgoing : Bool)
  | nowhere

/-- The conversation, who is taken for the author there, and whether that is us. -/
structure File where
  target : Target
  author : Option String
  isSelf : Bool

namespace Session
variable {a : ArchiveResult} {pending : Map String Pending}

def file (s : Session) : Filing → Option File
  | .room jid nick _ => (s.rooms.lookup jid).map fun r =>
      { target := .channel r.name, author := nick.map cleanName
        isSelf := (nick.map cleanName).any r.isSelf }
  | .chat other outgoing => some
      { target := .direct (s.chatNames other outgoing).1
        author := some (s.chatNames other outgoing).2.2, isSelf := outgoing }
  | .nowhere => none

/-- What is said to the user of a message, and what becomes of the index. -/
inductive Says (s : Session) (f : Filing) : Session × Effects → Prop
  | nothing : Says s f (s, {})
  | failed (message : String) : Says s f (s, .error message)
  | topic (jid : BareJid) (nick msgid : Option String) (r : Room) (text : String)
      (setBy : Option String) (filed : f = .room jid nick msgid)
      (held : s.rooms.lookup jid = some r) :
      Says s f ({ s with rooms := s.rooms.insert jid { r with topic := some text } },
        { events := [.topicChanged r.name text setBy] })
  | corrected (e : Entry) (target : Target) (m : ChatMessage) (shown : String)
      (filed : m.target = target) (file : s.file f = some ⟨target, some e.author, m.isSelf⟩)
      (known : e ∈ s.index) (conversation : e.conversation = target.name) :
      Says s f (s, { events := [.edited target e.msgid shown m] })
  | retracted (e : Entry) (target : Target) (isSelf : Bool) (shown : String)
      (file : s.file f = some ⟨target, some e.author, isSelf⟩) (known : e ∈ s.index)
      (conversation : e.conversation = target.name) :
      Says s f ({ s with index := s.index.forget target.name e.msgid },
        { events := [.retracted target e.msgid shown] })
  | shown (m : ChatMessage) (author : Option String) (entry : Option Entry)
      (file : s.file f = some ⟨m.target, author, m.isSelf⟩) (notice : m.isNotice = author.isNone)
      (id : ∀ jid nick msgid, f = .room jid nick msgid → m.msgid = msgid)
      (filed : ∀ e ∈ entry, author = some e.author ∧ e.conversation = m.target.name ∧
        m.msgid = some e.msgid) :
      Says s f ({ s with index := entry.elim s.index s.index.record }, { events := [.message m] })

/-- The id of what is said in a room is noted there. -/
def Notes (s : Session) (f : Filing) (rooms : Map BareJid Room) : Prop :=
  rooms = s.rooms ∨ ∃ jid nick msgid r lastId recent, f = .room jid nick msgid ∧
    s.rooms.lookup jid = some r ∧ rooms = s.rooms.insert jid { r with lastId, recent }

/-- A result from `sender` is counted against the request that it answers. -/
def Tallies (s : Session) (sender : Jid) (pending : Map String Pending) : Prop :=
  pending = s.pending ∨ ∃ id room fetched pages after start,
    s.pending.lookup id = some (.catchUp room fetched pages after start) ∧
    sender.bare = room.getD s.account ∧
    pending = s.pending.insert id (.catchUp room (fetched + 1) pages after start)

/-- Where a message from `sender` may be filed. -/
inductive FiledAs (account : BareJid) (e : Envelope) (sender : Jid) : Filing → Prop
  | room (msgid : Option String) (said : e.archived.isSome = true ∨ e.type = .groupchat)
      (heard : (Input.message e).utterance = e.occupant.map fun nick =>
        { room := sender.bare, nick, msgid, replayed := e.archived.isSome }) :
      FiledAs account e sender (.room sender.bare e.occupant msgid)
  /-- Only our own account shows us the chats of others. -/
  | copy (other : Jid) (outgoing : Bool) (ours : sender.bare = account) :
      FiledAs account e sender (.chat other outgoing)
  | chat (archived : e.archived = none) (type : e.type ≠ .groupchat) :
      FiledAs account e sender (.chat sender false)
  | nowhere : FiledAs account e sender .nowhere

def Heard (s : Session) (e : Envelope) (sender : Jid) (r : Session × Effects) : Prop :=
  ∃ f rooms pending chatCursor, FiledAs s.account e sender f ∧ s.Notes f rooms ∧
    s.Tallies sender pending ∧
    { s with rooms, pending, chatCursor }.Says f r

variable {s : Session} {f : Filing} {sender : Jid} {e : Envelope}

/-! ## Saying it -/

theorem says_applyRetraction (h : s.file f = some ⟨target, some author, isSelf⟩) :
    s.Says f (s.applyRetraction target target.name named author shown) := by
  unfold applyRetraction
  split
  · exact .nothing
  next e he =>
    obtain ⟨hmem, hconversation, rfl, -⟩ := Index.forRetraction_some he
    exact .retracted e target isSelf shown h hmem hconversation

theorem says_onSubject (hr : s.rooms.lookup jid = some r) (sender : Option String) (m : Message) :
    s.Says (.room jid nick msgid) (s.onSubject jid r sender m) := by
  unfold onSubject
  split
  · exact .nothing
  dsimp only
  split
  · exact .nothing
  · exact .topic jid nick msgid r _ _ rfl hr

/-- A text corrects what its author said, or is shown and filed. -/
theorem says_onRoomText (hr : s.rooms.lookup jid = some r) (nick : Option String) (m : Message)
    (body : String) (time : Option Int) (roomId : Option String) :
    s.Says (.room jid nick (roomId.or m.origin))
      (s.onRoomText jid r (nick.map cleanName) m body time roomId) := by
  have hfile : s.file (.room jid nick (roomId.or m.origin)) = some ⟨.channel r.name,
      nick.map cleanName, (nick.map cleanName).any r.isSelf⟩ := by
    rw [file, hr]
    rfl
  unfold onRoomText
  cases nick with
  | none => exact .shown _ none none hfile rfl (by rintro _ _ _ ⟨⟩; rfl) nofun
  | some nick =>
    simp only [map_some, getD_some]
      at hfile ⊢
    split
    next e he =>
      obtain ⟨id, -, he⟩ := bind_eq_some_iff.1 he
      obtain ⟨hmem, hconversation, hauthor, -⟩ := Index.forCorrection_some he
      exact .corrected e _ _ _ rfl (hauthor ▸ hfile) hmem hconversation
    next =>
      cases hid : roomId.or m.origin with
      | none => exact .shown _ _ none (hid ▸ hfile) rfl (by rintro _ _ _ ⟨⟩; rfl) nofun
      | some k =>
        refine .shown _ _ (some _) (hid ▸ hfile) rfl (by rintro _ _ _ ⟨⟩; rfl) ?_
        rintro _ ⟨⟩
        exact ⟨rfl, rfl, rfl⟩

theorem says_showChat (other : Jid) (m : Message) (outgoing : Bool) (time : Option Int)
    (replayed : Bool) :
      s.Says (.chat other outgoing) (s.showChat other m outgoing time replayed) := by
  have hfile : s.file (.chat other outgoing) = some ⟨.direct (s.chatNames other outgoing).1,
    some (s.chatNames other outgoing).2.2, outgoing⟩ := rfl
  unfold showChat
  dsimp only
  generalize s.chatNames other outgoing = names at hfile
  split
  · exact .nothing
  split
  · exact says_applyRetraction hfile
  split
  · unfold onChatText
    dsimp only
    split
    next e he =>
      obtain ⟨id, -, he⟩ := bind_eq_some_iff.1 he
      obtain ⟨hmem, hconversation, hauthor, -⟩ := Index.forCorrection_some he
      exact .corrected e _ _ _ rfl (hauthor ▸ hfile) hmem hconversation
    · split
      · refine .shown _ _ (some _) hfile rfl (by simp) ?_
        rintro _ ⟨⟩
        exact ⟨rfl, rfl, by assumption⟩
      · exact .shown _ _ none hfile rfl (by simp) (by simp)
  · exact .nothing

/-! ## Heeding it -/

/-- A message said in a room: its id is noted, and it is filed there. -/
theorem heard_showRoomMessage (jid : BareJid) (sender : Jid) (m : Message) (time : Option Int)
    (archived : Option String) :
    let f : Filing := .room jid sender.resource ((archived.or (m.assignedId jid)).or m.origin)
    ∃ rooms, s.Notes f rooms ∧
      { s with rooms }.Says f (s.showRoomMessage jid sender m time archived) := by
  unfold showRoomMessage
  split
  · exact ⟨_, .inl rfl, .nothing⟩
  next r hr =>
  dsimp only
  split
  · exact ⟨_, .inl rfl, .nothing⟩
  next noted hnoted =>
  obtain ⟨lastId, recent, rfl⟩ := Room.note_eq_some hnoted
  have hheld : (s.rooms.insert jid { r with lastId, recent }).lookup jid =
      some { r with lastId, recent } := AList.lookup_insert s.rooms
  refine ⟨_, .inr ⟨_, _, _, r, lastId, recent, rfl, hr, rfl⟩, ?_⟩
  split
  · cases hnick : sender.resource with
    | none => exact .nothing
    | some nick =>
      exact says_applyRetraction (congrArg (Option.map _) hheld)
  split
  · exact says_onRoomText hheld ..
  split
  · exact .nothing
  · exact says_onSubject hheld ..

/-- A result is counted if it is from the archive that was asked. -/
theorem admitResult_eq_some (h : s.admitResult sender a = some (s₁, room)) :
    ∃ id fetched pages after start,
      s.pending.lookup id = some (.catchUp room fetched pages after start) ∧
      sender.bare = room.getD s.account ∧ s₁ = { s with
        pending := s.pending.insert id (.catchUp room (fetched + 1) pages after start) } := by
  unfold admitResult at h
  split at h
  next q room fetched pages after start hq =>
    split at h
    next hfrom =>
      obtain ⟨rfl, rfl⟩ := Prod.mk.inj (some.inj h)
      rw [Bool.and_eq_true, decide_eq_true_eq] at hfrom
      obtain ⟨q', -, hq⟩ := bind_eq_some_iff.1 hq
      obtain ⟨p, hp, heq⟩ := map_eq_some_iff.1 hq
      obtain ⟨rfl, rfl⟩ := Prod.mk.inj heq
      exact ⟨q', _, _, _, _, hp, hfrom.2, rfl⟩
    · cases h
  · cases h

theorem Heard.nowhere (h : s.Tallies sender pending) (chatCursor : Option String) :
    s.Heard e sender ({ s with pending, chatCursor }, {}) :=
  ⟨_, s.rooms, pending, chatCursor, .nowhere, .inl rfl, h, .nothing⟩

theorem heard_onChat (harchived : e.archived = none)
    (htype : e.type ≠ .groupchat) : s.Heard e sender (s.onChat sender e) := by
  have hnothing : s.Heard e sender (s, {}) := .nowhere (.inl rfl) _
  have hcopy (hours : sender.bare = s.account) (other : Jid) (m : Message) (outgoing : Bool)
      (time : Option Int) : s.Heard e sender (s.showChat other m outgoing time false) :=
    ⟨_, s.rooms, s.pending, s.chatCursor, .copy _ _ hours, .inl rfl, .inl rfl, says_showChat ..⟩
  unfold onChat
  split
  · split
    · split
      next hours => exact hcopy hours ..
      · exact hnothing
    · exact hnothing
  · split
    · split
      next hours => exact hcopy hours ..
      · exact hnothing
    · exact hnothing
  · split
    · exact hnothing
    · exact ⟨_, s.rooms, s.pending, _, .chat harchived htype, .inl rfl, .inl rfl, says_showChat ..⟩

theorem heard_onArchivedChat (hours : sender.bare = s.account) (h : s.Tallies sender pending)
    (m : Message) (id : String) (time : Option Int) :
    s.Heard e sender ({ s with pending }.onArchivedChat m id time) := by
  unfold onArchivedChat
  dsimp only
  split
  · exact .nowhere h _
  split
  next said recipient _ _ =>
    generalize (if decide (said.bare = s.account) then recipient else said) = other
    split
    · exact .nowhere h _
    · exact ⟨_, s.rooms, pending, _, .copy _ _ hours, .inl rfl, h, says_showChat ..⟩
  · exact .nowhere h _

theorem heard_onArchived (harchived : e.archived = some a) :
    s.Heard e sender (s.onArchived sender a) := by
  unfold onArchived
  split
  · exact .nowhere (.inl rfl) _
  next s₁ room hadmitted =>
  obtain ⟨id, fetched, pages, after, start, hp, hfrom, rfl⟩ := admitResult_eq_some hadmitted
  have hcounted :
      s.Tallies sender (s.pending.insert id (.catchUp room (fetched + 1) pages after start)) :=
    .inr ⟨id, room, fetched, pages, after, start, hp, hfrom, rfl⟩
  generalize s.pending.insert id _ = pending at hcounted
  cases room with
  | none => exact heard_onArchivedChat hfrom hcounted ..
  | some room =>
    obtain rfl : sender.bare = room := hfrom
    dsimp only
    split
    · exact .nowhere hcounted _
    next saidBy hsaidBy =>
    split
    · exact .nowhere hcounted _
    next hroom =>
      obtain ⟨hbare, htype⟩ := not_or.1 hroom
      obtain ⟨rooms, hrooms, hsaid⟩ := heard_showRoomMessage (s := { s with pending }) sender.bare
        saidBy a.forwarded.message a.forwarded.delay (some (Str.takeChars maxId a.id))
      have hnick : e.occupant = saidBy.resource := by
        rw [Envelope.occupant, harchived]
        exact congrArg (Option.bind · _) hsaidBy
      rw [← hnick] at hrooms hsaid
      refine ⟨_, rooms, pending, s.chatCursor, .room _ (.inl (by rw [harchived]; rfl)) ?_, hrooms,
        hcounted, hsaid⟩
      simp only [Input.utterance, harchived, hsaidBy, hnick]
      rw [Message.utterance_eq (not_not.1 htype), not_not.1 hbare]
      rfl

theorem heard_onMessage (hsender : e.sender = some sender) : s.Heard e sender (s.onMessage e) := by
  unfold onMessage
  rw [hsender]
  cases harchived : e.archived with
  | some a => exact heard_onArchived harchived
  | none =>
    dsimp only
    split
    next htype =>
      obtain ⟨rooms, hrooms, hsaid⟩ := heard_showRoomMessage (s := s) sender.bare sender e.toMessage
        e.delay none
      have hnick : e.occupant = sender.resource := by
        rw [Envelope.occupant, harchived, hsender]
        rfl
      rw [← hnick] at hrooms hsaid
      refine ⟨_, rooms, s.pending, s.chatCursor, .room _ (.inr htype) ?_, hrooms, .inl rfl, hsaid⟩
      simp only [Input.utterance, harchived, hsender, hnick]
      exact Message.utterance_eq htype sender none
    · exact ⟨_, s.rooms, s.pending, s.chatCursor, .nowhere, .inl rfl, .inl rfl, .failed _⟩
    next htype => exact heard_onChat harchived (by rw [htype]; nofun)
    next htype => exact heard_onChat harchived (by rw [htype]; nofun)
    · exact .nowhere (.inl rfl) _

end Session
end Ddirc.Xmpp
