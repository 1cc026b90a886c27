import Mathlib.Logic.Relation
import Ddirc.Xmpp.Heard
import Ddirc.Xmpp.Presence

/-! # What a step of the session does

Everything that the session does is a list of deeds: elementary writes, and words to the user
interface and to the server. Which deeds a step may do is its licence. What a step leaves alone is
read off from it, one case for each deed. -/

namespace Ddirc.Xmpp
open Option

/-! ## What is said, asked and shown -/

/-- The message that an event changes or takes back, if that was said in a room. -/
def Event.amends : Event → Option (String × String)
  | .edited (.channel channel) msgid _ _ => some (channel, msgid)
  | .retracted (.channel channel) msgid _ => some (channel, msgid)
  | _ => none

/-- The id of the message that an event shows, if an occupant of a room said it. -/
def Event.said : Event → Option String
  | .message { target := .channel _, isNotice := false, msgid, .. } => msgid
  | _ => none

/-- An entry that is no occupant's: in the conversation of a room it is filed under the room's own
address, or under ours. -/
def Entry.Aside (e : Entry) (account : BareJid) : Prop :=
  ∀ room : BareJid, e.conversation = room.text → e.author = room.text ∨ e.author = account.text

abbrev Sent := String × Option Jid

def Outgoing.request (account : BareJid) : Outgoing → Option Sent
  | .enableCarbons id | .getRoster id => some (id, none)
  | .getItems id => some (id, some { bare := account.server })
  | .catchUp id room _ _ => some (id, room.map fun room => { bare := room })
  | _ => none

/-- To whom a request goes that is waited on. -/
def Pending.dest (account : BareJid) : Pending → Option Jid
  | .roster | .carbons => none
  | .discoItems => some { bare := account.server }
  | .catchUp room .. => room.map fun room => { bare := room }

def Outgoing.line : Outgoing → Option (Option Jid × String)
  | .say dest _ _ body => some (some dest, body)
  | _ => none

def Outgoing.entry : Outgoing → Option (BareJid × Option String)
  | .join occupant password => some (occupant.bare, password)
  | _ => none

def Input.isCommand : Input → Bool
  | .command _ => true
  | _ => false

/-! ## Deeds -/

inductive Deed where
  | hold (jid : BareJid) (room : Room)
  | drop (jid : BareJid)
  /-- Send a request and wait for the answer. -/
  | ask (pending : Pending) (request : String → Outgoing)
  /-- Count a result against the request it answers. -/
  | count (id : String) (pending : Pending)
  | settle (id : String)
  | settleAll
  /-- Use up an id. -/
  | mint
  | point (cursor : Option String)
  | call (nick : String)
  | forget (index : Index)
  | rename (channel old new : String)
  /-- Show a message, and file it. -/
  | utter (m : ChatMessage) (entry : Option Entry)
  | tell (e : Event)
  | send (o : Outgoing)

namespace Session

def perform (r : Session × Effects) : Deed → Session × Effects
  | .hold jid room => ({ r.1 with rooms := r.1.rooms.insert jid room }, r.2)
  | .drop jid => ({ r.1 with rooms := r.1.rooms.erase jid }, r.2)
  | .ask pending request => ((r.1.ask pending request).1, r.2 ++ (r.1.ask pending request).2)
  | .count id pending => ({ r.1 with pending := r.1.pending.insert id pending }, r.2)
  | .settle id => ({ r.1 with pending := r.1.pending.erase id }, r.2)
  | .settleAll => ({ r.1 with pending := ∅ }, r.2)
  | .mint => (r.1.nextId.1, r.2)
  | .point chatCursor => ({ r.1 with chatCursor }, r.2)
  | .call defaultNick => ({ r.1 with defaultNick }, r.2)
  | .forget index => ({ r.1 with index }, r.2)
  | .rename channel old new => ({ r.1 with index := r.1.index.renameAuthor channel old new }, r.2)
  | .utter m entry => ({ r.1 with index := entry.elim r.1.index r.1.index.record },
      r.2 ++ { events := [.message m] })
  | .tell e => (r.1, r.2 ++ { events := [e] })
  | .send o => (r.1, r.2 ++ { send := [o] })

/-- Every room is held under its own address. -/
def Keyed (s : Session) : Prop := ∀ jid r, s.rooms.lookup jid = some r → r.jid = jid

theorem of_lookup_new {ours : BareJid} {rooms : List BareJid}
    (h : (Session.new ours roomNick stem rooms).rooms.lookup jid = some r) :
    r = .new jid (cleanName roomNick) := by
  refine List.foldlRecOn (motive := fun m : Map BareJid Room => ∀ jid r, m.lookup jid = some r →
    r = .new jid (cleanName roomNick)) rooms _ (fun _ _ hr => (by cases hr))
      (fun m hm room _ jid r hr => ?_) jid r h
  rcases Map.of_lookup_insert hr with ⟨rfl, rfl⟩ | ⟨-, hr⟩
  · rfl
  · exact hm jid r hr

/-- What a step may do. -/
structure Licence where
  /-- It may send, and heed what is answered. -/
  sends : Bool := false
  /-- It may send text. -/
  talks : Bool := false
  /-- It may ask to be let into a room, with a key. -/
  enters : BareJid → Option String → Prop := fun _ _ => True
  /-- It may change who has which nickname. -/
  moves : Bool := false
  /-- It may act on what is said, -/
  utterance : Option Utterance := none
  /-- on messages that were remembered before. -/
  index : Index := .empty

/-- The messages of others are filed, changed and taken back by what their authors say alone. -/
def Licensed (l : Licence) (s : Session) : Deed → Prop
  | .hold jid r => (s.Keyed → r.jid = jid) ∧ (l.moves = true ∨ r.renames = ∅ ∨
      ∃ r₀, s.rooms.lookup jid = some r₀ ∧ r.renames = r₀.renames)
  | .ask p request => l.sends = true ∧
      ∀ id, (request id).request s.account = some (id, p.dest s.account)
  | .count id p => l.sends = true ∧
      ∃ p₀, s.pending.lookup id = some p₀ ∧ p₀.dest s.account = p.dest s.account
  | .settle _ | .settleAll | .mint => l.sends = true
  | .forget index => ∀ e ∈ index, e ∈ s.index
  | .rename .. => l.moves = true
  | .utter m entry =>
    (∀ id, (Event.message m).said = some id → ∃ u ∈ l.utterance, u.msgid = some id) ∧
      (s.Keyed → ∀ e ∈ entry, e.Aside s.account ∨ ∃ u ∈ l.utterance, e.conversation = u.room.text ∧
        e.author = cleanName u.nick ∧ (Event.message m).said = some e.msgid)
  | .tell e => e.said = none ∧ (s.Keyed → ∀ c id, e.amends = some (c, id) → ∃ u ∈ l.utterance,
      u.room.text = c ∧ ∃ e₀ ∈ l.index, e₀.conversation = c ∧ e₀.author = cleanName u.nick ∧
        e₀.msgid = id)
  | .send o => l.sends = true ∧ o.request s.account = none ∧ (o.line = none ∨ l.talks = true) ∧
      ∀ e ∈ o.entry, l.enters e.1 e.2
  | _ => True

/-- The session after deeds that the licence allows, with what they tell and send. -/
def Does (l : Licence) (s : Session) (r : Session × Effects) : Prop :=
  Relation.ReflTransGen (fun r r' => ∃ d, r.1.Licensed l d ∧ r' = perform r d) (s, {}) r

variable {l : Licence} {rules : JidRules} {s : Session}

namespace Does
variable {isSelf : Bool}

theorem keeps {I : Session × Effects → Prop} (h : s.Does l r) (hs : I (s, {}))
    (hkeep : ∀ r d, r.1.Licensed l d → I r → I (perform r d)) : I r := by
  induction h with
  | refl => exact hs
  | tail _ hd ih =>
    obtain ⟨d, hd, rfl⟩ := hd
    exact hkeep _ d hd ih

theorem refl : s.Does l (s, {}) := Relation.ReflTransGen.refl

theorem perform_append (fx : Effects) (r : Session × Effects) (d : Deed) :
    perform (r.1, fx ++ r.2) d = ((perform r d).1, fx ++ (perform r d).2) := by
  cases d with
  | ask | utter | tell | send => exact congrArg (Prod.mk _) (Effects.append_assoc ..)
  | _ => rfl

theorem append (h : s.Does l r) (h' : r.1.Does l r') : s.Does l (r'.1, r.2 ++ r'.2) := by
  induction h' with
  | refl => exact (Effects.append_nil r.2).symm ▸ h
  | tail _ hd ih =>
    obtain ⟨d, hd, rfl⟩ := hd
    exact Relation.ReflTransGen.tail ih ⟨d, hd, (perform_append r.2 _ d).symm⟩

theorem one (d : Deed) (h : s.Licensed l d) : s.Does l (perform (s, {}) d) :=
  Relation.ReflTransGen.single ⟨d, h, rfl⟩

theorem write (d : Deed) (h : s.Licensed l d) (hd : (perform (s, {}) d).2 = {})
    (h' : (perform (s, {}) d).1.Does l r) : s.Does l r := by
  have := (one d h).append h'
  rwa [hd] at this

/-- What holds of every allowed deed holds of deeds one after another. -/
theorem of_deeds {P : Session → Session × Effects → Prop} (h : s.Does l r) (hrefl : P s (s, {}))
    (happend : ∀ {r r'}, P s r → P r.1 r' → P s (r'.1, r.2 ++ r'.2))
    (hone : ∀ s d, s.Licensed l d → P s (perform (s, {}) d)) : P s r := by
  refine h.keeps hrefl fun r d hd hr => ?_
  have := happend hr (hone r.1 d hd)
  rwa [← perform_append, Effects.append_nil] at this

/-! ## What deeds keep -/

theorem keyed (h : s.Does l r) (hs : s.Keyed) : r.1.Keyed := by
  refine h.keeps (I := fun r => r.1.Keyed) hs fun r d hd hr => ?_
  cases d with
  | hold jid room =>
    intro jid' r' hr'
    rcases Map.of_lookup_insert hr' with ⟨rfl, rfl⟩ | ⟨-, hr'⟩
    · exact hd.1 hr
    · exact hr jid' r' hr'
  | drop jid => exact fun jid' r' hr' => hr jid' r' (Map.of_lookup_erase hr').2
  | _ => exact hr

/-! ## Some deeds -/

theorem hold (hr : s.rooms.lookup jid = some r₀)
    (h : { s with rooms := s.rooms.insert jid r }.Does l x) (hjid : r.jid = r₀.jid)
    (hrenames : l.moves ∨ r.renames = ∅ ∨ r.renames = r₀.renames) : s.Does l x :=
  write (.hold jid r) ⟨fun hs => hjid.trans (hs jid r₀ hr),
    hrenames.imp_right (Or.imp_right fun h => ⟨r₀, hr, h⟩)⟩ rfl h

theorem tell (hsaid : e.said = none) (hamends : e.amends = none)
    (h : s.Does l (s', { events := es, send := os })) :
    s.Does l (s', { events := e :: es, send := os }) :=
  (one (.tell e) ⟨hsaid, fun _ _ _ h => nomatch hamends.symm.trans h⟩).append h

theorem error (message : String) : s.Does l (s, .error message) := tell rfl rfl refl

theorem each (hf : ∀ (s : Session), ∀ a ∈ as, s.Does l (f s a)) (s : Session) :
    s.Does l (Session.each f s as) := by
  induction as generalizing s with
  | nil => exact refl
  | cons a rest ih =>
    exact (hf s a List.mem_cons_self).append
      (ih (fun s a ha => hf s a (List.mem_cons_of_mem _ ha)) _)

theorem forget (conversation msgid : String) :
    s.Licensed l (.forget (s.index.forget conversation msgid)) :=
      fun _ he => (Index.mem_forget.1 he).1

/-! ## Leaving a room -/

theorem onDeparture (hr : s.rooms.lookup jid = some r) (raw : String) (isSelf : Bool)
    (p : Presence) :
    s.Does l (s.onDeparture jid r raw isSelf p) := by
  unfold Session.onDeparture
  split
  · refine write (.drop jid) trivial rfl
      (write (.forget _) (fun e he => ?_) rfl (tell rfl rfl refl))
    exact (Index.mem_forgetConversation.1 (Index.mem_forgetConversations.1 he).1).1
  · refine hold hr (write (.forget _) (fun e he => ?_) rfl (tell rfl rfl (tell rfl rfl refl)))
      rfl (.inr (.inr rfl))
    exact (Index.mem_forgetAuthor.1 (Index.mem_forgetConversation.1 he).1).1

theorem onRenameAway (hmoves : l.moves) (hr : s.rooms.lookup jid = some r) (raw : String)
    (p : Presence) : s.Does l (s.onRenameAway jid r raw p) := by
  unfold Session.onRenameAway
  split
  · exact refl
  · refine hold hr (one (.forget _) fun e he => ?_) rfl (.inl hmoves)
    exact (Index.mem_forgetConversation.1 he).1

section
variable (hsends : l.sends = true)
include hsends

theorem send (hrequest : o.request s.account = none) (hline : o.line = none)
    (hentry : ∀ e ∈ o.entry, l.enters e.1 e.2 := by exact fun _ h => nomatch h) :
    s.Does l (s, { send := [o] }) := one (.send o) ⟨hsends, hrequest, .inl hline, hentry⟩

theorem ask (p : Pending) (request : String → Outgoing)
    (h : ∀ id, (request id).request s.account = some (id, p.dest s.account)) :
    s.Does l (s.ask p request) := one (.ask p request) ⟨hsends, h⟩

theorem sendCatchUp (room : Option BareJid) (start : CatchUpFrom) (fetched pages : Nat) :
    s.Does l (s.sendCatchUp room start fetched pages) := by
  unfold Session.sendCatchUp
  cases start <;> exact ask hsends _ _ fun _ => rfl

theorem onResult (sender : Option Jid) (id : String) (fin : Option PageEnd) :
    s.Does l (s.onResult sender id fin) := by
  unfold Session.onResult
  split
  · refine write (.settle id) hsends rfl ?_
    dsimp only
    split
    · unfold onPageEnd
      dsimp only
      split
      · exact sendCatchUp hsends ..
      · exact refl
    · exact refl
  · exact refl

theorem onFailure (sender : Option Jid) (id : String) : s.Does l (s.onFailure sender id) := by
  unfold Session.onFailure
  split
  · exact one (.settle id) hsends
  · exact refl

/-! ## Rooms -/

theorem sendJoin (jid : BareJid) (password : Option String)
    (henters : l.enters jid (password.filter (!·.isEmpty)) := by exact trivial) :
    s.Does l (s.sendJoin rules jid password) := by
  unfold Session.sendJoin
  split
  · exact refl
  split
  · exact write (.drop jid) trivial rfl (error _)
  next hoccupant =>
    obtain ⟨resource, -, rfl⟩ := map_eq_some_iff.1 hoccupant
    exact send hsends rfl rfl fun e he => mem_some_iff.1 he ▸ henters

theorem rejoin (s : Session) (jid : BareJid) (henters : l.enters jid none) :
    s.Does l (s.rejoin rules jid) := by
  unfold Session.rejoin Map.modify
  split
  · exact sendJoin hsends jid none henters
  next r hr =>
    exact hold hr (sendJoin hsends jid none henters) rfl (.inr (.inl rfl))

theorem onOnline (henters : ∀ jid ∈ s.rooms, l.enters jid none := by exact fun _ _ => trivial) :
    s.Does l (s.onOnline rules) := by
  have hasked : (perform (s, {}) .settleAll).1.Does l _ :=
    (((tell (e := .registered s.account.text s.account.domain) rfl rfl refl).append
      (ask hsends .carbons .enableCarbons fun _ => rfl)).append
        (ask hsends .roster .getRoster fun _ => rfl)).append
      (ask hsends .discoItems .getItems fun _ => rfl)
  have hshown := hasked.append (send hsends (o := .ownPresence) rfl rfl)
  refine write .settleAll hsends rfl ?_
  unfold Session.onOnline
  dsimp only
  split
  · exact (hshown.append (sendCatchUp hsends ..)).append
      (each (fun s jid hjid => rejoin hsends s jid (henters jid hjid)) _)
  · exact (hshown.append refl).append
      (each (fun s jid hjid => rejoin hsends s jid (henters jid hjid)) _)

theorem join (channel : String) (password : Option String)
    (henters : ∀ jid, roomJid rules channel = some jid →
      l.enters jid (password.filter (!·.isEmpty)) := by exact fun _ _ => trivial) :
    s.Does l (s.join rules channel password) := by
  unfold Session.join
  split
  · exact error _
  next jid hjid =>
  split
  · exact refl
  · exact write (.hold jid _) ⟨fun _ => rfl, .inr (.inl rfl)⟩ rfl
      (sendJoin hsends jid password (henters jid hjid))

theorem part (channel : String) : s.Does l (s.part rules channel) := by
  unfold Session.part
  split
  · exact refl
  next jid _ =>
  split
  · exact refl
  next r hr =>
  split
  · exact write (.drop jid) trivial rfl (tell rfl rfl refl)
  · refine hold (r := { r with leaving := true }) hr ?_ rfl (.inr (.inr rfl))
    cases rules.withResource jid r.nick with
    | none => exact refl
    | some occupant => exact send hsends rfl rfl

theorem setNick (nick : String) : s.Does l (s.setNick rules nick) := by
  unfold Session.setNick
  dsimp only
  split
  · exact error _
  · refine write (.call (cleanName (Str.trim nick))) trivial rfl ?_
    refine List.foldlRecOn (motive := fun fx => Does l _ (_, fx)) _ _ refl fun fx hfx room _ => ?_
    split
    · exact hfx.append (send hsends rfl rfl)
    · exact hfx.append (error _)

/-! ## Talking -/

theorem sayPart (htalks : l.talks) (dest : Jid) (inRoom action : Bool) (conversation : String)
    (s : Session) (text : String) :
      s.Does l (Session.sayPart dest inRoom action conversation s text) := by
  have hsay {s : Session} {id body : String} :
      s.Does l (s, { send := [.say dest inRoom id body] }) :=
    one (.send _) ⟨hsends, rfl, .inr htalks, nofun⟩
  unfold Session.sayPart
  refine write .mint hsends rfl ?_
  dsimp only
  split
  · exact hsay
  · refine hsay.append (one (.utter _ (some _)) ⟨?_, fun _ e he => .inl fun _ _ => ?_⟩)
    · rintro id ⟨⟩
    · exact .inr (mem_some_iff.1 he ▸ rfl)

theorem say (htalks : l.talks) (target text : String) (action : Bool) :
    s.Does l (s.say rules target text action) := by
  unfold Session.say
  split
  · exact error _
  dsimp only
  split
  · exact error _
  · exact each (fun s text _ => sayPart hsends htalks _ _ _ _ s text) s

theorem edit (target msgid text : String) : s.Does l (s.edit rules target msgid text) := by
  unfold Session.edit
  split
  · exact error _
  split
  · exact error _
  split
  · exact error _
  split
  · exact error _
  · exact error _
  · refine write .mint hsends rfl ?_
    dsimp only
    split
    · exact send hsends rfl rfl
    · exact (send hsends rfl rfl).append (tell rfl rfl refl)

theorem retract (target msgid : String) : s.Does l (s.retract rules target msgid) := by
  unfold Session.retract
  split
  · exact error _
  split
  · exact error _
  · refine write .mint hsends rfl ?_
    dsimp only
    split
    · exact send hsends rfl rfl
    · exact write (.forget _) (forget _ _) rfl ((send hsends rfl rfl).append (tell rfl rfl refl))

theorem onCommand (htalks : l.talks) (c : Command)
    (henters : ∀ channel key jid, c = .join channel key → roomJid rules channel = some jid →
      l.enters jid (key.filter (!·.isEmpty)) := by exact fun _ _ _ _ _ => trivial) :
    s.Does l (s.onCommand rules c) := by
  unfold Session.onCommand
  split
  · exact join hsends _ _ fun jid => henters _ _ jid rfl
  · exact part hsends ..
  · exact say hsends htalks ..
  · exact say hsends htalks ..
  · exact say hsends htalks ..
  · exact setNick hsends ..
  · split
    · exact sendCatchUp hsends ..
    · exact refl
  · exact edit hsends ..
  · exact retract hsends ..

/-! ## Presence -/

theorem onRoomError (jid : BareJid) (p : Presence)
    (henters : p.error = some .conflict → l.enters jid none) :
    s.Does l (s.onRoomError rules jid p) := by
  unfold Session.onRoomError
  split
  · exact refl
  next r hr =>
  split
  · exact refl
  split
  next hretry => exact hold hr (sendJoin hsends jid none (henters hretry.1)) rfl (.inr (.inr rfl))
  · exact write (.drop jid) trivial rfl (tell rfl rfl (tell rfl rfl refl))

variable (hmoves : l.moves = true)
include hmoves

theorem onArrival (hr : s.rooms.lookup jid = some r) (nick : String) (isSelf : Bool)
    (p : Presence) :
    s.Does l (s.onArrival jid r nick isSelf p) := by
  cases hrename : r.renames.lookup nick with
  | some old =>
    rw [onArrival_renamed hrename]
    refine hold hr (write (.rename ..) hmoves rfl (tell rfl rfl (tell rfl rfl refl))) ?_
      (.inl hmoves)
    exact (apply_ite Room.jid ..).trans (ite_self _)
  | none =>
  cases hjoined : r.joined with
  | true =>
    rw [onArrival_news hrename hjoined]
    refine hold (r := r.welcome nick p) hr ?_ rfl (.inl hmoves)
    cases r.occupant nick with
    | none => exact tell rfl rfl (tell rfl rfl refl)
    | some previous =>
      dsimp only
      split
      · exact tell rfl rfl refl
      · exact refl
  | false =>
    cases isSelf with
    | false =>
      rw [onArrival_listed hrename hjoined]
      exact hold hr refl rfl (.inl hmoves)
    | true =>
      rw [onArrival_joins hrename hjoined]
      dsimp only
      cases (r.welcome nick p).lastId with
      | none => exact hold hr (tell rfl rfl (tell rfl rfl refl)) rfl (.inl hmoves)
      | some after =>
        exact hold hr ((tell rfl rfl (tell rfl rfl refl)).append (sendCatchUp hsends ..)) rfl
          (.inl hmoves)

theorem onPresence (p : Presence) (henters : ∀ sender ∈ p.sender, p.type = .error →
      p.error = some .conflict → l.enters sender.bare none := by exact fun _ _ _ _ => trivial) :
    s.Does l (s.onPresence rules p) := by
  unfold Session.onPresence
  split
  · exact refl
  next sender hsender =>
  split
  · unfold onRoomPresence
    split
    next herror => exact onRoomError hsends _ p (henters sender hsender herror)
    split
    next rawNick r _ hr =>
      split
      · split
        · exact onRenameAway hmoves hr ..
        · exact onDeparture hr ..
      · exact onArrival hsends hmoves hr ..
    · exact refl
  · exact refl

end

/-! ## Messages -/

/-- A chat is filed apart from what is said in a room. -/
theorem aside_of_chatNames {other : Jid} {outgoing : Bool} {e : Entry}
    (hname : e.conversation = (s.chatNames other outgoing).1)
    (hkey : e.author = (s.chatNames other outgoing).2.2) : e.Aside s.account := by
  intro room hroom
  unfold chatNames at hname hkey
  dsimp only at hname hkey
  cases outgoing with
  | true => exact .inr hkey
  | false =>
    refine .inl ?_
    rw [if_neg Bool.false_ne_true] at hkey
    split at hname
    next hheld =>
      rw [if_pos hheld] at hkey
      rw [hkey, ← hname, hroom]
    next hheld =>
      rw [if_neg hheld, if_neg Bool.false_ne_true, if_neg hheld] at hkey
      rw [hkey, ← hname, hroom]

theorem aside_of_file (h : s.file f = some ⟨.direct name, some author, isSelf⟩) {e : Entry}
    (hname : e.conversation = name) (hkey : e.author = author) : e.Aside s.account := by
  cases f with
  | room => cases (map_eq_some_iff.1 h).choose_spec.2
  | chat other outgoing =>
    cases h
    exact aside_of_chatNames hname hkey
  | nowhere => cases h

theorem utterance_of_file (hf : FiledAs s.account e sender f)
    (h : s.file f = some ⟨.channel c, some author, isSelf⟩) :
    ∃ jid nick msgid, f = .room jid nick msgid ∧ (s.Keyed → jid.text = c) ∧
      ∃ u ∈ (Input.message e).utterance, u.room = jid ∧ cleanName u.nick = author ∧
        u.msgid = msgid := by
  cases hf with
  | room msgid said heard =>
    obtain ⟨r, hr, heq⟩ := map_eq_some_iff.1 h
    cases hnick : e.occupant with
    | none => simp [hnick] at heq
    | some nick =>
      simp only [hnick, map_some, File.mk.injEq, Target.channel.injEq, Option.some.injEq] at heq
      rw [hnick] at heard
      refine ⟨_, _, _, rfl, fun hs => ?_, _, heard, rfl, heq.2.1, rfl⟩
      rw [← hs _ r hr]
      exact heq.1
  | copy | chat => cases h
  | nowhere => cases h

theorem saying (hindex : s.index = l.index) (hu : l.utterance = (Input.message e).utterance)
    (hf : FiledAs s.account e sender f) (h : s.Says f r) : s.Does l r := by
  have hamends {target : Target} {e₀ : Entry} {isSelf : Bool}
      (file : s.file f = some ⟨target, some e₀.author, isSelf⟩) (known : e₀ ∈ s.index)
      (conversation : e₀.conversation = target.name) (hs : s.Keyed) (c : String)
      (htarget : target = .channel c) : ∃ u ∈ l.utterance, u.room.text = c ∧ ∃ e ∈ l.index,
        e.conversation = c ∧ e.author = cleanName u.nick ∧ e.msgid = e₀.msgid := by
    subst htarget
    obtain ⟨jid, nick, msgid, -, hname, u, hmem, hroom, hauthor, -⟩ := utterance_of_file hf file
    exact ⟨u, hu ▸ hmem, hroom ▸ hname hs, e₀, hindex ▸ known, conversation, hauthor.symm, rfl⟩
  cases h with
  | nothing => exact refl
  | failed message => exact error message
  | topic jid nick msgid r text setBy filed held =>
    exact hold held (tell rfl rfl refl) rfl (.inr (.inr rfl))
  | corrected e₀ target m shown filed file known conversation =>
    refine one (.tell _) ⟨rfl, fun hs c k hk => ?_⟩
    cases target <;> cases hk
    exact hamends file known conversation hs c rfl
  | retracted e₀ target isSelf shown file known conversation =>
    refine write (.forget _) (forget _ _) rfl (one (.tell _) ⟨rfl, fun hs c k hk => ?_⟩)
    cases target <;> cases hk
    exact hamends file known conversation hs c rfl
  | shown m author entry file notice id filed =>
    refine one (.utter m entry) ⟨fun k hk => ?_, fun hs e₀ he₀ => ?_⟩
    · obtain ⟨target, sender, body, isSelf, isAction, isNotice, isCorrection, msgid, time⟩ := m
      cases target <;> cases isNotice <;> cases hk
      cases author with
      | none => cases notice
      | some author =>
        obtain ⟨jid, nick, msgid, hf, -, u, hmem, -, -, hmsgid⟩ := utterance_of_file hf file
        exact ⟨u, hu ▸ hmem, hmsgid.trans (id _ _ _ hf).symm⟩
    · obtain ⟨rfl, hconversation, hmsgid⟩ := filed e₀ he₀
      obtain ⟨target, sender, body, isSelf, isAction, isNotice, isCorrection, msgid, time⟩ := m
      obtain rfl : isNotice = false := notice
      cases target with
      | direct name => exact .inl (aside_of_file file hconversation rfl)
      | channel c =>
        obtain ⟨jid, nick, msgid, -, hname, u, hmem, hroom, hauthor, -⟩ := utterance_of_file hf file
        exact .inr ⟨u, hu ▸ hmem, hconversation.trans (hroom ▸ hname hs).symm, hauthor.symm, hmsgid⟩

theorem onMessage (hsends : l.sends) (hindex : s.index = l.index)
    (hu : l.utterance = (Input.message e).utterance) : s.Does l (s.onMessage e) := by
  cases hsender : e.sender with
  | none =>
    rw [Session.onMessage, hsender]
    exact refl
  | some sender =>
  obtain ⟨f, rooms, pending, chatCursor, hf, hnotes, htallies, hsaid⟩ :=
    heard_onMessage (s := s) hsender
  generalize s.onMessage e = r at hsaid
  have hdone : { s with pending }.Does l r := by
    refine write (.point chatCursor) trivial rfl ?_
    rcases hnotes with rfl | ⟨jid, nick, msgid, r, lastId, recent, rfl, hr, rfl⟩
    · exact saying hindex hu hf hsaid
    · exact hold (s := { s with pending, chatCursor }) hr (saying hindex hu hf hsaid) rfl
        (.inr (.inr rfl))
  rcases htallies with rfl | ⟨id, room, fetched, pages, after, start, hp, -, rfl⟩
  · exact hdone
  · exact write (.count id (.catchUp room (fetched + 1) pages after start))
      ⟨hsends, _, hp, rfl⟩ rfl hdone

end Does

/-- A message makes the session send nothing. -/
theorem send_onMessage : (s.onMessage e).2.send = [] := by
  cases hsender : e.sender with
  | none => rw [onMessage, hsender]
  | some sender =>
    obtain ⟨f, rooms, pending, chatCursor, -, -, -, hsaid⟩ := heard_onMessage (s := s) hsender
    generalize s.onMessage e = r at hsaid
    cases hsaid <;> rfl

/-- Which rooms an input may ask to be let into, and with which key. -/
def enters (rules : JidRules) (s : Session) : Input → BareJid → Option String → Prop
  | .online, jid, password => jid ∈ s.rooms ∧ password = none
  | .command (.join channel key), jid, password =>
    roomJid rules channel = some jid ∧ password = key.filter (!·.isEmpty)
  | .presence p, jid, _ => p.type = .error ∧ p.error = some .conflict ∧
    ∃ sender ∈ p.sender, sender.bare = jid
  | _, _, _ => False

/-- Only a command may talk. -/
theorem does_step (i : Input) : s.Does { sends := true, talks := i.isCommand, moves := true
                                         enters := s.enters rules i, utterance := i.utterance
                                         index := s.index } (s.step rules i) := by
  cases i with
  | online => exact .onOnline rfl fun jid hjid => ⟨hjid, rfl⟩
  | command c =>
    refine .onCommand rfl rfl c fun channel key jid hc hjid => ?_
    subst hc
    exact ⟨hjid, rfl⟩
  | message e => exact .onMessage rfl rfl rfl
  | presence p =>
    exact .onPresence rfl rfl p fun sender hsender htype herror =>
      ⟨htype, herror, sender, hsender, rfl⟩
  | result sender id fin => exact .onResult rfl sender id fin
  | failure sender id => exact .onFailure rfl sender id

end Session
end Ddirc.Xmpp
