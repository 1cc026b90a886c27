import Ddirc.Xmpp.Session

/-! # What a room's presence does

The presences of a room, taken apart: what each kind does to the room that is held, to the index of
messages, and what it reports. -/

namespace Ddirc.Xmpp

def Presence.occupant (p : Presence) (nick : String) : Occupant where
  nick
  affiliation := (p.item.map (·.affiliation)).getD .none
  role := (p.item.map (·.role)).getD .none
  away := match p.availability with
    | some .away | some .xa | some .dnd => true
    | _ => false

namespace Room

/-- The room with an occupant in it who was shown by a presence. -/
def welcome (r : Room) (nick : String) (p : Presence) : Room :=
  { r with renames := r.renames.erase nick, occupants := r.occupants.insert nick (p.occupant nick) }

variable {r : Room} {nick : String} {p : Presence}

end Room

namespace Session
variable {rules : JidRules} {s : Session} {jid : BareJid} {r : Room} {p : Presence}
  {nick raw old : String} {isSelf : Bool}
variable {resource : Option String}

/-! ## Arrivals -/

theorem onArrival_renamed (h : r.renames.lookup nick = some old) :
    s.onArrival jid r nick isSelf p =
      ({ s with
          rooms := s.rooms.insert jid
            (if r.isSelf old then { r.welcome nick p with nick } else r.welcome nick p)
          index := s.index.renameAuthor r.name old nick },
        { events := [.nickChanged r.name old nick isSelf,
            .memberChanged r.name old (some (p.occupant nick))] }) := by
  unfold onArrival
  rw [h]
  rfl

theorem onArrival_listed (h : r.renames.lookup nick = none) (hjoined : r.joined = false) :
    s.onArrival jid r nick false p =
      ({ s with rooms := s.rooms.insert jid (r.welcome nick p) }, {}) := by
  unfold onArrival
  dsimp only
  rw [h]
  rw [if_pos (by rw [hjoined]; rfl)]
  rfl

theorem onArrival_joins (h : r.renames.lookup nick = none) (hjoined : r.joined = false) :
    s.onArrival jid r nick true p =
      (let r := { r.welcome nick p with joined := true, nick }
      let s := { s with rooms := s.rooms.insert jid r }
      let here : Effects := { events := [.joined r.name nick true, .memberList r.name r.members] }
      match r.lastId with
      | some after =>
        let (s, asked) := s.sendCatchUp (some jid) (.after after) 0 0
        (s, here ++ asked)
      | none => (s, here)) := by
  unfold onArrival
  rw [h]
  dsimp only
  rw [if_pos (by rw [hjoined]; rfl)]
  rfl

theorem onArrival_news (h : r.renames.lookup nick = none) (hjoined : r.joined) :
    s.onArrival jid r nick isSelf p = ({ s with rooms := s.rooms.insert jid (r.welcome nick p) },
      { events := match r.occupant nick with
          | none =>
            [.joined r.name nick isSelf, .memberChanged r.name nick (some (p.occupant nick))]
          | some previous =>
            if previous ≠ p.occupant nick then [.memberChanged r.name nick (some (p.occupant nick))]
            else [] }) := by
  unfold onArrival
  dsimp only
  rw [h]
  rw [if_neg (by rw [hjoined]; exact Bool.false_ne_true)]
  cases r.occupant nick with
  | none => rfl
  | some previous =>
    change (if previous ≠ p.occupant nick then _ else _) = _
    dsimp only
    split_ifs <;> rfl

/-! ## Renames -/

theorem onRenameAway_of_some {new : String} (h : p.item.bind (·.nick) = some new) :
    s.onRenameAway jid r raw p =
      ({ s with
          rooms := s.rooms.insert jid { r with
            occupants := r.occupants.erase (cleanName raw)
            renames := r.renames.insert (cleanName new) (cleanName raw) }
          index := s.index.forgetConversation (r.name ++ "/" ++ raw) }, {}) := by
  unfold onRenameAway
  rw [h]
  rfl

theorem onRenameAway_of_none (h : p.item.bind (·.nick) = none) :
    s.onRenameAway jid r raw p = (s, {}) := by
  unfold onRenameAway
  rw [h]
  rfl

/-! ## Presences of a room -/

theorem step_presence_of_not_held (hsender : p.sender = some sender)
    (h : s.rooms.lookup sender.bare = none) : s.step rules (.presence p) = (s, {}) := by
  rw [step, onPresence, hsender]
  dsimp only
  rw [h, Option.isSome_none, if_neg Bool.false_ne_true]

/-- What is wrong with a room that is joined, or comes from no occupant, does nothing. -/
theorem step_presence_of_nobody (h : s.rooms.lookup jid = some r)
    (hjoined : r.joined) (hsender : p.sender = some ⟨jid, resource⟩)
    (hnobody : p.type = .error ∨ resource = none) : s.step rules (.presence p) = (s, {}) := by
  rw [step, onPresence, hsender]
  dsimp only
  rw [h, Option.isSome_some, if_pos rfl]
  unfold onRoomPresence
  split
  · unfold onRoomError
    simp only [h, hjoined, if_true]
  next herror =>
    rw [hnobody.resolve_left herror]

theorem step_presence_of_error (h : s.rooms.lookup jid = some r)
    (hsender : p.sender = some ⟨jid, resource⟩) (herror : p.type = .error) :
    s.step rules (.presence p) = s.onRoomError rules jid p := by
  rw [step, onPresence, hsender]
  dsimp only
  rw [h, Option.isSome_some, if_pos rfl]
  unfold onRoomPresence
  rw [if_pos herror]

theorem step_presence_of_room (h : s.rooms.lookup jid = some r)
    (hsender : p.sender = some ⟨jid, none⟩)
    (herror : p.type ≠ .error) : s.step rules (.presence p) = (s, {}) := by
  rw [step, onPresence, hsender]
  dsimp only
  rw [h, Option.isSome_some, if_pos rfl]
  unfold onRoomPresence
  rw [if_neg herror]

/-- The session hands on a presence of an occupant of a room that it holds. -/
theorem step_presence_of_held (h : s.rooms.lookup jid = some r)
    (hsender : p.sender = some ⟨jid, some raw⟩) (herror : p.type ≠ .error) :
    s.step rules (.presence p) =
      (let isSelf := p.statuses.contains .selfPresence || r.isSelf (cleanName raw)
      if p.type = .unavailable then
        if p.statuses.contains .newNick then s.onRenameAway jid r raw p
        else s.onDeparture jid r raw isSelf p
      else s.onArrival jid r (cleanName raw) isSelf p) := by
  rw [step, onPresence, hsender]
  dsimp only
  rw [h, Option.isSome_some, if_pos rfl]
  unfold onRoomPresence
  rw [if_neg herror]
  simp only [h]

end Session
end Ddirc.Xmpp
