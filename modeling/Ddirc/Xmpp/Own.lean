import Ddirc.Lib.Run
import Ddirc.Xmpp.Authors

/-! # Who we are in a room

A room says which occupant we are: the one whose presence carries the code 110. The session keeps
that nickname as it shows it, cleaned and cut, and takes for us whoever's nickname looks the same
when it is cleaned. -/

namespace Ddirc.Xmpp
open List Option

/-- Something that a room sends us. -/
inductive RoomStanza where
  | presence (resource : Option String) (p : Presence)
  /-- A message said in the room, or one of its archive. -/
  | message (resource : Option String) (e : Envelope)
  deriving DecidableEq

/-- Whether a presence is the room's word on who we are. -/
def Presence.isSelf (p : Presence) : Bool := p.type ≠ .error && p.statuses.contains .selfPresence

namespace RoomStanza

def input (room : BareJid) : RoomStanza → Input
  | .presence resource p => .presence { p with sender := some ⟨room, resource⟩ }
  | .message resource e => .message { e with sender := some ⟨room, resource⟩, type := .groupchat }

def occupant : RoomStanza → Option String
  | .presence resource _ => resource
  | .message resource e =>
    match e.archived with
    | some r => r.forwarded.message.sender.bind (·.resource)
    | none => resource

/-- The occupant that we are after a stanza, if we were `ours`. -/
def names (ours : String) : RoomStanza → String
  | .presence (some x) p => if p.isSelf then x else ours
  | _ => ours

end RoomStanza

/-- A presence that completes a rename is our own exactly if the rename is ours; any other one of
our own comes from the nick that we have. -/
def Room.expects (r : Room) (x : String) (p : Presence) : Bool :=
  match (r.renames.lookup (cleanName x)).filter fun _ => p.type ≠ .unavailable with
  | some old => p.isSelf == r.isSelf old
  | none => !p.isSelf || r.isSelf (cleanName x)

/-- The nick that we have after such a presence. -/
theorem Room.nick_of_expects {r : Room} {x : String} {p : Presence} (h : r.expects x p) :
    (if p.isSelf then cleanName x else r.nick) =
      if p.type ≠ .unavailable ∧ (r.renames.lookup (cleanName x)).any r.isSelf then cleanName x
      else r.nick := by
  unfold expects at h
  split at h
  next old hold =>
    obtain ⟨hold, htype⟩ := filter_eq_some_iff.1 hold
    rw [hold, eq_of_beq h]
    exact if_congr (and_iff_right (of_decide_eq_true htype)).symm rfl rfl
  next hnone =>
    have hno : ¬(p.type ≠ .unavailable ∧ (r.renames.lookup (cleanName x)).any r.isSelf) := by
      rintro ⟨htype, hany⟩
      cases hold : r.renames.lookup (cleanName x) with
      | none =>
        rw [hold] at hany
        cases hany
      | some old =>
        rw [filter_eq_none_iff] at hnone
        exact hnone old hold (decide_eq_true htype)
    split
    next hself =>
      rw [hself, Bool.not_true] at h
      exact eq_of_beq h
    · rfl

/-- Whether an event takes a message for ours, reports that we left, or that we have another
nick. -/
def Event.isOurs : Event → Bool
  | .message { target := .channel _, isSelf, .. } => isSelf
  | .edited (.channel _) _ _ m => m.isSelf
  | .parted _ _ isSelf _ => isSelf
  | .nickChanged _ _ _ isSelf => isSelf
  | _ => false

/-- The session, and who the room said last that we are. -/
structure Named where
  session : Session
  ours : String

namespace Named
variable (rules : JidRules) (room : BareJid)

def step (n : Named) (i : RoomStanza) : Named × List Event :=
  let (session, fx) := n.session.step rules (i.input room)
  ({ session, ours := i.names n.ours }, fx.events)

/-- The session holds the room as joined under the nick that the room gave us, cleaned. -/
def Agrees (n : Named) : Prop :=
  ∀ r ∈ n.session.rooms.lookup room, r.joined = true ∧ r.nick = cleanName n.ours

/-- A step takes for us nobody but who we are, and gives us no nick but on their word. -/
def Rightly (n : Named) (i : RoomStanza) : Prop :=
  (∀ e ∈ (n.step rules room i).2, e.isOurs = true →
    i.occupant = some (n.step rules room i).1.ours) ∧
  ∀ r ∈ n.session.rooms.lookup room, ∀ r' ∈ (n.step rules room i).1.session.rooms.lookup room,
    r'.nick ≠ r.nick → i.occupant = some (n.step rules room i).1.ours

/-- Nobody else's nickname looks like ours, and the room's word on who we are follows the renames
that it announces. -/
def isPlain (n : Named) (i : RoomStanza) : Bool :=
  (i.occupant.all fun x => x == i.names n.ours || cleanName x ≠ cleanName (i.names n.ours)) &&
    match i with
    | .presence (some x) p => (n.session.rooms.lookup room).all (·.expects x p)
    | _ => true

end Named

/-! ## Presences -/

namespace Session
variable {rules : JidRules} {s : Session} {room : BareJid} {r : Room} {p : Presence} {x : String}
  {isSelf : Bool}

theorem onRenameAway_events : (s.onRenameAway room r x p).2.events = [] := by
  unfold onRenameAway
  split <;> rfl

theorem onRenameAway_room (h : s.rooms.lookup room = some r) :
    ∃ r', (s.onRenameAway room r x p).1.rooms.lookup room = some r' ∧ r'.joined = r.joined ∧
      r'.nick = r.nick := by
  unfold onRenameAway
  split
  · exact ⟨r, h, rfl, rfl⟩
  · exact ⟨_, AList.lookup_insert s.rooms, rfl, rfl⟩

theorem onDeparture_events (he : e ∈ (s.onDeparture room r x isSelf p).2.events)
    (hours : e.isOurs) : isSelf := by
  unfold onDeparture at he
  cases isSelf with
  | true => rfl
  | false =>
    rw [if_neg Bool.false_ne_true, mem_cons, mem_singleton] at he
    rcases he with rfl | rfl
    · cases hours
    · cases hours

theorem onDeparture_room : (s.onDeparture room r x isSelf p).1.rooms.lookup room =
    if isSelf then none else some { r with occupants := r.occupants.erase (cleanName x) } := by
  unfold onDeparture
  split
  · exact AList.lookup_erase _ _
  · exact AList.lookup_insert s.rooms

/-- Of those who are there, a room that is joined takes on nobody's nick but that of whoever had
ours. -/
theorem onArrival_own (hjoined : r.joined) :
    (∀ e ∈ (s.onArrival room r nick isSelf p).2.events, e.isOurs → isSelf) ∧
    ∃ r', (s.onArrival room r nick isSelf p).1.rooms.lookup room = some r' ∧ r'.joined ∧
      r'.nick = if (r.renames.lookup nick).any r.isSelf then nick else r.nick := by
  cases hold : r.renames.lookup nick with
  | some old =>
    rw [onArrival_renamed hold]
    refine ⟨fun e he hours => ?_, _, AList.lookup_insert s.rooms, ?_⟩
    · rw [mem_cons, mem_singleton] at he
      rcases he with rfl | rfl
      · exact hours
      · cases hours
    · rw [any_some]
      split <;> exact ⟨hjoined, rfl⟩
  | none =>
    rw [onArrival_news hold hjoined]
    refine ⟨fun e he hours => ?_, _, AList.lookup_insert s.rooms, hjoined, rfl⟩
    split at he
    · rw [mem_cons, mem_singleton] at he
      rcases he with rfl | rfl <;> cases hours
    · split at he
      · obtain rfl := mem_singleton.1 he
        cases hours
      · cases he

/-- A presence as the room expects it takes for us only whom the room names or whose nick looks like
ours, and gives us the nick that the room names. -/
theorem step_presence_own (h : s.rooms.lookup room = some r) (hjoined : r.joined)
    (hsender : p.sender = some ⟨room, some x⟩) (herror : p.type ≠ .error)
    (hexpects : r.expects x p) :
    (∀ e ∈ (s.step rules (.presence p)).2.events, e.isOurs →
      p.isSelf ∨ cleanName x = r.nick) ∧
    ∀ r' ∈ (s.step rules (.presence p)).1.rooms.lookup room,
      r'.joined ∧ r'.nick = if p.isSelf then cleanName x else r.nick := by
  have hself : p.isSelf = p.statuses.contains .selfPresence := by
    rw [Presence.isSelf, decide_eq_true herror, Bool.true_and]
  have hours (h : (p.statuses.contains .selfPresence || r.isSelf (cleanName x))) :
      p.isSelf ∨ cleanName x = r.nick := by
    rw [hself, ← beq_iff_eq (a := cleanName x), ← Bool.or_eq_true]
    exact h
  rw [step_presence_of_held h hsender herror, Room.nick_of_expects hexpects]
  split
  next htype =>
    split
    · refine ⟨fun e he => ?_, fun r' hr' => ?_⟩
      · rw [onRenameAway_events] at he
        cases he
      · obtain ⟨r₁, hr₁, hjoined₁, hnick₁⟩ := onRenameAway_room h
        obtain rfl := some.inj (hr₁.symm.trans hr')
        exact ⟨hjoined₁.trans hjoined, hnick₁.trans (if_neg fun h => h.1 htype).symm⟩
    · refine ⟨fun e he hown => hours (onDeparture_events he hown), fun r' hr' => ?_⟩
      rw [onDeparture_room] at hr'
      split at hr'
      · cases hr'
      · obtain rfl := some.inj hr'
        exact ⟨hjoined, (if_neg fun h => h.1 htype).symm⟩
  next htype =>
    obtain ⟨hevents, r₁, hr₁, hjoined₁, hnick₁⟩ := onArrival_own hjoined
    refine ⟨fun e he hown => hours (hevents e he hown), fun r' hr' => ?_⟩
    obtain rfl := some.inj (hr₁.symm.trans hr')
    exact ⟨hjoined₁, hnick₁.trans (if_congr (and_iff_right htype).symm rfl rfl)⟩

end Session

/-! ## Messages -/

namespace Session
variable {s : Session} {room : BareJid} {r : Room}

/-- A message is taken for ours if it is from the nick that we have. -/
theorem onMessage_own (hsender : e.sender = some ⟨room, resource⟩) :
    (∀ r' ∈ (s.onMessage e).1.rooms.lookup room,
      ∃ r ∈ s.rooms.lookup room, r'.joined = r.joined ∧ r'.nick = r.nick) ∧
    ∀ ev ∈ (s.onMessage e).2.events, ev.isOurs = true →
      ∃ x r, e.occupant = some x ∧ s.rooms.lookup room = some r ∧ cleanName x = r.nick := by
  obtain ⟨f, rooms, pending, chatCursor, hf, hnotes, -, hsaid⟩ := heard_onMessage (s := s) hsender
  -- with an id noted in it, the room is otherwise as it was
  have hsame : ∀ r' ∈ rooms.lookup room,
      ∃ r ∈ s.rooms.lookup room, r'.joined = r.joined ∧ r'.nick = r.nick := by
    rcases hnotes with rfl | ⟨jid, nick, msgid, r, lastId, recent, rfl, hr, rfl⟩
    · exact fun r hr => ⟨r, hr, rfl, rfl⟩
    · cases hf
      intro r' hr'
      obtain rfl := some.inj ((AList.lookup_insert s.rooms).symm.trans hr')
      exact ⟨r, hr, rfl, rfl⟩
  have hown {c author isSelf} (hours : isSelf = true)
      (hfile : { s with rooms, pending, chatCursor }.file f = some ⟨.channel c, author, isSelf⟩) :
      ∃ x r, e.occupant = some x ∧ s.rooms.lookup room = some r ∧ cleanName x = r.nick := by
    cases hf with
    | room =>
      obtain ⟨r', hr', heq⟩ := map_eq_some_iff.1 hfile
      obtain ⟨r, hr, -, hnick⟩ := hsame r' hr'
      have hself := (congrArg File.isSelf heq).trans hours
      obtain ⟨y, hy, hself⟩ := (any_eq_true _ _).1 hself
      obtain ⟨x, hx, rfl⟩ := map_eq_some_iff.1 hy
      exact ⟨x, r, hx, hr, (eq_of_beq hself).trans hnick⟩
    | copy | chat => cases hfile
    | nowhere => cases hfile
  generalize s.onMessage e = t at hsaid
  cases hsaid with
  | nothing => exact ⟨hsame, fun _ h => absurd h not_mem_nil⟩
  | failed message =>
    refine ⟨hsame, fun ev hev hours => ?_⟩
    obtain rfl := mem_singleton.1 hev
    cases hours
  | topic jid nick msgid r text setBy filed held =>
    subst filed
    cases hf
    refine ⟨fun r' hr' => ?_, fun ev hev hours => ?_⟩
    · obtain rfl := some.inj ((AList.lookup_insert rooms).symm.trans hr')
      exact hsame r held
    · obtain rfl := mem_singleton.1 hev
      cases hours
  | corrected e₀ target m shown filed file known conversation =>
    refine ⟨hsame, fun ev hev hours => ?_⟩
    obtain rfl := mem_singleton.1 hev
    cases target with
    | channel c => exact hown hours file
    | direct => cases hours
  | retracted =>
    refine ⟨hsame, fun ev hev hours => ?_⟩
    obtain rfl := mem_singleton.1 hev
    cases hours
  | shown m author entry file notice id filed =>
    refine ⟨hsame, fun ev hev hours => ?_⟩
    obtain rfl := mem_singleton.1 hev
    obtain ⟨target, sender, body, isSelf, isAction, isNotice, isCorrection, msgid, time⟩ := m
    cases target with
    | channel c => exact hown hours file
    | direct => cases hours

end Session

/-! ## Steps and runs -/

namespace Named
variable {rules : JidRules} {room : BareJid} {n : Named} {i : RoomStanza}
variable {resource : Option String}

/-- Whoever's nickname looks like that of `n` is `n`. -/
theorem isPlain_occupant (hplain : n.isPlain room i) (hx : i.occupant = some x)
    (hlooks : cleanName x = cleanName (i.names n.ours)) : x = i.names n.ours := by
  unfold isPlain at hplain
  rw [Bool.and_eq_true, hx, all_some, Bool.or_eq_true, beq_iff_eq,
    decide_eq_true_eq] at hplain
  exact hplain.1.resolve_right (absurd hlooks)

theorem Agrees.message (h : n.Agrees room) (hplain : n.isPlain room (.message resource e)) :
    (n.step rules room (.message resource e)).1.Agrees room ∧
      ∀ ev ∈ (n.step rules room (.message resource e)).2, ev.isOurs →
        (RoomStanza.message resource e).occupant = some n.ours := by
  have hown : (∀ r' ∈ (n.step rules room (.message resource e)).1.session.rooms.lookup room,
      ∃ r ∈ n.session.rooms.lookup room, r'.joined = r.joined ∧ r'.nick = r.nick) ∧
      ∀ ev ∈ (n.step rules room (.message resource e)).2, ev.isOurs →
        ∃ x r, (RoomStanza.message resource e).occupant = some x ∧
          n.session.rooms.lookup room = some r ∧ cleanName x = r.nick := by
    have hoccupant : (RoomStanza.message resource e).occupant = Envelope.occupant
        { e with sender := some ⟨room, resource⟩, type := .groupchat } := by
      unfold RoomStanza.occupant
      dsimp only
      cases e.archived <;> rfl
    exact Session.onMessage_own (e := { e with sender := _, type := .groupchat }) rfl
  refine ⟨fun r' hr' => ?_, fun ev hev hours => ?_⟩
  · obtain ⟨r, hr, hjoined, hnick⟩ := hown.1 r' hr'
    rw [hjoined, hnick]
    exact h r hr
  · obtain ⟨x, r, hx, hr, hnick⟩ := hown.2 ev hev hours
    rw [hx]
    exact congrArg some (isPlain_occupant hplain hx (hnick.trans (h r hr).2))

theorem Agrees.presence (h : n.Agrees room)
    (hplain : n.isPlain room (.presence resource p)) :
    (n.step rules room (.presence resource p)).1.Agrees room ∧
      ∀ e ∈ (n.step rules room (.presence resource p)).2, e.isOurs →
        resource = some ((RoomStanza.presence resource p).names n.ours) := by
  -- the presence as it comes to the session
  set p' : Presence := { p with sender := some ⟨room, resource⟩ } with hp'
  change (∀ r ∈ (n.session.step rules (.presence p')).1.rooms.lookup room, r.joined ∧
      r.nick = cleanName ((RoomStanza.presence resource p).names n.ours)) ∧
    ∀ e ∈ (n.session.step rules (.presence p')).2.events, e.isOurs →
      resource = some ((RoomStanza.presence resource p).names n.ours)
  cases hheld : n.session.rooms.lookup room with
  | none =>
    rw [Session.step_presence_of_not_held (p := p') rfl hheld]
    refine ⟨fun r hr => ?_, fun _ h => absurd h not_mem_nil⟩
    rw [hheld] at hr
    cases hr
  | some r =>
  obtain ⟨hjoined, hnick⟩ := h r hheld
  cases resource with
  | none =>
    rw [Session.step_presence_of_nobody (p := p') hheld hjoined rfl (.inr rfl)]
    exact ⟨h, fun _ h => absurd h not_mem_nil⟩
  | some x =>
  by_cases herror : p.type = .error
  · have hself : p.isSelf = false := by
      rw [Presence.isSelf, herror]
      rfl
    rw [Session.step_presence_of_nobody (p := p') hheld hjoined rfl (.inl herror), RoomStanza.names,
      hself]
    exact ⟨h, fun _ h => absurd h not_mem_nil⟩
  · have hexpects : r.expects x p' := by
      have hroom := (Bool.and_eq_true_iff.1 hplain).2
      rwa [hheld] at hroom
    obtain ⟨hevents, hroom⟩ :
        (∀ e ∈ (n.session.step rules (.presence p')).2.events, e.isOurs → _) ∧ _ :=
      Session.step_presence_own hheld hjoined rfl herror hexpects
    refine ⟨fun r' hr' => ?_, fun e he hours => ?_⟩
    · obtain ⟨hjoined', hnick'⟩ := hroom r' hr'
      refine ⟨hjoined', hnick'.trans ?_⟩
      rw [RoomStanza.names, hnick, apply_ite cleanName]
      rfl
    · have hlooks : cleanName x = cleanName ((RoomStanza.presence (some x) p).names n.ours) := by
        rw [RoomStanza.names]
        split
        · rfl
        next hself => exact ((hevents e he hours).resolve_left hself).trans hnick
      exact congrArg some (isPlain_occupant hplain rfl hlooks)

/-- Only the room's word makes us somebody else. -/
theorem occupant_of_names_ne (h : i.names n.ours ≠ n.ours) :
    i.occupant = some (i.names n.ours) := by
  unfold RoomStanza.names at h ⊢
  split at h
  · split at h
    next hself =>
      rw [if_pos hself]
      rfl
    · exact absurd rfl h
  · exact absurd rfl h

theorem Agrees.step (h : n.Agrees room) (hplain : n.isPlain room i) :
    (n.step rules room i).1.Agrees room ∧ n.Rightly rules room i := by
  have hstep : (n.step rules room i).1.Agrees room ∧
      ∀ e ∈ (n.step rules room i).2, e.isOurs → i.occupant = some (i.names n.ours) := by
    cases i with
    | presence resource p => exact h.presence hplain
    | message resource e => exact h.message hplain
  refine ⟨hstep.1, hstep.2, fun r hr r' hr' hnick => occupant_of_names_ne fun hsame => hnick ?_⟩
  rw [(hstep.1 r' hr').2, (h r hr).2]
  exact congrArg cleanName hsame

/-- In a room where nobody looks like us and the room's word on who we are follows the renames that
it announces, nobody else is taken for us. -/
theorem own_rightly {start : Named} (hstart : start.Agrees room) {stanzas : List RoomStanza}
    (h : Run.Along (step rules room) (fun n i => n.isPlain room i = true) start stanzas) :
    (∀ front i rest, stanzas = front ++ i :: rest →
      Rightly rules room (Run.after (step rules room) start front) i) ∧
    (Run.after (step rules room) start stanzas).Agrees room := by
  have hkeep (n : Named) (i : RoomStanza) (hn : n.Agrees room) (hi : n.isPlain room i = true) :
      (n.step rules room i).1.Agrees room := (hn.step hi).1
  refine ⟨?_, h.induction hstart hkeep⟩
  rintro front i rest rfl
  obtain ⟨hn, hi⟩ := h.before hstart hkeep
  exact (hn.step hi).2

open BareJid (den)

/-- We are in the room under a nick. -/
def inDen (ours : String) : Named where
  session := Run.after (Session.step .verbatim) (.new .alice ours "ddirc" [den])
    [.online, .presence { sender := some ⟨den, some ours⟩, statuses := [.selfPresence] }]
  ours

def saidBy (nick : String) : RoomStanza :=
  .message (some nick) { type := .groupchat, body := some "hi" }

/-- Bob speaks and we do, and then we take another nick and speak again. -/
def renamed : List RoomStanza :=
  [saidBy "bob", saidBy "alice",
    .presence (some "alice") { type := .unavailable, statuses := [.selfPresence, .newNick]
                               item := some { nick := some "eve" } },
    .presence (some "eve") { statuses := [.selfPresence] }, saidBy "eve", saidBy "alice"]

theorem own_rightly_renamed :
    let n := inDen "alice"
    n.Agrees den ∧ Run.Along (step .verbatim den) (fun n i => n.isPlain den i = true) n renamed ∧
    (Run.after (step .verbatim den) n renamed).ours = "eve" ∧
    (Run.after (step .verbatim den) n renamed).Agrees den := by
  intro n
  have hstart : n.Agrees den := by
    intro r hr
    have hheld : (n.session.rooms.lookup den).map (fun r => (r.joined, r.nick)) =
        some (true, cleanName n.ours) := by
      decide +kernel
    rw [hr] at hheld
    exact Prod.mk.inj (some.inj hheld)
  have halong : Run.Along (step .verbatim den) (fun n i => n.isPlain den i = true) n renamed := by
    decide +kernel
  exact ⟨hstart, halong, by decide +kernel, (own_rightly hstart halong).2⟩

/-- Our nick is as long as is shown, and somebody else's goes on: what they say is taken for ours,
and when they leave it is we who have left. -/
theorem taken_for_us :
    let ours := String.ofList (List.replicate maxNick 'a')
    let other := ours ++ "b"
    let n := inDen ours
    (n.step .verbatim den (saidBy other)).2.any (·.isOurs) = true ∧
    (n.step .verbatim den (saidBy other)).1.ours ≠ other ∧
    let gone := n.step .verbatim den (.presence (some other) { type := .unavailable })
    gone.2 = [.parted "den@muc.example.org" ours true none] ∧ gone.1.ours ≠ other ∧
      (gone.1.session.rooms.lookup den).isNone = true := by
  decide +kernel

end Named

end Ddirc.Xmpp
