import Ddirc.Lib.Run
import Ddirc.Xmpp.Presence

/-! # Leaving a room and coming back

The session, one room, and what is on its way between them, both ways in order. The session keeps no
account of what it has not been answered. A room that is joined again before it has confirmed the
leave is lost to the late confirmation, and one that is left before it has confirmed the join is
never told. -/

namespace Ddirc.Xmpp
open List

/-- What a presence of ours asks of the room. -/
inductive Wish where
  | join
  | leave
  deriving Repr, DecidableEq

def Outgoing.wish (room : BareJid) : Outgoing → Option Wish
  | .join occupant _ => if occupant.bare = room then some .join else none
  | .unavailable occupant => if occupant.bare = room then some .leave else none
  | _ => none

/-- What the room tells of an occupant besides whether they are there. -/
structure Sighting where
  nick : String
  availability : Option Availability := none
  item : Option MucItem := none
  codes : List Status := []
  /-- It is no part of a rename. -/
  settled : .newNick ∉ codes := by decide
  deriving DecidableEq

def Sighting.presence (x : Sighting) (room : BareJid) (type : PresenceType) (own : List Status) :
    Presence :=
  { sender := some ⟨room, some x.nick⟩, type, availability := x.availability, item := x.item
    statuses := own ++ x.codes }

/-- What the room has to say when it processes a presence: who is there, and what it tells of us. -/
structure Answer where
  others : List Sighting := []
  own : Sighting

/-- A leave is confirmed; a join is answered with everyone who is there, and us at the end. -/
def Answer.replies (answer : Answer) (room : BareJid) : Wish → List Presence
  | .leave => [answer.own.presence room .unavailable [.selfPresence]]
  | .join => answer.others.map (·.presence room .available []) ++
    [answer.own.presence room .available [.selfPresence]]

structure Doorway where
  session : Session
  /-- What the room has yet to process, the oldest first. -/
  sent : List Wish := []
  /-- What the session has yet to handle, the oldest first. -/
  replies : List Presence := []
  /-- What the room processed last. -/
  last : Option Wish := none

inductive DoorInput where
  | join (key : Option String)
  | part
  /-- The room processes the oldest presence of ours. -/
  | process (answer : Answer)
  /-- The session handles the oldest reply. -/
  | handle

namespace Doorway
variable (rules : JidRules) (channel : String) (room : BareJid)

def put (d : Doorway) (r : Session × Effects) : Doorway × Effects :=
  ({ d with session := r.1, sent := d.sent ++ r.2.send.filterMap (·.wish room) }, r.2)

def processed (d : Doorway) (answer : Answer) (wish : Wish) (sent : List Wish) :
    Doorway :=
  { d with sent, replies := d.replies ++ answer.replies room wish, last := some wish }

/-- A step; `channel` is how the user writes the room's address. -/
def step (d : Doorway) : DoorInput → Doorway × Effects
  | .join key => d.put room (d.session.step rules (.command (.join channel key)))
  | .part => d.put room (d.session.step rules (.command (.part channel)))
  | .process answer =>
    match d.sent with
    | [] => (d, {})
    | wish :: sent => (d.processed room answer wish sent, {})
  | .handle =>
    match d.replies with
    | [] => (d, {})
    | p :: replies => { d with replies }.put room (d.session.step rules (.presence p))

def held (d : Doorway) : Option Room := d.session.rooms.lookup room

def isJoined (d : Doorway) : Bool := (d.held room).any (·.joined)

/-- A room is joined with no leave unconfirmed, and left when the join is confirmed and under a nick
that can be written. -/
def isPatient (d : Doorway) : DoorInput → Bool
  | .join _ => .leave ∉ d.sent && d.replies.all (·.type ≠ .unavailable)
  | .part => (d.held room).all fun r => r.joined && (rules.withResource room r.nick).isSome
  | _ => true

end Doorway

/-! ## What the session does -/

namespace Session
variable {rules : JidRules} {s : Session} {room : BareJid} {r : Room} {channel : String}
  {p : Presence} {nick : String}

/-- An occupant is there; if it is us, the room is joined. -/
theorem lookup_onArrival (h : r.renames = ∅) :
    (s.onArrival room r nick isSelf p).1.defaultNick = s.defaultNick ∧
    (s.onArrival room r nick isSelf p).2.send.filterMap (·.wish room) = [] ∧
    ∃ r', (s.onArrival room r nick isSelf p).1.rooms.lookup room = some r' ∧
      r'.joined = (r.joined || isSelf) ∧ r'.leaving = r.leaving ∧ r'.renames = ∅ := by
  have hnone : r.renames.lookup nick = none := by
    rw [h]
    rfl
  have hrenames : r.renames.erase nick = ∅ := by
    rw [h]
    rfl
  cases hjoined : r.joined with
  | true =>
    rw [onArrival_news hnone hjoined]
    exact ⟨rfl, rfl, _, AList.lookup_insert s.rooms, hjoined, rfl, hrenames⟩
  | false =>
    cases isSelf with
    | false =>
      rw [onArrival_listed hnone hjoined]
      exact ⟨rfl, rfl, _, AList.lookup_insert s.rooms, hjoined, rfl, hrenames⟩
    | true =>
      rw [onArrival_joins hnone hjoined]
      dsimp only
      cases (r.welcome nick p).lastId with
      | none | some after => exact ⟨rfl, rfl, _, AList.lookup_insert s.rooms, rfl, rfl, hrenames⟩

end Session

/-- A presence that a room sends in answer to one of ours. -/
structure Presence.Answers (p : Presence) (room : BareJid) (nick : String) : Prop where
  sender : p.sender = some ⟨room, some nick⟩
  settled : .newNick ∉ p.statuses
  type : p.type = .available ∨ p.type = .unavailable ∧ .selfPresence ∈ p.statuses

namespace Session
variable {rules : JidRules} {s : Session} {room : BareJid} {r : Room} {channel : String}
  {p : Presence} {nick : String}

theorem step_presence_of_some (hp : p.Answers room nick) (h : s.rooms.lookup room = some r)
    (hr : r.renames = ∅) :
    (s.step rules (.presence p)).1.defaultNick = s.defaultNick ∧
    (s.step rules (.presence p)).2.send.filterMap (·.wish room) = [] ∧
    if p.type = .unavailable then (s.step rules (.presence p)).1.rooms.lookup room = none
    else ∃ r', (s.step rules (.presence p)).1.rooms.lookup room = some r' ∧
      r'.joined = (r.joined || (p.statuses.contains .selfPresence || r.isSelf (cleanName nick))) ∧
      r'.leaving = r.leaving ∧ r'.renames = ∅ := by
  have herror : p.type ≠ .error := by
    rcases hp.type with htype | ⟨htype, -⟩ <;> rw [htype] <;> exact PresenceType.noConfusion
  rw [step_presence_of_held h hp.sender herror]
  rcases hp.type with htype | ⟨htype, hself⟩
  · rw [htype, if_neg PresenceType.noConfusion]
    exact lookup_onArrival hr
  · rw [htype, if_pos rfl, if_neg (by simpa using hp.settled),
      contains_iff_mem.2 hself, Bool.true_or, onDeparture]
    exact ⟨rfl, rfl, AList.lookup_erase _ _⟩

/-- A join makes a room of its own, unless one is held as joined and not being left. -/
theorem step_join (hchannel : roomJid rules channel = some room) (key : Option String) :
    let after := s.step rules (.command (.join channel key))
    if (s.rooms.lookup room).any fun r => r.joined && !r.leaving then after = (s, {})
    else after.1.defaultNick = s.defaultNick ∧
      if (rules.withResource room s.defaultNick).isSome then
        after.1.rooms.lookup room = some (.new room s.defaultNick) ∧
          after.2.send.filterMap (·.wish room) = [.join]
      else after.1.rooms.lookup room = none ∧ after.2.send.filterMap (·.wish room) = [] := by
  dsimp only
  rw [step, onCommand, join, hchannel]
  dsimp only
  split
  · rfl
  next hheld =>
  have hnew : (s.rooms.insert room (Room.new room s.defaultNick)).lookup room =
      some (.new room s.defaultNick) := AList.lookup_insert s.rooms
  unfold sendJoin
  simp only [hnew, show (Room.new room s.defaultNick).nick = s.defaultNick from rfl]
  cases hoccupant : rules.withResource room s.defaultNick with
  | none => exact ⟨rfl, AList.lookup_erase _ _, rfl⟩
  | some occupant =>
    obtain ⟨resource, -, rfl⟩ := Option.map_eq_some_iff.1 hoccupant
    refine ⟨rfl, hnew, ?_⟩
    simp [Outgoing.wish]

theorem step_part_of_none (hchannel : roomJid rules channel = some room)
    (h : s.rooms.lookup room = none) : s.step rules (.command (.part channel)) = (s, {}) := by
  rw [step, onCommand, part, hchannel]
  simp only [h]

theorem step_part_of_joined (hchannel : roomJid rules channel = some room)
    (h : s.rooms.lookup room = some r) (hjoined : r.joined)
    (hnick : (rules.withResource room r.nick).isSome) :
    let after := s.step rules (.command (.part channel))
    after.1.defaultNick = s.defaultNick ∧
      after.1.rooms.lookup room = some { r with leaving := true } ∧
      after.2.send.filterMap (·.wish room) = [.leave] := by
  dsimp only
  rw [step, onCommand, part, hchannel]
  simp only [h, hjoined, Bool.not_true, Bool.false_eq_true, if_false]
  obtain ⟨occupant, hoccupant⟩ := Option.isSome_iff_exists.1 hnick
  obtain ⟨resource, -, rfl⟩ := Option.map_eq_some_iff.1 hoccupant
  refine ⟨trivial, AList.lookup_insert s.rooms, ?_⟩
  rw [hoccupant]
  simp [Outgoing.wish]

end Session

/-! ## What is on its way -/

def Presence.answered (p : Presence) : Wish := if p.type = .unavailable then .leave else .join

theorem Presence.answered_eq_leave_iff {p : Presence} :
    p.answered = .leave ↔ p.type = .unavailable := by
  unfold answered
  split <;> simp_all

namespace Answer
variable {answer : Answer} {room : BareJid} {wish : Wish}

theorem mem_replies (h : p ∈ answer.replies room wish) :
    p.answered = wish ∧ ∃ nick, p.Answers room nick := by
  cases wish with
  | leave =>
    obtain rfl := mem_singleton.1 h
    refine ⟨rfl, _, rfl, ?_, .inr ⟨rfl, mem_cons_self⟩⟩
    simpa [Sighting.presence] using answer.own.settled
  | join =>
    rcases mem_append.1 h with h | h
    · obtain ⟨x, -, rfl⟩ := mem_map.1 h
      exact ⟨rfl, _, rfl, by simpa [Sighting.presence] using x.settled, .inl rfl⟩
    · obtain rfl := mem_singleton.1 h
      exact ⟨rfl, _, rfl, by simpa [Sighting.presence] using answer.own.settled, .inl rfl⟩

theorem own_mem_replies : ∃ p ∈ answer.replies room wish, .selfPresence ∈ p.statuses := by
  cases wish with
  | leave => exact ⟨_, mem_singleton_self _, mem_cons_self⟩
  | join => exact ⟨_, mem_append_right _ (mem_singleton_self _), mem_cons_self⟩

theorem mem_map_replies : w ∈ (answer.replies room wish).map (·.answered) ↔ w = wish := by
  constructor
  · intro hw
    obtain ⟨p, hp, rfl⟩ := mem_map.1 hw
    exact (mem_replies hp).1
  · rintro rfl
    obtain ⟨p, hp, -⟩ : ∃ p ∈ answer.replies room w, .selfPresence ∈ p.statuses := own_mem_replies
    exact mem_map.2 ⟨p, hp, (mem_replies hp).1⟩

end Answer

namespace Doorway
variable {rules : JidRules} {channel : String} {room : BareJid} {d : Doorway}
variable {answer : Answer} {wish : Wish} {sent : List Wish} {r : Session × Effects}

/-- What is on its way, either way, the oldest first. -/
def underway (d : Doorway) : List Wish := d.replies.map (·.answered) ++ d.sent

/-- How the room is held, and what can then be on its way. -/
inductive Phase (rules : JidRules) (room : BareJid) (d : Doorway) : Option Room → Prop
  | out (hway : ∀ w ∈ d.underway, w = .leave) (hlast : d.last ≠ some .join) :
    Phase rules room d none
  /-- The room has not confirmed a join. -/
  | entering {r : Room} (hjoined : r.joined = false) (hleaving : r.leaving = false)
    (hway : ∀ w ∈ d.underway, w = .join)
    (hnick : (rules.withResource room d.session.defaultNick).isSome)
    (hlast : d.replies ≠ [] → d.last = some .join)
    (hself : d.last = some .join → ∃ p ∈ d.replies, .selfPresence ∈ p.statuses) :
    Phase rules room d (some r)
  | inside {r : Room} (hjoined : r.joined = true) (hleaving : r.leaving = false)
    (hway : ∀ w ∈ d.underway, w = .join) (hlast : d.last = some .join) : Phase rules room d (some r)
  /-- The room has not confirmed a leave. -/
  | leaving {r : Room} (hjoined : r.joined = true) (hleaving : r.leaving = true)
    (hway : d.underway.Pairwise fun w w' => w = .leave → w' = .leave) (hleave : .leave ∈ d.underway)
    (hlast : d.last = some (if .leave ∈ d.replies.map (·.answered) then .leave else .join)) :
    Phase rules room d (some r)

structure Sound (rules : JidRules) (room : BareJid) (d : Doorway) : Prop where
  phase : Phase rules room d (d.held room)
  renames : ∀ r ∈ d.held room, r.renames = ∅
  replies : ∀ p ∈ d.replies, ∃ nick, p.Answers room nick

/-- Once every reply is handled, the session and the room agree. -/
theorem Sound.isJoined_iff (h : d.Sound rules room) (hreplies : d.replies = []) :
    d.isJoined room ↔ d.last = some .join := by
  have hphase := h.phase
  unfold isJoined
  generalize d.held room = held at hphase
  cases hphase with
  | out _ hlast => simpa using hlast
  | entering hjoined _ _ _ _ hself =>
    rw [hreplies] at hself
    simpa [hjoined] using hself
  | inside hjoined _ _ hlast => simp [hjoined, hlast]
  | leaving hjoined _ _ _ hlast =>
    rw [hreplies] at hlast
    simpa [hjoined] using hlast

theorem mem_underway_processed (hsent : d.sent = wish :: sent) :
    w ∈ (d.processed room answer wish sent).underway ↔ w ∈ d.underway := by
  simp only [underway, processed, hsent, map_append, mem_append, mem_cons,
    Answer.mem_map_replies, or_assoc]

theorem pairwise_underway_processed (hsent : d.sent = wish :: sent)
    (h : d.underway.Pairwise fun w w' => w = .leave → w' = .leave) :
    (d.processed room answer wish sent).underway.Pairwise fun w w' => w = .leave → w' = .leave := by
  have hnew {w : Wish} (hw : w ∈ (answer.replies room wish).map (·.answered)) : w = wish :=
    Answer.mem_map_replies.1 hw
  rw [underway, hsent, pairwise_append, pairwise_cons] at h
  obtain ⟨hreplies, ⟨hwish, hrest⟩, hacross⟩ := h
  rw [underway, processed, map_append, append_assoc, pairwise_append,
    pairwise_append]
  refine ⟨hreplies, ⟨?_, hrest, fun w hw w' hw' => hnew hw ▸ hwish w' hw'⟩, fun w hw w' hw' => ?_⟩
  · exact pairwise_of_forall_mem_list fun w hw w' hw' h => (hnew hw').trans ((hnew hw).symm.trans h)
  · refine hacross w hw w' ?_
    rcases mem_append.1 hw' with hw' | hw'
    · exact hnew hw' ▸ mem_cons_self
    · exact mem_cons_of_mem _ hw'

theorem Sound.processed (h : d.Sound rules room)
    (hsent : d.sent = wish :: sent) : Sound rules room (d.processed room answer wish sent) := by
  have hmem : wish ∈ d.underway := by
    rw [underway, hsent]
    exact mem_append_right _ mem_cons_self
  obtain ⟨own, hown, hself⟩ : ∃ p ∈ answer.replies room wish, .selfPresence ∈ p.statuses :=
    Answer.own_mem_replies
  have hheld : (d.processed room answer wish sent).held room = d.held room := rfl
  refine ⟨?_, h.renames, fun p hp => ?_⟩
  · rw [hheld]
    have hphase := h.phase
    generalize d.held room = held at hphase
    cases hphase with
    | out hway hlast =>
      refine .out (fun w hw => hway w ((mem_underway_processed hsent).1 hw)) ?_
      obtain rfl := hway wish hmem
      exact fun h => Wish.noConfusion (Option.some.inj h)
    | entering hjoined hleaving hway hnick hlast _ =>
      obtain rfl := hway wish hmem
      exact .entering hjoined hleaving (fun w hw => hway w ((mem_underway_processed hsent).1 hw))
        hnick (fun _ => rfl) fun _ => ⟨own, mem_append_right _ hown, hself⟩
    | inside hjoined hleaving hway _ =>
      obtain rfl := hway wish hmem
      exact .inside hjoined hleaving (fun w hw => hway w ((mem_underway_processed hsent).1 hw)) rfl
    | leaving hjoined hleaving hway hleave hlast =>
      refine .leaving hjoined hleaving (pairwise_underway_processed hsent hway)
        ((mem_underway_processed hsent).2 hleave) ?_
      have hold : .leave ∈ d.replies.map (·.answered) → wish = .leave := by
        rw [underway, hsent, pairwise_append] at hway
        exact fun hmem => hway.2.2 _ hmem wish mem_cons_self rfl
      rw [Doorway.processed, map_append]
      simp only [mem_append, Answer.mem_map_replies]
      cases wish with
      | join => rw [if_neg (by simpa using hold)]
      | leave => rw [if_pos (.inr rfl)]
  · rcases mem_append.1 hp with hp | hp
    · exact h.replies p hp
    · exact (Answer.mem_replies hp).2

theorem put_of_quiet (h : r.2.send.filterMap (·.wish room) = []) :
    (d.put room r).1 = { d with session := r.1 } := by
  rw [put, h, append_nil]

theorem underway_put : (d.put room r).1.underway = d.underway ++ r.2.send.filterMap (·.wish room) :=
  (append_assoc ..).symm

theorem Sound.handled (h : d.Sound rules room) {p : Presence} {replies : List Presence}
    (hreplies : d.replies = p :: replies) :
    Sound rules room ({ d with replies }.put room (d.session.step rules (.presence p))).1 := by
  obtain ⟨nick, hp⟩ := h.replies p (by rw [hreplies]; exact mem_cons_self)
  have hrest : ∀ q ∈ replies, ∃ nick, q.Answers room nick := fun q hq =>
    h.replies q (by rw [hreplies]; exact mem_cons_of_mem _ hq)
  have hunderway : d.underway = p.answered :: (replies.map (·.answered) ++ d.sent) := by
    rw [underway, hreplies]
    rfl
  have hphase := h.phase
  unfold held at hphase
  cases hheld : d.session.rooms.lookup room with
  | none =>
    rw [Session.step_presence_of_not_held hp.sender hheld, put_of_quiet rfl]
    rw [hheld] at hphase
    cases hphase with
    | out hway hlast =>
    rw [hunderway] at hway
    refine ⟨?_, h.renames, hrest⟩
    unfold held
    rw [hheld]
    exact .out (fun w hw => hway w (mem_cons_of_mem _ hw)) hlast
  | some r =>
    obtain ⟨hdefault, hsend, hroom⟩ :
        (d.session.step rules (.presence p)).1.defaultNick = d.session.defaultNick ∧ _ ∧ _ :=
      Session.step_presence_of_some hp hheld (h.renames r hheld)
    rw [put_of_quiet hsend]
    generalize (d.session.step rules (.presence p)).1 = s at hdefault hroom
    rw [hheld] at hphase
    split at hroom
    next htype =>
      -- a leave is confirmed
      have hleave := Presence.answered_eq_leave_iff.2 htype
      rw [hleave] at hunderway
      refine ⟨?_, fun r hr => ?_, hrest⟩
      · unfold held
        rw [hroom]
        cases hphase with
        | entering _ _ hway | inside _ _ hway =>
          rw [hunderway] at hway
          exact Wish.noConfusion (hway .leave mem_cons_self)
        | leaving _ _ hway _ hlast =>
          rw [hunderway, pairwise_cons] at hway
          refine .out (fun w hw => hway.1 w hw rfl) ?_
          rw [hreplies, map_cons, hleave] at hlast
          exact fun h => Wish.noConfusion (Option.some.inj (hlast.symm.trans h))
      · cases hroom.symm.trans hr
    next htype =>
      have hjoin : p.answered = .join := if_neg htype
      rw [hjoin] at hunderway
      obtain ⟨r', hr', hjoined, hleaving, hrenames⟩ := hroom
      refine ⟨?_, fun r hr => ?_, hrest⟩
      · unfold held
        rw [hr']
        cases hphase with
        | entering hjoined₀ hleaving₀ hway hnick hlast hself =>
          rw [hunderway] at hway
          rw [hjoined₀, Bool.false_or] at hjoined
          have hjoin := hlast (by rw [hreplies]; exact cons_ne_nil _ _)
          cases hus : r'.joined with
          | true =>
            exact .inside hus (hleaving.trans hleaving₀)
              (fun w hw => hway w (mem_cons_of_mem _ hw)) hjoin
          | false =>
            rw [hus, eq_comm, Bool.or_eq_false_iff] at hjoined
            refine .entering hus (hleaving.trans hleaving₀)
              (fun w hw => hway w (mem_cons_of_mem _ hw)) (hdefault ▸ hnick) (fun _ => hjoin)
              fun _ => ?_
            -- our own presence is still to come
            obtain ⟨own, hmem, hown⟩ := hself hjoin
            rw [hreplies, mem_cons] at hmem
            rcases hmem with rfl | hmem
            · exact absurd (contains_iff_mem.2 hown) (Bool.eq_false_iff.1 hjoined.1)
            · exact ⟨own, hmem, hown⟩
        | inside hjoined₀ hleaving₀ hway hlast =>
          rw [hunderway] at hway
          rw [hjoined₀] at hjoined
          exact .inside hjoined (hleaving.trans hleaving₀)
            (fun w hw => hway w (mem_cons_of_mem _ hw)) hlast
        | leaving hjoined₀ hleaving₀ hway hleave hlast =>
          rw [hunderway, pairwise_cons] at hway
          rw [hunderway, mem_cons] at hleave
          rw [hjoined₀] at hjoined
          refine .leaving hjoined (hleaving.trans hleaving₀) hway.2
            (hleave.resolve_left Wish.noConfusion) ?_
          rw [hreplies, map_cons, hjoin] at hlast
          simpa using hlast
      · obtain rfl := Option.some.inj (hr'.symm.trans hr)
        exact hrenames

theorem Sound.join (h : d.Sound rules room) (hchannel : Session.roomJid rules channel = some room)
    {key : Option String} (hpatient : d.isPatient rules room (.join key)) :
    Sound rules room (d.put room (d.session.step rules (.command (.join channel key)))).1 := by
  have hnone : .leave ∉ d.underway := by
    rw [isPatient, Bool.and_eq_true, decide_eq_true_eq, all_eq_true] at hpatient
    rw [underway, mem_append, mem_map]
    rintro (⟨p, hp, hleave⟩ | hleave)
    · exact of_decide_eq_true (hpatient.2 p hp) (Presence.answered_eq_leave_iff.1 hleave)
    · exact hpatient.1 hleave
  have hstep := Session.step_join (s := d.session) hchannel key
  have hphase := h.phase
  unfold held at hphase
  split at hstep
  next =>
    rw [hstep, put_of_quiet rfl]
    exact h
  next hjoinable =>
  generalize d.session.step rules (.command (.join channel key)) = after at hstep
  obtain ⟨hdefault, hstep⟩ := hstep
  split at hstep
  next hnick =>
    obtain ⟨hroom, hsend⟩ := hstep
    have hway : ∀ w ∈ (d.put room after).1.underway, w = .join := by
      intro w hw
      rw [underway_put, hsend, mem_append, mem_singleton] at hw
      rcases hw with hw | hw
      · cases w with
        | join => rfl
        | leave => exact absurd hw hnone
      · exact hw
    refine ⟨?_, fun r hr => ?_, h.replies⟩
    · unfold held
      rw [show (d.put room after).1.session = after.1 from rfl, hroom]
      cases hheld : d.session.rooms.lookup room with
      | none =>
        rw [hheld] at hphase
        cases hphase with
        | out hleaves hlast =>
        have hreplies : d.replies = [] := by
          rw [eq_nil_iff_forall_not_mem]
          intro p hp
          have hmem := mem_append_left d.sent (mem_map_of_mem (f := (·.answered)) hp)
          exact hnone (hleaves _ hmem ▸ hmem)
        exact .entering rfl rfl hway (hdefault ▸ hnick) (absurd hreplies) (absurd · hlast)
      | some r =>
        rw [hheld] at hphase hjoinable
        cases hphase with
        | entering _ _ _ _ hlast hself =>
          exact .entering rfl rfl hway (hdefault ▸ hnick) hlast hself
        | inside hjoined hleaving =>
          exact absurd (by rw [Option.any_some, hjoined, hleaving]; rfl) hjoinable
        | leaving _ _ _ hleave => exact absurd hleave hnone
    · obtain rfl := Option.some.inj (hroom.symm.trans hr)
      rfl
  next hnick =>
    rw [put_of_quiet hstep.2]
    refine ⟨?_, fun r hr => ?_, h.replies⟩
    · unfold held
      rw [hstep.1]
      cases hheld : d.session.rooms.lookup room with
      | none =>
        rw [hheld] at hphase
        cases hphase with
        | out hway hlast => exact .out hway hlast
      | some r =>
        rw [hheld] at hphase hjoinable
        cases hphase with
        | entering _ _ _ hnick₀ => exact absurd hnick₀ hnick
        | inside hjoined hleaving =>
          exact absurd (by rw [Option.any_some, hjoined, hleaving]; rfl) hjoinable
        | leaving _ _ _ hleave => exact absurd hleave hnone
    · cases hstep.1.symm.trans hr

theorem Sound.part (h : d.Sound rules room) (hchannel : Session.roomJid rules channel = some room)
    (hpatient : d.isPatient rules room .part) :
    Sound rules room (d.put room (d.session.step rules (.command (.part channel)))).1 := by
  cases hheld : d.session.rooms.lookup room with
  | none =>
    rw [Session.step_part_of_none hchannel hheld, put_of_quiet rfl]
    exact h
  | some r =>
    have hphase := h.phase
    unfold held at hphase
    rw [hheld] at hphase
    rw [isPatient, held, hheld, Option.all_some, Bool.and_eq_true] at hpatient
    obtain ⟨-, hroom, hsend⟩ := Session.step_part_of_joined hchannel hheld hpatient.1 hpatient.2
    generalize d.session.step rules (.command (.part channel)) = after at hroom hsend
    have hunderway : (d.put room after).1.underway = d.underway ++ [.leave] := by
      rw [underway_put, hsend]
    have hordered (hway : d.underway.Pairwise fun w w' => w = .leave → w' = .leave) :
        (d.put room after).1.underway.Pairwise fun w w' => w = .leave → w' = .leave := by
      rw [hunderway, pairwise_append]
      exact ⟨hway, pairwise_singleton _ _, fun _ _ _ hw _ => mem_singleton.1 hw⟩
    have hleave : .leave ∈ (d.put room after).1.underway := by
      rw [hunderway]
      exact mem_append_right _ (mem_singleton_self _)
    refine ⟨?_, fun r' hr => ?_, h.replies⟩
    · unfold held
      rw [show (d.put room after).1.session = after.1 from rfl, hroom]
      cases hphase with
      | entering hjoined => exact absurd hpatient.1 (Bool.eq_false_iff.1 hjoined)
      | inside hjoined _ hway hlast =>
        refine .leaving hjoined rfl (hordered ?_) hleave ?_
        · exact pairwise_of_forall_mem_list fun w hw _ _ h =>
            Wish.noConfusion ((hway w hw).symm.trans h)
        · refine hlast.trans (congrArg some (if_neg fun hmem => ?_).symm)
          exact Wish.noConfusion (hway _ (mem_append_left _ hmem))
      | leaving hjoined _ hway _ hlast =>
        exact .leaving hjoined rfl (hordered hway) hleave hlast
    · obtain rfl := Option.some.inj (hroom.symm.trans hr)
      exact h.renames r hheld

theorem Sound.step (h : d.Sound rules room) (hchannel : Session.roomJid rules channel = some room)
    (hi : d.isPatient rules room i) : Sound rules room (d.step rules channel room i).1 := by
  cases i with
  | join key => exact h.join hchannel hi
  | part => exact h.part hchannel hi
  | process answer =>
    unfold Doorway.step
    dsimp only
    split
    · exact h
    next hsent => exact h.processed hsent
  | handle =>
    unfold Doorway.step
    dsimp only
    split
    · exact h
    next hreplies => exact h.handled hreplies

/-! ## Runs -/

/-- Whoever waits for each answer before asking for the opposite is in the room exactly if that is
what they asked for last. -/
theorem isJoined_iff_last_join (hchannel : Session.roomJid rules channel = some room)
    {session : Session} (hout : session.rooms.lookup room = none) {inputs : List DoorInput}
    (h : Run.Along (step rules channel room) (fun d i => d.isPatient rules room i = true)
      { session }
      inputs) (hreplies : (Run.after (step rules channel room) { session } inputs).replies = []) :
    (Run.after (step rules channel room) { session } inputs).isJoined room = true ↔
      (Run.after (step rules channel room) { session } inputs).last = some .join := by
  have hstart : Sound rules room { session } := by
    refine ⟨?_, fun r hr => ?_, fun _ h => absurd h not_mem_nil⟩
    · unfold held
      rw [hout]
      exact .out (fun _ h => absurd h not_mem_nil) nofun
    · cases hout.symm.trans hr
  exact (h.induction hstart fun _ _ hd hi => hd.step hchannel hi).isJoined_iff hreplies

def alice : Session := .new .alice "alice" "ddirc" []

open BareJid (den)

def withBob : Answer where
  others := [{ nick := "bob" }]
  own := { nick := "alice" }

/-- In, out and in again, each confirmed before the next. -/
def patiently : List DoorInput :=
  [.join none, .process withBob, .handle, .handle, .part, .process withBob, .handle,
    .join none, .process withBob, .handle, .handle]

theorem isJoined_iff_last_join_patiently :
    Run.Along (step .verbatim den.text den) (fun d i => d.isPatient .verbatim den i = true)
      { session := alice } patiently ∧
    ((Run.after (step .verbatim den.text den) { session := alice } patiently).isJoined den = true ↔
      (Run.after (step .verbatim den.text den) { session := alice } patiently).last = some .join) ∧
    (Run.after (step .verbatim den.text den) { session := alice } patiently).isJoined den =
      true := by
  have halong : Run.Along (step .verbatim den.text den)
      (fun d i => d.isPatient .verbatim den i = true) { session := alice } patiently := by
    decide +kernel
  exact ⟨halong, isJoined_iff_last_join (by decide +kernel) (by decide +kernel) halong
    (by decide +kernel), by decide +kernel⟩

/-- Joined again before the leave was confirmed, and left before the join was: every reply is
handled and the room has us in it, but the session does not hold the room. -/
theorem room_lost :
    (let d := Run.after (step .verbatim den.text den) { session := alice }
      [.join none, .process withBob, .handle, .handle, .part, .join none, .process withBob,
        .process withBob, .handle, .handle, .handle]
    d.sent = [] ∧ d.replies = [] ∧ d.last = some .join ∧ d.isJoined den = false) ∧
    let d := Run.after (step .verbatim den.text den) { session := alice }
      [.join none, .part, .process withBob, .handle, .handle]
    d.sent = [] ∧ d.replies = [] ∧ d.last = some .join ∧ d.isJoined den = false := by
  decide +kernel

end Doorway

end Ddirc.Xmpp
