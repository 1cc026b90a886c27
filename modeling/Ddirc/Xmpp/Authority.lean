import Ddirc.Lib.Run
import Ddirc.Xmpp.Authors

/-! # Whose word counts in a room

Beside the session stands what was said in its rooms and by which nickname as the room wrote it,
followed through the renames that the room announces. The index knows authors by their nicknames as
they are shown, cleaned and cut, and follows a rename when the new nickname arrives. -/

namespace Ddirc.Xmpp
open List Session
variable {s : Session}

structure Said where
  room : BareJid
  msgid : String
  /-- The nickname that whoever said it has now. -/
  nick : String
  /-- Whoever said it has left the room, or may have. -/
  gone : Bool := false
  deriving DecidableEq

/-- The nickname that the room announces for an occupant who gives up theirs. -/
def Presence.newNick (p : Presence) : Option String :=
  if p.type = .unavailable ∧ p.statuses.contains .newNick then p.item.bind (·.nick) else none

/-- Where an occupant's nickname stands once they are not there under it any more. -/
def Said.follow (d : Said) (room : BareJid) (nick : String) (new : Option String) : Said :=
  if d.room = room ∧ d.nick = nick then
    match new with
    | some new => { d with nick := new }
    | none => { d with gone := true }
  else d

/-- The occupant whose name an input depends on: who speaks, or who takes another nickname. -/
def Input.occupant : Input → Option (BareJid × String)
  | .presence p =>
    if p.newNick.isSome then p.sender.bind fun j => j.resource.map (j.bare, ·) else none
  | i => i.utterance.map fun u => (u.room, u.nick)

/-- A presence of somebody who is there. -/
def Input.isArrival : Input → Bool
  | .presence p => p.type ≠ .unavailable && p.type ≠ .error
  | _ => false

/-- No rename is under way in any room. -/
def Session.isSettled (s : Session) : Bool :=
  (Map.values s.rooms).all fun r => r.renames.entries.isEmpty

theorem renames_of_settled (h : s.isSettled)
    (hr : s.rooms.lookup jid = some r) : r.renames = ∅ := by
  have hmem : r ∈ Map.values s.rooms := mem_map.2 ⟨⟨jid, r⟩, Map.mem_entries_iff.2 hr, rfl⟩
  exact AList.ext (isEmpty_iff.1 (all_eq_true.1 h r hmem))

/-- The session, and what was said in its rooms. -/
structure Hearsay where
  session : Session
  said : List Said := []

namespace Hearsay
variable (rules : JidRules)

/-- Who has said what, when an input comes: a fresh login does not know who is still there. -/
def follow (w : Hearsay) : Input → List Said
  | .online => w.said.map ({ · with gone := true })
  | .presence p =>
    match p.sender with
    | some { bare := room, resource := some nick } =>
      if p.type = .unavailable then
        let new := if (w.session.rooms.lookup room).isSome then p.newNick else none
        w.said.map (·.follow room nick new)
      else w.said
    | _ => w.said
  | _ => w.said

def heard (u : Option Utterance) (fx : Effects) : List Said :=
  u.toList.flatMap fun u => (fx.events.filterMap Event.said).map fun msgid =>
    { room := u.room, msgid, nick := u.nick, gone := u.replayed }

def step (w : Hearsay) (i : Input) : Hearsay × List Event :=
  let (session, fx) := w.session.step rules i
  ({ session, said := w.follow i ++ heard i.utterance fx }, fx.events)

/-- What an input changes or takes back was said by the occupant who sends it. -/
def Rightful (w : Hearsay) (i : Input) : Prop :=
  ∀ ev ∈ (w.step rules i).2, ∀ amended ∈ ev.amends,
    ∃ u ∈ i.utterance, u.room.text = amended.1 ∧
      ∃ d ∈ w.said, d.room = u.room ∧ d.msgid = amended.2 ∧ d.nick = u.nick

instance (w : Hearsay) (i : Input) : Decidable (w.Rightful rules i) := by
  unfold Rightful
  infer_instance

/-- Nobody else's nickname looks like that of the occupant, nor does the address of the room or
ours. -/
def apart (w : Hearsay) (room : BareJid) (nick : String) : Bool :=
  cleanName nick ≠ room.text && cleanName nick ≠ w.session.account.text &&
    w.said.all fun d => d.room ≠ room || cleanName d.nick ≠ cleanName nick || d.nick = nick

/-- A rename that is announced is completed before anything else comes than presences, and nobody's
nickname looks like that of whoever speaks or is renamed. -/
def isPlain (w : Hearsay) (i : Input) : Bool :=
  (i.isArrival || w.session.isSettled) && i.occupant.all fun (room, nick) => w.apart room nick

end Hearsay

namespace Said
variable {d : Said} {room : BareJid} {nick : String}

theorem follow_of (h : d.room = room ∧ d.nick = nick) (new : Option String) :
    d.follow room nick new = match new with
      | some new => { d with nick := new }
      | none => { d with gone := true } := if_pos h

theorem follow_of_not (h : ¬(d.room = room ∧ d.nick = nick)) (new : Option String) :
    d.follow room nick new = d := if_neg h

@[simp] theorem follow_room (new : Option String) : (d.follow room nick new).room = d.room := by
  unfold follow
  split
  · cases new <;> rfl
  · rfl

@[simp] theorem follow_msgid (new : Option String) : (d.follow room nick new).msgid = d.msgid := by
  unfold follow
  split
  · cases new <;> rfl
  · rfl

end Said

/-! ## Who is filed -/

/-- The author that a message is filed under: the nickname of who said it, or the one that they are
giving up. -/
def Said.Named (d : Said) (s : Session) (author : String) : Prop :=
  cleanName d.nick = author ∨
    ∃ r, s.rooms.lookup d.room = some r ∧ r.renames.lookup (cleanName d.nick) = some author

/-- What an entry of the index is of. -/
structure Said.Of (d : Said) (s : Session) (e : Entry) : Prop where
  room : d.room.text = e.conversation
  msgid : d.msgid = e.msgid
  named : d.Named s e.author

theorem Said.named_of_settled {d : Said} (h : s.isSettled)
    (hd : d.Named s author) : cleanName d.nick = author := by
  rcases hd with hd | ⟨r, hr, hrename⟩
  · exact hd
  · rw [renames_of_settled h hr] at hrename
    cases hrename

/-- Where a rename is announced, messages are filed under the nickname that is given up. -/
theorem Said.named_announced {d : Said} {s s' : Session} {room : BareJid} {r' : Room}
    {nick new author : String} (h : s.isSettled) (hr' : s'.rooms.lookup room = some r')
    (hrename : r'.renames.lookup (cleanName new) = some (cleanName nick)) (hd : d.Named s author) :
    (d.follow room nick (some new)).Named s' author := by
  have hauthor := named_of_settled h hd
  by_cases hmoved : d.room = room ∧ d.nick = nick
  · rw [follow_of hmoved]
    refine .inr ⟨r', hmoved.1 ▸ hr', hrename.trans ?_⟩
    rw [← hauthor, hmoved.2]
  · rw [follow_of_not hmoved]
    exact .inl hauthor

namespace Hearsay
variable {rules : JidRules} {w : Hearsay}
variable {u : Option Utterance} {fx : Effects} {d : Said} {room : BareJid} {nick : String}
  {r : Room} {p : Presence} {s' : Session} {e e' : Entry} {i : Input}

/-- What holds of a room, with these messages said. -/
structure Orderly (account : BareJid) (said : List Said) (jid : BareJid) (r : Room) : Prop where
  keyed : r.jid = jid
  /-- One rename is under way at a time. -/
  lone : ∀ n old n' old', r.renames.lookup n = some old → r.renames.lookup n' = some old' → n' = n
  /-- Nobody has a nickname that is being given up. -/
  leaving : ∀ n old, r.renames.lookup n = some old → old ≠ jid.text ∧ old ≠ account.text ∧
    ∀ d ∈ said, d.room = jid → cleanName d.nick = old → old = n

theorem Orderly.of_none {account jid : BareJid} {said : List Said} (hjid : r.jid = jid)
    (h : ∀ n, r.renames.lookup n = none) : Orderly account said jid r :=
  have hno {n old : String} : r.renames.lookup n ≠ some old := by simp [h n]
  ⟨hjid, fun _ _ _ _ hn => absurd hn hno, fun _ _ hn => absurd hn hno⟩

structure Sound (w : Hearsay) : Prop where
  rooms : ∀ jid r, w.session.rooms.lookup jid = some r → Orderly w.session.account w.said jid r
  known : ∀ e ∈ w.session.index, e.Aside w.session.account ∨ ∃ d ∈ w.said, d.Of w.session e

theorem Sound.keyed (hw : w.Sound) : w.session.Keyed := fun jid r hr => (hw.rooms jid r hr).keyed

/-- With no rename under way, an entry is filed under the nickname of who said it. -/
theorem Sound.known_of_settled (hw : w.Sound) (h : w.session.isSettled)
    (he : e ∈ w.session.index) : e.Aside w.session.account ∨
      ∃ d ∈ w.said, d.room.text = e.conversation ∧ d.msgid = e.msgid ∧
        cleanName d.nick = e.author := by
  refine (hw.known e he).imp_right fun ⟨d, hd, hof⟩ => ⟨d, hd, hof.room, hof.msgid, ?_⟩
  exact Said.named_of_settled h hof.named

theorem mem_heard : d ∈ heard u fx ↔
    ∃ u' ∈ u, ∃ id ∈ fx.events.filterMap Event.said,
      d = { room := u'.room, msgid := id, nick := u'.nick, gone := u'.replayed } := by
  simp only [heard, mem_flatMap, Option.mem_toList, mem_map, eq_comm (a := d), Option.mem_def]

theorem heard_none : heard none fx = [] := rfl

theorem heard_of_calm (h : fx.Calm) (u : Option Utterance) : heard u fx = [] := by
  rw [eq_nil_iff_forall_not_mem]
  intro d hd
  obtain ⟨u', -, id, hid, -⟩ := mem_heard.1 hd
  obtain ⟨ev, hev, hid⟩ := mem_filterMap.1 hid
  rw [(h ev hev).2] at hid
  cases hid

/-- A change of what was said by which nobody has another nickname. -/
def Keeps (f : Said → Said) : Prop :=
  ∀ d, (f d).room = d.room ∧ (f d).msgid = d.msgid ∧ (f d).nick = d.nick

theorem keeps_id : Keeps id := fun _ => ⟨rfl, rfl, rfl⟩

/-- What is heard is filed under the name of who says it. -/
theorem Sound.hears (hw : w.Sound) (hsettled : w.session.isSettled) {r : Session × Effects}
    (h : w.session.Hears u r) {f : Said → Said} (hf : Keeps f) :
    Sound { session := r.1, said := w.said.map f ++ heard u r.2 } := by
  have hrenames {jid : BareJid} {r' : Room} (hr' : r.1.rooms.lookup jid = some r') :
      r'.renames = ∅ := by
    rcases h.renames jid r' hr' with hnone | ⟨r₀, hr₀, hsame⟩
    · exact hnone
    · exact hsame.trans (renames_of_settled hsettled hr₀)
  refine ⟨fun jid r' hr' => .of_none (h.keyed hw.keyed jid r' hr') fun n => ?_, fun e he => ?_⟩
  · rw [hrenames hr']
    rfl
  · rcases h.entries e he with he | he | ⟨u', hu', hroom, hauthor, hid⟩
    · rcases hw.known_of_settled hsettled he with haside | ⟨d, hd, hroom, hmsgid, hnick⟩
      · exact .inl (h.account ▸ haside)
      · obtain ⟨hroom', hmsgid', hnick'⟩ := hf d
        refine .inr ⟨f d, mem_append_left _ (mem_map_of_mem hd), ?_, ?_, .inl ?_⟩
        · rw [hroom', hroom]
        · rw [hmsgid', hmsgid]
        · rw [hnick', hnick]
    · exact .inl (h.account ▸ he)
    · have hd : { room := u'.room, msgid := e.msgid, nick := u'.nick, gone := u'.replayed } ∈
          heard u r.2 := mem_heard.2 ⟨u', hu', e.msgid, hid, rfl⟩
      exact .inr ⟨_, mem_append_right _ hd, hroom.symm, rfl, .inl hauthor.symm⟩

theorem apart_iff : w.apart room nick ↔
    (cleanName nick ≠ room.text ∧ cleanName nick ≠ w.session.account.text) ∧
      ∀ d ∈ w.said, d.room = room → cleanName d.nick = cleanName nick → d.nick = nick := by
  unfold apart
  rw [Bool.and_eq_true, Bool.and_eq_true, decide_eq_true_eq, decide_eq_true_eq, all_eq_true]
  refine and_congr_right fun _ => forall₂_congr fun d _ => ?_
  rw [Bool.or_eq_true, Bool.or_eq_true, decide_eq_true_eq, decide_eq_true_eq, decide_eq_true_eq,
    or_assoc, imp_iff_not_or, imp_iff_not_or]

theorem Sound.announce (hw : w.Sound) (hsettled : w.session.isSettled)
    (hr : w.session.rooms.lookup room = some r) {nick new : String}
    (hapart : w.apart room nick) (hnew : p.item.bind (·.nick) = some new) :
    Sound { session := (w.session.onRenameAway room r nick p).1
            said := w.said.map (·.follow room nick (some new)) } := by
  obtain ⟨⟨hnotRoom, hnotUs⟩, hlike⟩ := apart_iff.1 hapart
  rw [onRenameAway_of_some hnew, renames_of_settled hsettled hr]
  refine ⟨fun jid r' hr' => ?_, fun e he => ?_⟩
  · rw [Map.lookup_insert] at hr'
    split at hr'
    next hjid =>
      subst hjid
      obtain rfl := Option.some.inj hr'
      -- the only rename that is under way
      have hrename {n old : String} (hn : ((∅ : Map String String).insert (cleanName new)
          (cleanName nick)).lookup n = some old) : n = cleanName new ∧ old = cleanName nick :=
        (Map.of_lookup_insert hn).resolve_right fun h => nomatch h.2
      refine ⟨(hw.rooms jid r hr).keyed, fun n old n' old' hn hn' => ?_, fun n old hn => ?_⟩
      · rw [(hrename hn).1, (hrename hn').1]
      · obtain ⟨rfl, rfl⟩ := hrename hn
        refine ⟨hnotRoom, hnotUs, fun d' hd' hroom hclean => ?_⟩
        obtain ⟨d, hd, rfl⟩ := mem_map.1 hd'
        rw [Said.follow_room] at hroom
        by_cases hmoved : d.room = jid ∧ d.nick = nick
        · rw [Said.follow_of hmoved] at hclean
          exact hclean.symm
        · rw [Said.follow_of_not hmoved] at hclean
          exact absurd ⟨hroom, hlike d hd hroom hclean⟩ hmoved
    · refine .of_none (hw.rooms jid r' hr').keyed fun n => ?_
      rw [renames_of_settled hsettled hr']
      rfl
  · refine (hw.known e (Index.mem_forgetConversation.1 he).1).imp_right fun ⟨d, hd, hof⟩ => ?_
    refine ⟨_, mem_map_of_mem hd, ?_, ?_, ?_⟩
    · rw [Said.follow_room, hof.room]
    · rw [Said.follow_msgid, hof.msgid]
    · exact Said.named_announced hsettled (AList.lookup_insert w.session.rooms)
        (AList.lookup_insert (∅ : Map String String)) hof.named

/-- A rename is completed, and what is filed under the old nickname is filed under the new one. -/
theorem Sound.named_completed (hw : w.Sound)
    (hr : w.session.rooms.lookup room = some r)
    (hold : r.renames.lookup nick = some old)
    (hrooms : s'.rooms = w.session.rooms.insert room r')
    (he : (if e.conversation = r.name ∧ e.author = old then { e with author := nick } else e) = e')
    (hd : d ∈ w.said) (hroom : d.room.text = e.conversation)
    (hnamed : d.Named w.session e.author) : d.Named s' e'.author := by
  have hname : r.name = room.text := congrArg BareJid.text (hw.keyed room r hr)
  by_cases hmoved : e.conversation = r.name ∧ e.author = old
  · rw [if_pos hmoved] at he
    obtain rfl : d.room = room := BareJid.text_inj.1 (hroom.trans (hmoved.1.trans hname))
    refine .inl (he ▸ ?_)
    rcases hnamed with hnick | ⟨r₀, hr₀, hrename⟩
    · -- nobody has the old nickname, unless it is the new one
      rw [hnick, hmoved.2]
      exact ((hw.rooms _ r hr).leaving nick old hold).2.2 d hd rfl (hnick.trans hmoved.2)
    · obtain rfl := Option.some.inj (hr.symm.trans hr₀)
      exact (hw.rooms _ r hr).lone nick old _ _ hold hrename
  · rw [if_neg hmoved] at he
    subst he
    refine hnamed.imp_right fun ⟨r₀, hr₀, hrename⟩ => ⟨r₀, ?_, hrename⟩
    rw [hrooms, Map.lookup_insert, if_neg, hr₀]
    rintro rfl
    obtain rfl := Option.some.inj (hr.symm.trans hr₀)
    obtain hnick := (hw.rooms _ r hr).lone nick old _ _ hold hrename
    rw [hnick, hold] at hrename
    exact hmoved ⟨hroom.symm.trans hname.symm, (Option.some.inj hrename).symm⟩

/-- What is filed aside is not of the nickname that is given up. -/
theorem Sound.aside_completed (hw : w.Sound) (hr : w.session.rooms.lookup room = some r)
    (hold : r.renames.lookup nick = some old)
    (he : (if e.conversation = r.name ∧ e.author = old then { e with author := nick } else e) = e')
    (haside : e.Aside w.session.account) : e'.Aside w.session.account := by
  have hother : ¬(e.conversation = r.name ∧ e.author = old) := by
    rintro ⟨hconversation, rfl⟩
    obtain ⟨hnotRoom, hnotUs, -⟩ := (hw.rooms room r hr).leaving nick _ hold
    have hname : r.name = room.text := congrArg BareJid.text (hw.keyed room r hr)
    exact (haside room (hconversation.trans hname)).elim hnotRoom hnotUs
  rw [if_neg hother] at he
  exact he ▸ haside

theorem Sound.complete (hw : w.Sound) (hr : w.session.rooms.lookup room = some r)
    (hold : r.renames.lookup nick = some old) (isSelf : Bool) (p : Presence) :
    Sound { w with session := (w.session.onArrival room r nick isSelf p).1 } := by
  rw [onArrival_renamed hold]
  generalize hr' : (if r.isSelf old then { r.welcome nick p with nick } else r.welcome nick p) = r'
  have hjid : r'.jid = r.jid := by rw [← hr']; split <;> rfl
  have hrenames : r'.renames = r.renames.erase nick := by rw [← hr']; split <;> rfl
  have hnone (n : String) : r'.renames.lookup n = none := by
    rw [hrenames, Map.lookup_erase]
    split
    · rfl
    next hne =>
      cases hn : r.renames.lookup n with
      | none => rfl
      | some old' => exact absurd ((hw.rooms _ r hr).lone nick old n old' hold hn) hne
  refine ⟨fun jid r'' hr'' => ?_, fun e' he' => ?_⟩
  · rcases Map.of_lookup_insert hr'' with ⟨rfl, rfl⟩ | ⟨-, hr''⟩
    · exact .of_none (hjid.trans (hw.keyed _ r hr)) hnone
    · exact hw.rooms jid r'' hr''
  · obtain ⟨e, he, hmoved⟩ := Index.mem_renameAuthor.1 he'
    rcases hw.known e he with haside | ⟨d, hd, hof⟩
    · exact .inl (hw.aside_completed hr hold hmoved haside)
    · have hconversation : e'.conversation = e.conversation ∧ e'.msgid = e.msgid := by
        rw [← hmoved]
        split <;> exact ⟨rfl, rfl⟩
      exact .inr ⟨d, hd, hof.room.trans hconversation.1.symm, hof.msgid.trans hconversation.2.symm,
        hw.named_completed hr hold rfl hmoved hd hof.room hof.named⟩

/-- Where no rename is completed, every message is filed as it was. -/
theorem named_arrived (hr : s.rooms.lookup room = some r)
    (hrooms : s'.rooms = s.rooms.insert room r')
    (hrenames : ∀ n, r'.renames.lookup n = r.renames.lookup n)
    (hd : d.Named s author) : d.Named s' author := by
  refine hd.imp_right fun ⟨r₀, hr₀, hrename⟩ => ?_
  by_cases heq : d.room = room
  · obtain rfl := Option.some.inj (hr.symm.trans (heq ▸ hr₀))
    refine ⟨r', ?_, (hrenames _).trans hrename⟩
    rw [hrooms, Map.lookup_insert, if_pos heq]
  · refine ⟨r₀, ?_, hrename⟩
    rw [hrooms, Map.lookup_insert, if_neg heq, hr₀]

theorem Sound.arrive (hw : w.Sound) (hr : w.session.rooms.lookup room = some r)
    (hrooms : s'.rooms = w.session.rooms.insert room r') (hjid : r'.jid = r.jid)
    (hrenames : ∀ n, r'.renames.lookup n = r.renames.lookup n)
    (haccount : s'.account = w.session.account) (hindex : s'.index = w.session.index) :
    Sound { w with session := s' } := by
  refine ⟨fun jid r'' hr'' => ?_, fun e he => ?_⟩
  · rw [haccount]
    rw [hrooms] at hr''
    rcases Map.of_lookup_insert hr'' with ⟨rfl, rfl⟩ | ⟨-, hr''⟩
    · obtain ⟨hkeyed, hlone, hleaving⟩ := hw.rooms _ r hr
      simp only [← hrenames] at hlone hleaving
      exact ⟨hjid.trans hkeyed, hlone, hleaving⟩
    · exact hw.rooms jid r'' hr''
  · rw [haccount]
    exact (hw.known e (hindex ▸ he)).imp_right fun ⟨d, hd, hof⟩ =>
      ⟨d, hd, hof.room, hof.msgid, named_arrived hr hrooms hrenames hof.named⟩

/-! ## Steps -/

/-- What an input does, as far as it concerns who said what. -/
inductive Turn (w : Hearsay) (i : Input) (r : Session × Effects) : Prop
  /-- Nobody is renamed. -/
  | hears (settled : w.session.isSettled = true) (h : w.session.Hears i.utterance r)
    (f : Said → Said)
    (same : Keeps f) (hfollow : w.follow i = w.said.map f)
  | announces (settled : w.session.isSettled = true) (room : BareJid) (r₀ : Room)
    (hr : w.session.rooms.lookup room = some r₀) (nick new : String)
    (hapart : w.apart room nick = true) (p : Presence) (hnew : p.item.bind (·.nick) = some new)
    (hstep : r = w.session.onRenameAway room r₀ nick p) (hquiet : i.utterance = none)
    (hfollow : w.follow i = w.said.map (·.follow room nick (some new)))
  | completes (room : BareJid) (r₀ : Room) (hr : w.session.rooms.lookup room = some r₀)
    (nick old : String) (hold : r₀.renames.lookup nick = some old) (isSelf : Bool) (p : Presence)
    (hstep : r = w.session.onArrival room r₀ nick isSelf p) (hquiet : i.utterance = none)
    (hfollow : w.follow i = w.said)
  | arrives (room : BareJid) (r₀ r' : Room) (hr : w.session.rooms.lookup room = some r₀)
    (hrooms : r.1.rooms = w.session.rooms.insert room r') (hjid : r'.jid = r₀.jid)
    (hrenames : ∀ n, r'.renames.lookup n = r₀.renames.lookup n)
    (haccount : r.1.account = w.session.account) (hindex : r.1.index = w.session.index)
    (hcalm : r.2.Calm) (hquiet : i.utterance = none) (hfollow : w.follow i = w.said)
  | nothing (hstep : r = (w.session, {})) (hfollow : w.follow i = w.said)

/-- A step that acts on nothing said, and moves nobody. -/
theorem turn_of_calm {r : Session × Effects} (hsettled : w.session.isSettled)
    (hkeyed : w.session.Keyed)
    (h : w.session.Does { sends := true, talks := true, index := w.session.index } r)
    {f : Said → Said} (same : Keeps f) (hfollow : w.follow i = w.said.map f) : w.Turn i r :=
  .hears hsettled ((h.hears hkeyed rfl rfl).of_none _) f same hfollow

theorem keeps_follow_none (room : BareJid) (nick : String) : Keeps (·.follow room nick none) := by
  refine fun d => ⟨Said.follow_room none, Said.follow_msgid none, ?_⟩
  dsimp only [Said.follow]
  split <;> rfl

theorem follow_of_unavailable (hsender : p.sender = some ⟨room, some nick⟩)
    (htype : p.type = .unavailable) :
    w.follow (.presence p) = w.said.map (·.follow room nick
      (if (w.session.rooms.lookup room).isSome then p.newNick else none)) := by
  unfold follow
  simp only [hsender, if_pos htype]

theorem follow_of_not_unavailable (h : p.type ≠ .unavailable ∨
    ∀ room nick, p.sender ≠ some ⟨room, some nick⟩) : w.follow (.presence p) = w.said := by
  unfold follow
  dsimp only
  split
  next room nick hsender =>
    rw [if_neg (h.resolve_right fun h => h room nick hsender)]
  · rfl

/-- A presence of an occupant of a room that is held, who is gone or is renamed. -/
theorem turn_unavailable (hsettled : w.session.isSettled) (hkeyed : w.session.Keyed)
    (hapart : ((Input.presence p).occupant.all fun (room, nick) => w.apart room nick))
    (hr : w.session.rooms.lookup room = some r) (hsender : p.sender = some ⟨room, some nick⟩)
    (htype : p.type = .unavailable) :
    w.Turn (.presence p) (w.session.step rules (.presence p)) := by
  have herror : p.type ≠ .error := by rw [htype]; exact PresenceType.noConfusion
  have hfollow := follow_of_unavailable (w := w) hsender htype
  rw [hr, Option.isSome_some, if_pos rfl] at hfollow
  rw [step_presence_of_held hr hsender herror]
  rw [if_pos htype]
  unfold Presence.newNick at hfollow
  split
  next hrename =>
    rw [if_pos ⟨htype, hrename⟩] at hfollow
    cases hnew : p.item.bind (·.nick) with
    | some new =>
      have hoccupant : (Input.presence p).occupant = some (room, nick) := by
        have hnick : p.newNick = some new := (if_pos ⟨htype, hrename⟩).trans hnew
        rw [Input.occupant, hnick, Option.isSome_some, hsender]
        rfl
      rw [hoccupant] at hapart
      rw [hnew] at hfollow
      exact .announces hsettled room r hr nick new hapart p hnew rfl rfl hfollow
    | none =>
      rw [hnew] at hfollow
      rw [onRenameAway_of_none hnew]
      exact turn_of_calm hsettled hkeyed .refl (keeps_follow_none room nick) hfollow
  next hrename =>
    rw [if_neg fun h => hrename h.2] at hfollow
    exact turn_of_calm hsettled hkeyed (.onDeparture hr nick _ p) (keeps_follow_none room nick)
      hfollow

theorem turn_arrival (hr : w.session.rooms.lookup room = some r)
    (hsender : p.sender = some ⟨room, some nick⟩) (herror : p.type ≠ .error)
    (htype : p.type ≠ .unavailable) :
    w.Turn (.presence p) (w.session.step rules (.presence p)) := by
  have hfollow := follow_of_not_unavailable (w := w) (.inl htype)
  rw [step_presence_of_held hr hsender herror]
  rw [if_neg htype]
  generalize (p.statuses.contains .selfPresence || r.isSelf (cleanName nick)) = isSelf
  cases hold : r.renames.lookup (cleanName nick) with
  | some old => exact .completes room r hr _ old hold isSelf p rfl rfl hfollow
  | none =>
    obtain ⟨⟨r', hrooms, hjid, hrenames⟩, haccount, hindex, hcalm⟩ :
        (∃ r', (w.session.onArrival room r (cleanName nick) isSelf p).1.rooms =
          w.session.rooms.insert room r' ∧ _) ∧ _ := onArrival_of_none hold isSelf p
    refine .arrives room r r' hr hrooms hjid (fun n => ?_) haccount hindex hcalm rfl hfollow
    rw [hrenames, Map.lookup_erase]
    split
    next heq => rw [heq, hold]
    · rfl

theorem turn_presence (hkeyed : w.session.Keyed) (hplain : w.isPlain (.presence p)) :
    w.Turn (.presence p) (w.session.step rules (.presence p)) := by
  obtain ⟨hsettled, hapart⟩ := Bool.and_eq_true_iff.1 hplain
  have hgone (h : p.type = .unavailable ∨ p.type = .error) : w.session.isSettled := by
    rw [Bool.or_eq_true] at hsettled
    refine hsettled.resolve_left fun harrival => ?_
    rcases h with h | h <;> simp [Input.isArrival, h] at harrival
  cases hsender : p.sender with
  | none =>
    refine .nothing ?_ (follow_of_not_unavailable (.inr (by simp [hsender])))
    rw [Session.step, Session.onPresence, hsender]
  | some sender =>
  obtain ⟨room, resource⟩ := sender
  by_cases herror : p.type = .error
  · have hfollow : w.follow (.presence p) = w.said.map id :=
      (follow_of_not_unavailable (.inl (by rw [herror]; exact PresenceType.noConfusion))).trans
        (map_id _).symm
    refine turn_of_calm (hgone (.inr herror)) hkeyed ?_ keeps_id hfollow
    cases hr : w.session.rooms.lookup room with
    | none =>
      rw [step_presence_of_not_held hsender hr]
      exact .refl
    | some r =>
      rw [step_presence_of_error hr hsender herror]
      exact .onRoomError rfl room p fun _ => trivial
  cases resource with
  | none =>
    refine .nothing ?_ (follow_of_not_unavailable (.inr (by simp [hsender])))
    cases hr : w.session.rooms.lookup room with
    | none => exact step_presence_of_not_held hsender hr
    | some r => exact step_presence_of_room hr hsender herror
  | some nick =>
    cases hr : w.session.rooms.lookup room with
    | some r =>
      by_cases htype : p.type = .unavailable
      · exact turn_unavailable (hgone (.inl htype)) hkeyed hapart hr hsender htype
      · exact turn_arrival hr hsender herror htype
    | none =>
      rw [step_presence_of_not_held hsender hr]
      by_cases htype : p.type = .unavailable
      · have hfollow := follow_of_unavailable (w := w) hsender htype
        rw [hr, Option.isSome_none] at hfollow
        exact turn_of_calm (hgone (.inl htype)) hkeyed .refl (keeps_follow_none room nick) hfollow
      · exact .nothing rfl (follow_of_not_unavailable (.inl htype))

theorem turn_of_plain (hkeyed : w.session.Keyed) (hplain : w.isPlain i) :
    w.Turn i (w.session.step rules i) := by
  have hsettled (h : i.isArrival = false) : w.session.isSettled := by
    have := (Bool.and_eq_true_iff.1 hplain).1
    rwa [h] at this
  cases i with
  | online =>
    exact turn_of_calm (hsettled rfl) hkeyed (.onOnline rfl)
      (f := ({ · with gone := true })) (fun _ => ⟨rfl, rfl, rfl⟩) rfl
  | command c =>
    exact turn_of_calm (hsettled rfl) hkeyed (.onCommand rfl rfl c) keeps_id (map_id _).symm
  | message e =>
    have hdoes : w.session.Does { sends := true, utterance := (Input.message e).utterance
                                  index := w.session.index } _ := .onMessage rfl rfl rfl
    exact .hears (hsettled rfl) (hdoes.hears hkeyed rfl rfl) id keeps_id (map_id _).symm
  | presence p => exact turn_presence hkeyed hplain
  | result sender id fin =>
    exact turn_of_calm (hsettled rfl) hkeyed (.onResult rfl sender id fin) keeps_id
      (map_id _).symm
  | failure sender id =>
    exact turn_of_calm (hsettled rfl) hkeyed (.onFailure rfl sender id) keeps_id (map_id _).symm

theorem Sound.step (hw : w.Sound) (hplain : w.isPlain i) : (w.step rules i).1.Sound := by
  have hturn : w.Turn i (w.session.step rules i) := turn_of_plain hw.keyed hplain
  change Sound { session := (w.session.step rules i).1
                 said := w.follow i ++ heard i.utterance (w.session.step rules i).2 }
  generalize w.session.step rules i = r at hturn
  cases hturn with
  | hears settled h f same hfollow =>
    rw [hfollow]
    exact hw.hears settled h same
  | announces settled room r₀ hr nick new hapart p hnew hstep hquiet hfollow =>
    rw [hfollow, hstep, hquiet, heard_none, append_nil]
    exact hw.announce settled hr hapart hnew
  | completes room r₀ hr nick old hold isSelf p hstep hquiet hfollow =>
    rw [hfollow, hstep, hquiet, heard_none, append_nil]
    exact hw.complete hr hold isSelf p
  | arrives room r₀ r' hr hrooms hjid hrenames haccount hindex hcalm hquiet hfollow =>
    rw [hfollow, hquiet, heard_none, append_nil]
    exact hw.arrive hr hrooms hjid hrenames haccount hindex
  | nothing hstep hfollow =>
    rw [hfollow, hstep, heard_of_calm Effects.calm_nil, append_nil]
    exact hw

theorem Turn.calm {r : Session × Effects} (h : w.Turn i r) :
    (w.session.isSettled ∧ w.session.Hears i.utterance r) ∨ r.2.Calm := by
  cases h with
  | hears settled h => exact .inl ⟨settled, h⟩
  | announces _ _ _ _ _ _ _ _ hnew hstep =>
    rw [hstep, onRenameAway_of_some hnew]
    exact .inr Effects.calm_nil
  | completes _ _ _ _ _ hold _ _ hstep =>
    rw [hstep, onArrival_renamed hold]
    refine .inr fun e he => ?_
    rw [mem_cons, mem_singleton] at he
    rcases he with rfl | rfl <;> exact ⟨rfl, rfl⟩
  | arrives _ _ _ _ _ _ _ _ _ hcalm => exact .inr hcalm
  | nothing hstep =>
    rw [hstep]
    exact .inr Effects.calm_nil

theorem eq_message_of_utterance {u : Utterance} (hu : u ∈ i.utterance) : ∃ e, i = .message e := by
  cases i with
  | message e => exact ⟨e, rfl⟩
  | _ => exact absurd hu (Option.not_mem_none u)

theorem apart_of_plain (hplain : w.isPlain i) {u : Utterance}
    (hu : u ∈ i.utterance) : w.apart u.room u.nick := by
  obtain ⟨e, rfl⟩ := eq_message_of_utterance hu
  have hoccupant : (Input.message e).occupant =
      (Input.message e).utterance.map fun u => (u.room, u.nick) := rfl
  have := (Bool.and_eq_true_iff.1 hplain).2
  rwa [hoccupant, Option.mem_def.1 hu] at this

/-- What is changed or taken back is filed under the name of who speaks, and of nobody else. -/
theorem Sound.amended (hw : w.Sound) (hplain : w.isPlain i) {ev : Event}
    (hev : ev ∈ (w.step rules i).2) {amended : String × String} (h : amended ∈ ev.amends) :
    ∃ u ∈ i.utterance, u.room.text = amended.1 ∧ ∃ e ∈ w.session.index,
      e.conversation = amended.1 ∧ e.author = cleanName u.nick ∧ e.msgid = amended.2 ∧
        ¬e.Aside w.session.account := by
  have hturn : w.Turn i (w.session.step rules i) := turn_of_plain hw.keyed hplain
  rcases hturn.calm with ⟨-, hhears⟩ | hcalm
  · obtain ⟨u, hu, hroom, e, he, hconversation, hauthor, hmsgid⟩ := hhears.amends ev hev _ _ h
    obtain ⟨⟨hnotRoom, hnotUs⟩, -⟩ := apart_iff.1 (apart_of_plain hplain hu)
    refine ⟨u, hu, hroom, e, he, hconversation, hauthor, hmsgid, fun haside => ?_⟩
    have := haside u.room (hconversation.trans hroom.symm)
    rw [hauthor] at this
    exact this.elim hnotRoom hnotUs
  · rw [(hcalm ev hev).1] at h
    exact absurd h (Option.not_mem_none _)

theorem Sound.rightful (hw : w.Sound) (hplain : w.isPlain i) : w.Rightful rules i := by
  intro ev hev amended h
  obtain ⟨u, hu, hroom, e, he, hconversation, hauthor, hmsgid, hnotAside⟩ := hw.amended hplain hev h
  have hsettled : w.session.isSettled := by
    obtain ⟨e, rfl⟩ := eq_message_of_utterance hu
    exact (Bool.and_eq_true_iff.1 hplain).1
  obtain ⟨d, hd, hdroom, hdmsgid, hdnick⟩ :=
    (hw.known_of_settled hsettled he).resolve_left hnotAside
  have hsame : d.room = u.room :=
    BareJid.text_inj.1 (hdroom.trans (hconversation.trans hroom.symm))
  exact ⟨u, hu, hroom, d, hd, hsame, hdmsgid.trans hmsgid,
    (apart_iff.1 (apart_of_plain hplain hu)).2 d hd hsame (hdnick.trans hauthor)⟩

/-! ## Runs -/

def new (account : BareJid) (roomNick idStem : String) (rooms : List BareJid) : Hearsay where
  session := .new account roomNick idStem rooms

theorem sound_new (account : BareJid) (roomNick idStem : String) (rooms : List BareJid) :
    (new account roomNick idStem rooms).Sound := by
  refine ⟨fun jid r hr => ?_, fun e he => absurd he Index.not_mem_empty⟩
  obtain rfl := Session.of_lookup_new hr
  exact .of_none rfl fun _ => rfl

/-- Where nobody's nickname looks like another's and renames are completed as they are announced, an
occupant changes and takes back nothing but what they said themselves. -/
theorem amended_by_author {account : BareJid} {roomNick idStem : String} {rooms : List BareJid}
    {inputs : List Input} (h : Run.Along (step rules) (fun w i => w.isPlain i = true)
      (new account roomNick idStem rooms) inputs) :
    ∀ front i rest, inputs = front ++ i :: rest →
      Rightful rules (Run.after (step rules) (new account roomNick idStem rooms) front) i := by
  rintro front i rest rfl
  obtain ⟨hsound, hi⟩ :=
    h.before (sound_new account roomNick idStem rooms) fun _ _ hw hi => hw.step hi
  exact hsound.rightful hi

open BareJid (den)

/-- Nobody has said anything to `alice` yet, who wants to be in the room. -/
def alice : Hearsay := new .alice "alice" "ddirc" [den]

def present (nick : String) (statuses : List Status := []) : Input :=
  .presence { sender := some ⟨den, some nick⟩, statuses }

def utters (nick id : String) : Input :=
  .message { sender := some ⟨den, some nick⟩, type := .groupchat, id := some id, body := some "hi" }

def corrects (nick id replaces : String) : Input :=
  .message { sender := some ⟨den, some nick⟩, type := .groupchat, id := some id, body := some "ho"
             replace := some replaces }

/-- The room says that somebody takes another nickname. -/
def renames (nick new : String) : Input :=
  .presence { sender := some ⟨den, some nick⟩, type := .unavailable, statuses := [.newNick]
              item := some { nick := some new } }

/-- Bob speaks, corrects it, becomes Carl and corrects it again. -/
def carlWasBob : List Input :=
  [.online, present "bob", present "alice" [.selfPresence], utters "bob" "m",
    corrects "bob" "n" "m", renames "bob" "carl", present "carl", corrects "carl" "o" "m"]

theorem amended_by_author_renamed :
    Run.Along (step .verbatim) (fun w i => w.isPlain i = true) alice carlWasBob ∧
    (Run.after (step .verbatim) alice (carlWasBob.take 7)).Rightful .verbatim
      (corrects "carl" "o" "m") ∧
    (((Run.after (step .verbatim) alice (carlWasBob.take 7)).step .verbatim
      (corrects "carl" "o" "m")).2.map (·.amends)) = [some (den.text, "m")] := by
  have halong : Run.Along (step .verbatim) (fun w i => w.isPlain i = true) alice carlWasBob := by
    decide +kernel
  exact ⟨halong, amended_by_author halong _ _ [] rfl, by decide +kernel⟩

/-- Somebody whose nickname begins with all that is shown of another's corrects what was said under
that, and a new Bob what Bob said between the room's word that Bob becomes Carl and Carl's
arrival. -/
theorem amended_by_another :
    (let nick := String.ofList (List.replicate maxNick 'b')
    ¬(Run.after (step .verbatim) alice
      [.online, present "alice" [.selfPresence], utters nick "m"]).Rightful .verbatim
        (corrects (nick ++ "c") "n" "m")) ∧
    ¬(Run.after (step .verbatim) alice
      [.online, present "alice" [.selfPresence], utters "bob" "m", renames "bob" "carl"]).Rightful
        .verbatim (corrects "bob" "n" "m") := by
  decide +kernel

end Hearsay
end Ddirc.Xmpp
