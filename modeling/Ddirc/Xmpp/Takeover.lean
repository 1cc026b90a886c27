import Ddirc.Xmpp.Authority

/-! # Nicknames that change hands

What the session forgets when an occupant leaves a room, and what it does not: that the connection
was lost, that a room no longer held still stands in the index, that the archive may replay what
another holder of the nickname said. -/

namespace Ddirc.Xmpp
open List
namespace Hearsay
variable {room : BareJid} {d : Said} {i : Input} {f : Said → Said} {u : Utterance}

section
variable (rules : JidRules)

/-- An input changes or takes back nothing that was said by somebody who has left, or may have. -/
def Spares (w : Hearsay) (i : Input) : Prop :=
  ∀ ev ∈ (w.step rules i).2, ∀ amended ∈ ev.amends,
    ∀ d ∈ w.said, d.gone = true → d.room.text = amended.1 → d.msgid ≠ amended.2

instance (w : Hearsay) (i : Input) : Decidable (w.Spares rules i) := by
  unfold Spares
  infer_instance

end

/-- Nothing is filed of what was said in a room. -/
def isBlank (w : Hearsay) (room : BareJid) : Bool :=
  w.session.index.entries.all fun e => e.conversation ≠ room.text

/-- Nobody may have changed in a room without its messages being forgotten: a fresh login finds
nothing filed of the rooms; who leaves a room leaves one that is held, or of which nothing is filed;
a rename has a new nickname; and an id is new, or that of something which the same occupant has
said. -/
def isFresh (w : Hearsay) : Input → Bool
  | .online => w.said.all fun d => w.isBlank d.room
  | .presence p =>
    match p.sender with
    | some { bare := room, resource := some _ } =>
      p.type ≠ .unavailable || (if (w.session.rooms.lookup room).isSome then
        !p.statuses.contains .newNick || p.newNick.isSome else w.isBlank room)
    | _ => true
  | i => i.utterance.all fun u => !u.replayed && w.said.all fun d =>
      d.room ≠ u.room || some d.msgid ≠ u.msgid || (d.nick = u.nick && !d.gone)

variable {rules : JidRules} {w : Hearsay}

/-- What is filed was said by somebody who is there. -/
def Live (w : Hearsay) : Prop :=
  ∀ e ∈ w.session.index, e.Aside w.session.account ∨
    ∀ d ∈ w.said, d.room.text = e.conversation → d.msgid = e.msgid →
      d.gone = false ∧ d.Named w.session e.author

theorem isBlank_iff :
    w.isBlank room ↔ ∀ e ∈ w.session.index, e.conversation ≠ room.text := by
  unfold isBlank
  rw [all_eq_true]
  exact forall₂_congr fun _ _ => decide_eq_true_iff

/-! ## Who leaves is forgotten -/

/-- Nothing is filed any more of an occupant under the nickname that they have. -/
def Forgotten (s : Session) (account : BareJid) (d : Said) : Prop :=
  ∀ e ∈ s.index, e.conversation = d.room.text → e.author = cleanName d.nick → e.Aside account

/-- Where nobody speaks, nothing comes to be filed of a room of which nothing was. -/
theorem forgotten_of_blank (h : w.session.Hears none r)
    (hblank : w.isBlank d.room) : Forgotten r.1 w.session.account d := by
  intro e he hroom _
  rcases h.entries e he with he | haside | ⟨u, hu, -⟩
  · exact absurd hroom (isBlank_iff.1 hblank e he)
  · exact haside
  · exact absurd hu (Option.not_mem_none u)

theorem follow_gone {nick : String} {new : Option String} (hthere : d.gone = false)
    (hgone : (d.follow room nick new).gone) :
    (d.room = room ∧ d.nick = nick) ∧ new = none := by
  unfold Said.follow at hgone
  split at hgone
  next hmoved =>
    cases new with
    | none => exact ⟨hmoved, rfl⟩
    | some new => cases hthere.symm.trans hgone
  · rw [hthere] at hgone
    cases hgone

/-- Whoever leaves is forgotten. -/
theorem forgotten_of_gone (hkeyed : w.session.Keyed) (hfresh : w.isFresh i)
    (hhears : w.session.Hears i.utterance (w.session.step rules i))
    (hfollow : w.follow i = w.said.map f) (hd : d ∈ w.said) (hthere : d.gone = false)
    (hgone : (f d).gone) : Forgotten (w.session.step rules i).1 w.session.account d := by
  have hsame {g : Said → Said} (hg : w.follow i = w.said.map g) : f d = g d :=
    map_inj_left.1 (hfollow.symm.trans hg) d hd
  have hstays (h : w.follow i = w.said) : False := by
    rw [hsame (h.trans (map_id _).symm), id_eq, hthere] at hgone
    cases hgone
  cases i with
  | online => exact forgotten_of_blank hhears (all_eq_true.1 hfresh d hd)
  | presence p =>
    cases hsender : p.sender with
    | none => exact (hstays
      (follow_of_not_unavailable (.inr fun _ _ h => nomatch hsender.symm.trans h))).elim
    | some sender =>
    obtain ⟨room, resource⟩ := sender
    cases resource with
    | none =>
      exact (hstays
        (follow_of_not_unavailable (.inr fun _ _ h => nomatch hsender.symm.trans h))).elim
    | some nick =>
    by_cases htype : p.type = .unavailable
    · obtain ⟨⟨rfl, rfl⟩, hnew⟩ := follow_gone hthere
        (hsame (follow_of_unavailable hsender htype) ▸ hgone)
      unfold isFresh at hfresh
      simp only [hsender, htype, ne_eq, not_true_eq_false, decide_false, Bool.false_or] at hfresh
      cases hr : w.session.rooms.lookup d.room with
      | none =>
        rw [hr, Option.isSome_none] at hfresh
        exact forgotten_of_blank hhears hfresh
      | some r =>
        rw [hr, Option.isSome_some, if_pos rfl] at hfresh hnew
        -- it is no rename, which would say where they go
        have hleaves : p.statuses.contains .newNick = false := by
          rw [hnew, Option.isSome_none, Bool.or_false, Bool.not_eq_true'] at hfresh
          exact hfresh
        have herror : p.type ≠ .error := by rw [htype]; exact PresenceType.noConfusion
        intro e he hroom hauthor
        rw [Session.step_presence_of_held hr hsender herror] at he
        rw [if_pos htype, if_neg (by rw [hleaves]; exact Bool.false_ne_true)] at he
        have hname : r.name = d.room.text := congrArg BareJid.text (hkeyed d.room r hr)
        exact absurd hauthor
          (Session.forgotten_onDeparture d.nick _ p e he (hroom.trans hname.symm))
    · exact (hstays (follow_of_not_unavailable (.inl htype))).elim
  | command _ => exact (hstays rfl).elim
  | message _ => exact (hstays rfl).elim
  | result _ _ _ => exact (hstays rfl).elim
  | failure _ _ => exact (hstays rfl).elim

/-! ## Steps -/

theorem fresh_utterance (hfresh : w.isFresh i) (hu : u ∈ i.utterance) : u.replayed = false ∧
      ∀ d ∈ w.said, d.room = u.room → some d.msgid = u.msgid → d.nick = u.nick ∧
        d.gone = false := by
  obtain ⟨e, rfl⟩ := eq_message_of_utterance hu
  have hall : ((Input.message e).utterance.all fun u => !u.replayed && w.said.all fun d =>
      d.room ≠ u.room || some d.msgid ≠ u.msgid || (d.nick = u.nick && !d.gone)) := hfresh
  rw [Option.mem_def.1 hu, Option.all_some, Bool.and_eq_true, Bool.not_eq_true',
    all_eq_true] at hall
  refine ⟨hall.1, fun d hd hroom hmsgid => ?_⟩
  have := hall.2 d hd
  rw [Bool.or_eq_true, Bool.or_eq_true, decide_eq_true_eq, decide_eq_true_eq, Bool.and_eq_true,
    decide_eq_true_eq, Bool.not_eq_true'] at this
  exact this.resolve_left fun h => h.elim (absurd hroom) (absurd hmsgid)

/-- Where an utterance has the id of something that is filed, the same occupant said both. -/
theorem Sound.same_speaker (hw : w.Sound) (hsettled : w.session.isSettled)
    (hfresh : w.isFresh i) (hu : u ∈ i.utterance) (he : e ∈ w.session.index)
    (hnotAside : ¬e.Aside w.session.account) (hroom : e.conversation = u.room.text)
    (hmsgid : u.msgid = some e.msgid) : cleanName u.nick = e.author := by
  obtain ⟨d, hd, hdroom, hdmsgid, hdnick⟩ :=
    (hw.known_of_settled hsettled he).resolve_left hnotAside
  obtain ⟨hnick, -⟩ := (fresh_utterance hfresh hu).2 d hd (BareJid.text_inj.1 (hdroom.trans hroom))
    (by rw [hdmsgid, hmsgid])
  rw [← hnick, hdnick]

theorem Live.hears (hl : w.Live) (hw : w.Sound) (hsettled : w.session.isSettled)
    (hfresh : w.isFresh i) (h : w.session.Hears i.utterance (w.session.step rules i))
    (same : Keeps f) (hfollow : w.follow i = w.said.map f) :
    Live { session := (w.session.step rules i).1
           said := w.said.map f ++ heard i.utterance (w.session.step rules i).2 } := by
  intro e he
  refine or_iff_not_imp_left.2 fun hnotAside d' hd' hroom hmsgid => ?_
  rw [h.account] at hnotAside
  rcases mem_append.1 hd' with hd' | hd'
  · -- said before, by somebody who was there, and who is forgotten if they leave
    obtain ⟨d, hd, rfl⟩ := mem_map.1 hd'
    obtain ⟨hroom', hmsgid', hnick'⟩ := same d
    rw [hroom'] at hroom
    rw [hmsgid'] at hmsgid
    have hthere : d.gone = false ∧ cleanName d.nick = e.author := by
      rcases h.entries e he with he | haside | ⟨u, hu, hconversation, hauthor, hid⟩
      · obtain ⟨hthere, hnamed⟩ := (hl e he).resolve_left hnotAside d hd hroom hmsgid
        exact ⟨hthere, Said.named_of_settled hsettled hnamed⟩
      · exact absurd haside hnotAside
      · obtain ⟨u', hu', hu'id⟩ := h.shows e.msgid hid
        obtain rfl := Option.mem_unique hu hu'
        obtain ⟨hnick, hthere⟩ := (fresh_utterance hfresh hu).2 d hd
          (BareJid.text_inj.1 (hroom.trans hconversation)) (by rw [hmsgid, hu'id])
        exact ⟨hthere, by rw [hnick, hauthor]⟩
    refine ⟨?_, .inl (by rw [hnick', hthere.2])⟩
    by_contra hgone
    rw [Bool.not_eq_false] at hgone
    exact hnotAside (forgotten_of_gone hw.keyed hfresh h hfollow hd hthere.1 hgone e he hroom.symm
      hthere.2.symm)
  · -- said just now
    obtain ⟨u, hu, id, hid, rfl⟩ := mem_heard.1 hd'
    obtain ⟨u', hu', hu'id⟩ := h.shows id hid
    obtain rfl := Option.mem_unique hu hu'
    refine ⟨(fresh_utterance hfresh hu).1, .inl ?_⟩
    rcases h.entries e he with he | haside | ⟨u'', hu'', -, hauthor, -⟩
    · exact hw.same_speaker hsettled hfresh hu he hnotAside hroom.symm
        (hu'id.trans (congrArg some hmsgid))
    · exact absurd haside hnotAside
    · obtain rfl := Option.mem_unique hu hu''
      exact hauthor.symm

theorem follow_some_gone (room : BareJid) (nick new : String) :
    (d.follow room nick (some new)).gone = d.gone := by
  unfold Said.follow
  split <;> rfl

theorem Live.announce (hl : w.Live) (hsettled : w.session.isSettled) {r : Room}
    {nick new : String} {p : Presence} (hnew : p.item.bind (·.nick) = some new) :
    Live { session := (w.session.onRenameAway room r nick p).1
           said := w.said.map (·.follow room nick (some new)) } := by
  rw [Session.onRenameAway_of_some hnew]
  intro e he
  refine (hl e (Index.mem_forgetConversation.1 he).1).imp_right fun hlive d' hd' hroom hmsgid => ?_
  obtain ⟨d, hd, rfl⟩ := mem_map.1 hd'
  rw [Said.follow_room] at hroom
  rw [Said.follow_msgid] at hmsgid
  obtain ⟨hthere, hnamed⟩ := hlive d hd hroom hmsgid
  refine ⟨(follow_some_gone room nick new).trans hthere, ?_⟩
  exact Said.named_announced hsettled (AList.lookup_insert w.session.rooms)
    (AList.lookup_insert r.renames) hnamed

theorem Live.complete (hl : w.Live) (hw : w.Sound) (hr : w.session.rooms.lookup room = some r)
    (hold : r.renames.lookup nick = some old) (isSelf : Bool) (p : Presence) :
    Live { w with session := (w.session.onArrival room r nick isSelf p).1 } := by
  rw [Session.onArrival_renamed hold]
  intro e' he'
  obtain ⟨e, he, hmoved⟩ := Index.mem_renameAuthor.1 he'
  refine (hl e he).imp (hw.aside_completed hr hold hmoved) fun hlive d hd hroom hmsgid => ?_
  have hsame : e'.conversation = e.conversation ∧ e'.msgid = e.msgid := by
    rw [← hmoved]
    split <;> exact ⟨rfl, rfl⟩
  rw [hsame.1] at hroom
  rw [hsame.2] at hmsgid
  obtain ⟨hthere, hnamed⟩ := hlive d hd hroom hmsgid
  exact ⟨hthere, hw.named_completed hr hold rfl hmoved hd hroom hnamed⟩

theorem Live.step (hl : w.Live) (hw : w.Sound) (hplain : w.isPlain i)
    (hfresh : w.isFresh i) : (w.step rules i).1.Live := by
  have hturn : w.Turn i (w.session.step rules i) := turn_of_plain hw.keyed hplain
  change Live { session := (w.session.step rules i).1
                said := w.follow i ++ heard i.utterance (w.session.step rules i).2 }
  cases hturn with
  | hears settled h f same hfollow =>
    rw [hfollow]
    exact hl.hears hw settled hfresh h same hfollow
  | announces settled room r₀ hr nick new hapart p hnew hstep hquiet hfollow =>
    rw [hfollow, hstep, hquiet, heard_none, append_nil]
    exact hl.announce settled hnew
  | completes room r₀ hr nick old hold isSelf p hstep hquiet hfollow =>
    rw [hfollow, hstep, hquiet, heard_none, append_nil]
    exact hl.complete hw hr hold isSelf p
  | arrives room r₀ r' hr hrooms hjid hrenames haccount hindex hcalm hquiet hfollow =>
    rw [hfollow, hquiet, heard_none, append_nil]
    intro e he
    rw [haccount]
    exact (hl e (hindex ▸ he)).imp_right fun hlive d hd hroom hmsgid =>
      (hlive d hd hroom hmsgid).imp_right (named_arrived hr hrooms hrenames)
  | nothing hstep hfollow =>
    rw [hfollow, hstep, heard_of_calm Effects.calm_nil, append_nil]
    exact hl

theorem Live.spares (hl : w.Live) (hw : w.Sound) (hplain : w.isPlain i) :
    w.Spares rules i := by
  intro ev hev amended h d hd hgone hroom hmsgid
  obtain ⟨-, -, -, e, he, hconversation, -, heid, hnotAside⟩ := hw.amended hplain hev h
  obtain ⟨hthere, -⟩ := (hl e he).resolve_left hnotAside d hd (hroom.trans hconversation.symm)
    (hmsgid.trans heid.symm)
  rw [hgone] at hthere
  cases hthere

/-! ## Runs -/

/-- Where nobody can change in a room without being forgotten, what was said by somebody who has
left stays as it is, whoever has their nickname now. -/
theorem gone_unamended {account : BareJid} {roomNick idStem : String} {rooms : List BareJid}
    {inputs : List Input} (h : Run.Along (step rules)
      (fun w i => w.isPlain i = true ∧ w.isFresh i = true)
      (new account roomNick idStem rooms) inputs) :
    ∀ front i rest, inputs = front ++ i :: rest →
      Spares rules (Run.after (step rules) (new account roomNick idStem rooms) front) i := by
  rintro front i rest rfl
  have hstart : (new account roomNick idStem rooms).Live :=
    fun e he => absurd he Index.not_mem_empty
  obtain ⟨⟨hsound, hlive⟩, hi⟩ := h.before (I := fun w => w.Sound ∧ w.Live)
    ⟨sound_new account roomNick idStem rooms, hstart⟩
    fun w i hw hi => ⟨hw.1.step hi.1, hw.2.step hw.1 hi.1 hi.2⟩
  exact hlive.spares hsound hi.1

open BareJid (den)

def leaves (nick : String) : Input :=
  .presence { sender := some ⟨den, some nick⟩, type := .unavailable }

/-- Bob speaks and leaves; another Bob comes, says something and corrects both. -/
def anotherBob : List Input :=
  [.online, present "bob", present "alice" [.selfPresence], utters "bob" "m", leaves "bob",
    present "bob", utters "bob" "n", corrects "bob" "o" "n", corrects "bob" "p" "m"]

theorem gone_unamended_anotherBob :
    Run.Along (step .verbatim) (fun w i => w.isPlain i = true ∧ w.isFresh i = true) alice
      anotherBob ∧
    (Run.after (step .verbatim) alice (anotherBob.take 8)).Spares .verbatim
      (corrects "bob" "p" "m") ∧
    (Run.after (step .verbatim) alice (anotherBob.take 8)).said.map (fun d => (d.msgid, d.gone)) =
      [("m", true), ("n", false)] := by
  have halong :
      Run.Along (step .verbatim) (fun w i => w.isPlain i = true ∧ w.isFresh i = true) alice
      anotherBob := by
    decide +kernel
  exact ⟨halong, gone_unamended halong _ _ [] rfl, by decide +kernel⟩

/-- The connection is lost and the room joined again: whoever is called Bob there now corrects what
Bob said before. So does a Bob after the room gave the nickname up without saying for which
other. -/
theorem gone_amended :
    ¬(Run.after (step .verbatim) alice
      [.online, present "alice" [.selfPresence], utters "bob" "m", .online, present "bob",
        present "alice" [.selfPresence]]).Spares .verbatim (corrects "bob" "n" "m") ∧
    ¬(Run.after (step .verbatim) alice
      [.online, present "alice" [.selfPresence], utters "bob" "m",
        .presence
          { sender := some ⟨den, some "bob"⟩, type := .unavailable, statuses := [.newNick] },
        present "bob"]).Spares .verbatim (corrects "bob" "n" "m") := by
  decide +kernel

end Hearsay
end Ddirc.Xmpp
