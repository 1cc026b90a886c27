import Ddirc.Xmpp.Deed

/-! # Whose messages are remembered

What a step leaves in the index of what was said in a room, and which of it a step changes or takes
back: a step that moves nobody to another nickname `Hears` what is said, and nothing else. -/

namespace Ddirc.Xmpp
open List

namespace Effects
variable {send : List Outgoing}

/-- Nothing is shown that is said in a room, and nothing that was is changed or taken back. -/
def Calm (fx : Effects) : Prop := ∀ e ∈ fx.events, e.amends = none ∧ e.said = none

theorem calm_nil : Calm { send } := fun _ h => absurd h not_mem_nil

theorem calm_singleton (h : e.amends = none ∧ e.said = none) :
    Calm { events := [e], send } := fun _ he => mem_singleton.1 he ▸ h

theorem Calm.append {a b : Effects} (ha : a.Calm) (hb : b.Calm) : (a ++ b).Calm := fun e he =>
  (mem_append.1 he).elim (ha e) (hb e)

end Effects

namespace Session
variable {s : Session}
variable {l : Licence}

/-- What comes of an utterance: it is filed under its speaker's name, or it changes or takes back
something that is filed so. -/
structure Hears (s : Session) (u : Option Utterance) (r : Session × Effects) : Prop where
  account : r.1.account = s.account
  keyed : s.Keyed → r.1.Keyed
  renames : ∀ jid r', r.1.rooms.lookup jid = some r' → r'.renames = ∅ ∨
    ∃ r, s.rooms.lookup jid = some r ∧ r'.renames = r.renames
  entries : ∀ e ∈ r.1.index, e ∈ s.index ∨ e.Aside s.account ∨ ∃ u' ∈ u,
    e.conversation = u'.room.text ∧ e.author = cleanName u'.nick ∧
      e.msgid ∈ r.2.events.filterMap Event.said
  shows : ∀ id ∈ r.2.events.filterMap Event.said, ∃ u' ∈ u, u'.msgid = some id
  amends : ∀ ev ∈ r.2.events, ∀ c id, ev.amends = some (c, id) → ∃ u' ∈ u, u'.room.text = c ∧
    ∃ e ∈ s.index, e.conversation = c ∧ e.author = cleanName u'.nick ∧ e.msgid = id

namespace Hears

theorem refl (u : Option Utterance) : s.Hears u (s, {}) where
  account := rfl
  keyed h := h
  renames _ r hr := .inr ⟨r, hr, rfl⟩
  entries _ he := .inl he
  shows _ h := absurd h not_mem_nil
  amends _ h := absurd h not_mem_nil

theorem of_none (h : s.Hears none r) (u : Option Utterance) : s.Hears u r where
  account := h.account
  keyed := h.keyed
  renames := h.renames
  entries e he := (h.entries e he).imp_right (Or.imp_right fun ⟨_, hu, _⟩ => nomatch hu)
  shows id hid := nomatch (h.shows id hid).choose_spec.1
  amends ev hev c id hamends := nomatch (h.amends ev hev c id hamends).choose_spec.1

theorem of_rooms (h : s.Hears u r) (account : r'.1.account = r.1.account)
    (keyed : r.1.Keyed → r'.1.Keyed)
    (renames : ∀ jid room', r'.1.rooms.lookup jid = some room' → room'.renames = ∅ ∨
      ∃ room, r.1.rooms.lookup jid = some room ∧ room'.renames = room.renames)
    (index : ∀ e ∈ r'.1.index, e ∈ r.1.index) (events : r'.2.events = r.2.events) :
    s.Hears u r' where
  account := account.trans h.account
  keyed hs := keyed (h.keyed hs)
  renames jid room' hr' := by
    rcases renames jid room' hr' with hnone | ⟨room, hr, hsame⟩
    · exact .inl hnone
    · rw [hsame]
      exact h.renames jid room hr
  entries e he := events ▸ h.entries e (index e he)
  shows := events ▸ h.shows
  amends := events ▸ h.amends

theorem of_eq (h : s.Hears u r) (account : r'.1.account = r.1.account)
    (rooms : r'.1.rooms = r.1.rooms) (index : ∀ e ∈ r'.1.index, e ∈ r.1.index)
    (events : r'.2.events = r.2.events) : s.Hears u r' :=
  h.of_rooms account (fun hs jid room hr => hs jid room (rooms ▸ hr))
    (fun _ room hr => .inr ⟨room, rooms ▸ hr, rfl⟩) index events

theorem tell {ev : Event} {index : Index} {send : List Outgoing} (h : s.Hears u r)
    (hentries : ∀ e ∈ index, e ∈ r.1.index ∨ e.Aside s.account ∨ ∃ u' ∈ u,
      e.conversation = u'.room.text ∧ e.author = cleanName u'.nick ∧ ev.said = some e.msgid)
    (hsaid : ∀ id, ev.said = some id → ∃ u' ∈ u, u'.msgid = some id)
    (hamends : ∀ c id, ev.amends = some (c, id) → ∃ u' ∈ u, u'.room.text = c ∧
      ∃ e ∈ s.index, e.conversation = c ∧ e.author = cleanName u'.nick ∧ e.msgid = id) :
    s.Hears u ({ r.1 with index }, r.2 ++ { events := [ev], send }) where
  account := h.account
  keyed := h.keyed
  renames := h.renames
  entries e he := by
    rw [Effects.append_events, filterMap_append]
    rcases hentries e he with he | haside | ⟨u', hu, hroom, hauthor, hid⟩
    · refine (h.entries e he).imp_right (Or.imp_right ?_)
      rintro ⟨u', hu, hroom, hauthor, hid⟩
      exact ⟨u', hu, hroom, hauthor, mem_append_left _ hid⟩
    · exact .inr (.inl haside)
    · exact .inr (.inr ⟨u', hu, hroom, hauthor, mem_append_right _
        (mem_filterMap.2 ⟨ev, mem_singleton_self _, hid⟩)⟩)
  shows id hid := by
    rw [Effects.append_events, filterMap_append] at hid
    rcases mem_append.1 hid with hid | hid
    · exact h.shows id hid
    · obtain ⟨ev', hev, hid⟩ := mem_filterMap.1 hid
      exact hsaid id (mem_singleton.1 hev ▸ hid)
  amends ev' hev c id h' := by
    rcases mem_append.1 hev with hev | hev
    · exact h.amends ev' hev c id h'
    · exact hamends c id (mem_singleton.1 hev ▸ h')

end Hears

theorem Hears.perform (h : s.Hears l.utterance r) (hs : s.Keyed) (hmoves : l.moves = false)
    (hindex : l.index = s.index) (hd : r.1.Licensed l d) : s.Hears l.utterance (perform r d) := by
  cases d with
  | hold jid room =>
    refine h.of_rooms rfl (Does.one (.hold jid room) hd).keyed (fun jid' room' hr' => ?_)
      (fun _ he => he) rfl
    rcases Map.of_lookup_insert hr' with ⟨rfl, rfl⟩ | ⟨-, hr'⟩
    · exact hd.2.resolve_left (hmoves ▸ Bool.false_ne_true)
    · exact .inr ⟨room', hr', rfl⟩
  | drop jid =>
    exact h.of_rooms rfl (Does.one (l := l) (.drop jid) trivial).keyed
      (fun jid' room' hr' => .inr ⟨room', (Map.of_lookup_erase hr').2, rfl⟩) (fun _ he => he) rfl
  | forget index => exact h.of_eq rfl rfl hd rfl
  | rename => cases hmoves.symm.trans hd
  | utter m entry =>
    refine h.tell (fun e he => ?_) hd.1 (by rintro _ _ ⟨⟩)
    have hnew := hd.2 (h.keyed hs)
    rw [h.account] at hnew
    cases entry with
    | none => exact .inl he
    | some e₀ =>
      rcases Index.mem_record he with rfl | he
      · exact .inr (hnew e rfl)
      · exact .inl he
  | tell e =>
    refine h.tell (fun _ he => .inl he) (by simp [hd.1]) ?_
    exact hindex ▸ hd.2 (h.keyed hs)
  | ask | send => exact h.of_eq rfl rfl (fun _ he => he) (append_nil _)
  | _ => exact h.of_eq rfl rfl (fun _ he => he) rfl

theorem Does.hears (h : s.Does l r) (hs : s.Keyed) (hmoves : l.moves = false)
    (hindex : l.index = s.index) : s.Hears l.utterance r :=
  h.keeps (.refl _) fun _ _ hd hr => hr.perform hs hmoves hindex hd

/-- Who leaves is forgotten, and so is everyone if it is us. -/
theorem forgotten_onDeparture (raw : String) (isSelf : Bool) (p : Presence) :
    ∀ e ∈ (s.onDeparture jid r raw isSelf p).1.index, e.conversation = r.name →
      e.author ≠ cleanName raw := by
  unfold onDeparture
  split
  · intro e he hc
    exact absurd hc (Index.mem_forgetConversation.1 (Index.mem_forgetConversations.1 he).1).2
  · intro e he hc ha
    exact (Index.mem_forgetAuthor.1 (Index.mem_forgetConversation.1 he).1).2 ⟨hc, ha⟩

theorem onArrival_of_none (h : r.renames.lookup nick = none) (isSelf : Bool) (p : Presence) :
    (∃ r', (s.onArrival jid r nick isSelf p).1.rooms = s.rooms.insert jid r' ∧ r'.jid = r.jid ∧
      r'.renames = r.renames.erase nick) ∧
    (s.onArrival jid r nick isSelf p).1.account = s.account ∧
    (s.onArrival jid r nick isSelf p).1.index = s.index ∧
    (s.onArrival jid r nick isSelf p).2.Calm := by
  have hpair {a b : Event} (ha : a.amends = none ∧ a.said = none)
      (hb : b.amends = none ∧ b.said = none) : Effects.Calm { events := [a, b] } := fun e he => by
    rw [mem_cons, mem_singleton] at he
    rcases he with rfl | rfl
    · exact ha
    · exact hb
  cases hjoined : r.joined with
  | true =>
    rw [onArrival_news h hjoined]
    refine ⟨⟨_, rfl, rfl, rfl⟩, rfl, rfl, ?_⟩
    cases r.occupant nick with
    | none => exact hpair ⟨rfl, rfl⟩ ⟨rfl, rfl⟩
    | some previous =>
      dsimp only
      split
      · exact Effects.calm_singleton ⟨rfl, rfl⟩
      · exact Effects.calm_nil
  | false =>
    cases isSelf with
    | false =>
      rw [onArrival_listed h hjoined]
      exact ⟨⟨_, rfl, rfl, rfl⟩, rfl, rfl, Effects.calm_nil⟩
    | true =>
      rw [onArrival_joins h hjoined]
      dsimp only
      cases (r.welcome nick p).lastId with
      | none => exact ⟨⟨_, rfl, rfl, rfl⟩, rfl, rfl, hpair ⟨rfl, rfl⟩ ⟨rfl, rfl⟩⟩
      | some after =>
        exact ⟨⟨_, rfl, rfl, rfl⟩, rfl, rfl, (hpair ⟨rfl, rfl⟩ ⟨rfl, rfl⟩).append Effects.calm_nil⟩

end Session
end Ddirc.Xmpp
