import Ddirc.Mirror.Follows

/-! # Sessions follow every step

Each step is announced to those whose sessions it concerns, and what they make of it is the new
roll. The one step that a session may not follow is its own client's join, when it tracks too many
channels already (`Follows.step`). -/

namespace Ddirc.Server.Roster
open Irc Function Option
open Ddirc.Client (Session Roll View Sayable shownName maxMembers maxChannels)
variable {m : Message}

variable {r r' : Roster} {room room' : Room} {i j id : ClientId} {nick name : String} {s : Session}
  {shared : Finset String}

theorem Mirrors.isSelf_iff (M : Mirrors s r i stale) (H : r.Consistent)
    (hid : r.nickAt id = some nick) : s.isSelf nick ↔ i = id := by
  rw [M.plain.isSelf, decide_eq_true_eq]
  constructor
  · intro h
    exact H.nickAt_inj M.nick hid h.symm
  · rintro rfl
    obtain rfl := some.inj (M.nick.symm.trans hid)
    rfl

theorem Mirrors.isSelf_eq_false (M : Mirrors s r i stale) (H : r.Consistent)
    (hid : r.nickAt id = some nick) (hne : i ≠ id) : s.isSelf nick = false := by
  rw [← Bool.not_eq_true, M.isSelf_iff H hid]
  exact hne

/-- Whoever is in a channel is registered and has a nick. -/
theorem Consistent.member (H : r.Consistent) (S : r.Spoken) (hroom : r.channels key = some room)
    (hi : i ∈ room.members) :
    ∃ c nick, r.clients i = some c ∧ c.registered ∧ r.nickAt i = some nick := by
  obtain ⟨c, hc, hreg⟩ := H.registered hroom hi
  obtain ⟨nick, hnick⟩ := S.named hc hreg
  exact ⟨c, nick, hc, hreg, by simp [nickAt, hc, hnick]⟩

theorem Consistent.tell (H : r.Consistent) (whom : ClientId → Prop) [DecidablePred whom]
    (m : Message) : (r.tell whom m).Consistent := H.congr rfl rfl rfl

/-! ## Renames -/

theorem Mirrors.rename (M : Mirrors s r i none) (H : r.Consistent) (H' : r'.Consistent)
    (hold : r.nickAt id = some old) (hnick : r'.nickAt id = some nick) (hshort : Sayable nick)
    (hsame : ∀ j ≠ id, r'.nickAt j = r.nickAt j) (hch : r'.channels = r.channels) :
    Mirrors (s.onNickChange old nick).1 r' i none := by
  refine ⟨M.plain.congr Session.isupport_onNickChange, ?_, ?_, ?_⟩
  · intro key v hv
    rw [Session.view_onNickChange M.plain, map_eq_some_iff] at hv
    obtain ⟨w, hw, rfl⟩ := hv
    rw [View.rename]
    split
    · exact M.idle key w hw
    · exact M.idle key w hw
  · rw [Session.nick_onNickChange]
    split
    next hself =>
      obtain rfl := (M.isSelf_iff H hold).1 hself
      rw [hnick, hshort.short]
    next hself =>
      have hne : i ≠ id := fun he => hself ((M.isSelf_iff H hold).2 he)
      rw [hsame i hne, M.nick]
  · intro key room hroom hi hstale
    rw [hch] at hroom
    rw [Session.view_onNickChange M.plain]
    simp only [M.rooms hroom hi hstale, map_some, Option.some.injEq, hshort.short]
    change View.rename ⟨r.roll room, false⟩ (fold old) (fold nick) nick = _
    by_cases hmem : id ∈ room.members
    · rw [H.roll_rename H' hmem hold hnick hsame (b := false)]
      simp only [View.rename, H.roll_of_mem hmem hold]
    · simp only [View.rename, H.roll_eq_none hold hmem]
      refine congrArg (View.mk · false) (H.roll_congr H' fun j hj => hsame j ?_).symm
      rintro rfl
      exact hmem hj

/-- Whoever shares a channel with a client hears what is said to its peers. -/
theorem Consistent.sharesOne (H : r.Consistent) (hid : r.clients id = some client)
    (hroom : r.channels key = some room) (hmem : id ∈ room.members) (hi : i ∈ room.members) :
    r.sharesOne client.channels i :=
  ⟨key, (H.channels_iff hid).2 ⟨room, hroom, hmem⟩, by simp [hroom, hi]⟩

theorem Consistent.registered_of_sharesOne (H : r.Consistent) (h : r.sharesOne shared i)
    (hc : r.clients i = some c) : c.registered := by
  obtain ⟨key, -, h⟩ := h
  cases hroom : r.channels key with
  | none => simp [hroom] at h
  | some room =>
    exact H.registered_of_mem hroom (by simpa [hroom] using h) hc

theorem Follows.rename [LineReader] (F : Follows start r) (H : r.Consistent) (hshort : Sayable nick)
    (hid : r.clients id = some client) (hreg : client.registered)
    (hold : client.nick = some old)
    (hfree : ∀ holder, r.nicks (fold nick) = some holder → holder = id) :
    Follows start ((r.claim id nick).tell (fun i => i = id ∨ r.sharesOne client.channels i)
      { source := some (.nickname old user host), command := .nick nick }) := by
  have H' := (H.claim hid hfree).tell (fun i => i = id ∨ r.sharesOne client.channels i)
    { source := some (.nickname old user host), command := .nick nick }
  have hat : r.nickAt id = some old := by simp [nickAt, hid, hold]
  have hsame (j) (hj : j ≠ id) : (r.claim id nick).nickAt j = r.nickAt j := by
    rw [nickAt_claim hid, if_neg hj]
  have hown : (r.claim id nick).nickAt id = some nick := by rw [nickAt_claim hid, if_pos rfl]
  refine F.heard (fun i => i = id ∨ r.sharesOne client.channels i)
    (fun s => (s.onNickChange old nick).1) (fun i c hc => ?_)
    (fun _ _ h => registered_of_modifyClient h fun _ => rfl) ?_ ?_ ?_
  · refine (sessionFrom_tell (r := r.claim id nick) _ _ hc).trans ?_
    rw [Message.reread_cooked (by simp)]
    rfl
  · rintro i c (rfl | hshares) hc
    · exact .inl (some.inj (hid.symm.trans hc) ▸ hreg)
    · exact .inl (H.registered_of_sharesOne hshares hc)
  · intro i c s _ _ _ M
    exact M.rename H H' hat hown hshort hsame rfl
  · intro i c c' s hi _ _ _ M
    obtain ⟨hne, hshares⟩ := not_or.1 hi
    refine M.congr (hsame i hne) fun key room hroom hmem => ⟨hroom, ?_⟩
    refine H.roll_congr H' fun j hj => hsame j ?_
    rintro rfl
    exact hshares (H.sharesOne hid hroom hj hmem)

/-! ## One channel changes -/

/-- A session and a roster that change at one channel, and agree there afterwards. -/
theorem Mirrors.update (M : Mirrors s r i stale) (hview : s'.view = update s.view key shown)
    (hown : s'.nick = s.nick) (hsupport : s'.isupport = s.isupport)
    (hidle : ∀ v, shown = some v → v.busy = false) (hn : r'.nickAt i = r.nickAt i)
    (hroom : ∀ room, r'.channels key = some room → i ∈ room.members →
      shown = some ⟨r'.roll room, false⟩)
    (hrest : ∀ key' ≠ key, ∀ room, r'.channels key' = some room → i ∈ room.members →
      r.channels key' = some room ∧ r'.roll room = r.roll room)
    (hstale : ∀ key', stale = some key' → key' = key) : Mirrors s' r' i none := by
  refine ⟨M.plain.congr hsupport, ?_, by rw [hn, hown, M.nick], ?_⟩
  · intro key' v hv
    rw [hview, update_apply] at hv
    split at hv
    · exact hidle v hv
    · exact M.idle key' v hv
  · intro key' room' hroom' hi _
    rw [hview, update_apply]
    split
    next hk =>
      subst hk
      exact hroom room' hroom' hi
    next hk =>
      obtain ⟨hold, hroll⟩ := hrest key' hk room' hroom' hi
      rw [hroll]
      exact M.rooms hold hi fun h => hk (hstale key' h.symm)

/-- A channel that someone leaves, as its members see it. -/
theorem Mirrors.leave (M : Mirrors s r i none) (H : r.Consistent) (H' : r'.Consistent)
    (hid : r.nickAt id = some nick) (hn : ∀ j, r'.nickAt j = r.nickAt j)
    (hroom : r.channels (fold name) = some room) (hi : i ∈ room.members)
    (hch : r'.channels = Function.update r.channels (fold name)
      (((r.channels (fold name)).map (·.without id)).filter (·.members ≠ ∅))) :
    Mirrors (s.onPart name nick).1 r' i none := by
  have hleft {room'} (h : r'.channels (fold name) = some room') : room' = room.without id := by
    rw [hch, update_self] at h
    obtain ⟨whole, hw, rfl, -⟩ := filter_without.1 h
    rw [some.inj (hroom.symm.trans hw)]
  have hrest (key') (hk : key' ≠ fold name) (room') (h : r'.channels key' = some room')
      (_ : i ∈ room'.members) : r.channels key' = some room' ∧ r'.roll room' = r.roll room' := by
    rw [hch, update_of_ne hk] at h
    exact ⟨h, H.roll_congr H' fun j _ => hn j⟩
  by_cases hself : i = id
  · subst hself
    refine M.update (Session.view_onPart_self M.plain ((M.isSelf_iff H hid).2 rfl))
      Session.nick_onPart Session.isupport_onPart (by simp) (hn i) ?_ hrest (by simp)
    intro room' hroom' hi'
    rw [hleft hroom'] at hi'
    exact absurd hi' (by simp [Room.without])
  · have hroll : r'.roll (room.without id) = Function.update (r.roll room) (fold nick) none :=
      H.roll_without H' hid (fun j _ => hn j) fun n h => by
        rw [hn, hid] at h
        exact (some.inj h).symm
    have hseen : (s.view (fold name)).map (·.set (fold nick) none) =
        some ⟨r'.roll (room.without id), false⟩ := by
      rw [M.rooms hroom hi (by simp), hroll]
      rfl
    refine M.update (Session.view_onPart M.plain (M.isSelf_eq_false H hid hself))
      Session.nick_onPart Session.isupport_onPart ?_ (hn i) ?_ hrest (by simp)
    · intro v hv
      obtain rfl := some.inj (hv.symm.trans hseen)
      rfl
    · intro room' hroom' _
      rw [hleft hroom']
      exact hseen

theorem Follows.leave [LineReader] (F : Follows start r) (H : r.Consistent) (S : r.Spoken)
    (hroom : r.channels key = some room) (hid : id ∈ room.members)
    (hm : ∀ s : Session, s.receive m.reread = (s.onPart room.name (r.nickOf id)).1) :
    Follows start ((r.tellMembers room m).remove key id) := by
  obtain ⟨c, nick, hc, hreg, hnick⟩ := H.member S hroom hid
  have H' : ((r.tellMembers room m).remove key id).Consistent := (H.tell _ m).remove
  have hkey : fold room.name = key := H.filed hroom
  have hn (j) : ((r.tellMembers room m).remove key id).nickAt j = r.nickAt j :=
    nickAt_modifyClient (r := r) fun _ => rfl
  refine F.heard (· ∈ room.members) (·.receive m.reread) ?_
    (fun _ _ h => registered_of_modifyClient h fun _ => rfl)
    (fun i c hi hc => .inl (H.registered_of_mem hroom hi hc)) ?_ ?_
  · intro i c' hc'
    obtain ⟨c, hc, -⟩ := registered_of_modifyClient hc' fun _ => rfl
    exact sessionFrom_tell (· ∈ room.members) m hc
  · intro i _ s hi _ _ M
    rw [hm, nickOf_of_nickAt hnick]
    exact M.leave H H' hnick hn (hkey ▸ hroom) hi (hkey ▸ rfl)
  · intro i _ _ s hi _ _ _ M
    refine M.congr (hn i) fun key' room' hroom' hi' => ?_
    simp only [Roster.remove, update_apply] at hroom'
    split at hroom'
    · obtain ⟨whole, hw, rfl, -⟩ := filter_without.1 hroom'
      obtain rfl := some.inj (hroom.symm.trans hw)
      exact absurd (Finset.mem_of_mem_erase hi') hi
    · exact ⟨hroom', H.roll_congr H' fun j _ => hn j⟩

theorem receive_mode [LineReader] (h : isChannelName name) (give : Bool)
    (hm : m.command = .raw "MODE" [name, if give then "+o" else "-o", nick]) :
    s.receive m.reread =
      (s.onModes name [if give then .plus 'o' (some nick) else .minus 'o' (some nick)]).1 := by
  simp [Session.receive, Message.reread, hm, LineReader.reread_mode h]

theorem Follows.op [LineReader] (F : Follows start r) (H : r.Consistent) (S : r.Spoken)
    (hroom : r.channels key = some room) (hid : id ∈ room.members) (give : Bool)
    (hops : operators = if give then insert id room.operators else room.operators.erase id)
    (hsub : operators ⊆ room.members)
    (hm : m.command = .raw "MODE" [room.name, if give then "+o" else "-o", r.nickOf id]) :
    Follows start ((r.setOperators key operators).tellMembers room m) := by
  obtain ⟨c, nick, hc, hreg, hnick⟩ := H.member S hroom hid
  have H' : ((r.setOperators key operators).tellMembers room m).Consistent := by
    refine (H.setOperators fun room' hroom' => ?_).tell _ m
    rwa [← some.inj (hroom.symm.trans hroom')]
  have hkey : fold room.name = key := H.filed hroom
  have hnew {key' room'}
      (h : ((r.setOperators key operators).tellMembers room m).channels key' = some room') :
      (key' = key ∧ room' = { room with operators }) ∨
      (key' ≠ key ∧ r.channels key' = some room') := by
    simp only [tellMembers, Roster.tell, setOperators, update_apply] at h
    split at h
    next hk =>
      rw [hroom] at h
      exact .inl ⟨hk, (some.inj h).symm⟩
    next hk => exact .inr ⟨hk, h⟩
  refine F.heard (· ∈ room.members) (·.receive m.reread) (fun i c hc => sessionFrom_tell _ _ hc)
    (fun i c hc => ⟨c, hc, rfl⟩) (fun i c hi hc => .inl (H.registered_of_mem hroom hi hc)) ?_ ?_
  · intro i _ s hi _ _ M
    rw [nickOf_of_nickAt hnick] at hm
    rw [receive_mode (S.hash hroom) give hm]
    have hview : (s.onModes room.name
        [if give then .plus 'o' (some nick) else .minus 'o' (some nick)]).1.view =
          Function.update s.view key ((s.view key).map (·.mark (fold nick) give)) := by
      rw [← hkey]
      exact Session.view_onModes M.plain give
    rw [M.rooms hroom hi (by simp)] at hview
    refine M.update hview Session.nick_onModes Session.isupport_onModes ?_ rfl ?_ ?_ (by simp)
    · rintro v ⟨⟩
      rfl
    · intro room' hroom' _
      obtain ⟨-, rfl⟩ := (hnew hroom').resolve_right fun h => h.1 rfl
      have hroll :
          ((r.setOperators key operators).tellMembers room m).roll { room with operators } =
          (View.mark ⟨r.roll room, false⟩ (fold nick) give).roll :=
        H.roll_mark H' hid hnick (fun j => rfl) give rfl hops
      rw [hroll]
      rfl
    · intro key' hk room' hroom' _
      obtain ⟨-, hold⟩ := (hnew hroom').resolve_left fun h => hk h.1
      exact ⟨hold, H.roll_congr H' fun j _ => rfl⟩
  · intro i _ _ s hi _ _ _ M
    refine M.congr rfl fun key' room' hroom' hi' => ?_
    rcases hnew hroom' with ⟨-, rfl⟩ | ⟨-, hold⟩
    · exact absurd hi' hi
    · exact ⟨hold, H.roll_congr H' fun j _ => rfl⟩

/-! ## Quitting -/

theorem Mirrors.quit (M : Mirrors s r i none) (H : r.Consistent) (H' : r'.Consistent)
    (hid : r.nickAt id = some nick) (hne : i ≠ id) (hn : ∀ j ≠ id, r'.nickAt j = r.nickAt j)
    (hgone : r'.nickAt id = none) (hch : ∀ key left, r'.channels key = some left →
      ∃ whole, r.channels key = some whole ∧ whole.without id = left) :
    Mirrors (s.onQuit nick).1 r' i none := by
  have hview := Session.view_onQuit M.plain (M.isSelf_eq_false H hid hne)
  refine ⟨M.plain.congr Session.isupport_onQuit, ?_, ?_, ?_⟩
  · intro key v hv
    rw [hview, map_eq_some_iff] at hv
    obtain ⟨w, hw, rfl⟩ := hv
    exact (M.idle key w hw :)
  · rw [hn i hne, Session.nick_onQuit, M.nick]
  · intro key left hleft hi _
    obtain ⟨whole, hwhole, rfl⟩ := hch key left hleft
    simp only [hview]
    rw [M.rooms hwhole (Finset.mem_of_mem_erase hi) (by simp),
      H.roll_without H' hid hn (by simp [hgone])]
    rfl

theorem Follows.quit [LineReader] (F : Follows start r) (H : r.Consistent) (S : r.Spoken)
    (hid : r.clients id = some client)
    (hm : ∀ s : Session, s.receive m.reread = (s.onQuit (client.nick.getD "*")).1) :
    Follows start
      ((r.drop id client).tell (fun i => i ≠ id ∧ r.sharesOne client.channels i) m) := by
  have H' := (H.drop hid).tell (fun i => i ≠ id ∧ r.sharesOne client.channels i) m
  have hcl {i c} (h : (r.drop id client).clients i = some c) : i ≠ id ∧ r.clients i = some c := by
    simp only [Roster.drop, update_apply] at h
    split at h
    · cases h
    next hi => exact ⟨hi, h⟩
  have hn (j) (hj : j ≠ id) : (r.drop id client).nickAt j = r.nickAt j := by
    simp [nickAt, Roster.drop, hj]
  have hgone : (r.drop id client).nickAt id = none := by simp [nickAt, Roster.drop]
  refine F.heard (fun i => i ≠ id ∧ r.sharesOne client.channels i) (·.receive m.reread)
    (fun i c hc => sessionFrom_tell _ m hc) (fun i c hc => ⟨c, (hcl hc).2, rfl⟩)
    (fun i c hi hc => .inl (H.registered_of_sharesOne hi.2 hc)) ?_ ?_
  · intro i _ s hi _ _ M
    obtain ⟨nick, hnick⟩ : ∃ nick, client.nick = some nick := by
      -- whoever has a channel to share is registered
      obtain ⟨key, hkey, -⟩ := hi.2
      obtain ⟨room, hroom, hmem⟩ := (H.channels_iff hid).1 hkey
      exact S.named hid (H.registered_of_mem hroom hmem hid)
    rw [hm]
    refine M.quit H H' (by simp [nickAt, hid, hnick]) hi.1 hn hgone fun key left hleft => ?_
    obtain ⟨whole, hw, rfl, -⟩ := (H.drop_channels hid).1 hleft
    exact ⟨whole, hw, rfl⟩
  · intro i _ c' s hi _ _ hc' M
    obtain ⟨hne, -⟩ := hcl hc'
    refine M.congr (hn i hne) fun key left hleft hmem => ?_
    obtain ⟨whole, hw, rfl, -⟩ := (H.drop_channels hid).1 hleft
    have hnot : id ∉ whole.members := fun h =>
      hi ⟨hne, H.sharesOne hid hw h (Finset.mem_of_mem_erase hmem)⟩
    have hwhole : whole.without id = whole := by
      have hop : id ∉ whole.operators := fun h => hnot (H.operators_subset hw h)
      simp [Room.without, Finset.erase_eq_of_notMem hnot, Finset.erase_eq_of_notMem hop]
    rw [hwhole]
    refine ⟨hw, H.roll_congr H' fun j hj => hn j ?_⟩
    rintro rfl
    exact hnot hj

/-! ## Topics -/

theorem Follows.topic [LineReader] (F : Follows start r) (whom : ClientId → Prop)
    [DecidablePred whom]
    (hm : isTopic m.command) : Follows start (r.tell whom m) := by
  refine F.heard whom (·.receive m.reread) (fun i c hc => sessionFrom_tell whom m hc)
    (fun i c hc => ⟨c, hc, rfl⟩) ?_ ?_ ?_
  · intro i c _ _
    rcases receive_isTopic (s := Session.init start) hm with h | ⟨channel, topic, h⟩
    · exact .inr h
    · exact .inr (h.trans rfl)
  · intro i _ s _ _ _ M
    exact (M.topic hm).congr rfl fun key room hroom _ => ⟨hroom, rfl⟩
  · intro i _ _ s _ _ _ _ M
    exact M.congr rfl fun key room hroom _ => ⟨hroom, rfl⟩

/-! ## Names -/

/-- The names of a channel that is tracked, or that there is room for, are what is shown of it. -/
theorem Mirrors.names (M : Mirrors s r i (some key)) (H : r.Consistent) (S : r.Spoken)
    (hroom : r.channels key = some room) (htracked : key ∈ s.tracked ∨ s.tracked.card < maxChannels)
    (hcard : i ∈ room.members → room.members.card ≤ maxMembers) :
    Mirrors (listed s room.name (r.names room)) r i none := by
  have hkey : fold room.name = key := H.filed hroom
  obtain ⟨l, hl, hsay, hnodup, hlen, hroll⟩ := H.names_eq fun j (_ : j ∈ room.members) n hn =>
    S.sayable hn
  have hrest (key') (_ : key' ≠ key) (room') (h : r.channels key' = some room')
      (_ : i ∈ room'.members) : r.channels key' = some room' ∧ r.roll room' = r.roll room' :=
    ⟨h, rfl⟩
  rw [listed, hl]
  cases hempty : (l.map fun p => shownName p.1 p.2).isEmpty with
  | true =>
    have hnil : l = [] := by simpa using hempty
    have hview : (s.onEndOfNames room.name).view =
        Function.update s.view key ((s.view key).map ({ · with busy := false })) := by
      rw [Session.view_onEndOfNames M.plain, ← hkey]
      rfl
    refine M.update hview rfl rfl ?_ rfl ?_ hrest (by simp)
    · intro v hv
      obtain ⟨w, -, rfl⟩ := map_eq_some_iff.1 hv
      rfl
    · -- whoever is in a channel is on the list
      intro room' hroom' hi
      obtain rfl := some.inj (hroom.symm.trans hroom')
      have hv := (hroll _ _).1 (H.roll_of_mem hi M.nick)
      simp [hnil] at hv
  | false =>
    have hview : ((s.onNamesReply room.name (Str.join " "
        (l.map fun p => shownName p.1 p.2))).onEndOfNames room.name).view =
          Function.update s.view key
            (some ⟨s.namesRoll (Str.join " " (l.map fun p => shownName p.1 p.2)), false⟩) := by
      have hplain : (s.onNamesReply room.name (Str.join " "
          (l.map fun p => shownName p.1 p.2))).Plain := M.plain.congr Session.isupport_onNamesReply
      have hkey' : Str.toAsciiLowercase room.name = key := hkey
      rw [Session.view_onEndOfNames hplain,
        Session.view_onNamesReply M.plain M.idle (hkey'.symm ▸ htracked), hkey', update_self,
        update_idem]
      rfl
    refine M.update hview Session.nick_onNamesReply Session.isupport_onNamesReply ?_ rfl ?_ hrest
      (by simp)
    · rintro v ⟨⟩
      rfl
    · intro room' hroom' hi
      obtain rfl := some.inj (hroom.symm.trans hroom')
      refine congrArg some (congrArg (View.mk · false) (funext fun k => ?_))
      ext v
      rw [Session.namesRoll_eq_some M.plain hsay hnodup (hlen.trans (hcard hi)), hroll]
      rfl

theorem listed_view (name : String) (hs : s.Plain) (hidle : s.Idle)
    (h : l = [] ∨ fold name ∉ s.tracked ∧ maxChannels ≤ s.tracked.card) :
    (listed s name l).view = s.view ∧ (listed s name l).nick = s.nick ∧
      (listed s name l).isupport = s.isupport := by
  have hsame : listed s name l = s.onEndOfNames name := by
    rw [listed]
    rcases h with rfl | ⟨hnew, hfull⟩
    · rfl
    · rw [Session.onNamesReply_of_full hs hnew hfull, ite_self]
  rw [hsame]
  refine ⟨?_, rfl, rfl⟩
  rw [Session.view_onEndOfNames hs, update_eq_self_iff]
  cases hv : s.view (Str.toAsciiLowercase name) with
  | none => rfl
  | some v =>
    have hbusy := hidle _ v hv
    obtain ⟨roll, busy⟩ := v
    obtain rfl : busy = false := hbusy
    rfl

theorem view_listed_of_ne (hs : s.Plain) (hne : key ≠ fold name) :
    (listed s name l).view key = s.view key := by
  have hend {t : Session} (ht : t.Plain) : (t.onEndOfNames name).view key = t.view key := by
    rw [Session.view_onEndOfNames ht]
    exact update_of_ne hne ..
  rw [listed]
  split
  · exact hend hs
  · rw [hend (hs.congr Session.isupport_onNamesReply), Session.view_onNamesReply_of_ne hs hne]

/-- Names of a channel that there is room for make the session track it. -/
theorem tracked_listed (name : String) (hs : s.Plain) (hidle : s.Idle)
    (hroom : s.tracked.card < maxChannels)
    (hl : l ≠ []) : (listed s name l).Plain ∧ (listed s name l).Idle ∧
      (listed s name l).tracked = insert (fold name) s.tracked := by
  have hplain : (s.onNamesReply name (Str.join " " l)).Plain :=
    hs.congr Session.isupport_onNamesReply
  have hlisted : listed s name l = (s.onNamesReply name (Str.join " " l)).onEndOfNames name := by
    rw [listed, if_neg (by simpa using hl)]
  have hview : (listed s name l).view = Function.update s.view (fold name)
      (some ⟨s.namesRoll (Str.join " " l), false⟩) := by
    rw [hlisted, Session.view_onEndOfNames hplain, Session.view_onNamesReply hs hidle (.inr hroom),
      update_self, update_idem]
    rfl
  refine ⟨hlisted ▸ hplain.congr rfl, ?_, ?_⟩
  · intro key v hv
    rw [hview, update_apply] at hv
    split at hv
    · obtain rfl := some.inj hv
      rfl
    · exact hidle key v hv
  · ext key
    rw [Session.mem_tracked, Finset.mem_insert, Session.mem_tracked, hview, update_apply]
    split
    next hk => simp [hk]
    next hk => simp [hk]

theorem Mirrors.list (M : Mirrors s r i none) (H : r.Consistent) (S : r.Spoken)
    (hcard : ∀ key room, r.channels key = some room → i ∈ room.members →
      room.members.card ≤ maxMembers) :
    Mirrors (match r.channels (fold name) with
      | some room => listed s room.name (r.names room)
      | none => listed s name []) r i none := by
  cases hroom : r.channels (fold name) with
  | none =>
    obtain ⟨hview, hown, hi⟩ := listed_view name M.plain M.idle (.inl rfl)
    exact M.of_view hview hown hi
  | some room =>
    have hkey : fold room.name = fold name := H.filed hroom
    by_cases htracked : fold name ∈ s.tracked ∨ s.tracked.card < maxChannels
    · exact (M.weaken _).names H S hroom htracked (hcard _ room hroom)
    · obtain ⟨hnew, hfull⟩ := not_or.1 htracked
      rw [← hkey] at hnew
      obtain ⟨hview, hown, hi⟩ := listed_view room.name (l := r.names room) M.plain M.idle
        (.inr ⟨hnew, not_lt.1 hfull⟩)
      exact M.of_view hview hown hi

theorem sessionFrom_list [LineReader] (hc : r.clients i = some c) :
    sessionFrom start ((r.list id name).told i) =
      if i = id then (match r.channels (fold name) with
        | some room => listed (sessionFrom start (r.told i)) room.name (r.names room)
        | none => listed (sessionFrom start (r.told i)) name [])
      else sessionFrom start (r.told i) := by
  unfold list
  cases r.channels (fold name) with
  | none => exact sessionFrom_listNames hc
  | some room => exact sessionFrom_listNames hc

theorem Follows.list [LineReader] (F : Follows start r) (H : r.Consistent) (S : r.Spoken)
    (hid : r.isRegistered id) (hcard : ∀ key room, r.channels key = some room →
      id ∈ room.members → room.members.card ≤ maxMembers) : Follows start (r.list id name) := by
  have hlist (i s) (M : Mirrors s r i none) : Mirrors s (r.list id name) i none := by
    refine M.congr (by rw [nickAt, list_clients, nickAt]) fun key room hroom _ => ?_
    rw [list_channels] at hroom
    exact ⟨hroom, H.roll_congr H.list fun j _ => by rw [nickAt, list_clients, nickAt]⟩
  refine F.heard (· = id) (fun s => match r.channels (fold name) with
      | some room => listed s room.name (r.names room)
      | none => listed s name []) (fun i c hc => sessionFrom_list (list_clients r ▸ hc))
    (fun i c hc => ⟨c, list_clients r ▸ hc, rfl⟩) ?_ ?_ fun i _ _ s _ _ _ _ M => hlist i s M
  · rintro i c rfl hc
    exact .inl (by simpa [isRegistered, hc] using hid)
  · rintro i c s rfl _ _ M
    exact hlist i _ (M.list H S hcard)

end Ddirc.Server.Roster
