import Ddirc.Mirror.Step

/-! # Joins

Whoever is in a channel hears of a join and adds the newcomer. The newcomer's own session tracks the
channel, if it is not tracked already and there is room for one more, and fills it from the
names. -/

namespace Ddirc.Server.Roster
open Irc Function Option
open Ddirc.Client (Session Roll View Sayable shownName maxMembers maxChannels)

variable {r r' : Roster} {room room' : Room} {i j id : ClientId} {s : Session}
  {nick name user start : String} {topic : Option String}

theorem nickAt_place : (r.place id name).nickAt j = r.nickAt j :=
  nickAt_modifyClient (r := r) fun _ => rfl

/-- A session files no more members than the channel it mirrors has. -/
theorem Consistent.length_le (H : r.Consistent) (h : Ddirc.Client.rollOf members = r.roll room) :
    members.entries.length ≤ room.members.card := by
  refine le_trans (Map.length_le_card (s := room.members.image fun j => fold (r.nickOf j)) ?_)
    Finset.card_image_le
  intro k hk
  have hsome : (r.roll room k).isSome := by
    rw [← h, Ddirc.Client.rollOf, isSome_map]
    exact hk
  obtain ⟨v, hv⟩ := isSome_iff_exists.1 hsome
  obtain ⟨j, hj, hn, hfold, -⟩ := H.roll_eq_some.1 hv
  exact Finset.mem_image.2 ⟨j, hj, by rw [nickOf_of_nickAt hn, hfold]⟩

theorem Mirrors.join (M : Mirrors s r i none) (H : r.Consistent) (H' : (r.place id name).Consistent)
    (hsay : Sayable nick) (hid : r.nickAt id = some nick)
    (hroom : r.channels (fold name) = some room) (hi : i ∈ room.members) (hnot : id ∉ room.members)
    (hcard : (r.entered id name).members.card ≤ maxMembers) :
    Mirrors (s.onJoin room.name nick).1 (r.place id name) i none := by
  have hkey : Str.toAsciiLowercase room.name = fold name := H.filed hroom
  have hentered : r.entered id name = { room with members := insert id room.members } := by
    simp [entered, hroom]
  have hroll : (r.place id name).roll (r.entered id name) =
      Function.update (r.roll room) (fold nick) (some (nick, false)) := by
    refine H.roll_insert H' (by rw [nickAt_place, hid]) (fun j => nickAt_place) ?_ ?_
      fun h => hnot (H.operators_subset hroom h)
    · rw [hentered]
    · rw [hentered]
  have hseen := M.rooms hroom hi (by simp)
  obtain ⟨c, hc, hcview⟩ := map_eq_some_iff.1 hseen
  have hlen : c.members.entries.length < maxMembers := by
    have hle : c.members.entries.length ≤ room.members.card :=
      H.length_le (congrArg View.roll hcview)
    rw [hentered, Finset.card_insert_of_notMem hnot] at hcard
    omega
  have hview : (s.onJoin room.name nick).1.view = _ :=
    Session.view_onJoin M.plain (hkey.symm ▸ hc) hlen
  rw [hkey, hseen, hsay.short] at hview
  refine M.update hview Session.nick_onJoin Session.isupport_onJoin ?_ nickAt_place ?_ ?_ (by simp)
  · rintro v ⟨⟩
    rfl
  · intro room' hroom' _
    obtain ⟨-, rfl⟩ := (channels_place hroom').resolve_right fun h => h.1 rfl
    rw [hroll]
    rfl
  · intro key' hk room' hroom' _
    obtain ⟨-, hold⟩ := (channels_place hroom').resolve_left fun h => hk h.1
    exact ⟨hold, H.roll_congr H' fun j _ => nickAt_place⟩

/-- Our own join leaves the channel tracked, and shows nothing of it yet. -/
theorem Mirrors.join_self (M : Mirrors s r id none) (H : r.Consistent)
    (H' : (r.place id name).Consistent) (hid : r.nickAt id = some nick)
    (hkey : Str.toAsciiLowercase shown = fold name)
    (hroom : fold name ∈ s.tracked ∨ s.tracked.card < maxChannels) :
    Mirrors (s.onJoin shown nick).1 (r.place id name) id (some (fold name)) ∧
      fold name ∈ (s.onJoin shown nick).1.tracked := by
  obtain ⟨htracked, hrest⟩ := Session.view_onJoin_self M.plain ((M.isSelf_iff H hid).2 rfl)
    (hkey.symm ▸ hroom)
  rw [hkey] at htracked hrest
  refine ⟨⟨M.plain.congr Session.isupport_onJoin, M.idle.onJoin, ?_, ?_⟩,
    Session.mem_tracked.2 htracked⟩
  · rw [nickAt_place, Session.nick_onJoin, M.nick]
  · intro key room hroom hi hstale
    have hk : key ≠ fold name := fun h => hstale (congrArg some h)
    obtain ⟨-, hold⟩ := (channels_place hroom).resolve_left fun h => hk h.1
    rw [hrest key hk, M.rooms hold hi (by simp)]
    refine congrArg some (congrArg (View.mk · false) ?_)
    exact (H.roll_congr H' fun j _ => nickAt_place).symm

theorem told_showTopic (hne : i ≠ id) : (r.showTopic id name topic).told i = r.told i := by
  cases topic with
  | none => rfl
  | some text => simp [showTopic, numeric, Roster.tell, hne]

theorem sessionFrom_showTopic [LineReader] (start name : String) (topic : Option String)
    (hc : r.clients id = some c) :
    (sessionFrom start ((r.showTopic id name topic).told id)).view =
        (sessionFrom start (r.told id)).view ∧
      (sessionFrom start ((r.showTopic id name topic).told id)).nick =
        (sessionFrom start (r.told id)).nick ∧
      (sessionFrom start ((r.showTopic id name topic).told id)).isupport =
        (sessionFrom start (r.told id)).isupport := by
  cases topic with
  | none => exact ⟨rfl, rfl, rfl⟩
  | some text =>
    have htold : sessionFrom start ((r.showTopic id name (some text)).told id) = _ :=
      (sessionFrom_tell (· = id) _ hc).trans (if_pos rfl)
    rw [htold]
    exact view_receive_isTopic (rfl : Response.rplTopic = .rplTopic)

@[simp] theorem clients_showTopic : (r.showTopic id name topic).clients = r.clients := by
  cases topic <;> rfl

def joined (r : Roster) (id : ClientId) (name user : String) : Roster :=
  (r.place id name).tellMembers (r.entered id name) {
    source := some (.nickname ((r.place id name).nickOf id) user host)
    command := .join (r.entered id name).name none none }

theorem clients_joined (id : ClientId) (name user : String) (hc : r.clients i = some c) :
    ∃ c', (r.joined id name user).clients i = some c' := by
  simp only [joined, tellMembers, Roster.tell, place, modifyClient, update_apply]
  split
  next hi => exact ⟨_, by rw [← hi, hc]; rfl⟩
  · exact ⟨c, hc⟩

theorem sessionFrom_joined [LineReader] (id : ClientId) (name user start : String)
    (hc : r.clients i = some c) :
    sessionFrom start ((r.joined id name user).told i) =
      if i ∈ (r.entered id name).members then
        ((sessionFrom start (r.told i)).onJoin (r.entered id name).name (r.nickOf id)).1
      else sessionFrom start (r.told i) := by
  obtain ⟨c', hc'⟩ : ∃ c', (r.place id name).clients i = some c' := clients_joined id name user hc
  have hnick : (r.place id name).nickOf id = r.nickOf id := by
    have h : (r.place id name).nickAt id = r.nickAt id := nickAt_place
    exact congrArg (Option.getD · "*") h
  refine (sessionFrom_tell (· ∈ (r.entered id name).members) _ hc').trans ?_
  rw [hnick, Message.reread_cooked (by simp)]
  rfl

theorem sessionFrom_enter [LineReader] (H : r.Consistent) (hc : r.clients i = some c) :
    sessionFrom start ((r.enter id name user topic).told i) =
      if i = id then
        listed (sessionFrom start (((r.joined id name user).showTopic id (r.entered id name).name
          topic).told i)) (r.entered id name).name ((r.place id name).names (r.entered id name))
      else sessionFrom start ((r.joined id name user).told i) := by
  obtain ⟨c', hc'⟩ := clients_joined id name user hc
  have hkey : ((r.joined id name user).showTopic id (r.entered id name).name topic).channels
      (fold (r.entered id name).name) = some (r.entered id name) := by
    rw [channels_showTopic, H.fold_entered]
    exact update_self ..
  have hnames : ((r.joined id name user).showTopic id (r.entered id name).name topic).names
      (r.entered id name) = (r.place id name).names (r.entered id name) := by
    simp only [Roster.names, clients_showTopic]
    rfl
  refine (sessionFrom_list
    (r := (r.joined id name user).showTopic id (r.entered id name).name topic)
    (by rwa [clients_showTopic])).trans ?_
  rw [hkey]
  split
  · simp only [hnames]
  next hne => rw [told_showTopic hne]

/-- The newcomer's session mirrors the roster once the names are in. -/
theorem Mirrors.enter_self [LineReader] (M : Mirrors (sessionFrom start (r.told id)) r id none)
    (H : r.Consistent) (H' : (r.place id name).Consistent) (S' : (r.place id name).Spoken)
    (hc : r.clients id = some c) (hroom : fold name ∈ (sessionFrom start (r.told id)).tracked ∨
      (sessionFrom start (r.told id)).tracked.card < maxChannels)
    (hcard : (r.entered id name).members.card ≤ maxMembers) :
    Mirrors (sessionFrom start ((r.enter id name user topic).told id))
      (r.place id name) id none := by
  obtain ⟨c', hc'⟩ := clients_joined id name user hc
  have hjoined := sessionFrom_joined id name user start hc
  rw [if_pos (entered_members.2 (.inl rfl)), nickOf_of_nickAt M.nick] at hjoined
  obtain ⟨M₁, htracked⟩ := M.join_self H H' M.nick H.fold_entered hroom
  rw [← hjoined] at M₁ htracked
  rw [sessionFrom_enter H hc, if_pos rfl]
  have hplace : (r.place id name).channels (fold name) = some (r.entered id name) := update_self ..
  obtain ⟨hv, hn, hi⟩ := sessionFrom_showTopic start (r.entered id name).name topic hc'
  rw [← Session.tracked_congr hv] at htracked
  exact (M₁.of_view hv hn hi).names H' S' hplace (.inl htracked) fun _ => hcard

theorem Follows.enter [LineReader] (F : Follows start r) (H : r.Consistent) (S : r.Spoken)
    (hv : validChannel name) (hid : r.clients id = some client) (hreg : client.registered)
    (hnot : ∀ room, r.channels (fold name) = some room → id ∉ room.members)
    (hroom : fold name ∈ (sessionFrom start (r.told id)).tracked ∨
      (sessionFrom start (r.told id)).tracked.card < maxChannels)
    (hcard : (r.entered id name).members.card ≤ maxMembers) :
    Follows start (r.enter id name user topic) := by
  obtain ⟨nick, hnick⟩ := S.named hid hreg
  have hat : r.nickAt id = some nick := by simp [nickAt, hid, hnick]
  have H₁ : (r.place id name).Consistent := H.place hid hreg
  have hstep : Step r (.enter id name) (r.enter id name user topic) :=
    .enters id name user topic hv hid hreg hnot
  have H' := H.step hstep
  have S₁ : (r.place id name).Spoken :=
    (S.step hstep (by rintro _ ⟨⟩)).congr (enter_clients r).symm (enter_channels r).symm
  have hlast (i s) (M : Mirrors s (r.place id name) i none) :
      Mirrors s (r.enter id name user topic) i none := by
    have hn (j) : (r.enter id name user topic).nickAt j = (r.place id name).nickAt j := by
      rw [nickAt, enter_clients, nickAt]
    refine M.congr (hn i) fun key room hroom _ => ?_
    rw [enter_channels] at hroom
    exact ⟨hroom, H₁.roll_congr H' fun j _ => hn j⟩
  constructor
  · intro i c hc hfalse
    rw [enter_clients] at hc
    obtain ⟨c, hold, hsame⟩ := registered_of_modifyClient hc fun _ => rfl
    rw [hsame] at hfalse
    have hout : i ∉ (r.entered id name).members := by
      intro hmem
      rcases entered_members.1 hmem with rfl | ⟨room, hroom, hmem⟩
      · rw [some.inj (hold.symm.trans hid), hreg] at hfalse
        cases hfalse
      · obtain ⟨c', hc', htrue⟩ := H.registered hroom hmem
        rw [some.inj (hold.symm.trans hc'), htrue] at hfalse
        cases hfalse
    have hne : i ≠ id := fun h => hout (entered_members.2 (.inl h))
    rw [sessionFrom_enter H hold, if_neg hne, sessionFrom_joined id name user start hold,
      if_neg hout]
    exact F.before hold hfalse
  · intro i c hc htrue
    rw [enter_clients] at hc
    obtain ⟨c, hc, hsame⟩ := registered_of_modifyClient hc fun _ => rfl
    rw [hsame] at htrue
    refine hlast i _ ?_
    have M := F.after hc htrue
    by_cases hi : i = id
    · subst hi
      exact M.enter_self H H₁ S₁ hid hroom hcard
    · rw [sessionFrom_enter H hc, if_neg hi, sessionFrom_joined id name user start hc,
        nickOf_of_nickAt hat]
      split
      next hmem =>
        obtain ⟨room, hroom, hmem⟩ := (entered_members.1 hmem).resolve_left hi
        have hname : (r.entered id name).name = room.name := by simp [entered, hroom]
        rw [hname]
        exact M.join H H₁ (S.sayable hat) hat hroom hmem (hnot room hroom) hcard
      next hout =>
        refine M.congr nickAt_place fun key room hroom hmem => ?_
        rcases channels_place hroom with ⟨-, rfl⟩ | ⟨-, hold⟩
        · exact absurd hmem hout
        · exact ⟨hold, H.roll_congr H₁ fun j _ => nickAt_place⟩

end Ddirc.Server.Roster
