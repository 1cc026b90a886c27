import Ddirc.Server.Admin
import Ddirc.Server.Roster

/-! # The server refines the roster

`Network.roster` is the roster a network stands for. Each function of the server either leaves it as
it was or makes the changes its name says, and these are steps of the roster. -/

namespace Ddirc.Server
open Irc Function Option Map
open Roster (Quiet)

def Client.view (c : Client) : Person := ⟨c.nick, c.registered, c.channels⟩

def Channel.view (c : Channel) : Room := ⟨c.name, c.members, c.operators⟩

namespace Network
variable {m : Message} {f : Network → α → Network}

def roster (n : Network) : Roster where
  serverName := n.serverName
  networkName := n.networkName
  clients i := (n.clients.lookup i).map Client.view
  nicks k := n.nicks.lookup k
  channels k := (n.channels.lookup k).map Channel.view
  told i := (n.queues i).filter (tellsRoster ·.command)

variable {n : Network} {id : ClientId}

@[simp] theorem roster_emit (kind : EventKind) : (n.emit kind).roster = n.roster := by
  unfold emit
  split <;> rfl

@[simp] theorem clients_emit : (n.emit kind).clients = n.clients := by
  unfold emit
  split <;> rfl

theorem queues_emit : (n.emit kind).queues = n.queues := by
  unfold emit
  split <;> rfl

theorem nickOf_roster : n.roster.nickOf id = n.nickOf id := by
  simp only [Roster.nickOf, nickOf, roster]
  cases n.clients.lookup id <;> rfl

theorem isRegistered_roster : n.roster.isRegistered id = n.isRegistered id := by
  simp only [Roster.isRegistered, isRegistered, roster]
  cases n.clients.lookup id <;> rfl

theorem isRegistered_iff :
    n.isRegistered id ↔ ∃ client, n.clients.lookup id = some client ∧ client.registered := by
  unfold isRegistered
  cases n.clients.lookup id <;> simp

theorem sharesOne_roster : n.roster.sharesOne names i ↔ n.sharesOne names i := by
  refine exists_congr fun name => and_congr_right fun _ => ?_
  simp only [roster]
  cases n.channels.lookup name <;> rfl

/-! ## Sending -/

theorem roster_deliver_quiet {out : ClientId → Option Message}
    (h : ∀ i m, out i = some m → tellsRoster m.command = false) :
    (n.deliver out).roster = n.roster := by
  refine Roster.ext rfl rfl rfl rfl rfl (funext fun i => ?_)
  simp only [roster, deliver]
  split
  · cases ho : out i with
    | none => simp
    | some m => simp [h i m ho]
  · rfl

theorem roster_deliver_tell (whom : ClientId → Prop) [DecidablePred whom]
    (hm : tellsRoster m.command) :
    (n.deliver fun i => if whom i then some m else none).roster = n.roster.tell whom m := by
  refine Roster.ext rfl rfl rfl rfl rfl (funext fun i => ?_)
  simp only [roster, deliver, Roster.tell]
  by_cases hc : (n.clients.lookup i).isSome <;> by_cases hw : whom i <;> simp [hc, hw, hm]

theorem roster_tell_quiet (whom : ClientId → Prop) [DecidablePred whom]
    (hm : tellsRoster m.command = false) :
    (n.deliver fun i => if whom i then some m else none).roster = n.roster := by
  refine roster_deliver_quiet fun i m' h => ?_
  split at h
  · exact some.inj h ▸ hm
  · cases h

theorem roster_send_quiet (hm : tellsRoster m.command = false) :
    (n.send id m).roster = n.roster := roster_tell_quiet (· = id) hm

theorem roster_numericArgs (hr : tellsRoster (.response response [])) :
    (n.numericArgs id response args).roster = n.roster.numeric id response args := by
  rw [Roster.numeric, nickOf_roster]
  exact roster_deliver_tell (· = id) hr

@[simp] theorem roster_numericArgs_quiet (hr : tellsRoster (.response response []) = false) :
    (n.numericArgs id response args).roster = n.roster := roster_send_quiet hr

@[simp] theorem roster_numeric_quiet (hr : tellsRoster (.response response []) = false) :
    (n.numeric id response args).roster = n.roster := roster_send_quiet hr

theorem roster_foldl (hf : ∀ n a, (f n a).roster = n.roster)
    (l : List α) (n : Network) : (l.foldl f n).roster = n.roster := by
  induction l generalizing n with
  | nil => rfl
  | cons a l ih => rw [List.foldl_cons, ih, hf]

/-! ## Writing -/

theorem roster_modifyClient {f : Client → Client} {g : Person → Person}
    (h : ∀ c, (f c).view = g c.view) :
    (n.modifyClient id f).roster = n.roster.modifyClient id g := by
  refine Roster.ext rfl rfl (funext fun i => ?_) rfl rfl rfl
  simp only [roster, modifyClient, Roster.modifyClient, lookup_modify, update_apply]
  split
  next hi =>
    subst hi
    cases n.clients.lookup i <;> simp [h]
  · rfl

theorem roster_modifyClient_quiet {f : Client → Client} (h : ∀ c, (f c).view = c.view) :
    (n.modifyClient id f).roster = n.roster := by
  rw [roster_modifyClient (g := fun c => c) h]
  refine Roster.ext rfl rfl (funext fun i => ?_) rfl rfl rfl
  simp only [Roster.modifyClient, update_apply]
  split <;> simp_all

theorem roster_release :
    (n.release nick).roster = { n.roster with nicks := n.roster.released nick } := by
  refine Roster.ext rfl rfl rfl (funext fun k => ?_) rfl rfl
  cases nick with
  | none => rfl
  | some nick => simp only [release, Roster.released, roster, lookup_erase, update_apply]

theorem roster_insertNick : roster { n with nicks := n.nicks.insert key id } =
      { n.roster with nicks := update n.roster.nicks key id } := by
  refine Roster.ext rfl rfl rfl (funext fun k => ?_) rfl rfl
  simp only [roster, lookup_insert, update_apply]

theorem roster_insertChannel :
    roster { n with channels := n.channels.insert key channel } =
      { n.roster with channels := update n.roster.channels key channel.view } := by
  refine Roster.ext rfl rfl rfl rfl (funext fun k => ?_) rfl
  simp only [roster, lookup_insert, update_apply]
  split <;> rfl

theorem roster_claimNick :
    (n.claimNick id nick).roster = n.roster.claim id nick := by
  have hnick : (n.clients.lookup id).bind (·.nick) = (n.roster.clients id).bind (·.nick) := by
    simp only [roster]
    cases n.clients.lookup id <;> rfl
  simp only [claimNick]
  rw [roster_modifyClient (g := ({ · with nick := some nick })) fun _ => rfl, roster_insertNick,
    roster_release, hnick]
  rfl

theorem roster_removeMember :
    (n.removeMember key id).roster = n.roster.remove key id := by
  simp only [removeMember]
  rw [roster_modifyClient (g := fun c => { c with channels := c.channels.erase key }) fun _ => rfl]
  refine Roster.ext rfl rfl rfl rfl (funext fun k => ?_) rfl
  simp only [roster, Roster.remove, Roster.modifyClient, update_apply]
  cases hc : n.channels.lookup key with
  | none =>
    by_cases hk : k = key
    · subst hk
      simp [hc]
    · simp [hk]
  | some channel =>
    have hview : channel.view.without id = (channel.without id).view := rfl
    by_cases he : (channel.without id).members = ∅
    · have he' : (channel.without id).view.members = ∅ := he
      simp only [he, if_true, lookup_erase, map_some, hview]
      split
      · simp [filter_some, he']
      · rfl
    · have he' : (channel.without id).view.members ≠ ∅ := he
      simp only [he, if_false, lookup_insert, map_some, hview]
      split
      · simp [filter_some, he']
      · rfl

/-! ## Registration -/

@[simp] theorem roster_sendMotd : (n.sendMotd id).roster = n.roster := by
  simp only [sendMotd]
  rw [roster_numeric_quiet rfl, roster_foldl, roster_numeric_quiet rfl]
  intro n line
  exact roster_numeric_quiet rfl

theorem roster_sendServerInfo : (n.sendServerInfo id).roster = n.roster := by
  unfold sendServerInfo
  rw [roster_numericArgs_quiet rfl, roster_numeric_quiet rfl, roster_numeric_quiet rfl]

theorem roster_sendWelcome : (n.sendWelcome id).roster =
    (n.roster.numeric id .rplWelcome
      ["Welcome to the " ++ n.networkName ++ " Network, " ++ n.nickOf id]).numeric id .rplISupport
      (isupportTokens n.networkName ++ ["are supported by this server"]) := by
  have hinfo (n : Network) : (n.sendServerInfo id).networkName = n.networkName := rfl
  have hargs (response args) : (n.numericArgs id response args).networkName = n.networkName := rfl
  unfold sendWelcome
  rw [roster_sendMotd, roster_numericArgs rfl, roster_sendServerInfo, hinfo, numeric, hargs,
    roster_numericArgs rfl]

theorem tryRegister_steps : n.roster.Steps Quiet (n.tryRegister id).roster := by
  simp only [tryRegister]
  split
  next hready =>
    cases hc : n.clients.lookup id with
    | none => simp [hc] at hready
    | some client =>
      simp only [hc, any_some, Bool.and_eq_true, Bool.not_eq_true'] at hready
      obtain ⟨nick, hnick⟩ := isSome_iff_exists.1 hready.1.2
      have hid : n.roster.clients id = some client.view := by simp [roster, hc]
      rw [roster_emit, roster_sendWelcome,
        roster_modifyClient (g := ({ · with registered := true })) fun _ => rfl]
      exact (Roster.Step.registers id _ hid hready.1.1.1 hnick).steps rfl
  · exact .refl

theorem clients_roster (hc : n.clients.lookup id = some client) :
    n.roster.clients id = some client.view := by simp [roster, hc]

theorem tell_congr {r : Roster} {p q : ClientId → Prop} [DecidablePred p] [DecidablePred q]
    (h : ∀ i, (r.clients i).isSome → (p i ↔ q i)) (m : Message) : r.tell p m = r.tell q m := by
  refine Roster.ext rfl rfl rfl rfl rfl (funext fun i => ?_)
  simp only [Roster.tell]
  by_cases hi : (r.clients i).isSome
  · simp [h i hi]
  · simp [hi]

theorem roster_tellPeers (hc : n.clients.lookup id = some client)
    (hm : tellsRoster m.command) : (n.tellPeers id m true).roster =
      n.roster.tell (fun i => i = id ∨ n.roster.sharesOne client.channels i) m := by
  simp only [tellPeers, hc]
  rw [roster_deliver_tell _ hm]
  exact tell_congr (fun i _ => by simp [sharesOne_roster]) m

theorem onNick_cases (n : Network) (id : ClientId) (typed : String) :
    (∃ response args, tellsRoster (.response response []) = false ∧
      n.onNick id typed = n.numericArgs id response args) ∨
    n.onNick id typed = n.changeNick id (Str.trim typed) := by
  unfold onNick
  dsimp only
  split
  · exact .inl ⟨_, _, rfl, rfl⟩
  split
  · exact .inl ⟨_, _, rfl, rfl⟩
  split
  · exact .inl ⟨_, _, rfl, rfl⟩
  split
  · exact .inl ⟨_, _, rfl, rfl⟩
  · exact .inr rfl

def Claims (nick : String) (l : Roster.Label) : Prop := Quiet l ∨ l = .claim nick

theorem changeNick_steps (hc : n.clients.lookup id = some client) (hv : validNick nick)
    (hfree : ∀ holder, n.nicks.lookup (fold nick) = some holder → holder = id) :
    n.roster.Steps (Claims nick) (n.changeNick id nick).roster := by
  have hid := clients_roster hc
  have hreg : n.isRegistered id = client.registered := by simp [isRegistered, hc]
  have hclaim (h : ∀ old, client.registered → client.nick = some old → old = nick) :
      n.roster.Steps (Claims nick) (n.claimNick id nick).roster := by
    rw [roster_claimNick]
    exact (Roster.Step.claims id nick hv hid h hfree).steps (.inr rfl)
  simp only [changeNick, hc, bind_some, hreg]
  split
  next old hreg' hold =>
    split
    next hne =>
      have hc' : ((n.claimNick id nick).emit (.nickChanged old nick)).clients.lookup id =
          some { client with nick := some nick } := by
        rw [clients_emit]
        exact (lookup_modify ..).trans (by simp [release, hc])
      rw [roster_tellPeers hc' rfl, roster_emit, roster_claimNick]
      exact (Roster.Step.renames id _ nick hv hid hreg' hold hfree).steps (.inr rfl)
    next heq =>
      refine hclaim fun o _ ho => ?_
      rw [← Decidable.not_not.1 heq]
      exact (some.inj (hold.symm.trans ho)).symm
  next hreg' hold => exact hclaim fun o _ ho => by simp [hold] at ho
  next hreg' =>
    refine (hclaim fun o h => by simp [hreg'] at h).trans ?_
    exact tryRegister_steps.mono fun _ => .inl

/-! ## Channels -/

theorem roster_sendTopic (hch : n.channels.lookup key = some channel) :
    (n.sendTopic id key explicit).roster =
      n.roster.showTopic id channel.name (channel.topic.map (·.text)) := by
  simp only [sendTopic, hch]
  cases channel.topic with
  | some topic => exact (roster_numericArgs_quiet rfl).trans (roster_numericArgs rfl)
  | none =>
    simp only
    split
    · exact roster_numericArgs_quiet rfl
    · rfl

theorem sendTopic_steps : n.roster.Steps Quiet (n.sendTopic id key explicit).roster := by
  cases hch : n.channels.lookup key with
  | none =>
    simp only [sendTopic, hch]
    exact .refl
  | some channel =>
    rw [roster_sendTopic hch]
    cases channel.topic with
    | none => exact .refl
    | some topic =>
      refine Roster.Step.steps (.shows (· = id) _ ?_) rfl
      exact (rfl : Response.rplTopic = .rplTopic)

theorem roster_memberNames :
    n.roster.names channel.view = n.memberNames channel := by
  have h (m : ClientId) :
      (n.roster.clients m).bind (·.nick) = (n.clients.lookup m).bind (·.nick) := by
    simp only [roster]
    cases n.clients.lookup m <;> rfl
  simp only [Roster.names, h]
  rfl

theorem roster_sendNames (name : String) :
    (n.sendNames id name).roster = n.roster.list id name := by
  have hreply (shown : String) (names : List String) :
      ((if names.isEmpty then n else n.numericArgs id .rplNamReply
        ["=", shown, Str.join " " names]).numericArgs id .rplEndOfNames
          [shown, "End of /NAMES list"]).roster = n.roster.listNames id shown names := by
    rw [roster_numericArgs rfl, Roster.listNames]
    split
    · rfl
    · rw [roster_numericArgs rfl]
  have hch : n.roster.channels (fold name) = (n.channels.lookup (fold name)).map Channel.view := rfl
  unfold sendNames Roster.list
  rw [hch]
  cases n.channels.lookup (fold name) with
  | none => exact hreply name []
  | some channel =>
    simp only [map_some, roster_memberNames]
    exact hreply channel.name (n.memberNames channel)

theorem roster_broadcast (hch : n.channels.lookup key = some channel) (hm : tellsRoster m.command) :
    (n.broadcast key m none).roster = n.roster.tellMembers channel.view m := by
  simp only [broadcast, hch]
  rw [roster_deliver_tell _ hm]
  exact tell_congr (fun i _ => by simp [Channel.view]) m

/-- The one who joins is told first and the others after: everyone is told once. -/
theorem roster_send_broadcast (hch : n.channels.lookup key = some channel)
    (hid : id ∈ channel.members) (hm : tellsRoster m.command) :
    ((n.send id m).broadcast key m (some id)).roster = n.roster.tellMembers channel.view m := by
  have hsend : (n.send id m).channels = n.channels := rfl
  simp only [broadcast, hsend, hch]
  rw [roster_deliver_tell _ hm, send, roster_deliver_tell _ hm]
  refine Roster.ext rfl rfl rfl rfl rfl (funext fun i => ?_)
  simp only [Roster.tellMembers, Roster.tell, Channel.view]
  by_cases hi : i = id
  · subst hi
    simp [hid]
  · by_cases hmem : i ∈ channel.members <;> simp [hi, hmem]

theorem originOf_eq (hc : n.clients.lookup id = some client) :
    n.originOf id = .nickname (n.roster.nickOf id) (client.user.getD client.shownNick) host := by
  simp [originOf, hc, Client.origin, nickOf_roster, nickOf]

theorem view_entered (name : String) : (n.entered id name).view = n.roster.entered id name := by
  simp only [entered, Roster.entered, roster]
  cases n.channels.lookup (fold name) <;> rfl

theorem mem_entered (name : String) : id ∈ (n.entered id name).members := by
  unfold entered
  split <;> simp

@[simp] theorem channels_emit : (n.emit kind).channels = n.channels := by
  unfold emit
  split <;> rfl

@[simp] theorem channels_broadcast : (n.broadcast key m except).channels = n.channels := by
  unfold broadcast
  split <;> rfl

theorem roster_enter (hc : n.clients.lookup id = some client) (name : String) :
    ∃ user topic, (n.enter id name).roster = n.roster.enter id name user topic := by
  let placed := ({ n with channels := n.channels.insert (fold name) (n.entered id name) } :
    Network).modifyClient id fun c => { c with channels := insert (fold name) c.channels }
  have hplaced : placed.roster = n.roster.place id name := by
    rw [roster_modifyClient (g := fun c => { c with channels := insert (fold name) c.channels })
      fun _ => rfl, roster_insertChannel, view_entered]
    rfl
  have hc' : placed.clients.lookup id =
      some { client with channels := insert (fold name) client.channels } :=
    (lookup_modify ..).trans (by simp [hc])
  have hch : placed.channels.lookup (fold name) = some (n.entered id name) :=
    (lookup_insert ..).trans (if_pos rfl)
  have hname : (n.entered id name).name = (n.roster.entered id name).name :=
    congrArg Room.name (view_entered name)
  refine ⟨client.user.getD client.shownNick, (n.entered id name).topic.map (·.text), ?_⟩
  have hch' (m except kind) : (((placed.send id m).broadcast (fold name) m except).emit
      kind).channels.lookup (fold name) = some (n.entered id name) := by
    rw [channels_emit, channels_broadcast]
    exact hch
  unfold enter
  rw [roster_sendNames, roster_sendTopic (hch' ..), roster_emit,
    roster_send_broadcast hch (mem_entered name) rfl, originOf_eq hc', hplaced, view_entered, hname]
  rfl

theorem setTopic_steps : n.roster.Steps Quiet (n.setTopic key by_ origin channel text).roster := by
  have hset (f : Channel → Channel) (h : ∀ c, (f c).view = c.view) :
      roster { n with channels := Map.modify n.channels key f } = n.roster := by
    refine Roster.ext rfl rfl rfl rfl (funext fun k => ?_) rfl
    simp only [roster, lookup_modify]
    split
    · cases n.channels.lookup k <;> simp [h]
    · rfl
  have hsay (n : Network) (m : Message) (hm : m.command = .topic channel.name (some text)) :
      n.roster.Steps Quiet (n.broadcast key m none).roster := by
    cases hch : n.channels.lookup key with
    | none =>
      simp only [broadcast, hch]
      exact .refl
    | some channel =>
      rw [roster_broadcast hch (hm ▸ rfl)]
      exact (Roster.Step.shows _ m (hm ▸ rfl)).steps rfl
  refine .trans (Eq.subst (Eq.symm ?_) .refl) (hsay _ _ rfl)
  rw [roster_emit]
  exact hset _ fun c => rfl

/-! ## Kicks -/

theorem roster_kickMember (hch : n.channels.lookup key = some channel) (victim : ClientId)
    (by_ : Prefix) (reason : Option String) :
    ∃ why, (n.kickMember key victim by_ reason).roster =
      (n.roster.tellMembers channel.view {
        source := some by_
        command := .kick channel.name (n.roster.nickOf victim) why }).remove key victim := by
  simp only [kickMember, hch]
  rw [roster_removeMember, roster_emit, roster_broadcast hch rfl, nickOf_roster]
  exact ⟨_, rfl⟩

theorem kickMember_steps (h : ∀ channel, n.channels.lookup key = some channel →
    victim ∈ channel.members) :
      n.roster.Steps Quiet (n.kickMember key victim by_ reason).roster := by
  cases hch : n.channels.lookup key with
  | none =>
    simp only [kickMember, hch]
    exact .refl
  | some channel =>
    obtain ⟨why, heq⟩ := roster_kickMember hch victim by_ reason
    rw [heq]
    have hroom : n.roster.channels key = some channel.view := by simp [roster, hch]
    exact (Roster.Step.kicks victim key by_ why hroom (h channel hch)).steps rfl

/-! ## Going -/

theorem roster_eraseClient : roster { n with clients := n.clients.erase id } =
    { n.roster with clients := update n.roster.clients id none } := by
  refine Roster.ext rfl rfl (funext fun i => ?_) rfl rfl rfl
  simp only [roster, lookup_erase, update_apply]
  split <;> rfl

theorem roster_leaveAll : (n.leaveAll id names).roster =
    { n.roster with channels := fun k =>
        if k ∈ names then (n.roster.channels k).map (·.without id) else n.roster.channels k } := by
  refine Roster.ext rfl rfl rfl rfl (funext fun k => ?_) rfl
  simp only [roster, leaveAll, lookup_mapVal]
  split
  · cases n.channels.lookup k <;> rfl
  · cases n.channels.lookup k <;> rfl

theorem sharesOne_leaveAll :
    (n.leaveAll id names).sharesOne names i ↔ i ≠ id ∧ n.sharesOne names i := by
  have h (name : String) (hname : name ∈ names) :
      ((n.leaveAll id names).channels.lookup name).any (i ∈ ·.members) ↔
        i ≠ id ∧ (n.channels.lookup name).any (i ∈ ·.members) := by
    simp only [leaveAll, lookup_mapVal, hname]
    cases n.channels.lookup name <;> simp [Channel.without]
  constructor
  · rintro ⟨name, hname, hi⟩
    obtain ⟨hne, hi⟩ := (h name hname).1 hi
    exact ⟨hne, name, hname, hi⟩
  · rintro ⟨hne, name, hname, hi⟩
    exact ⟨name, hname, (h name hname).2 ⟨hne, hi⟩⟩

theorem roster_dropEmpty : n.dropEmpty.roster =
    { n.roster with channels := fun k => (n.roster.channels k).filter (·.members ≠ ∅) } := by
  refine Roster.ext rfl rfl rfl rfl (funext fun k => ?_) rfl
  simp only [roster, dropEmpty, lookup_retain]
  cases n.channels.lookup k with
  | none => rfl
  | some channel =>
    by_cases he : channel.members = ∅ <;> simp [filter_some, Channel.view, he]

theorem roster_disconnect (hc : n.clients.lookup id = some client) (reason : String) :
    ∃ said user, (n.disconnect id reason).roster =
      (n.roster.drop id client.view).tell
        (fun i => i ≠ id ∧ n.roster.sharesOne client.channels i) {
          source := some (.nickname (client.nick.getD "*") user host)
          command := .quit (some said) } := by
  refine ⟨client.quitReason.getD reason, client.user.getD client.shownNick, ?_⟩
  simp only [disconnect, hc]
  rw [roster_dropEmpty, roster_deliver_tell _ rfl, roster_leaveAll, roster_emit, roster_release,
    roster_eraseClient]
  refine Roster.ext rfl rfl rfl rfl (funext fun k => ?_) (funext fun i => ?_)
  · by_cases hk : k ∈ client.channels <;> simp [Roster.drop, Roster.tell, Client.view, hk]
  · have hshares (event) : ((({ n with clients := n.clients.erase id } : Network).release
        client.nick).emit event).sharesOne client.channels i ↔
        n.roster.sharesOne client.channels i := by
      rw [← sharesOne_roster, roster_emit, roster_release]
      rfl
    simp only [Roster.tell, sharesOne_leaveAll, hshares]
    rfl

theorem disconnect_steps : n.roster.Steps Quiet (n.disconnect id reason).roster := by
  cases hc : n.clients.lookup id with
  | none =>
    simp only [disconnect, hc]
    exact .refl
  | some client =>
    obtain ⟨said, user, h⟩ := roster_disconnect hc reason
    rw [h]
    exact (Roster.Step.quits id user said (clients_roster hc)).steps rfl

theorem roster_closing (text : String) (said : Option String) :
    ((n.send id (.ofCommand (.error text))).modifyClient id
      ({ · with quitReason := said })).roster = n.roster := by
  refine (roster_modifyClient_quiet ?_).trans (roster_send_quiet rfl)
  intro c
  rfl

theorem close_steps : n.roster.Steps Quiet (n.close id reason).roster :=
  Eq.subst (motive := fun r : Roster => r.Steps Quiet _) (roster_closing _ _) disconnect_steps

/-- What handling a command may let in. -/
def mayLetIn (id : ClientId) : Command → Roster.Label → Prop
  | .nick nick => Claims (Str.trim nick)
  | .join targets _ _ => fun l => ∃ target ∈ Str.split ',' targets, l = .enter id (Str.trim target)
  | _ => Quiet

/-! ## The operator -/

theorem channelKey_eq_ok (h : n.channelKey name = .ok (key, channel)) :
    n.channels.lookup key = some channel := by
  unfold channelKey at h
  split at h
  next c hc =>
    obtain ⟨rfl, rfl⟩ := Prod.mk.inj (Except.ok.inj h)
    exact hc
  · cases h

theorem registered_eq_ok (h : n.registered nick = .ok id) :
    n.nicks.lookup (fold nick) = some id ∧ n.isRegistered id := by
  unfold registered at h
  split at h
  next i hi =>
    obtain rfl := Except.ok.inj h
    exact filter_eq_some_iff.1 hi
  · cases h

theorem member_eq_ok (h : n.member name nick = .ok (key, channel, id)) :
    n.channels.lookup key = some channel ∧ id ∈ channel.members ∧ n.registered nick = .ok id := by
  simp only [member] at h
  cases hk : n.channelKey name with
  | error => simp [hk, bind, Except.bind] at h
  | ok p =>
    cases hr : n.registered nick with
    | error => simp [hk, hr, bind, Except.bind] at h
    | ok i =>
      simp only [hk, hr, bind, Except.bind] at h
      split at h
      next hmem =>
        obtain ⟨rfl, rfl, rfl⟩ := h
        exact ⟨channelKey_eq_ok hk, hmem, rfl⟩
      · cases h

theorem channels_roster (hch : n.channels.lookup key = some channel) :
    n.roster.channels key = some channel.view := by simp [roster, hch]

theorem setOp_steps (hm : n.member name nick = .ok (key, channel, id)) (give : Bool) :
    n.roster.Steps Quiet (({ n with channels := n.channels.insert key { channel with
      operators := if give then insert id channel.operators else channel.operators.erase id } }
        : Network).broadcast key {
      source := some n.serverOrigin
      command := .raw "MODE" [channel.name, if give then "+o" else "-o", n.nickOf id] }
        none).roster := by
  obtain ⟨hch, hmem, -⟩ := member_eq_ok hm
  rw [roster_broadcast ((lookup_insert ..).trans (if_pos rfl)) rfl, roster_insertChannel]
  have hset (operators : Finset ClientId) : n.roster.setOperators key operators =
      { n.roster with
        channels := update n.roster.channels key (some { channel.view with operators }) } := by
    rw [Roster.setOperators, channels_roster hch]
    rfl
  have h := Roster.Step.ops id key give (channels_roster hch) hmem
  rw [hset, nickOf_roster] at h
  exact h.steps rfl

/-- Kicking everyone on a list, each of whom is in the channel as long as it exists. -/
theorem foldl_kickMember_steps {l : List ClientId} (hl : l.Nodup)
    (h : ∀ channel, n.channels.lookup key = some channel → ∀ i ∈ l, i ∈ channel.members)
    (reason : Option String) : n.roster.Steps Quiet
      (l.foldl (fun n i => n.kickMember key i n.serverOrigin reason) n).roster := by
  induction l generalizing n with
  | nil => exact .refl
  | cons i l ih =>
    obtain ⟨hi, hl⟩ := List.nodup_cons.1 hl
    refine (kickMember_steps fun c hc => h c hc i List.mem_cons_self).trans (ih hl ?_)
    intro left hleft j hj
    cases hch : n.channels.lookup key with
    | none => simp [kickMember, hch] at hleft
    | some channel =>
      obtain ⟨why, heq⟩ := roster_kickMember hch i n.serverOrigin reason
      have hroom := channels_roster hleft
      rw [heq, Roster.remove] at hroom
      simp only [update_self, Roster.filter_without] at hroom
      obtain ⟨whole, hw, hleft', -⟩ := hroom
      obtain rfl := some.inj ((channels_roster hch).symm.trans hw)
      have hmem : j ∈ left.view.members := by
        rw [← hleft']
        exact Finset.mem_erase.2
          ⟨fun he => hi (he ▸ hj), h channel hch j (List.mem_cons_of_mem _ hj)⟩
      exact hmem

/-! ## Runs -/

theorem roster_insertClient :
    roster { n with clients := n.clients.insert id c, queues := update n.queues id [] } =
      { n.roster with
        clients := update n.roster.clients id c.view, told := update n.roster.told id [] } := by
  refine Roster.ext rfl rfl (funext fun i => ?_) rfl rfl (funext fun i => ?_)
  · simp only [roster, lookup_insert, update_apply]
    split <;> rfl
  · simp only [roster, update_apply]
    split <;> rfl

/-- What an operation may let in: a `NICK` a nick, a `JOIN` its sender. -/
def letsIn : Operation → Roster.Label → Prop
  | .handle id message => mayLetIn id message.command
  | _ => Quiet

end Network

end Ddirc.Server
