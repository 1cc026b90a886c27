import Mathlib.Data.Prod.Lex
import Mathlib.Order.WithBot
import Ddirc.Lib.Sort
import Ddirc.Server.Invariant

/-! # The operator's view of the server

`Network::snapshot` copies what the operator is shown. It walks hash maps and hash sets, whose order
is not fixed, and sorts what it finds. In a state the server can be in, every `Walk`, a choice of
the orders, gives the same snapshot (`snapshot_eq`). -/

namespace Ddirc.Server
open Option

structure UserInfo where
  id : ClientId
  nick : Option String
  user : Option String
  realname : Option String
  registered : Bool
  channels : List String
  connectedAt : Nat
  deriving Repr, DecidableEq

structure MemberInfo where
  nick : String
  op : Bool
  deriving Repr, DecidableEq

structure ChannelInfo where
  name : String
  topic : Option String
  topicSetBy : Option String
  members : List MemberInfo
  deriving Repr, DecidableEq

structure Snapshot where
  serverName : String
  networkName : String
  startedAt : Nat
  connectionsTotal : Nat
  messagesTotal : Nat
  /-- Registered users first, by nick; then connections still registering. -/
  users : List UserInfo
  channels : List ChannelInfo
  banned : List String
  motd : List String
  deriving Repr, DecidableEq

/-- The orders in which the clients, the channels and the sets in them are walked. -/
structure Walk (clients : Map ClientId Client) (channels : Map String Channel) where
  clientOrder : List (ClientId × Client)
  clientOrder_perm : clientOrder.Perm (clients.entries.map fun e => (e.1, e.2))
  roomOrder : ClientId → List String
  coe_roomOrder {id client} : clients.lookup id = some client →
    (roomOrder id : Multiset String) = client.channels.val
  channelOrder : List (String × Channel)
  channelOrder_perm : channelOrder.Perm (channels.entries.map fun e => (e.1, e.2))
  memberOrder : String → List ClientId
  coe_memberOrder {key channel} : channels.lookup key = some channel →
    (memberOrder key : Multiset ClientId) = channel.members.val

def Walk.ofEntries (clients : Map ClientId Client) (channels : Map String Channel) :
    Walk clients channels where
  clientOrder := clients.entries.map fun e => (e.1, e.2)
  clientOrder_perm := .refl _
  roomOrder id := ((clients.lookup id).map fun c => sorted c.channels.val).getD []
  coe_roomOrder h := by simp [h, coe_sorted]
  channelOrder := channels.entries.map fun e => (e.1, e.2)
  channelOrder_perm := .refl _
  memberOrder key := ((channels.lookup key).map fun c => sorted c.members.val).getD []
  coe_memberOrder h := by simp [h, coe_sorted]

/-- Registered users by nick, then the connections that have not got that far, oldest first. -/
def UserInfo.key (u : UserInfo) : Bool ×ₗ WithBot String ×ₗ Nat :=
  toLex (!u.registered, toLex (((u.nick.map fold : Option String) : WithBot String), u.id))

/-- Operators first. -/
def MemberInfo.key (m : MemberInfo) : Bool ×ₗ String := toLex (!m.op, fold m.nick)

def ChannelInfo.key (c : ChannelInfo) : String := fold c.name

namespace Network

variable (n : Network)

/-- The names of the channels filed under the keys, in order. -/
def shownRooms (keys : List String) : List String :=
  sortByKey fold (keys.filterMap fun key => (n.channels.lookup key).map (·.name))

def userInfo (id : ClientId) (client : Client) (rooms : List String) : UserInfo where
  id
  nick := client.nick.map clean
  user := client.user.map clean
  realname := client.real.map clean
  registered := client.registered
  channels := n.shownRooms rooms
  connectedAt := client.connectedAt

def memberInfos (channel : Channel) (members : List ClientId) : List MemberInfo :=
  sortByKey MemberInfo.key (members.filterMap fun m =>
    ((n.clients.lookup m).bind (·.nick)).map fun nick => ⟨nick, m ∈ channel.operators⟩)

def channelInfo (channel : Channel) (members : List ClientId) : ChannelInfo where
  name := channel.name
  topic := channel.topic.map fun t => clean t.text
  topicSetBy := channel.topic.map fun t => clean t.setBy
  members := n.memberInfos channel members

def snapshot (walk : Walk n.clients n.channels) : Snapshot where
  serverName := n.serverName
  networkName := n.networkName
  startedAt := n.startedAt
  connectionsTotal := n.connectionsTotal
  messagesTotal := n.messagesTotal
  users := sortByKey UserInfo.key
    (walk.clientOrder.map fun p => n.userInfo p.1 p.2 (walk.roomOrder p.1))
  channels := sortByKey ChannelInfo.key
    (walk.channelOrder.map fun p => n.channelInfo p.2 (walk.memberOrder p.1))
  banned := sorted n.banned.val
  motd := n.motd

variable {n}

theorem shownRooms_eq (H : n.roster.Consistent) (h : keys.Perm keys') :
    n.shownRooms keys = n.shownRooms keys' := by
  refine sortByKey_eq_of_perm (h.filterMap _) ?_
  simp only [List.mem_filterMap, map_eq_some_iff]
  rintro _ ⟨k, -, c, hc, rfl⟩ _ ⟨k', -, c', hc', rfl⟩ he
  have hk : k = k' := by
    rw [← (H.filed (channels_roster hc) :), ← (H.filed (channels_roster hc') :)]
    exact he
  subst hk
  rw [some.inj (hc.symm.trans hc')]

theorem memberInfos_eq (H : n.roster.Consistent) (channel : Channel)
    (h : l.Perm l') : n.memberInfos channel l = n.memberInfos channel l' := by
  refine sortByKey_eq_of_perm (h.filterMap _) ?_
  simp only [List.mem_filterMap, map_eq_some_iff, bind_eq_some_iff]
  rintro _ ⟨m, -, nick, ⟨c, hc, hn⟩, rfl⟩ _ ⟨m', -, nick', ⟨c', hc', hn'⟩, rfl⟩ he
  have hfold : fold nick = fold nick' := (Prod.mk.inj he).2
  have hm : n.nicks.lookup (fold nick) = some m :=
    H.nicks_iff.2 ⟨_, nick, clients_roster hc, hn, rfl⟩
  have hm' : n.nicks.lookup (fold nick') = some m' :=
    H.nicks_iff.2 ⟨_, nick', clients_roster hc', hn', rfl⟩
  obtain rfl : m = m' := some.inj (hm.symm.trans (hfold ▸ hm'))
  obtain rfl := some.inj (hc.symm.trans hc')
  rw [some.inj (hn.symm.trans hn')]

theorem lookup_of_mem_perm [DecidableEq K] {m : Map K V} {l : List (K × V)}
    (h : l.Perm (m.entries.map fun e => (e.1, e.2))) {p : K × V} (hp : p ∈ l) :
    m.lookup p.1 = some p.2 := by
  obtain ⟨e, he, rfl⟩ := List.mem_map.1 (h.mem_iff.1 hp)
  exact Map.mem_entries_iff.1 he

theorem users_eq (H : n.roster.Consistent) (walk walk' : Walk n.clients n.channels) :
    (n.snapshot walk).users = (n.snapshot walk').users := by
  have hfind {p : ClientId × Client} (hp : p ∈ walk.clientOrder) :
      n.clients.lookup p.1 = some p.2 := lookup_of_mem_perm walk.clientOrder_perm hp
  have hinfo : walk.clientOrder.map (fun p => n.userInfo p.1 p.2 (walk.roomOrder p.1)) =
      walk.clientOrder.map fun p => n.userInfo p.1 p.2 (walk'.roomOrder p.1) := by
    refine List.map_congr_left fun p hp => ?_
    have hrooms : (walk.roomOrder p.1).Perm (walk'.roomOrder p.1) := by
      rw [← Multiset.coe_eq_coe, walk.coe_roomOrder (hfind hp), walk'.coe_roomOrder (hfind hp)]
    rw [userInfo, userInfo, shownRooms_eq H hrooms]
  have horder := walk.clientOrder_perm.trans walk'.clientOrder_perm.symm
  simp only [snapshot, hinfo]
  refine sortByKey_eq_of_perm (horder.map fun p => n.userInfo p.1 p.2 (walk'.roomOrder p.1)) ?_
  -- the key of a user has the id in it
  simp only [List.mem_map]
  rintro _ ⟨p, hp, rfl⟩ _ ⟨p', hp', rfl⟩ he
  have hid : p.1 = p'.1 := congrArg (fun key => (ofLex (ofLex key).2).2) he
  have hc : p.2 = p'.2 := some.inj ((hfind hp).symm.trans (hid ▸ hfind hp'))
  rw [hid, hc]

theorem channels_eq (H : n.roster.Consistent) (walk walk' : Walk n.clients n.channels) :
    (n.snapshot walk).channels = (n.snapshot walk').channels := by
  have hfind {p : String × Channel} (hp : p ∈ walk.channelOrder) :
      n.channels.lookup p.1 = some p.2 := lookup_of_mem_perm walk.channelOrder_perm hp
  have hinfo : walk.channelOrder.map (fun p => n.channelInfo p.2 (walk.memberOrder p.1)) =
      walk.channelOrder.map fun p => n.channelInfo p.2 (walk'.memberOrder p.1) := by
    refine List.map_congr_left fun p hp => ?_
    have hmembers : (walk.memberOrder p.1).Perm (walk'.memberOrder p.1) := by
      rw [← Multiset.coe_eq_coe, walk.coe_memberOrder (hfind hp), walk'.coe_memberOrder (hfind hp)]
    rw [channelInfo, channelInfo, memberInfos_eq H p.2 hmembers]
  have horder := walk.channelOrder_perm.trans walk'.channelOrder_perm.symm
  simp only [snapshot, hinfo]
  refine sortByKey_eq_of_perm (horder.map fun p => n.channelInfo p.2 (walk'.memberOrder p.1)) ?_
  simp only [List.mem_map]
  rintro _ ⟨p, hp, rfl⟩ _ ⟨p', hp', rfl⟩ he
  -- a channel is filed under its folded name
  have hfiled {p : String × Channel} (hp : p ∈ walk.channelOrder) : fold p.2.name = p.1 :=
    (H.filed (channels_roster (hfind hp)) :)
  have hkey : p.1 = p'.1 := (hfiled hp).symm.trans (Eq.trans he (hfiled hp'))
  have hc : p.2 = p'.2 := some.inj ((hfind hp).symm.trans (hkey ▸ hfind hp'))
  rw [hkey, hc]

/-- Every walk gives the same snapshot. -/
theorem snapshot_eq (H : n.roster.Consistent) (walk walk' : Walk n.clients n.channels) :
    n.snapshot walk = n.snapshot walk' := by
  have husers := users_eq H walk walk'
  have hchannels := channels_eq H walk walk'
  simp only [snapshot, Snapshot.mk.injEq, true_and, and_true] at ⊢
  exact ⟨husers, hchannels⟩

theorem lookup_of_mem_users {walk : Walk n.clients n.channels} (h : u ∈ (n.snapshot walk).users) :
    ∃ client, n.clients.lookup u.id = some client ∧ u.nick = client.nick.map clean ∧
      u.registered = client.registered := by
  obtain ⟨p, hp, rfl⟩ := List.mem_map.1 (mem_sortByKey.1 h)
  exact ⟨p.2, lookup_of_mem_perm walk.clientOrder_perm hp, rfl, rfl⟩

theorem lookup_of_mem_members
    (h : channel ∈ (n.snapshot walk).channels) (hm : m ∈ channel.members) :
    ∃ id client, n.clients.lookup id = some client ∧ client.nick = some m.nick := by
  obtain ⟨p, -, rfl⟩ := List.mem_map.1 (mem_sortByKey.1 h)
  obtain ⟨id, -, hid⟩ := List.mem_filterMap.1 (mem_sortByKey.1 hm)
  obtain ⟨nick, hnick, rfl⟩ := map_eq_some_iff.1 hid
  obtain ⟨client, hc, hnick⟩ := bind_eq_some_iff.1 hnick
  exact ⟨id, client, hc, hnick⟩

end Network

end Ddirc.Server
