import Ddirc.Server.Registration
import Ddirc.Mirror.Run

/-! # A list of names, sent and read

The `353` line that the server sends for a channel, read by a client that goes by what the server
advertised. The client splits it at white space of every kind, where the server refuses only the
blank in a nick, and keeps so many members and no more; there is no other way to misread it
(`names_read_iff`). -/

namespace Ddirc.Server
open Irc Function Option List
open Ddirc.Client (ISupport Session Sayable shownName rollOf maxMembers maxChannels Member)

namespace Roster

variable {r r' : Roster}

theorem Steps.nickAt (h : r.Steps P r') (hn : r'.nickAt i = some nick) :
    r.nickAt i = some nick ∨ validNick nick := by
  induction h with
  | refl => exact .inl hn
  | tail _ hs ih =>
    obtain ⟨l, -, hs⟩ := hs
    rcases hs.nickAt hn with hn | ⟨-, hv⟩
    · exact ih hn
    · exact .inr hv

end Roster

namespace Network

variable {n : Network} {id : ClientId}

theorem ReachableBy.validNick (h : ReachableBy P n) (hn : n.roster.nickAt i = some nick) :
    validNick nick := by
  induction h with
  | init => simp [Roster.nickAt, roster, Network.init] at hn
  | step op _ hop _ ih =>
    rcases (apply_steps hop).nickAt hn with hn | hv
    · exact ih hn
    · exact hv

/-- In a state the server can be in, every member of a channel has a nick, and it is valid. -/
theorem ReachableBy.nickAt_of_mem (h : ReachableBy P n) (hch : n.channels.lookup key = some ch)
    (hj : j ∈ ch.members) :
    n.roster.nickAt j = some (n.nickOf j) ∧ Server.validNick (n.nickOf j) := by
  obtain ⟨c, hc, hreg⟩ := h.consistent.registered (channels_roster hch) hj
  obtain ⟨nick, hnick⟩ := isSome_iff_exists.1 (h.welcomed.registered hc hreg).2
  have hat : n.roster.nickAt j = some nick := by rw [Roster.nickAt, hc, bind_some, hnick]
  rw [← nickOf_roster, Roster.nickOf_of_nickAt hat]
  exact ⟨hat, h.validNick hat⟩

def listed (n : Network) (ch : Channel) : Multiset (String × Bool) :=
  ch.members.val.map fun j => (n.nickOf j, decide (j ∈ ch.operators))

/-- Where every nick is a word, and there are not too many of them, the names are read as they were
meant. -/
theorem values_read (h : n.Reachable) (hch : n.channels.lookup key = some ch) {s : Session}
    (hs : s.Plain) (hword : ∀ j ∈ ch.members, ∀ c ∈ (n.nickOf j).toList, Str.isWhitespace c = false)
    (hcard : ch.members.card ≤ maxMembers) :
    (((Map.values ((Str.splitWhitespace (Str.join " " (n.memberNames ch))).foldl
      (Session.addName s.isupport) ∅)).map Member.view : List (String × Bool)) :
        Multiset (String × Bool)) = n.listed ch := by
  have H := h.consistent
  have hat {j} (hj : j ∈ ch.members) : n.roster.nickAt j = some (n.nickOf j) :=
    (h.nickAt_of_mem hch hj).1
  have hsayable : ∀ j ∈ ch.view.members, ∀ nick, n.roster.nickAt j = some nick → Sayable nick := by
    intro j hj nick hn
    obtain rfl := some.inj ((hat hj).symm.trans hn)
    exact Roster.sayable_of_validNick (h.nickAt_of_mem hch hj).2 (hword j hj)
  obtain ⟨l, hnames, hsay, hnodup, hlen, hroll⟩ := H.names_eq hsayable
  rw [← roster_memberNames, hnames]
  have hread (k v) := Session.namesRoll_eq_some (k := k) (v := v) hs hsay hnodup (hlen.trans hcard)
  simp only [Session.namesRoll] at hread
  generalize (Str.splitWhitespace (Str.join " " (l.map fun p => shownName p.1 p.2))).foldl
    (Session.addName s.isupport) ∅ = ms at hread
  have hentry {k m} (hm : ms.lookup k = some m) : m.view ∈ l ∧ Str.toAsciiLowercase m.view.1 = k :=
    (hread _ _).1 (by rw [rollOf, hm]; rfl)
  refine (Multiset.Nodup.ext ?_ ?_).2 fun v => ?_
  · -- the names differ, as the keys they are filed under do
    refine List.Nodup.of_map (fun v => Str.toAsciiLowercase v.1) ?_
    have hkeys : ((Map.values ms).map Member.view).map (fun v => Str.toAsciiLowercase v.1) =
        ms.keys := by
      rw [Map.values, List.map_map, List.map_map]
      refine map_congr_left fun e he => ?_
      exact (hentry (Map.mem_entries_iff.1 he)).2
    rw [hkeys]
    exact ms.keys_nodup
  · refine Multiset.Nodup.map_on (fun i hi j hj he => ?_) ch.members.nodup
    have hname : n.nickOf i = n.nickOf j := congrArg Prod.fst he
    exact H.nickAt_inj (hat hi) (hat hj) (congrArg fold hname)
  · rw [Multiset.mem_coe, List.mem_map, listed, Multiset.mem_map]
    constructor
    · rintro ⟨m, hm, rfl⟩
      obtain ⟨k, hk⟩ := Map.mem_values.1 hm
      obtain ⟨j, hj, hnick, -, hop⟩ := H.roll_eq_some.1 ((hroll k m.view).2 (hentry hk))
      refine ⟨j, hj, Prod.ext ?_ hop.symm⟩
      exact some.inj ((hat hj).symm.trans hnick)
    · rintro ⟨j, hj, rfl⟩
      have hv : n.roster.roll ch.view (fold (n.nickOf j)) = some _ := H.roll_of_mem hj (hat hj)
      obtain ⟨m, hm, hview⟩ := map_eq_some_iff.1 ((hread _ _).2 ((hroll _ _).1 hv))
      exact ⟨m, Map.mem_values.2 ⟨_, hm⟩, hview⟩

def namesReply (n : Network) (id : ClientId) (ch : Channel) : Message where
  source := some (.serverName n.serverName)
  command := .response .rplNamReply
    [n.nickOf id, "=", ch.name, Str.join " " (n.memberNames ch)]

theorem queues_sendNames (h : n.Reachable) (hch : n.channels.lookup key = some ch)
    (hid : (n.clients.lookup id).isSome) :
    ∃ done, (n.sendNames id ch.name).queues id = n.queues id ++ [n.namesReply id ch, done] := by
  have hkey : fold ch.name = key := h.consistent.filed (channels_roster hch)
  have hnames : (n.memberNames ch).isEmpty = false := by
    obtain ⟨j, hj⟩ : ch.members.Nonempty := Finset.nonempty_iff_ne_empty.2
      (h.consistent.members_nonempty (channels_roster hch))
    obtain ⟨c, hc, hnick⟩ := bind_eq_some_iff.1 (h.nickAt_of_mem hch hj).1
    obtain ⟨client, hclient, rfl⟩ := map_eq_some_iff.1 hc
    rw [isEmpty_eq_false_iff_exists_mem]
    refine ⟨if j ∈ ch.operators then "@" ++ n.nickOf j else n.nickOf j,
      mem_sorted.2 ((Multiset.mem_filterMap _ _).2 ⟨j, hj, ?_⟩)⟩
    rw [hclient, bind_some, show client.nick = some (n.nickOf j) from hnick]
    rfl
  have hsent : n.sendNames id ch.name = (n.numericArgs id .rplNamReply
      ["=", ch.name, Str.join " " (n.memberNames ch)]).numericArgs id .rplEndOfNames
        [ch.name, "End of /NAMES list"] := by
    unfold sendNames
    rw [hkey, hch]
    simp only [hnames, Bool.false_eq_true, if_false]
  rw [hsent, queues_numericArgs (by exact hid), queues_numericArgs hid, append_assoc]
  exact ⟨_, rfl⟩

/-- A list of names is read right just where it can be. In every state the server can be in, the
`353` line it sends for a channel, read at the start of a list by a client that has taken in what
the server advertised, leaves exactly the channel's members, each under its nick and with `@`
exactly where it is an operator, if and only if no member's nick has white space in it and there are
at most `maxMembers` of them. -/
theorem names_read_iff (h : n.Reachable) (hch : n.channels.lookup key = some ch) (i : ISupport)
    (s : Session) (hs : s.isupport =
      i.apply (isupportTokens n.networkName ++ ["are supported by this server"]))
    (hburst : s.StartsBurst ch.name) :
    (∀ id, (n.clients.lookup id).isSome → ∃ done,
      (n.sendNames id ch.name).queues id = n.queues id ++ [n.namesReply id ch, done]) ∧
    ((s.onNamesReply ch.name (Str.join " " (n.memberNames ch))).shownMembers ch.name =
        n.listed ch ↔
      (∀ j ∈ ch.members, ∀ c ∈ (n.nickOf j).toList, Str.isWhitespace c = false) ∧
        ch.members.card ≤ maxMembers) := by
  refine ⟨fun id => queues_sendNames h hch, ?_⟩
  obtain ⟨hmap, hpre⟩ := Roster.apply_isupportTokens i n.networkName "are supported by this server"
    (by decide)
  rw [← hs] at hmap hpre
  rw [Session.shownMembers_onNamesReply hburst]
  refine ⟨fun heq => ⟨fun j hj c hc => ?_, ?_⟩, fun ⟨hword, hcard⟩ =>
    values_read h hch ⟨hmap, hpre⟩ hword hcard⟩
  · have hmem : (n.nickOf j, decide (j ∈ ch.operators)) ∈ n.listed ch :=
      Multiset.mem_map.2 ⟨j, hj, rfl⟩
    rw [← heq] at hmem
    obtain ⟨m, hm, hview⟩ := mem_map.1 hmem
    obtain ⟨k, hk⟩ := Map.mem_values.1 hm
    have hnick : m.nick = n.nickOf j := congrArg Prod.fst hview
    rw [← hnick] at hc
    exact Ddirc.Client.nick_addNames (p := fun c => Str.isWhitespace c = false)
      (fun w hw c hc => (Str.of_mem_splitWhitespace hw hc).1) (by simp) k m hk c hc
  · have hlen := congrArg Multiset.card heq
    simp only [Multiset.coe_card, length_map, listed, Multiset.card_map,
      Finset.card_val] at hlen
    rw [← hlen, Map.values, length_map]
    exact Ddirc.Client.length_addNames_le (by simp)

def newcomer : Session :=
  { Session.init "eve" with
    isupport := ({} : ISupport).apply (isupportTokens "net" ++ ["are supported by this server"]) }

theorem startsBurst_newcomer (channel : String) : newcomer.StartsBurst channel :=
  (by decide : 0 < maxChannels)

theorem names_read_iff_meeting :
    let n := (init "srv" "net" 0).run meeting
    ∃ ch, n.channels.lookup "#den" = some ch ∧
      (newcomer.onNamesReply ch.name (Str.join " " (n.memberNames ch))).shownMembers ch.name =
        n.listed ch := by
  have hops : (init "srv" "net" 0).Meets (fun _ _ => True) meeting := by decide +kernel
  have hconn : (((init "srv" "net" 0).run meeting).channels.lookup "#den").isSome := by
    decide +kernel
  have hnet : ((init "srv" "net" 0).run meeting).networkName = "net" := by decide +kernel
  obtain ⟨ch, hch⟩ := isSome_iff_exists.1 hconn
  refine ⟨ch, hch, (names_read_iff ((ReachableBy.init "srv" "net" 0).run hops) hch {} newcomer
    (by rw [hnet, newcomer]) (startsBurst_newcomer _)).2.2 ?_⟩
  have hmembers : (((init "srv" "net" 0).run meeting).channels.lookup "#den").map (·.members) =
      some {1, 2} := by decide +kernel
  rw [hch, map_some, Option.some.injEq] at hmembers
  rw [hmembers]
  have hwords : ∀ j ∈ ({1, 2} : Finset ClientId),
      (((init "srv" "net" 0).run meeting).nickOf j).toList.all (!Str.isWhitespace ·) := by
    decide +kernel
  refine ⟨fun j hj c hc => ?_, (by decide : 2 ≤ maxMembers)⟩
  simpa using all_eq_true.1 (hwords j hj) c hc

/-- Someone whose nick has a no-break space in it makes a channel. -/
def spaced : List Operation :=
  [.connect 1, .handle 1 { command := .nick "ann\u00a0lee" },
    .handle 1 { command := .user "ann" "0" "Ann" },
    .handle 1 { command := .join "#den" none none }]

/-- The nick is accepted, and read as two. -/
theorem names_misread :
    let n := (init "srv" "net" 0).run spaced
    (init "srv" "net" 0).Meets (fun _ _ => True) spaced ∧
    n.networkName = "net" ∧ newcomer.StartsBurst "#den" ∧
    ((n.channels.lookup "#den").map fun ch =>
      (ch.name, (newcomer.onNamesReply ch.name
        (Str.join " " (n.memberNames ch))).shownMembers ch.name, n.listed ch)) =
      some ("#den", {("ann", true), ("lee", false)}, {("ann\u00a0lee", true)}) :=
  ⟨by decide +kernel, by decide +kernel, startsBurst_newcomer _, by decide +kernel⟩

end Network

end Ddirc.Server
