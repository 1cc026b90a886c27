import Ddirc.Server.Safety

/-! # Departures and new names

Whatever takes a client from the server, each other client in a channel with it is queued one
`QUIT`; and when a registered client takes another nick, it and they are queued one `NICK`
(`departures_and_renames`). -/

namespace Ddirc.Server
open Irc Option

namespace Network
variable {op : Operation}

variable {n n' : Network} {id i j : ClientId}

def shares (n : Network) (i j : ClientId) : Prop := ∃ k, n.isMember i k ∧ n.isMember j k

theorem isMember_iff : n.isMember j k ↔ ∃ ch, n.channels.lookup k = some ch ∧ j ∈ ch.members := by
  unfold isMember
  cases n.channels.lookup k <;> simp

/-- Walking the channels a client has down as its own reaches whoever is in one with it. -/
theorem sharesOne_iff (H : n.roster.Consistent) (hc : n.clients.lookup id = some client) :
    n.sharesOne client.channels j ↔ n.shares id j := by
  have hin (k : String) : k ∈ client.channels ↔ n.isMember id k := by
    refine (H.channels_iff (clients_roster hc)).trans (isMember_iff.trans ?_).symm
    simp [roster, Channel.view]
  exact exists_congr fun k => and_congr_left fun _ => hin k

theorem shares.connected (H : n.roster.Consistent) (h : n.shares i j) :
    (n.clients.lookup j).isSome := by
  obtain ⟨k, -, hj⟩ := h
  obtain ⟨ch, hch, hmem⟩ := isMember_iff.1 hj
  obtain ⟨c, hc, -⟩ := isRegistered_iff.1 (roster_isRegistered_of_member H hch hmem)
  rw [hc]
  rfl

/-- Between two states `j` is queued `m` if it is one of `whom`, and nothing if it is not. -/
def Told (n n' : Network) (whom : ClientId → Prop) (m : Message) (j : ClientId) : Prop :=
  (whom j → n'.queues j = n.queues j ++ [m]) ∧ (¬whom j → n'.queues j = n.queues j)

theorem told_deliver [DecidablePred sent] (hsent : sent j ↔ whom j)
    (hj : whom j → (n.clients.lookup j).isSome) :
    n.Told (n.deliver fun i => if sent i then some m else none) whom m j := by
  simp only [Told, deliver]
  refine ⟨fun h => ?_, fun h => ?_⟩
  · rw [if_pos (hj h), if_pos (hsent.2 h)]
    rfl
  · simp [hsent, h]

theorem Told.congr {before after : Network} (h : before.Told after whom m j)
    (hn : n.queues j = before.queues j) (hn' : n'.queues j = after.queues j) :
    n.Told n' whom m j := by
  unfold Told
  rw [hn, hn']
  exact h

/-! ## Departures -/

def quitOf (client : Client) (said : String) : Message where
  source := some client.origin
  command := .quit (some said)

theorem disconnect_told (H : n.roster.Consistent) (hc : n.clients.lookup id = some client)
    (hj : j ≠ id) (reason : String) : n.Told (n.disconnect id reason) (n.shares id)
      (quitOf client (client.quitReason.getD reason)) j := by
  let gone (kind : EventKind) : Network :=
    (({ n with clients := n.clients.erase id } : Network).release client.nick).emit kind
  have hqueues (kind : EventKind) : n.queues j = (gone kind).queues j := by
    rw [queues_emit]
    rfl
  have hsent (kind : EventKind) :
      ((gone kind).leaveAll id client.channels).sharesOne client.channels j ↔ n.shares id j := by
    rw [sharesOne_leaveAll, ← sharesOne_iff H hc, sharesOne, channels_emit]
    exact and_iff_right hj
  have hthere (kind : EventKind) (h : n.shares id j) : ((gone kind).clients.lookup j).isSome := by
    rw [clients_emit]
    exact (congrArg Option.isSome ((Map.lookup_erase ..).trans (if_neg hj))).trans (h.connected H)
  simp only [disconnect, hc]
  exact (told_deliver (hsent _) (hthere _)).congr (hqueues _) rfl

theorem close_told (H : n.roster.Consistent) (hc : n.clients.lookup id = some client) (hj : j ≠ id)
    (reason : String) :
    n.Told (n.close id reason) (n.shares id) (quitOf client (truncate reason topicLen)) j := by
  let ending := (n.send id (.ofCommand (.error ("Closing Link: " ++ host ++ " (" ++
    truncate reason topicLen ++ ")")))).modifyClient id
      ({ · with quitReason := some (truncate reason topicLen) })
  have hc' : ending.clients.lookup id =
      some { client with quitReason := some (truncate reason topicLen) } := by
    exact (Map.lookup_modify ..).trans (by rw [if_pos rfl]; exact congrArg _ hc)
  have hroster : ending.roster = n.roster := roster_closing _ _
  refine (disconnect_told (hroster ▸ H) hc' hj _).congr ?_ rfl
  simp [ending, modifyClient, send, deliver, hj]

theorem isSome_perform (hd : d ≠ .erase id) (h : (n.clients.lookup id).isSome) :
    ((n.perform d).clients.lookup id).isSome := by
  have hmodify {n : Network} {i : ClientId} {f : Client → Client}
      (h : (n.clients.lookup id).isSome) : ((n.modifyClient i f).clients.lookup id).isSome := by
    simp only [modifyClient, Map.lookup_modify]
    split
    · rwa [isSome_map]
    · exact h
  cases d with
  | emit kind => rwa [perform, clients_emit]
  | edit | claim | enter | remove => exact hmodify h
  | erase i =>
    simp only [perform, Map.lookup_erase]
    rwa [if_neg fun he => hd (congrArg Deed.erase he.symm)]
  | accept i =>
    simp only [perform, Map.lookup_insert]
    split
    · rfl
    · exact h
  | _ => exact h

theorem departs_of_gone (h : (n.clients.lookup id).isSome)
    (hgone : (n.apply op).clients.lookup id = none) : n.Departs id op := by
  by_contra hstay
  have hthere : ((n.apply op).clients.lookup id).isSome := by
    refine (apply_did op).keeps (I := fun n => (n.clients.lookup id).isSome) (fun _ d hd => ?_) h
    refine isSome_perform ?_
    rintro rfl
    exact hstay (licence_erase hd)
  simp [hgone] at hthere

/-- Whatever takes a client from the server closes its connection, or finds it closed. -/
theorem Departs.ends (hc : n.clients.lookup id = some client) (h : n.Departs id op) :
    ∃ banned reason,
      ∃ ended ∈ [disconnect { n with banned } id reason, close { n with banned } id reason],
      (n.apply op).clients = ended.clients ∧ (n.apply op).queues = ended.queues := by
  have hclose (banned : Finset String) (reason : String) : close { n with banned } id reason ∈
      [disconnect { n with banned } id reason, close { n with banned } id reason] := by simp
  cases op with
  | handle i message =>
    obtain ⟨rfl, reason, hr⟩ := h
    simp only [apply, handle, hc, hr]
    exact ⟨n.banned, _, _, hclose _ _, rfl, rfl⟩
  | disconnect i reason =>
    obtain rfl := h
    exact ⟨n.banned, reason, _, List.mem_cons_self, rfl, rfl⟩
  | runAdmin command =>
    rw [apply, runAdmin, clients_emit, queues_emit]
    cases command with
    | disconnect nick reason =>
      rw [execute, show n.registered nick = .ok id from h]
      exact ⟨n.banned, _, _, hclose _ _, rfl, rfl⟩
    | ban nick reason =>
      obtain ⟨hvalid, hnew, hheld⟩ := h
      simp only [execute, ban]
      rw [if_neg (by simp [hvalid]), if_neg hnew, hheld]
      exact ⟨_, _, _, hclose _ _, rfl, rfl⟩
    | _ => exact h.elim
  | _ => exact h.elim

theorem departs_told (H : n.roster.Consistent) (hc : n.clients.lookup id = some client)
    (h : n.Departs id op) :
    ∃ said, ∀ j ≠ id, n.Told (n.apply op) (n.shares id) (quitOf client said) j := by
  obtain ⟨banned, reason, ended, hended, -, hq⟩ := h.ends hc
  rcases List.mem_pair.1 hended with rfl | rfl
  · exact ⟨_, fun j hj => (disconnect_told (n := { n with banned }) H hc hj reason).congr rfl
      (congrFun hq j)⟩
  · exact ⟨_, fun j hj => (close_told (n := { n with banned }) H hc hj reason).congr rfl
      (congrFun hq j)⟩

theorem gone_iff (h : (n.clients.lookup id).isSome) :
    (n.apply op).clients.lookup id = none ↔ n.Departs id op := by
  refine ⟨departs_of_gone h, fun hd => ?_⟩
  obtain ⟨client, hc⟩ := isSome_iff_exists.1 h
  obtain ⟨banned, reason, ended, hended, hcl, -⟩ := hd.ends hc
  rw [hcl]
  rcases List.mem_pair.1 hended with rfl | rfl
  · exact lookup_disconnect
  · exact lookup_close

/-! ## New names -/

def nickOfOld (client : Client) (old new : String) : Message where
  source := some (.nickname old (client.user.getD new) host)
  command := .nick new

/-- A client keeps its nick through every deed that does not give it one. -/
theorem nick_perform (hclaim : ∀ nick, d ≠ .claim id nick) (haccept : d ≠ .accept id)
    (hedit : ∀ f, d = .edit id f → Edits f) (h : (n.perform d).clients.lookup id = some after) :
    ∃ c, n.clients.lookup id = some c ∧ c.nick = after.nick := by
  by_cases herase : d = .erase id
  · subst herase
    simp [perform] at h
  by_cases hed : ∃ f, d = .edit id f
  · obtain ⟨f, rfl⟩ := hed
    obtain ⟨c, hc, rfl⟩ :=
      map_eq_some_iff.1 (((Map.lookup_modify ..).trans (if_pos rfl)).symm.trans h)
    exact ⟨c, hc, (hedit f rfl c).1.symm⟩
  have hrecord := record_perform (n := n) (fun f hf => hed ⟨f, hf⟩) hclaim herase haccept
  rw [record, h] at hrecord
  obtain ⟨c, hc, he⟩ := map_eq_some_iff.1 hrecord.symm
  exact ⟨c, hc, (congrArg Client.nick he :)⟩

theorem lookup_claimNick (hc : n.clients.lookup id = some client) :
    (n.claimNick id nick).clients.lookup id = some { client with nick := some nick } :=
  (Map.lookup_modify ..).trans (by simp [release, hc])

/-- A connected client keeps its nick, but for its own `NICK`. -/
theorem nick_apply (hop : n.Allows op) (hc : n.clients.lookup id = some client)
    (hafter : (n.apply op).clients.lookup id = some after) :
    after.nick = client.nick ∨ ∃ message typed, op = .handle id message ∧
      message.command = .nick typed ∧ after.nick = some (Str.trim typed) := by
  refine (apply_did op).keeps (I := fun n' => ∀ after, n'.clients.lookup id = some after →
    after.nick = client.nick ∨ ∃ message typed, op = .handle id message ∧
      message.command = .nick typed ∧ after.nick = some (Str.trim typed)) ?_ ?_ after hafter
  · intro n' d hd ih after hafter
    by_cases hclaim : ∃ nick, d = .claim id nick
    · obtain ⟨nick, rfl⟩ := hclaim
      obtain ⟨-, message, typed, hop, hm, rfl⟩ := licence_claim hd
      obtain ⟨c, -, rfl⟩ :=
        map_eq_some_iff.1 (((Map.lookup_modify ..).trans (if_pos rfl)).symm.trans hafter)
      exact .inr ⟨message, typed, hop, hm, rfl⟩
    have haccept : d ≠ .accept id := by
      rintro rfl
      obtain rfl := licence_accept hd
      simp [Allows, hc] at hop
    obtain ⟨c, hc', hnick⟩ := nick_perform (fun nick he => hclaim ⟨nick, he⟩) haccept
      (fun f he => (licence_edit (he ▸ hd)).1) hafter
    exact hnick ▸ ih c hc'
  · intro c hc'
    exact .inl (by rw [some.inj (hc'.symm.trans hc)])

theorem lookup_changeNick (hc : n.clients.lookup id = some client) (hreg : client.registered)
    (hold : client.nick = some old) :
    (n.changeNick id nick).clients.lookup id = some { client with nick := some nick } := by
  have hreg' : n.isRegistered id := by simp [isRegistered, hc, hreg]
  simp only [changeNick, hc, bind_some, hreg', hold]
  split
  · simp only [tellPeers, clients_emit, lookup_claimNick hc]
    rw [deliver, clients_emit, lookup_claimNick hc]
  · exact lookup_claimNick hc

theorem changeNick_told (H : n.roster.Consistent) (hc : n.clients.lookup id = some client)
    (hreg : client.registered) (hold : client.nick = some old) (hne : old ≠ nick) :
    n.Told (n.changeNick id nick) (fun j => j = id ∨ n.shares id j)
      (nickOfOld client old nick) j := by
  have hreg' : n.isRegistered id := by simp [isRegistered, hc, hreg]
  have hc' : ((n.claimNick id nick).emit (.nickChanged old nick)).clients.lookup id =
      some { client with nick := some nick } := by
    rw [clients_emit, lookup_claimNick hc]
  have hsent : (True ∧ j = id) ∨
      ((n.claimNick id nick).emit (.nickChanged old nick)).sharesOne client.channels j ↔
        j = id ∨ n.shares id j := by
    rw [sharesOne, channels_emit, ← sharesOne_iff H hc]
    rw [true_and]
    rfl
  have hthere (h : j = id ∨ n.shares id j) :
      (((n.claimNick id nick).emit (.nickChanged old nick)).clients.lookup j).isSome := by
    rw [clients_emit]
    refine isSome_perform (d := .claim id nick) (by simp) ?_
    rcases h with rfl | h
    · rw [hc]
      rfl
    · exact h.connected H
  simp only [changeNick, hc, bind_some, hreg', hold, tellPeers, hc', if_pos hne]
  refine (told_deliver hsent hthere).congr ?_ rfl
  rw [queues_emit]
  rfl

theorem onNick_told (H : n.roster.Consistent) (hc : n.clients.lookup id = some client)
    (hreg : client.registered) (hold : client.nick = some old)
    (hafter : (n.onNick id typed).clients.lookup id = some after) (hnew : after.nick = some new)
    (hne : old ≠ new) :
    n.Told (n.onNick id typed) (fun j => j = id ∨ n.shares id j) (nickOfOld client old new) j := by
  rcases onNick_cases n id typed with ⟨response, args, -, h⟩ | h
  · rw [h] at hafter
    rw [← some.inj (hc.symm.trans hafter), hold] at hnew
    exact absurd (some.inj hnew) hne
  · rw [h, lookup_changeNick hc hreg hold] at hafter
    obtain rfl := some.inj hafter
    obtain rfl := some.inj hnew
    rw [h]
    exact changeNick_told H hc hreg hold hne

theorem handle_nick (hc : n.clients.lookup id = some client) (hm : message.command = .nick typed) :
    n.handle id message = n.onNick id typed := by
  simp only [handle, hc, hm, isNone_some, Bool.false_eq_true, if_false]

/-- In every state the server can be in, an operation takes a client away exactly when it is its
`QUIT`, the loss of its connection, or the operator's disconnecting it or banning the nick it holds.
Then everyone else in a channel with it is queued one `QUIT` from it, and nobody else anything. And
when a registered client has another nick after an operation, it and everyone in a channel with it
are queued one `NICK` from the old nick to the new, and nobody else anything. -/
theorem departures_and_renames (h : n.Reachable) (op : Operation) (hop : n.Allows op)
    (hc : n.clients.lookup id = some client) :
    ((n.apply op).clients.lookup id = none ↔ n.Departs id op) ∧
    ((n.apply op).clients.lookup id = none →
      ∃ said, ∀ j ≠ id, n.Told (n.apply op) (n.shares id) (quitOf client said) j) ∧
    ∀ after old new, (n.apply op).clients.lookup id = some after → client.registered = true →
      client.nick = some old → after.nick = some new → old ≠ new →
      ∀ j, n.Told (n.apply op) (fun j => j = id ∨ n.shares id j) (nickOfOld client old new) j := by
  have H := h.consistent
  have hgone : (n.apply op).clients.lookup id = none ↔ n.Departs id op := gone_iff (by rw [hc]; rfl)
  refine ⟨hgone, fun hd => departs_told H hc (hgone.1 hd), ?_⟩
  intro after old new hafter hreg hold hnew hne j
  obtain ⟨message, typed, rfl, hm, -⟩ := (nick_apply hop hc hafter).resolve_left fun he =>
    hne (some.inj (hold.symm.trans (he.symm.trans hnew)))
  have hnick : n.apply (.handle id message) = n.onNick id typed := handle_nick hc hm
  rw [hnick] at hafter ⊢
  exact onNick_told H hc hreg hold hafter hnew hne

/-- Ann and Bob share two channels: whichever way Ann goes, Bob is told once. -/
theorem departures_and_renames_meeting :
    let n := (init "srv" "net" 0).run (meeting ++ [.handle 1 { command := .join "#b" none none },
      .handle 2 { command := .join "#b" none none }])
    n.clients.lookup 1 ≠ none ∧ ∀ reason, ∃ client said,
      n.Told (n.apply (.disconnect 1 reason)) (n.shares 1) (quitOf client said) 2 := by
  have hops : (init "srv" "net" 0).Meets (fun _ _ => True) (meeting ++
      [.handle 1 { command := .join "#b" none none },
        .handle 2 { command := .join "#b" none none }]) := by decide +kernel
  have hconn : (((init "srv" "net" 0).run (meeting ++
      [.handle 1 { command := .join "#b" none none },
        .handle 2 { command := .join "#b" none none }])).clients.lookup 1).isSome := by
    decide +kernel
  obtain ⟨client, hc⟩ := isSome_iff_exists.1 hconn
  refine ⟨by rw [hc]; exact some_ne_none _, fun reason => ?_⟩
  obtain ⟨hgone, htold, -⟩ := departures_and_renames
    ((ReachableBy.init "srv" "net" 0).run hops) (.disconnect 1 reason) trivial hc
  obtain ⟨said, h⟩ := htold (hgone.2 rfl)
  exact ⟨client, said, h 2 (by decide)⟩

end Network

end Ddirc.Server
