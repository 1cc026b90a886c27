import Ddirc.Server.Invariant

/-! # What clients cannot do to each other

No connected client holds a banned nick (`nick_unbanned`). Nobody loses their place in a channel
through a client that is not an operator there, and nobody's nick, user name or registration is
another's to change (`others_untouched`). What one client says reaches one that has not registered
only where it is addressed to the nick it holds (`unregistered_hears_iff`). -/

namespace Ddirc.Server
open Irc Option Map

namespace Network
variable {d : Deed} {op : Operation} {before : Network}

variable {n : Network} {id i j : ClientId}

/-! ## Bans -/

@[simp] theorem nicks_emit : (n.emit kind).nicks = n.nicks := by
  unfold emit
  split <;> rfl

@[simp] theorem banned_emit : (n.emit kind).banned = n.banned := by
  unfold emit
  split <;> rfl

theorem lookup_nicks_perform (h : (n.perform d).nicks.lookup k = some i) :
    n.nicks.lookup k = some i ∨ ∃ nick, d = .claim i nick ∧ fold nick = k := by
  have hreleased {old : Option String} (h : (n.release old).nicks.lookup k = some i) :
      n.nicks.lookup k = some i := by
    cases old with
    | none => exact h
    | some old =>
      simp only [release, lookup_erase] at h
      split at h
      · cases h
      · exact h
  cases d with
  | claim id nick =>
    simp only [perform, claimNick, modifyClient, lookup_insert] at h
    split at h
    next hk =>
      obtain rfl := some.inj h
      exact .inr ⟨nick, rfl, hk.symm⟩
    · exact .inl (hreleased h)
  | release old => exact .inl (hreleased h)
  | emit kind =>
    rw [perform, nicks_emit] at h
    exact .inl h
  | _ => exact .inl h

theorem banned_perform (h : k ∈ (n.perform d).banned) : k ∈ n.banned ∨ d = .ban k := by
  cases d with
  | ban key =>
    rcases Finset.mem_insert.1 h with rfl | h
    · exact .inr rfl
    · exact .inl h
  | unban key => exact .inl (Finset.mem_of_mem_erase h)
  | emit kind =>
    rw [perform, banned_emit] at h
    exact .inl h
  | _ => exact .inl h

/-- No nick that is banned is held, but perhaps for those in `open_`. -/
def BansHold (open_ : String → Prop) (n : Network) : Prop :=
  ∀ k ∈ n.banned, open_ k ∨ n.nicks.lookup k = none

def bans : Operation → String → Prop
  | .runAdmin (.ban nick _), k => k = fold nick
  | _, _ => False

/-- An operation bans what it says, and gives nobody a nick that is banned. -/
theorem BansHold.perform (h : n.BansHold (bans op))
    (hd : before.licence op n d) : (n.perform d).BansHold (bans op) := by
  intro k hk
  rcases banned_perform hk with hk | rfl
  · rcases h k hk with h | h
    · exact .inl h
    · refine .inr (eq_none_iff_forall_not_mem.2 fun i hi => ?_)
      rcases lookup_nicks_perform hi with hi | ⟨nick, rfl, rfl⟩
      · simp [h] at hi
      · exact (licence_claim hd).1 hk
  · refine .inl ?_
    cases op with
    | runAdmin command =>
      obtain ⟨nick, reason, rfl, rfl⟩ := hd
      exact rfl
    | observe | tick now => exact hd.elim False.elim nofun
    | _ => exact hd.elim

theorem lookup_disconnect : (n.disconnect id reason).clients.lookup id = none := by
  simp only [disconnect]
  split
  next h => exact h
  · simp [dropEmpty, deliver, leaveAll, release]

theorem lookup_close : (n.close id reason).clients.lookup id = none := lookup_disconnect

theorem Did.lookup_nicks (hdid : n.Did P n') (hP : ∀ n i nick, ¬P n (.claim i nick))
    (h : n'.nicks.lookup k = some i) : n.nicks.lookup k = some i := by
  refine hdid.keeps (I := fun n' => n'.nicks.lookup k = some i → n.nicks.lookup k = some i) ?_
    (fun h => h) h
  intro n' d hd ih h
  rcases lookup_nicks_perform h with h | ⟨nick, rfl, -⟩
  · exact ih h
  · exact absurd hd (hP n' i nick)

/-- Whoever holds a nick as it is banned is disconnected. -/
theorem lookup_nicks_ban (H : n.roster.Consistent)
    (hfree : fold nick ∈ n.banned → n.nicks.lookup (fold nick) = none)
    (hk : fold nick ∈ (n.apply (.runAdmin (.ban nick reason))).banned) :
    (n.apply (.runAdmin (.ban nick reason))).nicks.lookup (fold nick) = none := by
  have H' : (n.apply (.runAdmin (.ban nick reason))).roster.Consistent :=
    H.steps (apply_steps trivial)
  refine eq_none_iff_forall_not_mem.2 fun i hi => ?_
  have hheld : n.nicks.lookup (fold nick) = some i :=
    (apply_did (.runAdmin (.ban nick reason))).lookup_nicks (fun _ _ _ hd => hd) hi
  obtain ⟨c, -, hc, -⟩ := H'.nicks_iff.1 hi
  simp only [apply, runAdmin, execute, banned_emit, ban] at hk hc
  split at hk
  · simp [hfree hk] at hheld
  next hvalid =>
    split at hk
    next hbanned => simp [hfree hbanned] at hheld
    next hnew =>
      rw [if_neg hvalid, if_neg hnew, hheld] at hc
      simp [roster, lookup_close] at hc

theorem BansHold.apply (H : n.roster.Consistent) (h : n.BansHold fun _ => False) :
    (n.apply op).BansHold fun _ => False := by
  have hop : (n.apply op).BansHold (bans op) :=
    (apply_did op).keeps (fun _ _ hd h => h.perform hd) fun k hk => .inr ((h k hk).resolve_left id)
  intro k hk
  refine .inr ((hop k hk).elim (fun hb => ?_) id)
  cases op with
  | runAdmin command =>
    cases command with
    | ban nick reason =>
      obtain rfl : k = fold nick := hb
      exact lookup_nicks_ban H (fun hn => (h _ hn).resolve_left id) hk
    | _ => exact hb.elim
  | _ => exact hb.elim

theorem ReachableBy.bansHold (h : ReachableBy P n) : n.BansHold fun _ => False := by
  induction h with
  | init => exact fun k hk => absurd hk (Finset.notMem_empty k)
  | step op hn _ _ ih => exact ih.apply hn.consistent

/-- No connected client, registered or not, holds a nick that is banned. -/
theorem nick_unbanned (h : n.Reachable) (hc : n.clients.lookup id = some client)
    (hnick : client.nick = some nick) : fold nick ∉ n.banned := by
  intro hk
  have hheld := (indexes_agree h).1 (fold nick) id |>.2 ⟨client, nick, hc, hnick, rfl⟩
  rcases h.bansHold _ hk with h | h
  · exact h
  · simp [h] at hheld

/-- Someone takes a nick before registering, it is banned, and someone else asks for it in other
letters. -/
def evicting : List Operation :=
  let line (id : ClientId) (command : Command) := Operation.handle id { command }
  [.connect 1, line 1 (.nick "Eve"), .connect 2, line 2 (.nick "ann"),
    line 2 (.user "ann" "0" "Ann"), .runAdmin (.ban "eve" none), line 2 (.nick "EVE")]

theorem nick_unbanned_evicting :
    let n := (init "srv" "net" 0).run evicting
    n.banned = {"eve"} ∧ n.clients.keys = [2] ∧ ∃ client, n.clients.lookup 2 = some client ∧
      client.nick = some "ann" ∧ fold "ann" ∉ n.banned := by
  have hops : (init "srv" "net" 0).Meets (fun _ _ => True) evicting := by decide +kernel
  have hnick :
      (((init "srv" "net" 0).run evicting).clients.lookup 2).bind (·.nick) = some "ann" := by
    decide +kernel
  obtain ⟨client, hc, hn⟩ := bind_eq_some_iff.1 hnick
  exact ⟨by decide +kernel, by decide +kernel, client, hc, hn,
    nick_unbanned ((ReachableBy.init "srv" "net" 0).run hops) hc hn⟩

/-! ## Other clients -/

def isMember (n : Network) (j : ClientId) (k : String) : Bool :=
  (n.channels.lookup k).any (j ∈ ·.members)

def isOperator (n : Network) (j : ClientId) (k : String) : Bool :=
  (n.channels.lookup k).any (j ∈ ·.operators)

/-- Whether `j` is in a channel, in both the places where that is kept. -/
def membership (n : Network) (j : ClientId) (k : String) : Bool × Bool :=
  (n.isMember j k, (n.clients.lookup j).any (k ∈ ·.channels))

/-- Who a client is to the others. -/
def persona (n : Network) (j : ClientId) : Option (Option String × Option String × Bool) :=
  (n.clients.lookup j).map fun c => (c.nick, c.user, c.registered)

/-- A client's record, but for its channels. -/
def record (n : Network) (j : ClientId) : Option Client :=
  (n.clients.lookup j).map ({ · with channels := ∅ })

theorem persona_eq_record :
    n.persona j = (n.record j).map fun c => (c.nick, c.user, c.registered) := by
  simp only [persona, record]
  cases n.clients.lookup j <;> rfl

theorem record_modifyClient
    (h : j = i → ∀ c, { f c with channels := ∅ } = { c with channels := ∅ }) :
    (n.modifyClient i f).record j = n.record j := by
  simp only [record, modifyClient, lookup_modify]
  split
  next hi =>
    cases n.clients.lookup j with
    | none => rfl
    | some c => exact congrArg some (h hi c)
  · rfl

theorem isMember_roster : n.isMember j k = (n.roster.channels k).any (j ∈ ·.members) := by
  simp only [isMember, roster]
  cases n.channels.lookup k <;> rfl

theorem isOperator_roster : n.isOperator j k = (n.roster.channels k).any (j ∈ ·.operators) := by
  simp only [isOperator, roster]
  cases n.channels.lookup k <;> rfl

theorem any_members_without (room : Option Room) (hj : j ≠ i) :
    ((room.map (·.without i)).filter (·.members ≠ ∅)).any (j ∈ ·.members) =
      room.any (j ∈ ·.members) := by
  cases room with
  | none => rfl
  | some room =>
    have hmem : j ∈ (room.without i).members ↔ j ∈ room.members := by simp [Room.without, hj]
    by_cases he : (room.without i).members = ∅
    · have : j ∉ room.members := fun h => by simp [he] at hmem; exact hmem h
      simp [he, this]
    · simp [he, hmem]

theorem isMember_removeMember (h : key = k → j ≠ i) :
    (n.removeMember key i).isMember j k = n.isMember j k := by
  rw [isMember_roster, isMember_roster, roster_removeMember]
  simp only [Roster.remove, Function.update_apply]
  split
  next hk => rw [hk, any_members_without _ (h hk.symm)]
  · rfl

theorem isOperator_removeMember (h : (n.removeMember key i).isOperator j k) : n.isOperator j k := by
  rw [isOperator_roster, roster_removeMember] at h
  rw [isOperator_roster]
  simp only [Roster.remove, Function.update_apply] at h
  split at h
  next hk =>
    subst hk
    cases hr : n.roster.channels k with
    | none => simp [hr] at h
    | some room =>
      simp only [hr, any_eq_true, filter_eq_some_iff] at h
      obtain ⟨left, ⟨hleft, -⟩, hj⟩ := h
      obtain rfl := some.inj hleft
      simpa using Finset.mem_of_mem_erase (of_decide_eq_true hj)
  · exact h

theorem isMember_perform (hd : Licensed id command n d) (hj : j ≠ id)
    (hkick : d ≠ .remove k j) : (n.perform d).isMember j k = n.isMember j k := by
  cases d with
  | emit kind => simp only [perform, isMember, channels_emit]
  | enter i name =>
    obtain ⟨rfl, -⟩ := hd
    simp only [perform, place, isMember, modifyClient, lookup_insert]
    split
    next hk =>
      subst hk
      unfold entered
      split
      next ch hch => simp [hch, hj]
      next hch => simp [hch, hj]
    · rfl
  | remove key i =>
    refine isMember_removeMember fun hk hi => hkick ?_
    rw [hk, hi]
  | setTopic key topic =>
    simp only [perform, isMember, lookup_modify]
    split
    next hk => cases n.channels.lookup k <;> simp
    · rfl
  | leaveAll i names =>
    obtain ⟨rfl, -⟩ := hd
    simp only [perform, isMember, leaveAll, lookup_mapVal]
    cases n.channels.lookup k with
    | none => rfl
    | some ch =>
      split
      · simp [Channel.without, hj]
      · rfl
  | dropEmpty =>
    simp only [perform, isMember, dropEmpty, lookup_retain]
    cases n.channels.lookup k with
    | none => rfl
    | some ch =>
      by_cases hm : ch.members = ∅
      · simp [hm]
      · simp [hm]
  | appoint | countConnection | accept | ban | unban | setMotd | observe | tick => exact hd.elim
  | _ => rfl

/-- Only a client who makes a channel is made an operator, and only of that channel. -/
theorem isOperator_perform (hd : Licensed id command n d) (h : (n.perform d).isOperator j k) :
    n.isOperator j k ∨ (n.channels.lookup k = none ∧ ∃ i name, d = .enter i name) := by
  cases d with
  | emit kind =>
    simp only [perform, isOperator, channels_emit] at h
    exact .inl h
  | enter i name =>
    simp only [perform, place, isOperator, modifyClient, lookup_insert] at h
    split at h
    next hk =>
      subst hk
      unfold entered at h
      split at h
      next ch hch => exact .inl (by simpa [isOperator, hch] using h)
      next hch => exact .inr ⟨hch, i, name, rfl⟩
    · exact .inl h
  | remove key i => exact .inl (isOperator_removeMember h)
  | setTopic key topic =>
    simp only [perform, isOperator, lookup_modify] at h
    refine .inl ?_
    rw [isOperator]
    split at h
    · cases hch : n.channels.lookup k with
      | none => simp [hch] at h
      | some ch => simpa [hch] using h
    · exact h
  | leaveAll i names =>
    simp only [perform, isOperator, leaveAll, lookup_mapVal] at h
    refine .inl ?_
    rw [isOperator]
    cases hch : n.channels.lookup k with
    | none => simp [hch] at h
    | some ch =>
      simp only [hch, map_some, any_some, decide_eq_true_eq] at h ⊢
      split at h
      · exact Finset.mem_of_mem_erase h
      · exact h
  | dropEmpty =>
    simp only [perform, isOperator, dropEmpty, lookup_retain, any_eq_true,
      filter_eq_some_iff] at h
    obtain ⟨ch, ⟨hch, -⟩, hj⟩ := h
    exact .inl (by simpa [isOperator, hch] using hj)
  | appoint | countConnection | accept | ban | unban | setMotd | observe | tick => exact hd.elim
  | _ => exact .inl h

/-- A `JOIN` takes no channel away. -/
theorem channels_perform_join (hd : Licensed id (.join targets keys real) n d)
    (h : (n.perform d).channels.lookup k = none) : n.channels.lookup k = none := by
  cases d with
  | emit kind => rwa [perform, channels_emit] at h
  | enter i name =>
    simp only [perform, place, modifyClient, lookup_insert] at h
    split at h
    · cases h
    · exact h
  | remove key i =>
    rcases hd with ⟨-, _, _, hd⟩ | ⟨⟨_, _, _, hd⟩, -⟩
    · cases hd
    · cases hd
  | setTopic key topic =>
    simp only [perform, lookup_modify] at h
    split at h
    · exact map_eq_none_iff.1 h
    · exact h
  | leaveAll i names => obtain ⟨_, hquit⟩ := hd.2; cases hquit
  | dropEmpty => obtain ⟨_, hquit⟩ := hd; cases hquit
  | appoint | countConnection | accept | ban | unban | setMotd | observe | tick => exact hd.elim
  | _ => exact h

theorem isOperator_handle (h : (n.handle i message).isOperator j k) :
    n.isOperator j k ∨ n.channels.lookup k = none := by
  have hdid : n.Did (Licensed i message.command) (n.handle i message) := handle_did
  by_cases hjoin : ∃ targets keys real, message.command = .join targets keys real
  · obtain ⟨targets, keys, real, hc⟩ := hjoin
    rw [hc] at hdid
    -- a channel that is missing on the way was missing from the start
    refine (hdid.keeps (I := fun n' => (n'.channels.lookup k = none → n.channels.lookup k = none) ∧
      (n'.isOperator j k → n.isOperator j k ∨ n.channels.lookup k = none)) ?_
      ⟨fun h => h, .inl⟩).2 h
    rintro n' d hd ⟨hnone, hop⟩
    refine ⟨fun h => hnone (channels_perform_join hd h), fun h => ?_⟩
    rcases isOperator_perform hd h with h | ⟨h, -⟩
    · exact hop h
    · exact .inr (hnone h)
  · refine .inl (hdid.keeps (I := fun n' => n'.isOperator j k → n.isOperator j k) ?_ (fun h => h) h)
    intro n' d hd ih h
    rcases isOperator_perform hd h with h | ⟨-, i, name, rfl⟩
    · exact ih h
    · exact absurd hd.2.1 hjoin

/-- The deeds that write to a client's record, but for its channels. -/
theorem record_perform (hedit : ∀ f, d ≠ .edit j f) (hclaim : ∀ nick, d ≠ .claim j nick)
    (herase : d ≠ .erase j) (haccept : d ≠ .accept j) : (n.perform d).record j = n.record j := by
  cases d with
  | emit kind => simp only [perform, record, clients_emit]
  | edit i f => exact record_modifyClient fun hi => absurd (hi ▸ rfl) (hedit f)
  | claim i nick => exact record_modifyClient fun hi => absurd (hi ▸ rfl) (hclaim nick)
  | enter i name | remove key i => exact record_modifyClient fun _ _ => rfl
  | erase i =>
    simp only [perform, record, lookup_erase, if_neg fun hi : j = i => herase (hi ▸ rfl)]
  | accept i =>
    simp only [perform, record, lookup_insert, if_neg fun hi : j = i => haccept (hi ▸ rfl)]
  | _ => rfl

/-- Nobody's record is another's to write, but for its channels, while they stay. -/
theorem record_apply (hhandle : ∀ message, op ≠ .handle j message) (hconnect : op ≠ .connect j)
    (hstay : ¬n.Departs j op) : (n.apply op).record j = n.record j := by
  refine (apply_did op).keeps (I := fun n' => n'.record j = n.record j) ?_ rfl
  refine fun n' d hd ih => Eq.trans (record_perform ?_ ?_ ?_ ?_) ih
  · rintro f rfl
    exact (licence_edit hd).2.elim (fun ⟨message, h⟩ => hhandle message h) hstay
  · rintro nick rfl
    obtain ⟨-, message, -, h, -⟩ := licence_claim hd
    exact hhandle message h
  · rintro rfl
    exact hstay (licence_erase hd)
  · rintro rfl
    exact hconnect (licence_accept hd)

theorem persona_handle (hj : j ≠ i) : (n.handle i message).persona j = n.persona j := by
  have hrecord : (n.apply (.handle i message)).record j = n.record j :=
    record_apply (fun _ h => hj (Operation.handle.inj h).1.symm) nofun fun h => hj h.1.symm
  rw [persona_eq_record, persona_eq_record, ← hrecord]
  rfl

/-! ### Kicks -/

theorem isMember_kickMember (h : key = k → j ≠ victim) :
    (n.kickMember key victim by_ reason).isMember j k = n.isMember j k := by
  unfold kickMember
  split
  · rfl
  · rw [isMember_removeMember h, isMember, isMember, channels_emit, channels_broadcast]

/-- A kick takes out whom it names, where the kicker is an operator. -/
theorem isMember_onKick (h : (n.onKick i name nick reason).isMember j k ≠ n.isMember j k) :
    fold name = k ∧ n.isMember i k ∧ n.isOperator i k ∧ n.isMember j k := by
  simp only [onKick] at h
  split at h
  · exact absurd rfl h
  next channel hch =>
    split at h
    · exact absurd rfl h
    next hmem =>
      split at h
      · exact absurd rfl h
      next hop =>
        split at h
        · exact absurd rfl h
        next victim hv =>
          obtain ⟨-, hvictim⟩ := filter_eq_some_iff.1 hv
          have hhit : fold name = k ∧ j = victim := by
            by_contra hmiss
            exact h (isMember_kickMember fun hk hj => hmiss ⟨hk, hj⟩)
          obtain ⟨rfl, rfl⟩ := hhit
          simp only [isMember, isOperator, hch, any_some, decide_eq_true_eq]
          exact ⟨trivial, not_not.1 hmem, not_not.1 hop, of_decide_eq_true hvictim⟩

/-- Of a list of kicks, one takes `j` out, and the kicker is an operator when its turn comes. -/
theorem isMember_kicks {pairs : List (String × String)}
    (h : (pairs.foldl (fun n p => n.onKick i p.1 p.2 reason) n).isMember j k ≠ n.isMember j k) :
    ∃ front p back, pairs = front ++ p :: back ∧ fold p.1 = k ∧
      let then_ := front.foldl (fun n p => n.onKick i p.1 p.2 reason) n
      then_.isMember i k ∧ then_.isOperator i k ∧ then_.isMember j k := by
  induction pairs generalizing n with
  | nil => exact absurd rfl h
  | cons p pairs ih =>
    by_cases hp : (n.onKick i p.1 p.2 reason).isMember j k = n.isMember j k
    · rw [List.foldl_cons, ← hp] at h
      obtain ⟨front, q, back, rfl, hq⟩ := ih h
      exact ⟨p :: front, q, back, rfl, hq⟩
    · obtain ⟨hk, h⟩ := isMember_onKick hp
      exact ⟨[], p, pairs, rfl, hk, h⟩

theorem kicks_did {pairs : List (String × String)} : n.Did (Licensed i (.kick rooms nicknames why))
    (pairs.foldl (fun n p => n.onKick i p.1 p.2 reason) n) := by
  have hstart :
      Does (Licensed i (.kick rooms nicknames why)) ((n, n).1.roster.Steps Roster.Quiet) (n, n)
      n n := .start Replies.licensed (.refl n) .refl
  refine Does.did (hstart.foldl fun _ _ p _ h => ?_)
  exact h.onKick fun _ _ _ ch hch hmem hop => .inr ⟨⟨_, _, _, rfl⟩, ch, hch, hmem, hop⟩

/-- Handling a message takes another client out of a channel only by a `KICK`, whose sender is an
operator of the channel, as it arrives and as its turn in the list comes. -/
theorem isMember_handle (H : n.roster.Consistent) (hj : j ≠ i)
    (h : (n.handle i message).isMember j k ≠ n.isMember j k) :
    ∃ rooms nicks reason, message.command = .kick rooms nicks reason ∧
      (n.isMember i k ∧ n.isOperator i k) ∧
      ∃ front p back, kickPairs rooms nicks = front ++ p :: back ∧ fold p.1 = k ∧
        let then_ := front.foldl (fun n p => n.onKick i p.1 p.2 reason) n
        then_.isMember i k ∧ then_.isOperator i k ∧ then_.isMember j k := by
  by_cases hkick : ∃ rooms nicks reason, message.command = .kick rooms nicks reason
  · obtain ⟨rooms, nicks, reason, hc⟩ := hkick
    unfold handle at h
    split at h
    · exact absurd rfl h
    rw [hc] at h
    simp only at h
    split at h
    · obtain ⟨front, p, back, hsplit, hk, hthen⟩ := isMember_kicks h
      have hop : n.isOperator i k := by
        have hdid : n.Did (Licensed i (.kick rooms nicks reason))
            (front.foldl (fun n p => n.onKick i p.1 p.2 reason) n) := kicks_did
        refine hdid.keeps (I := fun n' => n'.isOperator i k → n.isOperator i k) ?_ (fun h => h)
          hthen.2.1
        intro n' d hd ih h
        rcases isOperator_perform hd h with h | ⟨-, i, name, rfl⟩
        · exact ih h
        · exact nomatch hd.2.1
      refine ⟨rooms, nicks, reason, hc, ⟨?_, hop⟩, front, p, back, hsplit, hk, hthen⟩
      rw [isOperator_roster] at hop
      rw [isMember_roster]
      obtain ⟨room, hroom, hi⟩ := (any_eq_true ..).1 hop
      have := H.operators_subset hroom (of_decide_eq_true hi)
      simp [hroom, this]
    · exact absurd rfl h
  · refine absurd (Did.keeps (I := fun n' => n'.isMember j k = n.isMember j k) handle_did ?_ rfl) h
    intro n' d hd ih
    refine (isMember_perform hd hj ?_).trans ih
    rintro rfl
    rcases hd with ⟨hi, -⟩ | ⟨hd, -⟩
    · exact hj hi
    · exact hkick hd

theorem membership_eq (H : n.roster.Consistent) :
    n.membership j k = (n.isMember j k, n.isMember j k) := by
  rw [membership, isMember_roster, Prod.mk.injEq]
  refine ⟨rfl, ?_⟩
  cases hc : n.clients.lookup j with
  | none =>
    cases hr : n.roster.channels k with
    | none => rfl
    | some room =>
      have : j ∉ room.members := fun hj => by
        obtain ⟨c, hc', -⟩ := H.registered hr hj
        simp [roster, hc] at hc'
      simp [this]
  | some c =>
    have := H.channels_iff (clients_roster hc) (k := k)
    rw [Bool.eq_iff_iff]
    simpa [any_eq_true, Client.view] using this

/-- Only operators remove others. Handling a message from `i` changes another client's membership of
a channel only if the message is a `KICK` and `i` is a member and an operator of the channel, both
when it arrives and when the kick that does it is reached in its list. Nobody is made an operator of
a channel that existed, and nobody else's nick, user name or registration changes. -/
theorem others_untouched (h : n.Reachable) (i : ClientId) (message : Message) :
    (∀ j k, j ≠ i → (n.handle i message).membership j k ≠ n.membership j k →
      ∃ rooms nicks reason, message.command = .kick rooms nicks reason ∧
        (n.isMember i k ∧ n.isOperator i k) ∧
        ∃ front p back, kickPairs rooms nicks = front ++ p :: back ∧ fold p.1 = k ∧
          let then_ := front.foldl (fun n p => n.onKick i p.1 p.2 reason) n
          then_.isMember i k ∧ then_.isOperator i k ∧ then_.isMember j k) ∧
    (∀ j k, (n.handle i message).isOperator j k →
      n.isOperator j k ∨ n.channels.lookup k = none) ∧
    ∀ j, j ≠ i → (n.handle i message).persona j = n.persona j := by
  refine ⟨fun j k hj hchange => ?_, fun j k => isOperator_handle, fun j hj => persona_handle hj⟩
  have h' : Reachable (n.handle i message) := h.step (.handle i message) trivial trivial
  rw [membership_eq h.consistent, membership_eq h'.consistent] at hchange
  exact isMember_handle h.consistent hj fun he => hchange (by rw [he])

/-- Bob cannot kick Ann, who made the channel; Ann can kick Bob. -/
theorem others_untouched_meeting :
    let n := (init "srv" "net" 0).run meeting
    let kick (nick : String) : Message := { command := .kick "#den" nick none }
    (n.handle 2 (kick "Ann")).membership 1 "#den" = n.membership 1 "#den" ∧
    (n.handle 1 (kick "Bob")).membership 2 "#den" ≠ n.membership 2 "#den" ∧
    n.isMember 1 "#den" ∧ n.isOperator 1 "#den" := by
  have hops : (init "srv" "net" 0).Meets (fun _ _ => True) meeting := by decide +kernel
  have hkick : ((init "srv" "net" 0).run meeting |>.handle 1
      { command := .kick "#den" "Bob" none }).membership 2 "#den" ≠
        ((init "srv" "net" 0).run meeting).membership 2 "#den" := by decide +kernel
  obtain ⟨-, -, -, -, hop, -⟩ := (others_untouched ((ReachableBy.init "srv" "net" 0).run hops) 1
    { command := .kick "#den" "Bob" none }).1 2 "#den" (by decide) hkick
  exact ⟨by decide +kernel, hkick, hop⟩

/-! ## Clients that have not registered -/

/-- What clients have said to `i`. -/
def talk (n : Network) (i : ClientId) : List Message := (n.queues i).filter (isTalk ·.command)

def addressee : Command → Option String
  | .privmsg target _ | .notice target _ => some target
  | _ => none

/-- The nick of a client that is connected and has not registered. -/
def isPending (n : Network) (nick : String) : Bool :=
  (n.nicks.lookup (fold nick)).any fun i => !n.isRegistered i

/-- What `WHOIS` tells `id` of a nick that nobody registered holds. -/
def noSuchNick (n : Network) (id : ClientId) (nick : String) : Message where
  source := some (.serverName n.serverName)
  command := .response .errNoSuchNick [n.nickOf id, nick, "No such nick/channel"]

/-- No other client that is connected and has not registered is spoken to, and a registered sender
who addresses such a client is told what `WHOIS` tells them. -/
def Spares (n : Network) : Operation → Prop
  | .handle id message =>
    (∀ i, i ≠ id → (n.clients.lookup i).any (!·.registered) →
      (n.handle id message).talk i = n.talk i) ∧
    ∀ target, addressee message.command = some target → n.isRegistered id →
      isChannel target = false → n.isPending target →
        (n.handle id message).queues id = n.queues id ++ [n.noSuchNick id target]
  | _ => True

/-- What a registered client says is not for a client that has not registered. -/
def AddressesRegistered (n : Network) : Operation → Prop
  | .handle id message => ∀ target, addressee message.command = some target →
      n.isRegistered id → isChannel target = false → n.isPending target = false
  | _ => True

theorem talk_deliver (h : ∀ m, out i = some m → isTalk m.command = false) :
    (n.deliver out).talk i = n.talk i := by
  simp only [talk, deliver]
  split
  · cases ho : out i with
    | none => simp
    | some m => simp [h m ho]
  · rfl

theorem talk_emit (kind : EventKind) : (n.emit kind).talk i = n.talk i := by
  unfold emit
  split <;> rfl

theorem talk_perform (hd : Licensed id command n d) (hc : isTalk command = false) :
    (n.perform d).talk i = n.talk i := by
  cases d with
  | deliver out =>
    refine talk_deliver fun m ho => ?_
    cases hm : isTalk m.command with
    | false => rfl
    | true => exact absurd (hd i m ho hm) (by simp [hc])
  | emit kind => exact talk_emit kind
  | accept => exact hd.elim
  | _ => rfl

theorem roster_isRegistered_of_member (H : n.roster.Consistent)
    (hch : n.channels.lookup key = some channel) (hi : i ∈ channel.members) : n.isRegistered i := by
  obtain ⟨c, hc, hreg⟩ := H.registered (channels_roster hch) hi
  rw [← isRegistered_roster, Roster.isRegistered, hc]
  exact hreg

theorem talk_reply : (n.numericArgs id response args).talk i = n.talk i := by
  refine talk_deliver fun m hm => ?_
  split at hm
  · exact some.inj hm ▸ rfl
  · cases hm

/-- Before it registers, a client hears nothing but what is said to the nick it holds. -/
theorem talk_forward (H : n.roster.Consistent) (hi : n.isRegistered i = false)
    (hnot : isChannel target = false → n.nicks.lookup (fold target) ≠ some i) :
    (n.forward id target m silent).talk i = n.talk i := by
  unfold forward
  split
  · split
    · unfold broadcast
      split
      · rfl
      next channel hch =>
        refine talk_deliver fun m hm => ?_
        split at hm
        next hmem => simp [roster_isRegistered_of_member H hch hmem.1] at hi
        · cases hm
    · split
      · rfl
      · exact talk_reply
  next hchan =>
    split
    next receiver hr =>
      refine talk_deliver fun m hm => ?_
      split at hm
      next he => exact absurd (he ▸ hr) (hnot (by simpa using hchan))
      · cases hm
    · split
      · rfl
      · exact talk_reply

theorem talk_onMessage (H : n.roster.Consistent) (hi : n.isRegistered i = false)
    (hnot : isChannel target = false → n.nicks.lookup (fold target) ≠ some i) :
    (n.onMessage id target text silent).talk i = n.talk i := by
  simp only [onMessage]
  split
  · split
    · rfl
    · exact talk_reply
  split
  · split
    · rfl
    · exact talk_reply
  split
  · rw [talk_forward, talk_emit]
    · rfl
    · rw [roster_emit]; exact H
    · simpa [isRegistered] using hi
    · simpa using hnot
  · exact talk_forward H hi hnot

theorem handle_of_addressee (h : addressee message.command = some target)
    (hreg : n.isRegistered id) :
    ∃ text silent, n.handle id message = n.onMessage id target text silent := by
  have hid : (n.clients.lookup id).isNone = false := by
    obtain ⟨c, hc, -⟩ := isRegistered_iff.1 hreg
    simp [hc]
  simp only [handle, hid]
  generalize message.command = command at h
  cases command with
  | privmsg target' text =>
    obtain rfl := some.inj h
    exact ⟨text, false, if_pos hreg⟩
  | notice target' text =>
    obtain rfl := some.inj h
    exact ⟨text, true, if_pos hreg⟩
  | _ => cases h

/-- Who has not registered is heard by nobody. -/
theorem talk_handle_of_unregistered (h : addressee message.command = some target)
    (hreg : n.isRegistered id = false) : (n.handle id message).talk i = n.talk i := by
  have hrefused : (if n.isRegistered id then n.registeredCommand id message.command
      else n.numeric id .errNotRegistered ["You have not registered"]).talk i = n.talk i := by
    rw [if_neg (by simp [hreg])]
    exact talk_reply
  unfold handle
  split
  · rfl
  generalize message.command = command at h hrefused
  cases command with
  | privmsg | notice => exact hrefused
  | _ => cases h

theorem queues_numericArgs (hid : (n.clients.lookup id).isSome) :
    (n.numericArgs id response args).queues id = n.queues id ++ [{
      source := some (.serverName n.serverName)
      command := .response response (n.nickOf id :: args) }] := by
  simp [numericArgs, send, deliver, hid]

/-- Whoever addresses a client that has not registered is not told that there is no such nick. -/
theorem queues_onMessage_of_isPending (hreg : n.isRegistered id) (hchan : isChannel target = false)
    (hpend : n.isPending target) :
    (n.onMessage id target text silent).queues id ≠ n.queues id ++ [n.noSuchNick id target] := by
  have hid : (n.clients.lookup id).isSome := by
    obtain ⟨c, hc, -⟩ := isRegistered_iff.1 hreg
    simp [hc]
  have hsame {q : List Message} (h : q = n.queues id) :
      q ≠ n.queues id ++ [n.noSuchNick id target] :=
    fun he => by simp [h] at he
  have hother {q : List Message} {response args}
      (h : q = (n.numericArgs id response args).queues id) (hr : response ≠ .errNoSuchNick) :
      q ≠ n.queues id ++ [n.noSuchNick id target] := fun he => by
    rw [h, queues_numericArgs hid] at he
    have hm := (List.cons.inj (List.append_cancel_left he)).1
    exact hr (Command.response.inj (congrArg Message.command hm)).1
  simp only [isPending, any_eq_true] at hpend
  obtain ⟨i, hi, hun⟩ := hpend
  have hne : i ≠ id := by
    rintro rfl
    simp [hreg] at hun
  simp only [onMessage]
  split
  · split
    · exact hsame rfl
    · exact hother rfl (by decide)
  split
  · split
    · exact hsame rfl
    · exact hother rfl (by decide)
  refine hsame ?_
  split
  · simp [forward, hchan, hi, send, deliver, hne.symm, queues_emit]
  · simp [forward, hchan, hi, send, deliver, hne.symm]

theorem spares_iff (H : n.roster.Consistent) (op : Operation) :
    n.Spares op ↔ n.AddressesRegistered op := by
  cases op with
  | handle id message =>
    constructor
    · intro h target ha hreg hchan
      cases hpend : n.isPending target with
      | false => rfl
      | true =>
        obtain ⟨text, silent, he⟩ := handle_of_addressee ha hreg
        have hq := h.2 target ha hreg hchan hpend
        rw [he] at hq
        exact absurd hq (queues_onMessage_of_isPending hreg hchan hpend)
    · intro h
      refine ⟨fun i hi hun => ?_, fun target ha hreg hchan hpend => ?_⟩
      · have hun : n.isRegistered i = false := by
          obtain ⟨c, hc, hreg⟩ := (any_eq_true ..).1 hun
          simpa [isRegistered, hc] using hreg
        cases ha : addressee message.command with
        | none =>
          refine Did.keeps (I := fun n' => n'.talk i = n.talk i) handle_did ?_ rfl
          refine fun _ _ hd ih => (talk_perform hd ?_).trans ih
          generalize message.command = command at ha
          cases command with
          | privmsg | notice => cases ha
          | _ => rfl
        | some target =>
          cases hreg : n.isRegistered id with
          | true =>
            obtain ⟨text, silent, he⟩ := handle_of_addressee ha hreg
            rw [he]
            refine talk_onMessage H hun fun hchan hheld => ?_
            have := h target ha hreg hchan
            simp [isPending, hheld, hun] at this
          | false => exact talk_handle_of_unregistered ha hreg
      · simp [h target ha hreg hchan] at hpend
  | _ => exact Iff.rfl

/-- In a run of the server, nobody speaks to a client that is connected and has not registered, and
whoever addresses one is told that there is no such nick, exactly if nothing that a registered
client says is addressed to the nick of such a client. -/
theorem unregistered_spared_iff (server network : String) (now : Nat) (ops : List Operation) :
    (init server network now).Meets Spares ops ↔
      (init server network now).Meets AddressesRegistered ops := by
  suffices h :
      ∀ n : Network, n.Reachable → (n.Meets Spares ops ↔ n.Meets AddressesRegistered ops) from
    h _ (.init server network now)
  induction ops with
  | nil => exact fun _ _ => Iff.rfl
  | cons op ops ih =>
    intro n hn
    rw [Meets, spares_iff hn.consistent]
    exact and_congr_right fun h => ih _ (hn.step op h.1 trivial)

def negotiating : List Operation :=
  let line (id : ClientId) (command : Command) := Operation.handle id { command }
  [.connect 1, line 1 (.nick "ann"), line 1 (.user "ann" "0" "Ann"),
    .connect 2, line 2 (.cap none .ls none none), line 2 (.nick "bob"),
    line 2 (.user "bob" "0" "Bob")]

/-- Bob hears what Ann says to him, though for `WHOIS` he is not there. -/
theorem unregistered_hailed :
    let n := (init "srv" "net" 0).run negotiating
    let hail : Message := { command := .privmsg "bob" "hi" }
    (init "srv" "net" 0).Meets (fun _ _ => True) negotiating ∧
    (n.clients.lookup 2).any (!·.registered) ∧
    (n.handle 1 hail).talk 2 =
      [{ source := some (.nickname "ann" "ann" host), command := .privmsg "bob" "hi" }] ∧
    n.noSuchNick 1 "bob" ∉ (n.handle 1 hail).queues 1 ∧
    n.noSuchNick 1 "bob" ∈ (n.handle 1 { command := .whois none "bob" }).queues 1 ∧
    ¬n.Spares (.handle 1 hail) := by
  have hun : (((init "srv" "net" 0).run negotiating).clients.lookup 2).any (!·.registered) := by
    decide +kernel
  refine ⟨by decide +kernel, hun, by decide +kernel, by decide +kernel, by decide +kernel,
    fun h => ?_⟩
  exact absurd (h.1 2 (by decide) hun) (by decide +kernel)

end Network

end Ddirc.Server
