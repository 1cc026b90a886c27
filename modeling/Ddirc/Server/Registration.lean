import Ddirc.Server.Announced

/-! # Registration, and the taking of nicks

A client registers once, by the first of `CAP END`, `NICK` and `USER` that finds it with a nick, a
user name and no negotiation open (`registration`). That it is welcomed once and registered from
then on is an invariant of the roster (`Roster.Welcomed`). -/

namespace Ddirc.Server
open Irc Function Option

namespace Roster

variable {r r' : Roster} {id : ClientId}

/-- Who is registered has a nick and was welcomed once; who is not was never welcomed. -/
structure Welcomed (r : Roster) : Prop where
  once (id : ClientId) : r.welcomes id ≤ 1
  registered {id c} : r.clients id = some c → c.registered = true →
    r.welcomes id = 1 ∧ c.nick.isSome
  waiting {id c} : r.clients id = some c → c.registered = false → r.welcomes id = 0

theorem Welcomed.step (H : r.Welcomed) (h : Step r l r') : r'.Welcomed := by
  refine ⟨fun i => ?_, fun {i c'} hc' hreg => ?_, fun {i c'} hc' hreg => ?_⟩
  · cases h.became i with
    | connected _ hw => exact hw ▸ Nat.zero_le 1
    | registered hc hwait _ _ hw => rw [hw, H.waiting hc hwait]
    | kept hw => exact hw ▸ H.once i
  · cases h.became i with
    | connected hc =>
      cases hc'.symm.trans hc
      cases hreg
    | registered hc hwait hnick hc'' hw =>
      cases hc'.symm.trans hc''
      rw [hw, H.waiting hc hwait]
      exact ⟨rfl, hnick⟩
    | kept hw hkept =>
      obtain ⟨c, hc, hr, hn⟩ := hkept c' hc'
      obtain ⟨h1, hnick⟩ := H.registered hc (hr ▸ hreg)
      refine ⟨hw ▸ h1, ?_⟩
      rcases hn with hn | ⟨nick, -, -, hn⟩
      · rwa [hn]
      · rw [hn]
        rfl
  · cases h.became i with
    | connected _ hw => exact hw
    | registered _ _ _ hc =>
      cases hc'.symm.trans hc
      cases hreg
    | kept hw hkept =>
      obtain ⟨c, hc, hr, -⟩ := hkept c' hc'
      exact hw ▸ H.waiting hc (hr ▸ hreg)

theorem Welcomed.steps (H : r.Welcomed) (h : r.Steps P r') : r'.Welcomed := by
  induction h with
  | refl => exact H
  | tail _ hs ih =>
    obtain ⟨l, -, hs⟩ := hs
    exact ih.step hs

end Roster

namespace Network
variable {op : Operation}

variable {n n' : Network} {id : ClientId}

def welcomes (n : Network) (id : ClientId) : Nat := (n.queues id).countP isWelcome

theorem welcomes_roster : n.roster.welcomes id = n.welcomes id := by
  simp only [Roster.welcomes, roster, List.countP_filter]
  refine List.countP_congr fun m _ => ?_
  obtain ⟨tags, source, command⟩ := m
  cases command with
  | response response args => cases response <;> simp [isWelcome, tellsRoster]
  | _ => simp [isWelcome]

theorem roster_init_welcomed (server network : String) (now : Nat) :
    (init server network now).roster.Welcomed where
  once _ := Nat.zero_le 1
  registered h := by simp [roster, init] at h
  waiting h := by simp [roster, init] at h

theorem ReachableBy.welcomed (h : ReachableBy P n) : n.roster.Welcomed := by
  induction h with
  | init => exact roster_init_welcomed _ _ _
  | step op _ hop _ ih => exact ih.steps (apply_steps hop)

theorem ReachableBy.welcomes_of_registered (h : ReachableBy P n)
    (hc : n.clients.lookup id = some client) (hreg : client.registered) :
    n.welcomes id = 1 ∧ client.nick.isSome :=
  welcomes_roster ▸ h.welcomed.registered (clients_roster hc) hreg

theorem ReachableBy.welcomes_of_waiting (h : ReachableBy P n)
    (hc : n.clients.lookup id = some client) (hreg : client.registered = false) :
    n.welcomes id = 0 :=
  welcomes_roster ▸ h.welcomed.waiting (clients_roster hc) hreg

/-! ## Negotiation -/

/-- Whether a negotiation of `id` is open after an operation, given whether one was before. -/
def heard (id : ClientId) (was : Bool) : Operation → Bool
  | .connect i => if i = id then false else was
  | .handle i message =>
    if i = id then
      match message.command with
      | .cap _ .ls _ _ | .cap _ .list _ _ => true
      | .cap _ .end _ _ => false
      | _ => was
    else was
  | _ => was

/-- Whether `id` has sent a `CAP LS` or a `CAP LIST` after its last `CAP END`. -/
def negotiates (id : ClientId) (ops : List Operation) : Bool := ops.foldl (heard id) false

theorem clients_sendWelcome : (n.sendWelcome id).clients = n.clients := by
  have hstart : Does Replies Any (n, n) n n := .start (fun _ _ hd => hd) (.refl n) trivial
  refine hstart.sendWelcome.did.keeps (I := fun n' => n'.clients = n.clients) ?_ rfl
  intro n' d hd ih
  cases d with
  | emit kind => rwa [perform, clients_emit]
  | deliver out => exact ih
  | _ => exact hd.elim

/-- Who registers has a nick and a user name, and is not negotiating. -/
theorem lookup_tryRegister (hc : n.clients.lookup id = some client)
    (hreg : client.registered = false) :
    ∃ now, (n.tryRegister id).clients.lookup id = some { client with registered := now } ∧
      (now → client.nick.isSome ∧ client.user.isSome ∧ client.negotiating = false) := by
  simp only [tryRegister, hc, any_some]
  split
  next hready =>
    simp only [hreg, Bool.not_false, Bool.true_and, Bool.and_eq_true, Bool.not_eq_true'] at hready
    refine ⟨true, ?_, fun _ => ⟨hready.1.2, hready.2, hready.1.1⟩⟩
    rw [clients_emit, clients_sendWelcome]
    exact (Map.lookup_modify ..).trans (by rw [if_pos rfl, hc]; rfl)
  · refine ⟨false, ?_, by simp⟩
    rw [hc, ← hreg]

/-- A client that has not registered: whether it negotiates is as it said last, and it registers
with a nick, a user name and no negotiation open. -/
theorem handle_waiting (hc : n.clients.lookup id = some client) (hreg : client.registered = false)
    (hafter : (n.handle id message).clients.lookup id = some after) :
    after.negotiating = heard id client.negotiating (.handle id message) ∧
      (after.registered →
        after.nick.isSome ∧ after.user.isSome ∧ after.negotiating = false) := by
  have hwaits : n.isRegistered id = false := by simp [isRegistered, hc, hreg]
  -- whatever leaves the client's own record alone
  have hsame (h : n.clients.lookup id = some after) :
      after.negotiating = client.negotiating ∧ (after.registered →
        after.nick.isSome ∧ after.user.isSome ∧ after.negotiating = false) := by
    obtain rfl := some.inj (hc.symm.trans h)
    exact ⟨rfl, fun h => by simp [hreg] at h⟩
  -- whatever writes to it and then tries to register it
  have htry {n : Network} {c : Client} (hc : n.clients.lookup id = some c)
      (hreg : c.registered = false) (h : (n.tryRegister id).clients.lookup id = some after) :
      after.negotiating = c.negotiating ∧ (after.registered →
        after.nick.isSome ∧ after.user.isSome ∧ after.negotiating = false) := by
    obtain ⟨now, hnow, hready⟩ := lookup_tryRegister hc hreg
    obtain rfl := some.inj (hnow.symm.trans h)
    exact ⟨rfl, hready⟩
  have hmodify (f : Client → Client) : (n.modifyClient id f).clients.lookup id = some (f client) :=
    (Map.lookup_modify ..).trans (by rw [if_pos rfl, hc]; rfl)
  simp only [handle, hc, isNone_some, Bool.false_eq_true, if_false] at hafter
  simp only [heard]
  generalize message.command = command at hafter
  cases command with
  | cap target sub arg suffix =>
    cases sub with
    | ls | list =>
      obtain rfl := some.inj ((hmodify ({ · with negotiating := true })).symm.trans hafter)
      exact ⟨rfl, fun h => by simp [hreg] at h⟩
    | «end» => exact htry (hmodify ({ · with negotiating := false })) hreg hafter
    | req | ack | nak | new | del => exact hsame hafter
  | nick nick =>
    replace hafter : (n.onNick id nick).clients.lookup id = some after := hafter
    rcases onNick_cases n id nick with ⟨response, args, -, h⟩ | h
    · rw [h] at hafter
      exact hsame hafter
    · simp only [h, changeNick, hwaits] at hafter
      exact (htry (lookup_claimNick hc) hreg hafter :)
  | user user mode real =>
    simp only [onUser, hwaits] at hafter
    exact (htry (hmodify ({ · with user := some user, real := some real })) hreg hafter :)
  | quit reason =>
    rw [lookup_close] at hafter
    cases hafter
  | pass | ping | pong => exact hsame hafter
  | _ =>
    simp only [hwaits] at hafter
    exact hsame hafter

theorem lookup_of_record (h : n'.record id = n.record id) (hc : n.clients.lookup id = some client)
    (hafter : n'.clients.lookup id = some after) :
    after.negotiating = client.negotiating ∧ after.registered = client.registered := by
  simp only [record, hc, hafter, map_some, Option.some.injEq, Client.mk.injEq] at h
  exact ⟨h.2.2.2.2.1, h.2.2.2.1⟩

theorem apply_waiting (hop : n.Allows op) (hc : n.clients.lookup id = some client)
    (hreg : client.registered = false) (hafter : (n.apply op).clients.lookup id = some after) :
    after.negotiating = heard id client.negotiating op ∧
      (after.registered →
        after.nick.isSome ∧ after.user.isSome ∧ after.negotiating = false) := by
  by_cases hhandle : ∃ message, op = .handle id message
  · obtain ⟨message, rfl⟩ := hhandle
    exact handle_waiting hc hreg hafter
  have hconnect : op ≠ .connect id := by
    rintro rfl
    simp [Allows, hc] at hop
  have hstay : ¬n.Departs id op := fun hd => by
    rw [(gone_iff (by rw [hc]; rfl)).2 hd] at hafter
    cases hafter
  have hheard : heard id client.negotiating op = client.negotiating := by
    cases op with
    | connect i => exact if_neg fun hi : i = id => hconnect (hi ▸ rfl)
    | handle i message => exact if_neg fun hi : i = id => hhandle ⟨message, hi ▸ rfl⟩
    | _ => rfl
  obtain ⟨hneg, hr⟩ := lookup_of_record
    (record_apply (fun message h => hhandle ⟨message, h⟩) hconnect hstay) hc hafter
  refine ⟨hneg.trans hheard.symm, fun h => ?_⟩
  simp [hr, hreg] at h

/-! ## Who takes a nick -/

/-- A nick is had from before, or by a `NICK` that was just handled. -/
theorem lookup_nicks_apply (h : (n.apply op).nicks.lookup k = some i) : n.nicks.lookup k = some i ∨
      ∃ message typed, op = .handle i message ∧ message.command = .nick typed ∧
        k = fold (Str.trim typed) := by
  refine (apply_did op).keeps (I := fun n' => n'.nicks.lookup k = some i →
    n.nicks.lookup k = some i ∨ ∃ message typed, op = .handle i message ∧
      message.command = .nick typed ∧ k = fold (Str.trim typed)) ?_ .inl h
  intro n' d hd ih h
  rcases lookup_nicks_perform h with h | ⟨nick, rfl, rfl⟩
  · exact ih h
  · obtain ⟨-, message, typed, hop, hm, rfl⟩ := licence_claim hd
    exact .inr ⟨message, typed, hop, hm, rfl⟩

/-! ## Who is welcomed -/

/-- A connection that is gone is queued nothing. -/
theorem unheard_perform (hd : d ≠ .accept id) (h : n.clients.lookup id = none) :
    (n.perform d).clients.lookup id = none ∧ (n.perform d).queues id = n.queues id := by
  have hmodify {n : Network} {i : ClientId} {f : Client → Client}
      (h : n.clients.lookup id = none) : (n.modifyClient i f).clients.lookup id = none := by
    simp only [modifyClient, Map.lookup_modify, h]
    split <;> rfl
  cases d with
  | emit kind =>
    rw [perform, clients_emit, queues_emit]
    exact ⟨h, rfl⟩
  | deliver out => exact ⟨h, by simp [perform, deliver, h]⟩
  | edit | claim | enter | remove => exact ⟨hmodify h, rfl⟩
  | erase i =>
    simp only [perform, Map.lookup_erase, h, ite_self, and_self]
  | accept i =>
    have hi : id ≠ i := fun he => hd (congrArg Deed.accept he.symm)
    simp only [perform, Map.lookup_insert, if_neg hi, update_apply, h, and_self]
  | _ => exact ⟨h, rfl⟩

/-- Nothing is taken out of a queue. -/
theorem queues_perform (hd : d ≠ .accept id) : n.queues id <+: (n.perform d).queues id := by
  cases d with
  | emit kind => rw [perform, queues_emit]
  | deliver out =>
    simp only [perform, deliver]
    split
    · exact List.prefix_append _ _
    · exact List.prefix_rfl
  | accept i =>
    have hi : id ≠ i := fun he => hd (congrArg Deed.accept he.symm)
    simp [perform, hi]
  | _ => exact List.prefix_rfl

theorem queues_departs (hc : n.clients.lookup id = some client)
    (h : n.Departs id op) : (n.apply op).welcomes id = n.welcomes id := by
  have hdisconnect (n : Network) (reason : String) :
      (n.disconnect id reason).welcomes id = n.welcomes id := by
    simp only [disconnect]
    split
    · rfl
    · simp [welcomes, dropEmpty, deliver, leaveAll, release, queues_emit]
  have hclose (n : Network) (reason : String) :
      (n.close id reason).welcomes id = n.welcomes id := by
    simp only [close]
    rw [hdisconnect]
    simp only [welcomes, modifyClient, send, deliver]
    split
    · simp [isWelcome, Message.ofCommand]
    · rfl
  obtain ⟨banned, reason, ended, hended, -, hq⟩ := h.ends hc
  rw [welcomes, hq]
  rcases List.mem_pair.1 hended with rfl | rfl
  · exact hdisconnect _ _
  · exact hclose _ _

/-- A connection that is gone, and is not accepted again, stays so and is queued nothing. -/
theorem unheard (hc : n.clients.lookup id = none) (hop : op ≠ .connect id) :
    (n.apply op).clients.lookup id = none ∧ (n.apply op).queues id = n.queues id := by
  refine (apply_did op).keeps
    (I := fun n' => n'.clients.lookup id = none ∧ n'.queues id = n.queues id) ?_ ⟨hc, rfl⟩
  intro n' d hd ih
  have hd : d ≠ .accept id := by
    rintro rfl
    exact hop (licence_accept hd)
  obtain ⟨hnone, hq⟩ := unheard_perform hd ih.1
  exact ⟨hnone, hq.trans ih.2⟩

theorem ReachableBy.registers_of_welcomed (h : ReachableBy P n) (hop : n.Allows op) (hP : P n op)
    (hw : n.welcomes id < (n.apply op).welcomes id) :
    ∃ client after, n.clients.lookup id = some client ∧ client.registered = false ∧
      (n.apply op).clients.lookup id = some after ∧ after.registered := by
  have h' : ReachableBy P (n.apply op) := h.step op hop hP
  have honce : (n.apply op).welcomes id ≤ 1 := welcomes_roster ▸ h'.welcomed.once id
  cases hc : n.clients.lookup id with
  | none =>
    exfalso
    by_cases hconn : op = .connect id
    · subst hconn
      have h0 : (n.apply (.connect id)).welcomes id = 0 := by
        simp [welcomes, apply, connect]
      omega
    · rw [welcomes, welcomes, (unheard hc hconn).2] at hw
      exact Nat.lt_irrefl _ hw
  | some client =>
    have hwaits : client.registered = false := by
      refine Bool.eq_false_iff.2 fun hreg => ?_
      have := (h.welcomes_of_registered hc hreg).1
      omega
    cases hafter : (n.apply op).clients.lookup id with
    | none =>
      have hd := departs_of_gone (by rw [hc]; rfl) hafter
      rw [queues_departs hc hd] at hw
      exact absurd hw (Nat.lt_irrefl _)
    | some after =>
      refine ⟨client, after, rfl, hwaits, rfl, ?_⟩
      refine Bool.eq_true_of_not_eq_false fun hreg => ?_
      have := h'.welcomes_of_waiting hafter hreg
      omega

theorem welcomes_apply (hop : n.Allows op) (hc : n.clients.lookup id = some client) :
    n.welcomes id ≤ (n.apply op).welcomes id := by
  have hgrow : n.queues id <+: (n.apply op).queues id := by
    refine (apply_did op).keeps (I := fun n' => n.queues id <+: n'.queues id) ?_
      List.prefix_rfl
    intro n' d hd ih
    refine ih.trans (queues_perform ?_)
    rintro rfl
    obtain rfl := licence_accept hd
    simp [Allows, hc] at hop
  exact hgrow.sublist.countP_le

/-- While it is connected, a client that was welcomed is registered, with a nick. -/
theorem stays_registered (h : n.Reachable) (hc : (n.clients.lookup id).isSome)
    (hw : 0 < n.welcomes id)
    (hops : n.Meets (fun n op => ((n.apply op).clients.lookup id).isSome) ops) :
    ∃ client, (n.run ops).clients.lookup id = some client ∧ client.registered ∧
      client.nick.isSome := by
  induction ops generalizing n with
  | nil =>
    obtain ⟨client, hc⟩ := isSome_iff_exists.1 hc
    have hreg : client.registered := by
      refine Bool.eq_true_of_not_eq_false fun hreg => ?_
      have := h.welcomes_of_waiting hc hreg
      omega
    exact ⟨client, hc, hreg, (h.welcomes_of_registered hc hreg).2⟩
  | cons op ops ih =>
    obtain ⟨⟨hop, hstays⟩, hops⟩ := hops
    obtain ⟨client, hc⟩ := isSome_iff_exists.1 hc
    exact ih (h.step op hop trivial) hstays (hw.trans_le (welcomes_apply hop hc)) hops

/-- Until it registers, whether a client negotiates is as it said last. -/
theorem ReachableBy.negotiating_run (h : ReachableBy P n)
    (hwas : ∀ c, n.clients.lookup id = some c → c.registered = false → c.negotiating = was)
    (hops : n.Meets P ops) (hc : (n.run ops).clients.lookup id = some client)
    (hreg : client.registered = false) : client.negotiating = ops.foldl (heard id) was := by
  induction ops generalizing n was with
  | nil => exact hwas client hc hreg
  | cons op ops ih =>
    obtain ⟨⟨hop, hP⟩, hops⟩ := hops
    have h' : ReachableBy P (n.apply op) := h.step op hop hP
    refine ih h' (fun after hafter hwaits => ?_) hops hc
    cases hc : n.clients.lookup id with
    | none =>
      have hconn : op = .connect id := by
        by_contra hconn
        simp [(unheard hc hconn).1] at hafter
      subst hconn
      simp only [apply, connect, Map.lookup_insert, if_true, Option.some.injEq] at hafter
      rw [← hafter]
      exact (if_pos rfl).symm
    | some client =>
      have hreg : client.registered = false := by
        refine Bool.eq_false_iff.2 fun hreg => ?_
        have h1 := (h.welcomes_of_registered hc hreg).1
        have h0 := h'.welcomes_of_waiting hafter hwaits
        have := welcomes_apply hop hc
        omega
      rw [(apply_waiting hop hc hreg hafter).1, hwas client hc hreg]

/-- What a client may send before it has registered. -/
def isPreamble : Command → Bool
  | .cap .. | .nick _ | .user .. | .pass _ | .ping .. | .pong .. | .quit _ => true
  | _ => false

/-- Anything else is refused: only the sender hears of it. -/
theorem handle_refused (hreg : n.isRegistered id = false)
    (hm : isPreamble message.command = false) :
    { n.handle id message with queues := n.queues } = n ∧
      ∀ j ≠ id, (n.handle id message).queues j = n.queues j := by
  have hrefused : n.handle id message = n ∨ n.handle id message =
      n.numeric id .errNotRegistered ["You have not registered"] := by
    unfold handle
    split
    · exact .inl rfl
    generalize message.command = command at hm
    cases command with
    | cap | nick | user | pass | ping | pong | quit => cases hm
    | _ => exact .inr (if_neg (by simp [hreg]))
  rcases hrefused with h | h
  · rw [h]
    exact ⟨rfl, fun _ _ => rfl⟩
  · rw [h]
    refine ⟨rfl, fun j hj => ?_⟩
    simp [numeric, numericArgs, send, deliver, hj]

/-- In every run, a connection is queued `001` at most once. The operation that queues it leaves the
client with a nick and a user name, and by then it has sent no `CAP LS` or `CAP LIST` after its last
`CAP END`. From then on it is registered, with a nick, for as long as it stays connected. And while
a client is not registered, nothing it sends but `CAP`, `NICK`, `USER`, `PASS`, `PING`, `PONG` and
`QUIT` changes anything; it alone is answered. -/
theorem registration (server network : String) (now : Nat) (ops : List Operation)
    (hops : (init server network now).Meets (fun _ _ => True) ops) (id : ClientId) :
    let n := (init server network now).run ops
    n.welcomes id ≤ 1 ∧
    (∀ op, n.Allows op → n.welcomes id < (n.apply op).welcomes id →
      ∃ client, (n.apply op).clients.lookup id = some client ∧ client.nick.isSome ∧
        client.user.isSome ∧ negotiates id (ops ++ [op]) = false) ∧
    (∀ later, 0 < n.welcomes id → (n.clients.lookup id).isSome →
      n.Meets (fun n op => ((n.apply op).clients.lookup id).isSome) later →
      ∃ client, (n.run later).clients.lookup id = some client ∧ client.registered = true ∧
        client.nick.isSome) ∧
    ∀ message, n.isRegistered id = false → isPreamble message.command = false →
      { n.handle id message with queues := n.queues } = n ∧
        ∀ j ≠ id, (n.handle id message).queues j = n.queues j := by
  have h : Reachable ((init server network now).run ops) := (ReachableBy.init ..).run hops
  refine ⟨welcomes_roster ▸ h.welcomed.once id, fun op hop hw => ?_, fun later hw hc hlater => ?_,
    fun message => handle_refused⟩
  · obtain ⟨client, after, hc, hreg, hafter, hreg'⟩ := h.registers_of_welcomed hop trivial hw
    obtain ⟨hneg, hready⟩ := apply_waiting hop hc hreg hafter
    obtain ⟨hnick, huser, hfalse⟩ := hready hreg'
    refine ⟨after, hafter, hnick, huser, ?_⟩
    have hwas : client.negotiating = ops.foldl (heard id) false :=
      (ReachableBy.init server network now).negotiating_run
        (fun c hc => by simp [init] at hc) hops hc hreg
    rw [negotiates, List.foldl_concat, ← hwas, ← hneg, hfalse]
  · exact stays_registered h hc hw hlater

/-- A client opens a negotiation, takes a nick and a user name, closes the negotiation, and is
welcomed then and not again. -/
def greeting : List Operation :=
  let line (command : Command) := Operation.handle 1 { command }
  [.connect 1, line (.cap none .ls none none), line (.nick "ann"), line (.user "ann" "0" "Ann")]

theorem registration_greeting :
    let n := (init "srv" "net" 0).run greeting
    let done : Operation := .handle 1 { command := .cap none .end none none }
    n.welcomes 1 = 0 ∧ (n.apply done).welcomes 1 = 1 ∧
      negotiates 1 greeting = true ∧ negotiates 1 (greeting ++ [done]) = false := by
  have hops : (init "srv" "net" 0).Meets (fun _ _ => True) greeting := by decide +kernel
  have hw : ((init "srv" "net" 0).run greeting).welcomes 1 = 0 ∧
      (((init "srv" "net" 0).run greeting).apply
        (.handle 1 { command := .cap none .end none none })).welcomes 1 = 1 := by decide +kernel
  obtain ⟨client, -, -, -, hneg⟩ := (registration "srv" "net" 0 greeting hops 1).2.1
    (.handle 1 { command := .cap none .end none none }) trivial
      (by rw [hw.1, hw.2]; exact Nat.one_pos)
  exact ⟨hw.1, hw.2, by decide +kernel, hneg⟩

end Network

end Ddirc.Server
