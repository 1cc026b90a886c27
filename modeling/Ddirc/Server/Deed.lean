import Ddirc.Server.Refine

/-! # What an operation does

Every operation of the server is a list of elementary writes, its deeds. Which deeds it may do, and
in which states, is its licence (`licence`). It does no other, the same whatever is queued to the
clients, and the roster changes by steps (`apply_does`). -/

namespace Ddirc.Server
open Irc
open Roster (Quiet)

/-- What clients say to each other. -/
def isTalk : Command → Bool
  | .privmsg .. | .notice .. => true
  | _ => false

/-- An elementary write. -/
inductive Deed where
  | emit (kind : EventKind)
  | deliver (out : ClientId → Option Message)
  | count
  /-- Write to a client's own record. -/
  | edit (id : ClientId) (f : Client → Client)
  | claim (id : ClientId) (nick : String)
  | enter (id : ClientId) (name : String)
  | remove (key : String) (id : ClientId)
  | setTopic (key : String) (topic : Option Topic)
  | appoint (key : String) (channel : Channel) (operators : Finset ClientId)
  | erase (id : ClientId)
  | release (nick : Option String)
  | leaveAll (id : ClientId) (names : Finset String)
  | dropEmpty
  | countConnection
  | accept (id : ClientId)
  | ban (key : String)
  | unban (key : String)
  | setMotd (lines : List String)
  | observe
  | tick (now : Nat)

namespace Network
def place (n : Network) (id : ClientId) (name : String) : Network :=
  ({ n with channels := n.channels.insert (fold name) (n.entered id name) }).modifyClient id
    fun c => { c with channels := insert (fold name) c.channels }

def perform (n : Network) : Deed → Network
  | .emit kind => n.emit kind
  | .deliver out => n.deliver out
  | .count => { n with messagesTotal := n.messagesTotal + 1 }
  | .edit id f => n.modifyClient id f
  | .claim id nick => n.claimNick id nick
  | .enter id name => n.place id name
  | .remove key id => n.removeMember key id
  | .setTopic key topic => { n with channels := Map.modify n.channels key ({ · with topic }) }
  | .appoint key channel operators =>
    { n with channels := n.channels.insert key { channel with operators } }
  | .erase id => { n with clients := n.clients.erase id }
  | .release nick => n.release nick
  | .leaveAll id names => n.leaveAll id names
  | .dropEmpty => n.dropEmpty
  | .countConnection => { n with connectionsTotal := n.connectionsTotal + 1 }
  | .accept id => { n with
      clients := n.clients.insert id { connectedAt := n.clock }
      queues := Function.update n.queues id [] }
  | .ban key => { n with banned := insert key n.banned }
  | .unban key => { n with banned := n.banned.erase key }
  | .setMotd lines => { n with motd := lines }
  | .observe => n.observe
  | .tick now => { n with clock := now }

/-- `n'` is `n` after deeds that `P` allows, each in the state it is done in. -/
abbrev Did (P : Network → Deed → Prop) : Network → Network → Prop :=
  Relation.ReflTransGen fun n n' => ∃ d, P n d ∧ n' = n.perform d

variable {P Q : Network → Deed → Prop} {n n' : Network} {id : ClientId}

theorem Did.keeps {I : Network → Prop} (h : n.Did P n')
    (hkeep : ∀ n d, P n d → I n → I (n.perform d)) (hn : I n) : I n' := by
  induction h with
  | refl => exact hn
  | tail _ hd ih =>
    obtain ⟨d, hd, rfl⟩ := hd
    exact hkeep _ d hd ih

/-- Events, and messages that are not talk. -/
def Replies (_ : Network) : Deed → Prop
  | .emit _ => True
  | .deliver out => ∀ i m, out i = some m → isTalk m.command = false
  | _ => False

/-- A client's going. -/
def Leaves (id : ClientId) : Deed → Prop
  | .erase i | .leaveAll i _ => i = id
  | .release _ | .dropEmpty => True
  | _ => False

/-- A write to a client's record leaves its nick and its channels, and does not take back its
registration. -/
def Edits (f : Client → Client) : Prop :=
  ∀ c, (f c).nick = c.nick ∧ (f c).channels = c.channels ∧ (c.registered → (f c).registered)

/-! ## Queues -/

def requeue (n : Network) (q : ClientId → List Message) : Network := { n with queues := q }

/-- The two differ at most in what is queued to those in `A`. -/
inductive Alike (A : ClientId → Prop) (n : Network) : Network → Prop where
  | intro (q : ClientId → List Message) : (∀ i, ¬A i → q i = n.queues i) → Alike A n (n.requeue q)

namespace Alike

theorem refl (n : Network) : Alike A n n := .intro n.queues fun _ _ => rfl

theorem mono (h : Alike A n n') (hAB : ∀ i, A i → B i) : Alike B n n' := by
  obtain ⟨q, hq⟩ := h
  exact .intro q fun i hi => hq i (mt (hAB i) hi)

/-- No deed depends on what is queued. -/
theorem perform (h : Alike A n n') (d : Deed) : Alike A (n.perform d) (n'.perform d) := by
  obtain ⟨q, hq⟩ := h
  cases d with
  | emit kind =>
    have hemit : (n.requeue q).emit kind = (n.emit kind).requeue q := by
      unfold Network.emit requeue
      split <;> rfl
    rw [Network.perform, Network.perform, hemit]
    exact .intro q fun i hi => by rw [queues_emit, hq i hi]
  | deliver out =>
    refine .intro _ fun i hi => ?_
    simp only [requeue, hq i hi]
    rfl
  | accept id =>
    refine .intro _ fun i hi => ?_
    simp only [requeue, Network.perform, Function.update_apply, hq i hi]
  | _ => exact .intro q hq

end Alike

/-- Of the roster nothing is said. -/
abbrev Any : Roster → Prop := fun _ => True

/-- From the networks of `s`, which differ in their queues alone, to `n` and `n'` by the same deeds,
all of which `P` allows; and `R` holds of the roster. -/
structure Does (P : Network → Deed → Prop) (R : Roster → Prop) (s : Network × Network)
    (n n' : Network) : Prop where
  replies : ∀ n d, Replies n d → P n d
  deeds : Relation.ReflTransGen
    (fun s t : Network × Network => ∃ d, P s.1 d ∧ t = (s.1.perform d, s.2.perform d)) s (n, n')
  requeued : Alike (fun _ => True) n n'
  holds : R n.roster

namespace Does
variable {R R' : Roster → Prop} {s : Network × Network} {m : Message}

theorem start (hP : ∀ n d, Replies n d → P n d) (h : Alike (fun _ => True) n n')
    (hR : R n.roster) : Does P R (n, n') n n' := ⟨hP, .refl, h, hR⟩

theorem ite {a a' b b' : Network} {c : Prop} [Decidable c] (ha : c → Does P R s a a')
    (hb : ¬c → Does P R s b b') : Does P R s (if c then a else b) (if c then a' else b') := by
  by_cases hc : c
  · rw [if_pos hc, if_pos hc]
    exact ha hc
  · rw [if_neg hc, if_neg hc]
    exact hb hc

section
variable (h : Does P R s n n')

include h

theorem did : s.1.Did P n :=
  Relation.ReflTransGen.lift Prod.fst (fun _ _ ⟨d, hd, he⟩ => ⟨d, hd, congrArg Prod.fst he⟩) _ _
    h.deeds

theorem alike (hs : Alike A s.1 s.2) : Alike A n n' := by
  suffices hall : ∀ t : Network × Network, Relation.ReflTransGen _ s t → Alike A t.1 t.2 from
    hall _ h.deeds
  intro t ht
  induction ht with
  | refl => exact hs
  | tail _ hd ih =>
    obtain ⟨d, -, rfl⟩ := hd
    exact ih.perform d

theorem holding (hR : R' n.roster) : Does P R' s n n' := ⟨h.replies, h.deeds, h.requeued, hR⟩

theorem imp (hR : ∀ r, R r → R' r) : Does P R' s n n' := h.holding (hR _ h.holds)

theorem perform (d : Deed) (hd : P n d) : Does P Any s (n.perform d) (n'.perform d) :=
  ⟨h.replies, h.deeds.tail ⟨d, hd, rfl⟩, h.requeued.perform d, trivial⟩

theorem quietly (d : Deed) (hd : P n d) (hq : (n.perform d).roster = n.roster) :
    Does P R s (n.perform d) (n'.perform d) := (h.perform d hd).holding (by rw [hq]; exact h.holds)

theorem foldl {f : Network → α → Network} {l : List α}
    (hf : ∀ n n', ∀ a ∈ l, Does P R s n n' → Does P R s (f n a) (f n' a)) :
    Does P R s (l.foldl f n) (l.foldl f n') := by
  induction l generalizing n n' with
  | nil => exact h
  | cons a l ih =>
    exact ih (hf n n' a List.mem_cons_self h) fun n n' b hb => hf n n' b (List.mem_cons_of_mem a hb)

/-! ### Sending -/

theorem emitOf (kind : Network → EventKind) (hkind : ∀ n q, kind (n.requeue q) = kind n) :
    Does P R s (n.emit (kind n)) (n'.emit (kind n')) := by
  obtain ⟨q, -⟩ := h.requeued
  rw [hkind]
  exact h.quietly (.emit _) (h.replies _ _ trivial) (roster_emit _)

theorem emit (kind : EventKind) : Does P R s (n.emit kind) (n'.emit kind) :=
  h.emitOf (fun _ => kind) fun _ _ => rfl

theorem tell (whom : ClientId → Prop) [DecidablePred whom] (hm : isTalk m.command = false) :
    Does P Any s (n.deliver fun i => if whom i then some m else none)
      (n'.deliver fun i => if whom i then some m else none) := by
  refine h.perform (.deliver _) (h.replies _ _ fun i m' ho => ?_)
  dsimp only at ho
  split at ho
  · exact Option.some.inj ho ▸ hm
  · cases ho

theorem send (hm : isTalk m.command = false) : Does P Any s (n.send id m) (n'.send id m) :=
  h.tell (· = id) hm

theorem broadcast (hm : isTalk m.command = false) :
    Does P Any s (n.broadcast key m except) (n'.broadcast key m except) := by
  obtain ⟨q, -⟩ := h.requeued
  unfold Network.broadcast
  dsimp only [requeue]
  split
  · exact h.holding trivial
  next channel _ => exact h.tell (fun i => i ∈ channel.members ∧ some i ≠ except) hm

theorem tellPeers (hm : isTalk m.command = false) :
    Does P Any s (n.tellPeers id m self) (n'.tellPeers id m self) := by
  obtain ⟨q, -⟩ := h.requeued
  simp only [Network.tellPeers, requeue]
  split
  · exact h.holding trivial
  next client _ => exact h.tell (fun i => (self ∧ i = id) ∨ n.sharesOne client.channels i) hm

theorem tellShared (hm : isTalk m.command = false) (names : Finset String) :
    Does P Any s (n.deliver fun i => if n.sharesOne names i then some m else none)
      (n'.deliver fun i => if n'.sharesOne names i then some m else none) := by
  obtain ⟨q, -⟩ := h.requeued
  exact h.tell (fun i => n.sharesOne names i) hm

theorem numeric :
    Does P Any s (n.numericArgs id response args) (n'.numericArgs id response args) := by
  obtain ⟨q, -⟩ := h.requeued
  exact h.send rfl

theorem say (hm : isTalk m.command = false) (hq : tellsRoster m.command = false) :
    Does P R s (n.send id m) (n'.send id m) :=
  (h.send hm).holding (by rw [roster_send_quiet hq]; exact h.holds)

theorem numericArgs (hr : tellsRoster (.response response []) = false) :
    Does P R s (n.numericArgs id response args) (n'.numericArgs id response args) := by
  obtain ⟨q, -⟩ := h.requeued
  exact h.say rfl hr

theorem raw (verb : String) (hv : tellsRoster (.raw verb []) = false) :
    Does P R s (n.raw id verb args) (n'.raw id verb args) := by
  obtain ⟨q, -⟩ := h.requeued
  exact h.say rfl hv

theorem pass (whom : ClientId → Prop) [DecidablePred whom] (hd : ∀ out, P n (.deliver out))
    (hm : tellsRoster m.command = false) :
    Does P R s (n.deliver fun i => if whom i then some m else none)
      (n'.deliver fun i => if whom i then some m else none) :=
  h.quietly (.deliver _) (hd _) (roster_tell_quiet whom hm)

theorem spread (hd : ∀ out, P n (.deliver out)) (hm : tellsRoster m.command = false) :
    Does P R s (n.broadcast key m except) (n'.broadcast key m except) := by
  obtain ⟨q, -⟩ := h.requeued
  unfold Network.broadcast
  dsimp only [requeue]
  split
  · exact h
  next channel _ => exact h.pass (fun i => i ∈ channel.members ∧ some i ≠ except) hd hm

/-! ### Registration -/

theorem sendMotd : Does P R s (n.sendMotd id) (n'.sendMotd id) := by
  obtain ⟨q, -⟩ := h.requeued
  refine Does.numericArgs (Does.foldl (h.numericArgs rfl) fun _ _ _ _ h => ?_) rfl
  exact h.numericArgs rfl

theorem sendWelcome : Does P Any s (n.sendWelcome id) (n'.sendWelcome id) := by
  obtain ⟨q, -⟩ := h.requeued
  refine Does.sendMotd (Does.numeric (R := Any) ?_)
  exact ((h.numeric.numericArgs rfl).numericArgs rfl).numericArgs rfl

theorem edit (f : Client → Client) (hP : ∀ f, Edits f → P n (.edit id f))
    (hf : ∀ c, (f c).view = c.view) : Does P R s (n.modifyClient id f) (n'.modifyClient id f) := by
  refine h.quietly (.edit id f) (hP f fun c => ?_) (roster_modifyClient_quiet hf)
  obtain ⟨hnick, hreg, hch⟩ := Person.mk.inj (hf c)
  exact ⟨hnick, hch, hreg.symm ▸ fun h => h⟩

theorem tryRegister (hP : ∀ f, Edits f → P n (.edit id f)) :
    Does P Any s (n.tryRegister id) (n'.tryRegister id) := by
  obtain ⟨q, -⟩ := h.requeued
  refine ite (fun _ => ?_) fun _ => h.holding trivial
  have hset := h.perform (.edit id ({ · with registered := true }))
    (hP _ fun c => ⟨rfl, rfl, fun _ => rfl⟩)
  exact hset.sendWelcome.emitOf (fun n => .registered id (n.nickOf id)) fun _ _ => rfl

theorem changeNick (hP : ∀ n f, Edits f → P n (.edit id f)) (hclaim : P n (.claim id nick)) :
    Does P Any s (n.changeNick id nick) (n'.changeNick id nick) := by
  obtain ⟨q, -⟩ := h.requeued
  have hclaimed : Does P Any s (n.claimNick id nick) ((n.requeue q).claimNick id nick) :=
    h.perform (.claim id nick) hclaim
  unfold Network.changeNick
  dsimp only [requeue, Network.isRegistered]
  split
  · refine ite (fun _ => ?_) fun _ => hclaimed
    rw [clients_emit, clients_emit]
    exact (hclaimed.emit _).tellPeers rfl
  · exact hclaimed
  · exact hclaimed.tryRegister (hP _)

/-! ### Coming and going -/

theorem disconnect (hP : ∀ n d, Leaves id d → P n d) :
    Does P Any s (n.disconnect id reason) (n'.disconnect id reason) := by
  obtain ⟨q, -⟩ := h.requeued
  unfold Network.disconnect
  dsimp only [requeue]
  split
  · exact h.holding trivial
  next client _ =>
    have hgone := fun e => ((h.perform (.erase id) (hP _ _ rfl)).perform (.release client.nick)
      (hP _ _ trivial)).emit e
    exact (((hgone _).perform (.leaveAll id client.channels) (hP _ _ rfl)).tellShared rfl _).perform
      .dropEmpty (hP _ _ trivial)

theorem close (hP : ∀ n d, Leaves id d → P n d) (hedit : ∀ n f, Edits f → P n (.edit id f)) :
    Does P Any s (n.close id reason) (n'.close id reason) :=
  Does.disconnect (Does.perform (h.send rfl) (.edit id ({ · with quitReason := some _ }))
    (hedit _ _ fun _ => ⟨rfl, rfl, fun hr => hr⟩)) hP

/-! ### Channels -/

theorem sendTopic : Does P Any s (n.sendTopic id key explicit) (n'.sendTopic id key explicit) := by
  obtain ⟨q, -⟩ := h.requeued
  unfold Network.sendTopic
  dsimp only [requeue]
  have h : Does P Any s n (n.requeue q) := h.holding trivial
  split
  · exact h
  split
  · exact h.numeric.numeric
  · exact ite (fun _ => h.numeric) fun _ => h

theorem sendNames : Does P Any s (n.sendNames id name) (n'.sendNames id name) := by
  obtain ⟨q, -⟩ := h.requeued
  exact (ite (fun _ => h.holding trivial) fun _ => h.numeric).numeric

theorem enter (hd : P n (.enter id name)) : Does P Any s (n.enter id name) (n'.enter id name) := by
  obtain ⟨q, -⟩ := h.requeued
  let join : Message := {
    source := some ((n.place id name).originOf id)
    command := .join (n.entered id name).name none none }
  have hjoin : Does P Any s (((n.place id name).send id join).broadcast (fold name) join (some id))
      ((((n.requeue q).place id name).send id join).broadcast (fold name) join (some id)) :=
    Does.broadcast (Does.send (h.perform (.enter id name) hd) rfl) rfl
  exact (hjoin.emitOf (fun m => .joined (m.nickOf id) (n.entered id name).name)
    fun _ _ => rfl).sendTopic.sendNames

theorem kickMember (hP : ∀ n' : Network, n'.channels = n.channels → P n' (.remove key victim)) :
    Does P Any s (n.kickMember key victim by_ reason) (n'.kickMember key victim by_ reason) := by
  obtain ⟨q, -⟩ := h.requeued
  unfold Network.kickMember
  dsimp only [requeue]
  split
  · exact h.holding trivial
  · refine Does.perform (Does.emit (h.broadcast rfl) _) (.remove key victim) (hP _ ?_)
    rw [channels_emit, channels_broadcast]

theorem setTopic (hP : ∀ topic, P n (.setTopic key topic)) : Does P Any s
    (n.setTopic key by_ origin channel text) (n'.setTopic key by_ origin channel text) := by
  obtain ⟨q, -⟩ := h.requeued
  exact Does.broadcast (Does.emit (h.perform (.setTopic key _) (hP _)) _) rfl

/-! ### Messages and queries -/

theorem forward (hd : ∀ out, P n (.deliver out)) (hm : tellsRoster m.command = false) :
    Does P R s (n.forward id target m silent) (n'.forward id target m silent) := by
  obtain ⟨q, -⟩ := h.requeued
  refine ite (fun _ => ?_) fun _ => ?_
  · exact ite (fun _ => h.spread hd hm) fun _ => ite (fun _ => h) fun _ => h.numericArgs rfl
  · dsimp only [requeue]
    split
    next receiver _ => exact h.pass (· = receiver) hd hm
    · exact ite (fun _ => h) fun _ => h.numericArgs rfl

theorem onMessage (hcount : P n .count) (hd : ∀ n out, P n (.deliver out)) :
    Does P R s (n.onMessage id target text silent) (n'.onMessage id target text silent) := by
  obtain ⟨q, -⟩ := h.requeued
  have hcounted := h.quietly .count hcount rfl
  refine ite (fun _ => ite (fun _ => h) fun _ => h.numericArgs rfl) fun _ => ?_
  refine ite (fun _ => ite (fun _ => h) fun _ => h.numericArgs rfl) fun _ => ?_
  exact (ite (fun _ => hcounted.emit _) fun _ => hcounted).forward (hd _) (by cases silent <;> rfl)

theorem onList : Does P R s (n.onList id only) (n'.onList id only) := by
  obtain ⟨q, -⟩ := h.requeued
  refine Does.numericArgs (Does.foldl (h.numericArgs rfl) fun n n' key _ h => ?_) rfl
  obtain ⟨q, -⟩ := h.requeued
  dsimp only [requeue]
  split
  · exact h
  · exact h.numericArgs rfl

theorem onWhois : Does P R s (n.onWhois id nick) (n'.onWhois id nick) := by
  obtain ⟨q, -⟩ := h.requeued
  unfold Network.onWhois
  rw [show (n.requeue q).isRegistered = n.isRegistered from rfl]
  dsimp only [requeue]
  split
  · exact (h.numericArgs rfl).numericArgs rfl
  split
  · exact h
  · refine Does.numericArgs (ite (fun _ => ?_) fun _ => Does.numericArgs ?_ rfl) rfl
    · exact (h.numericArgs rfl).numericArgs rfl
    · exact (h.numericArgs rfl).numericArgs rfl

end

end Does

/-! ## A client's message -/

/-- What `id` may do by a command. -/
def Licensed (id : ClientId) (command : Command) (n : Network) : Deed → Prop
  | .emit _ | .setTopic .. => True
  | .deliver out => ∀ i m, out i = some m → isTalk m.command → isTalk command
  | .count => isTalk command
  | .edit i f => i = id ∧ Edits f
  | .claim i nick =>
      i = id ∧ (∃ typed, command = .nick typed ∧ nick = Str.trim typed) ∧ fold nick ∉ n.banned
  | .enter i name => i = id ∧ (∃ targets keys real, command = .join targets keys real) ∧
      ∀ ch, n.channels.lookup (fold name) = some ch → id ∉ ch.members
  | .remove key i => (i = id ∧ ∃ targets reason, command = .part targets reason) ∨
      (∃ channels nicks reason, command = .kick channels nicks reason) ∧
        ∃ ch, n.channels.lookup key = some ch ∧ id ∈ ch.members ∧ id ∈ ch.operators
  | .erase i | .leaveAll i _ => i = id ∧ ∃ reason, command = .quit reason
  | .release _ | .dropEmpty => ∃ reason, command = .quit reason
  | _ => False

theorem Replies.licensed (n : Network) (d : Deed) (h : Replies n d) : Licensed id command n d := by
  cases d with
  | emit => trivial
  | deliver out => exact fun i m ho ht => absurd ht (by simp [h i m ho])
  | _ => exact h.elim

theorem Leaves.licensed (n : Network) (d : Deed) (h : Leaves id d) :
    Licensed id (.quit said) n d := by
  cases d with
  | erase | leaveAll => exact ⟨h, said, rfl⟩
  | release | dropEmpty => exact ⟨said, rfl⟩
  | _ => exact h.elim

namespace Does
variable {s : Network × Network}

/-- The roster has changed by steps that `L` allows, and `id` is registered. -/
abbrev Here (s : Network × Network) (L : Roster.Label → Prop) (id : ClientId) (r : Roster) : Prop :=
  s.1.roster.Steps L r ∧ r.isRegistered id

section
variable (h : Does P (s.1.roster.Steps Quiet) s n n')

include h

theorem registers (hP : ∀ f, Edits f → P n (.edit id f)) :
    Does P (s.1.roster.Steps Quiet) s (n.tryRegister id) (n'.tryRegister id) :=
  (h.tryRegister hP).holding (h.holds.trans tryRegister_steps)

theorem onCap (hP : ∀ n f, Edits f → P n (.edit id f)) :
    Does P (s.1.roster.Steps Quiet) s (n.onCap id sub arg) (n'.onCap id sub arg) := by
  obtain ⟨q, -⟩ := h.requeued
  cases sub with
  | ls | list =>
    exact Does.raw (h.edit ({ · with negotiating := true }) (hP n) fun _ => rfl) "CAP" rfl
  | req => exact h.raw "CAP" rfl
  | «end» => exact (h.edit ({ · with negotiating := false }) (hP n) fun _ => rfl).registers (hP _)
  | _ => exact h

theorem onUser (hP : ∀ n f, Edits f → P n (.edit id f)) :
    Does P (s.1.roster.Steps Quiet) s (n.onUser id user real) (n'.onUser id user real) := by
  obtain ⟨q, -⟩ := h.requeued
  refine ite (fun _ => h.numericArgs rfl) fun _ => ?_
  exact (h.edit ({ · with user := some user, real := some real }) (hP n) fun _ => rfl).registers
    (hP _)

theorem onTopic (hP : ∀ key topic, P n (.setTopic key topic)) :
    Does P (s.1.roster.Steps Quiet) s (n.onTopic id name topic) (n'.onTopic id name topic) := by
  obtain ⟨q, -⟩ := h.requeued
  unfold Network.onTopic
  dsimp only [requeue]
  split
  · exact h.numericArgs rfl
  split
  · exact h.sendTopic.holding (h.holds.trans sendTopic_steps)
  · refine ite (fun _ => h.numericArgs rfl) fun _ => ?_
    exact (h.setTopic (hP _)).holding (h.holds.trans setTopic_steps)

theorem onKick (hP : ∀ n key victim ch, n.channels.lookup key = some ch → id ∈ ch.members →
    id ∈ ch.operators → P n (.remove key victim)) :
    Does P (s.1.roster.Steps Quiet) s (n.onKick id name nick reason)
      (n'.onKick id name nick reason) := by
  obtain ⟨q, -⟩ := h.requeued
  unfold Network.onKick
  dsimp only [requeue]
  split
  · exact h.numericArgs rfl
  next channel hch =>
    refine ite (fun _ => h.numericArgs rfl) fun hmem => ?_
    refine ite (fun _ => h.numericArgs rfl) fun hop => ?_
    split
    · exact h.numericArgs rfl
    next victim hv =>
      refine Does.holding (h.kickMember fun n' hn' => ?_) (h.holds.trans ?_)
      · exact hP n' _ _ channel (hn' ▸ hch) (not_not.1 hmem) (not_not.1 hop)
      · refine kickMember_steps fun channel' hch' => ?_
        obtain rfl := Option.some.inj (hch.symm.trans hch')
        simpa using (Option.filter_eq_some_iff.1 hv).2

end

theorem onNick (h : Does P (s.1.roster.Steps (Claims (Str.trim nick))) s n n')
    (hc : n.clients.lookup id = some client) (hP : ∀ n f, Edits f → P n (.edit id f))
    (hclaim : fold (Str.trim nick) ∉ n.banned → P n (.claim id (Str.trim nick))) :
    Does P (s.1.roster.Steps (Claims (Str.trim nick))) s (n.onNick id nick)
      (n'.onNick id nick) := by
  obtain ⟨q, -⟩ := h.requeued
  unfold Network.onNick
  refine ite (fun _ => h.numericArgs rfl) fun _ => ?_
  refine ite (fun _ => h.numericArgs rfl) fun hv => ?_
  refine ite (fun _ => h.numericArgs rfl) fun hfree => ?_
  refine ite (fun _ => h.numericArgs rfl) fun hheld => ?_
  refine (h.changeNick hP (hclaim hfree)).holding (h.holds.trans ?_)
  exact changeNick_steps hc (by simpa using hv) fun holder hh => by simpa [hh] using hheld

theorem onJoin (h : Does P (Here s L id) s n n') (hL : L (.enter id name))
    (hP : ∀ n, (∀ ch, n.channels.lookup (fold name) = some ch → id ∉ ch.members) →
      P n (.enter id name)) : Does P (Here s L id) s (n.onJoin id name) (n'.onJoin id name) := by
  obtain ⟨q, -⟩ := h.requeued
  obtain ⟨hsteps, hreg⟩ := h.holds
  obtain ⟨client, hc, hreg⟩ := isRegistered_iff.1 (isRegistered_roster ▸ hreg)
  refine ite (fun _ => h.numericArgs rfl) fun hv => ite (fun _ => h) fun hout => ?_
  have hout : ∀ ch, n.channels.lookup (fold name) = some ch → id ∉ ch.members :=
    fun ch hch hmem => hout (by simp [hch, hmem])
  obtain ⟨user, topic, henter⟩ := roster_enter hc name
  refine (h.enter (hP n hout)).holding ?_
  rw [henter]
  refine ⟨hsteps.trans ((Roster.Step.enters id name user topic (by simpa using hv)
    (clients_roster hc) hreg fun room hroom => ?_).steps hL), ?_⟩
  · obtain ⟨channel, hch, rfl⟩ := Option.map_eq_some_iff.1 hroom
    exact hout channel hch
  · simp [Roster.isRegistered, Roster.place, Roster.modifyClient, clients_roster hc, Client.view,
      hreg]

theorem onPart (h : Does P (Here s Quiet id) s n n') (hP : ∀ n key, P n (.remove key id)) :
    Does P (Here s Quiet id) s (n.onPart id name reason) (n'.onPart id name reason) := by
  obtain ⟨q, -⟩ := h.requeued
  obtain ⟨hsteps, hreg⟩ := h.holds
  obtain ⟨client, hc, hreg⟩ := isRegistered_iff.1 (isRegistered_roster ▸ hreg)
  unfold Network.onPart
  dsimp only [requeue]
  split
  · exact h.numericArgs rfl
  next channel hch =>
    obtain ⟨hch, hmem⟩ := Option.filter_eq_some_iff.1 hch
    have hsaid : Does P Any s (n.broadcast (fold name)
        { source := some (n.originOf id), command := .part channel.name reason } none) _ :=
      h.broadcast rfl
    refine ((hsaid.emitOf (fun n => .parted (n.nickOf id) channel.name reason)
      fun _ _ => rfl).perform (.remove (fold name) id) (hP _ _)).holding ?_
    rw [Network.perform, roster_removeMember, roster_emit, roster_broadcast hch rfl, originOf_eq hc]
    refine ⟨hsteps.trans ((Roster.Step.parts id _ _ _ (channels_roster hch)
      (by simpa [Channel.view] using hmem)).steps rfl), ?_⟩
    simp [Roster.isRegistered, Roster.remove, Roster.modifyClient, Roster.tellMembers, Roster.tell,
      clients_roster hc, Client.view, hreg]

theorem names (h : Does P (Here s Quiet id) s n n') :
    Does P (Here s Quiet id) s (n.sendNames id name) (n'.sendNames id name) := by
  refine h.sendNames.holding ?_
  rw [roster_sendNames]
  refine ⟨h.holds.1.trans ((Roster.Step.lists id name h.holds.2).steps rfl), ?_⟩
  rw [Roster.isRegistered, Roster.list_clients]
  exact h.holds.2

theorem registeredCommand (command : Command)
    (h : Does (Licensed id command) (Here s (mayLetIn id command) id) s n n') :
    Does (Licensed id command) (s.1.roster.Steps (mayLetIn id command)) s
      (n.registeredCommand id command) (n'.registeredCommand id command) := by
  have hs : Does (Licensed id command) (s.1.roster.Steps (mayLetIn id command)) s n n' :=
    h.imp fun _ hr => hr.1
  cases command with
  | join targets keys real =>
    refine (h.foldl fun _ _ target ht h => ?_).imp fun _ hr => hr.1
    exact h.onJoin ⟨target, ht, rfl⟩ fun _ hout => ⟨rfl, ⟨_, _, _, rfl⟩, hout⟩
  | part targets reason =>
    refine (h.foldl fun _ _ target _ h => ?_).imp fun _ hr => hr.1
    exact h.onPart fun _ _ => .inl ⟨rfl, _, _, rfl⟩
  | privmsg target text | notice target text => exact hs.onMessage rfl fun _ _ _ _ _ _ => rfl
  | topic channel topic => exact hs.onTopic fun _ _ => trivial
  | kick channels nicks reason =>
    refine hs.foldl fun _ _ p _ h => h.onKick fun _ _ _ ch hch hmem hop => ?_
    exact .inr ⟨⟨_, _, _, rfl⟩, ch, hch, hmem, hop⟩
  | names rooms server =>
    cases rooms with
    | none => exact hs.numericArgs rfl
    | some rooms =>
      refine (h.foldl fun _ _ _ _ h => ?_).imp fun _ hr => hr.1
      exact h.names
  | motd server => exact hs.sendMotd
  | list rooms server => exact hs.onList
  | whois target masks => exact hs.foldl fun _ _ _ _ h => h.onWhois
  | channelMode channel modes =>
    cases modes with
    | nil =>
      obtain ⟨q, -⟩ := h.requeued
      exact hs.raw "324" rfl
    | cons => exact hs
  | userMode => exact hs
  | _ => exact hs.numericArgs rfl

/-- A client's message does what its sender may do by its command. -/
theorem handle (h : Does (Licensed id message.command)
    (s.1.roster.Steps (mayLetIn id message.command)) s n n') :
    Does (Licensed id message.command) (s.1.roster.Steps (mayLetIn id message.command)) s
      (n.handle id message) (n'.handle id message) := by
  obtain ⟨q, -⟩ := h.requeued
  refine ite (fun _ => h) fun hin => ?_
  obtain ⟨client, hc⟩ := Option.isSome_iff_exists.1 (Option.isSome_iff_ne_none.2 fun hnone =>
    hin (Option.isNone_iff_eq_none.2 hnone))
  have hedit (command : Command) (n f) (hf : Edits f) : Licensed id command n (.edit id f) :=
    ⟨rfl, hf⟩
  generalize message.command = command at h
  cases command with
  | cap target sub arg suffix => exact h.onCap (hedit _)
  | nick nick => exact h.onNick hc (hedit _) fun hfree => ⟨rfl, ⟨nick, rfl, rfl⟩, hfree⟩
  | user user mode real => exact h.onUser (hedit _)
  | pass | pong => exact h
  | ping token server => exact h.say rfl rfl
  | quit reason => exact (h.close Leaves.licensed (hedit _)).holding (h.holds.trans close_steps)
  | _ =>
    refine ite (fun hreg => Does.registeredCommand _ ?_) fun _ => h.numericArgs rfl
    exact h.holding ⟨h.holds, isRegistered_roster.trans hreg⟩

end Does

/-! ## The operator's commands -/

/-- The operations that take `id` from the server. -/
def Departs (n : Network) (id : ClientId) : Operation → Prop
  | .handle i message => i = id ∧ ∃ reason, message.command = .quit reason
  | .disconnect i _ => i = id
  | .runAdmin (.disconnect nick _) => n.registered nick = .ok id
  | .runAdmin (.ban nick _) =>
    validNick nick ∧ fold nick ∉ n.banned ∧ n.nicks.lookup (fold nick) = some id
  | _ => False

/-- What the operator may do by a command that finds the network `before`. -/
def Ordered (before : Network) (command : AdminCommand) (_ : Network) : Deed → Prop
  | .emit _ | .deliver _ | .remove .. | .setTopic .. | .appoint .. | .setMotd _ => True
  | .release _ | .dropEmpty => True
  | .erase i | .leaveAll i _ => before.Departs i (.runAdmin command)
  | .edit i f => before.Departs i (.runAdmin command) ∧ Edits f
  | .ban key => ∃ nick reason, command = .ban nick reason ∧ key = fold nick
  | .unban _ => ∃ nick, command = .unban nick
  | _ => False

/-- Two outcomes of a command: the same answer, and networks after the same deeds. -/
def Answers (P : Network → Deed → Prop) (R : Roster → Prop) (s : Network × Network)
    (r r' : Network × Except String String) : Prop := Does P R s r.1 r'.1 ∧ r'.2 = r.2

namespace Answers
variable {R : Roster → Prop} {s : Network × Network} {before : Network} {order : AdminCommand}

theorem ite {a a' b b' : Network × Except String String} {c : Prop} [Decidable c]
    (ha : c → Answers P R s a a') (hb : ¬c → Answers P R s b b') :
    Answers P R s (if c then a else b) (if c then a' else b') := by
  by_cases hc : c
  · rw [if_pos hc, if_pos hc]
    exact ha hc
  · rw [if_neg hc, if_neg hc]
    exact hb hc

theorem orRefuse {found : Except String α} {go go' : α → Network × Except String String}
    (h : Does P R s n n') (hgo : ∀ a, found = .ok a → Answers P R s (go a) (go' a)) :
    Answers P R s (n.orRefuse found go) (n'.orRefuse found go') := by
  cases found with
  | error why => exact ⟨h, rfl⟩
  | ok a => exact hgo a rfl

theorem notice (h : Does P R s n n') (hd : ∀ out, P n (.deliver out)) :
    Answers P R s (n.notice target text) (n'.notice target text) := by
  obtain ⟨q, -⟩ := h.requeued
  refine ite (fun _ => ⟨h, rfl⟩) fun _ => ite (fun _ => ?_) fun _ => ?_
  · exact orRefuse h fun (key, channel) _ => ⟨h.spread hd rfl, rfl⟩
  · exact orRefuse h fun i _ => ⟨h.pass (· = i) hd rfl, rfl⟩

theorem wall (h : Does P R s n n') (hd : ∀ out, P n (.deliver out)) :
    Answers P R s (n.wall text) (n'.wall text) := by
  obtain ⟨q, -⟩ := h.requeued
  refine ite (fun _ => ⟨h, rfl⟩) fun _ => ⟨?_, rfl⟩
  refine h.quietly (.deliver _) (hd _) (roster_deliver_quiet fun i m hm => ?_)
  split at hm
  · exact Option.some.inj hm ▸ rfl
  · cases hm

variable (h : Does (Ordered before order) (s.1.roster.Steps Quiet) s n n')

include h

theorem close (hi : before.Departs i (.runAdmin order)) : Does (Ordered before order)
    (s.1.roster.Steps Quiet) s (n.close i reason) (n'.close i reason) := by
  refine (h.close (fun n d hd => ?_) fun _ _ hf => ⟨hi, hf⟩).holding (h.holds.trans close_steps)
  cases d with
  | erase | leaveAll => exact hd ▸ hi
  | release | dropEmpty => trivial
  | _ => exact hd.elim

theorem kickMember (hin : ∀ ch, n.channels.lookup key = some ch → i ∈ ch.members) :
    Does (Ordered before order) (s.1.roster.Steps Quiet) s (n.kickMember key i by_ reason)
      (n'.kickMember key i by_ reason) :=
  (h.kickMember fun _ _ => trivial).holding (h.holds.trans (kickMember_steps hin))

theorem setOp : Answers (Ordered before order) (s.1.roster.Steps Quiet) s (n.setOp name nick give)
    (n'.setOp name nick give) := by
  obtain ⟨q, -⟩ := h.requeued
  refine orRefuse h fun (key, channel, i) hm => ite (fun _ => ⟨h, rfl⟩) fun _ => ⟨?_, rfl⟩
  have hset := h.perform (.appoint key channel
    (if give then insert i channel.operators else channel.operators.erase i)) trivial
  have hsaid : Does _ Any s (Network.broadcast _ key {
      source := some n.serverOrigin
      command := .raw "MODE" [channel.name, if give then "+o" else "-o", n.nickOf i] } none) _ :=
    hset.broadcast rfl
  refine (hsaid.emitOf (fun m => .mode channel.name m.serverName (n.nickOf i) give)
    fun _ _ => rfl).holding ?_
  rw [roster_emit]
  exact h.holds.trans (setOp_steps hm give)

theorem closeChannel : Answers (Ordered before order) (s.1.roster.Steps Quiet) s
    (n.closeChannel name reason) (n'.closeChannel name reason) := by
  obtain ⟨q, -⟩ := h.requeued
  refine orRefuse h fun (key, channel) hk => ⟨?_, rfl⟩
  refine Does.holding (R := Any) (Does.foldl (h.holding trivial) fun n n' i _ h => ?_)
    (h.holds.trans (foldl_kickMember_steps ?_ ?_ _))
  · obtain ⟨q, -⟩ := h.requeued
    exact h.kickMember fun _ _ => trivial
  · rw [← Multiset.coe_nodup, coe_sorted]
    exact channel.members.nodup
  · intro channel' hch' i hi
    obtain rfl := Option.some.inj ((channelKey_eq_ok hk).symm.trans hch')
    simpa using hi

end Answers

theorem Does.execute {s : Network × Network} (command : AdminCommand)
    (h : Does (Ordered n command) (s.1.roster.Steps Quiet) s n n') :
    Answers (Ordered n command) (s.1.roster.Steps Quiet) s (n.execute command)
      (n'.execute command) := by
  obtain ⟨q, -⟩ := h.requeued
  cases command with
  | kick name nick reason =>
    refine .orRefuse h fun (key, channel, victim) hm => ⟨Answers.kickMember h fun ch hch => ?_, rfl⟩
    obtain ⟨hch', hmem, -⟩ := member_eq_ok hm
    exact Option.some.inj (hch'.symm.trans hch) ▸ hmem
  | disconnect nick reason => exact .orRefuse h fun i hi => ⟨Answers.close h hi, rfl⟩
  | ban nick reason =>
    have hban := h.quietly (.ban (fold nick)) ⟨nick, reason, rfl, rfl⟩ rfl
    refine Answers.ite (fun _ => ⟨h, rfl⟩) fun hvalid => ?_
    refine Answers.ite (fun _ => ⟨h, rfl⟩) fun hnew => ⟨?_, rfl⟩
    dsimp only [requeue]
    split
    next i hi => exact Answers.close hban ⟨by simpa using hvalid, hnew, hi⟩
    · exact hban
  | unban nick =>
    refine Answers.ite (fun _ => ⟨?_, rfl⟩) fun _ => ⟨h, rfl⟩
    exact h.quietly (.unban (fold nick)) ⟨nick, rfl⟩ rfl
  | setTopic name topic =>
    refine .orRefuse h fun (key, channel) _ => ⟨?_, rfl⟩
    exact (h.setTopic fun _ => trivial).holding (h.holds.trans setTopic_steps)
  | closeChannel name reason => exact Answers.closeChannel h
  | op name nick | deop name nick => exact Answers.setOp h
  | notice target text => exact .notice h fun _ => trivial
  | wall text => exact .wall h fun _ => trivial
  | setMotd lines =>
    have hset (lines : List String) := h.quietly (.setMotd lines) trivial rfl
    exact Answers.ite (fun _ => ⟨hset _, rfl⟩) fun _ => ⟨hset _, rfl⟩

/-! ## Every operation -/

/-- What an operation may do that finds the network `before`. -/
def licence (before : Network) : Operation → Network → Deed → Prop
  | .connect id, _, d => match d with
    | .emit _ | .countConnection => True
    | .deliver out => ∀ i m, out i = some m → isTalk m.command = false
    | .accept i => i = id
    | _ => False
  | .handle id message, n, d => Licensed id message.command n d
  | .disconnect id _, n, d => Licensed id (.quit none) n d
  | .runAdmin command, n, d => Ordered before command n d
  | .ping _, n, d => Replies n d
  | .observe, n, d => Replies n d ∨ d = .observe
  | .tick now, n, d => Replies n d ∨ d = .tick now

/-- An operation does what it is licensed to do, the same whatever is queued, and changes the roster
by steps that let in no more than it may. -/
theorem apply_does (h : Alike (fun _ => True) n n') (op : Operation) :
    Does (n.licence op) (fun r => n.Allows op → n.roster.Steps (letsIn op) r) (n, n') (n.apply op)
      (n'.apply op) := by
  cases op with
  | connect id =>
    have h : Does (n.licence (.connect id)) Any (n, n') n n' := by
      refine .start (fun n d hd => ?_) h trivial
      cases d with
      | emit | deliver => exact hd
      | _ => exact hd.elim
    refine (((h.perform .countConnection trivial).emit (.connected id)).perform (.accept id)
      rfl).holding fun hid => ?_
    simp only [perform]
    rw [roster_insertClient, roster_emit]
    exact (Roster.Step.connects id (congrArg (Option.map _) hid)).steps rfl
  | handle id message =>
    exact ((Does.start Replies.licensed h .refl).handle).imp fun _ hr _ => hr
  | disconnect id reason =>
    have h : Does (Licensed id (.quit none)) Any (n, n') n n' := .start Replies.licensed h trivial
    exact (h.disconnect Leaves.licensed).holding fun _ => disconnect_steps
  | runAdmin command =>
    have h : Does (Ordered n command) (n.roster.Steps Quiet) (n, n') n n' := by
      refine .start (fun n d hd => ?_) h .refl
      cases d with
      | emit | deliver => trivial
      | _ => exact hd.elim
    obtain ⟨hdone, hsaid⟩ := Does.execute (s := (n, n')) command h
    simp only [apply, runAdmin, hsaid]
    exact (hdone.emit _).imp fun _ hr _ => hr
  | ping id =>
    have hstart : Does (n.licence (.ping id)) (n.roster.Steps Quiet) (n, n') n n' :=
      .start (fun _ _ hd => hd) h .refl
    obtain ⟨q, -⟩ := h
    exact (Does.ite (fun _ => hstart.say rfl rfl) fun _ => hstart).imp fun _ hr _ => hr
  | observe =>
    exact (Does.start (fun _ _ => .inl) h fun _ => .refl).quietly .observe (.inr rfl) rfl
  | tick now =>
    exact (Does.start (fun _ _ => .inl) h fun _ => .refl).quietly (.tick now) (.inr rfl) rfl

theorem apply_did (op : Operation) : n.Did (n.licence op) (n.apply op) :=
  (apply_does (.refl n) op).did

theorem apply_steps {op : Operation} (h : n.Allows op) :
    n.roster.Steps (letsIn op) (n.apply op).roster := (apply_does (.refl n) op).holds h

theorem Alike.apply (h : Alike A n n') (op : Operation) : Alike A (n.apply op) (n'.apply op) :=
  (apply_does (h.mono fun _ _ => trivial) op).alike h

theorem handle_did : n.Did (Licensed id message.command) (n.handle id message) :=
  apply_did (.handle id message)

variable {op : Operation} {before : Network}

theorem licence_claim (h : before.licence op n (.claim i nick)) : fold nick ∉ n.banned ∧
    ∃ message typed, op = .handle i message ∧ message.command = .nick typed ∧
      nick = Str.trim typed := by
  cases op with
  | handle id message =>
    obtain ⟨rfl, ⟨typed, hm⟩, hfree⟩ := h
    exact ⟨hfree, message, typed, rfl, hm⟩
  | disconnect id reason => exact nomatch h.2.1
  | observe | tick => exact h.elim False.elim nofun
  | _ => exact h.elim

theorem licence_accept (h : before.licence op n (.accept id)) : op = .connect id := by
  cases op with
  | connect i => exact congrArg _ h.symm
  | observe | tick => exact h.elim False.elim nofun
  | _ => exact h.elim

theorem licence_edit (h : before.licence op n (.edit id f)) :
    Edits f ∧ ((∃ message, op = .handle id message) ∨ before.Departs id op) := by
  cases op with
  | handle i message => exact ⟨h.2, .inl ⟨message, h.1 ▸ rfl⟩⟩
  | disconnect i reason => exact ⟨h.2, .inr h.1.symm⟩
  | runAdmin command => exact ⟨h.2, .inr h.1⟩
  | observe | tick => exact h.elim False.elim nofun
  | _ => exact h.elim

theorem licence_erase (h : before.licence op n (.erase id)) : before.Departs id op := by
  cases op with
  | handle i message => exact ⟨h.1.symm, h.2⟩
  | disconnect i reason => exact h.1.symm
  | runAdmin command => exact h
  | observe | tick => exact h.elim False.elim nofun
  | _ => exact h.elim

end Network

end Ddirc.Server
