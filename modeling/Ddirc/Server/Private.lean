import Ddirc.Server.Safety
import Ddirc.Server.Snapshot

/-! # What is said in private

The server writes to its clients' queues and never reads them. Two networks that differ in the
queues of some clients alone (`Alike`) are alike after the same operation (`Alike.apply`), and after
two that differ in what one client says to another. -/

namespace Ddirc.Server
open Irc

namespace Network

variable {A : ClientId → Prop} {n n' : Network} {id : ClientId}

namespace Alike

theorem ite [Decidable c] (ha : c → Alike A a a')
    (hb : ¬c → Alike A b b') : Alike A (if c then a else b) (if c then a' else b') := by
  by_cases hc : c
  · rw [if_pos hc, if_pos hc]
    exact ha hc
  · rw [if_neg hc, if_neg hc]
    exact hb hc

variable (h : Alike A n n') {m m' : Message}

include h

theorem send_of_mem (hid : A id) : Alike A (n.send id m) (n'.send id m') := by
  obtain ⟨q, hq⟩ := h
  refine .intro _ fun i hi => ?_
  have hne : i ≠ id := fun he => hi (he ▸ hid)
  simp only [requeue, hq i hi, Network.send, Network.deliver, if_neg hne]

theorem numericArgs (id : ClientId) (response : Response) (args : List String) :
    Alike A (n.numericArgs id response args) (n'.numericArgs id response args) := by
  have hsend (m : Message) : Alike A (n.send id m) (n'.send id m) := h.perform (.deliver _)
  obtain ⟨q, -⟩ := h
  exact hsend _

theorem forward_of_private (hchan : isChannel target = false)
    (hA : ∀ i, n.nicks.lookup (fold target) = some i → A i) :
    Alike A (n.forward id target m silent) (n'.forward id target m' silent) := by
  have hrefuse := h.numericArgs id .errNoSuchNick [target, "No such nick/channel"]
  obtain ⟨q, hq⟩ := h
  have h : Alike A n (n.requeue q) := .intro q hq
  unfold Network.forward
  rw [hchan, if_neg Bool.false_ne_true]
  dsimp only [requeue]
  split
  next receiver hr => exact h.send_of_mem (hA receiver hr)
  · exact ite (fun _ => h) fun _ => hrefuse

/-- What a client says to another is known to the one it is for. -/
theorem onMessage_of_private (hx : x.isEmpty = false) (hy : y.isEmpty = false)
    (hchan : isChannel target = false) (hA : ∀ i, n.nicks.lookup (fold target) = some i → A i) :
    Alike A (n.onMessage id target x silent) (n'.onMessage id target y silent) := by
  have hcount := h.perform .count
  obtain ⟨q, hq⟩ := h
  have h : Alike A n (n.requeue q) := .intro q hq
  refine ite (fun _ => ite (fun _ => h) fun _ => h.numericArgs ..) fun _ => ?_
  rw [hx, hy, hchan, if_neg Bool.false_ne_true]
  -- the event says that something was said, and not what
  refine (ite (fun _ => hcount.perform (.emit _)) fun _ => hcount).forward_of_private hchan
    fun i hi => hA i ?_
  rw [← hi]
  split
  · simp only [Network.perform, nicks_emit]
  · rfl

end Alike

/-! ## Runs -/

/-- The same operation, or the same message from one client to another but for its text. -/
inductive SameBut : Operation → Operation → Prop where
  | same (op : Operation) : SameBut op op
  | privmsg (id : ClientId) (tags : Option (List Tag)) (source : Option Prefix) (target : String)
      {x y : String} : isChannel target = false → x ≠ "" → y ≠ "" →
    SameBut (.handle id ⟨tags, source, .privmsg target x⟩)
      (.handle id ⟨tags, source, .privmsg target y⟩)
  | notice (id : ClientId) (tags : Option (List Tag)) (source : Option Prefix) (target : String)
      {x y : String} : isChannel target = false → x ≠ "" → y ≠ "" →
    SameBut (.handle id ⟨tags, source, .notice target x⟩)
      (.handle id ⟨tags, source, .notice target y⟩)

/-- What an operation says to one client goes to `i`. -/
def Reaches (n : Network) : Operation → ClientId → Prop
  | .handle id message, i => ∃ target, addressee message.command = some target ∧
      isChannel target = false ∧ n.isRegistered id ∧ n.nicks.lookup (fold target) = some i
  | _, _ => False

/-- Where the two lists of operations differ, one of the messages goes to `i`. -/
def Addressed : Network → List Operation → List Operation → ClientId → Prop
  | n, op :: ops, op' :: ops', i => (op ≠ op' ∧ n.Reaches op i) ∨ Addressed (n.apply op) ops ops' i
  | _, _, _, _ => False

theorem Alike.sameBut (h : Alike A n n') (hop : SameBut op op')
    (hA : op ≠ op' → ∀ i, n.Reaches op i → A i) : Alike A (n.apply op) (n'.apply op') := by
  have hsay {id : ClientId} {target x y : String} (silent : Bool) (hchan : isChannel target = false)
      (hx : x ≠ "") (hy : y ≠ "")
      (hA : n.isRegistered id → ∀ i, n.nicks.lookup (fold target) = some i → A i) :
      let handle (n : Network) (text : String) :=
        if (n.clients.lookup id).isNone then n
        else if n.isRegistered id then n.onMessage id target text silent
        else n.numeric id .errNotRegistered ["You have not registered"]
      Alike A (handle n x) (handle n' y) := by
    obtain ⟨q, hq⟩ := h
    have h : Alike A n (n.requeue q) := .intro q hq
    refine Alike.ite (fun _ => h) fun _ => ?_
    refine Alike.ite (fun hreg => ?_) fun _ => h.numericArgs ..
    exact h.onMessage_of_private (by simpa using hx) (by simpa using hy) hchan (hA hreg)
  by_cases hsame : op = op'
  · rw [← hsame]
    exact h.apply op
  replace hA := hA hsame
  cases hop with
  | same => exact h.apply op
  | privmsg id tags source target hchan hx hy =>
    exact hsay false hchan hx hy fun hreg i hi => hA i ⟨target, rfl, hchan, hreg, hi⟩
  | notice id tags source target hchan hx hy =>
    exact hsay true hchan hx hy fun hreg i hi => hA i ⟨target, rfl, hchan, hreg, hi⟩

theorem Alike.run (h : Alike A n n') (hops : List.Forall₂ SameBut ops ops')
    (hA : ∀ i, n.Addressed ops ops' i → A i) : Alike A (n.run ops) (n'.run ops') := by
  induction hops generalizing n n' with
  | nil => exact h
  | cons hop _ ih =>
    exact ih (h.sameBut hop fun hne i hi => hA i (.inl ⟨hne, hi⟩)) fun i hi => hA i (.inr hi)

/-- Private messages stay private from the server's operator. Of two runs that differ only in the
texts of messages from one client to another, the observer is sent the same events, every snapshot
is the same, and so is what is queued to each client that none of these messages goes to. -/
theorem private_from_operator {server network : String} {now : Nat} {ops ops' : List Operation}
    (hrun : (init server network now).Meets (fun _ _ => True) ops)
    (hops : List.Forall₂ SameBut ops ops') :
    let n := (init server network now).run ops
    let n' := (init server network now).run ops'
    n'.events = n.events ∧
    (∀ (walk : Walk n.clients n.channels) (walk' : Walk n'.clients n'.channels),
      n'.snapshot walk' = n.snapshot walk) ∧
    ∀ i, ¬(init server network now).Addressed ops ops' i → n'.queues i = n.queues i := by
  have h : Alike ((init server network now).Addressed ops ops') ((init server network now).run ops)
      ((init server network now).run ops') := (Alike.refl _).run hops fun _ hi => hi
  have H := ((ReachableBy.init server network now).run hrun).consistent
  generalize (init server network now).run ops = n at h H
  generalize (init server network now).run ops' = n' at h
  obtain ⟨q, hq⟩ := h
  exact ⟨rfl, fun walk walk' => snapshot_eq H walk' walk, hq⟩

/-- Ann and Bob are registered, and so is Eve; the operator watches. Ann says something to Bob. -/
def whispering (text : String) : List Operation :=
  let line (id : ClientId) (command : Command) := Operation.handle id { command }
  [.observe, .connect 1, line 1 (.nick "ann"), line 1 (.user "ann" "0" "Ann"),
    .connect 2, line 2 (.nick "bob"), line 2 (.user "bob" "0" "Bob"),
    .connect 3, line 3 (.nick "eve"), line 3 (.user "eve" "0" "Eve"),
    line 1 (.privmsg "bob" text), line 3 (.whois none "bob")]

theorem private_from_operator_whispering :
    let n := (init "srv" "net" 0).run (whispering "yes")
    let n' := (init "srv" "net" 0).run (whispering "no")
    n.talk 2 ≠ n'.talk 2 ∧ n.events.length = 7 ∧ n'.events = n.events := by
  have hrun : (init "srv" "net" 0).Meets (fun _ _ => True) (whispering "yes") := by decide +kernel
  have hsame {ops : List Operation} : List.Forall₂ SameBut ops ops :=
    List.forall₂_same.2 fun op _ => .same op
  have hfront : List.Forall₂ SameBut ((whispering "yes").take 10) ((whispering "yes").take 10) :=
    hsame
  have hops : List.Forall₂ SameBut (whispering "yes") (whispering "no") :=
    List.rel_append hfront
      (.cons (.privmsg 1 none none "bob" (by decide) (by decide) (by decide)) hsame)
  exact ⟨by decide +kernel, by decide +kernel, (private_from_operator hrun hops).1⟩

end Network

end Ddirc.Server
