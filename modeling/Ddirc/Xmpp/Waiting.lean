import Ddirc.Xmpp.Granted

/-! # The requests on the screen

`subscriptionRequests` of `session.dart`: the app's own list of who waits for an answer, from events
about contacts. The account forgets a request without such an event when the list lets the person
see us, when a contact withdraws or a new login comes; and the event for a contact who is taken off
the list also takes off a request that the account keeps. -/

namespace Ddirc.Xmpp
open List

def ContactEvent.show (shown : List String) : ContactEvent → List String
  | .requested jid => if jid.text ∈ shown then shown else shown ++ [jid.text]
  | .removed jid => shown.erase jid.text
  | _ => shown

def RosterItem.removes (item : RosterItem) (jid : BareJid) : Bool :=
  item.jid = jid && item.subscription = .remove

def RosterItem.names (own : BareJid) (item : RosterItem) (jid : BareJid) : Bool :=
  item.jid = jid && item.jid ≠ own

/-- The account, and the list on the screen. -/
structure Waiting where
  account : Account
  shown : List String := []

/-- The app takes off whom it answered by itself. -/
def AccountInput.show (shown : List String) : AccountInput → List String
  | .answerSubscription text _ => shown.erase text
  | _ => shown

def Waiting.step (rules : JidRules) (w : Waiting) (i : AccountInput) : Waiting × AccountEffects :=
  let (account, fx) := w.account.step rules i
  ({ account, shown := fx.contacts.foldl ContactEvent.show (i.show w.shown) }, fx)

/-- The list that comes is the whole one. -/
def Account.isReplacedBy (a : Account) : AccountInput → Bool
  | .roster sender id items => items.isSome && a.isAwaited sender id
  | _ => false

/-- The app gets to know who no longer waits. No contact who waits withdraws or is there at a login;
an answer names the person as the list on the screen does; and the server's list lets nobody see us
who waits, takes off none of them, and has every contact who waits if it is the whole one. -/
def Account.tells (rules : JidRules) (a : Account) : AccountInput → Bool
  | .session .online => a.contacts.requests.all (!a.contacts.contains ·)
  | .session (.presence p) => p.type ≠ .unsubscribe || p.sender.all fun sender =>
    (a.session.rooms.lookup sender.bare).isSome || sender.bare ∉ a.contacts.requests ||
      !a.contacts.contains sender.bare
  | .answerSubscription text _ =>
    a.contacts.requests.all fun jid => jid.text = text ↔ contactJid rules text = some jid
  | i => a.contacts.requests.all fun jid =>
    (a.listed i).all (fun item => !item.frees a.session.account jid && !item.removes jid) &&
      (!a.isReplacedBy i || !a.contacts.contains jid ||
        (a.listed i).any (·.names a.session.account jid))

/-! ## The server's list -/

namespace Contacts
variable {c : Contacts} {own : BareJid} {items : List RosterItem}

theorem requested_applyItem : .requested jid ∉ (c.applyItem own item).2 := by
  rw [applyItem]
  split
  · exact not_mem_nil
  split
  · split <;> simp
  split <;> simp

theorem requested_applyRoster : .requested jid ∉ (c.applyRoster items own full).2 := by
  have hitems : .requested jid ∉ (c.applyItems own items).2 := by
    induction items generalizing c with
    | nil => exact not_mem_nil
    | cons item items ih => exact fun hmem => (mem_append.1 hmem).elim requested_applyItem ih
  cases full
  · exact hitems
  · exact fun hmem => (mem_append.1 hmem).elim hitems (by simp)

theorem removed_applyItem (h : .removed jid ∈ (c.applyItem own item).2) : item.removes jid := by
  rw [applyItem] at h
  split at h
  · cases h
  split at h
  next hremove =>
    split at h
    · obtain rfl := ContactEvent.removed.inj (mem_singleton.1 h)
      simp [RosterItem.removes, hremove]
    · cases h
  split at h <;> simp at h

theorem removed_applyItems (h : .removed jid ∈ (c.applyItems own items).2) :
    items.any (·.removes jid) := by
  induction items generalizing c with
  | nil => cases h
  | cons item items ih =>
    rw [any_cons, Bool.or_eq_true]
    exact (mem_append.1 h).imp removed_applyItem ih

theorem contains_applyItem (h : (c.applyItem own item).1.contains jid) :
    c.contains jid ∨ item.names own jid := by
  unfold contains applyItem at *
  split at h
  · exact .inl h
  next hown =>
    by_cases hjid : item.jid = jid
    · exact .inr (by simp [RosterItem.names, ← hjid, hown])
    · left
      split at h
      · rwa [AList.lookup_erase_ne (Ne.symm hjid)] at h
      split at h
      · exact h
      · rwa [AList.lookup_insert_ne (Ne.symm hjid)] at h

theorem contains_applyItems (h : (c.applyItems own items).1.contains jid) :
    c.contains jid ∨ items.any (·.names own jid) := by
  induction items generalizing c with
  | nil => exact .inl h
  | cons item items ih =>
    rw [any_cons, Bool.or_eq_true, ← or_assoc]
    exact (ih h).imp_left contains_applyItem

theorem removed_applyRoster (h : .removed jid ∈ (c.applyRoster items own full).2) :
    items.any (·.removes jid) ∨
      full ∧ c.contains jid ∧ items.any (·.names own jid) = false := by
  cases full with
  | false => exact .inl (removed_applyItems h)
  | true =>
    refine (mem_append.1 h).imp removed_applyItems fun h => ?_
    obtain ⟨other, hgone, heq⟩ := mem_map.1 h
    obtain rfl := ContactEvent.removed.inj heq
    obtain ⟨hkey, hno⟩ := mem_filter.1 hgone
    have hno : items.any (·.names own other) = false := by simpa [RosterItem.names] using hno
    have hheld : (c.applyItems own items).1.contains other := AList.lookup_isSome.2 hkey
    exact ⟨rfl, (contains_applyItems hheld).resolve_right (by simp [hno]), hno⟩

theorem applyItem_spares (h : ∀ jid ∈ c.requests, item.frees own jid = false) :
    (c.applyItem own item).1.requests = c.requests := by
  rw [applyItem]
  split
  · rfl
  next hown =>
    split
    · rfl
    split
    · rfl
    split
    next hsee =>
      refine filter_eq_self.2 fun jid hmem => decide_eq_true fun hjid => ?_
      have hfrees := h jid hmem
      simp [RosterItem.frees, hjid, hown, hsee] at hfrees
    · rfl

theorem applyItems_spares (h : ∀ jid ∈ c.requests, items.any (·.frees own jid) = false) :
    (c.applyItems own items).1.requests = c.requests := by
  induction items generalizing c with
  | nil => rfl
  | cons item items ih =>
    simp only [any_cons, Bool.or_eq_false_iff] at h
    have hitem := applyItem_spares fun jid hmem => (h jid hmem).1
    have hitems := ih (c := (c.applyItem own item).1) fun jid hmem => (h jid (hitem ▸ hmem)).2
    exact hitems.trans hitem

end Contacts

/-! ## Steps -/

/-- The screen shows who is left waiting, each once, after these events. -/
def Follows (shown : List String) (events : List ContactEvent) (left : List BareJid) : Prop :=
  events.foldl ContactEvent.show shown = left.map (·.text) ∧ left.Nodup

namespace Follows
variable {requests : List BareJid} {events : List ContactEvent} {jid : BareJid}

theorem quiet (h : requests.Nodup) (hrequested : ∀ jid, .requested jid ∉ events)
    (hremoved : ∀ jid ∈ requests, .removed jid ∉ events) :
    Follows (requests.map (·.text)) events requests := by
  refine ⟨?_, h⟩
  induction events with
  | nil => rfl
  | cons e events ih =>
    have hrest := ih (fun jid hmem => hrequested jid (mem_cons_of_mem _ hmem))
      fun jid hjid hmem => hremoved jid hjid (mem_cons_of_mem _ hmem)
    cases e with
    | requested jid => exact absurd mem_cons_self (hrequested jid)
    | removed jid =>
      rwa [foldl_cons, ContactEvent.show, erase_of_not_mem]
      intro hmem
      obtain ⟨other, hother, htext⟩ := mem_map.1 hmem
      exact hremoved other hother (BareJid.text_inj.1 htext ▸ mem_cons_self)
    | contact | error => exact hrest

theorem all : Follows (requests.map (·.text)) (requests.map .removed) [] := by
  refine ⟨?_, nodup_nil⟩
  induction requests with
  | nil => rfl
  | cons jid requests ih => rwa [map_cons, map_cons, foldl_cons, ContactEvent.show, erase_cons_head]

theorem removed (h : requests.Nodup) :
    Follows (requests.map (·.text)) [.removed jid] (requests.filter (· ≠ jid)) := by
  refine ⟨?_, h.filter _⟩
  rw [foldl_cons, ContactEvent.show, ← map_erase fun _ _ => BareJid.text_inj.1,
    h.erase_eq_filter]
  exact congrArg _ (filter_congr fun other _ => by grind)

theorem requested (h : requests.Nodup) (hnew : jid ∉ requests) :
    Follows (requests.map (·.text)) [.requested jid] (requests ++ [jid]) := by
  refine ⟨?_, h.append (nodup_singleton jid) (disjoint_singleton.2 hnew)⟩
  rw [foldl_cons, ContactEvent.show, if_neg, map_append]
  · rfl
  · intro hmem
    obtain ⟨other, hother, htext⟩ := mem_map.1 hmem
    exact hnew (BareJid.text_inj.1 htext ▸ hother)

end Follows

namespace Account
variable {rules : JidRules} {a : Account} {i : AccountInput}

theorem onOnline_follows (ht : a.tells rules (.session .online)) :
    Follows (a.contacts.requests.map (·.text)) (a.onOnline rules).2.contacts
      (a.onOnline rules).1.contacts.requests := by
  have hgone : a.contacts.requests.filter (!a.contacts.contains ·) = a.contacts.requests :=
    filter_eq_self.2 (all_eq_true.1 ht)
  change Follows _ (map _ (filter _ _)) []
  rw [hgone]
  exact .all

theorem onPresence_follows (h : a.contacts.requests.Nodup)
    (ht : a.tells rules (.session (.presence p))) :
    Follows (a.contacts.requests.map (·.text)) (a.onPresence rules p).2.contacts
      (a.onPresence rules p).1.contacts.requests := by
  have hquiet : Follows (a.contacts.requests.map (·.text)) [] a.contacts.requests :=
    .quiet h (fun _ => not_mem_nil) fun _ _ => not_mem_nil
  rw [onPresence]
  split
  next => exact hquiet
  next sender hsender =>
    split
    next => exact hquiet
    next hroom =>
      split
      next =>
        split
        next =>
          rw [Contacts.addRequest]
          split_ifs with hnone
          · exact hquiet
          · exact .requested h fun hmem => hnone (.inl hmem)
        next => exact hquiet
      next htype =>
        have htold :
            sender.bare ∉ a.contacts.requests ∨ a.contacts.contains sender.bare = false := by
          simpa [tells, htype, hsender, hroom] using ht
        by_cases hmem : sender.bare ∈ a.contacts.requests
        · rw [Contacts.takeRequest, htold.resolve_left (not_not.2 hmem), decide_eq_true hmem]
          exact .removed h
        · rw [Contacts.takeRequest_of_not_mem hmem]
          exact hquiet
      next => exact hquiet

theorem answerSubscription_follows (h : a.contacts.requests.Nodup)
    (ht : a.tells rules (.answerSubscription text accept)) :
    Follows ((a.contacts.requests.map (·.text)).erase text)
      (a.answerSubscription rules text accept).2.contacts
      (a.answerSubscription rules text accept).1.contacts.requests := by
  have hnamed : ∀ jid ∈ a.contacts.requests, jid.text = text ↔ contactJid rules text = some jid :=
    fun jid hjid => of_decide_eq_true (all_eq_true.1 ht jid hjid)
  rw [answerSubscription]
  split
  next hnone =>
    rw [erase_of_not_mem fun hmem => ?_]
    · exact .quiet h (by simp [AccountEffects.error]) (by simp [AccountEffects.error])
    · obtain ⟨jid, hjid, htext⟩ := mem_map.1 hmem
      exact Option.some_ne_none _ (((hnamed jid hjid).1 htext).symm.trans hnone)
  next jid hsome =>
    by_cases hwaiting : jid ∈ a.contacts.requests
    · obtain rfl := (hnamed jid hwaiting).2 hsome
      rw [Contacts.takeRequest, decide_eq_true hwaiting]
      exact .removed h
    · rw [Contacts.takeRequest_of_not_mem hwaiting, erase_of_not_mem fun hmem => ?_]
      · exact .quiet h (by simp [AccountEffects.error]) (by simp [AccountEffects.error])
      · obtain ⟨other, hother, htext⟩ := mem_map.1 hmem
        obtain rfl := Option.some.inj (((hnamed other hother).1 htext).symm.trans hsome)
        exact hwaiting hother

theorem applyRoster_follows {c : Contacts} {items : List RosterItem} {own : BareJid} {full : Bool}
    (h : c.requests.Nodup) (ht : c.requests.all fun jid =>
      items.all (fun item => !item.frees own jid && !item.removes jid) &&
        (!full || !c.contains jid || items.any (·.names own jid))) :
    Follows (c.requests.map (·.text)) (c.applyRoster items own full).2
      (c.applyRoster items own full).1.requests := by
  simp only [all_eq_true, Bool.and_eq_true, Bool.not_eq_true', Bool.or_eq_true] at ht
  have hfrees (jid) (hjid : jid ∈ c.requests) : items.any (·.frees own jid) = false :=
    any_eq_false.2 fun item hitem => by simp [((ht jid hjid).1 item hitem).1]
  rw [Contacts.requests_applyRoster, Contacts.applyItems_spares hfrees]
  refine .quiet h (fun _ => Contacts.requested_applyRoster) fun jid hjid hmem => ?_
  rcases Contacts.removed_applyRoster hmem with hremoved | ⟨hfull, hheld, hno⟩
  · obtain ⟨item, hitem, hremoved⟩ := any_eq_true.1 hremoved
    cases hremoved.symm.trans ((ht jid hjid).1 item hitem).2
  · simpa [hfull, hheld, hno] using (ht jid hjid).2

theorem step_follows (h : a.contacts.requests.Nodup) (ht : a.tells rules i) :
    Follows (i.show (a.contacts.requests.map (·.text))) (a.step rules i).2.contacts
      (a.step rules i).1.contacts.requests := by
  have hquiet : Follows (a.contacts.requests.map (·.text)) [] a.contacts.requests :=
    .quiet h (fun _ => not_mem_nil) fun _ _ => not_mem_nil
  have herror : ∀ message, Follows (a.contacts.requests.map (·.text)) [.error message]
    a.contacts.requests := fun _ => .quiet h (by simp) (by simp)
  cases i with
  | session i =>
    cases i with
    | online => exact onOnline_follows ht
    | presence p => exact onPresence_follows h ht
    | command | message | result | failure => exact hquiet
  | roster sender id items =>
    simp only [tells, step, onRoster, listed, isReplacedBy] at ht ⊢
    cases hitems : items.filter fun _ => a.isAwaited sender id with
    | none => exact hquiet
    | some taken =>
      obtain ⟨rfl, hawaited⟩ := Option.filter_eq_some_iff.1 hitems
      rw [hitems, hawaited] at ht
      exact applyRoster_follows h ht
  | push sender id items =>
    simp only [tells, step, onPush, listed, isReplacedBy] at ht ⊢
    cases hitems : items.filter fun _ => a.isOurs sender with
    | none => exact hquiet
    | some taken =>
      rw [hitems] at ht
      exact applyRoster_follows h ht
  | addContact text name =>
    rw [step, addContact]
    split
    · exact herror _
    · split_ifs
      · exact herror _
      · exact herror _
      · exact herror _
      · exact hquiet
  | removeContact text =>
    rw [step, removeContact]
    split
    · exact herror _
    · exact hquiet
  | answerSubscription text accept => exact answerSubscription_follows h ht
  | setAvailability => exact hquiet

end Account

/-! ## Runs -/

namespace Waiting
variable {rules : JidRules} {session : Session} {inputs : List AccountInput}

/-- In a run in which the app gets to know who no longer waits, the list on the screen is that of
the people to whom the account would take an answer. -/
theorem shown_eq_requests
    (h : Run.Along (step rules) (fun w i => w.account.tells rules i = true)
      { account := { session } }
      inputs) :
    let w := Run.after (step rules) { account := { session } } inputs
    w.shown = w.account.contacts.requests.map (·.text) := by
  have hagrees := h.induction (I := fun w => w.shown = w.account.contacts.requests.map (·.text) ∧
    w.account.contacts.requests.Nodup) ⟨rfl, nodup_nil⟩ ?_
  · exact hagrees.1
  · rintro w i ⟨hshown, hnodup⟩ hi
    have hstep := Account.step_follows hnodup hi
    rw [← hshown] at hstep
    exact hstep

open Granting in
/-- Bob asks, withdraws and asks again, and gets an answer. -/
theorem shown_eq_requests_bob :
    let inputs := [fromBob .subscribe, fromBob .unsubscribe, fromBob .subscribe, yesToBob]
    Run.Along (step .verbatim) (fun w i => w.account.tells .verbatim i = true)
      { account := { session := alice } } inputs ∧
    (Run.after (step .verbatim) { account := { session := alice } } inputs).shown = [] := by
  intro inputs
  have halong : Run.Along (step .verbatim) (fun w i => w.account.tells .verbatim i = true)
      { account := { session := alice } } inputs := by
    decide +kernel
  have hshown := shown_eq_requests halong
  exact ⟨halong, hshown.trans (by decide +kernel)⟩

open Granting in
/-- Bob asks, and another client of ours says yes: the server's list says that Bob sees us, the
account forgets the request, and the screen keeps it. -/
theorem shown_outlives_request :
    let w := Run.after (step .verbatim) { account := { session := alice } }
      [fromBob .subscribe, .push none "push" (some [{ jid := .bob, subscription := .fromOnly }])]
    w.shown = [BareJid.bob.text] ∧ w.account.contacts.requests = [] ∧
      (w.account.step .verbatim yesToBob).2.contacts =
        [.error "bob@example.org has not asked to see you."] := by
  decide +kernel

end Waiting

end Ddirc.Xmpp
