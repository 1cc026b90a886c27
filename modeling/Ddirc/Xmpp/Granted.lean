import Mathlib.Data.Finset.Option
import Ddirc.Xmpp.Contacts

/-! # Who is let see us

Who asked to see us, and was neither answered nor withdrew nor was let in by the list, is kept
beside the account as the inputs say it. The account loses sight of it when the withdrawal comes
from an address that is also a room's, and when an entry finds the list full. -/

namespace Ddirc.Xmpp
open List

structure Granting where
  account : Account
  /-- Who asked since the latest login, and has not been dealt with. -/
  asking : Finset BareJid := ∅
  /-- Everyone who asked, every time. -/
  received : List BareJid := []
  /-- Everyone who was told that they may see us, every time. -/
  granted : List BareJid := []

def AccountEffects.granted (fx : AccountEffects) : List BareJid :=
  fx.send.filterMap fun
    | .subscribed jid => some jid
    | _ => none

/-- The entry says that `jid`, who is not ourselves, can see us. -/
def RosterItem.frees (own : BareJid) (item : RosterItem) (jid : BareJid) : Bool :=
  item.jid = jid && item.jid ≠ own && item.subscription.letsSee

namespace Account
variable (rules : JidRules)

def listed (a : Account) : AccountInput → List RosterItem
  | .push sender _ items => (items.filter fun _ => a.isOurs sender).getD []
  | .roster sender id items => (items.filter fun _ => a.isAwaited sender id).getD []
  | _ => []

def asks : AccountInput → Option BareJid
  | .session (.presence p) => if p.type = .subscribe then p.sender.map (·.bare) else none
  | _ => none

/-- Who is dealt with by an input: they withdraw, or are answered. -/
def settles : AccountInput → Option BareJid
  | .session (.presence p) => if p.type = .unsubscribe then p.sender.map (·.bare) else none
  | .answerSubscription text _ => contactJid rules text
  | _ => none

/-- Who is still waiting after an input. -/
def stillAsking (a : Account) (asking : Finset BareJid) (i : AccountInput) : Finset BareJid :=
  if i = .session .online then ∅
  else ((asking ∪ (asks i).toFinset) \ (settles rules i).toFinset).filter fun jid =>
    !(a.listed i).any (·.frees a.session.account jid)

end Account

namespace Granting
variable (rules : JidRules)

def step (g : Granting) (i : AccountInput) : Granting × AccountEffects :=
  let (account, fx) := g.account.step rules i
  ({ account
     asking := g.account.stillAsking rules g.asking i
     received := g.received ++ (Account.asks i).toList
     granted := g.granted ++ fx.granted }, fx)

/-- A step lets somebody see us only as the user's answer to their asking. -/
def Rightly (g : Granting) (i : AccountInput) : Prop :=
  ∀ jid ∈ (g.account.step rules i).2.granted,
    ∃ text, i = .answerSubscription text true ∧ Account.contactJid rules text = some jid ∧
      jid ∈ g.asking

end Granting

/-! ## What a step must avoid -/

namespace Contacts

/-- Whoever is waiting and is let see us by the list is taken into it. -/
def takesIn (own : BareJid) (c : Contacts) : List RosterItem → Bool
  | [] => true
  | item :: items =>
    (item.jid ∉ c.requests || !item.frees own item.jid || c.contains item.jid || !c.isFull) &&
      takesIn own (c.applyItem own item).1 items

end Contacts

/-- A withdrawal comes from an address that is no room's, and the list has room for those who are
waiting. -/
def Account.heeds (a : Account) : AccountInput → Bool
  | .session (.presence p) => p.type ≠ .unsubscribe || p.sender.all fun sender =>
    (a.session.rooms.lookup sender.bare).isNone || sender.bare ∉ a.contacts.requests
  | i => a.contacts.takesIn a.session.account (a.listed i)

/-! ## Requests -/

namespace Contacts
variable {c : Contacts} {own jid : BareJid}

theorem requests_applyItem (item : RosterItem) :
    (c.applyItem own item).1.requests.Sublist c.requests := by
  rw [applyItem]
  split
  · exact .refl _
  split
  · exact .refl _
  split
  · exact .refl _
  split
  · exact filter_sublist
  · exact .refl _

theorem requests_applyItems (items : List RosterItem) :
    (c.applyItems own items).1.requests.Sublist c.requests := by
  induction items generalizing c with
  | nil => exact .refl _
  | cons item items ih => exact ih.trans (requests_applyItem item)

theorem requests_applyRoster (items : List RosterItem) (full : Bool) :
    (c.applyRoster items own full).1.requests = (c.applyItems own items).1.requests := by
  cases full <;> rfl

theorem takeRequest_of_not_mem (h : jid ∉ c.requests) : c.takeRequest jid = (c, false) := by
  have hsame : c.requests.filter (· ≠ jid) = c.requests :=
    filter_eq_self.2 fun other hmem => decide_eq_true fun hother => h (hother ▸ hmem)
  rw [takeRequest, hsame, decide_eq_false h]

/-- An entry that lets somebody see us takes away their request, if they are taken in. -/
theorem not_mem_applyItem (hfrees : item.frees own item.jid)
    (h : item.jid ∉ c.requests ∨ c.contains item.jid ∨ c.isFull = false) :
    item.jid ∉ (c.applyItem own item).1.requests := by
  rw [RosterItem.frees, Bool.and_eq_true, Bool.and_eq_true, decide_eq_true_eq,
    decide_eq_true_eq] at hfrees
  obtain ⟨⟨-, hown⟩, hsee⟩ := hfrees
  have hremove : item.subscription ≠ .remove := fun hr => by
    rw [hr] at hsee
    cases hsee
  rcases h with hno | hroom
  · exact fun hmem => hno ((requests_applyItem item).subset hmem)
  · have htaken : (!c.contains item.jid && c.isFull) = false := by
      rcases hroom with hroom | hroom <;> rw [hroom] <;> simp
    rw [applyItem, if_neg hown, if_neg hremove, htaken]
    simp [hsee]

theorem not_mem_applyItems {items : List RosterItem} (h : c.takesIn own items)
    (hfrees : items.any (·.frees own jid)) : jid ∉ (c.applyItems own items).1.requests := by
  induction items generalizing c with
  | nil => cases hfrees
  | cons item items ih =>
    rw [takesIn, Bool.and_eq_true] at h
    rw [any_cons, Bool.or_eq_true] at hfrees
    rcases hfrees with hfrees | hfrees
    · obtain rfl : item.jid = jid := by
        rw [RosterItem.frees, Bool.and_eq_true, Bool.and_eq_true, decide_eq_true_eq] at hfrees
        exact hfrees.1.1
      have hroom := h.1
      rw [hfrees] at hroom
      have hgone := not_mem_applyItem hfrees (by simpa [or_assoc] using hroom)
      exact fun hmem => hgone ((requests_applyItems items).subset hmem)
    · exact ih h.2 hfrees

end Contacts

/-! ## Steps -/

namespace Account
variable {rules : JidRules} {a : Account} {i : AccountInput} {left granted : List BareJid}
variable {sender : Option Jid} {id : String} {items : Option (List RosterItem)}

/-- What a step may do: `left` are the requests after it, `granted` whom it lets see us. -/
structure Turned (rules : JidRules) (a : Account) (i : AccountInput)
    (left granted : List BareJid) : Prop where
  /-- Whoever is let see us, or is waiting, did ask. -/
  count : ∀ jid, granted.count jid + left.count jid ≤
    a.contacts.requests.count jid + (asks i).toList.count jid
  /-- Nobody is left waiting who was dealt with. -/
  waiting : ∀ jid ∈ left, i ≠ .session .online ∧ settles rules i ≠ some jid ∧
    (a.listed i).any (·.frees a.session.account jid) = false
  answered : ∀ jid ∈ granted, ∃ text, i = .answerSubscription text true ∧
    contactJid rules text = some jid ∧ jid ∈ a.contacts.requests

namespace Turned
variable {c : Contacts} {jid : BareJid}

theorem quiet (hi : i ≠ .session .online) (hsettles : settles rules i = none)
    (hlisted : a.listed i = []) : Turned rules a i a.contacts.requests [] where
  count _ := by
    rw [count_nil, Nat.zero_add]
    exact Nat.le_add_right _ _
  waiting _ _ := ⟨hi, by rw [hsettles]; exact (Option.some_ne_none _).symm, by rw [hlisted]; rfl⟩
  answered _ h := absurd h not_mem_nil

theorem roster (hi : i ≠ .session .online) (hsettles : settles rules i = none)
    (hc : c.requests = (a.contacts.applyItems a.session.account (a.listed i)).1.requests)
    (h : a.contacts.takesIn a.session.account (a.listed i)) :
    Turned rules a i c.requests [] where
  count jid := by
    rw [hc, count_nil, Nat.zero_add]
    exact ((Contacts.requests_applyItems _).count_le jid).trans (Nat.le_add_right _ _)
  waiting jid hmem := by
    refine ⟨hi, by rw [hsettles]; exact (Option.some_ne_none _).symm, ?_⟩
    rw [hc] at hmem
    by_contra hfrees
    exact Contacts.not_mem_applyItems h (Bool.eq_true_of_not_eq_false hfrees) hmem
  answered _ h := absurd h not_mem_nil

theorem settled (hi : i ≠ .session .online) (hsettles : settles rules i = some jid)
    (hlisted : a.listed i = [])
    (hgranted : granted = [] ∨ granted = [jid] ∧ jid ∈ a.contacts.requests ∧
      ∃ text, i = .answerSubscription text true ∧ contactJid rules text = some jid) :
    Turned rules a i (a.contacts.takeRequest jid).1.requests granted where
  count other := by
    rw [Contacts.takeRequest]
    have hle := (filter_sublist (p := (· ≠ jid)) (l := a.contacts.requests)).count_le other
    rcases hgranted with rfl | ⟨rfl, hmem, -⟩
    · rw [count_nil, Nat.zero_add]
      exact hle.trans (Nat.le_add_right _ _)
    · by_cases hother : other = jid
      · subst hother
        have hpos := count_pos_iff.2 hmem
        rw [count_singleton_self, count_eq_zero.2 (by simp)]
        omega
      · rw [count_singleton, if_neg (by simpa using Ne.symm hother), Nat.zero_add]
        exact hle.trans (Nat.le_add_right _ _)
  waiting other hmem := by
    have hne := of_decide_eq_true (mem_filter.1 hmem).2
    refine ⟨hi, ?_, by rw [hlisted]; rfl⟩
    rw [hsettles]
    exact fun h => hne (Option.some.inj h).symm
  answered other hmem := by
    rcases hgranted with rfl | ⟨rfl, hwaiting, text, htext⟩
    · exact absurd hmem not_mem_nil
    · obtain rfl := mem_singleton.1 hmem
      exact ⟨text, htext.1, htext.2, hwaiting⟩

theorem asked (hi : i ≠ .session .online) (hsettles : settles rules i = none)
    (hlisted : a.listed i = []) (hasks : asks i = some jid)
    (hc : a.contacts.addRequest jid = some c) : Turned rules a i c.requests [] where
  count other := by
    rw [Contacts.addRequest] at hc
    split at hc
    · cases hc
    · obtain rfl := Option.some.inj hc
      rw [hasks, count_nil, Nat.zero_add]
      exact count_append.le
  waiting _ _ := ⟨hi, by rw [hsettles]; exact (Option.some_ne_none _).symm, by rw [hlisted]; rfl⟩
  answered _ h := absurd h not_mem_nil

end Turned

theorem lift_granted (a : Account) (r : Session × Effects) : (a.lift r).2.granted = [] := by
  simp [lift, AccountEffects.granted]

theorem onOnline_turned : Turned rules a (.session .online) (a.onOnline rules).1.contacts.requests
    (a.onOnline rules).2.granted := by
  have hgranted : (a.onOnline rules).2.granted = [] := lift_granted a _
  rw [hgranted]
  exact ⟨fun _ => by simp [onOnline], fun _ h => absurd h not_mem_nil,
    fun _ h => absurd h not_mem_nil⟩

theorem onPresence_turned (h : a.heeds (.session (.presence p))) :
    Turned rules a (.session (.presence p)) (a.onPresence rules p).1.contacts.requests
      (a.onPresence rules p).2.granted := by
  have hi : AccountInput.session (.presence p) ≠ .session .online := by simp
  rw [onPresence]
  split
  next hsender =>
    refine .quiet hi ?_ rfl
    simp [settles, hsender]
  next sender hsender =>
    have hheeds : p.type ≠ .unsubscribe ∨ (a.session.rooms.lookup sender.bare).isNone ∨
        sender.bare ∉ a.contacts.requests := by
      simpa [heeds, hsender] using h
    split
    next hroom =>
      -- a room's presences are not looked at for
      rw [lift_granted]
      by_cases htype : p.type = .unsubscribe
      · have hno : sender.bare ∉ a.contacts.requests := by
          rcases hheeds with hheeds | hheeds | hheeds
          · exact absurd htype hheeds
          · rw [Option.isNone_iff_eq_none.1 hheeds] at hroom
            cases hroom
          · exact hheeds
        have hsettles : settles rules (.session (.presence p)) = some sender.bare := by
          simp [settles, htype, hsender]
        have hturned : Turned rules a _ (a.contacts.takeRequest sender.bare).1.requests [] :=
          .settled hi hsettles rfl (.inl rfl)
        rwa [Contacts.takeRequest_of_not_mem hno] at hturned
      · exact .quiet hi (by simp [settles, htype]) rfl
    next hroom =>
      split
      next htype =>
        have hsettles : settles rules (.session (.presence p)) = none := by simp [settles, htype]
        have hasks : asks (.session (.presence p)) = some sender.bare := by
          simp [asks, htype, hsender]
        split
        · split
          next hc => exact .asked hi hsettles rfl hasks hc
          next => exact .quiet hi hsettles rfl
        · exact .quiet hi hsettles rfl
      next htype =>
        refine .settled hi ?_ rfl (.inl rfl)
        simp [settles, htype, hsender]
      next hother =>
        exact .quiet hi (if_neg hother) rfl

theorem onPush_turned (h : a.heeds (.push sender id items)) :
    Turned rules a (.push sender id items) (a.onPush sender id items).1.contacts.requests
      (a.onPush sender id items).2.granted := by
  rw [onPush]
  split
  next hnone =>
    refine .quiet (by simp) rfl ?_
    rw [listed, hnone]
    rfl
  next taken hsome =>
    have hlisted : a.listed (.push sender id items) = taken := by
      rw [listed, hsome]
      rfl
    refine .roster (by simp) rfl ?_ h
    rw [hlisted]
    exact Contacts.requests_applyRoster _ _

theorem onRoster_turned (h : a.heeds (.roster sender id items)) :
    Turned rules a (.roster sender id items) (a.onRoster sender id items).1.contacts.requests
      (a.onRoster sender id items).2.granted := by
  have hgranted : (a.onRoster sender id items).2.granted = [] := by
    dsimp only [onRoster]
    split <;> exact lift_granted a _
  rw [hgranted]
  dsimp only [onRoster]
  split
  next hnone =>
    refine .quiet (by simp) rfl ?_
    rw [listed, hnone]
    rfl
  next taken hsome =>
    have hlisted : a.listed (.roster sender id items) = taken := by
      rw [listed, hsome]
      rfl
    refine .roster (by simp) rfl ?_ h
    rw [hlisted]
    exact Contacts.requests_applyRoster _ _

theorem answerSubscription_turned :
    Turned rules a (.answerSubscription text accept)
      (a.answerSubscription rules text accept).1.contacts.requests
      (a.answerSubscription rules text accept).2.granted := by
  rw [answerSubscription]
  split
  next hnone => exact .quiet (by simp) hnone rfl
  next jid hjid =>
    dsimp only
    split
    next hwaiting =>
      refine .settled (by simp) hjid rfl ?_
      cases accept
      · exact .inl rfl
      · exact .inr ⟨rfl, of_decide_eq_true hwaiting, text, rfl, hjid⟩
    next => exact .settled (by simp) hjid rfl (.inl rfl)

theorem step_turned (h : a.heeds i) :
    Turned rules a i (a.step rules i).1.contacts.requests (a.step rules i).2.granted := by
  cases i with
  | session i =>
    cases i with
    | online => exact onOnline_turned
    | presence p => exact onPresence_turned h
    | command | message | result | failure =>
      rw [step, lift_granted]
      exact .quiet (by simp) rfl rfl
      all_goals simp
  | roster sender id items => exact onRoster_turned h
  | push sender id items => exact onPush_turned h
  | addContact text name =>
    rw [step, addContact]
    split
    · exact .quiet (by simp) rfl rfl
    · split
      · exact .quiet (by simp) rfl rfl
      split
      · exact .quiet (by simp) rfl rfl
      split
      · exact .quiet (by simp) rfl rfl
      · exact .quiet (by simp) rfl rfl
  | removeContact text =>
    rw [step, removeContact]
    split <;> exact .quiet (by simp) rfl rfl
  | answerSubscription text accept => exact answerSubscription_turned
  | setAvailability =>
    have hgranted : (a.setAvailability rules).2.granted = [] := by
      simp [setAvailability, AccountEffects.granted]
    rw [step, hgranted]
    exact .quiet (by simp) rfl rfl

end Account

/-! ## Runs -/

namespace Granting
variable {rules : JidRules} {g : Granting} {i : AccountInput} {inputs : List AccountInput}

/-- Whom the account takes to be waiting is, and each of those let see us was let once for each time
they asked. -/
structure Sound (g : Granting) : Prop where
  asking : ∀ jid ∈ g.account.contacts.requests, jid ∈ g.asking
  count : ∀ jid, g.granted.count jid + g.account.contacts.requests.count jid ≤ g.received.count jid

theorem Sound.step (hg : g.Sound) (h : g.account.heeds i) : (g.step rules i).1.Sound := by
  have hturned : Account.Turned rules g.account i _ _ := Account.step_turned h
  constructor
  · intro jid hmem
    obtain ⟨hi, hsettles, hlisted⟩ := hturned.waiting jid hmem
    have hasking : jid ∈ g.asking ∪ (Account.asks i).toFinset := by
      have hpos := (count_pos_iff.2 hmem).trans_le
        ((Nat.le_add_left _ _).trans (hturned.count jid))
      rw [Finset.mem_union, Option.mem_toFinset]
      by_cases hold : jid ∈ g.account.contacts.requests
      · exact .inl (hg.asking jid hold)
      · rw [count_eq_zero.2 hold, Nat.zero_add, count_pos_iff, Option.mem_toList] at hpos
        exact .inr hpos
    have hstill : jid ∈ g.account.stillAsking rules g.asking i := by
      rw [Account.stillAsking, if_neg hi, Finset.mem_filter, Finset.mem_sdiff, Option.mem_toFinset,
        hlisted]
      exact ⟨⟨hasking, hsettles⟩, rfl⟩
    exact hstill
  · intro jid
    have hbefore := hg.count jid
    have hstep := hturned.count jid
    change (g.granted ++ (g.account.step rules i).2.granted).count jid +
      (g.account.step rules i).1.contacts.requests.count jid ≤
        (g.received ++ (Account.asks i).toList).count jid
    rw [count_append, count_append]
    omega

theorem Sound.rightly (hg : g.Sound) (h : g.account.heeds i) : Rightly rules g i := by
  intro jid hmem
  obtain ⟨text, hi, htext, hwaiting⟩ := (Account.step_turned h).answered jid hmem
  exact ⟨text, hi, htext, hg.asking jid hwaiting⟩

theorem Sound.new (session : Session) : Sound { account := { session } } :=
  ⟨fun _ h => absurd h not_mem_nil, fun _ => Nat.le_refl 0⟩

/-- In a run whose withdrawals are heard and whose list has room for those who are waiting, whoever
is let see us was waiting and the user said yes to them, once for each time they asked. -/
theorem granted_rightly {session : Session}
    (h : Run.Along (step rules) (fun g i => g.account.heeds i = true) { account := { session } }
      inputs) :
    (∀ front i rest, inputs = front ++ i :: rest →
      Rightly rules (Run.after (step rules) { account := { session } } front) i) ∧
    ∀ jid, (Run.after (step rules) { account := { session } } inputs).granted.count jid ≤
      (Run.after (step rules) { account := { session } } inputs).received.count jid := by
  constructor
  · rintro front i rest rfl
    obtain ⟨hsound, hi⟩ := h.before (Sound.new session) fun _ _ hg hi => hg.step hi
    exact hsound.rightly hi
  · intro jid
    have hsound := h.induction (Sound.new session) fun _ _ hg hi => hg.step hi
    exact (Nat.le_add_right _ _).trans (hsound.count jid)

def alice : Session := .new .alice "alice" "ddirc" []

open BareJid (bob)

def fromBob (type : PresenceType) : AccountInput :=
  .session (.presence { sender := some { bare := bob }, type })

def yesToBob : AccountInput := .answerSubscription "bob@example.org" true

theorem granted_rightly_asked :
    Run.Along (step .verbatim) (fun g i => g.account.heeds i = true)
      { account := { session := alice } } [fromBob .subscribe, yesToBob, yesToBob] ∧
    (Run.after (step .verbatim) { account := { session := alice } }
      [fromBob .subscribe, yesToBob, yesToBob]).granted = [bob] ∧
    Rightly .verbatim (Run.after (step .verbatim) { account := { session := alice } }
      [fromBob .subscribe]) yesToBob := by
  have halong : Run.Along (step .verbatim) (fun g i => g.account.heeds i = true)
      { account := { session := alice } } [fromBob .subscribe, yesToBob, yesToBob] := by
    decide +kernel
  exact ⟨halong, by decide +kernel, (granted_rightly halong).1 [_] _ [_] rfl⟩

/-- Bob asked and took it back, but their address was joined as a room in between, and nobody heard:
the user's answer still lets them in. -/
theorem granted_withdrawn :
    let before := Run.after (step .verbatim) { account := { session := alice } }
      [fromBob .subscribe, .session (.command (.join "bob@example.org" none)),
        fromBob .unsubscribe]
    before.asking = ∅ ∧ (before.account.step .verbatim yesToBob).2.granted = [bob] := by
  decide +kernel

end Granting

end Ddirc.Xmpp
