import Ddirc.Xmpp.Whole
import Ddirc.Xmpp.Deed

/-! # Requests and who answers them

Every session of the account answers a request alike, and a message not at all (`answers_alike`). An
answer to a request of ours is heeded only from the party that it was sent to
(`only_asked_answers`): `Logged` keeps the requests that were sent, each under an id of its own. -/

namespace Ddirc.Xmpp
open List

/-! ## Ids and requests -/

/-- The `n`-th id of a series. -/
def idAt (stem : String) (n : Nat) : String := stem ++ "-" ++ toString n

theorem idAt_inj (h : idAt stem n = idAt stem m) : n = m := by
  have hlist :
      stem.toList ++ '-' :: (toString n).toList = stem.toList ++ '-' :: (toString m).toList := by
    simpa [idAt, String.ext_iff] using h
  exact (Str.append_toString_inj (by decide) hlist).2

/-- The requests have each an id of its own, of those between two counts. -/
structure Issued (stem : String) (a b : Nat) (sent : List Sent) : Prop where
  le : a ≤ b
  nodup : (sent.map (·.1)).Nodup
  id : ∀ q ∈ sent, ∃ n, a < n ∧ n ≤ b ∧ q.1 = idAt stem n

namespace Issued
variable {stem : String} {a b c : Nat} {sent more : List Sent}

theorem nil (h : a ≤ b) : Issued stem a b [] := ⟨h, nodup_nil, nofun⟩

theorem one (dest : Option Jid) : Issued stem a (a + 1) [(idAt stem (a + 1), dest)] where
  le := Nat.le_succ a
  nodup := nodup_singleton _
  id q hq := ⟨a + 1, Nat.lt_succ_self a, Nat.le_refl _, by rw [mem_singleton.1 hq]⟩

theorem append (h : Issued stem a b sent) (h' : Issued stem b c more) :
    Issued stem a c (sent ++ more) := by
  refine ⟨Nat.le_trans h.le h'.le, ?_, fun q hq => ?_⟩
  · rw [map_append]
    refine h.nodup.append h'.nodup fun id hid hid' => ?_
    obtain ⟨q, hq, rfl⟩ := mem_map.1 hid
    obtain ⟨q', hq', hsame⟩ := mem_map.1 hid'
    obtain ⟨n, -, hn, hid⟩ := h.id q hq
    obtain ⟨m, hm, -, hid'⟩ := h'.id q' hq'
    have := idAt_inj (hid'.symm.trans (hsame.trans hid))
    omega
  · rcases mem_append.1 hq with hq | hq
    · obtain ⟨n, hn, hle, hid⟩ := h.id q hq
      exact ⟨n, hn, Nat.le_trans hle h'.le, hid⟩
    · obtain ⟨n, hn, hle, hid⟩ := h'.id q hq
      exact ⟨n, Nat.lt_of_le_of_lt h.le hn, hle, hid⟩

theorem eq_of_mem (h : Issued stem a b sent) {id : String} {dest dest' : Option Jid}
    (h₁ : (id, dest) ∈ sent) (h₂ : (id, dest') ∈ sent) : dest = dest' :=
  congrArg Prod.snd (inj_on_of_nodup_map h.nodup h₁ h₂ rfl)

end Issued

def AccountOutgoing.request (account : BareJid) : AccountOutgoing → Option Sent
  | .session o => o.request account
  | .setRoster id _ => some (id, none)
  | _ => none

def WholeOutgoing.request (account : BareJid) : WholeOutgoing → Option Sent
  | .account o => o.request account
  | .getInfo id dest | .getSlot id dest .. => some (id, some dest)
  | .kick id room .. => some (id, some { bare := room })
  | _ => none

/-- Whether an address speaks for the party that a request was sent to. One that is sent to nobody
is for our own account, kept by our server, and no address is our server's. -/
def speaksFor (account : BareJid) (dest sender : Option Jid) : Bool :=
  match dest, sender with
  | none, none => true
  | none, some sender => sender = { bare := account } || sender = { bare := account.server }
  | some dest, none => dest = { bare := account.server }
  | some dest, some sender => sender = dest

/-- An address of our account or of our server, with any resource. -/
def isAtHome (account : BareJid) (sender : Option Jid) : Bool :=
  sender.any fun j => j.bare = account || (j.bare.domain = account.domain && j.bare.node.isNone)

theorem Jid.eq_of_bare {j : Jid} {bare : BareJid} (hresource : j.resource.isNone)
    (h : j.bare = bare) : j = { bare } := by
  obtain ⟨jbare, resource⟩ := j
  obtain rfl : jbare = bare := h
  obtain rfl : resource = none := Option.isNone_iff_eq_none.1 hresource
  rfl

/-- An address with no name in it and the domain of an account is its server's. -/
theorem BareJid.eq_server {j account : BareJid} (hdomain : j.domain = account.domain)
    (hnode : j.node.isNone) : j = account.server := by
  rw [node, Option.isNone_map, Option.isNone_iff_eq_none] at hnode
  rw [← BareJid.text_inj]
  change j.text = account.domain
  rw [← hdomain, domain, hnode]
  rfl

/-- A request of which it does not matter what resource answers it. -/
def Pending.isOpen : Pending → Bool
  | .roster | .carbons => true
  | _ => false

def Asked.isOpen : Asked → Bool
  | .rosterSet _ => true
  | _ => false

namespace Session
variable {rules : JidRules} {s : Session} {fx : Effects}

/-- What a step that sends these requests does to those waited on: they were waited on before, or
are sent under an id of their own. -/
structure Asking (s s' : Session) (sent : List Sent) : Prop where
  account : s'.account = s.account
  stem : s'.idStem = s.idStem
  issued : Issued s.idStem s.counter s'.counter sent
  pending : ∀ id p, s'.pending.lookup id = some p →
    (∃ p', s.pending.lookup id = some p' ∧ p'.dest s.account = p.dest s.account) ∨
      (id, p.dest s.account) ∈ sent

namespace Asking
variable {s' s'' : Session} {sent more : List Sent}

theorem quiet (account : s'.account = s.account) (stem : s'.idStem = s.idStem)
    (counter : s.counter ≤ s'.counter) (pending : s'.pending = s.pending) : Asking s s' [] :=
  ⟨account, stem, .nil counter, fun _ p hp => .inl ⟨p, pending ▸ hp, rfl⟩⟩

theorem refl : Asking s s [] := quiet rfl rfl (Nat.le_refl _) rfl

theorem append (h : Asking s s' sent) (h' : Asking s' s'' more) : Asking s s'' (sent ++ more) := by
  have hissued := h'.issued
  have hpending := h'.pending
  rw [h.stem] at hissued
  rw [h.account] at hpending
  refine ⟨h'.account.trans h.account, h'.stem.trans h.stem, h.issued.append hissued,
    fun id p hp => ?_⟩
  rcases hpending id p hp with ⟨p', hp', hdest⟩ | hnew
  · rcases h.pending id p' hp' with ⟨p₀, hp₀, hdest₀⟩ | hnew
    · exact .inl ⟨p₀, hp₀, hdest₀.trans hdest⟩
    · exact .inr (mem_append_left _ (hdest ▸ hnew))
  · exact .inr (mem_append_right _ hnew)

/-- A request is sent under the next id, by the session or by what is built on it. -/
theorem nextId (dest : Option Jid) : Asking s s.nextId.1 [(idAt s.idStem (s.counter + 1), dest)] :=
  ⟨rfl, rfl, .one _, fun _ p hp => .inl ⟨p, hp, rfl⟩⟩

theorem ask {pending : Pending} {request : String → Outgoing} :
    Asking s (s.ask pending request).1
      [(idAt s.idStem (s.counter + 1), pending.dest s.account)] := by
  refine ⟨rfl, rfl, .one _, fun id p hp => ?_⟩
  rcases Map.of_lookup_insert hp with ⟨rfl, rfl⟩ | ⟨-, hp⟩
  · exact .inr (mem_singleton_self _)
  · exact .inl ⟨p, hp, rfl⟩

theorem erase (id : String) : Asking s { s with pending := s.pending.erase id } [] :=
  ⟨rfl, rfl, .nil (Nat.le_refl _), fun _ p hp => .inl ⟨p, (Map.of_lookup_erase hp).2, rfl⟩⟩

/-- A result is counted against the request it answers, which stays the same otherwise. -/
theorem count {id : String} {p₀ p : Pending} (h : s.pending.lookup id = some p₀)
    (hdest : p₀.dest s.account = p.dest s.account) :
    Asking s { s with pending := s.pending.insert id p } [] := by
  refine ⟨rfl, rfl, .nil (Nat.le_refl _), fun id' p' hp => .inl ?_⟩
  rcases Map.of_lookup_insert hp with ⟨rfl, rfl⟩ | ⟨-, hp⟩
  · exact ⟨p₀, h, hdest⟩
  · exact ⟨p', hp, rfl⟩

end Asking

def requests (account : BareJid) (fx : Effects) : List Sent := fx.send.filterMap (·.request account)

theorem Asking.perform {l : Licence} (h : s.Licensed l d) :
    Asking s (perform (s, {}) d).1 (requests s.account (perform (s, {}) d).2) := by
  cases d with
  | ask pending request =>
    have hsend : requests s.account (s.ask pending request).2 =
        [(idAt s.idStem (s.counter + 1), pending.dest s.account)] :=
      filterMap_cons_some (h.2 _)
    exact hsend ▸ ask
  | count id p =>
    obtain ⟨-, p₀, hp₀, hdest⟩ := h
    exact count hp₀ hdest
  | settle id => exact erase id
  | settleAll => exact ⟨rfl, rfl, .nil (Nat.le_refl _), nofun⟩
  | mint => exact quiet rfl rfl (Nat.le_succ _) rfl
  | send o =>
    have hsend : requests s.account { send := [o] } = [] := filterMap_cons_none h.2.1
    exact hsend ▸ refl
  | _ => exact quiet rfl rfl (Nat.le_refl _) rfl

theorem Does.asking (h : s.Does l r) : Asking s r.1 (requests s.account r.2) := by
  refine h.of_deeds (P := fun s r => Asking s r.1 (requests s.account r.2)) .refl ?_
    fun _ _ => .perform
  intro r r' hr hr'
  rw [hr.account] at hr'
  rw [requests, Effects.append_send, filterMap_append]
  exact hr.append hr'

theorem eq_say_of_mem_send (h : o ∈ (s.say rules target text action).2.send) :
    ∃ dest group id body, o = .say dest group id body := by
  have heach (dest : Jid) (inRoom : Bool) (conversation : String) (s : Session) (l : List String)
      (h : o ∈ (each (sayPart dest inRoom action conversation) s l).2.send) :
      ∃ dest group id body, o = .say dest group id body := by
    induction l generalizing s with
    | nil => cases h
    | cons text l ih =>
      unfold each at h
      rcases mem_append.1 h with h | h
      · unfold sayPart at h
        dsimp only at h
        split at h
        all_goals
          obtain rfl := mem_singleton.1 h
          exact ⟨_, _, _, _, rfl⟩
      · exact ih _ h
  unfold say at h
  split at h
  · cases h
  dsimp only at h
  split at h
  · cases h
  · exact heach _ _ _ _ _ h

theorem speaksFor_of_expected {id : String} {sender : Option Jid}
    (h : s.cameFromExpected id sender) :
    ∃ p, s.pending.lookup id = some p ∧
      (speaksFor s.account (p.dest s.account) sender ∨ p.isOpen ∧ isAtHome s.account sender) := by
  unfold cameFromExpected at h
  cases hp : s.pending.lookup id with
  | none =>
    rw [hp] at h
    cases h
  | some p =>
    rw [hp] at h
    refine ⟨p, rfl, ?_⟩
    cases sender with
    | none => cases p with
      | roster | carbons => exact .inl rfl
      | discoItems => exact .inl (decide_eq_true rfl)
      | catchUp room => cases room with
        | none => exact .inl rfl
        | some room => cases h
    | some sender => cases p with
      | roster | carbons => exact .inr ⟨rfl, h⟩
      | discoItems =>
        simp only [Bool.and_eq_true, decide_eq_true_eq] at h
        exact .inl (decide_eq_true (Jid.eq_of_bare h.1.1 (BareJid.eq_server h.2 h.1.2)))
      | catchUp room =>
        left
        cases room <;> simp only [Bool.and_eq_true, decide_eq_true_eq] at h
        · simp [speaksFor, Pending.dest, Jid.eq_of_bare h.1 h.2]
        · exact decide_eq_true (Jid.eq_of_bare h.1 h.2)

end Session

/-! ## The whole session -/

/-- To whom one of the other requests goes, with files going here. -/
def Asked.WentTo (upload : Option UploadService) : Asked → Option Jid → Prop
  | .discoInfo jid, dest => dest = some jid
  | .slot _, dest => ∃ service, upload = some service ∧ dest = some service.jid
  | .rosterSet _, dest => dest = none
  | .kick room, dest => dest = some { bare := room }

def WholeEffects.requests (account : BareJid) (fx : WholeEffects) : List Sent :=
  fx.send.filterMap (·.request account)

namespace Whole
variable {rules : Rules} {w : Whole}

/-- What a step does to all the requests waited on. -/
structure Asks (w : Whole) (r : Whole × WholeEffects) : Prop where
  asking : w.session.Asking r.1.session (r.2.requests w.jid)
  asked : ∀ id a, r.1.asked.lookup id = some a →
    (w.asked.lookup id = some a ∧ ∀ dest, a.WentTo w.upload dest → a.WentTo r.1.upload dest) ∨
      ∃ dest, a.WentTo r.1.upload dest ∧ (id, dest) ∈ r.2.requests w.jid
  keyed : w.session.Keyed → r.1.session.Keyed

namespace Asks
variable {w' : Whole} {l : Session.Licence} {t : Session × Effects}

theorem account (h : Asks w r) : r.1.jid = w.jid := h.asking.account

theorem quiet (session : w'.session = w.session)
    (asked : w'.asked = w.asked) (upload : w.upload = none ∨ w'.upload = w.upload)
    (send : fx.requests w.jid = []) : Asks w (w', fx) where
  asking := by
    rw [send, session]
    exact .refl
  asked id a ha := by
    refine .inl ⟨asked ▸ ha, fun dest hdest => ?_⟩
    rcases upload with hnone | hsame
    · -- with nowhere to put files no slot was asked for
      cases a with
      | slot ticket =>
        obtain ⟨service, hservice, -⟩ := hdest
        cases hnone.symm.trans hservice
      | _ => exact hdest
    · exact hsame ▸ hdest
  keyed := session ▸ id

theorem refl : Asks w (w, {}) := quiet rfl rfl (.inr rfl) rfl

theorem append (h : Asks w r) (h' : Asks r.1 r') : Asks w (r'.1, r.2 ++ r'.2) := by
  obtain ⟨hasking, hasked, hkeyed⟩ := h'
  rw [h.account] at hasking hasked
  have hrequests : (r.2 ++ r'.2).requests w.jid = r.2.requests w.jid ++ r'.2.requests w.jid :=
    filterMap_append
  refine ⟨hrequests ▸ h.asking.append hasking, fun id a ha => ?_, hkeyed ∘ h.keyed⟩
  rw [hrequests]
  rcases hasked id a ha with ⟨ha', hkeeps'⟩ | ⟨dest, hdest, hnew⟩
  · rcases h.asked id a ha' with ⟨ha₀, hkeeps⟩ | ⟨dest, hdest, hnew⟩
    · exact .inl ⟨ha₀, fun dest hdest => hkeeps' dest (hkeeps dest hdest)⟩
    · exact .inr ⟨dest, hkeeps' dest hdest, mem_append_left _ hnew⟩
  · exact .inr ⟨dest, hdest, mem_append_right _ hnew⟩

/-- What else is sent, and what is told to the user, makes no difference. -/
theorem of_requests (h : Asks w (w', fx))
    (hrequests : fx'.requests w.jid = fx.requests w.jid) : Asks w (w', fx') := by
  obtain ⟨hasking, hasked, hkeyed⟩ := h
  rw [← hrequests] at hasking hasked
  exact ⟨hasking, hasked, hkeyed⟩

theorem after (h : Asks w (w', {})) (h' : Asks w' r) : Asks w r := h.append h'

theorem each {f : Whole → α → Whole × WholeEffects} (hf : ∀ w a, Asks w (f w a)) (w : Whole)
    (l : List α) : Asks w (Whole.each f w l) := by
  induction l generalizing w with
  | nil => exact refl
  | cons a rest ih => exact (hf w a).append (ih _)

/-- A request of the account is sent under the next id, and waited on. -/
theorem noted {r : Whole × WholeEffects} {asked : Asked} {dest : Option Jid}
    (hdest : asked.WentTo w.upload dest) (session : r.1.session = w.session.nextId.1)
    (noted : r.1.asked = w.asked.insert w.session.nextId.2 asked) (upload : r.1.upload = w.upload)
    (send : r.2.requests w.jid = [(w.session.nextId.2, dest)]) : Asks w r := by
  refine ⟨?_, fun id a ha => ?_, session ▸ fun h => h⟩
  · rw [session, send]
    exact .nextId dest
  · rw [upload, send]
    rw [noted] at ha
    rcases Map.of_lookup_insert ha with ⟨rfl, rfl⟩ | ⟨-, ha⟩
    · exact .inr ⟨dest, hdest, mem_singleton_self _⟩
    · exact .inl ⟨ha, fun _ h => h⟩

theorem ask {asked : Asked} {request : String → WholeOutgoing} {dest : Option Jid}
    (hdest : asked.WentTo w.upload dest)
    (hrequest : ∀ id, (request id).request w.jid = some (id, dest)) :
    Asks w (w.ask asked request) :=
  noted hdest rfl rfl rfl (filterMap_cons_some (hrequest _))

theorem request_ownPresence (w : Whole) (dest : Option Jid) (account : BareJid) :
    (w.ownPresence dest).request account = none := by
  rw [ownPresence]
  split <;> rfl

theorem request_outgoing (o : AccountOutgoing) :
    (w.outgoing o).request w.jid = o.request w.jid := by
  cases o with
  | session o => cases o with
    | ownPresence => exact request_ownPresence ..
    | _ => rfl
  | _ => rfl

theorem session (h : w.session.Does l t) (session : r.1.session = t.1)
    (asked : r.1.asked = w.asked) (upload : r.1.upload = w.upload)
    (requests : r.2.requests w.jid = Session.requests w.jid t.2) : Asks w r where
  asking := by
    rw [requests, session]
    exact h.asking
  asked id a ha := .inl ⟨asked ▸ ha, fun _ hdest => upload ▸ hdest⟩
  keyed := session ▸ h.keyed

theorem foldl_noteSent_session (l : List Outgoing) (asked : Map String Asked) :
    (l.map AccountOutgoing.session).foldl noteSent asked = asked := by
  induction l with
  | nil => rfl
  | cons o l ih => exact ih

theorem told (h : w.session.Does l t) (session : r.1.session = t.1)
    (send : r.2.send = t.2.send.map .session) : Asks w (w.lift r) := by
  refine .session h session ?_ rfl ?_
  · change r.2.send.foldl noteSent w.asked = w.asked
    rw [send, foldl_noteSent_session]
  · change (r.2.send.map w.outgoing).filterMap (·.request w.jid) = _
    rw [send, map_map, filterMap_map]
    exact filterMap_congr fun o _ => request_outgoing (.session o)

theorem lift (h : w.session.Does l t) : Asks w (w.lift (w.account.lift t)) :=
  told h rfl rfl

theorem foldl_noteSent {account : BareJid} {l : List AccountOutgoing}
    (h : ∀ o ∈ l, o.request account = none) (asked : Map String Asked) :
    l.foldl noteSent asked = asked := by
  refine List.foldlRecOn (motive := fun a => a = asked) _ _ rfl fun a ha o ho => ?_
  cases o with
  | setRoster id item => cases h _ ho
  | _ => exact ha

theorem requests_map_outgoing {l : List AccountOutgoing} (h : ∀ o ∈ l, o.request w.jid = none) :
    (l.map w.outgoing).filterMap (·.request w.jid) = [] := by
  rw [filterMap_map]
  exact filterMap_eq_nil_iff.2 fun o ho => (request_outgoing o).trans (h o ho)

theorem contacts {r : Account × AccountEffects} (session : r.1.session = w.session)
    (send : ∀ o ∈ r.2.send, o.request w.jid = none) : Asks w (w.lift r) :=
  quiet session (foldl_noteSent send _) (.inr rfl) (requests_map_outgoing send)

theorem unsent (session : r.1.session = w.session) (send : r.2.send = []) : Asks w (w.lift r) :=
  contacts session (by rw [send]; exact fun _ ho => absurd ho not_mem_nil)

/-- A change of the contact list is asked of the server, and waited on. -/
theorem rosterSet {item : RosterItem} {rest : List AccountOutgoing}
    (hrest : ∀ o ∈ rest, o.request w.jid = none) :
    Asks w (w.lift ({ w.account with session := w.session.nextId.1 },
      { send := .setRoster w.session.nextId.2 item :: rest })) := by
  have hdest : (Asked.rosterSet item.jid).WentTo w.upload none := rfl
  exact noted hdest rfl (foldl_noteSent hrest _) rfl
    (congrArg (_ :: ·) (requests_map_outgoing hrest))

/-! ### Steps -/

theorem events {events : List WholeEvent} : Asks w (w, { events }) := quiet rfl rfl (.inr rfl) rfl

theorem failUpload (w : Whole) (ticket : Nat) (why : String) :
    Asks w (w.failUpload ticket why) := by
  unfold Whole.failUpload
  split <;> exact quiet rfl rfl (.inr rfl) rfl

theorem onOnline : Asks w (w.onOnline rules) := by
  have hcleared : Asks w ({ w.forgetPresence.1 with asked := ∅, upload := none }, {}) :=
    ⟨.refl, nofun, id⟩
  have htold (w : Whole) : Asks w (w.lift (w.account.onOnline rules.jids)) :=
    told (l := { sends := true }) (.onOnline rfl) rfl rfl
  have hfailed (w : Whole) (l : List Nat) : (Whole.each (fun w ticket => w.failUpload ticket
      "The connection was lost before the upload began.") w l).2.send = [] := by
    induction l generalizing w with
    | nil => rfl
    | cons ticket l ih =>
      have hone (why : String) : (w.failUpload ticket why).2.send = [] := by
        unfold Whole.failUpload
        split <;> rfl
      exact (congrArg₂ (· ++ ·) (hone _) (ih _) :)
  refine ((hcleared.after (htold _)).append
    (each (fun w ticket => failUpload w ticket _) _ _)).of_requests ?_
  exact congrArg (List.filterMap _)
    ((append_nil _).symm.trans (congrArg (_ ++ ·) (hfailed _ _).symm))

theorem applyRoster (items : List RosterItem) (full : Bool)
    (hsend : send.filterMap (·.request w.jid) = []) :
    Asks w ((w.applyRoster items full).1, { events := (w.applyRoster items full).2, send }) := by
  refine quiet ?_ ?_ (.inr ?_) hsend
  all_goals
    simp only [Whole.applyRoster]
    split <;> rfl

theorem beginUpload (target filename : String) (size : Nat) :
    Asks w (w.beginUpload rules target filename size) := by
  unfold Whole.beginUpload
  split
  · exact events
  · exact events
  next dest group service hdest hupload =>
    repeat' split
    all_goals try exact events
    have hticket : Asks w ({ w with
        nextTicket := w.nextTicket + 1
        tickets := w.tickets.insert (w.nextTicket + 1)
          { target, filename := shownFilename filename } },
        { events := [.transferStarted (w.nextTicket + 1) target (shownFilename filename) size] }) :=
      quiet rfl rfl (.inr rfl) rfl
    have hslot (w : Whole) (h : w.upload = some service) (ticket : Nat) (name type : String) :
        Asks w (w.ask (.slot ticket) fun id => .getSlot id service.jid name type size) :=
      ask ⟨service, h, rfl⟩ fun _ => rfl
    refine hticket.append (hslot _ ?_ ..)
    exact hupload

theorem requests_shareLink (w : Whole) (target url : String) :
    (w.shareLink rules target url).2.requests w.jid = [] := by
  change (List.map _ _).filterMap _ = _
  rw [filterMap_map]
  refine filterMap_eq_nil_iff.2 fun o ho => ?_
  obtain ⟨dest, group, id, body, rfl⟩ := Session.eq_say_of_mem_send ho
  rfl

theorem shareLink (target url : String) : Asks w (w.shareLink rules target url) := by
  have hsay : w.session.Does { sends := true, talks := true }
      (w.session.say rules.jids target url false) := .say rfl rfl target url false
  refine session hsay rfl rfl rfl ?_
  rw [requests_shareLink]
  refine (filterMap_eq_nil_iff.2 fun o ho => ?_).symm
  obtain ⟨dest, group, id, body, rfl⟩ := Session.eq_say_of_mem_send ho
  rfl

theorem uploadFinished (ticket : Nat) (error : Option String) :
    Asks w (w.uploadFinished rules ticket error) := by
  unfold Whole.uploadFinished
  split
  · exact failUpload ..
  split
  · exact refl
  next entry hentry =>
    have herased : Asks w ({ w with tickets := w.tickets.erase ticket }, {}) :=
      quiet rfl rfl (.inr rfl) rfl
    dsimp only
    split
    · exact herased
    next url hurl =>
      have hshared (w : Whole) : Asks w (w.shareLink rules entry.target url) := shareLink ..
      refine (herased.after (hshared _)).of_requests ?_
      split
      · rfl
      · exact (requests_shareLink ..).symm

theorem eraseAsked (id : String) : Asks w ({ w with asked := w.asked.erase id }, {}) := by
  refine ⟨.refl, fun id' a ha => .inl ?_, fun h => h⟩
  exact ⟨(Map.of_lookup_erase ha).2, fun _ h => h⟩

theorem onInfo (jid : Jid) (payload : Option Payload) : Asks w (w.onInfo jid payload) := by
  unfold Whole.onInfo
  split
  next hnone =>
    split
    · exact quiet rfl rfl (.inl hnone) rfl
    · exact refl
  · exact refl

theorem onSlot (ticket : Nat) (payload : Option Payload) :
    Asks w (w.onSlot rules ticket payload) := by
  unfold Whole.onSlot
  split
  · exact refl
  · split
    · exact failUpload ..
    · exact quiet rfl rfl (.inr rfl) rfl
  · exact failUpload ..

theorem askInfo (w : Whole) (item : DiscoItem) : Asks w (w.askInfo item) := by
  unfold Whole.askInfo
  split
  · exact refl
  · exact ask rfl fun _ => rfl

theorem onAnswer (sender : Option Jid) (id : String) (payload : Option Payload) :
    Asks w (w.onAnswer rules sender id payload) := by
  have herase : Asks w ({ w with asked := w.asked.erase id }, {}) := eraseAsked id
  have hresult (fin : Option PageEnd) :
      Asks w (w.lift (w.account.lift (w.session.onResult sender id fin))) :=
    lift (l := { sends := true }) (.onResult rfl ..)
  unfold Whole.onAnswer
  split
  · split
    · exact herase.after (onInfo ..)
    · exact herase.after (onSlot ..)
    · exact herase
    · exact herase
  · exact hresult _
  · dsimp only
    split
    · exact (hresult none).append (applyRoster _ true rfl)
    · exact (hresult none).append (each askInfo _ _)
    · exact hresult none
  · exact refl

theorem onRefusal (sender : Option Jid) (id : String) (condition : DefinedCondition) :
    Asks w (w.onRefusal sender id condition) := by
  have herase : Asks w ({ w with asked := w.asked.erase id }, {}) := eraseAsked id
  unfold Whole.onRefusal
  split
  · split
    · exact herase.after events
    · exact herase.after events
    · exact herase.after (failUpload ..)
    · exact herase
  · exact lift (l := { sends := true }) (.onFailure rfl ..)

theorem onIq (iq : Iq) : Asks w (w.onIq rules iq) := by
  have hrequest (sender : Option Jid) (id : String) (payload : Query) :
      Asks w (w, { send := [w.onRequest sender id payload] }) := by
    refine quiet rfl rfl (.inr rfl) ?_
    cases payload <;> rfl
  unfold Whole.onIq
  split
  · unfold Whole.onRosterPush
    split
    · exact quiet rfl rfl (.inr rfl) rfl
    · exact applyRoster _ false rfl
  · exact hrequest ..
  · exact hrequest ..
  · split
    · exact onAnswer ..
    · exact refl
  · split
    · exact onRefusal ..
    · exact refl

theorem onCommand (c : WholeCommand) : Asks w (w.onCommand rules c) := by
  cases c with
  | session c => exact lift (l := { sends := true, talks := true }) (.onCommand rfl rfl c)
  | kick channel nick reason =>
    rw [Whole.onCommand, Whole.kick]
    split
    · exact refl
    dsimp only
    split
    · exact ask rfl fun _ => rfl
    · exact session (l := { sends := true }) (.one .mint rfl) rfl rfl rfl rfl
  | setTopic channel topic =>
    rw [Whole.onCommand, Whole.setTopic]
    split
    · exact refl
    · exact session (l := { sends := true }) (.one .mint rfl) rfl rfl rfl rfl
  | addContact text name =>
    rw [Whole.onCommand, Account.addContact]
    split
    · exact unsent rfl rfl
    split
    · exact unsent rfl rfl
    split
    · exact unsent rfl rfl
    split
    · exact unsent rfl rfl
    · refine rosterSet fun o ho => ?_
      rw [mem_singleton.1 ho]
      rfl
  | removeContact text =>
    rw [Whole.onCommand, Account.removeContact]
    split
    · exact unsent rfl rfl
    · exact rosterSet (by simp)
  | answerSubscription text accept =>
    rw [Whole.onCommand, Account.answerSubscription]
    split
    · exact unsent rfl rfl
    dsimp only
    split
    · refine contacts rfl fun o ho => ?_
      rw [mem_singleton.1 ho]
      split <;> rfl
    · exact unsent rfl rfl
  | setAvailability availability status =>
    refine quiet rfl rfl (.inr rfl) (filterMap_eq_nil_iff.2 fun o ho => ?_)
    rcases mem_cons.1 ho with rfl | ho
    · exact request_ownPresence ..
    · obtain ⟨occupant, -, rfl⟩ := mem_map.1 ho
      exact request_ownPresence ..
  | notAvailable => exact events

theorem onPresence (p : Presence) (status : Option String) (priority : Int) :
    Asks w (w.onPresence rules p status priority) := by
  unfold Whole.onPresence
  split
  · exact refl
  split
  · unfold Whole.applyPresence
    split
    · dsimp only
      split
      · exact refl
      · exact quiet rfl rfl (.inr rfl) rfl
    · exact refl
  · unfold Account.onPresence
    split
    · exact unsent rfl rfl
    split
    · exact lift (l := { sends := true, moves := true }) (.onPresence rfl rfl p)
    split
    · split
      · split
        · exact unsent rfl rfl
        · exact unsent rfl rfl
      · exact unsent rfl rfl
    · exact unsent rfl rfl
    · exact unsent rfl rfl

theorem step (i : WholeInput) : Asks w (w.step rules i) := by
  cases i with
  | online => exact onOnline
  | command c => exact onCommand c
  | message e =>
    exact lift (l := { sends := true, utterance := _, index := w.session.index })
      (.onMessage rfl rfl rfl)
  | presence p status priority => exact onPresence p status priority
  | iq iq => exact onIq iq
  | beginUpload target filename size => exact beginUpload target filename size
  | uploadFinished ticket error => exact uploadFinished ticket error

end Asks

/-! ## Whole runs -/

def waitsOn (w : Whole) (id : String) : Bool :=
  (w.session.pending.lookup id).isSome || (w.asked.lookup id).isSome

/-- What is waited on under an id is a request about the contact list, or for copies of messages. -/
def isOpen (w : Whole) (id : String) : Bool :=
  match w.asked.lookup id with
  | none => (w.session.pending.lookup id).any (·.isOpen)
  | some asked => asked.isOpen

theorem speaksFor_of_expected {id : String} {sender : Option Jid}
    (h : w.cameFromExpected id sender) : w.isOpen id ∧ isAtHome w.jid sender ∨
    (∃ p, w.session.pending.lookup id = some p ∧ speaksFor w.jid (p.dest w.jid) sender) ∨
      ∃ a, w.asked.lookup id = some a ∧
        ∀ dest, a.WentTo w.upload dest → speaksFor w.jid dest sender := by
  unfold cameFromExpected at h
  unfold isOpen
  cases ha : w.asked.lookup id with
  | none =>
    rw [ha] at h
    obtain ⟨p, hp, hspeaks | hopen⟩ := Session.speaksFor_of_expected h
    · exact .inr (.inl ⟨p, hp, hspeaks⟩)
    · exact .inl (hp ▸ hopen)
  | some a =>
    rw [ha] at h
    refine or_iff_not_imp_left.2 fun hopen => .inr ⟨a, rfl, fun dest hdest => ?_⟩
    cases sender with
    | none => cases a with
      | rosterSet jid =>
        rw [(hdest : dest = none)]
        rfl
      | _ => cases h
    | some sender => cases a with
      | rosterSet jid => exact absurd ⟨rfl, h⟩ hopen
      | discoInfo jid =>
        rw [(hdest : dest = some jid)]
        exact h
      | slot ticket =>
        obtain ⟨service, hservice, rfl⟩ := hdest
        rw [hservice] at h
        exact h
      | kick room =>
        rw [(hdest : dest = some { bare := room })]
        simp only [Bool.and_eq_true, decide_eq_true_eq] at h
        exact decide_eq_true (Jid.eq_of_bare h.1 h.2)

/-- An answer to such a request from any resource of ours is taken, and the request settled. -/
theorem onRefusal_of_isOpen {id : String} {sender : Option Jid} (hopen : w.isOpen id)
    (hhome : isAtHome w.jid sender) (condition : DefinedCondition) :
    w.cameFromExpected id sender ∧ w.onRefusal sender id condition ≠ (w, {}) := by
  cases sender with
  | none => cases hhome
  | some j =>
  unfold isOpen at hopen
  unfold cameFromExpected onRefusal
  cases ha : w.asked.lookup id with
  | none =>
    rw [ha] at hopen
    cases hp : w.session.pending.lookup id with
    | none =>
      rw [hp] at hopen
      cases hopen
    | some p =>
      have hexpected : w.session.cameFromExpected id (some j) := by
        rw [hp] at hopen
        unfold Session.cameFromExpected
        rw [hp]
        cases p with
        | roster | carbons => exact hhome
        | _ => cases hopen
      refine ⟨hexpected, fun heq => ?_⟩
      have hsettled : (w.session.onFailure (some j) id).1.pending.lookup id = some p :=
        (congrArg (·.1.session.pending.lookup id) heq).trans hp
      rw [Session.onFailure, if_pos hexpected, AList.lookup_erase] at hsettled
      cases hsettled
  | some a =>
    rw [ha] at hopen
    cases a with
    | rosterSet jid => exact ⟨hhome, by simp [WholeEffects.error]⟩
    | _ => cases hopen

end Whole

/-- A session, and the requests it sent so far. -/
structure Logged where
  whole : Whole
  sent : List Sent := []

namespace Logged
variable (rules : Rules)
variable {l : Logged}

def new (account : BareJid) (roomNick idStem : String) (rooms : List BareJid) : Logged where
  whole := .new account roomNick idStem rooms

def step (l : Logged) (i : WholeInput) : Logged × WholeEffects :=
  let (whole, fx) := l.whole.step rules i
  ({ whole, sent := l.sent ++ fx.requests l.whole.jid }, fx)

variable {rules}

/-- Every request that was sent has an id of its own, and each that is waited on was sent. -/
structure Sound (l : Logged) : Prop where
  issued : Issued l.whole.session.idStem 0 l.whole.session.counter l.sent
  pending : ∀ id p, l.whole.session.pending.lookup id = some p → (id, p.dest l.whole.jid) ∈ l.sent
  asked : ∀ id a, l.whole.asked.lookup id = some a →
    ∃ dest, a.WentTo l.whole.upload dest ∧ (id, dest) ∈ l.sent

theorem Sound.new (account : BareJid) (roomNick idStem : String) (rooms : List BareJid) :
    (new account roomNick idStem rooms).Sound :=
  ⟨.nil (Nat.le_refl _), nofun, nofun⟩

theorem Sound.step (h : l.Sound) (i : WholeInput) : (l.step rules i).1.Sound := by
  have hasks : l.whole.Asks (l.whole.step rules i) := .step i
  have hissued := h.issued.append hasks.asking.issued
  rw [← hasks.asking.stem] at hissued
  refine ⟨hissued, fun id p hp => ?_, fun id a ha => ?_⟩
  · have hjid : (l.step rules i).1.whole.jid = l.whole.jid := hasks.account
    rw [hjid]
    rcases hasks.asking.pending id p hp with ⟨p', hp', hdest⟩ | hnew
    · exact mem_append_left _ (hdest ▸ h.pending id p' hp')
    · exact mem_append_right _ hnew
  · rcases hasks.asked id a ha with ⟨ha', hkeeps⟩ | ⟨dest, hdest, hnew⟩
    · obtain ⟨dest, hdest, hsent⟩ := h.asked id a ha'
      exact ⟨dest, hkeeps dest hdest, mem_append_left _ hsent⟩
    · exact ⟨dest, hdest, mem_append_right _ hnew⟩

theorem sound_after (account : BareJid) (roomNick idStem : String) (rooms : List BareJid)
    (inputs : List WholeInput) :
    (Run.after (step rules) (new account roomNick idStem rooms) inputs).Sound :=
  Run.after_induction (Sound.new account roomNick idStem rooms) (fun _ i h => h.step i) inputs

theorem jid_after (account : BareJid) (roomNick idStem : String) (rooms : List BareJid)
    (inputs : List WholeInput) :
    (Run.after (step rules) (new account roomNick idStem rooms) inputs).whole.jid = account :=
  Run.after_induction (P := fun l : Logged => l.whole.jid = account) rfl
    (fun _ i h => (Whole.Asks.step i).account.trans h) inputs

/-- Nobody is believed but who speaks for the party that was asked, and our own for some
requests. -/
theorem Sound.expected (h : l.Sound) {id : String} {sender : Option Jid}
    (hexpected : l.whole.cameFromExpected id sender) :
    l.whole.isOpen id ∧ isAtHome l.whole.jid sender ∨
      l.whole.waitsOn id ∧ ∀ dest, (id, dest) ∈ l.sent → speaksFor l.whole.jid dest sender := by
  rcases Whole.speaksFor_of_expected hexpected with hopen | ⟨p, hp, hspeaks⟩ | ⟨a, ha, hspeaks⟩
  · exact .inl hopen
  · refine .inr ⟨by simp [Whole.waitsOn, hp], fun dest hdest => ?_⟩
    rwa [h.issued.eq_of_mem hdest (h.pending id p hp)]
  · refine .inr ⟨by simp [Whole.waitsOn, ha], fun dest hdest => ?_⟩
    obtain ⟨dest', hwent, hsent⟩ := h.asked id a ha
    rw [h.issued.eq_of_mem hdest hsent]
    exact hspeaks dest' hwent

/-- In every state that a session reaches, a result or an error under an id that no request is
waited on, or from somebody who does not speak for the party that the request was sent to, changes
nothing and has no effect, exactly unless it is a resource of our own account or server that answers
about the contact list or copies of messages. -/
theorem only_asked_answers (rules : Rules) (account : BareJid) (roomNick idStem : String)
    (rooms : List BareJid) (inputs : List WholeInput) (sender : Option Jid) (id : String)
    (h :
      (Run.after (step rules) (new account roomNick idStem rooms) inputs).whole.waitsOn id = false ∨
      ∃ dest,
        (id, dest) ∈ (Run.after (step rules) (new account roomNick idStem rooms) inputs).sent ∧
        speaksFor account dest sender = false) :
    let w := (Run.after (step rules) (new account roomNick idStem rooms) inputs).whole
    (∀ payload condition, w.step rules (.iq (.result sender id payload)) = (w, {}) ∧
      w.step rules (.iq (.error sender id condition)) = (w, {})) ↔
      ¬(w.isOpen id = true ∧ isAtHome account sender = true) := by
  intro w
  have hsound : (Run.after (step rules) (new account roomNick idStem rooms) inputs).Sound :=
    sound_after ..
  have hjid : w.jid = account := jid_after ..
  constructor
  · rintro hsame ⟨hopen, hhome⟩
    obtain ⟨hexpected, hne⟩ := w.onRefusal_of_isOpen hopen (hjid ▸ hhome) .other
    have hstep := (hsame none .other).2
    rw [Whole.step, Whole.onIq, if_pos hexpected] at hstep
    exact hne hstep
  · intro hclosed payload condition
    have hrefused : w.cameFromExpected id sender = false := by
      rw [Bool.eq_false_iff]
      intro hexpected
      rcases hsound.expected hexpected with hopen | ⟨hwaits, hspeaks⟩
      · exact hclosed (hjid ▸ hopen)
      · rcases h with hidle | ⟨dest, hdest, hother⟩
        · cases hwaits.symm.trans hidle
        · have hspeaks := hspeaks dest hdest
          rw [jid_after, hother] at hspeaks
          cases hspeaks
    simp only [Whole.step, Whole.onIq, hrefused, Bool.false_eq_true, if_false, and_self]

/-- Rules that take every text as it is, for examples. -/
def plainRules : Rules where
  jids := .verbatim
  urls := { parse := fun _ => none, isAddress := fun _ => false }
  fitsXml _ _ := true

open BareJid (alice)

def mallory : Jid := { bare := ⟨"mallory@example.net", rfl⟩ }

/-- After a login the contact list is waited on, and somebody else sends one. -/
theorem only_asked_answers_login :
    let l := Run.after (step plainRules) (new alice "alice" "ddirc" []) [.online]
    l.whole.waitsOn "ddirc-2" = true ∧ ("ddirc-2", none) ∈ l.sent ∧
      l.whole.step plainRules (.iq (.result (some mallory) "ddirc-2" (some (.roster [])))) =
        (l.whole, {}) := by
  have hsent : ("ddirc-2", none) ∈
      (Run.after (step plainRules) (new alice "alice" "ddirc" []) [.online]).sent := by decide
  refine ⟨by decide, hsent, ?_⟩
  exact ((only_asked_answers plainRules alice "alice" "ddirc" [] [.online] (some mallory) "ddirc-2"
    (.inr ⟨none, hsent, by decide⟩)).2 (by decide) _ .other).1

/-- Another client of ours answers for the server: who stands on its list is on ours. -/
theorem answered_by_phone :
    let l := Run.after (step plainRules) (new alice "alice" "ddirc" []) [.online]
    let phone : Jid := { bare := alice, resource := some "phone" }
    let answer := .iq (.result (some phone) "ddirc-2" (some (.roster [{ jid := mallory.bare }])))
    ("ddirc-2", none) ∈ l.sent ∧ speaksFor alice none (some phone) = false ∧
      l.whole.account.contacts.contains mallory.bare = false ∧
      (l.whole.step plainRules answer).1.account.contacts.contains mallory.bare = true := by
  decide +kernel

/-- In every state that a session reaches no two of the requests it sent have the same id, and one
that is waited on went to one party. -/
theorem each_own_id (account : BareJid) (roomNick idStem : String) (rooms : List BareJid)
    (inputs : List WholeInput) :
    let l := Run.after (step rules) (new account roomNick idStem rooms) inputs
    (l.sent.map (·.1)).Nodup ∧ ∀ id, l.whole.waitsOn id → ∃! dest, (id, dest) ∈ l.sent := by
  intro l
  have h : l.Sound := sound_after ..
  refine ⟨h.issued.nodup, fun id hid => ?_⟩
  obtain ⟨dest, hdest⟩ : ∃ dest, (id, dest) ∈ l.sent := by
    rw [Whole.waitsOn, Bool.or_eq_true] at hid
    rcases hid with hid | hid
    · exact ⟨_, h.pending id _ (Option.some_get hid).symm⟩
    · obtain ⟨dest, -, hdest⟩ := h.asked id _ (Option.some_get hid).symm
      exact ⟨dest, hdest⟩
  exact ⟨dest, hdest, fun _ h' => h.issued.eq_of_mem h' hdest⟩

end Logged

/-! ## What a request is told -/

/-- The id of the request that a stanza answers. -/
def WholeOutgoing.answers : WholeOutgoing → Option String
  | .result _ id | .declined _ id => some id
  | _ => none

namespace Whole
variable {rules : Rules} {w w' : Whole}

/-- The only stanza that a request makes two sessions send is one reply, the same for both. -/
def Alike (rules : Rules) (w w' : Whole) (iq : Iq) (id : String) : Prop :=
  ∃ reply, (w.step rules (.iq iq)).2.send = [reply] ∧ (w'.step rules (.iq iq)).2.send = [reply] ∧
    reply.answers = some id

theorem jid_after (account : BareJid) (roomNick idStem : String) (rooms : List BareJid)
    (inputs : List WholeInput) :
    (Run.after (step rules) (new account roomNick idStem rooms) inputs).jid = account :=
  Run.after_induction (P := fun w : Whole => w.jid = account) rfl
    (fun _ i h => (Asks.step i).account.trans h) inputs

theorem answers_onRequest (sender : Option Jid) (id : String) (payload : Query) :
    (w.onRequest sender id payload).answers = some id := by
  cases payload <;> rfl

theorem onRequest_eq (h : w.jid = w'.jid) (sender : Option Jid) (id : String) (payload : Query) :
    w.onRequest sender id payload = w'.onRequest sender id payload := by
  cases payload with
  | ping => rw [onRequest, onRequest, server, server, h]
  | _ => rfl

def pushReply (account : BareJid) (sender : Option Jid) (id : String)
    (items : Option (List RosterItem)) : WholeOutgoing :=
  if items.isSome && sender.all fun j => j.resource.isNone && j.bare = account then
    .result (sender.getD { bare := account }) id
  else .declined sender id

theorem send_onRosterPush (sender : Option Jid) (id : String) (items : Option (List RosterItem)) :
    (w.onRosterPush sender id items).2.send = [pushReply w.jid sender id items] := by
  unfold onRosterPush
  change _ = [if items.isSome && w.account.isOurs sender then _ else _]
  cases items with
  | none => rfl
  | some items => cases w.account.isOurs sender <;> simp [Option.filter]

/-- Any two sessions of an account that are reached send the same one reply to a request, under its
id; and a message makes them send nothing. -/
theorem answers_alike (rules : Rules) (account : BareJid)
    (roomNick roomNick' idStem idStem' : String) (rooms rooms' : List BareJid)
    (inputs inputs' : List WholeInput) :
    let w := Run.after (step rules) (new account roomNick idStem rooms) inputs
    let w' := Run.after (step rules) (new account roomNick' idStem' rooms') inputs'
    (∀ sender id payload, Alike rules w w' (.get sender id payload) id ∧
      Alike rules w w' (.set sender id payload) id) ∧
    ∀ e, (w.step rules (.message e)).2.send = [] := by
  intro w w'
  have hjid : w.jid = account := jid_after ..
  have hjid' : w'.jid = account := jid_after ..
  refine ⟨fun sender id payload => ?_, fun e => ?_⟩
  · have hreply (iq : Iq) (hiq : ∀ w, (onIq rules w iq).2.send = [onRequest w sender id payload]) :
        Alike rules w w' iq id :=
      ⟨w.onRequest sender id payload, hiq w,
        (hiq w').trans (by rw [onRequest_eq (hjid'.trans hjid.symm)]), answers_onRequest ..⟩
    refine ⟨hreply _ fun _ => rfl, ?_⟩
    cases payload with
    | roster items =>
      refine ⟨pushReply account sender id items, hjid ▸ send_onRosterPush ..,
        hjid' ▸ send_onRosterPush .., ?_⟩
      unfold pushReply
      split <;> rfl
    | _ => exact hreply _ fun _ => rfl
  · change (List.map _ (List.map _ _)) = []
    rw [Session.send_onMessage]
    rfl

end Whole

end Ddirc.Xmpp
