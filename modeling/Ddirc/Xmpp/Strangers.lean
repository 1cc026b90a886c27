import Ddirc.Xmpp.Answers
import Ddirc.Xmpp.Authors
import Ddirc.Xmpp.Amend

/-! # What a stranger's message can touch

Whatever a message from an address that is not our own account carries (a carbon copy, an archived
message, a correction, a retraction), it is filed in the room or the chat it came from. Of the other
conversations nothing changes, but for the oldest entry of an index that is full; and an archive's
answers are counted against the request to it. -/

namespace Ddirc.Xmpp
open List MessageIndex Index

namespace Whole
variable {rules : Rules}

theorem keyed_after (account : BareJid) (roomNick idStem : String) (rooms : List BareJid)
    (inputs : List WholeInput) :
    (Run.after (step rules) (new account roomNick idStem rooms) inputs).session.Keyed := by
  have hnew : (new account roomNick idStem rooms).session.Keyed := fun _ _ hr => by
    rw [Session.of_lookup_new hr]
    rfl
  exact Run.after_induction (P := fun w : Whole => w.session.Keyed) hnew
    (fun _ i h => (Asks.step i).keyed h) inputs

end Whole

/-! ## The other conversations in the index -/

namespace Index
variable {i : Index}

/-- What is remembered of the other conversations, oldest first. -/
def elsewhere (i : Index) (conversation : String) : List Entry :=
  i.entries.filter (·.conversation ≠ conversation)

/-- Nothing of the other conversations is lost but, from an index that is full, one entry, the
oldest. -/
def Leaves (i i' : Index) (conversation : String) : Prop :=
  ∃ gone, i.elsewhere conversation = gone ++ i'.elsewhere conversation ∧ gone.length ≤ 1 ∧
    (gone ≠ [] → i.queue.slots.length = maxIndexed)

theorem leaves_of_eq (h : i'.elsewhere c = i.elsewhere c) : i.Leaves i' c :=
  ⟨[], h.symm, Nat.zero_le _, fun h => absurd rfl h⟩

theorem leaves_forget : i.Leaves (i.forget c m) c := by
  refine leaves_of_eq ?_
  change (i.queue.removeWhere _).entries.filter _ = _
  rw [entries_removeWhere, filter_filter]
  refine filter_congr fun e _ => ?_
  by_cases hc : e.conversation = c <;> simp [hc]

theorem leaves_record : i.Leaves (i.record e) e.conversation := by
  have hrecord : (i.record e).entries = (i.queue.record e).entries := rfl
  have hpush (q : MessageIndex) : (q.push e).entries.filter (·.conversation ≠ e.conversation) =
      q.entries.filter (·.conversation ≠ e.conversation) := by
    rw [entries_push]
    simp
  unfold MessageIndex.record at hrecord
  split at hrecord
  · refine leaves_of_eq ?_
    unfold elsewhere
    rw [hrecord]
    rfl
  rw [i.filed.evictions] at hrecord
  split at hrecord
  next hroom =>
    refine leaves_of_eq ?_
    unfold elsewhere
    rw [hrecord, Function.iterate_zero, hpush]
    rfl
  next hfull =>
    refine ⟨i.queue.slots.head?.join.toList.filter (·.conversation ≠ e.conversation), ?_, ?_,
      fun _ => Nat.le_antisymm i.filed.bound (Nat.le_of_not_lt hfull)⟩
    · unfold elsewhere
      rw [hrecord, Function.iterate_one, hpush, ← filter_append,
        ← entries_evict i.queue]
      rfl
    · refine Nat.le_trans (length_filter_le ..) ?_
      cases i.queue.slots.head?.join <;> simp

end Index

/-! ## A message and its conversation -/

/-- A message, an edit or a retraction is filed in `conversation`, and in a chat not as our own
words. -/
def Event.FiledIn (conversation : Target) : Event → Prop
  | .message m => m.target = conversation ∧ ∀ name, conversation = .direct name → m.isSelf = false
  | .edited target _ _ m => target = conversation ∧ m.target = conversation ∧
      ∀ name, conversation = .direct name → m.isSelf = false
  | .retracted target _ _ => target = conversation
  | _ => True

namespace Session
variable {s : Session}
variable {sender : Jid} {e : Envelope}

def conversationOf (s : Session) (sender : Jid) (e : Envelope) : Target :=
  if e.archived.isSome ∨ e.type = .groupchat then .channel sender.bare.text
  else .direct (s.chatNames sender false).1

structure Stays (s : Session) (conversation : Target) (r : Session × Effects) : Prop where
  events : ∀ ev ∈ r.2.events, ev.FiledIn conversation
  rooms : ∀ jid, conversation ≠ .channel jid.text → r.1.rooms.lookup jid = s.rooms.lookup jid
  index : s.index.Leaves r.1.index conversation.name

/-- A carbon copy and the archive of our account are believed from our account only. -/
theorem file_of_stranger {rooms : Map BareJid Room} {pending : Map String Pending}
    {chatCursor : Option String} {target : Target} (hkeyed : s.Keyed)
    (hstranger : sender.bare ≠ s.account) (hf : FiledAs s.account e sender f)
    (hnotes : s.Notes f rooms)
    (h : { s with rooms, pending, chatCursor }.file f = some ⟨target, author, isSelf⟩) :
    target = s.conversationOf sender e ∧ ∀ name, target = .direct name → isSelf = false := by
  cases hf with
  | room msgid said heard =>
    obtain ⟨r, hr, heq⟩ := Option.map_eq_some_iff.1 h
    cases heq
    have hjid : r.jid = sender.bare := by
      rcases hnotes with rfl | ⟨jid, nick, msgid, r₀, lastId, recent, hjid, hr₀, rfl⟩
      · exact hkeyed _ r hr
      · cases hjid
        obtain rfl := Option.some.inj ((AList.lookup_insert s.rooms).symm.trans hr)
        exact hkeyed _ r₀ hr₀
    refine ⟨?_, nofun⟩
    rw [Room.name, hjid]
    exact (if_pos said).symm
  | copy other outgoing ours => exact absurd ours hstranger
  | chat archived type =>
    obtain rfl : rooms = s.rooms := by
      rcases hnotes with rfl | ⟨_, _, _, _, _, _, hroom, -⟩
      · rfl
      · cases hroom
    cases h
    exact ⟨(if_neg (by simp [archived, type])).symm, fun _ _ => rfl⟩
  | nowhere => cases h

theorem stays_onMessage (hkeyed : s.Keyed) (hf : e.sender = some sender)
    (hstranger : sender.bare ≠ s.account) :
    s.Stays (s.conversationOf sender e) (s.onMessage e) := by
  obtain ⟨f, rooms, pending, chatCursor, hf, hnotes, -, hsaid⟩ := heard_onMessage (s := s) hf
  have hroom {jid nick msgid} (h : f = .room jid nick msgid) (jid' : BareJid)
      (hj : s.conversationOf sender e ≠ .channel jid'.text) : jid' ≠ jid := by
    rintro rfl
    subst h
    cases hf with
    | room msgid said heard => exact hj (if_pos said)
  have hother (jid : BareJid) (hj : s.conversationOf sender e ≠ .channel jid.text) :
      rooms.lookup jid = s.rooms.lookup jid := by
    rcases hnotes with rfl | ⟨jid₀, nick, msgid, r, lastId, recent, hf, hr, rfl⟩
    · rfl
    · rw [Map.lookup_insert, if_neg (hroom hf jid hj)]
  have hfile {target author isSelf}
      (h : { s with rooms, pending, chatCursor }.file f = some ⟨target, author, isSelf⟩) :=
    file_of_stranger hkeyed hstranger hf hnotes h
  generalize s.onMessage e = r at hsaid
  cases hsaid with
  | nothing => exact ⟨fun _ h => absurd h not_mem_nil, hother, leaves_of_eq rfl⟩
  | failed => exact ⟨fun ev hev => mem_singleton.1 hev ▸ trivial, hother, leaves_of_eq rfl⟩
  | topic jid nick msgid r text setBy filed held =>
    refine ⟨fun ev hev => mem_singleton.1 hev ▸ trivial, fun jid' hj => ?_, leaves_of_eq rfl⟩
    rw [← hother jid' hj]
    exact (Map.lookup_insert ..).trans (if_neg (hroom filed jid' hj))
  | corrected e₀ target m shown filed file =>
    obtain ⟨htarget, hself⟩ := hfile file
    refine ⟨fun ev hev => ?_, hother, leaves_of_eq rfl⟩
    rw [mem_singleton.1 hev]
    exact ⟨htarget, filed.trans htarget, fun name hname => hself name (htarget.trans hname)⟩
  | retracted e₀ target isSelf shown file =>
    refine ⟨fun ev hev => ?_, hother, (hfile file).1 ▸ leaves_forget⟩
    rw [mem_singleton.1 hev]
    exact (hfile file).1
  | shown m author entry file notice id filed =>
    obtain ⟨htarget, hself⟩ := hfile file
    refine ⟨fun ev hev => ?_, hother, ?_⟩
    · rw [mem_singleton.1 hev]
      exact ⟨htarget, fun name hname => hself name (htarget.trans hname)⟩
    · cases entry with
      | none => exact leaves_of_eq rfl
      | some e₀ =>
        rw [← htarget]
        exact (filed e₀ rfl).2.1 ▸ leaves_record

/-- Of the requests waited on nothing changes, but that a page asked of `archive` counts one more
message. -/
def Counts (s s' : Session) (archive : BareJid) : Prop :=
  ∀ id, s'.pending.lookup id = s.pending.lookup id ∨ ∃ fetched pages after start,
    s.pending.lookup id = some (.catchUp (some archive) fetched pages after start) ∧
    s'.pending.lookup id = some (.catchUp (some archive) (fetched + 1) pages after start)

theorem counts_onMessage (hf : e.sender = some sender)
    (hstranger : sender.bare ≠ s.account) : s.Counts (s.onMessage e).1 sender.bare := by
  obtain ⟨f, rooms, pending, chatCursor, -, -, htallies, hsaid⟩ := heard_onMessage (s := s) hf
  have hpending : (s.onMessage e).1.pending = pending := by
    generalize s.onMessage e = r at hsaid
    cases hsaid <;> rfl
  intro id
  rw [hpending]
  rcases htallies with rfl | ⟨q, room, fetched, pages, after, start, hq, hfrom, rfl⟩
  · exact .inl rfl
  · cases room with
    | none => exact absurd hfrom hstranger
    | some room =>
      obtain rfl : sender.bare = room := hfrom
      rw [Map.lookup_insert]
      split
      next hid => exact .inr ⟨fetched, pages, after, start, hid ▸ hq, rfl⟩
      · exact .inl rfl

end Session

namespace Whole
variable {q : MessageIndex} {n : Nat}

/-- In every state that a session reaches, a message from an address that is not our account's is
filed in the room or the chat it came from, in a chat never as our words. No other room changes, and
no contact or request of one. Of the requests we wait on only a page asked of that same room counts
one more message; of what is remembered of other conversations nothing is lost but the oldest entry,
when there is no more room. -/
theorem stranger_stays (rules : Rules) (account : BareJid) (roomNick idStem : String)
    (rooms : List BareJid) (inputs : List WholeInput) (e : Envelope) (sender : Jid)
    (hsender : e.sender = some sender) (hstranger : sender.bare ≠ account) :
    let w := Run.after (step rules) (new account roomNick idStem rooms) inputs
    let (w', fx) := w.step rules (.message e)
    let conversation := w.session.conversationOf sender e
    (∀ ev ∈ fx.events, ∃ shown, ev = .session shown ∧ shown.FiledIn conversation) ∧
    (∀ jid, conversation ≠ .channel jid.text →
      w'.session.rooms.lookup jid = w.session.rooms.lookup jid) ∧
    w'.account.contacts = w.account.contacts ∧ w'.whereabouts = w.whereabouts ∧
    w'.asked = w.asked ∧ w.session.Counts w'.session sender.bare ∧
    w.session.index.Leaves w'.session.index conversation.name := by
  intro w
  have hjid : w.session.account = account := jid_after ..
  have hstays := Session.stays_onMessage (keyed_after account roomNick idStem rooms inputs) hsender
    (hjid ▸ hstranger : sender.bare ≠ w.session.account)
  refine ⟨fun ev hev => ?_, hstays.rooms, rfl, rfl, ?_, ?_, hstays.index⟩
  · obtain ⟨shown, hshown, rfl⟩ := mem_map.1 (mem_append.1 hev |>.resolve_right nofun)
    exact ⟨shown, rfl, hstays.events shown hshown⟩
  · change (map AccountOutgoing.session (w.session.onMessage e).2.send).foldl noteSent _ = _
    rw [Session.send_onMessage]
    rfl
  · exact Session.counts_onMessage hsender (hjid ▸ hstranger)

open BareJid (alice)
open Logged (plainRules mallory)

theorem stranger_stays_mallory :
    let w := Run.after (step plainRules) (new alice "alice" "ddirc" []) [.online]
    let e : Envelope := { sender := some mallory, type := .chat, id := some "1", body := some "hi" }
    (w.step plainRules (.message e)).2.events.length = 1 ∧
    ∀ ev ∈ (w.step plainRules (.message e)).2.events, ∃ shown, ev = .session shown ∧
      shown.FiledIn (.direct "mallory@example.net") := by
  refine ⟨by decide +kernel, ?_⟩
  exact (stranger_stays plainRules alice "alice" "ddirc" [] [.online]
    { sender := some mallory, type := .chat, id := some "1", body := some "hi" } mallory rfl
    (by decide)).1

def stranger (n : Nat) : BareJid where
  text := String.ofList (replicate (n + 1) 'x')
  noSlash := by simp [Str.contains]

theorem stranger_inj (h : (stranger m).text = (stranger n).text) : m = n := by
  have hlist := String.ofList_injective h
  simpa using congrArg length hlist

def hello (n : Nat) : WholeInput :=
  .message
    { sender := some { bare := stranger n }, type := .chat, id := some "1", body := some "hi" }

def helloEntry (n : Nat) : Entry where
  conversation := (stranger n).text
  author := (stranger n).text
  msgid := "1"
  origin := some "1"
  mine := false

theorem stranger_ne_alice (n : Nat) : stranger n ≠ alice := by
  intro h
  have hlist : replicate (n + 1) 'x' = "alice@example.org".toList := by
    have htext := congrArg BareJid.text h
    rw [← String.toList_ofList (l := replicate (n + 1) 'x')]
    exact congrArg String.toList htext
  exact absurd (cons.inj hlist).1 (by decide)

theorem step_hello {w : Whole} (hjid : w.jid = alice) (hrooms : w.session.rooms = ∅) (n : Nat) :
    (w.step plainRules (hello n)).1.session =
      { w.session with index := w.session.index.record (helloEntry n) } := by
  have hstranger : stranger n ≠ w.session.account := fun h => stranger_ne_alice n (h.trans hjid)
  have htext : (some (cleanText "hi")).filter (fun body => !(Str.trim body).isEmpty) =
      some "hi" := by decide
  have htake : Str.takeChars maxId "1" = "1" := by decide
  change (w.session.onMessage _).1 = _
  simp only [Session.onMessage, Session.onChat, if_neg hstranger, hrooms]
  rfl

theorem entries_hellos (hslots : q.slots = (range n).map fun k => some (helloEntry k)) :
    q.entries = (range n).map helloEntry := by
  rw [MessageIndex.entries, hslots, filterMap_map]
  exact congrFun filterMap_eq_map _

theorem record_hello {i : Index}
    (hslots : i.queue.slots = (range n).map fun k => some (helloEntry k)) :
    (i.record (helloEntry n)).queue =
      (MessageIndex.evict^[n + 1 - maxIndexed] i.queue).push (helloEntry n) := by
  have hnew : i.queue.candidates i.queue.byId (helloEntry n).conversation "1" = [] := by
    rw [i.filed.byId.candidates_eq, entries_hellos hslots, reverse_eq_nil_iff,
      filter_eq_nil_iff]
    intro e he
    obtain ⟨k, hk, rfl⟩ := mem_map.1 he
    rw [decide_eq_true_eq]
    exact fun h => Nat.ne_of_lt (mem_range.1 hk) (stranger_inj h.1)
  change i.queue.record (helloEntry n) = _
  have hlength : i.queue.slots.length = n := by rw [hslots]; simp
  unfold MessageIndex.record
  rw [hlength, show (helloEntry n).msgid = "1" from rfl, hnew]
  rfl

theorem not_mem_evict_hellos
    (hslots : q.slots = (range (n + 1)).map fun k => some (helloEntry k)) :
    helloEntry 0 ∉ q.evict.entries := by
  have hsplit := entries_evict q
  have hhead : q.slots.head?.join.toList = [helloEntry 0] := by
    rw [hslots, range_succ_eq_map]
    rfl
  have hnodup : q.entries.Nodup := by
    rw [entries_hellos hslots]
    exact nodup_range.map fun _ _ h => stranger_inj (congrArg Entry.conversation h)
  rw [hsplit, hhead] at hnodup
  exact (nodup_cons.1 hnodup).1

/-- The first messages of as many strangers as there is room for are all remembered. -/
theorem hellos (n : Nat) (hn : n ≤ maxIndexed) :
    let w := Run.after (step plainRules) (new alice "alice" "ddirc" []) ((range n).map hello)
    w.jid = alice ∧ w.session.rooms = ∅ ∧
      w.session.index.queue.slots = (range n).map fun k => some (helloEntry k) := by
  induction n with
  | zero => exact ⟨rfl, rfl, rfl⟩
  | succ n ih =>
    obtain ⟨hjid, hrooms, hslots⟩ := ih (Nat.le_of_succ_le hn)
    rw [range_succ, map_append, Run.after_append]
    generalize Run.after (step plainRules) (new alice "alice" "ddirc" []) ((range n).map hello) =
      w at hjid hrooms hslots
    have hstep := step_hello hjid hrooms n
    refine ⟨(congrArg Session.account hstep).trans hjid,
      (congrArg Session.rooms hstep).trans hrooms, (congrArg (·.index.queue.slots) hstep).trans ?_⟩
    dsimp only
    rw [record_hello hslots, Nat.sub_eq_zero_of_le hn, Function.iterate_zero, id_eq,
      MessageIndex.push, hslots, map_append]
    rfl

def lounge : BareJid := ⟨"lounge@muc.example.org", rfl⟩

/-- We are in a room, the connection is lost after a message, and back in the room we ask for the
page after it. -/
def paging : List WholeInput :=
  let here : Presence :=
    { sender := some { bare := lounge, resource := some "alice" }, statuses := [.selfPresence] }
  let said : Envelope :=
    { sender := some { bare := lounge, resource := some "bob" }, type := .groupchat
      body := some "hi", stanzaId := some ⟨"1", { bare := lounge }⟩ }
  [.online, .presence here none 0, .message said, .online, .presence here none 0]

def page : WholeInput :=
  let result : ArchiveResult :=
    { queryId := some "ddirc-7", id := "2", forwarded := { message := { type := .groupchat } } }
  .message { sender := some { bare := lounge }, type := .normal, archived := some result }

/-- When as many have written as are remembered, one more makes the first forgotten; and a message
of a room's archive is counted against the page that was asked for. -/
theorem stranger_displaces :
    (let w := Run.after (step plainRules) (new alice "alice" "ddirc" [])
      ((range maxIndexed).map hello)
    stranger maxIndexed ≠ alice ∧ stranger maxIndexed ≠ stranger 0 ∧
    helloEntry 0 ∈ w.session.index ∧
    helloEntry 0 ∉ (w.step plainRules (hello maxIndexed)).1.session.index) ∧
    let w := Run.after (step plainRules) (new alice "alice" "ddirc" [lounge]) paging
    (w.session.pending.lookup "ddirc-7" = some (.catchUp (some lounge) 0 1 "1" 0) ∧
    (w.step plainRules page).1.session.pending.lookup "ddirc-7" =
      some (.catchUp (some lounge) 1 1 "1" 0)) := by
  refine ⟨?_, by decide +kernel⟩
  obtain ⟨hjid, hrooms, hslots⟩ := hellos maxIndexed (Nat.le_refl _)
  have hne : maxIndexed ≠ 0 := by simp [maxIndexed]
  refine ⟨stranger_ne_alice _, fun h => hne (stranger_inj (congrArg BareJid.text h)), ?_, ?_⟩
  · rw [mem_iff, Index.entries, entries_hellos hslots]
    exact mem_map.2 ⟨0, mem_range.2 (Nat.pos_of_ne_zero hne), rfl⟩
  · rw [step_hello hjid hrooms, mem_iff, Index.entries, record_hello hslots,
      Nat.add_sub_cancel_left, Function.iterate_one, entries_push, mem_append]
    rintro (h | h)
    · exact not_mem_evict_hellos (n := maxIndexed - 1) hslots h
    · exact hne (stranger_inj (congrArg Entry.conversation (mem_singleton.1 h))).symm

end Whole

end Ddirc.Xmpp
