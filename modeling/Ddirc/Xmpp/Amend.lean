import Ddirc.Lib.Run
import Ddirc.Xmpp.Session

/-! # What a correction or a retraction leaves alone

A correction changes what is shown and nothing in the index; one that finds nothing to correct is a
message and is recorded as one, which makes room when the index is full. A retraction forgets the
message it found, by conversation and id. -/

namespace Ddirc.Xmpp
open Option MessageIndex Index List

namespace MessageIndex

theorem Filed.evictions (i : MessageIndex) (h : i.Filed) :
    i.slots.length + 1 - maxIndexed = if i.slots.length < maxIndexed then 0 else 1 := by
  have := h.bound
  split <;> omega

end MessageIndex

namespace Index
variable {i : Index} {e : Entry}

/-- The entry that recording a message would push out. -/
def displacedBy (i : Index) (conversation author msgid : String) : Option Entry :=
  if (i.queue.candidates i.queue.byId conversation msgid).any (·.author == author) then none
  else if i.queue.slots.length < maxIndexed then none
  else i.queue.slots.head?.join

/-- Every entry of `i` that is not by `author` is still in its place in `i'`, and its author's
corrections and retractions find what they found before. -/
structure Spares (i i' : Index) (author : String) : Prop where
  entries : ∀ seq e, i.queue.entryAt seq = some e → e.author ≠ author →
    i'.queue.entryAt seq = some e
  corrections : ∀ other, other ≠ author → ∀ conversation id,
    i'.forCorrection conversation id other = i.forCorrection conversation id other
  retractions : ∀ other, other ≠ author → ∀ conversation id,
    i'.forRetraction conversation id other = i.forRetraction conversation id other

def others (i : Index) (author : String) : List Entry := i.entries.filter (·.author ≠ author)

theorem find_reverse_filter (l : List Entry) (p : Entry → Bool) (h : b ≠ a) :
    (l.filter p).reverse.find? (·.author == b) =
      ((l.filter (·.author ≠ a)).filter p).reverse.find? (·.author == b) := by
  rw [← filter_reverse, ← filter_reverse, ← filter_reverse, find?_filter,
    find?_filter, find?_filter]
  congr 1
  funext e
  by_cases hb : e.author = b
  · simp [hb, h]
  · simp [hb]

theorem spares_of_others (h : i'.others a = i.others a)
    (hentries : ∀ seq e, i.queue.entryAt seq = some e → e.author ≠ a →
      i'.queue.entryAt seq = some e) : i.Spares i' a where
  entries := hentries
  corrections b hb c k := by
    unfold forCorrection MessageIndex.forCorrection
    rw [i.filed.byOrigin.candidates_eq, i'.filed.byOrigin.candidates_eq, find_reverse_filter _ _ hb,
      find_reverse_filter i.queue.entries _ hb]
    have h : i'.queue.entries.filter (·.author ≠ a) = i.queue.entries.filter (·.author ≠ a) := h
    rw [h]
  retractions b hb c k := by
    unfold forRetraction MessageIndex.forRetraction
    rw [i.filed.byId.candidates_eq, i'.filed.byId.candidates_eq, i.filed.byOrigin.candidates_eq,
      i'.filed.byOrigin.candidates_eq]
    simp only [find?_append]
    rw [find_reverse_filter _ _ hb, find_reverse_filter i.queue.entries _ hb,
      find_reverse_filter i'.queue.entries _ hb, find_reverse_filter i.queue.entries _ hb]
    have h : i'.queue.entries.filter (·.author ≠ a) = i.queue.entries.filter (·.author ≠ a) := h
    rw [h]

theorem spares_refl (i : Index) (a : String) : i.Spares i a where
  entries _ _ h _ := h
  corrections _ _ _ _ := rfl
  retractions _ _ _ _ := rfl

/-- Forgetting a message by its id spares the others exactly if none of them used it. -/
theorem spares_forget : i.Spares (i.forget c m) a ↔
    ∀ e ∈ i, e.conversation = c → e.msgid = m → e.author = a := by
  have hat : ∀ seq, (i.forget c m).queue.entryAt seq = _ :=
    entryAt_removeWhere i.queue fun e => e.conversation == c && e.msgid == m
  constructor
  · intro h e he hc hm
    obtain ⟨seq, hseq⟩ := mem_entries.1 he
    by_contra hne
    have hkept := h.entries seq e hseq hne
    rw [hat] at hkept
    simp [hc, hm] at hkept
  · intro h
    refine spares_of_others ?_ fun seq e he hne => ?_
    · change (i.queue.removeWhere _).entries.filter _ = _
      rw [entries_removeWhere, List.filter_filter]
      refine filter_congr fun e he => ?_
      by_cases hkey : e.conversation = c ∧ e.msgid = m
      · simp [h e he hkey.1 hkey.2]
      · have hgone : (e.conversation == c && e.msgid == m) = false := by
          simpa using hkey
        rw [hgone, Bool.not_false, Bool.and_true]
    · rw [hat, he, filter_some, if_pos]
      have hkey : ¬(e.conversation = c ∧ e.msgid = m) := fun ⟨hc, hm⟩ =>
        hne (h e (mem_entries.2 ⟨seq, he⟩) hc hm)
      rw [Bool.not_eq_true']
      simpa using hkey

theorem push_spares {i : MessageIndex} :
    (i.push e).entries.filter (·.author ≠ e.author) = i.entries.filter (·.author ≠ e.author) ∧
      ∀ seq e', i.entryAt seq = some e' → (i.push e).entryAt seq = some e' := by
  refine ⟨?_, fun seq e' h => ?_⟩
  · rw [entries_push]
    simp
  · rw [entryAt_push, if_neg (Nat.ne_of_lt (lt_of_entryAt h)), h]

/-- Recording a message spares the others exactly if what it pushes out is the author's own. -/
theorem spares_record : i.Spares (i.record e) e.author ↔
    ∀ old, i.displacedBy e.conversation e.author e.msgid = some old → old.author = e.author := by
  have hrecord : (i.record e).queue = i.queue.record e := rfl
  unfold displacedBy
  by_cases hknown :
    (i.queue.candidates i.queue.byId e.conversation e.msgid).any (·.author == e.author)
  · -- recorded before: nothing changes
    have hsame : i.record e = i := by
      unfold record
      congr 1
      rw [MessageIndex.record, if_pos hknown]
    rw [hsame, if_pos hknown]
    exact iff_of_true (spares_refl ..) nofun
  rw [MessageIndex.record, if_neg hknown, i.filed.evictions] at hrecord
  rw [if_neg hknown]
  split at hrecord
  next hroom =>
    -- there is room
    rw [if_pos hroom]
    refine iff_of_true (spares_of_others ?_ fun seq e' he _ => ?_) nofun
    · unfold others entries
      rw [hrecord]
      exact push_spares.1
    · rw [hrecord]
      exact push_spares.2 seq e' he
  next hroom =>
    rw [if_neg hroom]
    have hsplit := entries_evict i.queue
    have hat := entryAt_evict i.queue
    have hfirst := entryAt_first i.queue
    constructor
    · intro h old hold
      by_contra hne
      have hkept := h.entries _ old (hfirst.trans hold) hne
      have hnew : i.queue.first ≠ i.queue.evict.first + i.queue.evict.slots.length := by
        rw [evict_first hold]
        omega
      rw [hrecord, Function.iterate_one, entryAt_push, if_neg hnew, hat,
        if_pos rfl] at hkept
      cases hkept
    · intro h
      have hown : i.queue.slots.head?.join.toList.filter (·.author ≠ e.author) = [] := by
        rw [filter_eq_nil_iff]
        intro old hold
        simp [h old (mem_toList.1 hold)]
      refine spares_of_others ?_ fun seq e' he hne => ?_
      · unfold others entries
        rw [hrecord, Function.iterate_one, push_spares.1, hsplit, filter_append, hown,
          nil_append]
      · rw [hrecord, Function.iterate_one]
        refine push_spares.2 seq e' ?_
        rw [hat, if_neg, he]
        rintro rfl
        exact hne (h e' (hfirst.symm.trans he))

/-- A message by `author` finds the index so that it spares the others: a retraction does not find a
message whose id someone else uses too, and what is recorded pushes out no one else's entry. -/
def SparedBy (i : Index) (conversation author : String) (m : Message) (msgid : Option String) :
    Prop :=
  match m.retraction with
  | some id => ∀ e, i.forRetraction conversation id author = some e →
      ∀ e' ∈ i, e'.conversation = conversation → e'.msgid = e.msgid → e'.author = author
  | none => m.text.isSome →
      (m.replace.bind fun id => i.forCorrection conversation id author) = none →
      ∀ id, msgid = some id → ∀ old, i.displacedBy conversation author id = some old →
        old.author = author

end Index

namespace Session
variable {s : Session}

theorem spares_applyRetraction :
    s.index.Spares (s.applyRetraction target c k a shown).1.index a ↔
      ∀ e, s.index.forRetraction c k a = some e →
        ∀ e' ∈ s.index, e'.conversation = c → e'.msgid = e.msgid → e'.author = a := by
  unfold applyRetraction
  split
  next h => exact iff_of_true (spares_refl ..) fun e he => by rw [h] at he; cases he
  next e h =>
    rw [h]
    simp only [Option.some.injEq, forall_eq']
    exact spares_forget

theorem spares_onRoomText (room : Room) : s.index.Spares
    (s.onRoomText jid room (some a) m body time roomId).1.index a ↔
      ((m.replace.bind fun id => s.index.forCorrection room.name id a) = none →
        ∀ id, roomId.or m.origin = some id → ∀ old, s.index.displacedBy room.name a id = some old →
          old.author = a) := by
  unfold onRoomText
  simp only [isNone_some, Bool.false_eq_true, if_false, getD_some]
  split
  next e h => exact iff_of_true (spares_refl ..) fun h' => by rw [h] at h'; cases h'
  next h =>
    simp only [h, forall_const]
    cases hid : roomId.or m.origin with
    | none => exact iff_of_true (spares_refl ..) nofun
    | some id =>
      simp only [Option.some.injEq, forall_eq']
      exact spares_record (e :=
        { conversation := room.name, author := a, msgid := id, origin := m.origin
          mine := (some a).any room.isSelf })

theorem spares_onChatText : s.index.Spares
    (s.onChatText name author key outgoing m body time).1.index key ↔
      ((m.replace.bind fun id => s.index.forCorrection name id key) = none →
        ∀ id, m.id.map (Str.takeChars maxId) = some id →
          ∀ old, s.index.displacedBy name key id = some old → old.author = key) := by
  unfold onChatText
  dsimp only
  split
  next e h => exact iff_of_true (spares_refl ..) fun h' => by rw [h] at h'; cases h'
  next h =>
    simp only [h, forall_const]
    cases hid : m.id.map (Str.takeChars maxId) with
    | none => exact iff_of_true (spares_refl ..) (by simp)
    | some id =>
      simp only [Option.some.injEq, forall_eq']
      exact spares_record (e :=
        { conversation := name, author := key, msgid := id, origin := m.origin, mine := outgoing })

theorem onSubject_index : (s.onSubject jid room sender m).1.index = s.index := by
  unfold onSubject
  split
  · rfl
  · dsimp only
    split <;> rfl

/-- What a message does to the entries of other authors. In a room the author is the occupant who
speaks, by the name shown; in a chat it is the one the message is recorded under. -/
theorem amendment_spares_others (s : Session) :
    (∀ (jid sender : BareJid) (nick : String) (m : Message) (time : Option Int)
        (archived : Option String),
      s.index.Spares (s.showRoomMessage jid ⟨sender, some nick⟩ m time archived).1.index
          (cleanName nick) ↔
        ∀ room, s.rooms.lookup jid = some room →
          (room.note (archived.or (m.assignedId jid))).isSome →
          s.index.SparedBy room.name (cleanName nick) m
            ((archived.or (m.assignedId jid)).or m.origin)) ∧
    (∀ (other : Jid) (m : Message) (outgoing : Bool) (time : Option Int) (replayed : Bool),
      s.index.Spares (s.showChat other m outgoing time replayed).1.index
          (s.chatNames other outgoing).2.2 ↔
        ((replayed && m.id.any fun id =>
            s.index.contains (s.chatNames other outgoing).1 (Str.takeChars maxId id)) = false →
          s.index.SparedBy (s.chatNames other outgoing).1 (s.chatNames other outgoing).2.2 m
            (m.id.map (Str.takeChars maxId)))) := by
  constructor
  · intro jid sender nick m time archived
    unfold showRoomMessage
    split
    next h => exact iff_of_true (spares_refl ..) fun room hroom => by rw [h] at hroom; cases hroom
    next room h =>
      simp only [h, Option.some.injEq, forall_eq']
      split
      next hnote => rw [hnote]; exact iff_of_true (spares_refl ..) (by simp)
      next room' hnote =>
        rw [hnote]
        simp only [isSome_some, forall_const, Index.SparedBy]
        rw [← Room.note_name hnote]
        cases hr : m.retraction with
        | some id =>
          exact spares_applyRetraction (s := { s with rooms := s.rooms.insert jid room' })
            (c := room'.name)
        | none =>
          cases ht : m.text with
          | some body =>
            simp only [isSome_some, forall_const]
            exact spares_onRoomText (s := { s with rooms := s.rooms.insert jid room' }) room'
          | none =>
            refine iff_of_true ?_ (by simp)
            dsimp only
            split
            · exact spares_refl ..
            · rw [onSubject_index]
              exact spares_refl ..
  · intro other m outgoing time replayed
    unfold showChat
    dsimp only
    split
    next hseen =>
      refine iff_of_true (spares_refl ..) fun h => ?_
      rw [h] at hseen
      cases hseen
    next hseen =>
      simp only [hseen, forall_const, Index.SparedBy]
      cases hr : m.retraction with
      | some id => exact spares_applyRetraction
      | none =>
        cases ht : m.text with
        | some body =>
          simp only [isSome_some, forall_const]
          exact spares_onChatText
        | none => exact iff_of_true (spares_refl ..) (by simp)

/-! ## An id used by two -/

/-- Addresses are taken as they are written, and none is read from text. -/
def plainRules : JidRules := { parse := fun _ => none, resourcePart := some }

def ourAccount : BareJid := .alice

def ourRoom : BareJid := ⟨"room@muc.example.org", rfl⟩

def present (nick : String) (statuses : List Status) : Input :=
  .presence { sender := some ⟨ourRoom, some nick⟩, statuses }

def speaks (nick : String) (m : Message) : Input :=
  .message { m with sender := some ⟨ourRoom, some nick⟩, type := .groupchat }

/-- Bob and Carol are in the room with us and each has used the id `x`. -/
def sharedId : Session :=
  Run.after (step plainRules) (new ourAccount "alice" "ddirc" [ourRoom])
    [.online, present "carol" [], present "bob" [], present "alice" [.selfPresence],
      speaks "carol" { type := .groupchat, id := some "x", body := some "hello" },
      speaks "bob" { type := .groupchat, id := some "x", body := some "hi" }]

/-- Bob takes back his message and Carol's is forgotten with it. -/
theorem retraction_forgets_another :
    sharedId.index.forCorrection ourRoom.text "x" "carol" ≠ none ∧
    ¬ sharedId.index.Spares
      (sharedId.showRoomMessage ourRoom ⟨ourRoom, some "bob"⟩
        { type := .groupchat, retract := some "x" } none none).1.index (cleanName "bob") := by
  refine ⟨by decide +kernel, fun h => ?_⟩
  have hsame := h.corrections "carol" (by decide) ourRoom.text "x"
  revert hsame
  decide +kernel

end Session
end Ddirc.Xmpp
