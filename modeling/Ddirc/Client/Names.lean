import Ddirc.Client.View

/-! # Reading a list of names

What a `353` and the `366` after it leave: the channel's members are those listed, each as it was
spelled and with `@` where it was marked so. -/

namespace Ddirc.Client
open List
open Irc Function
open Str (toAsciiLowercase takeChars)
variable {i : ISupport} {ms : Map String Member} {words : List String}

def shownName (nick : String) (op : Bool) : String := if op then "@" ++ nick else nick

/-- A nick that a `353` line can carry: a word, not marked itself, and short enough to be kept. -/
structure Sayable (nick : String) : Prop where
  nonempty : nick ≠ ""
  unmarked : nick.toList.head? ≠ some '@'
  word : ∀ c ∈ nick.toList, Str.isWhitespace c = false
  short : takeChars maxNick nick = nick

theorem splitPrefixes_shownName (h : Sayable nick) (op : Bool) :
    Prefixes.splitPrefixes ⟨[('o', '@')]⟩ (shownName nick op) =
      (if op then ['@'] else [], nick) := by
  have hmark (c : Char) : Prefixes.isPrefixChar ⟨[('o', '@')]⟩ c = (c == '@') := by
    simp [Prefixes.isPrefixChar, Bool.beq_comm]
  have hword : nick.toList.takeWhile (Prefixes.isPrefixChar ⟨[('o', '@')]⟩) = [] ∧
      nick.toList.dropWhile (Prefixes.isPrefixChar ⟨[('o', '@')]⟩) = nick.toList := by
    cases hl : nick.toList with
    | nil => simp
    | cons c cs =>
      have hc : c ≠ '@' := by
        have := h.unmarked
        simpa [hl] using this
      simp [hmark, hc]
  cases op with
  | false => simp [shownName, Prefixes.splitPrefixes, hword]
  | true => simp [shownName, Prefixes.splitPrefixes, hmark, hword]

theorem addName_shownName (hmap : i.casemapping = .ascii) (hpre : i.prefixes = ⟨[('o', '@')]⟩)
    (h : Sayable nick) (op : Bool) (hroom : ms.entries.length < maxMembers)
    (hnew : ms.lookup (toAsciiLowercase nick) = none) :
    ∃ m : Member, m.view = (nick, op) ∧
      Session.addName i ms (shownName nick op) = ms.insert (toAsciiLowercase nick) m := by
  have hnorm : i.casemapping.normalize nick = toAsciiLowercase nick := by
    rw [hmap]
    rfl
  have hne : nick.isEmpty = false := by simpa using h.nonempty
  refine ⟨{ Member.ofNick nick with prefixes := ∅ ∪ (if op then ['@'] else []).toFinset }, ?_, ?_⟩
  · cases op <;> simp [Member.view, Member.ofNick, h.short]
  · simp only [Session.addName, not_le.2 hroom]
    rw [hpre, splitPrefixes_shownName h op]
    simp only [hne, if_false]
    rw [hnorm, hnew]
    rfl

theorem rollOf_addNames (hmap : i.casemapping = .ascii) (hpre : i.prefixes = ⟨[('o', '@')]⟩)
    {l : List (String × Bool)} (hl : ∀ p ∈ l, Sayable p.1)
    (hnodup : (l.map fun p => toAsciiLowercase p.1).Nodup)
    (hnew : ∀ p ∈ l, ms.lookup (toAsciiLowercase p.1) = none)
    (hroom : ms.entries.length + l.length ≤ maxMembers) (k : String) (v : String × Bool) :
    rollOf ((l.map fun p => shownName p.1 p.2).foldl (Session.addName i) ms) k = some v ↔
      rollOf ms k = some v ∨ v ∈ l ∧ toAsciiLowercase v.1 = k := by
  induction l generalizing ms with
  | nil => simp
  | cons p l ih =>
    obtain ⟨hp, hnodup⟩ := nodup_cons.1 hnodup
    have hpnew := hnew p mem_cons_self
    simp only [length_cons] at hroom
    obtain ⟨m, hm, hadd⟩ := addName_shownName hmap hpre (hl p mem_cons_self) p.2
      (by omega) hpnew
    have hlen : (ms.insert (toAsciiLowercase p.1) m).entries.length = ms.entries.length + 1 := by
      rw [AList.insert_of_notMem (AList.lookup_eq_none.1 hpnew)]
      rfl
    have hrest : ∀ q ∈ l, (ms.insert (toAsciiLowercase p.1) m).lookup (toAsciiLowercase q.1) =
        none := by
      intro q hq
      have hne : toAsciiLowercase q.1 ≠ toAsciiLowercase p.1 :=
        fun he => hp (mem_map.2 ⟨q, hq, he⟩)
      rw [Map.lookup_insert, if_neg hne]
      exact hnew q (mem_cons_of_mem p hq)
    rw [map_cons, foldl_cons, hadd,
      ih (fun q hq => hl q (mem_cons_of_mem p hq)) hnodup hrest (by rw [hlen]; omega),
      rollOf_insert, hm, update_apply]
    have hold : rollOf ms (toAsciiLowercase p.1) = none := by simp [rollOf, hpnew]
    constructor
    · rintro (h | ⟨hv, hk⟩)
      · split at h
        next hk =>
          obtain rfl := Option.some.inj h
          exact .inr ⟨mem_cons_self, hk.symm⟩
        · exact .inl h
      · exact .inr ⟨mem_cons_of_mem p hv, hk⟩
    · rintro (h | ⟨hv, hk⟩)
      · have hne : k ≠ toAsciiLowercase p.1 := by
          rintro rfl
          simp [hold] at h
        exact .inl (by rw [if_neg hne, h])
      · rcases mem_cons.1 hv with rfl | hv
        · exact .inl (by rw [if_pos hk.symm])
        · exact .inr ⟨hv, hk⟩

/-! ## What a list of names can leave -/

theorem length_addNames_le (h : ms.entries.length ≤ maxMembers) :
    (words.foldl (Session.addName i) ms).entries.length ≤ maxMembers := by
  induction words generalizing ms with
  | nil => exact h
  | cons word words ih =>
    refine ih ?_
    simp only [Session.addName]
    split
    · exact h
    next hroom =>
      split
      · exact h
      · refine (Map.length_insert_le ..).trans ?_
        omega

theorem nick_addNames {p : Char → Prop} (hwords : ∀ w ∈ words, ∀ c ∈ w.toList, p c)
    (hms : ∀ k m, ms.lookup k = some m → ∀ c ∈ m.nick.toList, p c) :
    ∀ k m, (words.foldl (Session.addName i) ms).lookup k = some m → ∀ c ∈ m.nick.toList, p c := by
  induction words generalizing ms with
  | nil => exact hms
  | cons word words ih =>
    refine ih (fun w hw => hwords w (mem_cons_of_mem _ hw)) ?_
    simp only [Session.addName]
    split
    · exact hms
    split
    · exact hms
    intro k m hm
    rw [Map.lookup_insert] at hm
    split at hm
    next hk =>
      obtain rfl := Option.some.inj hm
      cases hold : ms.lookup (i.casemapping.normalize (i.prefixes.splitPrefixes word).2) with
      | some m => exact hms _ m hold
      | none =>
        intro c hc
        refine hwords word mem_cons_self c ?_
        have hnick := mem_of_mem_take (by simpa [Member.ofNick, takeChars] using hc)
        exact (dropWhile_sublist _).subset (by simpa [Prefixes.splitPrefixes] using hnick)
    · exact hms k m hm

namespace Session

variable {s : Session} {channel : String}

def namesRoll (s : Session) (names : String) : Roll :=
  rollOf ((Str.splitWhitespace names).foldl (addName s.isupport) ∅)

theorem namesRoll_eq_some (hs : s.Plain) {l : List (String × Bool)} (hl : ∀ p ∈ l, Sayable p.1)
    (hnodup : (l.map fun p => toAsciiLowercase p.1).Nodup) (hroom : l.length ≤ maxMembers) :
    s.namesRoll (Str.join " " (l.map fun p => shownName p.1 p.2)) k = some v ↔
      v ∈ l ∧ toAsciiLowercase v.1 = k := by
  have hwords : ∀ w ∈ l.map fun p => shownName p.1 p.2,
      w ≠ "" ∧ ∀ c ∈ w.toList, Str.isWhitespace c = false := by
    intro w hw
    obtain ⟨p, hp, rfl⟩ := mem_map.1 hw
    have h := hl p hp
    cases hop : p.2 with
    | false => exact ⟨by simpa [shownName] using h.nonempty, by simpa [shownName] using h.word⟩
    | true =>
      refine ⟨by simp [shownName], ?_⟩
      simp only [shownName, if_true, String.toList_append, mem_append]
      rintro c (hc | hc)
      · have : c = '@' := by simpa using hc
        subst this
        decide
      · exact h.word c hc
  rw [namesRoll, Str.splitWhitespace_join hwords,
    rollOf_addNames hs.mapping hs.prefixes hl hnodup (fun _ _ => by simp) (by simpa using hroom)]
  simp [rollOf]

@[simp] theorem isupport_onNamesReply : (s.onNamesReply channel names).isupport = s.isupport := by
  simp only [onNamesReply]
  split
  · rfl
  split <;> rfl

@[simp] theorem nick_onNamesReply : (s.onNamesReply channel names).nick = s.nick := by
  simp only [onNamesReply]
  split
  · rfl
  split <;> rfl

/-- A `353` outside a burst replaces the roll of a channel that is tracked or that there is room
for. -/
theorem view_onNamesReply (hs : s.Plain) (hidle : s.Idle)
    (hroom : toAsciiLowercase channel ∈ s.tracked ∨ s.tracked.card < maxChannels) :
    (s.onNamesReply channel names).view =
      update s.view (toAsciiLowercase channel) (some ⟨s.namesRoll names, true⟩) := by
  have hfill (t : Session) (c : Channel)
      (hc : t.channels.lookup (toAsciiLowercase channel) = some c)
      (f : Channel → Channel)
      (hf : (f c).view = ⟨s.namesRoll names, true⟩) :
      (t.modifyChannel (toAsciiLowercase channel) f).view =
        update t.view (toAsciiLowercase channel) (some ⟨s.namesRoll names, true⟩) := by
    have hmod : t.modifyChannel (toAsciiLowercase channel) f =
        { t with channels := t.channels.insert (toAsciiLowercase channel) (f c) } := by
      simp [modifyChannel, Map.modify, hc]
    rw [hmod, view_insert, hf]
  simp only [onNamesReply]
  rw [hs.normalize]
  split
  next htracked =>
    obtain ⟨c, hc⟩ := Option.isSome_iff_exists.1 htracked
    have hbusy : c.namesInProgress = false :=
      hidle (toAsciiLowercase channel) c.view (by simp [view, hc])
    refine hfill s c hc _ ?_
    rw [hbusy]
    rfl
  next htracked =>
    have hnew : s.tracked.card < maxChannels := by
      refine hroom.resolve_left fun h => htracked ?_
      simpa [view] using mem_tracked.1 h
    rw [if_neg (by rw [← card_tracked]; omega)]
    have hc : (s.track (toAsciiLowercase channel) channel).channels.lookup
        (toAsciiLowercase channel) = some (Channel.ofName channel) :=
      (Map.lookup_insert ..).trans (if_pos rfl)
    refine (hfill _ _ hc _ ?_).trans ?_
    · rfl
    · rw [track, view_insert, update_idem]

/-- A `353` changes no other channel. -/
theorem view_onNamesReply_of_ne (hs : s.Plain) (hne : key ≠ toAsciiLowercase channel) :
    (s.onNamesReply channel names).view key = s.view key := by
  have hmod (t : Session) (f : Channel → Channel) :
      (t.modifyChannel (toAsciiLowercase channel) f).view key = t.view key := by
    simp only [view, modifyChannel, Map.lookup_modify, if_neg hne]
  simp only [onNamesReply]
  rw [hs.normalize]
  split
  · exact hmod s _
  split
  · rfl
  · rw [hmod, track, view_insert, update_of_ne hne]

theorem onNamesReply_of_full (hs : s.Plain) (hnew : toAsciiLowercase channel ∉ s.tracked)
    (hfull : maxChannels ≤ s.tracked.card) : s.onNamesReply channel names = s := by
  have hnone : ¬(s.channels.lookup (toAsciiLowercase channel)).isSome := fun h =>
    hnew (mem_tracked.2 (by simpa [view] using h))
  simp only [onNamesReply]
  rw [hs.normalize, if_neg hnone, if_pos (by rwa [← card_tracked])]

/-! ## A list of its own -/

/-- Whether a list of names for the channel, if it comes now, starts anew: the one before it has
ended, or the channel is not tracked yet and there is room for it. -/
def StartsBurst (s : Session) (channel : String) : Prop :=
  match s.channels.lookup (s.normalize channel) with
  | some c => c.namesInProgress = false
  | none => s.channels.entries.length < maxChannels

/-- What a client shows of a channel: the nick of each member, and whether it is marked `@`. -/
def shownMembers (s : Session) (channel : String) : Multiset (String × Bool) :=
  match s.channels.lookup (s.normalize channel) with
  | some c => ((Map.values c.members).map Member.view : List (String × Bool))
  | none => 0

theorem shownMembers_onNamesReply (h : s.StartsBurst channel) :
    (s.onNamesReply channel names).shownMembers channel =
      ((Map.values ((Str.splitWhitespace names).foldl (addName s.isupport) ∅)).map Member.view :
        List (String × Bool)) := by
  have hnorm : (s.onNamesReply channel names).normalize channel = s.normalize channel := by
    rw [normalize, normalize, isupport_onNamesReply]
  unfold StartsBurst at h
  rw [shownMembers, hnorm]
  simp only [onNamesReply]
  split at h
  next c hc =>
    simp [modifyChannel, Map.lookup_modify, hc, h]
  next hc =>
    rw [if_neg (by simp [hc]), if_neg (by omega)]
    simp [modifyChannel, Map.lookup_modify, track, Channel.ofName]

end Session

end Ddirc.Client
