import Mathlib.Logic.Function.Basic
import Ddirc.Client.Session

/-! # What a session shows of its channels

`Session.view` reads a session as a function: for each folded channel name, how each member of the
channel is spelled and whether it holds `@`. On a server whose case mapping is ASCII and whose only
prefix is `@` (`Session.Plain`), each handler is a pointwise update of that function. -/

namespace Ddirc.Client
open Irc Function
open Str (toAsciiLowercase takeChars)

/-- The members of a channel under their folded nicks: the spelling, and whether `@` is held. -/
abbrev Roll := String → Option (String × Bool)

structure View where
  roll : Roll
  busy : Bool

def Member.view (m : Member) : String × Bool := (m.nick, decide ('@' ∈ m.prefixes))

def rollOf (members : Map String Member) : Roll := fun k => (members.lookup k).map Member.view

def Channel.view (c : Channel) : View := ⟨rollOf c.members, c.namesInProgress⟩

namespace View

def set (v : View) (k : String) (m : Option (String × Bool)) : View :=
  { v with roll := update v.roll k m }

def rename (v : View) (old new shown : String) : View :=
  match v.roll old with
  | none => v
  | some m => { v with roll := update (update v.roll old none) new (some (shown, m.2)) }

def mark (v : View) (k : String) (give : Bool) : View :=
  { v with roll := update v.roll k ((v.roll k).map fun m => (m.1, give)) }

end View

theorem rollOf_insert :
    rollOf (members.insert k m) = update (rollOf members) k (some m.view) := by
  funext k'
  simp only [rollOf, Map.lookup_insert, update_apply]
  split <;> rfl

theorem rollOf_erase :
    rollOf (members.erase k) = update (rollOf members) k none := by
  funext k'
  simp only [rollOf, Map.lookup_erase, update_apply]
  split <;> rfl

namespace Session
variable {f : Channel → Channel} {g : View → View}

variable {s : Session} {key channel nick : String}

def view (s : Session) (key : String) : Option View := (s.channels.lookup key).map Channel.view

def tracked (s : Session) : Finset String := s.channels.keys.toFinset

theorem mem_tracked : key ∈ s.tracked ↔ (s.view key).isSome := by
  rw [tracked, List.mem_toFinset, ← AList.mem_keys, view, Option.isSome_map, AList.lookup_isSome]

theorem tracked_congr {t : Session} (h : t.view = s.view) : t.tracked = s.tracked :=
  Finset.ext fun _ => by rw [mem_tracked, mem_tracked, h]

theorem card_tracked : s.tracked.card = s.channels.entries.length := by
  rw [tracked, List.toFinset_card_of_nodup s.channels.keys_nodup, AList.keys, List.keys,
    List.length_map]

/-- The server compares names by ASCII folding, and its one prefix is `@`, for `o`. -/
structure Plain (s : Session) : Prop where
  mapping : s.isupport.casemapping = .ascii
  prefixes : s.isupport.prefixes = ⟨[('o', '@')]⟩

theorem Plain.congr (h : s.Plain) {s' : Session} (hi : s'.isupport = s.isupport) : s'.Plain :=
  ⟨hi ▸ h.mapping, hi ▸ h.prefixes⟩

theorem Plain.normalize (h : s.Plain) (name : String) :
    s.normalize name = toAsciiLowercase name := by
  rw [Session.normalize, h.mapping]
  rfl

theorem Plain.isSelf (h : s.Plain) (nick : String) :
    s.isSelf nick = decide (toAsciiLowercase nick = toAsciiLowercase s.nick) := by
  rw [Session.isSelf, h.mapping]
  rfl

/-! ## Writing -/

theorem view_modifyChannel (h : ∀ c, (f c).view = g c.view) (key : String) :
    (s.modifyChannel key f).view = update s.view key ((s.view key).map g) := by
  funext key'
  simp only [view, modifyChannel, Map.lookup_modify, update_apply]
  split
  next hk =>
    subst hk
    cases s.channels.lookup key' <;> simp [h]
  · rfl

theorem view_mapChannels (h : ∀ c, (f c).view = g c.view) :
    (s.mapChannels f).view = fun key => (s.view key).map g := by
  funext key
  simp only [view, mapChannels, Map.lookup_mapVal]
  cases s.channels.lookup key <;> simp [h]

theorem view_insert :
    view { s with channels := s.channels.insert key c } = update s.view key (some c.view) := by
  funext key'
  simp only [view, Map.lookup_insert, update_apply]
  split <;> rfl

/-! ## Comings and goings -/

@[simp] theorem isupport_addMember : (s.addMember key nick).1.isupport = s.isupport := by
  simp only [addMember]
  split
  · rfl
  split <;> rfl

@[simp] theorem nick_addMember : (s.addMember key nick).1.nick = s.nick := by
  simp only [addMember]
  split
  · rfl
  split <;> rfl

@[simp] theorem isupport_onJoin : (s.onJoin channel nick).1.isupport = s.isupport := by
  simp only [onJoin]
  split
  · exact isupport_addMember
  split
  · rfl
  · exact isupport_addMember

@[simp] theorem nick_onJoin : (s.onJoin channel nick).1.nick = s.nick := by
  simp only [onJoin]
  split
  · exact nick_addMember
  split
  · rfl
  · exact nick_addMember

theorem view_addMember (hs : s.Plain) (hc : s.channels.lookup key = some c)
    (hroom : c.members.entries.length < maxMembers) :
    (s.addMember key nick).1.view = update s.view key ((s.view key).map
      (·.set (toAsciiLowercase nick) (some (takeChars maxNick nick, false)))) := by
  have hfull : ¬(c.members.entries.length ≥ maxMembers ∧
      (c.members.lookup (s.normalize nick)).isNone) := fun h => absurd hroom (not_lt.2 h.1)
  simp only [addMember, hc, hfull, if_false, view_insert, hs.normalize]
  simp [view, hc, Channel.view, View.set, rollOf_insert, Member.view, Member.ofNick]

/-- A full channel takes nobody, and otherwise only the channel changes. -/
theorem view_addMember_of_ne (hne : key' ≠ key) :
    (s.addMember key nick).1.view key' = s.view key' := by
  simp only [addMember]
  split
  · rfl
  split
  · rfl
  · simp [view_insert, hne]

theorem isSome_view_addMember :
    ((s.addMember key nick).1.view key').isSome = (s.view key').isSome := by
  simp only [addMember]
  split
  · rfl
  next c hc =>
    split
    · rfl
    · simp only [view_insert, update_apply]
      split
      next hk =>
        subst hk
        simp [view, hc]
      · rfl

theorem busy_view_addMember (hv : (s.addMember key nick).1.view key' = some v') :
    ∃ v, s.view key' = some v ∧ v'.busy = v.busy := by
  simp only [addMember] at hv
  split at hv
  · exact ⟨v', hv, rfl⟩
  next c hc =>
    split at hv
    · exact ⟨v', hv, rfl⟩
    · simp only [view_insert, update_apply] at hv
      split at hv
      next hk =>
        obtain rfl := Option.some.inj hv
        subst hk
        exact ⟨c.view, by simp [view, hc], rfl⟩
      · exact ⟨v', hv, rfl⟩

theorem view_onJoin (hs : s.Plain) (hc : s.channels.lookup (toAsciiLowercase channel) = some c)
    (hroom : c.members.entries.length < maxMembers) :
    (s.onJoin channel nick).1.view = update s.view (toAsciiLowercase channel)
      ((s.view (toAsciiLowercase channel)).map
        (·.set (toAsciiLowercase nick) (some (takeChars maxNick nick, false)))) := by
  simp only [onJoin]
  rw [hs.normalize, if_pos (by simp [hc])]
  exact view_addMember hs hc hroom

/-- After our own join the channel is tracked, if it was or there was room for it. -/
theorem view_onJoin_self (hs : s.Plain) (hself : s.isSelf nick)
    (hroom : toAsciiLowercase channel ∈ s.tracked ∨ s.tracked.card < maxChannels) :
    ((s.onJoin channel nick).1.view (toAsciiLowercase channel)).isSome ∧
    (∀ key ≠ toAsciiLowercase channel, (s.onJoin channel nick).1.view key = s.view key) := by
  simp only [onJoin]
  rw [hs.normalize]
  split
  next htracked =>
    rw [isSome_view_addMember]
    exact ⟨by simpa [view] using htracked, fun key hne => view_addMember_of_ne hne⟩
  next htracked =>
    have hnew : s.tracked.card < maxChannels := by
      refine hroom.resolve_left fun h => htracked ?_
      simpa [view] using mem_tracked.1 h
    have hopen : ¬((!s.isSelf nick) ∨ s.channels.entries.length ≥ maxChannels) := by
      rw [← card_tracked]
      simp [hself, hnew]
    rw [if_neg hopen, isSome_view_addMember]
    refine ⟨by simp [track, view_insert], fun key hne => ?_⟩
    rw [view_addMember_of_ne hne, track, view_insert, update_of_ne hne]

theorem onJoin_of_full (hs : s.Plain) (hnew : toAsciiLowercase channel ∉ s.tracked)
    (hfull : maxChannels ≤ s.tracked.card) : (s.onJoin channel nick).1 = s := by
  have hnone : ¬(s.channels.lookup (toAsciiLowercase channel)).isSome := fun h =>
    hnew (mem_tracked.2 (by simpa [view] using h))
  simp only [onJoin]
  rw [hs.normalize, if_neg hnone, if_pos (.inr (by rwa [← card_tracked]))]

def Idle (s : Session) : Prop := ∀ key v, s.view key = some v → v.busy = false

theorem Idle.onJoin (h : s.Idle) : (s.onJoin channel nick).1.Idle := by
  have hadd {s : Session} (h : s.Idle) (key : String) : (s.addMember key nick).1.Idle := by
    intro key' v hv
    obtain ⟨w, hw, hb⟩ := busy_view_addMember hv
    exact hb.trans (h key' w hw)
  simp only [Session.onJoin]
  split
  · exact hadd h _
  split
  · exact h
  · refine hadd ?_ _
    intro key v hv
    rw [track, view_insert, update_apply] at hv
    split at hv
    · obtain rfl := Option.some.inj hv
      rfl
    · exact h key v hv

theorem view_onPart_self (hs : s.Plain) (hself : s.isSelf nick) :
    (s.onPart channel nick).1.view = update s.view (toAsciiLowercase channel) none := by
  funext key
  simp only [onPart, hself, if_true, view, Map.lookup_erase, hs.normalize, update_apply]
  split <;> rfl

theorem view_onPart (hs : s.Plain) (hself : s.isSelf nick = false) :
    (s.onPart channel nick).1.view = update s.view (toAsciiLowercase channel)
      ((s.view (toAsciiLowercase channel)).map (·.set (toAsciiLowercase nick) none)) := by
  simp only [onPart, hself, hs.normalize]
  refine view_modifyChannel (fun c => ?_) _
  simp [Channel.view, View.set, rollOf_erase]

theorem view_onQuit (hs : s.Plain) (hself : s.isSelf nick = false) :
    (s.onQuit nick).1.view =
      fun key => (s.view key).map (·.set (toAsciiLowercase nick) none) := by
  simp only [onQuit, hself, hs.normalize]
  refine view_mapChannels fun c => ?_
  simp [Channel.view, View.set, rollOf_erase]

@[simp] theorem isupport_onPart : (s.onPart channel nick).1.isupport = s.isupport := by
  simp only [onPart]
  split <;> rfl

@[simp] theorem nick_onPart : (s.onPart channel nick).1.nick = s.nick := by
  simp only [onPart]
  split <;> rfl

@[simp] theorem isupport_onQuit : (s.onQuit nick).1.isupport = s.isupport := by
  simp only [onQuit]
  split <;> rfl

@[simp] theorem nick_onQuit : (s.onQuit nick).1.nick = s.nick := by
  simp only [onQuit]
  split <;> rfl

theorem rollOf_renameMember :
    rollOf (renameMember old new shown members) = match rollOf members old with
      | none => rollOf members
      | some m => update (update (rollOf members) old none) new (some (shown, m.2)) := by
  unfold renameMember
  cases h : members.lookup old with
  | none => simp [rollOf, h]
  | some m =>
    have hold : rollOf members old = some m.view := by simp [rollOf, h]
    simp only [hold, rollOf_insert, rollOf_erase]
    rfl

@[simp] theorem isupport_onNickChange : (s.onNickChange old new).1.isupport = s.isupport := by
  simp only [onNickChange]
  split <;> rfl

theorem nick_onNickChange : (s.onNickChange old new).1.nick =
    if s.isSelf old then takeChars maxNick new else s.nick := by
  simp only [onNickChange]
  split <;> rfl

theorem view_onNickChange (hs : s.Plain) : (s.onNickChange old new).1.view =
    fun key => (s.view key).map
      (·.rename (toAsciiLowercase old) (toAsciiLowercase new) (takeChars maxNick new)) := by
  have hview (c : Channel) (o n shown : String) :
      ({ c with members := renameMember o n shown c.members } : Channel).view =
        c.view.rename o n shown := by
    simp only [Channel.view, rollOf_renameMember, View.rename]
    cases rollOf c.members o <;> rfl
  simp only [onNickChange]
  split
  · have hs' : (s.setNick new).Plain := hs.congr rfl
    simp only [hs'.normalize]
    exact view_mapChannels fun c => hview c ..
  · simp only [hs.normalize]
    exact view_mapChannels fun c => hview c ..

/-! ## Topics, ranks and names -/

@[simp] theorem view_onTopic : (s.onTopic channel topic).view = s.view := by
  have h := view_modifyChannel (s := s) (g := fun v => v)
    (f := ({ · with topic := some (takeChars maxTopic topic) })) (fun _ => rfl)
    (s.normalize channel)
  rw [onTopic, h]
  simp

theorem view_onEndOfNames (hs : s.Plain) : (s.onEndOfNames channel).view =
    update s.view (toAsciiLowercase channel)
      ((s.view (toAsciiLowercase channel)).map ({ · with busy := false })) := by
  rw [onEndOfNames, hs.normalize]
  exact view_modifyChannel (fun c => rfl) _

theorem rollOf_setPrefix (members : Map String Member) (k : String) (give : Bool) :
    rollOf (setPrefix members k '@' give) =
      update (rollOf members) k ((rollOf members k).map fun m => (m.1, give)) := by
  funext k'
  simp only [rollOf, setPrefix, Map.lookup_modify, update_apply]
  split
  next hk =>
    subst hk
    cases members.lookup k' with
    | none => rfl
    | some m => cases give <;> simp [Member.view]
  · rfl

theorem rollOf_modeLoop (hmap : i.casemapping = .ascii) (hpre : i.prefixes = ⟨[('o', '@')]⟩)
    (members : Map String Member) (give : Bool) :
    rollOf (modeLoop i [if give then '+' else '-', 'o'] [nick] true members).1 =
      update (rollOf members) (toAsciiLowercase nick)
        ((rollOf members (toAsciiLowercase nick)).map fun m => (m.1, give)) := by
  have hnorm : i.casemapping.normalize nick = toAsciiLowercase nick := by
    rw [hmap]
    rfl
  have hmode : i.prefixes.isPrefixMode 'o' := by rw [hpre]; decide
  have hmark : i.prefixes.prefixForMode 'o' = some '@' := by rw [hpre]; decide
  have hone : rollOf (modeLoop i ['o'] [nick] give members).1 =
      update (rollOf members) (toAsciiLowercase nick)
        ((rollOf members (toAsciiLowercase nick)).map fun m => (m.1, give)) := by
    simp only [modeLoop, hmode, hmark, if_true]
    rw [hnorm]
    cases hm : members.lookup (toAsciiLowercase nick) with
    | none =>
      have hnone : rollOf members (toAsciiLowercase nick) = none := by simp [rollOf, hm]
      simp [hnone]
    | some m => exact rollOf_setPrefix members (toAsciiLowercase nick) give
  cases give with
  | true => simpa [modeLoop] using hone
  | false => simpa [modeLoop] using hone

theorem view_onModes (hs : s.Plain) (give : Bool) :
    (s.onModes channel [if give then .plus 'o' (some nick) else .minus 'o' (some nick)]).1.view =
      update s.view (toAsciiLowercase channel)
        ((s.view (toAsciiLowercase channel)).map (·.mark (toAsciiLowercase nick) give)) := by
  have hstring : (String.ofList (modeString none
      [if give then .plus 'o' (some nick) else .minus 'o' (some nick)])).toList =
        [if give then '+' else '-', 'o'] := by
    cases give <;> simp [modeString, modeParts]
  have hparams : modeParams [if give then .plus 'o' (some nick) else .minus 'o' (some nick)] =
      [nick] := by
    cases give <;> rfl
  simp only [onModes, onMode, hparams, hstring]
  rw [hs.normalize]
  cases hc : s.channels.lookup (toAsciiLowercase channel) with
  | none =>
    have hnone : s.view (toAsciiLowercase channel) = none := by simp [view, hc]
    rw [hnone]
    exact (update_eq_self_iff.2 hnone.symm).symm
  | some c =>
    rw [view_insert]
    simp [view, hc, Channel.view, View.mark, rollOf_modeLoop hs.mapping hs.prefixes]

@[simp] theorem isupport_onModes : (s.onModes channel modes).1.isupport = s.isupport := by
  simp only [onModes, onMode]
  split <;> rfl

@[simp] theorem nick_onModes : (s.onModes channel modes).1.nick = s.nick := by
  simp only [onModes, onMode]
  split <;> rfl

end Session

end Ddirc.Client
