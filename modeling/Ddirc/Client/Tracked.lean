import Ddirc.Client.Names

/-! # Which channels a session tracks

`Session.names` reads a session as a function: for each folded name, the spelling of the channel
that is tracked under it. Only our own joins and departures change it, and a list of names for a
channel that is not tracked yet (`Session.names_receive`). -/

namespace Ddirc.Client
open Irc Function Option
open Str (takeChars)

/-- Only a letter is changed by folding its case. -/
theorem eq_of_toLower {c x : Char} (h : c.toLower = x) (hx : x.isLower = false) : c = x := by
  delta Char.toLower at h
  split at h
  next hc =>
    subst h
    have hlow := hc.1
    have hhigh := hc.2
    exfalso
    revert hx hlow hhigh
    delta Char.isLower
    simp [UInt32.le_iff_toNat_le]
    omega
  next => exact h

theorem CaseMapping.normalizeChar_eq (m : CaseMapping) (h : c.toLower = d.toLower) :
    m.normalizeChar c = m.normalizeChar d := by
  have hmark : ∀ x ∈ ['[', ']', '\\', '~'], x.toLower = x ∧ x.isLower = false := by
    simp
  by_cases hc : c ∈ ['[', ']', '\\', '~']
  · rw [eq_of_toLower (h.symm.trans (hmark c hc).1) (hmark c hc).2]
  by_cases hd : d ∈ ['[', ']', '\\', '~']
  · rw [eq_of_toLower (h.trans (hmark d hd).1) (hmark d hd).2]
  have hletter : ∀ x ∉ ['[', ']', '\\', '~'], m.normalizeChar x = x.toLower := by
    intro x hx
    simp only [List.mem_cons, not_or] at hx
    cases m <;> simp [normalizeChar, hx]
  rw [hletter c hc, hletter d hd, h]

/-- Names that differ in ASCII case are the same to every server. -/
theorem CaseMapping.normalize_eq (m : CaseMapping)
    (h : Str.eqIgnoreAsciiCase a b) : m.normalize a = m.normalize b := by
  have hmap : a.toList.map Char.toLower = b.toList.map Char.toLower := by
    have := congrArg String.toList (beq_iff_eq.1 h)
    simpa [Str.toAsciiLowercase] using this
  have hfold : ∀ l l' : List Char, l.map Char.toLower = l'.map Char.toLower →
      l.map m.normalizeChar = l'.map m.normalizeChar := by
    intro l l' hl
    have hlen : l.length = l'.length := by simpa using congrArg List.length hl
    refine List.ext_getElem (by simpa using hlen) fun i h₁ h₂ => ?_
    rw [List.getElem_map, List.getElem_map]
    refine m.normalizeChar_eq ?_
    have := List.getElem_of_eq hl (by simpa using h₁)
    simpa using this
  rw [normalize, normalize, hfold _ _ hmap]

namespace Session
variable {f : Channel → Channel} {m : Message}

variable {s : Session} {key channel nick : String}

def names (s : Session) (key : String) : Option String := (s.channels.lookup key).map (·.name)

theorem names_normalize : s.names (s.normalize channel) = (s.channel channel).map (·.name) := rfl

theorem names_modifyChannel (hf : ∀ c, (f c).name = c.name) :
    (s.modifyChannel key f).names = s.names := by
  funext k
  simp only [names, modifyChannel, Map.lookup_modify]
  split
  · rw [map_map]
    congr 1
    funext c
    exact hf c
  · rfl

theorem names_mapChannels (hf : ∀ c, (f c).name = c.name) : (s.mapChannels f).names = s.names := by
  funext k
  simp only [names, mapChannels, Map.lookup_mapVal, map_map]
  congr 1
  funext c
  exact hf c

theorem names_addMember : (s.addMember key nick).1.names = s.names := by
  funext k
  simp only [addMember]
  split
  · rfl
  next c hc =>
  split
  · rfl
  simp only [names, Map.lookup_insert]
  split
  next hk => rw [hk, hc]; rfl
  next => rfl

theorem names_track :
    (s.track key name).names = update s.names key (some (takeChars maxChannelName name)) := by
  funext k
  simp only [names, track, Map.lookup_insert, update_apply]
  split <;> rfl

/-- A channel is tracked under this name, spelled so up to ASCII case. -/
def tracks (s : Session) (name : String) : Bool :=
  (s.channel name).any fun c => Str.eqIgnoreAsciiCase name c.name

theorem tracks_iff : s.tracks channel ↔
    ∃ t, s.names (s.normalize channel) = some t ∧ Str.eqIgnoreAsciiCase channel t := by
  rw [names_normalize, tracks]
  cases s.channel channel <;> simp

/-- Every channel is tracked under its own name. -/
def Filed (s : Session) : Prop := ∀ key t, s.names key = some t → s.normalize t = key

theorem Filed.tracks (h : s.Filed) (ht : s.names key = some channel) : s.tracks channel :=
  tracks_iff.2 ⟨channel, by rw [h key channel ht]; exact ht, Str.eqIgnoreAsciiCase_iff.2 rfl⟩

def arrives (s : Session) (m : Message) : Option String :=
  if s.channels.entries.length ≥ maxChannels then none
  else match m.command, m.sourceNickname with
    | .join channel _ _, some nick => if s.isSelf nick then some channel else none
    | .response .rplNamReply args, _ => if args[3]?.isSome then args[2]? else none
    | _, _ => none

def departs (s : Session) (m : Message) : Option String :=
  match m.command, m.sourceNickname with
  | .part channel _, some nick => if s.isSelf nick then some channel else none
  | .kick channel victim _, _ => if s.isSelf victim then some channel else none
  | _, _ => none

/-- The message neither ends our whole session nor changes how tracked channels are compared. -/
def settled (s : Session) (m : Message) : Bool :=
  match m.command, m.sourceNickname with
  | .quit _, some nick => !s.isSelf nick
  | .response .rplISupport args, _ =>
    (s.isupport.apply args).casemapping = s.isupport.casemapping || s.channels.entries.isEmpty
  | _, _ => true

/-- The channels tracked after `channel` may have been added. -/
def namesWith (s : Session) (channel : Option String) (key : String) : Option String :=
  (s.names key).or ((channel.filter (s.normalize · = key)).map (takeChars maxChannelName))

theorem namesWith_none : s.namesWith none = s.names := by
  funext k
  simp [namesWith]

theorem names_track_of_new (hnew : s.channels.lookup (s.normalize channel) = none) :
    (s.track (s.normalize channel) channel).names = s.namesWith (some channel) := by
  funext k
  rw [names_track, update_apply, namesWith]
  split
  next hk =>
    have hnone : s.names k = none := by rw [hk, names, hnew]; rfl
    rw [hnone, hk]
    simp
  next hk => simp [Option.filter, Ne.symm hk]

theorem namesWith_of_tracked (h : (s.channels.lookup (s.normalize channel)).isSome) :
    s.namesWith (some channel) = s.names := by
  funext k
  rw [namesWith]
  obtain ⟨c, hc⟩ := isSome_iff_exists.1 h
  by_cases hk : s.normalize channel = k
  · have hsome : s.names k = some c.name := by rw [← hk, names, hc]; rfl
    simp [hsome]
  · simp [Option.filter, hk]

theorem names_onJoin : (s.onJoin channel nick).1.names =
    s.namesWith (if s.channels.entries.length ≥ maxChannels then none
      else if s.isSelf nick then some channel else none) := by
  simp only [onJoin]
  split
  next htracked =>
    rw [names_addMember]
    repeat' split
    · exact namesWith_none.symm
    · exact (namesWith_of_tracked htracked).symm
    · exact namesWith_none.symm
  next hnew =>
  split
  next hclosed =>
    repeat' split
    · exact namesWith_none.symm
    next hroom hself => simp [hself, hroom] at hclosed
    · exact namesWith_none.symm
  next hopen =>
    rw [not_or, Bool.not_eq_true', Bool.not_eq_false] at hopen
    rw [if_neg hopen.2, if_pos hopen.1, names_addMember]
    exact names_track_of_new (not_isSome_iff_eq_none.1 hnew)

theorem names_onNamesReply (text : String) : (s.onNamesReply channel text).names =
    s.namesWith (if s.channels.entries.length ≥ maxChannels then none else some channel) := by
  simp only [onNamesReply]
  split
  next htracked =>
    refine (names_modifyChannel ?_).trans ?_
    · exact fun _ => rfl
    split
    · exact namesWith_none.symm
    · exact (namesWith_of_tracked htracked).symm
  next hnew =>
  split
  next => exact namesWith_none.symm
  next =>
    refine (names_modifyChannel ?_).trans ?_
    · exact fun _ => rfl
    · exact names_track_of_new (not_isSome_iff_eq_none.1 hnew)

theorem names_onPart : (s.onPart channel nick).1.names =
    if s.isSelf nick then update s.names (s.normalize channel) none else s.names := by
  simp only [onPart]
  split
  · funext k
    simp only [names, Map.lookup_erase, update_apply]
    split <;> rfl
  · exact names_modifyChannel fun _ => rfl

theorem names_onMode (modes : String) (params : List String) :
    (s.onMode channel modes params).1.names = s.names := by
  simp only [onMode]
  split
  · rfl
  next c hc =>
  funext k
  simp only [names, Map.lookup_insert]
  split
  next hk => rw [hk, hc]; rfl
  next => rfl

theorem names_of_isEmpty (h : s.channels.entries.isEmpty) : s.names = fun _ => none := by
  funext k
  have hnone : s.channels.lookup k = none := by
    rw [List.isEmpty_iff] at h
    rw [eq_none_iff_forall_ne_some]
    intro c hc
    have := Map.mem_entries_iff.2 hc
    rw [h] at this
    cases this
  rw [names, hnone]
  rfl

theorem names_onIsupport (h : (s.isupport.apply args).casemapping = s.isupport.casemapping ∨
      s.channels.entries.isEmpty) : (s.onIsupport args).names = s.names := by
  simp only [onIsupport]
  split
  next hne =>
    have hempty := h.resolve_left hne
    have hentries : s.channels.entries = [] := List.isEmpty_iff.1 hempty
    rw [names_of_isEmpty hempty]
    refine names_of_isEmpty ?_
    simp [rekey, Map.values, hentries]
  next => rfl

/-- The channels tracked after one may have been left and one may have been added. -/
def namesAfter (s : Session) (left added : Option String) (key : String) : Option String :=
  if left.map s.normalize = some key then none else s.namesWith added key

theorem namesAfter_none : s.namesAfter none none = s.names := namesWith_none

theorem names_onPart_eq_namesAfter : (s.onPart channel nick).1.names =
    s.namesAfter (if s.isSelf nick then some channel else none) none := by
  rw [names_onPart]
  funext k
  rw [namesAfter, namesWith_none]
  split
  · simp only [update_apply, map_some, Option.some.injEq, eq_comm]
  · rfl

theorem names_onQuit (h : s.isSelf nick = false) : (s.onQuit nick).1.names = s.names := by
  simp only [onQuit, h]
  exact names_mapChannels fun _ => rfl

theorem names_onNickChange : (s.onNickChange old new).1.names = s.names := by
  refine (names_mapChannels ?_).trans ?_
  · exact fun _ => rfl
  · split <;> rfl

theorem names_receive (h : s.settled m) :
    (s.receive m).names = s.namesAfter (s.departs m) (s.arrives m) := by
  have hsame : (s.receive m).names = s.names → s.departs m = none → s.arrives m = none →
      (s.receive m).names = s.namesAfter (s.departs m) (s.arrives m) := by
    intro hnames hdeparts harrives
    rw [hnames, hdeparts, harrives, namesAfter_none]
  obtain ⟨tags, source, command⟩ := m
  cases command with
  | response r args =>
    cases r with
    | rplWelcome =>
      refine hsame ?_ rfl (ite_self _)
      simp only [receive]
      cases args.head? <;> rfl
    | rplISupport =>
      simp only [settled, Bool.or_eq_true, decide_eq_true_eq] at h
      exact hsame (names_onIsupport h) rfl (ite_self _)
    | rplNamReply =>
      simp only [receive, departs, arrives]
      cases args[2]? with
      | none => simp [namesAfter_none]
      | some channel =>
        cases args[3]? with
        | none => simp [namesAfter_none]
        | some text =>
          exact names_onNamesReply text
    | rplEndOfNames =>
      refine hsame ?_ rfl (ite_self _)
      simp only [receive]
      cases args[1]? with
      | none => rfl
      | some channel => exact names_modifyChannel fun _ => rfl
    | rplTopic =>
      refine hsame ?_ rfl (ite_self _)
      simp only [receive]
      split
      · exact names_modifyChannel fun _ => rfl
      · rfl
    | _ => exact hsame rfl rfl (ite_self _)
  | join channel keys real =>
    rcases source with _ | ⟨nick, user, host⟩ | name
    · exact hsame rfl rfl (ite_self _)
    · exact names_onJoin
    · exact hsame rfl rfl (ite_self _)
  | part channel reason =>
    rcases source with _ | ⟨nick, user, host⟩ | name
    · exact hsame rfl rfl (ite_self _)
    · rw [arrives, ite_self]
      exact names_onPart_eq_namesAfter
    · exact hsame rfl rfl (ite_self _)
  | kick channel victim reason =>
    rw [arrives, ite_self]
    exact names_onPart_eq_namesAfter
  | quit reason =>
    rcases source with _ | ⟨nick, user, host⟩ | name
    · exact hsame rfl rfl (ite_self _)
    · exact hsame (names_onQuit (by simpa [settled, Message.sourceNickname] using h)) rfl
        (ite_self _)
    · exact hsame rfl rfl (ite_self _)
  | nick new =>
    rcases source with _ | ⟨old, user, host⟩ | name
    · exact hsame rfl rfl (ite_self _)
    · exact hsame names_onNickChange rfl (ite_self _)
    · exact hsame rfl rfl (ite_self _)
  | away message =>
    rcases source with _ | ⟨nick, user, host⟩ | name
    · exact hsame rfl rfl (ite_self _)
    · exact hsame (names_mapChannels fun _ => rfl) rfl (ite_self _)
    · exact hsame rfl rfl (ite_self _)
  | topic channel topic =>
    cases topic with
    | none => exact hsame rfl rfl (ite_self _)
    | some topic => exact hsame (names_modifyChannel fun _ => rfl) rfl (ite_self _)
  | channelMode channel modes => exact hsame (names_onMode ..) rfl (ite_self _)
  | _ => exact hsame rfl rfl (ite_self _)

theorem isupport_receive (h : ∀ args, m.command ≠ .response .rplISupport args) :
    (s.receive m).isupport = s.isupport := by
  unfold receive
  split
  next args _ => cases args.head? <;> rfl
  next args hm => exact absurd hm (h args)
  next =>
    split
    · simp only [onNamesReply]
      repeat' split
      all_goals rfl
    · rfl
  next args _ => cases args[1]? <;> rfl
  next => split <;> rfl
  next => rfl
  next => exact isupport_onJoin
  next => exact isupport_onPart
  next => exact isupport_onPart
  next => exact isupport_onQuit
  next => exact isupport_onNickChange
  next => rfl
  next => exact isupport_onModes
  next => rfl

theorem nick_receive (hwelcome : ∀ args, m.command ≠ .response .rplWelcome args)
    (hnick : ∀ new, m.command ≠ .nick new) : (s.receive m).nick = s.nick := by
  unfold receive
  split
  next args hm => exact absurd hm (hwelcome args)
  next =>
    simp only [onIsupport]
    split <;> rfl
  next =>
    split
    · exact nick_onNamesReply
    · rfl
  next args _ => cases args[1]? <;> rfl
  next => split <;> rfl
  next => rfl
  next => exact nick_onJoin
  next => exact nick_onPart
  next => exact nick_onPart
  next => exact nick_onQuit
  next new old hm _ => exact absurd hm (hnick new)
  next => rfl
  next => exact nick_onModes
  next => rfl

end Session

end Ddirc.Client
