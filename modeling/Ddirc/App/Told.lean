import Ddirc.Client.Tracked
import Ddirc.Conn.Report
import Ddirc.App.Channels

/-! # Which channels the events of a message mention

Where a message spells the channel it is about as the core has it, and says nothing about channels
that the core is not in (`clear`), every event about it mentions a channel that is tracked
(`told_report`), and our own departure is told as such (`report_of_departs`). -/

namespace Ddirc.App
open List Option Bool
open Api Irc Conn
open Client.Session (names_normalize names_receive namesAfter namesWith names_of_isEmpty tracks_iff
  departs onPart onIsupport onJoin)

def named (m : Message) : Option String :=
  match m.command with
  | .join channel _ _ | .part channel _ | .kick channel _ _ | .channelMode channel _
  | .topic channel _ => some channel
  | .response .rplTopic args => args[1]?
  | .response .rplNamReply args => args[2]?
  | _ => none

/-- The message spells the channel as it is tracked, and speaks of channels that are. `joins` are
the channels we asked to be in. -/
def clear (s : Client.Session) (joins : List String) (m : Message) : Bool :=
  s.settled m &&
  (named m).all (fun channel => Str.takeChars Client.maxChannelName channel = channel &&
    (s.channel channel).all fun c => Str.eqIgnoreAsciiCase channel c.name) &&
  match m.command, m.sourceNickname with
  | .join channel _ _, some nick =>
    !s.isSelf nick ||
      ((s.channel channel).isSome || s.channels.entries.length < Client.maxChannels) &&
      joins.all fun j => s.normalize j ≠ s.normalize channel || Str.eqIgnoreAsciiCase channel j
  | .topic channel (some _), _ => (s.channel channel).isSome
  | .response .rplTopic args, _ => args[2]?.isNone || args[1]?.all fun c => (s.channel c).isSome
  | .privmsg target _, some sender | .notice target _, some sender =>
    if s.isSelf target then !Session.looksLikeChannel sender else s.tracks target
  | _, _ => true

section
variable {s : Client.Session} {m : Message} {joins : List String}
variable {nick : String} {offer : Nat}

theorem settled_of_clear (h : clear s joins m = true) : s.settled m = true := by
  simp only [clear, and_eq_true] at h
  exact h.1.1

theorem spelled_of_clear (h : clear s joins m) (hm : named m = some channel) :
    Str.takeChars Client.maxChannelName channel = channel ∧
      ∀ t, s.names (s.normalize channel) = some t → Str.eqIgnoreAsciiCase channel t := by
  simp only [clear, and_eq_true] at h
  have hall := h.1.2
  rw [hm, all_some, and_eq_true, decide_eq_true_eq] at hall
  refine ⟨hall.1, fun t ht => ?_⟩
  rw [names_normalize] at ht
  obtain ⟨c, hc, rfl⟩ := map_eq_some_iff.1 ht
  rw [hc] at hall
  exact hall.2

theorem names_of_channel (hc : s.channel channel = some c) :
    s.names (s.normalize channel) = some c.name := by
  rw [names_normalize, hc]
  rfl

theorem named_of_arrives (h : s.arrives m = some channel) : named m = some channel := by
  simp only [Client.Session.arrives] at h
  split at h
  · cases h
  split at h
  next hm _ =>
    rw [named, hm]
    exact (ite_none_right_eq_some.1 h).2
  next hm =>
    rw [named, hm]
    exact (ite_none_right_eq_some.1 h).2
  · cases h

theorem named_of_departs (h : s.departs m = some channel) : named m = some channel := by
  simp only [departs] at h
  split at h
  next hm _ =>
    rw [named, hm]
    exact (ite_none_right_eq_some.1 h).2
  next hm =>
    rw [named, hm]
    exact (ite_none_right_eq_some.1 h).2
  · cases h

/-- Names are compared after a message as they were before, or nothing is tracked. -/
theorem normalize_receive (h : s.settled m) :
    (s.receive m).normalize = s.normalize ∨
      s.names = (fun _ => none) ∧ (s.receive m).names = fun _ => none := by
  by_cases hm : ∃ args, m.command = .response .rplISupport args
  · obtain ⟨args, hm⟩ := hm
    have hreceive : s.receive m = s.onIsupport args := by simp only [Client.Session.receive, hm]
    simp only [Client.Session.settled, hm, or_eq_true, decide_eq_true_eq] at h
    rw [hreceive]
    rcases h with hmap | hempty
    · refine .inl (funext fun n => ?_)
      have hsame : (s.onIsupport args).isupport.casemapping = s.isupport.casemapping := by
        rw [onIsupport]
        split <;> exact hmap
      rw [Client.Session.normalize, hsame]
      rfl
    · refine .inr ⟨names_of_isEmpty hempty, ?_⟩
      rw [Client.Session.names_onIsupport (.inr hempty), names_of_isEmpty hempty]
  · refine .inl (funext fun n => ?_)
    rw [Client.Session.normalize, Client.Session.isupport_receive fun args hargs =>
      hm ⟨args, hargs⟩]
    rfl

theorem names_receive_eq_some (h : clear s joins m) (ht : (s.receive m).names key = some t) :
    (s.receive m).normalize = s.normalize ∧
      (s.names key = some t ∨ named m = some t ∧ s.normalize t = key) := by
  rcases normalize_receive (settled_of_clear h) with hnorm | ⟨-, hnone⟩
  · refine ⟨hnorm, ?_⟩
    rw [names_receive (settled_of_clear h), namesAfter] at ht
    split at ht
    · cases ht
    rw [namesWith, or_eq_some_iff] at ht
    refine ht.imp_right fun hnew => ?_
    replace ht := hnew.2
    obtain ⟨channel, hchannel, rfl⟩ := map_eq_some_iff.1 ht
    obtain ⟨harrives, hkey⟩ := filter_eq_some_iff.1 hchannel
    have hm := named_of_arrives harrives
    rw [(spelled_of_clear h hm).1]
    exact ⟨hm, of_decide_eq_true hkey⟩
  · rw [hnone] at ht
    cases ht

theorem filed_receive (hs : s.Filed) (h : clear s joins m = true) : (s.receive m).Filed := by
  intro key t ht
  obtain ⟨hnorm, ht | ⟨-, ht⟩⟩ := names_receive_eq_some h ht
  · rw [hnorm]
    exact hs key t ht
  · rw [hnorm]
    exact ht

theorem tracks_receive (h : clear s joins m) (hn : s.tracks n)
    (hleft : ∀ channel, s.departs m = some channel → s.normalize channel ≠ s.normalize n) :
    (s.receive m).tracks n := by
  obtain ⟨t, ht, hspelled⟩ := tracks_iff.1 hn
  rcases normalize_receive (settled_of_clear h) with hnorm | ⟨hnone, -⟩
  · refine tracks_iff.2 ⟨t, ?_, hspelled⟩
    rw [names_receive (settled_of_clear h), namesAfter, hnorm, if_neg,
      namesWith, ht]
    · rfl
    · rintro hdeparts
      obtain ⟨channel, hchannel, hkey⟩ := map_eq_some_iff.1 hdeparts
      exact hleft channel hchannel hkey
  · rw [hnone] at ht
    cases ht

/-- The channel that a message is about is tracked as the message spells it. -/
theorem tracks_named (h : clear s joins m = true) (hm : named m = some channel)
    (hsome : ((s.receive m).channel channel).isSome = true) :
    (s.receive m).tracks channel = true := by
  obtain ⟨c, hc⟩ := isSome_iff_exists.1 hsome
  have ht := names_of_channel hc
  refine tracks_iff.2 ⟨c.name, ht, ?_⟩
  obtain ⟨hnorm, hold | ⟨hm', -⟩⟩ := names_receive_eq_some h ht
  · exact (spelled_of_clear h hm).2 c.name (hnorm ▸ hold)
  · rw [hm, Option.some.injEq] at hm'
    rw [hm']
    exact Str.eqIgnoreAsciiCase_iff.2 rfl

/-! ## Events -/

variable {u : Platform}

/-- The event closes nothing, and what it mentions is tracked. -/
def Told (s : Client.Session) (e : IrcEvent) : Prop :=
  closes e = none ∧ ∀ n ∈ mentions e, s.tracks n = true

theorem told_of_mentions (htracks : s.tracks channel = true) (hcloses : closes e = none)
    (hmentions : mentions e = [channel]) : Told s e := by
  refine ⟨hcloses, fun n hn => ?_⟩
  rw [hmentions, mem_singleton] at hn
  exact hn ▸ htracks

theorem told_emitMemberChanged
    (htracks : (s.channel channel).isSome = true → s.tracks channel = true)
    (he : e ∈ emitMemberChanged u s channel previous nick) : Told s e := by
  simp only [emitMemberChanged] at he
  split at he
  · cases he
  next hnone =>
    obtain rfl := mem_singleton.1 he
    refine told_of_mentions (htracks ?_) rfl rfl
    by_contra hc
    rw [not_isSome_iff_eq_none] at hc
    simp [memberView, hc] at hnone

theorem told_emitMemberList (hs : s.Filed) (he : e ∈ emitMemberList u s channel) : Told s e := by
  simp only [emitMemberList] at he
  split at he
  · cases he
  next c hc =>
    obtain rfl := mem_singleton.1 he
    exact told_of_mentions (hs.tracks (names_of_channel hc)) rfl rfl

theorem tracks_listed (hs : s.Filed) (h : clear s joins m = true) (hstays : s.departs m = none)
    (hchannel : channel ∈ ((Map.values s.channels).filter p).map (·.name)) :
    (s.receive m).tracks channel = true := by
  obtain ⟨c, hc, rfl⟩ := mem_map.1 hchannel
  obtain ⟨e, he, rfl⟩ := mem_map.1 (mem_of_mem_filter hc)
  have hkey : s.names e.1 = some e.2.name := by
    rw [Client.Session.names, Map.mem_entries_iff.1 he]
    rfl
  refine tracks_receive h (hs.tracks hkey) fun channel hchannel => ?_
  rw [hstays] at hchannel
  cases hchannel

theorem tracks_still (h : clear s joins m = true) (hstays : s.departs m = none)
    (hm : named m = some channel) (hsome : (s.channel channel).isSome = true) :
    (s.receive m).tracks channel = true := by
  obtain ⟨c, hc⟩ := isSome_iff_exists.1 hsome
  have ht := names_of_channel hc
  refine tracks_receive h (tracks_iff.2 ⟨_, ht, (spelled_of_clear h hm).2 _ ht⟩) ?_
  intro channel hchannel
  rw [hstays] at hchannel
  cases hchannel

theorem isSome_channel_onJoin (h : (s.onJoin channel nick).2 = true) :
    ((s.onJoin channel nick).1.channel channel).isSome = true := by
  have hadd : ∀ {s : Client.Session} {key : String}, (s.addMember key nick).2 = true →
      ((s.addMember key nick).1.channels.lookup key).isSome = true := by
    intro s key h
    simp only [Client.Session.addMember] at h ⊢
    split at h
    · cases h
    split at h
    · cases h
    next hroom =>
      rw [if_neg hroom]
      simp
  rw [Client.Session.channel, Client.Session.normalize, Client.Session.isupport_onJoin]
  simp only [onJoin] at h ⊢
  split at h
  next htracked =>
    rw [if_pos htracked]
    exact hadd h
  next hnew =>
  split at h
  · cases h
  next hopen =>
    rw [if_neg hnew, if_neg hopen]
    exact hadd h

theorem told_reportPart (h : clear s joins m = true) (hstays : s.departs m = none)
    (hm : named m = some channel) (hother : s.isSelf nick = false)
    (hreceive : s.receive m = (s.onPart channel nick).1)
    (he : e ∈ reportPart u s pick channel nick reason) : Told (s.receive m) e := by
  simp only [reportPart, hother] at he
  split at he
  · cases he
  next hleft =>
  have hsome : (s.channel channel).isSome = true := by
    simp only [onPart, hother] at hleft
    rw [Client.Session.channel]
    cases hc : s.channels.lookup (s.normalize channel) with
    | none => simp [hc] at hleft
    | some c => rfl
  have htracks := tracks_still h hstays hm hsome
  rcases mem_cons.1 he with rfl | he
  · exact told_of_mentions htracks rfl rfl
  · rw [← hreceive] at he
    exact told_emitMemberChanged (fun _ => htracks) he

theorem told_reportChat
    (hchat : (if s.isSelf target then !Session.looksLikeChannel sender else s.tracks target) = true)
    (he : e ∈ reportChat u s offer m target text sender isNotice) : Told s e := by
  simp only [reportChat] at he
  split at he
  · simp only [reportCtcp] at he
    split at he
    · cases he
    split at he
    · cases he
    split at he
    · cases he
    · obtain rfl := mem_singleton.1 he
      refine ⟨rfl, fun n hn => ?_⟩
      simp only [mentions] at hn
      split at hchat
      next hself =>
        rw [if_pos hself, if_neg (by simpa using hchat)] at hn
        cases hn
      next hself =>
        rw [if_neg hself] at hn
        split at hn
        · exact mem_singleton.1 hn ▸ hchat
        · cases hn
  · obtain rfl := mem_singleton.1 he
    refine ⟨rfl, fun n hn => ?_⟩
    split at hchat
    next hself =>
      rw [if_pos hself] at hn
      cases hn
    next hself =>
      rw [if_neg hself] at hn
      exact mem_singleton.1 hn ▸ hchat

theorem report_of_departs (h : s.departs m = some channel) :
    ∃ nick reason, report u s pick offer m =
      if (s.channel channel).isSome then [.parted channel nick true reason] else [] := by
  have hpart : ∀ {nick reason}, s.isSelf nick →
      reportPart u s pick channel nick reason =
        if (s.channel channel).isSome then [.parted channel nick true reason] else [] := by
    intro nick reason hself
    by_cases hc : (s.channel channel).isSome
    · have hleft : (s.channels.lookup (s.normalize channel)).isSome := hc
      simp [reportPart, onPart, hself, hc, hleft]
    · have hleft : (s.channels.lookup (s.normalize channel)).isSome = false :=
        eq_false_of_not_eq_true hc
      simp [reportPart, onPart, hself, hc, hleft]
  obtain ⟨tags, source, command⟩ := m
  cases command with
  | part name reason =>
    rcases source with _ | ⟨nick, user, host⟩ | server
    · cases h
    · obtain ⟨hself, ⟨⟩⟩ := ite_none_right_eq_some.1 h
      exact ⟨nick, reason.map Text.strip, hpart hself⟩
    · cases h
  | kick name victim reason =>
    obtain ⟨hself, ⟨⟩⟩ := ite_none_right_eq_some.1 h
    exact ⟨victim, _, hpart hself⟩
  | _ => cases h

/-- What the events of a message mention is tracked, unless it is our own departure. -/
theorem told_report (hs : s.Filed) (h : clear s joins m = true) (hstays : s.departs m = none)
    (he : e ∈ report u s pick offer m) : Told (s.receive m) e := by
  have hrest := h
  rw [clear, and_eq_true] at hrest
  replace hrest := hrest.2
  have hchannels : ∀ {p first channel e previous nick},
      channel ∈ ((Map.values s.channels).filter p).map (·.name) → closes first = none →
      mentions first = [channel] →
      e ∈ first :: emitMemberChanged u (s.receive m) channel previous nick →
      Told (s.receive m) e := by
    intro p first channel e previous nick hchannel hcloses hmentions he
    have htracks := tracks_listed hs h hstays hchannel
    rcases mem_cons.1 he with rfl | he
    · exact told_of_mentions htracks hcloses hmentions
    · exact told_emitMemberChanged (fun _ => htracks) he
  obtain ⟨tags, source, command⟩ := m
  cases command with
  | response r args =>
    cases r with
    | rplWelcome =>
      obtain rfl := mem_singleton.1 he
      exact ⟨rfl, nofun⟩
    | rplEndOfNames =>
      simp only [report] at he
      cases hchannel : args[1]? with
      | none => simp [hchannel] at he
      | some channel =>
        rw [hchannel] at he
        exact told_emitMemberList (filed_receive hs h) he
    | rplTopic =>
      simp only [report] at he
      split at he
      next channel topic hchannel htopic =>
        obtain rfl := mem_singleton.1 he
        refine told_of_mentions (tracks_still h hstays hchannel ?_) rfl rfl
        simpa [htopic, hchannel] using hrest
      · cases he
    | _ => cases he
  | topic channel topic =>
    cases topic with
    | none => cases he
    | some topic =>
      obtain rfl := mem_singleton.1 he
      exact told_of_mentions (tracks_still h hstays rfl hrest) rfl rfl
  | join channel keys real =>
    rcases source with _ | ⟨nick, user, host⟩ | name
    · cases he
    · simp only [report, Message.sourceNickname] at he
      split at he
      · cases he
      next hjoined =>
      have htracks := tracks_named h rfl (isSome_channel_onJoin (by simpa using hjoined))
      rcases mem_cons.1 he with rfl | he
      · exact told_of_mentions htracks rfl rfl
      split at he
      · exact told_emitMemberList (filed_receive hs h) he
      · exact told_emitMemberChanged (fun _ => htracks) he
    · cases he
  | part channel reason =>
    rcases source with _ | ⟨nick, user, host⟩ | name
    · cases he
    · refine told_reportPart h hstays rfl ?_ rfl he
      simpa [departs, Message.sourceNickname] using hstays
    · cases he
  | kick channel victim reason =>
    refine told_reportPart h hstays rfl ?_ rfl he
    simpa [departs] using hstays
  | quit reason =>
    rcases source with _ | ⟨nick, user, host⟩ | name
    · cases he
    · have hother : s.isSelf nick = false := by
        simpa [Client.Session.settled, Message.sourceNickname] using settled_of_clear h
      obtain ⟨channel, hchannel, he⟩ := mem_flatMap.1 he
      simp only [Client.Session.onQuit, hother] at hchannel
      exact hchannels hchannel rfl rfl he
    · cases he
  | nick new =>
    rcases source with _ | ⟨old, user, host⟩ | name
    · cases he
    · obtain ⟨channel, hchannel, he⟩ := mem_flatMap.1 he
      simp only [Client.Session.onNickChange] at hchannel
      split at hchannel <;> exact hchannels hchannel rfl rfl he
    · cases he
  | away message =>
    rcases source with _ | ⟨nick, user, host⟩ | name
    · cases he
    · obtain ⟨channel, hchannel, he⟩ := mem_flatMap.1 he
      have htracks := tracks_listed hs h hstays hchannel
      exact told_emitMemberChanged (fun _ => htracks) he
    · cases he
  | channelMode channel modes =>
    simp only [report] at he
    split at he
    · cases he
    next haffected =>
    have hsome : (s.channel channel).isSome = true := by
      rw [Client.Session.onModes, Client.Session.onMode] at haffected
      cases hc : s.channels.lookup (s.normalize channel) with
      | none => simp [hc] at haffected
      | some c => rw [Client.Session.channel, hc]; rfl
    have htracks := tracks_still h hstays rfl hsome
    rcases mem_cons.1 he with rfl | he
    · exact told_of_mentions htracks rfl rfl
    · obtain ⟨nick, -, he⟩ := mem_flatMap.1 he
      exact told_emitMemberChanged (fun _ => htracks) he
  | privmsg target text | notice target text =>
    rcases source with _ | ⟨sender, user, host⟩ | name
    · cases he
    · simp only [report] at he
      exact told_reportChat (s := s) hrest he
    · cases he
  | _ => cases he

end

end Ddirc.App
