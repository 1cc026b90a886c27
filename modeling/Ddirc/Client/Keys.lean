import Mathlib.Data.Multiset.Basic
import Ddirc.Lib.Run
import Ddirc.Client.Tracked

/-! # What a session files under which key

Channels and members are filed under the normal form of the name the server gave, and keep a copy
of it that is cut to a bound. A change of case mapping rebuilds every key from the copies. A session
is `Keyed` if each key is the normal form of the copy; a run that cuts no name and makes no two
names the same keeps it so and loses nobody (`keyed_of_fits`). -/

namespace Ddirc.Client
open Irc Map List
open Str (takeChars)

inductive Call where
  | setNick (nick : String)
  | onIsupport (tokens : List String)
  | onJoin (channel nick : String)
  | onPart (channel nick : String)
  | onQuit (nick : String)
  | onNickChange (old new : String)
  | onNamesReply (channel names : String)
  | onEndOfNames (channel : String)
  | onTopic (channel topic : String)
  | onMode (channel modes : String) (params : List String)
  | setAway (nick : String) (away : Bool)
  deriving Repr, DecidableEq

namespace Session

def call (s : Session) : Call → Session
  | .setNick nick => s.setNick nick
  | .onIsupport tokens => s.onIsupport tokens
  | .onJoin channel nick => (s.onJoin channel nick).1
  | .onPart channel nick => (s.onPart channel nick).1
  | .onQuit nick => (s.onQuit nick).1
  | .onNickChange old new => (s.onNickChange old new).1
  | .onNamesReply channel names => s.onNamesReply channel names
  | .onEndOfNames channel => s.onEndOfNames channel
  | .onTopic channel topic => s.onTopic channel topic
  | .onMode channel modes params => (s.onMode channel modes params).1
  | .setAway nick away => (s.setAway nick away).1

def MembersKeyed (mapping : CaseMapping) (members : Map String Member) : Prop :=
  ∀ key m, members.lookup key = some m → mapping.normalize m.nick = key

/-- Every channel is filed under the normal form of its name, and every member of its nick. -/
def Keyed (s : Session) : Prop :=
  ∀ key c, s.channels.lookup key = some c →
    s.normalize c.name = key ∧ MembersKeyed s.isupport.casemapping c.members

/-- The channels and who is in each, apart from how they are filed. -/
def census (s : Session) : Multiset (String × Multiset Member) :=
  (Map.values s.channels : Multiset Channel).map fun c =>
    (c.name, (Map.values c.members : Multiset Member))

/-- No two members have nicks with one normal form. -/
def TellsApart (mapping : CaseMapping) (members : Map String Member) : Prop :=
  ((Map.values members).map fun m => mapping.normalize m.nick).Nodup

/-- The names that a call files are within their bounds; a change of mapping tells apart the
channels, and the members of each, that there are. -/
def Fits (s : Session) : Call → Prop
  | .onJoin channel nick => (s.channel channel).isSome ∨ s.isSelf nick →
      ((s.channel channel).isSome ∨ channel.length ≤ maxChannelName) ∧ nick.length ≤ maxNick
  | .onNickChange _ new => new.length ≤ maxNick
  | .onNamesReply channel names =>
      ((s.channel channel).isSome ∨ channel.length ≤ maxChannelName) ∧
      ∀ entry ∈ Str.splitWhitespace names,
        (s.isupport.prefixes.splitPrefixes entry).2.length ≤ maxNick
  | .onIsupport tokens =>
      let mapping := (s.isupport.apply tokens).casemapping
      mapping ≠ s.isupport.casemapping →
        ((Map.values s.channels).map fun c => mapping.normalize c.name).Nodup ∧
        ∀ c ∈ Map.values s.channels, TellsApart mapping c.members
  | _ => True

/-- After the call every key is right; and if it changed the mapping, nobody is missing. -/
def Files (s : Session) (call : Call) : Prop :=
  (s.call call).Keyed ∧ ∀ tokens, call = .onIsupport tokens → (s.call call).census = s.census

theorem takeChars_of_length_le (h : text.length ≤ n) : takeChars n text = text := by
  rw [takeChars, take_of_length_le (String.length_toList ▸ h), String.ofList_toList]

theorem length_takeChars_le (n : Nat) (text : String) : (takeChars n text).length ≤ n := by
  rw [takeChars, String.length_ofList]
  exact length_take_le n _

/-! ## Members -/

/-- There are no more members than there may be, and every one is filed as `M` asks of its key and
its nick. -/
abbrev MembersHeld (M : String → String → Prop) : Map String Member → Prop :=
  Within maxMembers fun key m => M key m.nick

variable {C M C' M' : String → String → Prop} {mapping : CaseMapping} {members : Map String Member}
  {s : Session} {channel nick names name : String}

namespace MembersHeld
variable {i : ISupport}

theorem renameMember (h : MembersHeld M members) (old : String) (hnew : M new shown) :
    MembersHeld M (Session.renameMember old new shown members) := by
  unfold Session.renameMember
  split
  · exact h
  next hm => exact h.replace hm hnew

theorem addName (h : MembersHeld M members)
    (hentry : M (i.casemapping.normalize (i.prefixes.splitPrefixes entry).2)
      (takeChars maxNick (i.prefixes.splitPrefixes entry).2)) :
    MembersHeld M (Session.addName i members entry) := by
  simp only [Session.addName]
  split
  · exact h
  next hroom =>
    split
    · exact h
    refine h.insert (not_le.1 hroom) ?_
    -- a nick that is there already keeps its spelling
    cases hm : members.lookup (i.casemapping.normalize (i.prefixes.splitPrefixes entry).2) with
    | none => exact hentry
    | some m => exact h.held _ m hm

theorem addNames (h : MembersHeld M members) {entries : List String}
    (hentries : ∀ entry ∈ entries, M (i.casemapping.normalize (i.prefixes.splitPrefixes entry).2)
      (takeChars maxNick (i.prefixes.splitPrefixes entry).2)) :
    MembersHeld M (entries.foldl (Session.addName i) members) := by
  induction entries generalizing members with
  | nil => exact h
  | cons entry entries ih =>
    exact ih (addName h (hentries entry mem_cons_self))
      fun e he => hentries e (mem_cons_of_mem _ he)

theorem modeLoop (h : MembersHeld M members) (modes : List Char) (params : List String)
    (adding : Bool) : MembersHeld M (Session.modeLoop i modes params adding members).1 := by
  induction modes generalizing members params adding with
  | nil => exact h
  | cons mode modes ih =>
    unfold Session.modeLoop
    split
    · exact ih h params true
    split
    · exact ih h params false
    split
    · split
      · exact h
      next target params =>
        simp only
        split
        next mark _ _ _ =>
          exact @ih (setPrefix members (i.casemapping.normalize target) mark adding)
            (h.modify _ fun _ hm => hm) params adding
        · exact ih h params adding
    · split
      · split
        · exact h
        next params => exact ih h params adding
      · exact ih h params adding

end MembersHeld

/-! ## Channels -/

/-- A channel is filed as `C` asks of its key and its name, its topic is within bounds, and its
members are held. -/
structure Kept (C M : String → String → Prop) (key : String) (c : Channel) : Prop where
  name : C key c.name
  topic : ∀ topic ∈ c.topic, topic.length ≤ maxTopic
  members : MembersHeld M c.members

/-- There are no more channels than there may be, and every one is kept. -/
def Held (C M : String → String → Prop) (s : Session) : Prop :=
  Within maxChannels (Kept C M) s.channels

theorem Kept.withMembers (h : Kept C M key c) (hm : MembersHeld M members) :
    Kept C M key { c with members } := ⟨h.name, h.topic, hm⟩

namespace Held

theorem track (h : s.Held C M) (hname : C key (takeChars maxChannelName name))
    (hroom : s.channels.entries.length < maxChannels) : (s.track key name).Held C M :=
  Within.insert h hroom ⟨hname, fun _ ht => (nomatch ht), .empty⟩

theorem addMember (h : s.Held C M) (key : String)
    (hnick : M (s.normalize nick) (takeChars maxNick nick)) :
    (s.addMember key nick).1.Held C M := by
  simp only [Session.addMember]
  split
  · exact h
  next c hc =>
    split
    · exact h
    next hroom =>
      have hkept := h.held key c hc
      refine h.update hc (hkept.withMembers ?_)
      rcases not_and_or.1 hroom with hroom | hthere
      · exact hkept.members.insert (not_le.1 hroom) hnick
      · obtain ⟨m, hm⟩ := Option.ne_none_iff_exists'.1 fun h =>
          hthere (Option.isNone_iff_eq_none.2 h)
        exact hkept.members.update hm hnick

theorem onJoin (h : s.Held C M) (hchannel : s.channel channel = none → s.isSelf nick →
      C (s.normalize channel) (takeChars maxChannelName channel))
    (hnick : (s.channel channel).isSome ∨ s.isSelf nick →
      M (s.normalize nick) (takeChars maxNick nick)) : (s.onJoin channel nick).1.Held C M := by
  simp only [Session.onJoin]
  split
  next htracked => exact h.addMember _ (hnick (.inl htracked))
  next hnew =>
    split
    · exact h
    next hopen =>
      rw [not_or, Bool.not_eq_true', Bool.not_eq_false, not_le] at hopen
      have hnew := hchannel (Option.not_isSome_iff_eq_none.1 hnew) hopen.1
      exact (h.track hnew hopen.2).addMember _ (hnick (.inr hopen.1))

theorem onNamesReply (h : s.Held C M) (hchannel : s.channel channel = none →
      C (s.normalize channel) (takeChars maxChannelName channel))
    (hentries : ∀ entry ∈ Str.splitWhitespace names,
      M (s.normalize (s.isupport.prefixes.splitPrefixes entry).2)
        (takeChars maxNick (s.isupport.prefixes.splitPrefixes entry).2)) :
    (s.onNamesReply channel names).Held C M := by
  have hfill (key : String) (c : Channel) (hc : Kept C M key c) :
      Kept C M key { c with
        namesInProgress := true
        members := (Str.splitWhitespace names).foldl (addName s.isupport)
          (if c.namesInProgress then c.members else ∅) } := by
    refine ⟨hc.name, hc.topic, MembersHeld.addNames ?_ hentries⟩
    split
    · exact hc.members
    · exact .empty
  simp only [Session.onNamesReply]
  split
  · exact Within.modify h _ (hfill _)
  next hnew =>
    split
    · exact h
    next hroom =>
      have hnew := hchannel (Option.not_isSome_iff_eq_none.1 hnew)
      exact Within.modify (h.track hnew (not_le.1 hroom)) _ (hfill _)

theorem onMode (h : s.Held C M) (modes : String) (params : List String) :
    (s.onMode channel modes params).1.Held C M := by
  simp only [Session.onMode]
  split
  · exact h
  next c hc =>
    have hkept := h.held _ c hc
    exact h.update hc (hkept.withMembers (MembersHeld.modeLoop hkept.members ..))

theorem onPart (h : s.Held C M) : (s.onPart channel nick).1.Held C M := by
  simp only [Session.onPart]
  split
  · exact Within.erase h _
  · exact Within.modify h _ fun _ hc => hc.withMembers (hc.members.erase _)

theorem onQuit (h : s.Held C M) : (s.onQuit nick).1.Held C M := by
  simp only [Session.onQuit]
  split
  · exact .empty
  · exact Within.mapVal h fun _ _ hc => hc.withMembers (hc.members.erase _)

theorem onNickChange (h : s.Held C M) (hnew : M (s.normalize new) (takeChars maxNick new)) :
    (s.onNickChange old new).1.Held C M := by
  have hself : (if s.isSelf old then s.setNick new else s).Held C M := by
    split <;> exact h
  have hsame : (if s.isSelf old then s.setNick new else s).normalize new = s.normalize new := by
    split <;> rfl
  exact Within.mapVal hself fun _ _ hc =>
    hc.withMembers (MembersHeld.renameMember hc.members _ (hsame ▸ hnew))

end Held

/-- What a call files is filed as `C` and `M` ask. -/
def Permits (C M : String → String → Prop) (s : Session) : Call → Prop
  | .onJoin channel nick =>
      (s.channel channel = none → s.isSelf nick = true →
        C (s.normalize channel) (takeChars maxChannelName channel)) ∧
      ((s.channel channel).isSome ∨ s.isSelf nick → M (s.normalize nick) (takeChars maxNick nick))
  | .onNickChange _ new => M (s.normalize new) (takeChars maxNick new)
  | .onNamesReply channel names =>
      (s.channel channel = none → C (s.normalize channel) (takeChars maxChannelName channel)) ∧
      ∀ entry ∈ Str.splitWhitespace names,
        M (s.normalize (s.isupport.prefixes.splitPrefixes entry).2)
          (takeChars maxNick (s.isupport.prefixes.splitPrefixes entry).2)
  | _ => True

/-! ## Rebuilding the keys -/

def refile (mapping : CaseMapping) (members : Map String Member) : Map String Member :=
  Map.fileAll (fun m => mapping.normalize m.nick) (fun m => m) (Map.values members) ∅

theorem rekey_channels : s.rekey.channels =
    Map.fileAll (fun c => s.normalize c.name)
      (fun c => { c with members := refile s.isupport.casemapping c.members })
      (Map.values s.channels) ∅ := rfl

theorem Held.rekey (h : s.Held C M) (hC : ∀ key name, C key name → C' (s.normalize name) name)
    (hM : ∀ key nick, M key nick → M' (s.normalize nick) nick) : s.rekey.Held C' M' := by
  have hvalues {V : Type} (m : Map String V) : (values m).length = m.entries.length := length_map ..
  refine .fileAll ((hvalues _).le.trans h.room) fun c hc => ?_
  obtain ⟨key, hkey⟩ := mem_values.1 hc
  have hkept := h.held key c hkey
  refine ⟨hC key c.name hkept.name, hkept.topic, ?_⟩
  refine .fileAll ((hvalues _).le.trans hkept.members.room) fun m hm => ?_
  obtain ⟨k, hk⟩ := mem_values.1 hm
  exact hM k m.nick (hkept.members.held k m hk)

theorem Held.onIsupport (h : s.Held C M)
    (hC : ∀ key name, C key name → C' ((s.isupport.apply tokens).casemapping.normalize name) name)
    (hM : ∀ key nick, M key nick → M' ((s.isupport.apply tokens).casemapping.normalize nick) nick)
    (hsame : (s.isupport.apply tokens).casemapping = s.isupport.casemapping → s.Held C' M') :
    (s.onIsupport tokens).Held C' M' := by
  simp only [Session.onIsupport]
  split
  · exact Held.rekey (s := { s with isupport := s.isupport.apply tokens }) h hC hM
  next hn => exact hsame (not_not.1 hn)

/-- A call that is no change of settings files what it is permitted to, within the bounds. -/
theorem Held.call (h : s.Held C M) {call : Call} (hpermits : s.Permits C M call)
    (hcall : ∀ tokens, call ≠ .onIsupport tokens) : (s.call call).Held C M := by
  cases call with
  | setNick nick => exact h
  | onIsupport tokens => exact absurd rfl (hcall tokens)
  | onJoin channel nick => exact h.onJoin hpermits.1 hpermits.2
  | onPart channel nick => exact h.onPart
  | onQuit nick => exact h.onQuit
  | onNickChange old new => exact h.onNickChange hpermits
  | onNamesReply channel names => exact h.onNamesReply hpermits.1 hpermits.2
  | onEndOfNames channel => exact Within.modify h _ fun _ hc => ⟨hc.name, hc.topic, hc.members⟩
  | onTopic channel topic =>
    refine Within.modify h _ fun _ hc => ⟨hc.name, fun t ht => ?_, hc.members⟩
    obtain rfl := Option.some.inj ht
    exact length_takeChars_le ..
  | onMode channel modes params => exact h.onMode modes params
  | setAway nick away =>
    exact Within.mapVal h fun _ _ hc =>
      hc.withMembers (Within.modify (f := ({ · with away })) hc.members _ fun _ hm => hm)

theorem values_refile (h : TellsApart mapping members) :
    (Map.values (refile mapping members)).Perm (Map.values members) := by
  have hvalues : (Map.values (refile mapping members)).Perm
      ((Map.values members).map (fun m => m) ++ Map.values ∅) :=
    values_fileAll h fun _ _ => rfl
  rwa [map_id', values_empty, append_nil] at hvalues

/-- Rebuilding the keys loses nobody whose new key is nobody else's. -/
theorem census_rekey (hchannels : ((Map.values s.channels).map fun c => s.normalize c.name).Nodup)
    (hmembers : ∀ c ∈ Map.values s.channels, TellsApart s.isupport.casemapping c.members) :
    s.rekey.census = s.census := by
  have hvalues : (Map.values s.rekey.channels).Perm
      ((Map.values s.channels).map
        (fun c => { c with members := refile s.isupport.casemapping c.members }) ++ Map.values ∅) :=
    values_fileAll hchannels fun _ _ => rfl
  rw [values_empty, append_nil] at hvalues
  rw [census, Multiset.coe_eq_coe.2 hvalues, census, Multiset.map_coe, map_map]
  refine congrArg _ (map_congr_left fun c hc => ?_)
  exact congrArg (c.name, ·) (Multiset.coe_eq_coe.2 (values_refile (hmembers c hc)))

theorem census_onIsupport (hfits : s.Fits (.onIsupport tokens)) :
    (s.onIsupport tokens).census = s.census := by
  simp only [Session.onIsupport]
  split
  next hne =>
    obtain ⟨hchannels, hmembers⟩ := hfits hne
    exact census_rekey hchannels hmembers
  · rfl

def Normal (s : Session) (key name : String) : Prop := s.normalize name = key

theorem Held.keyed (h : s.Held s.Normal s.Normal) : s.Keyed := fun key c hc =>
  ⟨(h.held key c hc).name, (h.held key c hc).members.held⟩

theorem isupport_call {call : Call} (hcall : ∀ tokens, call ≠ .onIsupport tokens) :
    (s.call call).isupport = s.isupport := by
  cases call with
  | onIsupport tokens => exact absurd rfl (hcall tokens)
  | onJoin channel nick => exact isupport_onJoin
  | onPart channel nick => exact isupport_onPart
  | onQuit nick => exact isupport_onQuit
  | onNickChange old new => exact isupport_onNickChange
  | onNamesReply channel names => exact isupport_onNamesReply
  | onMode channel modes params =>
    simp only [call, Session.onMode]
    split <;> rfl
  | _ => rfl

theorem Held.call_of_fits (h : s.Held s.Normal s.Normal) {call : Call} (hfits : s.Fits call) :
    (s.call call).Held (s.call call).Normal (s.call call).Normal := by
  by_cases hcall : ∃ tokens, call = .onIsupport tokens
  · obtain ⟨tokens, rfl⟩ := hcall
    have hmapping : (s.onIsupport tokens).isupport = s.isupport.apply tokens := by
      simp only [Session.onIsupport]
      split <;> rfl
    have hnormal : (s.onIsupport tokens).Normal =
        fun key name => (s.isupport.apply tokens).casemapping.normalize name = key := by
      funext key name
      rw [Normal, normalize, hmapping]
    rw [Session.call, hnormal]
    refine h.onIsupport (fun _ _ _ => rfl) (fun _ _ _ => rfl) fun hsame => ?_
    rw [hsame]
    exact h
  · have hnormal : (s.call call).Normal = s.Normal := by
      funext key name
      rw [Normal, normalize, isupport_call fun tokens he => hcall ⟨tokens, he⟩]
      rfl
    rw [hnormal]
    refine h.call ?_ fun tokens he => hcall ⟨tokens, he⟩
    cases call with
    | onJoin channel nick =>
      refine ⟨fun hnew hself => ?_, fun hthere => ?_⟩
      · rw [takeChars_of_length_le ((hfits (.inr hself)).1.resolve_left (by simp [hnew]))]
        rfl
      · rw [takeChars_of_length_le (hfits hthere).2]
        rfl
    | onNickChange old new =>
      rw [Permits, takeChars_of_length_le hfits]
      rfl
    | onNamesReply channel names =>
      refine ⟨fun hnew => ?_, fun entry hentry => ?_⟩
      · rw [takeChars_of_length_le (hfits.1.resolve_left (by simp [hnew]))]
        rfl
      · rw [takeChars_of_length_le (hfits.2 entry hentry)]
        rfl
    | _ => trivial

/-! ## Whole runs -/

def step (s : Session) (call : Call) : Session × Unit := (s.call call, ())

instance (s : Session) : (call : Call) → Decidable (s.Fits call)
  | .onJoin .. => inferInstanceAs (Decidable (_ → _))
  | .onNickChange .. => inferInstanceAs (Decidable (_ ≤ _))
  | .onNamesReply .. => inferInstanceAs (Decidable (_ ∧ _))
  | .onIsupport _ => inferInstanceAs (Decidable (_ ≠ _ → List.Nodup _ ∧ ∀ c ∈ _, List.Nodup _))
  | .setNick _ | .onPart .. | .onQuit _ | .onEndOfNames _ | .onTopic .. | .onMode ..
    | .setAway .. =>
    inferInstanceAs (Decidable True)

theorem Held.init (nick : String) : (Session.init nick).Held C M := Within.empty

/-- In every run whose calls find the names they file within their bounds, and told apart by a
mapping that changes, every key is the normal form of what is filed under it after every call, and
no change of mapping loses anybody. -/
theorem keyed_of_fits (nick : String) (calls : List Call)
    (h : Run.Along step Fits (Session.init nick) calls) :
    Run.Along step Files (Session.init nick) calls := by
  have hheld : (Session.init nick).Held (Session.init nick).Normal (Session.init nick).Normal :=
    .init nick
  generalize Session.init nick = s at h hheld
  induction calls generalizing s with
  | nil => trivial
  | cons call calls ih =>
    obtain ⟨hfits, h⟩ := h
    refine ⟨⟨(hheld.call_of_fits hfits).keyed, ?_⟩, ih _ h (hheld.call_of_fits hfits)⟩
    rintro tokens rfl
    exact census_onIsupport hfits

/-- Two nicks that ASCII tells apart and RFC 1459 does not, one of which is given up in time. -/
def recased : List Call :=
  [.onIsupport ["CASEMAPPING=ascii"], .onJoin "#c" "me", .onJoin "#c" "a[",
    .onNamesReply "#C" "@ME A\x7b", .onNickChange "a\x7b" "b", .onIsupport ["CASEMAPPING=rfc1459"]]

theorem keyed_of_fits_recased : Run.Along step Fits (Session.init "me") recased ∧
    Run.Along step Files (Session.init "me") recased := by
  have h : Run.Along step Fits (Session.init "me") recased := by decide +kernel
  exact ⟨h, keyed_of_fits _ _ h⟩

def longNick (last : Char) : String := String.ofList (replicate maxNick 'x' ++ [last])

def crowded : Session := Run.after step (Session.init "me")
  [.onJoin "#c" "me", .onJoin "#c" (longNick 'a'), .onJoin "#c" (longNick 'b')]

/-- Two nicks that are the same up to the bound are filed apart, under other keys than those of
their copies; the next change of mapping makes them one. -/
theorem not_keyed_crowded : ¬ crowded.Keyed ∧
    (crowded.call (.onIsupport ["CASEMAPPING=ascii"])).census ≠ crowded.census := by
  refine ⟨fun h => ?_, by decide +kernel⟩
  have hkey : ∀ c ∈ crowded.channels.lookup "#c", ∀ m ∈ c.members.lookup (longNick 'a'),
      crowded.isupport.casemapping.normalize m.nick = longNick 'a' :=
    fun c hc m hm => (h _ c hc).2 _ m hm
  exact absurd hkey (by decide +kernel)

/-! ## Bounds -/

/-- Nothing the server says makes a session larger than this. -/
structure Bounded (s : Session) : Prop where
  nick : s.nick.length ≤ maxNick
  channels : s.channels.entries.length ≤ maxChannels
  channel : ∀ key c, s.channels.lookup key = some c →
    c.name.length ≤ maxChannelName ∧ (∀ topic ∈ c.topic, topic.length ≤ maxTopic) ∧
    c.members.entries.length ≤ maxMembers ∧
    ∀ key m, c.members.lookup key = some m → m.nick.length ≤ maxNick

abbrev Short (n : Nat) (_ name : String) : Prop := name.length ≤ n

theorem nick_call (s : Session) (call : Call) :
    (s.call call).nick = s.nick ∨ ∃ nick, (s.call call).nick = takeChars maxNick nick := by
  cases call with
  | setNick nick => exact .inr ⟨nick, rfl⟩
  | onIsupport tokens =>
    simp only [Session.call, Session.onIsupport]
    split <;> exact .inl rfl
  | onJoin channel nick => exact .inl nick_onJoin
  | onPart channel nick => exact .inl nick_onPart
  | onQuit nick => exact .inl nick_onQuit
  | onNickChange old new =>
    rw [Session.call, nick_onNickChange]
    split
    · exact .inr ⟨new, rfl⟩
    · exact .inl rfl
  | onNamesReply channel names => exact .inl nick_onNamesReply
  | onMode channel modes params =>
    simp only [Session.call, Session.onMode]
    split <;> exact .inl rfl
  | _ => exact .inl rfl

theorem Held.call_short (h : s.Held (Short maxChannelName) (Short maxNick)) (call : Call) :
    (s.call call).Held (Short maxChannelName) (Short maxNick) := by
  by_cases hcall : ∃ tokens, call = .onIsupport tokens
  · obtain ⟨tokens, rfl⟩ := hcall
    exact h.onIsupport (fun _ _ hname => hname) (fun _ _ hnick => hnick) fun _ => h
  · refine h.call ?_ fun tokens he => hcall ⟨tokens, he⟩
    cases call with
    | onJoin => exact ⟨fun _ _ => length_takeChars_le .., fun _ => length_takeChars_le ..⟩
    | onNickChange => exact length_takeChars_le ..
    | onNamesReply => exact ⟨fun _ => length_takeChars_le .., fun _ _ => length_takeChars_le ..⟩
    | _ => trivial

/-- A message is one call or none. -/
theorem receive_eq_call (s : Session) (m : Message) :
    s.receive m = s ∨ ∃ call, s.receive m = s.call call := by
  unfold receive
  split
  next args _ =>
    cases args.head? with
    | none => exact .inl rfl
    | some nick => exact .inr ⟨.setNick nick, rfl⟩
  next args _ => exact .inr ⟨.onIsupport args, rfl⟩
  next =>
    split
    next channel names _ _ => exact .inr ⟨.onNamesReply channel names, rfl⟩
    · exact .inl rfl
  next args _ =>
    cases args[1]? with
    | none => exact .inl rfl
    | some channel => exact .inr ⟨.onEndOfNames channel, rfl⟩
  next =>
    split
    next channel topic _ _ => exact .inr ⟨.onTopic channel topic, rfl⟩
    · exact .inl rfl
  next channel topic _ => exact .inr ⟨.onTopic channel topic, rfl⟩
  next channel _ _ nick _ _ => exact .inr ⟨.onJoin channel nick, rfl⟩
  next channel _ nick _ _ => exact .inr ⟨.onPart channel nick, rfl⟩
  next channel victim _ _ => exact .inr ⟨.onPart channel victim, rfl⟩
  next nick _ _ => exact .inr ⟨.onQuit nick, rfl⟩
  next new old _ _ => exact .inr ⟨.onNickChange old new, rfl⟩
  next message nick _ _ => exact .inr ⟨.setAway nick message.isSome, rfl⟩
  next channel modes _ => exact .inr ⟨.onMode channel _ (modeParams modes), rfl⟩
  next => exact .inl rfl

/-- Whatever a server sends and advertises, the session it leaves is within its bounds. -/
theorem bounded_of_messages (nick : String) (messages : List Message) :
    (messages.foldl receive (Session.init nick)).Bounded := by
  have hrun (s : Session) (hnick : s.nick.length ≤ maxNick)
      (hheld : s.Held (Short maxChannelName) (Short maxNick)) :
      (messages.foldl receive s).Bounded := by
    induction messages generalizing s with
    | nil =>
      refine ⟨hnick, hheld.room, fun key c hc => ?_⟩
      have hkept := hheld.held key c hc
      exact ⟨hkept.name, hkept.topic, hkept.members.room, hkept.members.held⟩
    | cons m messages ih =>
      rcases s.receive_eq_call m with hm | ⟨call, hm⟩
      · rw [foldl_cons, hm]
        exact ih s hnick hheld
      · rw [foldl_cons, hm]
        refine ih _ ?_ (hheld.call_short call)
        rcases s.nick_call call with hc | ⟨new, hc⟩
        · exact hc ▸ hnick
        · exact hc ▸ length_takeChars_le ..
  exact hrun _ (length_takeChars_le ..) (.init nick)

end Session

end Ddirc.Client
