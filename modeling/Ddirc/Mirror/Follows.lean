import Ddirc.Mirror.Roll

/-! # A client's session follows the server's roster

`sessionFrom` is the session of a client that was sent the given messages. It `Mirrors` a roster
when it has the client's nick and shows, of each channel the client is in, the roll. `Follows` says
so of every client, and connecting, taking a nick and the welcome keep it. -/

namespace Ddirc.Server.Roster
open Irc Function List
open Ddirc.Client (Session Roll View Sayable shownName maxMembers maxChannels)
variable {m : Message}

/-- The session of a client that was sent `messages`. -/
def sessionFrom [LineReader] (start : String) (messages : List Message) : Session :=
  messages.foldl (fun s m => s.receive m.reread) (.init start)

/-- The session shows the nick of client `i` and the rolls of its channels, the one at `stale`
apart. -/
structure Mirrors (s : Session) (r : Roster) (i : ClientId) (stale : Option String) : Prop where
  plain : s.Plain
  idle : s.Idle
  nick : r.nickAt i = some s.nick
  rooms {key room} : r.channels key = some room → i ∈ room.members → some key ≠ stale →
    s.view key = some ⟨r.roll room, false⟩

/-- Nicks can be said in a list of names, and channels have the names of channels. -/
structure Spoken (r : Roster) : Prop where
  sayable {i nick} : r.nickAt i = some nick → Sayable nick
  named {i c} : r.clients i = some c → c.registered = true → ∃ nick, c.nick = some nick
  hash {key room} : r.channels key = some room → isChannelName room.name

/-- Every client's session mirrors the roster; before its welcome it has heard nothing. -/
structure Follows [LineReader] (start : String) (r : Roster) : Prop where
  before {i c} : r.clients i = some c → c.registered = false →
    sessionFrom start (r.told i) = .init start
  after {i c} : r.clients i = some c → c.registered = true →
    Mirrors (sessionFrom start (r.told i)) r i none

variable {r r' : Roster} {room room' : Room} {i j id : ClientId} {nick name : String} {s : Session}

theorem Mirrors.weaken (M : Mirrors s r i none) (stale : Option String) : Mirrors s r i stale :=
  ⟨M.plain, M.idle, M.nick, fun hroom hi _ => M.rooms hroom hi (by simp)⟩

theorem Mirrors.congr (M : Mirrors s r i stale) (hn : r'.nickAt i = r.nickAt i)
    (hrooms : ∀ key room, r'.channels key = some room → i ∈ room.members →
      r.channels key = some room ∧ r'.roll room = r.roll room) : Mirrors s r' i stale := by
  refine ⟨M.plain, M.idle, hn.trans M.nick, ?_⟩
  intro key room hroom hi hstale
  obtain ⟨hroom', hroll⟩ := hrooms key room hroom hi
  rw [hroll]
  exact M.rooms hroom' hi hstale

theorem Mirrors.of_view (M : Mirrors s r i stale) (hv : s'.view = s.view) (hn : s'.nick = s.nick)
    (hi : s'.isupport = s.isupport) : Mirrors s' r i stale where
  plain := M.plain.congr hi
  idle := fun key v h => M.idle key v (hv ▸ h)
  nick := hn ▸ M.nick
  rooms := fun hroom hi hstale => hv ▸ M.rooms hroom hi hstale

/-! ## What can be said -/

theorem length_le_utf8 (l : List Char) : l.length ≤ (String.ofList l).utf8ByteSize := by
  induction l with
  | nil => simp
  | cons c l ih =>
    have hsplit : String.ofList (c :: l) = String.ofList [c] ++ String.ofList l := by
      rw [← String.ofList_append]
      rfl
    have hc : 0 < (String.ofList [c]).utf8ByteSize := by
      simpa using Char.utf8Size_pos c
    rw [hsplit, String.utf8ByteSize_append, length_cons]
    omega

theorem sayable_of_validNick (hv : validNick nick)
    (hword : ∀ c ∈ nick.toList, Str.isWhitespace c = false) : Sayable nick := by
  simp only [validNick, Bool.and_eq_true, decide_eq_true_eq] at hv
  obtain ⟨⟨⟨⟨⟨⟨⟨⟨hne, hlen⟩, -⟩, -⟩, -⟩, -⟩, -⟩, hat⟩, -⟩ := hv
  refine ⟨by simpa using hne, ?_, hword, ?_⟩
  · intro hhead
    have hmem := mem_of_mem_head? hhead
    simp [Str.contains, hmem] at hat
  · have hle : nick.toList.length ≤ Ddirc.Client.maxNick := by
      have h := length_le_utf8 nick.toList
      rw [String.ofList_toList] at h
      exact h.trans (hlen.trans (by decide))
    rw [Str.takeChars, take_of_length_le hle, String.ofList_toList]

theorem isChannelName_of_validChannel (hv : validChannel name) : isChannelName name := by
  simp only [validChannel, Bool.and_eq_true, isChannel, Str.startsWith, beq_iff_eq] at hv
  rw [isChannelName, hv.1.1.1.1.1]
  decide

theorem Spoken.congr (S : r.Spoken) (hcl : r'.clients = r.clients)
    (hch : r'.channels = r.channels) : r'.Spoken := by
  obtain ⟨_, _, clients, _, channels, _⟩ := r'
  subst hcl hch
  exact ⟨S.sayable, S.named, S.hash⟩

theorem Spoken.step (S : r.Spoken) (h : Step r l r')
    (hword : ∀ nick, l = .claim nick → ∀ c ∈ nick.toList, Str.isWhitespace c = false) :
    r'.Spoken := by
  refine ⟨fun {i nick} hn => ?_, fun {i c'} hc' hreg => ?_, fun {key room'} hroom' => ?_⟩
  · rcases h.nickAt hn with hn | ⟨rfl, hv⟩
    · exact S.sayable hn
    · exact sayable_of_validNick hv (hword nick rfl)
  · refine Option.isSome_iff_exists.1 ?_
    cases h.became i with
    | connected hc =>
      cases hc'.symm.trans hc
      cases hreg
    | registered _ _ hnick hc =>
      cases hc'.symm.trans hc
      exact hnick
    | kept _ hkept =>
      obtain ⟨c, hc, hr, hn⟩ := hkept c' hc'
      obtain ⟨old, hold⟩ := S.named hc (hr ▸ hreg)
      rcases hn with hn | ⟨nick, -, -, hn⟩
      · rw [hn, hold]
        rfl
      · rw [hn]
        rfl
  · rcases h.room hroom' with ⟨room, hroom, hname, -⟩ | ⟨id, name, -, hv, hname⟩
    · exact hname ▸ S.hash hroom
    · exact hname ▸ isChannelName_of_validChannel hv

/-! ## Hearing -/

theorem sessionFrom_tell [LineReader] (whom : ClientId → Prop) [DecidablePred whom] (m : Message)
    (hc : r.clients i = some c) : sessionFrom start ((r.tell whom m).told i) =
      if whom i then (sessionFrom start (r.told i)).receive m.reread
      else sessionFrom start (r.told i) := by
  simp only [tell, hc, Option.isSome_some, and_true]
  split
  · rw [sessionFrom, foldl_append]
    rfl
  · rfl

theorem sessionFrom_numeric [LineReader] (hc : r.clients i = some c) :
    sessionFrom start ((r.numeric id response args).told i) =
      if i = id then (sessionFrom start (r.told i)).receive
        { source := some (.serverName r.serverName)
          command := .response response (r.nickOf id :: args) }
      else sessionFrom start (r.told i) := by
  refine (sessionFrom_tell (· = id) _ hc).trans ?_
  rw [Message.reread_cooked (by simp)]

/-- What a list of names leaves of a session. -/
def listed (s : Session) (shown : String) (l : List String) : Session :=
  (if l.isEmpty then s else s.onNamesReply shown (Str.join " " l)).onEndOfNames shown

theorem sessionFrom_listNames [LineReader] (hc : r.clients i = some c) :
    sessionFrom start ((r.listNames id shown l).told i) =
      if i = id then listed (sessionFrom start (r.told i)) shown l
      else sessionFrom start (r.told i) := by
  unfold listNames listed
  cases hl : l.isEmpty with
  | true =>
    simp only [if_true]
    rw [sessionFrom_numeric hc]
    rfl
  | false =>
    have hc' : (r.numeric id .rplNamReply ["=", shown, Str.join " " l]).clients i = some c := hc
    simp only [Bool.false_eq_true, if_false]
    rw [sessionFrom_numeric hc', sessionFrom_numeric hc]
    split <;> rfl

theorem receive_isTopic [LineReader] (hm : isTopic m.command) :
    s.receive m.reread = s ∨ ∃ channel topic, s.receive m.reread = s.onTopic channel topic := by
  rw [Message.reread_cooked fun _ _ hraw => by simp [hraw, isTopic] at hm]
  obtain ⟨tags, source, command⟩ := m
  cases command with
  | topic channel topic =>
    cases topic with
    | none => exact .inl rfl
    | some topic => exact .inr ⟨channel, topic, rfl⟩
  | response response args =>
    obtain rfl : response = .rplTopic := hm
    simp only [Session.receive]
    split
    next channel topic _ _ => exact .inr ⟨channel, topic, rfl⟩
    · exact .inl rfl
  | _ => exact absurd hm (by simp [isTopic])

theorem view_receive_isTopic [LineReader] (hm : isTopic m.command) :
    (s.receive m.reread).view = s.view ∧ (s.receive m.reread).nick = s.nick ∧
      (s.receive m.reread).isupport = s.isupport := by
  rcases receive_isTopic (s := s) hm with h | ⟨channel, topic, h⟩
  · rw [h]
    exact ⟨rfl, rfl, rfl⟩
  · rw [h]
    exact ⟨Session.view_onTopic, rfl, rfl⟩

theorem Mirrors.topic [LineReader] (M : Mirrors s r i stale) (hm : isTopic m.command) :
    Mirrors (s.receive m.reread) r i stale := by
  obtain ⟨hv, hn, hi⟩ := view_receive_isTopic (s := s) hm
  exact M.of_view hv hn hi

/-! ## Coming -/

theorem Follows.connect [LineReader] (F : Follows start r) (H : r.Consistent)
    (hid : r.clients id = none) :
    Follows start (r.connect id) := by
  have H' := H.connect hid
  have hne {i c} (h : r.clients i = some c) : i ≠ id := by
    rintro rfl
    simp [hid] at h
  have hold {i c} (hc : (r.connect id).clients i = some c) :
      (i = id ∧ c = {}) ∨ (i ≠ id ∧ r.clients i = some c) := by
    simp only [Roster.connect, update_apply] at hc
    split at hc
    next hi => exact .inl ⟨hi, (Option.some.inj hc).symm⟩
    next hi => exact .inr ⟨hi, hc⟩
  have htold {i} (hi : i ≠ id) : (r.connect id).told i = r.told i := by simp [Roster.connect, hi]
  have hnick {i} (hi : i ≠ id) : (r.connect id).nickAt i = r.nickAt i := by
    simp [nickAt, Roster.connect, hi]
  constructor
  · intro i c hc hreg
    rcases hold hc with ⟨rfl, -⟩ | ⟨hi, hc⟩
    · simp [Roster.connect, sessionFrom]
    · rw [htold hi]
      exact F.before hc hreg
  · intro i c hc hreg
    rcases hold hc with ⟨-, rfl⟩ | ⟨hi, hc⟩
    · simp at hreg
    · rw [htold hi]
      refine (F.after hc hreg).congr (hnick hi) fun key room hroom _ => ⟨hroom, ?_⟩
      refine H.roll_congr H' fun j hj => hnick ?_
      obtain ⟨c, hc, -⟩ := H.registered hroom hj
      exact hne hc

/-- Sessions follow a step after which some have heard more, if that makes a mirror of the new
roster of each, and the others are mirrors as they are. -/
theorem Follows.heard [LineReader] (F : Follows start r) (whom : ClientId → Prop)
    [DecidablePred whom]
    (hear : Session → Session)
    (htold : ∀ i c, r'.clients i = some c → sessionFrom start (r'.told i) =
      if whom i then hear (sessionFrom start (r.told i)) else sessionFrom start (r.told i))
    (hcl : ∀ i c', r'.clients i = some c' →
      ∃ c, r.clients i = some c ∧ c'.registered = c.registered)
    (hwhom : ∀ i c, whom i → r.clients i = some c →
      c.registered ∨ hear (.init start) = .init start)
    (hyes : ∀ i c s, whom i → r.clients i = some c → c.registered → Mirrors s r i none →
      Mirrors (hear s) r' i none)
    (hno : ∀ i c c' s, ¬whom i → r.clients i = some c → c.registered →
      r'.clients i = some c' → Mirrors s r i none → Mirrors s r' i none) : Follows start r' := by
  constructor
  · intro i c' hc' hreg
    obtain ⟨c, hc, hsame⟩ := hcl i c' hc'
    rw [htold i c' hc', F.before hc (hsame ▸ hreg)]
    split
    next h =>
      refine (hwhom i c h hc).resolve_left fun htrue => ?_
      rw [hsame, htrue] at hreg
      cases hreg
    · rfl
  · intro i c' hc' hreg
    obtain ⟨c, hc, hsame⟩ := hcl i c' hc'
    have M := F.after hc (hsame ▸ hreg)
    rw [htold i c' hc']
    split
    next h => exact hyes i c _ h hc (hsame ▸ hreg) M
    next h => exact hno i c c' _ h hc (hsame ▸ hreg) hc' M

theorem nickAt_claim (hid : r.clients id = some client) :
    (r.claim id nick).nickAt j = if j = id then some nick else r.nickAt j := by
  simp only [nickAt, claim, modifyClient, update_apply]
  split
  · simp [hid]
  · rfl

theorem Follows.claim [LineReader] (F : Follows start r) (H : r.Consistent) (S : r.Spoken)
    (hid : r.clients id = some client)
    (hkeep : ∀ old, client.registered → client.nick = some old → old = nick)
    (hfree : ∀ holder, r.nicks (fold nick) = some holder → holder = id) :
    Follows start (r.claim id nick) := by
  have hn (i c) (hc : r.clients i = some c) (hreg : c.registered) :
      (r.claim id nick).nickAt i = r.nickAt i := by
    rw [nickAt_claim hid]
    split
    next hi =>
      subst hi
      obtain rfl := Option.some.inj (hid.symm.trans hc)
      obtain ⟨old, hold⟩ := S.named hc hreg
      obtain rfl := hkeep old hreg hold
      simp [nickAt, hid, hold]
    · rfl
  refine F.heard (fun _ => False) (fun s => s) (fun _ _ _ => rfl)
    (fun _ _ h => registered_of_modifyClient h fun _ => rfl)
    (by simp) (by simp) fun i c _ s _ hc hreg _ M =>
      M.congr (hn i c hc hreg) fun key room hroom _ => ⟨hroom, ?_⟩
  refine H.roll_congr (H.claim hid hfree) fun j hj => ?_
  obtain ⟨c, hc, hreg⟩ := H.registered hroom hj
  exact hn j c hc hreg

/-! ## The welcome -/

/-- The tokens of a `005` that come after the network's name, whatever that is. -/
def fixedTokens : List String :=
  ["CASEMAPPING=ascii", "CHANTYPES=#", "PREFIX=(o)@", "CHANMODES=,,,", "NICKLEN=30",
    "CHANNELLEN=50", "TOPICLEN=390"]

theorem isupportTokens_eq (network : String) :
    ∃ named, Network.isupportTokens network = named ++ fixedTokens := by
  have htokens : ("NETWORK=" ++ network ++
      " CASEMAPPING=ascii CHANTYPES=# PREFIX=(o)@ CHANMODES=,,, NICKLEN=" ++ toString nickLen ++
      " CHANNELLEN=" ++ toString channelLen ++ " TOPICLEN=" ++ toString topicLen).toList =
        ("NETWORK=" ++ network).toList ++ ' ' :: (Str.join " " fixedTokens).toList := by
    have hend : (" CASEMAPPING=ascii CHANTYPES=# PREFIX=(o)@ CHANMODES=,,, NICKLEN=" ++
        toString nickLen ++ " CHANNELLEN=" ++ toString channelLen ++ " TOPICLEN=" ++
        toString topicLen).toList = ' ' :: (Str.join " " fixedTokens).toList := by decide
    simp only [String.toList_append, append_assoc] at hend ⊢
    rw [hend]
  refine ⟨(Str.split ' ' ("NETWORK=" ++ network)).filter (!·.isEmpty), ?_⟩
  have hsplit : (Str.split ' ' (Str.join " " fixedTokens)).filter (!·.isEmpty) = fixedTokens := by
    decide
  rw [← hsplit]
  simp only [Network.isupportTokens, Str.split, htokens, splitOn]
  rw [splitOnP_append_cons _ _ (by decide), map_append, filter_append]

/-- Whatever the tokens before them say, the fixed ones make the server plain. -/
theorem apply_isupportTokens (i : Ddirc.Client.ISupport) (network description : String)
    (hdesc : Str.contains description ' ') :
    let i' := i.apply (Network.isupportTokens network ++ [description])
    i'.casemapping = .ascii ∧ i'.prefixes = ⟨[('o', '@')]⟩ := by
  obtain ⟨named, h⟩ := isupportTokens_eq network
  have hlast (i : Ddirc.Client.ISupport) : i.applyToken description = i := by
    rw [Ddirc.Client.ISupport.applyToken, if_pos hdesc]
  simp only [Ddirc.Client.ISupport.apply, h, foldl_append, foldl_cons, foldl_nil,
    hlast]
  exact ⟨rfl, rfl⟩

/-- The session of a client that was just welcomed, by a server whose tokens make it plain. -/
theorem welcome_session [LineReader] (start text : String) {tokens : List String}
    (htokens : ∀ i : Ddirc.Client.ISupport,
      (i.apply tokens).casemapping = .ascii ∧ (i.apply tokens).prefixes = ⟨[('o', '@')]⟩)
    {m n : Message} (hm : m.command = .response .rplWelcome [nick, text])
    (hn : n.command = .response .rplISupport (nick :: tokens)) :
    let s := ((Session.init start).receive m.reread).receive n.reread
    s.Plain ∧ s.view = (fun _ => none) ∧ s.nick = Str.takeChars Ddirc.Client.maxNick nick := by
  have hfirst : (Session.init start).receive m.reread = (Session.init start).setNick nick := by
    rw [Message.reread_cooked (by simp [hm])]
    simp [Session.receive, hm]
  have hsecond (t : Session) : t.receive n.reread = t.onIsupport (nick :: tokens) := by
    rw [Message.reread_cooked (by simp [hn])]
    simp [Session.receive, hn]
  have hargs (t : Session) (args : List String) (ht : t.channels = ∅) :
      (t.onIsupport args).isupport = t.isupport.apply args ∧
      (t.onIsupport args).channels = ∅ ∧ (t.onIsupport args).nick = t.nick := by
    simp only [Session.onIsupport]
    split
    · refine ⟨rfl, ?_, rfl⟩
      simp only [Session.rekey, ht]
      rfl
    · exact ⟨rfl, ht, rfl⟩
  obtain ⟨hi, hch, hn⟩ := hargs ((Session.init start).setNick nick) (nick :: tokens) rfl
  simp only [hfirst, hsecond]
  refine ⟨?_, ?_, hn⟩
  · -- the nick comes first, read as a token like the others
    obtain ⟨hmap, hpre⟩ := htokens (((Session.init start).setNick nick).isupport.applyToken nick)
    exact ⟨(congrArg (·.casemapping) hi).trans hmap, (congrArg (·.prefixes) hi).trans hpre⟩
  · funext key
    exact congrArg (fun m : Map String Ddirc.Client.Channel =>
      (m.lookup key).map Ddirc.Client.Channel.view) hch

theorem Follows.welcome [LineReader] (F : Follows start r) (text : String)
    (hid : r.clients id = some client)
    (hreg : client.registered = false) (hnick : client.nick = some nick) :
    let s := sessionFrom start ((r.register id text).told id)
    s.Plain ∧ s.view = (fun _ => none) ∧ s.nick = Str.takeChars Ddirc.Client.maxNick nick := by
  let r₁ := r.modifyClient id ({ · with registered := true })
  have hc₁ : r₁.clients id = some { client with registered := true } := by
    simp [r₁, modifyClient, hid]
  have hof : r₁.nickOf id = nick := by simp [nickOf, hc₁, hnick]
  have hc₂ : (r₁.numeric id .rplWelcome [text]).clients id =
      some { client with registered := true } := hc₁
  have hof₂ : (r₁.numeric id .rplWelcome [text]).nickOf id = nick := hof
  obtain ⟨m, n, hm, hn, htold⟩ : ∃ m n : Message,
      m.command = .response .rplWelcome [nick, text] ∧
      n.command = .response .rplISupport
        (nick :: (Network.isupportTokens r.networkName ++ ["are supported by this server"])) ∧
      sessionFrom start ((r.register id text).told id) =
        ((sessionFrom start (r.told id)).receive m.reread).receive n.reread := by
    refine ⟨_, _, ?_, ?_, (sessionFrom_tell (· = id) _ hc₂).trans ((if_pos rfl).trans
      (congrArg (Session.receive · _) ((sessionFrom_tell (· = id) _ hc₁).trans (if_pos rfl))))⟩
    · rw [hof]
    · rw [hof₂]
      rfl
  rw [htold, F.before hid hreg]
  exact welcome_session start text
    (fun i => apply_isupportTokens i r.networkName "are supported by this server" (by decide)) hm hn

theorem Follows.register [LineReader] (F : Follows start r) (H : r.Consistent) (S : r.Spoken)
    (hid : r.clients id = some client) (hreg : client.registered = false)
    (hnick : client.nick = some nick) : Follows start (r.register id text) := by
  have H' : (r.register id text).Consistent := H.step (.registers id text hid hreg hnick)
  have hnicks (j) : (r.register id text).nickAt j = r.nickAt j :=
    nickAt_modifyClient (r := r) fun _ => rfl
  have hroll (room) : (r.register id text).roll room = r.roll room :=
    H.roll_congr H' fun j _ => hnicks j
  have hold {i c} (hc : (r.register id text).clients i = some c) :
      (i = id ∧ c.registered) ∨ (i ≠ id ∧ r.clients i = some c) := by
    rcases modifyClient_eq_some.1 hc with ⟨rfl, c, -, rfl⟩ | ⟨hi, hc⟩
    · exact .inl ⟨rfl, rfl⟩
    · exact .inr ⟨hi, hc⟩
  have htold {i} (hi : i ≠ id) : (r.register id text).told i = r.told i := by
    simp [Roster.register, numeric, tell, modifyClient, hi]
  constructor
  · intro i c hc hfalse
    rcases hold hc with ⟨-, htrue⟩ | ⟨hi, hc⟩
    · simp [htrue] at hfalse
    · rw [htold hi]
      exact F.before hc hfalse
  · intro i c hc htrue
    rcases hold hc with ⟨rfl, -⟩ | ⟨hi, hc⟩
    · have hat : r.nickAt i = some nick := by simp [nickAt, hid, hnick]
      obtain ⟨hplain, hview, hown⟩ := F.welcome text hid hreg hnick
      refine ⟨hplain, ?_, ?_, ?_⟩
      · intro key v hv
        simp [hview] at hv
      · rw [hnicks, hat, hown, (S.sayable hat).short]
      · -- nobody is in a channel before being registered
        intro key room hroom hi
        obtain ⟨c, hc, hreg'⟩ := H.registered hroom hi
        obtain rfl := Option.some.inj (hid.symm.trans hc)
        simp [hreg] at hreg'
    · rw [htold hi]
      exact (F.after hc htrue).congr (hnicks i) fun key room hroom _ => ⟨hroom, hroll room⟩

end Ddirc.Server.Roster
