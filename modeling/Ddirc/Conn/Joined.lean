import Ddirc.Client.Keys
import Ddirc.Conn.Flood

/-! # The channels that we are in

`Standing` is what the server's own messages say of us: the nick we have, and the channels that a
`JOIN` of ours was told for and no departure since. The session tracks exactly these, up to its
bound, in every run in which no list of names comes for another channel and nothing is cut
(`tracked_of_fits`). -/

namespace Ddirc.Conn
open Irc Client Option Session
open Str (takeChars)

/-- Where we stand with the server, by what it sent. -/
structure Standing where
  nick : String
  /-- The channels we joined and did not leave, as the server wrote them. -/
  joined : List String := []
  deriving Repr, DecidableEq

namespace Standing

def isSelf (p : Standing) (mapping : CaseMapping) (nick : String) : Bool := mapping.eq nick p.nick

def isIn (p : Standing) (mapping : CaseMapping) (channel : String) : Bool :=
  p.joined.any fun j => mapping.normalize j = mapping.normalize channel

def count (p : Standing) (mapping : CaseMapping) : Nat :=
  (p.joined.map mapping.normalize).toFinset.card

def enter (p : Standing) (mapping : CaseMapping) (channel : String) : Standing :=
  if p.isIn mapping channel || p.count mapping < maxChannels then
    { p with joined := channel :: p.joined }
  else p

def leave (p : Standing) (mapping : CaseMapping) (channel : String) : Standing :=
  { p with joined := p.joined.filter fun j => mapping.normalize j ≠ mapping.normalize channel }

/-- What a message says of us, on a server with this case mapping. -/
def receive (p : Standing) (mapping : CaseMapping) (m : Message) : Standing :=
  match m.command, m.sourceNickname with
  | .response .rplWelcome args, _ => { p with nick := args.head?.getD p.nick }
  | .nick new, some old => if p.isSelf mapping old then { p with nick := new } else p
  | .join channel _ _, some nick => if p.isSelf mapping nick then p.enter mapping channel else p
  | .part channel _, some nick => if p.isSelf mapping nick then p.leave mapping channel else p
  | .kick channel victim _, _ => if p.isSelf mapping victim then p.leave mapping channel else p
  | .quit _, some nick => if p.isSelf mapping nick then { p with joined := [] } else p
  | _, _ => p

/-- A nick given to us is within its bound; names are listed for a channel we are in, or come when
there is no room; and a new case mapping finds no channel name over its bound, and none to tell from
another that was the same. -/
def Fits (p : Standing) (isupport : ISupport) (m : Message) : Prop :=
  let mapping := isupport.casemapping
  match m.command, m.sourceNickname with
  | .response .rplWelcome args, _ => ∀ nick ∈ args.head?, nick.length ≤ maxNick
  | .nick new, some old => p.isSelf mapping old = true → new.length ≤ maxNick
  | .response .rplNamReply args, _ => ∀ channel ∈ args[2]?, args[3]?.isSome = true →
      p.isIn mapping channel = true ∨ maxChannels ≤ p.count mapping
  | .response .rplISupport args, _ =>
      let mapping' := (isupport.apply args).casemapping
      mapping' ≠ mapping → ∀ j ∈ p.joined, j.length ≤ maxChannelName ∧ ∀ j' ∈ p.joined,
        mapping.normalize j' = mapping.normalize j → mapping'.normalize j' = mapping'.normalize j
  | _, _ => True

instance (p : Standing) (isupport : ISupport) (m : Message) : Decidable (p.Fits isupport m) := by
  unfold Fits
  split <;> infer_instance

end Standing

/-! ## One message -/

/-- The session tracks the channels we are in, each as one of the names it was joined by. -/
structure Stands (s : Session) (p : Standing) : Prop where
  nick : s.nick = p.nick
  tracked : ∀ key, (s.names key).isSome = true ↔ ∃ j ∈ p.joined, s.normalize j = key
  spelled : ∀ key t, s.names key = some t →
    ∃ j ∈ p.joined, s.normalize j = key ∧ takeChars maxChannelName j = t

namespace Stands

variable {s s' : Session} {p : Standing} {channel nick : String}

theorem isSelf (h : Stands s p) (nick : String) :
    s.isSelf nick = p.isSelf s.isupport.casemapping nick := by
  rw [Session.isSelf, h.nick, Standing.isSelf]

theorem isIn (h : Stands s p) (channel : String) :
    (s.names (s.normalize channel)).isSome = p.isIn s.isupport.casemapping channel := by
  rw [Bool.eq_iff_iff, h.tracked, Standing.isIn, List.any_eq_true]
  simp only [decide_eq_true_eq]
  rfl

theorem count (h : Stands s p) : s.channels.entries.length = p.count s.isupport.casemapping := by
  rw [← card_tracked]
  congr 1
  ext key
  rw [mem_tracked, Session.view, isSome_map, List.mem_toFinset, List.mem_map]
  have htracked := h.tracked key
  rw [Session.names, isSome_map] at htracked
  exact htracked

theorem normalize_eq (h : s'.isupport.casemapping = s.isupport.casemapping) :
    s'.normalize = s.normalize := by
  funext name
  rw [Session.normalize, Session.normalize, h]

theorem renamed (h : Stands s p) (hnick : s'.nick = nick)
    (hmapping : s'.isupport.casemapping = s.isupport.casemapping) (hnames : s'.names = s.names) :
    Stands s' { p with nick } := by
  have hnormalize := normalize_eq hmapping
  refine ⟨hnick, ?_, ?_⟩
  · rw [hnames, hnormalize]
    exact h.tracked
  · rw [hnames, hnormalize]
    exact h.spelled

theorem same (h : Stands s p) (hnick : s'.nick = s.nick)
    (hmapping : s'.isupport.casemapping = s.isupport.casemapping) (hnames : s'.names = s.names) :
    Stands s' p :=
  h.renamed (hnick.trans h.nick) hmapping hnames

theorem add (h : Stands s p) (hnick : s'.nick = s.nick)
    (hmapping : s'.isupport.casemapping = s.isupport.casemapping)
    (hnames : s'.names = s.namesWith (some channel)) :
    Stands s' { p with joined := channel :: p.joined } := by
  have hnormalize := normalize_eq hmapping
  have hlookup (key : String) : s'.names key = (s.names key).or
      (if s.normalize channel = key then some (takeChars maxChannelName channel) else none) := by
    rw [hnames, Session.namesWith, filter_some]
    by_cases hkey : s.normalize channel = key <;> simp
  refine ⟨hnick.trans h.nick, fun key => ?_, fun key t ht => ?_⟩
  · rw [hlookup, hnormalize, isSome_or, Bool.or_eq_true, h.tracked, List.exists_mem_cons_iff,
      or_comm]
    refine or_congr_left ?_
    split
    next hkey => exact iff_of_true rfl hkey
    next hkey => exact iff_of_false Bool.false_ne_true hkey
  · rw [hlookup] at ht
    rw [hnormalize]
    cases hkey : s.names key with
    | some t' =>
      rw [hkey] at ht
      obtain ⟨j, hj, hspelled⟩ := h.spelled key t (hkey.trans ht)
      exact ⟨j, List.mem_cons_of_mem _ hj, hspelled⟩
    | none =>
      rw [hkey] at ht
      split at ht
      next hkey => exact ⟨channel, List.mem_cons_self, hkey, some.inj ht⟩
      · cases ht

theorem enter (h : Stands s p) (hnick : s'.nick = s.nick)
    (hmapping : s'.isupport.casemapping = s.isupport.casemapping) (hnames : s'.names = s.namesWith
      (if s.channels.entries.length ≥ maxChannels then none else some channel)) :
    Stands s' (p.enter s.isupport.casemapping channel) := by
  rw [h.count] at hnames
  rw [Standing.enter]
  split
  next hcounts =>
    refine h.add hnick hmapping ?_
    rw [hnames]
    split
    next hfull =>
      -- without room it is added only if it was tracked already
      have hin : (s.names (s.normalize channel)).isSome := by
        rw [h.isIn]
        simpa [Nat.not_lt.2 hfull] using hcounts
      rw [Session.names, isSome_map] at hin
      rw [namesWith_none, namesWith_of_tracked hin]
    · rfl
  next hcounts =>
    have hfull : p.count s.isupport.casemapping ≥ maxChannels := by
      simp only [Bool.or_eq_true, decide_eq_true_eq, not_or] at hcounts
      exact Nat.not_lt.1 hcounts.2
    rw [if_pos hfull, namesWith_none] at hnames
    exact h.same hnick hmapping hnames

theorem leave (h : Stands s p) (hnick : s'.nick = s.nick)
    (hmapping : s'.isupport.casemapping = s.isupport.casemapping)
    (hnames : s'.names = Function.update s.names (s.normalize channel) none) :
    Stands s' (p.leave s.isupport.casemapping channel) := by
  have hnormalize := normalize_eq hmapping
  have hjoined {j : String} : j ∈ (p.leave s.isupport.casemapping channel).joined ↔
      j ∈ p.joined ∧ s.normalize j ≠ s.normalize channel := by
    simp [Standing.leave, Session.normalize]
  refine ⟨hnick.trans h.nick, fun key => ?_, fun key t ht => ?_⟩
  · rw [hnames, hnormalize, Function.update_apply]
    split
    next hk =>
      subst hk
      refine iff_of_false Bool.false_ne_true ?_
      rintro ⟨j, hj, hkey⟩
      exact (hjoined.1 hj).2 hkey
    next hk =>
      rw [h.tracked]
      constructor
      · rintro ⟨j, hj, rfl⟩
        exact ⟨j, hjoined.2 ⟨hj, hk⟩, rfl⟩
      · rintro ⟨j, hj, rfl⟩
        exact ⟨j, (hjoined.1 hj).1, rfl⟩
  · rw [hnames, Function.update_apply] at ht
    split at ht
    · cases ht
    next hk =>
      obtain ⟨j, hj, rfl, hspelled⟩ := h.spelled key t ht
      rw [hnormalize]
      exact ⟨j, hjoined.2 ⟨hj, hk⟩, rfl, hspelled⟩

theorem onPart (h : Stands s p) : Stands (s.onPart channel nick).1
    (if p.isSelf s.isupport.casemapping nick then p.leave s.isupport.casemapping channel
      else p) := by
  have hnames : (s.onPart channel nick).1.names = _ := names_onPart
  rw [← h.isSelf]
  split
  next hself =>
    rw [if_pos hself] at hnames
    exact h.leave nick_onPart (congrArg _ isupport_onPart) hnames
  next hself =>
    rw [if_neg hself] at hnames
    exact h.same nick_onPart (congrArg _ isupport_onPart) hnames

/-- New keys are made of the names that the channels were joined by. -/
theorem onIsupport (h : Stands s p)
    (hfits : (s.isupport.apply args).casemapping ≠ s.isupport.casemapping →
      ∀ j ∈ p.joined, j.length ≤ maxChannelName ∧ ∀ j' ∈ p.joined,
        s.normalize j' = s.normalize j → (s.isupport.apply args).casemapping.normalize j' =
          (s.isupport.apply args).casemapping.normalize j) : Stands (s.onIsupport args) p := by
  simp only [Session.onIsupport]
  split
  next hne =>
    replace hfits := hfits hne
    -- a channel is spelled as one of the names it was joined by
    have hfiled {key : String} {c : Channel} (hc : s.channels.lookup key = some c) :
        c.name ∈ p.joined ∧ s.normalize c.name = key := by
      have hname : s.names key = some c.name := by rw [Session.names, hc]; rfl
      obtain ⟨j, hj, hkey, hspelled⟩ := h.spelled key c.name hname
      rw [takeChars_of_length_le (hfits j hj).1] at hspelled
      exact hspelled ▸ ⟨hj, hkey⟩
    refine ⟨h.nick, fun key => ?_, fun key t ht => ?_⟩
    · rw [Session.names, isSome_map, rekey_channels, Map.isSome_lookup_fileAll]
      refine (or_iff_right (by simp)).trans ⟨?_, ?_⟩
      · rintro ⟨c, hc, rfl⟩
        obtain ⟨key, hc⟩ := Map.mem_values.1 hc
        exact ⟨c.name, (hfiled hc).1, rfl⟩
      · rintro ⟨j, hj, rfl⟩
        have htracked := (h.tracked _).2 ⟨j, hj, rfl⟩
        rw [Session.names, isSome_map] at htracked
        obtain ⟨c, hc⟩ := isSome_iff_exists.1 htracked
        obtain ⟨hname, hkey⟩ := hfiled hc
        exact ⟨c, Map.mem_values.2 ⟨_, hc⟩, (hfits j hj).2 _ hname hkey⟩
    · obtain ⟨c', hc', rfl⟩ := map_eq_some_iff.1 ht
      rcases Map.lookup_fileAll hc' with ⟨hc', -⟩ | ⟨c, hc, hkey, rfl⟩
      · cases hc'
      · obtain ⟨_, hc⟩ := Map.mem_values.1 hc
        have hname := (hfiled hc).1
        exact ⟨c.name, hname, hkey, takeChars_of_length_le (hfits _ hname).1⟩
  next hsame => exact h.same rfl (not_not.1 hsame) rfl

/-- What a message does to the session is what it says of us. -/
theorem receive (h : Stands s p) (hfits : p.Fits s.isupport m) :
    Stands (s.receive m) (p.receive s.isupport.casemapping m) := by
  -- a message that is not about us
  have hsame (hwelcome : ∀ args, m.command ≠ .response .rplWelcome args)
      (hisupport : ∀ args, m.command ≠ .response .rplISupport args)
      (hnick : ∀ new, m.command ≠ .nick new) (hsettled : s.settled m)
      (hdeparts : s.departs m = none) (harrives : s.arrives m = none) : Stands (s.receive m) p := by
    refine h.same (nick_receive hwelcome hnick) (by rw [isupport_receive hisupport]) ?_
    rw [names_receive hsettled, hdeparts, harrives, namesAfter_none]
  obtain ⟨tags, source, command⟩ := m
  cases command with
  | response r args =>
    cases r with
    | rplWelcome =>
      simp only [Standing.receive, Session.receive]
      cases hargs : args.head? with
      | none => exact h.same rfl rfl rfl
      | some nick =>
        have hlen : nick.length ≤ maxNick := hfits nick hargs
        exact h.renamed (takeChars_of_length_le hlen) rfl rfl
    | rplISupport => exact h.onIsupport hfits
    | rplNamReply =>
      simp only [Session.receive]
      split
      next channel names hchannel hnames =>
        -- the list is for a channel that is tracked, or comes when there is no room
        refine h.same nick_onNamesReply (by rw [isupport_onNamesReply]) ?_
        rw [names_onNamesReply]
        split
        · exact namesWith_none
        next hroom =>
          rcases hfits channel hchannel (by rw [hnames]; rfl) with hin | hfull
          · rw [← h.isIn, Session.names, isSome_map] at hin
            exact namesWith_of_tracked hin
          · exact absurd (h.count ▸ hfull) hroom
      · exact h
    | _ => exact hsame (by simp) (by simp) (by simp) rfl rfl (ite_self _)
  | join channel keys real =>
    rcases source with _ | ⟨nick, user, host⟩ | name
    · exact h
    · have hnames : (s.onJoin channel nick).1.names = _ := names_onJoin
      simp only [Standing.receive, Message.sourceNickname, ← h.isSelf nick]
      cases hself : s.isSelf nick with
      | true =>
        rw [hself] at hnames
        exact h.enter nick_onJoin (congrArg _ isupport_onJoin) hnames
      | false =>
        rw [hself, if_neg Bool.false_ne_true, ite_self, namesWith_none] at hnames
        exact h.same nick_onJoin (congrArg _ isupport_onJoin) hnames
    · exact h
  | part channel reason =>
    rcases source with _ | ⟨nick, user, host⟩ | name
    · exact h
    · exact h.onPart
    · exact h
  | kick channel victim reason => exact h.onPart
  | quit reason =>
    rcases source with _ | ⟨nick, user, host⟩ | name
    · exact h
    · simp only [Standing.receive, Message.sourceNickname, ← h.isSelf nick]
      cases hself : s.isSelf nick with
      | true =>
        have hquit : (s.onQuit nick).1 = { s with channels := ∅ } := by
          simp only [Session.onQuit, hself, if_true]
        refine (congrArg (Stands · _) hquit).mpr ⟨h.nick, fun key => ?_, by rintro _ _ ⟨⟩⟩
        exact iff_of_false Bool.false_ne_true (by simp)
      | false =>
        exact h.same nick_onQuit (congrArg _ isupport_onQuit)
          (names_onQuit hself)
    · exact h
  | nick new =>
    rcases source with _ | ⟨old, user, host⟩ | name
    · exact h
    · have hnick : (s.onNickChange old new).1.nick = _ := nick_onNickChange
      have hmapping : (s.onNickChange old new).1.isupport.casemapping = _ :=
        congrArg _ isupport_onNickChange
      have hnames : (s.onNickChange old new).1.names = _ := names_onNickChange
      simp only [Standing.receive, Message.sourceNickname]
      rw [h.isSelf] at hnick
      split
      next hself =>
        rw [if_pos hself, takeChars_of_length_le (hfits hself)] at hnick
        exact h.renamed hnick hmapping hnames
      next hself =>
        rw [if_neg hself] at hnick
        exact h.same hnick hmapping hnames
    · exact h
  | _ => exact hsame (by simp) (by simp) (by simp) rfl rfl (ite_self _)

end Stands

/-! ## Whole connections -/

/-- A connection, and where we stand by the messages that it handled. -/
structure Watched where
  connection : Connection
  standing : Standing

namespace Watched

def mapping (w : Watched) : CaseMapping := w.connection.session.isupport.casemapping

def start (config : ServerConfig) (transfers : Transfers) (listing : Option Listing)
    (recvLimiter : ReceiveLimiter) (now : Instant) : Watched where
  connection := (Connection.start config transfers listing recvLimiter now).1
  standing := { nick := config.nickname }

/-- One turn of the loop. A message that flood protection refuses is not handled. -/
def step (w : Watched) (i : Input) : Watched × Turn :=
  let (c, turn) := w.connection.step i
  let standing := match i with
    | .message _ m => if turn.dropped then w.standing else w.standing.receive w.mapping m
    | _ => w.standing
  ({ connection := c, standing }, turn)

def Fits (w : Watched) : Input → Prop
  | .message _ m => w.standing.Fits w.connection.session.isupport m
  | _ => True

instance (w : Watched) : (i : Input) → Decidable (w.Fits i)
  | .message _ m => inferInstanceAs (Decidable (w.standing.Fits w.connection.session.isupport m))
  | .deadline | .flush _ | .listChannels => inferInstanceAs (Decidable True)

theorem stands_start (hnick : config.nickname.length ≤ maxNick) :
    Stands (start config transfers listing recvLimiter now).connection.session
      (start config transfers listing recvLimiter now).standing where
  nick := takeChars_of_length_le hnick
  tracked key := iff_of_false Bool.false_ne_true (by simp [start])
  spelled := nofun

theorem stands_step {w : Watched} (h : Stands w.connection.session w.standing) {i : Input}
    (hfits : w.Fits i) : Stands (w.step i).1.connection.session (w.step i).1.standing := by
  cases i with
  | message now m =>
    have hsession : (w.connection.step (.message now m)).1.session =
        if (w.connection.step (.message now m)).2.dropped then w.connection.session
        else w.connection.session.receive m := Connection.onMessage_session w.connection now m
    simp only [step]
    rw [hsession]
    by_cases hdropped : (w.connection.step (.message now m)).2.dropped
    · rw [if_pos hdropped, if_pos hdropped]
      exact h
    · rw [if_neg hdropped, if_neg hdropped]
      exact h.receive hfits
  | _ =>
    simp only [step]
    rw [(Connection.step_other w.connection rfl).1]
    exact h

/-- In every run of a connection whose messages give us no nick over its bound, list no names for
a channel that we are not in, and change the case mapping only among names that stay apart, the
channels tracked are those we are in. -/
theorem tracked_of_fits (config : ServerConfig) (transfers : Transfers) (listing : Option Listing)
    (recvLimiter : ReceiveLimiter) (now : Instant) (hnick : config.nickname.length ≤ maxNick)
    (inputs : List Input)
    (h : Run.Along step Fits (start config transfers listing recvLimiter now) inputs)
    (channel : String) :
    let w := Run.after step (start config transfers listing recvLimiter now) inputs
    (w.connection.session.channel channel).isSome = w.standing.isIn w.mapping channel := by
  intro w
  have hstands : Stands w.connection.session w.standing :=
    h.induction (I := fun w : Watched => Stands w.connection.session w.standing)
      (stands_start hnick)
      fun _ _ hw hi => stands_step hw hi
  rw [mapping, ← hstands.isIn, names_normalize, isSome_map]

def fresh : Watched := start { nickname := "me" } {} none (.init 0) 0

def told (source : String) (command : Command) : Input :=
  .message 0 { source := some (.nickname source "u" "h"), command }

def moves : List Input :=
  [.message 0 { command := .response .rplWelcome ["me", "Welcome"] },
    .message 0 { command := .response .rplISupport ["me", "CASEMAPPING=ascii"] },
    told "me" (.join "#den" none none), told "you" (.join "#den" none none),
    .message 0 { command := .response .rplNamReply ["me", "=", "#DEN", "@you me"] },
    told "me" (.join "#hall" none none), told "me" (.nick "Mine"),
    told "you" (.kick "#Den" "mine" none), told "you" (.part "#hall" none)]

theorem tracked_of_fits_moves : Run.Along step Fits fresh moves ∧
    ((Run.after step fresh moves).connection.session.channel "#Hall").isSome =
      (Run.after step fresh moves).standing.isIn (Run.after step fresh moves).mapping "#Hall" ∧
    (Run.after step fresh moves).standing.joined = ["#hall"] := by
  have h : Run.Along step Fits fresh moves := by decide +kernel
  exact ⟨h, tracked_of_fits _ _ _ _ _ (by decide) moves h "#Hall", by decide +kernel⟩

/-- A list of names makes a channel that we never joined. -/
theorem tracked_unjoined :
    let w := Run.after step fresh
      [.message 0 { command := .response .rplNamReply ["me", "=", "#den", "@you"] }]
    (w.connection.session.channel "#den").isSome = true ∧ w.standing.joined = [] := by
  decide +kernel

end Watched

end Ddirc.Conn
