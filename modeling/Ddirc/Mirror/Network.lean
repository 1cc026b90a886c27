import Ddirc.Server.Invariant
import Ddirc.Mirror.Run

/-! # Every client's roster is the server's

Along a run of the server, feed each client's session the messages queued to it. In every state it
shows, for each channel the client is in, exactly the server's members and operators, provided each
`JOIN` finds room among the channels the session tracks. -/

namespace Ddirc
namespace Server
open Irc
open Ddirc.Client (Session maxMembers maxChannels)

theorem receive_quiet [LineReader] {s : Session} {m : Message}
    (h : tellsRoster m.command = false) : s.receive m.reread = s := by
  have hread : m.reread = m := by
    rw [Message.reread]
    cases hm : m.command with
    | raw command args =>
      rw [LineReader.reread_raw args fun hmode => by simp [hm, hmode, tellsRoster] at h, ← hm]
    | _ => rw [LineReader.reread_cooked (by simp), ← hm]
  rw [hread]
  obtain ⟨tags, source, command⟩ := m
  cases command with
  | join | part | kick | quit | nick | channelMode | away => cases h
  | topic channel topic =>
    cases topic with
    | none => rfl
    | some topic => cases h
  | response response args =>
    cases response with
    | rplWelcome | rplISupport | rplNamReply | rplEndOfNames | rplTopic => cases h
    | _ => rfl
  | _ => rfl

namespace Network

variable {n : Network} {i id : ClientId} {start nick : String}

/-- The session of client `i`, fed what the server has queued to it. -/
def sessionOf [LineReader] (n : Network) (start : String) (i : ClientId) : Session :=
  Roster.sessionFrom start (n.queues i)

theorem sessionOf_eq [LineReader] :
    n.sessionOf start i = Roster.sessionFrom start (n.roster.told i) := by
  simp only [sessionOf, Roster.sessionFrom, roster]
  generalize Session.init start = s
  induction n.queues i generalizing s with
  | nil => rfl
  | cons m l ih =>
    rw [List.foldl_cons, ih, List.filter_cons]
    split
    · rfl
    next h => rw [receive_quiet (by simpa using h)]

/-- What a run is assumed to stay within: nicks are single words, nobody is in more channels than a
session tracks, and no channel has more members than a session keeps. -/
structure Modest (n : Network) : Prop where
  words {id c nick} : n.clients.lookup id = some c → c.nick = some nick →
    ¬nick.toList.any Str.isWhitespace
  channels {id c} : n.clients.lookup id = some c → c.channels.card ≤ maxChannels
  members {key ch} : n.channels.lookup key = some ch → ch.members.card ≤ maxMembers

instance : Decidable (Modest n) :=
  decidable_of_iff
    ((∀ e ∈ n.clients.entries, (∀ nick ∈ e.2.nick, ¬nick.toList.any Str.isWhitespace) ∧
      e.2.channels.card ≤ maxChannels) ∧ ∀ e ∈ n.channels.entries, e.2.members.card ≤ maxMembers)
    ⟨fun h => ⟨fun hc hn => (h.1 _ (Map.mem_entries_iff.2 hc)).1 _ hn,
        fun hc => (h.1 _ (Map.mem_entries_iff.2 hc)).2,
          fun hch => h.2 _ (Map.mem_entries_iff.2 hch)⟩,
      fun h => ⟨fun _ he => ⟨fun _ hn => h.words (Map.mem_entries_iff.1 he) hn,
        h.channels (Map.mem_entries_iff.1 he)⟩, fun _ he => h.members (Map.mem_entries_iff.1 he)⟩⟩

def asked (targets : String) : Finset String :=
  (((Str.split ',' targets).map Str.trim).filter validChannel).map fold |>.toFinset

def joins : Operation → Option (ClientId × Finset String)
  | .handle id ⟨_, _, .join targets _ _⟩ => some (id, asked targets)
  | _ => none

/-- A `JOIN` finds room: what the sender's session tracks and what it asks for are not too many
together. -/
def HasRoom [LineReader] (start : String) (n : Network) (op : Operation) : Prop :=
  ∀ p ∈ joins op, n.isRegistered p.1 →
    ((n.sessionOf start p.1).tracked ∪ p.2).card ≤ maxChannels

instance [LineReader] : Decidable (HasRoom start n op) := inferInstanceAs (Decidable (∀ _ ∈ _, _))

theorem nickAt_roster : n.roster.nickAt i = (n.clients.lookup i).bind (·.nick) := by
  simp only [Roster.nickAt, roster]
  cases n.clients.lookup i <;> rfl

theorem nickAt_tryRegister : (n.tryRegister id).roster.nickAt i = n.roster.nickAt i := by
  simp only [tryRegister]
  split
  · rw [roster_emit, roster_sendWelcome,
      roster_modifyClient (g := ({ · with registered := true })) fun _ => rfl]
    exact Roster.nickAt_modifyClient (r := n.roster) fun _ => rfl
  · rfl

/-- A `NICK` that changes anything leaves its sender with the nick. -/
theorem onNick_nick (typed : String) (hc : n.clients.lookup id = some client) :
    (n.onNick id typed).roster = n.roster ∨
      (n.onNick id typed).roster.nickAt id = some (Str.trim typed) := by
  have hclaim (nick : String) : (n.claimNick id nick).roster.nickAt id = some nick := by
    rw [roster_claimNick, Roster.nickAt_claim (clients_roster hc), if_pos rfl]
  rcases onNick_cases n id typed with ⟨response, args, hr, h⟩ | h
  · rw [h]
    exact .inl (roster_numericArgs_quiet hr)
  rw [h]
  refine .inr ?_
  simp only [changeNick]
  split
  · split
    · have htell (m : Network) (msg : Message) :
          (m.tellPeers id msg true).roster.nickAt id = m.roster.nickAt id := by
        rw [nickAt_roster, nickAt_roster, tellPeers]
        split <;> rfl
      rw [htell, roster_emit, hclaim]
    · exact hclaim _
  · exact hclaim _
  · rw [nickAt_tryRegister, hclaim]

theorem init_follows [LineReader] (start server network : String) (now : Nat) :
    Roster.Follows start (init server network now).roster ∧
      (init server network now).roster.Spoken := by
  refine ⟨⟨fun h => ?_, fun h => ?_⟩, ⟨fun h => ?_, fun h => ?_, fun h => ?_⟩⟩
  all_goals simp_all [Roster.nickAt, roster, init]

theorem ReachableBy.follows [LineReader]
    (h : ReachableBy (fun n op => Modest (n.apply op) ∧ n.HasRoom start op) n) :
    Roster.Follows start n.roster ∧ n.roster.Spoken ∧ n.roster.Bounded := by
  induction h with
  | init server network now =>
    obtain ⟨F, S⟩ := init_follows start server network now
    exact ⟨F, S, fun key room hroom => by cases (hroom : none = some room)⟩
  | @step n op hreach hop hP ih =>
    obtain ⟨F, S, B⟩ := ih
    obtain ⟨hmodest, hroom⟩ := hP
    have H := hreach.consistent
    have B' : (n.apply op).roster.Bounded := by
      intro key room hroom
      obtain ⟨ch, hch, rfl⟩ := Option.map_eq_some_iff.1 hroom
      exact hmodest.members hch
    suffices h : Roster.Follows start (n.apply op).roster ∧ (n.apply op).roster.Spoken from
      ⟨h.1, h.2, B'⟩
    have hs := apply_steps hop
    have hquiet (h : letsIn op = Roster.Quiet) :
        Roster.Follows start (n.apply op).roster ∧ (n.apply op).roster.Spoken := by
      rw [h] at hs
      refine Roster.Follows.steps hs F H S B ?_ ?_
      · rintro _ _ ⟨⟩
      · rintro _ ⟨⟩
    cases op with
    | handle id message =>
      cases hcmd : message.command with
      | nick nick =>
        have hlets : letsIn (.handle id message) = Claims (Str.trim nick) := by
          simp only [letsIn, hcmd]
          rfl
        cases hc : n.clients.lookup id with
        | none =>
          have hsame : n.apply (.handle id message) = n := by simp [apply, handle, hc]
          rw [hsame]
          exact ⟨F, S⟩
        | some client =>
          have hon : n.apply (.handle id message) = n.onNick id nick := by
            simp [apply, handle, hc, hcmd]
          rcases onNick_nick nick hc with hsame | hnick
          · rw [hon, hsame]
            exact ⟨F, S⟩
          · rw [hlets] at hs
            refine Roster.Follows.steps hs F H S B ?_ ?_
            · rintro _ _ (h | h) <;> cases h
            · rintro _ (h | h)
              · cases h
              · obtain rfl := Roster.Label.claim.inj h
                rw [← hon, nickAt_roster, Option.bind_eq_some_iff] at hnick
                obtain ⟨c, hc, hnick⟩ := hnick
                simpa using hmodest.words hc hnick
      | join targets keys real =>
        have hlets : letsIn (.handle id message) = fun l => ∃ target ∈ Str.split ',' targets,
            l = .enter id (Str.trim target) := by
          simp only [letsIn, hcmd]
          rfl
        by_cases hreg : n.isRegistered id
        · rw [hlets] at hs
          have hjoin : (id, asked targets) ∈ joins (.handle id message) := by
            obtain ⟨tags, source, command⟩ := message
            obtain rfl : command = .join targets keys real := hcmd
            rfl
          refine Roster.Follows.joins hs ?_ F H S B' (sessionOf_eq ▸ hroom _ hjoin hreg)
          rintro _ ⟨target, ht, rfl⟩
          refine ⟨Str.trim target, rfl, fun hv => ?_⟩
          simp only [asked, List.mem_toFinset, List.mem_map, List.mem_filter]
          exact ⟨Str.trim target, ⟨⟨target, ht, rfl⟩, hv⟩, rfl⟩
        · have hsame : (n.apply (.handle id message)).roster = n.roster := by
            simp only [apply, handle, hcmd]
            split
            · rfl
            · exact roster_numeric_quiet rfl
          rw [hsame]
          exact ⟨F, S⟩
      | _ => exact hquiet (by simp only [letsIn, hcmd]; rfl)
    | _ => exact hquiet rfl

/-- In every state of a run whose joins find room, the session fed what the server queued to a
registered client shows each channel that client is in with exactly the server's members, under
their folded nicks and with the server's spelling, and `@` is held by exactly the operators. -/
theorem sessions_mirror_server [LineReader] (start : String)
    (h : ReachableBy (fun n op => Modest (n.apply op) ∧ n.HasRoom start op) n)
    (hc : n.clients.lookup i = some client) (hreg : client.registered = true)
    (hch : n.channels.lookup key = some channel) (hi : i ∈ channel.members) :
    ∃ seen, (n.sessionOf start i).channel channel.name = some seen ∧
      (∀ j ∈ channel.members, ∃ m, seen.members.lookup (fold (n.nickOf j)) = some m ∧
        m.nick = n.nickOf j ∧ ('@' ∈ m.prefixes ↔ j ∈ channel.operators)) ∧
      ∀ k m, seen.members.lookup k = some m → ∃ j ∈ channel.members, fold (n.nickOf j) = k := by
  obtain ⟨F, S, -⟩ := h.follows
  have H := h.consistent
  have M := F.after (clients_roster hc) hreg
  have hroom := channels_roster hch
  have hseen := M.rooms hroom hi (by simp)
  rw [← sessionOf_eq] at hseen M
  obtain ⟨seen, hlookup, hview⟩ := Option.map_eq_some_iff.1 hseen
  have hroll (k) : (seen.members.lookup k).map Ddirc.Client.Member.view =
      n.roster.roll channel.view k := congrFun (congrArg Ddirc.Client.View.roll hview) k
  refine ⟨seen, ?_, ?_, ?_⟩
  · rw [Session.channel, M.plain.normalize]
    have hkey := H.filed hroom
    exact (congrArg (AList.lookup · _) hkey).trans hlookup
  · intro j hj
    obtain ⟨c, nick, -, -, hnick⟩ := H.member S hroom hj
    have hk := (hroll _).trans (H.roll_of_mem hj hnick)
    rw [← nickOf_roster, Roster.nickOf_of_nickAt hnick]
    obtain ⟨m, hm, hmview⟩ := Option.map_eq_some_iff.1 hk
    obtain ⟨hmnick, hrank⟩ := Prod.mk.inj hmview
    exact ⟨m, hm, hmnick, decide_eq_decide.1 hrank⟩
  · intro k m hm
    have hk : n.roster.roll channel.view k = some m.view := by rw [← hroll, hm]; rfl
    obtain ⟨j, hj, hnick, hfold, -⟩ := H.roll_eq_some.1 hk
    refine ⟨j, hj, ?_⟩
    rw [← nickOf_roster, Roster.nickOf_of_nickAt hnick]
    exact hfold

end Network

end Server

/-! ## A client's parser -/

namespace Irc

def takesArg (mode : Char) : Bool := "belIkqaohv".toList.contains mode

/-- The letters of a mode string with the arguments they take. -/
def readModes : (adding : Bool) → List Char → List String → List Mode
  | _, [], _ => []
  | _, '+' :: modes, args => readModes true modes args
  | _, '-' :: modes, args => readModes false modes args
  | adding, mode :: modes, args =>
    let arg := if takesArg mode then args.head? else none
    let args := if takesArg mode then args.tail else args
    (if adding then .plus mode arg else .minus mode arg) :: readModes adding modes args

/-- What a command is read back as. A mode string starts with its sign. -/
def Command.reread : Command → Command
  | .raw "MODE" (target :: modes :: args) =>
    match modes.toList with
    | '+' :: _ | '-' :: _ =>
      let modes := readModes true modes.toList args
      if isChannelName target then .channelMode target modes else .userMode target modes
    | _ => .raw "MODE" (target :: modes :: args)
  | command => command

instance : LineReader where
  reread := Command.reread
  reread_cooked h := by
    unfold Command.reread
    split
    · cases h _ _ rfl
    · rfl
  reread_raw args h := by
    unfold Command.reread
    split
    next heq => exact absurd (Command.raw.inj heq).1 h
    · rfl
  reread_mode h give nick := by
    cases give <;> simp only [Command.reread, h] <;> rfl

end Irc

namespace Server.Network

/-- Of two clients who meet in a channel, the second sees the first as its operator. -/
theorem sessions_mirror_server_meeting :
    let n := (init "srv" "net" 0).run meeting
    (n.channels.lookup "#den").isSome ∧ ∀ channel, n.channels.lookup "#den" = some channel →
      ∃ seen, (n.sessionOf "me" 2).channel channel.name = some seen ∧
        (∀ j ∈ channel.members, ∃ m, seen.members.lookup (fold (n.nickOf j)) = some m ∧
          m.nick = n.nickOf j ∧ ('@' ∈ m.prefixes ↔ j ∈ channel.operators)) ∧
        ∀ k m, seen.members.lookup k = some m → ∃ j ∈ channel.members, fold (n.nickOf j) = k := by
  have hops : (init "srv" "net" 0).Meets (fun n op => Modest (n.apply op) ∧ n.HasRoom "me" op)
      meeting := by decide +kernel
  have hc : (((init "srv" "net" 0).run meeting).clients.lookup 2).any (·.registered) := by
    decide +kernel
  have hin : (((init "srv" "net" 0).run meeting).channels.lookup "#den").all (2 ∈ ·.members) := by
    decide +kernel
  refine ⟨by decide +kernel, fun channel hch => ?_⟩
  obtain ⟨client, hclient, hreg⟩ := isRegistered_iff.1 hc
  have hreach := (ReachableBy.init "srv" "net" 0).run hops
  have hmem : 2 ∈ channel.members := by
    rw [hch] at hin
    simpa using hin
  exact sessions_mirror_server "me" hreach hclient hreg hch hmem

end Server.Network

end Ddirc
