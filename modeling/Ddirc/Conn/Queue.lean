import Ddirc.Conn.Loop
import Ddirc.Conn.Fallback
import Ddirc.Lib.Ledger

/-! # The outgoing queue and the mailbox

What one turn of a connection does to its queue: messages are added at the end, or the first one is
handed to the socket, so they leave in order (`queue_in_order`). Registration adds a `JOIN` for
every configured channel. `Actor.step_moved` says what an input can do to the actor. -/

namespace Ddirc.Conn
open Irc Client List

namespace Connection

theorem handle_registered (c : Connection) (m : Message)
    (h : (c.handle m).1.registered) : c.registered ∨
      ∀ channel ∈ c.config.channels, .ofCommand (.join channel none none) ∈
        (c.handle m).2.queued := by
  rcases handle_handled c m with ⟨-, hr⟩ | ⟨_, _, _, _, -, -, hr⟩
  · refine .inr fun channel hchannel => ?_
    rw [hr]
    exact mem_append_right _ (mem_map.2 ⟨channel, hchannel, rfl⟩)
  · rw [hr] at h
    exact .inl h

/-- Only the timer takes anything off the queue. -/
theorem step_queued (c : Connection) (hi : ∀ now, i ≠ .flush now) :
    (c.step i).1.outgoing = c.outgoing ++ (c.step i).2.queued := by
  have h := c.step_turned i
  generalize c.step i = r at h
  cases h with
  | idle | abandoned => exact (append_nil _).symm
  | flushed => exact absurd rfl (hi _)
  | listed => rfl
  | dropped => rw [negotiate_eq, append_nil]
  | handled c' _ hc' => exact (handle_keeps c' _).2.2.2.2.1.trans (by rw [hc', negotiate_eq])

theorem flush_outgoing (c : Connection) (now : Instant) : (c.step (.flush now)).2.queued = [] ∧
    ((c.step (.flush now)).2.sent = [] ∧ (c.step (.flush now)).1.outgoing = c.outgoing ∨
      ∃ m, (c.step (.flush now)).2.sent = [m] ∧
        c.outgoing = m :: (c.step (.flush now)).1.outgoing) := by
  have h := c.step_turned (.flush now)
  generalize c.step (.flush now) = r at h
  cases h with
  | idle => exact ⟨rfl, .inl ⟨rfl, rfl⟩⟩
  | flushed _ _ hout => exact ⟨rfl, .inr ⟨_, rfl, hout⟩⟩

/-- One turn adds to the end of the queue, or hands over its first message. -/
theorem step_outgoing (c : Connection) (i : Input) :
    (c.step i).1.outgoing = c.outgoing ++ (c.step i).2.queued ∨
      ∃ m, c.outgoing = m :: (c.step i).1.outgoing ∧ (c.step i).2.sent = [m] ∧
        (c.step i).2.queued = [] := by
  cases i with
  | flush now =>
    obtain ⟨hqueued, ⟨-, hout⟩ | ⟨m, hsent, hout⟩⟩ := c.flush_outgoing now
    · exact .inl (by rw [hqueued, hout, append_nil])
    · exact .inr ⟨m, hout, hsent, hqueued⟩
  | _ => exact .inl (c.step_queued nofun)

/-- One turn of the loop: a command of the user, or anything else that it waits for. -/
def turn (c : Connection) : ClientCommand ⊕ Input → Connection × Turn
  | .inl cmd => c.command cmd
  | .inr i => c.step i

/-- What a turn hands over from the queue. -/
def handed : (ClientCommand ⊕ Input) × Turn → List Message
  | (.inr (.flush _), turn) => turn.sent
  | _ => []

theorem turn_outgoing (c : Connection) (t : ClientCommand ⊕ Input) :
    handed (t, (c.turn t).2) ++ (c.turn t).1.outgoing = c.outgoing ++ (c.turn t).2.queued := by
  rcases t with cmd | i
  · rfl
  cases i with
  | flush now =>
    obtain ⟨hqueued, ⟨hsent, hout⟩ | ⟨m, hsent, hout⟩⟩ := c.flush_outgoing now
    all_goals simp only [handed, turn, hqueued, hsent, hout, append_nil, nil_append, cons_append]
  | _ => exact c.step_queued nofun

/-- Whatever a connection goes through, what the timer hands to the socket is what waited and what
was queued, in this order, up to what still waits: nothing is lost, repeated or overtaken. -/
theorem queue_in_order (c : Connection) (ts : List (ClientCommand ⊕ Input)) :
    (Run.trace turn c ts).flatMap handed ++ (Run.after turn c ts).outgoing =
      c.outgoing ++ (Run.trace turn c ts).flatMap (·.2.queued) := by
  induction ts generalizing c with
  | nil => exact (append_nil _).symm
  | cons t ts ih =>
    rw [Run.trace_cons, Run.after_cons, flatMap_cons, flatMap_cons, append_assoc, ih,
      ← append_assoc, turn_outgoing, append_assoc]

theorem step_registered (c : Connection) (i : Input) (hreg : (c.step i).1.registered) :
    c.registered ∨ ∀ channel ∈ c.config.channels,
      .ofCommand (.join channel none none) ∈ (c.step i).2.queued := by
  have h := c.step_turned i
  generalize c.step i = r at h hreg
  cases h with
  | idle | abandoned | flushed | listed => exact .inl hreg
  | dropped =>
    rw [negotiate_eq] at hreg
    exact .inl hreg
  | @handled m now c' _ hc' =>
    have hsame : c'.registered = c.registered ∧ c'.config = c.config := by
      rw [hc', negotiate_eq]
      exact ⟨rfl, rfl⟩
    rw [← hsame.1, ← hsame.2]
    exact handle_registered c' m hreg

end Connection

namespace Actor
variable {a : Actor} {u : Platform}

theorem connection_eq_some : a.connection = some c ↔ a.phase = .online c := by
  rw [connection]
  cases a.phase <;> simp

def Input.isMessage : Input → Bool
  | .message .. => true
  | _ => false

/-- What one input does to the actor. -/
inductive Moved (u : Platform) (a : Actor) : Input → Actor → Output → Prop where
  /-- The connection and the mailbox stay; a transfer may report. -/
  | idle (hphase : a'.phase = a.phase) (hconfig : a'.config = a.config)
    (hmail : a'.mailbox = a.mailbox) (hsent : out.sent = [])
    (hevents : ∀ e ∈ out.events, i = .file e ∧ isFileEvent e = true)
    (hquiet : a.connection = none ∨ i.isMessage = false) (hqueued : out.queued = [])
    (hlisting : a'.listing = a.listing) (hclosed : ∀ cmd, i = .send cmd → out.accepted = false) :
    Moved u a i a' out
  | placed (hrunning : a.isFinished = false) (hroom : a.mailbox.length < maxCommands)
    (ha : a' = { a with mailbox := a.mailbox ++ [cmd] }) : Moved u a (.send cmd) a' {}
  | dialed (hphase : a.phase = .dialing)
    (hstart : Connection.start a.config a.transfers a.listing a.recvLimiter now = (c, burst))
    (ha : a' = a.upWith c) : Moved u a (.dialed now) a' { sent := burst }
  /-- The next attempt comes nearer or further away. -/
  | offline (hbefore : a.connection = none) (hrunning : a.isFinished = false)
    (hafter : a'.connection = none) (hstill : a'.isFinished = false)
    (hconfig : a'.config = a.config)
    (hmail : a'.mailbox = a.mailbox) (hi : i = .dialFailed ∨ i = .wake)
    (hlisting : a'.listing = a.listing) : Moved u a i a' {}
  /-- A command finds no connection. -/
  | ignored (hbefore : a.connection = none) (hrunning : a.isFinished = false)
    (hmail : a.mailbox = cmd :: rest) (hquit : ∀ reason, cmd ≠ .disconnect reason)
    (hafter : a'.connection = none) (hstill : a'.isFinished = false)
    (hconfig : a'.config = a.config)
    (hmail' : a'.mailbox = rest) (hlisting : a'.listing = a.listing) : Moved u a .take a' {}
  | command (hc : a.connection = some c) (hmail : a.mailbox = cmd :: rest)
    (hquit : ∀ reason, cmd ≠ .disconnect reason)
    (ha : a' = { a with mailbox := rest }.upWith (c.command cmd).1)
    (hout : out = { events := c.shown u cmd ++ drops c, queued := (c.command cmd).2.queued }) :
    Moved u a .take a' out
  /-- The queue's timer, or the end of the negotiation. -/
  | turn (hc : a.connection = some c) (hi : i = .deadline ∧ j = .deadline ∨
      ∃ now, i = .flush now ∧ j = .flush now) (hevents : events = [] ∨ events = drops c)
    (hturn : (a', out) = a.turn c j events) : Moved u a i a' out
  | message (hc : a.connection = some c) (hevents : events =
      if admits c now m then report u c.session pick offer m ++ drops c else [])
    (hturn : (a', out) = a.turn c (.message now m) events) :
    Moved u a (.message now m pick offer) a' out
  | lost (hc : a.connection = some c) (ha : a' = (a.keep c).retry refused) :
    Moved u a (.closed refused) a' {}
  /-- The user disconnects, or nobody is left to command. -/
  | quit (hrunning : a.isFinished = false) (hevents : out.events = [])
    (hmail : a.mailbox = [] ∧ a.hungUp = true ∨
      ∃ reason rest, a.mailbox = .disconnect reason :: rest)
    (ha : a' = a.finish) (hqueued : out.queued = []) : Moved u a .take a' out

theorem Moved.rest (hquiet : a.connection = none ∨ i.isMessage = false)
    (hsend : ∀ cmd, i ≠ .send cmd) : Moved u a i a {} :=
  .idle rfl rfl rfl rfl (fun _ he => absurd he not_mem_nil) hquiet rfl rfl
    fun cmd hi => absurd hi (hsend cmd)

theorem commandOnline_of_ne (h : ∀ reason, cmd ≠ .disconnect reason) : a.commandOnline u c cmd =
      (a.upWith (c.command cmd).1,
        { events := c.shown u cmd ++ drops c, queued := (c.command cmd).2.queued }) := by
  unfold commandOnline
  split
  · exact absurd rfl (h _)
  · rfl

theorem retry_connection (a : Actor) (refused : Bool) : (a.retry refused).connection = none ∧
    (a.retry refused).isFinished = false ∧ (a.retry refused).config = a.config ∧
    (a.retry refused).mailbox = a.mailbox ∧ (a.retry refused).listing = a.listing := by
  rw [retry]
  split <;> exact ⟨rfl, rfl, rfl, rfl, rfl⟩

theorem take_offline (stopped : Bool) (hbefore : a.connection = none)
    (hrunning : a.isFinished = false)
    (hempty : a.mailbox = [] → a.take u = (if a.hungUp then a.finish else a, {}))
    (hcommand : ∀ cmd rest, a.mailbox = cmd :: rest →
      a.take u = ({ a with mailbox := rest }.commandOffline stopped cmd, {})) :
    Moved u a .take (a.take u).1 (a.take u).2 := by
  cases hmail : a.mailbox with
  | nil =>
    rw [hempty hmail]
    cases hhung : a.hungUp with
    | true => exact .quit hrunning rfl (.inl ⟨hmail, hhung⟩) rfl rfl
    | false => exact .rest (.inr rfl) nofun
  | cons cmd rest =>
    rw [hcommand cmd rest hmail]
    by_cases hquit : ∃ reason, cmd = .disconnect reason
    · obtain ⟨reason, rfl⟩ := hquit
      exact .quit hrunning rfl (.inr ⟨reason, rest, hmail⟩) rfl rfl
    · have hquit : ∀ reason, cmd ≠ .disconnect reason := fun reason h => hquit ⟨reason, h⟩
      unfold commandOffline
      split
      · exact absurd rfl (hquit _)
      · exact .ignored hbefore hrunning hmail hquit rfl rfl rfl rfl rfl
      · exact .ignored hbefore hrunning hmail hquit hbefore hrunning rfl rfl rfl

theorem take_moved (u : Platform) (a : Actor) : Moved u a .take (a.take u).1 (a.take u).2 := by
  cases hphase : a.phase with
  | dialing | finished =>
    have hstep : a.take u = (a, {}) := by simp only [take, hphase]
    rw [hstep]
    exact .rest (.inr rfl) nofun
  | waiting =>
    refine take_offline false (by rw [connection, hphase]) (by rw [isFinished, hphase]) ?_ ?_
    · intro hmail
      simp only [take, hphase, hmail]
    · intro cmd rest hmail
      simp only [take, hphase, hmail]
  | stopped =>
    refine take_offline true (by rw [connection, hphase]) (by rw [isFinished, hphase]) ?_ ?_
    · intro hmail
      simp only [take, hphase, hmail]
    · intro cmd rest hmail
      simp only [take, hphase, hmail]
  | online c =>
    have hrunning : a.isFinished = false := by rw [isFinished, hphase]
    cases hmail : a.mailbox with
    | nil =>
      have hstep : a.take u =
          if a.hungUp then (a.finish, { sent := [.ofCommand (.quit none)] }) else (a, {}) := by
        simp only [take, hphase, hmail]
      rw [hstep]
      cases hhung : a.hungUp with
      | true => exact .quit hrunning rfl (.inl ⟨hmail, hhung⟩) rfl rfl
      | false => exact .rest (.inr rfl) nofun
    | cons cmd rest =>
      have hstep : a.take u = { a with mailbox := rest }.commandOnline u c cmd := by
        simp only [take, hphase, hmail]
      rw [hstep]
      by_cases hquit : ∃ reason, cmd = .disconnect reason
      · obtain ⟨reason, rfl⟩ := hquit
        exact .quit hrunning rfl (.inr ⟨reason, rest, hmail⟩) rfl rfl
      · have hquit : ∀ reason, cmd ≠ .disconnect reason := fun reason h => hquit ⟨reason, h⟩
        rw [commandOnline_of_ne hquit]
        exact .command (connection_eq_some.2 hphase) hmail hquit rfl rfl

theorem step_moved (u : Platform) (a : Actor) (i : Input) :
    Moved u a i (a.step u i).1 (a.step u i).2 := by
  cases i with
  | send cmd =>
    simp only [step]
    split
    · exact .idle rfl rfl rfl rfl nofun (.inr rfl) rfl rfl fun _ _ => rfl
    next hopen =>
      rw [Bool.or_eq_true, not_or, decide_eq_true_eq, not_le] at hopen
      exact .placed (Bool.eq_false_of_not_eq_true hopen.1) hopen.2 rfl
  | hangUp => exact .idle rfl rfl rfl rfl nofun (.inr rfl) rfl rfl nofun
  | take => exact take_moved u a
  | file e =>
    refine .idle rfl rfl rfl rfl (fun e' he => ?_) (.inr rfl) rfl rfl nofun
    simp only [step] at he
    split at he
    next hfile =>
      obtain rfl := mem_singleton.1 he
      exact ⟨rfl, hfile⟩
    · cases he
  | dialed now =>
    simp only [step]
    split
    next hphase => exact .dialed hphase rfl rfl
    next => exact .rest (.inr rfl) nofun
  | dialFailed =>
    simp only [step]
    split
    next hphase =>
      obtain ⟨hc, hf, hconfig, hmail, hlisting⟩ := retry_connection a false
      exact .offline (by rw [connection, hphase]) (by rw [isFinished, hphase]) hc hf hconfig hmail
        (.inl rfl) hlisting
    next => exact .rest (.inr rfl) nofun
  | wake =>
    simp only [step]
    split
    next hphase =>
      exact .offline (by rw [connection, hphase]) (by rw [isFinished, hphase]) rfl rfl rfl rfl
        (.inr rfl) rfl
    next => exact .rest (.inr rfl) nofun
  | deadline =>
    simp only [step]
    split
    next c hphase =>
      refine .turn (connection_eq_some.2 hphase) (.inl ⟨rfl, rfl⟩) ?_ rfl
      split
      · exact .inl rfl
      · exact .inr rfl
    next => exact .rest (.inr rfl) nofun
  | flush now =>
    simp only [step]
    split
    next c hphase =>
      split
      · exact .rest (.inr rfl) nofun
      · exact .turn (connection_eq_some.2 hphase) (.inr ⟨now, rfl, rfl⟩) (.inr rfl) rfl
    next => exact .rest (.inr rfl) nofun
  | message now m pick offer =>
    cases hc : a.connection with
    | some c =>
      simp only [step, connection_eq_some.1 hc]
      exact .message hc rfl rfl
    | none =>
      simp only [step]
      split
      next c hphase => rw [connection, hphase] at hc; cases hc
      next => exact .rest (.inl hc) nofun
  | closed refused =>
    simp only [step]
    split
    next c hphase => exact .lost (connection_eq_some.2 hphase) rfl
    next => exact .rest (.inr rfl) nofun

theorem moved_of_step (h : a.step u i = (a', out)) : Moved u a i a' out := by
  have := step_moved u a i
  rwa [h] at this

/-! ## Marks on the queue -/

def outgoing (a : Actor) : List Message := (a.connection.map (·.outgoing)).getD []

variable {f : Message → Option α} {marks : List Bool} {queued : List Message} {a' : Actor}

theorem outgoing_of_up (h : a.connection = some c) : a.outgoing = c.outgoing := by
  rw [outgoing, h]
  rfl

theorem outgoing_of_down (h : a.connection = none) : a.outgoing = [] := by
  rw [outgoing, h]
  rfl

/-- A queue that is marked from end to end stays so, if what is added to it is marked. -/
theorem marked_queued (mark : Bool) (hmarks : marks.length = a.outgoing.length)
    (hout : a'.outgoing = a.outgoing ++ queued) :
    let marks' := if a'.connection.isSome then marks ++ queued.map fun _ => mark else []
    marks'.length = a'.outgoing.length ∧ marked f a'.outgoing marks' =
      marked f a.outgoing marks ++ if mark then queued.filterMap f else [] := by
  cases hc : a'.connection with
  | some c =>
    dsimp only [Option.isSome_some]
    rw [if_pos rfl, hout, marked_append hmarks, marked_map]
    exact ⟨by simp [hmarks], rfl⟩
  | none =>
    rw [outgoing_of_down hc] at hout
    obtain ⟨hnone, hadded⟩ := append_eq_nil_iff.1 hout.symm
    simp [outgoing_of_down hc, hnone, hadded, marked]

theorem marked_flush (hmarks : marks.length = a.outgoing.length) (hc : a.connection = some c)
    (now : Instant) (events : List Api.IrcEvent) :
    let (a', out) := a.turn c (.flush now) events
    (marks.drop out.sent.length).length = a'.outgoing.length ∧ marked f a.outgoing marks =
      marked f out.sent marks ++ marked f a'.outgoing (marks.drop out.sent.length) := by
  have hout : a.outgoing = (c.step (.flush now)).2.sent ++ (c.step (.flush now)).1.outgoing := by
    rw [outgoing_of_up hc]
    obtain ⟨-, ⟨hsent, hsame⟩ | ⟨m, hsent, hout⟩⟩ := c.flush_outgoing now
    · rw [hsent, hsame, nil_append]
    · rw [hsent, hout, singleton_append]
  change (marks.drop (c.step (.flush now)).2.sent.length).length =
    (c.step (.flush now)).1.outgoing.length ∧ _
  refine ⟨?_, hout ▸ marked_append_left ..⟩
  rw [length_drop, hmarks, hout, length_append, Nat.add_sub_cancel_left]

end Actor

end Ddirc.Conn
