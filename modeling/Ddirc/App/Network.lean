import Ddirc.Conn.Queue
import Ddirc.App.Told

/-! # The app and the connection

One network as a whole: the session of the app, the connection actor, and the events between them,
in order, none lost. Beside it is kept which channels of a `JOIN` are not answered and which were
refused. The app and the core agree on the channels we are in if what the app holds is in the
profile whenever a connection ends. -/

namespace Ddirc.App
open List
open Api Irc Conn
open Actor (connection_eq_some)

def Call.command : Call → ClientCommand
  | .sendMessage target text => .sendMessage target text
  | .sendReply target text reply => .sendReply target text reply
  | .sendAction target text => .sendAction target text
  | .sendFile target path => .sendFile target path
  | .editMessage target msgid text => .editMessage target msgid text
  | .retractMessage target msgid => .retractMessage target msgid
  | .join channel key => .join channel key
  | .part channel reason => .part channel reason
  | .setNick nick => .setNick nick
  | .setTopic channel topic => .setTopic channel topic
  | .acceptFile id directory => .acceptFile id directory
  | .cancelTransfer id => .cancelTransfer id

def Effect.call? : Effect → Option Call
  | .call c => some c
  | _ => none

def joinOf (m : Message) : Option String :=
  match m.command with
  | .join channels _ _ => some channels
  | _ => none

def joinOfCommand : ClientCommand → Option String
  | .join channel _ => some channel
  | _ => none

def joinsIn (ms : List Message) : List String := (ms.filterMap joinOf).flatMap (Str.split ',')

/-- What a network is given: the app's environment, what the core knows of characters, and the
numerics by which the server refuses a `JOIN`. -/
structure World where
  env : Env
  platform : Platform
  refuses : Response → Bool

structure Network where
  actor : Actor
  /-- Emitted by the core and not yet taken by the app. -/
  inFlight : List IrcEvent := []
  app : Session
  /-- Channels that were asked for on this connection, without an answer yet. -/
  unanswered : List String := []
  /-- Channels that were asked for on this connection and refused. -/
  refused : List String := []
  /-- Channels that `joinChannel` was called for while the core was not in them. -/
  wanted : List String := []
  /-- Which messages on the outgoing queue the user asked for, in its order. -/
  marks : List Bool := []
  /-- The argument of every `JOIN` the user asked for that was handed to a connection. -/
  sent : List String := []

namespace Network
variable (w : World)
variable {c : Connection} {env : Env} {l : List String} {es : List IrcEvent} {app : Session}
  {i : Actor.Input} {cmd : ClientCommand} {rest : List ClientCommand} {s : Client.Session}
  {m : Message} {now : Instant} {a : Actor}

/-- The server's answer to a `JOIN`, and whether it is yes. -/
def answer (s : Client.Session) (m : Message) : Option (String × Bool) :=
  match m.command, m.sourceNickname with
  | .join channel _ _, some nick => if s.isSelf nick then some (channel, true) else none
  | .response r args, _ => if w.refuses r then args[1]?.map (·, false) else none
  | _, _ => none

def answered (net : Network) (s : Client.Session) (m : Message) : Network :=
  match answer w s m with
  | none => net
  | some (channel, accepted) =>
    let isIt (j : String) : Bool := s.normalize j = s.normalize channel
    { net with
      unanswered := net.unanswered.filter (!isIt ·)
      refused :=
        if accepted then net.refused.filter (!isIt ·) else net.refused ++
          net.unanswered.filter isIt }

/-- What is still to be answered, before the actor sees what the server sent. -/
def heard (net : Network) (i : Actor.Input) : Network :=
  match net.actor.connection, i with
  | some c, .message _ m _ _ => net.answered w c.session m
  | _, _ => net

def remarked (marks : List Bool) (out : Actor.Output) : Actor.Input → List Bool
  | .flush _ => marks.drop out.sent.length
  | .take => marks ++ out.queued.map fun _ => true
  | _ => marks ++ out.queued.map fun _ => false

def handed (marks : List Bool) (out : Actor.Output) : Actor.Input → List String
  | .flush _ => marked joinOf out.sent marks
  | _ => []

def core (net : Network) (i : Actor.Input) : Network :=
  let (actor, out) := net.actor.step w.platform i
  let net := net.heard w i
  { net with
    actor
    inFlight := net.inFlight ++ out.events
    unanswered := if actor.connection.isSome then net.unanswered ++ joinsIn out.sent else []
    refused := if actor.connection.isSome then net.refused else []
    marks := if actor.connection.isSome then remarked net.marks out i else []
    sent := net.sent ++ handed net.marks out i }

def deliver (net : Network) (now : Nat) : Network × List Effect :=
  match net.inFlight with
  | [] => (net, [])
  | e :: rest =>
    let (app, effects) := net.app.onEvent w.env now e
    ({ net with app, inFlight := rest }, effects)

def place (net : Network) (c : Call) : Network :=
  let (actor, out) := net.actor.step w.platform (.send c.command)
  let app := match c with
    | .join channel _ => if out.accepted then net.app else net.app.joinFailed w.env channel
    | _ => net.app
  { net with actor, app }

def isIn (net : Network) (channel : String) : Bool :=
  net.actor.connection.any fun c => (c.session.channel channel).isSome

def asks (env : Env) (app : Session) : Session.Input → Option String
  | .joinChannel channel _ => some (Session.trim channel)
  | .submit input _ =>
    match Session.Typed.read env app.settings.markdown input with
    | .command .join argument => if argument.isEmpty then none else some (Session.trim argument)
    | _ => none
  | _ => none

def wants (net : Network) (i : Session.Input) : Option String :=
  (asks w.env net.app i).filter fun channel => !channel.isEmpty && !net.isIn channel

def UserInput := { i : Session.Input // ∀ now e, i ≠ .event now e }

def user (net : Network) (i : UserInput) : Network × List Effect :=
  let (app, effects) := net.app.step w.env i.1
  ((effects.filterMap Effect.call?).foldl (place w)
    { net with app, wanted := net.wanted ++ (net.wants w i.1).toList }, effects)

inductive Move where
  | core (i : Actor.Input)
  | deliver (now : Nat)
  | user (i : UserInput)

def step (net : Network) : Move → Network × List Effect
  | .core i => (net.core w i, [])
  | .deliver now => net.deliver w now
  | .user i => net.user w i

def start (config : Conn.ServerConfig) (recvLimiter : ReceiveLimiter) (nick : String)
    (settings : Settings) : Network where
  actor := { config, recvLimiter }
  app := { nick, settings }

/-! ## What is claimed -/

/-- With the app up to date, we registered and every `JOIN` answered: a channel conversation names a
channel that the core is in, or that was refused. -/
def Agrees (net : Network) : Prop :=
  ∀ c ∈ net.actor.connection, net.inFlight = [] → c.registered = true → joinsIn c.outgoing = [] →
    net.unanswered = [] → ∀ n ∈ net.app.held,
      (c.session.channel n).isSome = true ∨
        ∃ j ∈ net.refused, c.session.normalize n = c.session.normalize j

/-- The user's own `JOIN`s on the outgoing queue. -/
def queue (net : Network) : List String := marked joinOf net.actor.outgoing net.marks

def mail (a : Actor) : List String := a.mailbox.filterMap joinOfCommand

/-- A `JOIN` of the user's is on its way for every call of `joinChannel` that needs one. -/
def Joins (net : Network) : Prop :=
  ∀ n ∈ net.wanted, net.wanted.count n ≤ (net.sent ++ net.queue ++ mail net.actor).count n

instance (net : Network) : Decidable net.Agrees := by unfold Agrees; infer_instance
instance (net : Network) : Decidable net.Joins := by unfold Joins; infer_instance

/-! ## The condition -/

/-- The channels that the app may hold once it takes an event. -/
def bound (env : Env) (names : List String) (e : IrcEvent) : List String :=
  match closes e with
  | some channel => names.filter fun n => env.lower n ≠ env.lower channel
  | none => names ++ mentions e

def ahead (net : Network) : List String := net.inFlight.foldl (bound w.env) net.app.held

def profile (net : Network) : List String := net.actor.config.channels.flatMap (Str.split ',')

def lists (l : List String) (n : String) : Bool := l.any (Str.eqIgnoreAsciiCase n)

def spares (net : Network) (joins : List String) : Bool := net.wanted.all (· ∉ joins)

def saysTo : ClientCommand → Option String
  | .sendMessage target _ | .sendReply target _ _ | .sendAction target _ => some target
  | _ => none

/-- No command that is dropped was waited for, and what is said in a channel names it as it is
tracked. -/
def allowedTake (net : Network) : Bool :=
  match net.actor.mailbox with
  | [] => !net.actor.hungUp || net.spares net.queue
  | .disconnect _ :: _ => net.spares (net.queue ++ mail net.actor)
  | cmd :: _ =>
    match net.actor.connection with
    | none => net.spares (joinOfCommand cmd).toList
    | some c =>
      (saysTo cmd).all fun target => (c.session.channel target).isNone || c.session.tracks target

def allowedCore (net : Network) (i : Actor.Input) : Bool :=
  match net.actor.connection, i with
  -- Flood protection drops no join of ours.
  | some c, .message now m _ _ =>
    clear c.session (net.unanswered ++ net.refused) m &&
      (Actor.admits c now m || (answer w c.session m).all (!·.2))
  -- What the app holds is in the profile.
  | some _, .closed _ =>
    (net.ahead w).all (lists net.profile) && net.spares net.queue
  | _, .take => net.allowedTake
  | _, .file e => (mentions e).all (· ∈ net.ahead w)
  | _, _ => true

/-- The app holds nothing under the name of a channel to join, and its command is taken. -/
def allowed (net : Network) : Move → Bool
  | .core i => net.allowedCore w i
  | .deliver _ => true
  | .user i => (net.wants w i.1).all fun channel =>
    (net.app.conversations.lookup (Session.key w.env channel)).isNone && !net.actor.isFinished &&
      net.actor.mailbox.length < maxCommands

/-! ## The invariant -/

/-- On a connection with this state: a `JOIN` for the channel is queued or was sent, or will be upon
registration. -/
def Pending (unanswered refused profile : List String) (c : Connection) (n : String) : Prop :=
  lists (unanswered ++ joinsIn c.outgoing ++ refused) n = true ∨
    c.registered = false ∧ lists profile n = true

def Known (net : Network) (n : String) : Prop :=
  match net.actor.connection with
  | some c => c.session.tracks n = true ∨ Pending net.unanswered net.refused net.profile c n
  | none => net.actor.isFinished = true ∨ lists net.profile n = true

structure Sound (net : Network) : Prop where
  safe : Session.Safe w.env Set.univ Set.univ net.app
  known : ∀ n ∈ net.ahead w, net.Known n
  filed : ∀ c ∈ net.actor.connection, c.session.Filed
  config : ∀ c ∈ net.actor.connection, c.config = net.actor.config

variable {w} {net : Network}

theorem lists_append :
    lists (l ++ l') n = (lists l n || lists l' n) := any_append

theorem lists_asked {asked queued refused : List String} :
    lists (asked ++ queued ++ refused) n ↔
      lists asked n ∨ lists queued n ∨ lists refused n := by
  rw [lists_append, lists_append, Bool.or_eq_true, Bool.or_eq_true, or_assoc]

theorem joinsIn_append :
    joinsIn (ms ++ ms') = joinsIn ms ++ joinsIn ms' := by
  rw [joinsIn, filterMap_append, flatMap_append]
  rfl

theorem lists_joinsIn (hm : .ofCommand (.join channel none none) ∈ ms)
    (hn : lists (Str.split ',' channel) n) : lists (joinsIn ms) n := by
  rw [lists, any_eq_true] at hn ⊢
  obtain ⟨j, hj, hn⟩ := hn
  exact ⟨j, mem_flatMap.2 ⟨channel, mem_filterMap.2 ⟨_, hm, rfl⟩, hj⟩, hn⟩

/-! ### One turn of a connection -/

theorem Pending.turn (h : Pending un re (c.config.channels.flatMap (Str.split ',')) c n)
    (i : Conn.Input) :
    Pending (un ++ joinsIn (c.step i).2.sent) re (c.config.channels.flatMap (Str.split ','))
      (c.step i).1 n := by
  have hqueue : lists (joinsIn c.outgoing) n ∨ lists (joinsIn (c.step i).2.queued) n →
      lists (un ++ joinsIn (c.step i).2.sent ++ joinsIn (c.step i).1.outgoing ++ re) n := by
    intro hn
    rw [lists_asked, lists_append, Bool.or_eq_true, or_assoc]
    rcases c.step_outgoing i with hout | ⟨m, hout, hsent, hqueued⟩
    · rw [hout, joinsIn_append, lists_append, Bool.or_eq_true]
      exact .inr (.inr (.inl hn))
    · rw [hout, hqueued, ← singleton_append, joinsIn_append, lists_append,
        Bool.or_eq_true] at hn
      rw [hsent]
      rcases hn with (hn | hn) | hn
      · exact .inr (.inl hn)
      · exact .inr (.inr (.inl hn))
      · cases hn
  rcases h with h | ⟨hreg, h⟩
  · refine .inl ?_
    rcases lists_asked.1 h with h | h | h
    · exact lists_asked.2 (.inl (by rw [lists_append, h, Bool.true_or]))
    · exact hqueue (.inl h)
    · exact lists_asked.2 (.inr (.inr h))
  · by_cases hreg' : (c.step i).1.registered
    · have hjoins := (c.step_registered i hreg').resolve_left (by simp [hreg])
      rw [lists, any_eq_true] at h
      obtain ⟨j, hj, hn⟩ := h
      obtain ⟨channel, hchannel, hj⟩ := mem_flatMap.1 hj
      exact .inl (hqueue (.inr (lists_joinsIn (hjoins channel hchannel)
        (any_eq_true.2 ⟨j, hj, hn⟩))))
    · exact .inr ⟨Bool.eq_false_of_not_eq_true hreg', h⟩

theorem Pending.command {profile : List String} (h : Pending un re profile c n)
    (cmd : ClientCommand) : Pending un re profile (c.command cmd).1 n := by
  have hout : (c.command cmd).1.outgoing = c.outgoing ++ c.queued cmd := rfl
  refine h.imp (fun h => ?_) id
  rw [hout, joinsIn_append]
  rw [lists_asked] at h ⊢
  refine h.imp_right (Or.imp_left fun h => ?_)
  rw [lists_append, h, Bool.true_or]

/-! ### What the app may hold -/

theorem foldl_bound_mono (h : ∀ n ∈ l, n ∈ l') (es : List IrcEvent) :
    ∀ n ∈ es.foldl (bound env) l, n ∈ es.foldl (bound env) l' := by
  induction es generalizing l l' with
  | nil => exact h
  | cons e es ih =>
    refine ih fun n hn => ?_
    simp only [bound] at hn ⊢
    split at hn
    · exact mem_filter.2 ⟨h n (mem_of_mem_filter hn), (mem_filter.1 hn).2⟩
    · exact (mem_append.1 hn).elim (fun hn => mem_append_left _ (h n hn))
        (mem_append_right _)

/-- Events that close nothing add what they mention. -/
theorem mem_foldl_bound (hopen : ∀ e ∈ es, closes e = none) (hn : n ∈ es.foldl (bound env) l) :
    n ∈ l ∨ ∃ e ∈ es, n ∈ mentions e := by
  induction es generalizing l with
  | nil => exact .inl hn
  | cons e es ih =>
    rcases ih (fun e he => hopen e (mem_cons_of_mem _ he)) hn with hn | ⟨e', he', hn⟩
    · rw [bound, hopen e mem_cons_self] at hn
      exact (mem_append.1 hn).imp id fun hn => ⟨e, mem_cons_self, hn⟩
    · exact .inr ⟨e', mem_cons_of_mem _ he', hn⟩

/-- The app holds what it was to hold, at most. -/
theorem held_onEvent (hs : Session.Safe w.env Set.univ Set.univ app) (now : Nat) (e : IrcEvent) :
    ∀ n ∈ (app.onEvent w.env now e).1.held, n ∈ bound w.env app.held e := by
  intro n hn
  rw [bound]
  split
  next channel hcloses =>
    have hparted : (app.onEvent w.env now e).1 = app.close w.env channel := by
      cases e with
      | parted name nick isSelf reason => cases isSelf <;> cases hcloses; rfl
      | _ => cases hcloses
    rw [hparted] at hn
    have := ((Session.within_held app).close hs.filed).of_mem_held hn
    exact mem_filter.2 ⟨this.1, by simpa [Session.key] using this.2⟩
  next hcloses =>
    have hwithin := (Session.within_held app).mono fun n hn => mem_append_left (mentions e) hn
    have hkept := hs.kept hwithin (.event now e) fun _ _ he n hn => by
      cases he
      exact mem_append_right _ hn
    exact hkept.within.of_mem_held hn

/-- The user opens no channel: only an event does. -/
theorem held_step {i : Session.Input} (huser : ∀ now e, i ≠ .event now e)
    (hs : Session.Safe w.env Set.univ Set.univ app) :
    ∀ n ∈ (app.step w.env i).1.held, n ∈ app.held := fun _ hn =>
  (hs.kept (Session.within_held app) i fun now e he => absurd he (huser now e)).within.of_mem_held
    hn

/-! ### Moves of the app -/

/-- A move that changes neither the connection nor what was asked on it. -/
theorem Sound.of_ahead (h : Sound w net) (hactor : net'.actor.phase = net.actor.phase)
    (hconfig : net'.actor.config = net.actor.config)
    (hunanswered : net'.unanswered = net.unanswered) (hrefused : net'.refused = net.refused)
    (hsafe : Session.Safe w.env Set.univ Set.univ net'.app)
    (hahead : ∀ n ∈ net'.ahead w, n ∈ net.ahead w) : Sound w net' := by
  have hconnection : net'.actor.connection = net.actor.connection := by
    rw [Actor.connection, hactor]
    rfl
  refine ⟨hsafe, fun n hn => ?_, ?_, ?_⟩
  · have := h.known n (hahead n hn)
    rw [Known, hconnection, hunanswered, hrefused, profile, hconfig, Actor.isFinished, hactor]
    exact this
  · rw [hconnection]
    exact h.filed
  · rw [hconnection, hconfig]
    exact h.config

theorem Sound.deliver (h : Sound w net) (now : Nat) : Sound w (net.deliver w now).1 := by
  rw [Network.deliver]
  split
  · exact h
  next e rest hflight =>
    refine h.of_ahead rfl rfl rfl rfl (h.safe.always (.event now e)) ?_
    rw [ahead, ahead, hflight]
    exact foldl_bound_mono (held_onEvent h.safe now e) rest

theorem step_send (a : Actor) (cmd : ClientCommand) :
    ∃ mailbox, (a.step w.platform (.send cmd)).1 = { a with mailbox := a.mailbox ++ mailbox } := by
  simp only [Actor.step]
  split
  · exact ⟨[], by rw [append_nil]⟩
  · exact ⟨[cmd], rfl⟩

theorem Sound.place (h : Sound w net) (c : Call) : Sound w (net.place w c) := by
  obtain ⟨mailbox, hactor⟩ : ∃ mailbox, (net.place w c).actor =
      { net.actor with mailbox := net.actor.mailbox ++ mailbox } := step_send (w := w) ..
  have happ : (net.place w c).app.conversations = net.app.conversations ∧
      Session.Safe w.env Set.univ Set.univ (net.place w c).app := by
    simp only [Network.place]
    split
    · split
      · exact ⟨rfl, h.safe⟩
      · exact ⟨rfl, h.safe.always (.joinFailed _)⟩
    · exact ⟨rfl, h.safe⟩
  refine h.of_ahead (by rw [hactor]) (by rw [hactor]) rfl rfl happ.2 fun n hn => ?_
  rw [ahead, Session.held, happ.1] at hn
  exact hn

theorem Sound.user (h : Sound w net) (i : UserInput) : Sound w (net.user w i).1 := by
  have hplace : ∀ (calls : List Call) (net : Network), Sound w net →
      Sound w (calls.foldl (Network.place w) net) := by
    intro calls
    induction calls with
    | nil => exact fun _ h => h
    | cons c calls ih => exact fun net h => ih _ (h.place c)
  refine hplace _ _ (h.of_ahead rfl rfl rfl rfl (h.safe.always i.1) ?_)
  exact foldl_bound_mono (held_step i.2 h.safe) net.inFlight

/-! ### Moves of the core -/

theorem heard_eq : net.heard w i =
    { net with
      unanswered := (net.heard w i).unanswered
      refused := (net.heard w i).refused } := by
  simp only [heard, answered]
  repeat' split
  all_goals rfl

theorem core_eq (hstep : net.actor.step w.platform i = (a, out)) : net.core w i =
    { net with
      actor := a
      inFlight := net.inFlight ++ out.events
      unanswered :=
        if a.connection.isSome then (net.heard w i).unanswered ++ joinsIn out.sent else []
      refused := if a.connection.isSome then (net.heard w i).refused else []
      marks := if a.connection.isSome then remarked net.marks out i else []
      sent := net.sent ++ handed net.marks out i } := by
  rw [core, heard_eq, hstep]

/-- A move of the core, by the connection that it leaves. -/
theorem Sound.core_of (h : Sound w net) (hstep : net.actor.step w.platform i = (a, out))
    (hconfig : a.config = net.actor.config)
    (hfiled : ∀ c ∈ a.connection, c.session.Filed ∧ c.config = net.actor.config)
    (hknown : ∀ n ∈ out.events.foldl (bound w.env) (net.ahead w),
      match a.connection with
      | some c => c.session.tracks n ∨ Pending ((net.heard w i).unanswered ++
          joinsIn out.sent) (net.heard w i).refused net.profile c n
      | none => a.isFinished ∨ lists net.profile n) : Sound w (net.core w i) := by
  rw [core_eq hstep]
  refine ⟨h.safe, fun n hn => ?_, fun c hc => (hfiled c hc).1, fun c hc => ?_⟩
  · rw [ahead, foldl_append] at hn
    have hn := hknown n hn
    simp only [Known, profile, hconfig]
    cases hc : a.connection with
    | none => simpa only [hc, profile] using hn
    | some c => simpa only [hc, Option.isSome_some, if_true, profile] using hn
  · exact (hfiled c hc).2.trans hconfig.symm

theorem Sound.stays (h : Sound w net) (hstep : net.actor.step w.platform i = (a, out))
    (hc : net.actor.connection = some c) (hheard : net.heard w i = net)
    (hconfig : a.config = net.actor.config) (hc' : a.connection = some c')
    (hsession : c'.session = c.session) (hconfig' : c'.config = c.config)
    (hpending : ∀ n, Pending net.unanswered net.refused net.profile c n →
      Pending (net.unanswered ++ joinsIn out.sent) net.refused net.profile c' n)
    (hevents : ∀ e ∈ out.events,
      closes e = none ∧ ∀ n ∈ mentions e, n ∈ net.ahead w ∨ c.session.tracks n) :
    Sound w (net.core w i) := by
  refine h.core_of hstep hconfig ?_ fun n hn => ?_
  · intro d hd
    rw [hc', Option.mem_some_iff] at hd
    subst hd
    exact ⟨hsession ▸ h.filed c hc, hconfig'.trans (h.config c hc)⟩
  · rw [hc', hheard]
    have hold : n ∈ net.ahead w ∨ c.session.tracks n := by
      rcases mem_foldl_bound (fun e he => (hevents e he).1) hn with hn | ⟨e, he, hn⟩
      · exact .inl hn
      · exact (hevents e he).2 n hn
    rcases hold with hn | hn
    · have := h.known n hn
      rw [Known, hc] at this
      exact this.imp (hsession ▸ ·) (hpending n)
    · exact .inl (hsession ▸ hn)

theorem heard_of_quiet (h : net.actor.connection = none ∨ i.isMessage = false) :
    net.heard w i = net := by
  unfold heard
  split
  next hc => exact absurd (h.resolve_right nofun) (by rw [hc]; nofun)
  · rfl

theorem told_drops (c : Connection) (e : IrcEvent) (he : e ∈ Actor.drops c) :
    closes e = none ∧ mentions e = [] := by
  rw [Actor.drops] at he
  split at he
  · obtain rfl := mem_singleton.1 he
    exact ⟨rfl, rfl⟩
  · cases he

theorem Sound.turn (h : Sound w net) (hc : net.actor.connection = some c)
    (hheard : net.heard w i = net) (hstep : net.actor.step w.platform i = net.actor.turn c j events)
    (hsession : (c.step j).1.session = c.session)
    (hevents : ∀ e ∈ events, closes e = none ∧ mentions e = []) : Sound w (net.core w i) := by
  have hprofile : net.profile = c.config.channels.flatMap (Str.split ',') := by
    rw [profile, h.config c hc]
  refine h.stays hstep hc hheard rfl rfl hsession (Connection.step_config c j) ?_ ?_
  · rw [hprofile]
    exact fun n hn => hn.turn j
  · exact fun e he => ⟨(hevents e he).1, fun n hn => by rw [(hevents e he).2] at hn; cases hn⟩

theorem Sound.command (h : Sound w net) (hc : net.actor.connection = some c)
    (hmail : net.actor.mailbox = cmd :: rest) (hquit : ∀ reason, cmd ≠ .disconnect reason)
    (hsaid : ∀ target, saysTo cmd = some target →
      (c.session.channel target).isNone ∨ c.session.tracks target) :
    Sound w (net.core w .take) := by
  have hstep : net.actor.step w.platform .take =
      ({ net.actor with mailbox := rest }.upWith (c.command cmd).1,
        { events := c.shown w.platform cmd ++ Actor.drops c
          queued := (c.command cmd).2.queued }) := by
    simp only [Actor.step, Actor.take, connection_eq_some.1 hc, hmail]
    exact Actor.commandOnline_of_ne hquit
  have hecho : ∀ target line isAction, saysTo cmd = some target →
      closes (c.echo w.platform target line isAction) = none ∧
        ∀ n ∈ mentions (c.echo w.platform target line isAction),
          n ∈ net.ahead w ∨ c.session.tracks n := by
    intro target line isAction htarget
    refine ⟨rfl, fun n hn => .inr ?_⟩
    simp only [Connection.echo, mentions] at hn
    split at hn
    next name heq =>
      split at heq
      next hsome =>
        cases heq
        rw [mem_singleton.1 hn]
        refine (hsaid target htarget).resolve_left fun hnone => ?_
        rw [Option.isNone_iff_eq_none] at hnone
        rw [hnone] at hsome
        cases hsome
      next => cases heq
    · cases hn
  refine h.stays hstep hc (heard_of_quiet (.inr rfl)) rfl rfl rfl rfl ?_ ?_
  · intro n hn
    exact (append_nil net.unanswered).symm ▸ hn.command cmd
  · intro e he
    rcases mem_append.1 he with he | he
    · cases cmd <;> simp only [Connection.shown, mem_map, mem_singleton,
        not_mem_nil] at he
      case sendMessage => obtain ⟨line, -, rfl⟩ := he; exact hecho _ _ _ rfl
      case sendReply => obtain ⟨line, -, rfl⟩ := he; exact hecho _ _ _ rfl
      case sendAction => obtain ⟨line, -, rfl⟩ := he; exact hecho _ _ _ rfl
      all_goals
        subst he
        exact ⟨rfl, by rintro _ ⟨⟩⟩
    · obtain ⟨hcloses, hmentions⟩ := told_drops c e he
      exact ⟨hcloses, fun n hn => by rw [hmentions] at hn; cases hn⟩

/-! ### Messages -/

theorem tracks_congr (h : Str.eqIgnoreAsciiCase n channel)
    (hchannel : s.tracks channel) : s.tracks n := by
  obtain ⟨t, ht, hspelled⟩ := Client.Session.tracks_iff.1 hchannel
  have hnorm : s.normalize n = s.normalize channel := s.isupport.casemapping.normalize_eq h
  rw [Str.eqIgnoreAsciiCase_iff] at h hspelled
  exact Client.Session.tracks_iff.2 ⟨t, hnorm ▸ ht, Str.eqIgnoreAsciiCase_iff.2 (h.trans hspelled)⟩

/-- After our own join, the channel is tracked under every name it was asked for by. -/
theorem tracks_of_accepted (h : clear s joins m)
    (hanswer : answer w s m = some (channel, true)) (hj : j ∈ joins)
    (hnorm : s.normalize j = s.normalize channel) (hn : Str.eqIgnoreAsciiCase n j) :
    (s.receive m).tracks n := by
  simp only [answer] at hanswer
  split at hanswer
  next keys real nick hm hsource =>
    split at hanswer
    next hself =>
      cases hanswer
      have hrest := h
      rw [clear, Bool.and_eq_true, hm, hsource] at hrest
      replace hrest := hrest.2
      simp only [hself, Bool.not_true, Bool.false_or, Bool.and_eq_true, Bool.or_eq_true,
        decide_eq_true_eq, all_eq_true] at hrest
      obtain ⟨hroom, hjoins⟩ := hrest
      have hspelled := (hjoins j hj).resolve_left fun hne => hne hnorm
      have hnamed : named m = some channel := by rw [named, hm]
      have htracked : ((s.receive m).channel channel).isSome := by
        rw [← Option.isSome_map (f := (·.name)), ← Client.Session.names_normalize]
        have hreceive : (s.receive m).normalize = s.normalize := by
          funext a
          rw [Client.Session.normalize, Client.Session.isupport_receive (by simp [hm])]
          rfl
        rw [hreceive, Client.Session.names_receive (settled_of_clear h), Client.Session.namesAfter,
          Client.Session.departs, hm, Client.Session.namesWith]
        rcases hroom with htracked | hroom
        · rw [Client.Session.names_normalize]
          obtain ⟨c, hc⟩ := Option.isSome_iff_exists.1 htracked
          rw [hc]
          rfl
        · rw [Client.Session.arrives, if_neg (not_le.2 hroom), hm, hsource]
          simp [hself]
      refine tracks_congr ?_ (tracks_named h hnamed htracked)
      rw [Str.eqIgnoreAsciiCase_iff] at hn hspelled ⊢
      exact hn.trans hspelled.symm
    · cases hanswer
  next =>
    split at hanswer
    · obtain ⟨_, _, heq⟩ := Option.map_eq_some_iff.1 hanswer
      cases heq
    · cases hanswer
  · cases hanswer

theorem lists_filter (h : lists l n) :
    lists (l.filter p) n ∨
      ∃ j ∈ l, p j = false ∧ Str.eqIgnoreAsciiCase n j := by
  rw [lists, any_eq_true] at h
  obtain ⟨j, hj, hn⟩ := h
  cases hp : p j with
  | true => exact .inl (any_eq_true.2 ⟨j, mem_filter.2 ⟨hj, hp⟩, hn⟩)
  | false => exact .inr ⟨j, hj, hp, hn⟩

theorem Pending.answered {profile : List String}
    (h : Pending net.unanswered net.refused profile c n) :
    Pending (net.answered w s m).unanswered (net.answered w s m).refused profile c n ∨
      ∃ channel, answer w s m = some (channel, true) ∧ ∃ j ∈ net.unanswered ++ net.refused,
        s.normalize j = s.normalize channel ∧ Str.eqIgnoreAsciiCase n j := by
  rcases h with h | h
  swap
  · exact .inl (.inr h)
  rw [Network.answered]
  split
  · exact .inl (.inl h)
  next channel accepted hanswer =>
  simp only [lists_append, Bool.or_eq_true] at h
  have hkept : ∀ {l : List String}, lists l n →
      lists (l.filter fun j => !decide (s.normalize j = s.normalize channel)) n ∨
        ∃ j ∈ l, s.normalize j = s.normalize channel ∧ Str.eqIgnoreAsciiCase n j := by
    intro l hl
    refine (lists_filter hl).imp_right fun ⟨j, hj, hp, hn⟩ => ⟨j, hj, ?_, hn⟩
    simpa using hp
  cases accepted with
  | true =>
    simp only [Pending, lists_append, Bool.or_eq_true]
    rcases h with (h | h) | h
    · rcases hkept h with h | ⟨j, hj, hnorm, hn⟩
      · exact .inl (.inl (.inl (.inl h)))
      · exact .inr ⟨channel, hanswer, j, mem_append_left _ hj, hnorm, hn⟩
    · exact .inl (.inl (.inl (.inr h)))
    · rcases hkept h with h | ⟨j, hj, hnorm, hn⟩
      · exact .inl (.inl (.inr h))
      · exact .inr ⟨channel, hanswer, j, mem_append_right _ hj, hnorm, hn⟩
  | false =>
    simp only [Bool.false_eq_true, if_false, Pending, lists_append, Bool.or_eq_true]
    refine .inl (.inl ?_)
    rcases h with (h | h) | h
    · rcases hkept h with h | ⟨j, hj, hnorm, hn⟩
      · exact .inl (.inl h)
      · refine .inr (.inr (any_eq_true.2 ⟨j, mem_filter.2 ⟨hj, ?_⟩, hn⟩))
        exact decide_eq_true hnorm
    · exact .inl (.inr h)
    · exact .inr (.inl h)

/-- What is left of the channels held when we leave one that is tracked. -/
theorem mem_foldl_bound_of_departs (hes : ∀ e ∈ es, closes e = none ∧ mentions e = [])
    (hn : n ∈ ((if tracked = true then [IrcEvent.parted channel nick true reason] else []) ++
      es).foldl (bound env) l) : n ∈ l ∧ (tracked = true → env.lower n ≠ env.lower channel) := by
  have hrest : ∀ {l : List String}, n ∈ es.foldl (bound env) l → n ∈ l := by
    intro l hn
    refine (mem_foldl_bound (fun e he => (hes e he).1) hn).resolve_right ?_
    rintro ⟨e, he, hn⟩
    rw [(hes e he).2] at hn
    cases hn
  cases tracked with
  | true =>
    have := mem_filter.1 (hrest hn)
    exact ⟨this.1, fun _ => of_decide_eq_true this.2⟩
  | false => exact ⟨hrest hn, nofun⟩

theorem Sound.message
    (hlower : ∀ a b, Str.eqIgnoreAsciiCase a b → w.env.lower a = w.env.lower b)
    (h : Sound w net) (hc : net.actor.connection = some c)
    (hclear : clear c.session (net.unanswered ++ net.refused) m)
    (hadmits : Actor.admits c now m ∨ ∀ channel, answer w c.session m ≠ some (channel, true)) :
    Sound w (net.core w (.message now m pick offer)) := by
  have hstep : net.actor.step w.platform (.message now m pick offer) =
      net.actor.turn c (.message now m) (if Actor.admits c now m then
        report w.platform c.session pick offer m ++ Actor.drops c else []) := by
    simp only [Actor.step, connection_eq_some.1 hc]
  have hheard : net.heard w (.message now m pick offer) = net.answered w c.session m := by
    simp only [heard, hc]
  have hprofile : net.profile = c.config.channels.flatMap (Str.split ',') := by
    rw [profile, h.config c hc]
  have hsession : (c.step (.message now m)).1.session =
      if Actor.admits c now m then c.session.receive m else c.session := by
    rw [Actor.admits]
    refine (Connection.onMessage_session c now m).trans ?_
    cases hd : (c.onMessage now m).2.dropped <;> simp [Connection.step, hd]
  have hfiled := h.filed c hc
  -- What was tracked or asked for before, unless we left it.
  have hheld : ∀ n ∈ net.ahead w, (c.session.tracks n →
        (c.step (.message now m)).1.session.tracks n) →
      (c.step (.message now m)).1.session.tracks n ∨
        Pending ((net.answered w c.session m).unanswered ++
            joinsIn (c.step (.message now m)).2.sent)
          (net.answered w c.session m).refused net.profile (c.step (.message now m)).1 n := by
    intro n hn htracks
    have hknown := h.known n hn
    rw [Known, hc] at hknown
    rcases hknown with hknown | hknown
    · exact .inl (htracks hknown)
    rcases hknown.answered (w := w) (s := c.session) (m := m) with
      hpending | ⟨channel, ha, j, hj, hnorm, hj'⟩
    · rw [hprofile] at hpending ⊢
      exact .inr (hpending.turn (.message now m))
    · refine .inl ?_
      rw [hsession, if_pos (hadmits.resolve_right fun hno => hno channel ha)]
      exact tracks_of_accepted hclear ha hj hnorm hj'
  refine h.core_of (hstep.trans Prod.mk.eta.symm) rfl ?_ fun n hn => ?_
  · intro d hd
    obtain rfl : (c.step (.message now m)).1 = d := Option.some.inj hd
    refine ⟨?_, (Connection.step_config c _).trans (h.config c hc)⟩
    rw [hsession]
    split
    · exact filed_receive hfiled hclear
    · exact hfiled
  · rw [Actor.turn_connection, hheard]
    cases hadmitted : Actor.admits c now m with
    | false =>
      rw [hadmitted] at hn hsession
      exact hheld n hn fun hn => by rw [hsession]; exact hn
    | true =>
      rw [hadmitted] at hn
      rw [hadmitted] at hsession
      cases hdeparts : c.session.departs m with
      | none =>
        have hstays : ∀ channel, c.session.departs m = some channel →
            c.session.normalize channel ≠ c.session.normalize n := by
          rw [hdeparts]
          simp
        have hevents : ∀ e ∈ report w.platform c.session pick offer m ++ Actor.drops c,
            Told (c.session.receive m) e := by
          intro e he
          rcases mem_append.1 he with he | he
          · exact told_report hfiled hclear hdeparts he
          · obtain ⟨hcloses, hmentions⟩ := told_drops c e he
            exact ⟨hcloses, fun n hn => by rw [hmentions] at hn; cases hn⟩
        rcases mem_foldl_bound (fun e he => (hevents e he).1) hn with hn | ⟨e, he, hn⟩
        · exact hheld n hn fun hn => by rw [hsession]; exact tracks_receive hclear hn hstays
        · refine .inl ?_
          rw [hsession]
          exact (hevents e he).2 n hn
      | some channel =>
        obtain ⟨nick, reason, hreport⟩ :
            ∃ nick reason, report w.platform c.session pick offer m = _ :=
              report_of_departs hdeparts
        rw [hreport] at hn
        obtain ⟨hn, hleft⟩ := mem_foldl_bound_of_departs (told_drops c) hn
        refine hheld n hn fun htracks => ?_
        rw [hsession]
        refine tracks_receive hclear htracks fun left hl hnorm => ?_
        obtain rfl : channel = left := Option.some.inj (hdeparts.symm.trans hl)
        obtain ⟨t, ht, hspelled⟩ := Client.Session.tracks_iff.1 htracks
        rw [← hnorm] at ht
        have hchannel := (spelled_of_clear hclear (named_of_departs hl)).2 t ht
        refine hleft ?_ (hlower n channel ?_)
        · rw [← Option.isSome_map (f := (·.name)), ← Client.Session.names_normalize, ht]
          rfl
        · rw [Str.eqIgnoreAsciiCase_iff] at hspelled hchannel ⊢
          exact hspelled.trans hchannel.symm

/-! ### Every move -/

/-- The phase stays, and only the app hears anything. -/
theorem Sound.same (h : Sound w net) (hheard : net.heard w i = net)
    (hstep : net.actor.step w.platform i = (a, out)) (hphase : a.phase = net.actor.phase)
    (hconfig : a.config = net.actor.config) (hsent : out.sent = [])
    (hevents : ∀ e ∈ out.events, closes e = none ∧ ∀ n ∈ mentions e, n ∈ net.ahead w) :
    Sound w (net.core w i) := by
  have hconnection : a.connection = net.actor.connection := by
    rw [Actor.connection, hphase]
    rfl
  have hfinished : a.isFinished = net.actor.isFinished := by
    rw [Actor.isFinished, hphase]
    rfl
  refine h.core_of hstep hconfig ?_ fun n hn => ?_
  · rw [hconnection]
    exact fun c hc => ⟨h.filed c hc, h.config c hc⟩
  · have hold : n ∈ net.ahead w := by
      rcases mem_foldl_bound (fun e he => (hevents e he).1) hn with hn | ⟨e, he, hn⟩
      · exact hn
      · exact (hevents e he).2 n hn
    have hknown := h.known n hold
    rw [hconnection, hheard, hsent, hfinished, joinsIn, filterMap_nil, flatMap_nil,
      append_nil]
    exact hknown

theorem Sound.ends (h : Sound w net) (hstep : net.actor.step w.platform i = (a, out))
    (hconnection : a.connection = none) (hconfig : a.config = net.actor.config)
    (hevents : out.events = [])
    (hknown : a.isFinished ∨ ∀ n ∈ net.ahead w, lists net.profile n) :
    Sound w (net.core w i) := by
  refine h.core_of hstep hconfig ?_ fun n hn => ?_
  · rw [hconnection]
    intro c hc
    cases hc
  · rw [hevents] at hn
    rw [hconnection]
    exact hknown.imp_right (· n hn)

theorem Sound.lists_profile (h : Sound w net) (hconnection : net.actor.connection = none)
    (hrunning : net.actor.isFinished = false) : ∀ n ∈ net.ahead w, lists net.profile n := by
  intro n hn
  have := h.known n hn
  rw [Known, hconnection, hrunning] at this
  exact this.resolve_left (by simp)

/-- Every channel that the app holds will be joined upon registration. -/
theorem Sound.dialed (h : Sound w net) (hphase : net.actor.phase = .dialing)
    (hstep : net.actor.step w.platform (.dialed now) =
      (net.actor.upWith (Connection.start net.actor.config net.actor.transfers net.actor.listing
        net.actor.recvLimiter now).1, out)) (hevents : out.events = []) :
    Sound w (net.core w (.dialed now)) := by
  have hlists :=
    h.lists_profile (by rw [Actor.connection, hphase]) (by rw [Actor.isFinished, hphase])
  refine h.core_of hstep rfl ?_ fun n hn => ?_
  · intro c hc
    obtain rfl := Option.mem_some_iff.1 hc
    refine ⟨fun key t ht => ?_, rfl⟩
    cases ht
  · rw [hevents] at hn
    exact .inr (.inr ⟨rfl, hlists n hn⟩)

theorem allowedTake_of_mailbox (hallowed : net.allowedTake)
    (hmail : net.actor.mailbox = cmd :: rest) (hquit : ∀ reason, cmd ≠ .disconnect reason) :
    match net.actor.connection with
    | none => net.spares (joinOfCommand cmd).toList
    | some c => ∀ target, saysTo cmd = some target →
      (c.session.channel target).isNone ∨ c.session.tracks target := by
  rw [allowedTake, hmail] at hallowed
  split at hallowed
  · cases ‹_ :: _ = []›
  next heq => cases heq; exact absurd rfl (hquit _)
  next heq =>
    cases heq
    cases hc : net.actor.connection with
    | none => simpa only [hc] using hallowed
    | some c =>
      intro target htarget
      simpa [hc, htarget] using hallowed

theorem closes_of_isFileEvent (h : Actor.isFileEvent e) : closes e = none := by
  cases e <;> first | rfl | cases h

theorem Sound.core
    (hlower : ∀ a b, Str.eqIgnoreAsciiCase a b → w.env.lower a = w.env.lower b)
    (h : Sound w net) (hallowed : net.allowedCore w i) : Sound w (net.core w i) := by
  obtain ⟨⟨a, out⟩, hstep⟩ : ∃ r, net.actor.step w.platform i = r := ⟨_, rfl⟩
  cases Actor.moved_of_step hstep with
  | idle hphase hconfig hmail hsent hevents hquiet _ _ _ =>
    refine h.same (heard_of_quiet hquiet) hstep hphase hconfig hsent fun e he => ?_
    obtain ⟨rfl, hfile⟩ := hevents e he
    refine ⟨closes_of_isFileEvent hfile, fun n hn => ?_⟩
    rw [allowedCore] at hallowed
    simpa using all_eq_true.1 hallowed n hn
  | placed hrunning hroom ha =>
    subst ha
    exact h.same (heard_of_quiet (.inr rfl)) hstep rfl rfl rfl
      fun _ he => absurd he not_mem_nil
  | dialed hphase hstart ha =>
    obtain rfl := (Prod.ext_iff.1 hstart).1
    exact h.dialed hphase (ha ▸ hstep) rfl
  | offline hbefore hrunning hafter hstill hconfig hmail _ _
  | ignored hbefore hrunning hmail hquit hafter hstill hconfig hmail' _ =>
    exact h.ends hstep hafter hconfig rfl (.inr (h.lists_profile hbefore hrunning))
  | command hc hmail hquit ha hout =>
    rw [allowedCore] at hallowed
    have hsaid := allowedTake_of_mailbox hallowed hmail hquit
    rw [hc] at hsaid
    exact h.command hc hmail hquit hsaid
  | turn hc hi hevents hturn =>
    refine h.turn hc (heard_of_quiet (.inr ?_)) (hstep.trans hturn) ?_ fun e he => ?_
    · rcases hi with ⟨rfl, -⟩ | ⟨now, rfl, -⟩ <;> rfl
    · rcases hi with ⟨-, rfl⟩ | ⟨now, -, rfl⟩
      · exact (Connection.step_other _ rfl).1
      · exact (Connection.step_other _ rfl).1
    · rcases hevents with rfl | rfl
      · cases he
      · exact told_drops _ e he
  | message hc hevents hturn =>
    unfold allowedCore at hallowed
    rw [hc, Bool.and_eq_true, Bool.or_eq_true] at hallowed
    refine h.message hlower hc hallowed.1 (hallowed.2.imp_right fun hno channel ha => ?_)
    rw [ha] at hno
    cases hno
  | lost hc ha =>
    subst ha
    obtain ⟨hnone, -, hconfig, -, -⟩ := Actor.retry_connection (net.actor.keep _) _
    unfold allowedCore at hallowed
    rw [hc, Bool.and_eq_true, all_eq_true] at hallowed
    exact h.ends hstep hnone hconfig rfl (.inr hallowed.1)
  | quit hrunning hevents hmail ha =>
    subst ha
    exact h.ends hstep rfl rfl hevents (.inl rfl)

/-! ### No `JOIN` is lost -/

theorem not_mem_of_spares (h : net.spares joins) (hn : n ∈ net.wanted) :
    joins.count n = 0 := by
  rw [spares, all_eq_true] at h
  exact count_eq_zero.2 (of_decide_eq_true (h n hn))

theorem count_mail (h : a.mailbox = cmd :: rest) :
    (mail a).count n =
    (joinOfCommand cmd).toList.count n + (rest.filterMap joinOfCommand).count n := by
  rw [mail, h, filterMap_cons]
  cases joinOfCommand cmd <;> simp [count_cons, Nat.add_comm]

theorem count_queued (c : Connection) (cmd : ClientCommand) :
    (joinOfCommand cmd).toList.count n ≤ ((c.queued cmd).filterMap joinOf).count n := by
  cases cmd with
  | join channel key => exact le_rfl
  | _ => exact Nat.zero_le _

/-- The queue is marked from end to end. -/
def Marked (net : Network) : Prop := net.marks.length = net.actor.outgoing.length

/-- A move of the core keeps the marks, and a `JOIN` that somebody waits for stays in line until it
is handed over. -/
def Waits (net : Network) (i : Actor.Input) (a : Actor) (out : Actor.Output) : Prop :=
  let marks := if a.connection.isSome then remarked net.marks out i else []
  marks.length = a.outgoing.length ∧ ∀ n ∈ net.wanted, (net.queue ++ mail net.actor).count n ≤
    (handed net.marks out i ++ marked joinOf a.outgoing marks ++ mail a).count n

theorem waits_of_queued (mark : Bool) (hmarks : net.Marked)
    (hout : a.outgoing = net.actor.outgoing ++ out.queued)
    (hremarked : remarked net.marks out i = net.marks ++ out.queued.map fun _ => mark)
    (hmail : ∀ n, (mail net.actor).count n ≤
      ((if mark then out.queued.filterMap joinOf else []) ++ mail a).count n) :
    net.Waits i a out := by
  obtain ⟨hlength, hqueue⟩ := Actor.marked_queued (f := joinOf) mark hmarks hout
  unfold Waits
  rw [hremarked]
  refine ⟨hlength, fun n _ => ?_⟩
  have := hmail n
  simp only [hqueue, queue, count_append] at this ⊢
  omega

theorem waits_of_down (hdown : a.connection = none)
    (hlost : ∀ n ∈ net.wanted, (net.queue ++ mail net.actor).count n ≤ (mail a).count n) :
    net.Waits i a out := by
  unfold Waits
  rw [hdown, Actor.outgoing_of_down hdown]
  refine ⟨rfl, fun n hn => ?_⟩
  have := hlost n hn
  simp only [count_append] at this ⊢
  omega

theorem spares_of_quit (hallowed : net.allowedTake)
    (hmail : net.actor.mailbox = [] ∧ net.actor.hungUp ∨
      ∃ reason rest, net.actor.mailbox = .disconnect reason :: rest) :
    net.spares (net.queue ++ mail net.actor) := by
  rw [allowedTake] at hallowed
  rcases hmail with ⟨hmail, hhung⟩ | ⟨reason, rest, hmail⟩
  · rw [hmail, hhung] at hallowed
    rw [mail, hmail, filterMap_nil, append_nil]
    exact hallowed
  · rw [hmail] at hallowed
    exact hallowed

theorem waits (hmarks : net.Marked) (hallowed : net.allowedCore w i)
    (hstep : net.actor.step w.platform i = (a, out)) : net.Waits i a out := by
  have hqueue (hdown : net.actor.connection = none) : net.queue = [] := by
    rw [queue, Actor.outgoing_of_down hdown]
    rfl
  cases Actor.moved_of_step hstep with
  | idle hphase _ hmail hsent _ _ hqueued _ _ =>
    refine waits_of_queued false hmarks ?_ ?_ fun n => ?_
    · rw [hqueued, append_nil, Actor.outgoing, Actor.connection, hphase]
      rfl
    · unfold remarked
      rw [hsent, hqueued]
      cases i <;> simp
    · rw [mail, mail, hmail]
      exact le_rfl
  | placed _ _ ha =>
    subst ha
    refine waits_of_queued false hmarks (append_nil _).symm rfl fun n => ?_
    simp only [mail, filterMap_append]
    exact (sublist_append_left _ _).count_le n
  | dialed hphase hstart ha =>
    obtain rfl := (Prod.ext_iff.1 hstart).1
    subst ha
    refine waits_of_queued false hmarks ?_ rfl fun n => le_rfl
    rw [Actor.outgoing.eq_1 net.actor, Actor.connection.eq_1 net.actor, hphase]
    rfl
  | offline hbefore _ hafter _ _ hmail _ _ =>
    refine waits_of_down hafter fun n _ => ?_
    rw [hqueue hbefore, mail, mail, hmail]
    exact le_rfl
  | @ignored a' cmd rest hbefore _ hmail hquit hafter _ _ hmail' _ =>
    refine waits_of_down hafter fun n hn => ?_
    rw [allowedCore] at hallowed
    have hspares := allowedTake_of_mailbox hallowed hmail hquit
    rw [hbefore] at hspares
    rw [hqueue hbefore, nil_append, count_mail hmail, not_mem_of_spares hspares hn, Nat.zero_add,
      mail, hmail']
  | command hc hmail hquit ha hout =>
    subst ha hout
    refine waits_of_queued true hmarks ?_ rfl fun n => ?_
    · rw [Actor.outgoing_of_up hc]
      rfl
    · rw [count_mail hmail, if_pos rfl, count_append]
      exact Nat.add_le_add_right (count_queued _ _) _
  | turn hc hi _ hturn =>
    obtain ⟨rfl, rfl⟩ := Prod.ext_iff.1 hturn
    rcases hi with ⟨rfl, rfl⟩ | ⟨now, rfl, rfl⟩
    · refine waits_of_queued false hmarks ?_ rfl fun n => le_rfl
      rw [Actor.outgoing_of_up hc]
      exact Connection.step_queued (i := .deadline) _ (by simp)
    · obtain ⟨hlength, hqueue⟩ := Actor.marked_flush (f := joinOf) hmarks hc now _
      refine ⟨hlength, fun n _ => ?_⟩
      rw [queue, hqueue]
      exact le_rfl
  | message hc _ hturn =>
    obtain ⟨rfl, rfl⟩ := Prod.ext_iff.1 hturn
    refine waits_of_queued false hmarks ?_ rfl fun n => le_rfl
    rw [Actor.outgoing_of_up hc]
    exact Connection.step_queued (i := .message _ _) _ (by simp)
  | lost hc ha =>
    obtain ⟨hnone, -, -, hmail, -⟩ := Actor.retry_connection (net.actor.keep _) _
    rw [← ha] at hnone hmail
    refine waits_of_down hnone fun n hn => ?_
    unfold allowedCore at hallowed
    rw [hc, Bool.and_eq_true] at hallowed
    rw [count_append, not_mem_of_spares hallowed.2 hn, Nat.zero_add, mail, mail, hmail]
    exact le_rfl
  | quit _ _ hmail ha =>
    subst ha
    refine waits_of_down rfl fun n hn => ?_
    rw [allowedCore] at hallowed
    rw [not_mem_of_spares (spares_of_quit hallowed hmail) hn]
    exact Nat.zero_le _

/-- Every `JOIN` of the user's is accounted for. -/
def Joined (net : Network) : Prop := net.Marked ∧ net.Joins

theorem Joined.core (h : net.Joined) (hallowed : net.allowedCore w i) : (net.core w i).Joined := by
  obtain ⟨⟨a, out⟩, hstep⟩ : ∃ r, net.actor.step w.platform i = r := ⟨_, rfl⟩
  rw [core_eq hstep]
  obtain ⟨hlength, hwaits⟩ := waits h.1 hallowed hstep
  refine ⟨hlength, fun n hn => ?_⟩
  have hold := h.2 n hn
  have hkept := hwaits n hn
  simp only [queue, count_append] at hold hkept ⊢
  omega

/-! ### Calls of the core -/

theorem step_send_open (hrunning : a.isFinished = false) (hroom : a.mailbox.length < maxCommands)
    (cmd : ClientCommand) :
    a.step w.platform (.send cmd) = ({ a with mailbox := a.mailbox ++ [cmd] }, {}) := by
  simp only [Actor.step, hrunning, Bool.false_or, decide_eq_true_eq, if_neg (not_le.2 hroom)]

theorem Joined.place (h : net.Joined) (c : Call) : (net.place w c).Joined := by
  obtain ⟨mailbox, hstep⟩ := step_send (w := w) net.actor c.command
  simp only [Network.place, hstep]
  refine ⟨h.1, fun n hn => (h.2 n hn).trans ?_⟩
  simp only [mail, filterMap_append, ← append_assoc]
  exact (sublist_append_left _ _).count_le n

theorem Joined.foldl_place (h : net.Joined) (calls : List Call) :
    (calls.foldl (Network.place w) net).Joined := by
  induction calls generalizing net with
  | nil => exact h
  | cons c calls ih => exact ih (h.place c)

theorem joinChannel_effects (hname : (Session.trim channel).isEmpty = false)
    (hnew : app.conversations.lookup (Session.key env (Session.trim channel)) = none) :
    (app.joinChannel env channel password).2 = [.call (.join (Session.trim channel) password)] := by
  simp only [Session.joinChannel, hname, hnew, Bool.false_eq_true, if_false, Option.isSome_none]

theorem step_of_asks {i : Session.Input} (h : asks env app i = some n) (hname : n.isEmpty = false)
    (hnew : app.conversations.lookup (Session.key env n) = none) :
    ∃ password, (app.step env i).2 = [.call (.join n password)] := by
  unfold asks at h
  split at h
  next channel password =>
    obtain rfl := Option.some.inj h
    refine ⟨password, ?_⟩
    rw [Session.step]
    exact joinChannel_effects hname hnew
  next input reply =>
    split at h
    next argument hread =>
      split at h
      · cases h
      next harg =>
        obtain rfl := Option.some.inj h
        refine ⟨none, ?_⟩
        simp only [Session.step, Session.submit, hread, Session.runCommand, if_neg harg]
        exact joinChannel_effects hname hnew
    · cases h
  · cases h

theorem Joined.user {i : UserInput} (h : net.Joined) (hallowed : net.allowed w (.user i)) :
    (net.user w i).1.Joined := by
  rw [Network.user]
  cases hwants : net.wants w i.1 with
  | none =>
    simp only [Option.toList_none, append_nil]
    have happ : Joined { net with app := (net.app.step w.env i.1).1 } := h
    exact happ.foldl_place _
  | some channel =>
    obtain ⟨hasks, hneeds⟩ := Option.filter_eq_some_iff.1 hwants
    rw [Bool.and_eq_true, Bool.not_eq_true'] at hneeds
    rw [allowed, hwants, Option.all_some, Bool.and_eq_true, Bool.and_eq_true,
      Option.isNone_iff_eq_none, decide_eq_true_eq, Bool.not_eq_true'] at hallowed
    obtain ⟨⟨hnew, hrunning⟩, hroom⟩ := hallowed
    obtain ⟨password, heffects⟩ := step_of_asks hasks hneeds.1 hnew
    simp only [heffects, filterMap_cons, Effect.call?, filterMap_nil, foldl_cons,
      foldl_nil, Network.place, step_send_open (w := w) hrunning hroom, Option.toList_some]
    refine ⟨h.1, fun n hn => ?_⟩
    have hold : net.wanted.count n ≤ (net.sent ++ net.queue ++ mail net.actor).count n := by
      by_cases hn : n ∈ net.wanted
      · exact h.2 n hn
      · exact (count_eq_zero.2 hn).trans_le (Nat.zero_le _)
    have hmore : mail { net.actor with mailbox := net.actor.mailbox ++ [.join channel password] } =
        mail net.actor ++ [channel] := filterMap_append ..
    change (net.wanted ++ [channel]).count n ≤ (net.sent ++ net.queue ++ mail _).count n
    rw [Call.command, hmore]
    simp only [count_append] at hold ⊢
    omega

/-! ## Agreement -/

theorem Sound.agrees (h : Sound w net) : net.Agrees := by
  intro c hc hflight hregistered hqueue hanswered n hn
  have hknown := h.known n (by rw [ahead, hflight]; exact hn)
  rw [Known, hc] at hknown
  rcases hknown with htracks | hlists | ⟨hnot, -⟩
  · obtain ⟨t, ht, -⟩ := Client.Session.tracks_iff.1 htracks
    refine .inl ?_
    rw [← Option.isSome_map (f := (·.name)), ← Client.Session.names_normalize, ht]
    rfl
  · rw [hanswered, hqueue, nil_append] at hlists
    obtain ⟨j, hj, heq⟩ := any_eq_true.1 hlists
    refine .inr ⟨j, hj, ?_⟩
    exact Client.CaseMapping.normalize_eq _ heq
  · rw [hregistered] at hnot
    cases hnot

theorem sound_start (config : Conn.ServerConfig) (recvLimiter : ReceiveLimiter) (nick : String)
    (settings : Settings) : Sound w (start config recvLimiter nick settings) where
  safe := {
    filed := nofun
    order_nodup := nodup_nil
    mem_order := fun _ => ⟨nofun, nofun⟩
    tabs_nodup := nodup_nil
    held := nofun
    active_tab := nofun
    accepted := fun _ _ => trivial
    request := nofun }
  known _ hn := absurd hn not_mem_nil
  filed c hc := absurd hc (Option.not_mem_none c)
  config c hc := absurd hc (Option.not_mem_none c)

theorem Sound.step {m : Move}
    (hlower : ∀ a b, Str.eqIgnoreAsciiCase a b → w.env.lower a = w.env.lower b)
    (h : Sound w net) (hallowed : net.allowed w m) : Sound w (net.step w m).1 := by
  cases m with
  | core i => exact h.core hlower hallowed
  | deliver now => exact h.deliver now
  | user i => exact h.user i

theorem Joined.step {m : Move} (h : net.Joined) (hallowed : net.allowed w m) :
    (net.step w m).1.Joined := by
  cases m with
  | core i => exact h.core hallowed
  | deliver now =>
    rw [Network.step, Network.deliver]
    split <;> exact h
  | user i => exact h.user hallowed

/-- In a run that keeps to the condition, the app and the core agree on the channels we are in, and
no `JOIN` that was called for is lost. -/
theorem channels_agree
    (hlower : ∀ a b, Str.eqIgnoreAsciiCase a b = true → w.env.lower a = w.env.lower b)
    {config : Conn.ServerConfig} {recvLimiter : ReceiveLimiter} {nick : String}
    {settings : Settings} {moves : List Move}
    (h : Run.Along (step w) (fun net m => net.allowed w m = true)
      (start config recvLimiter nick settings) moves) :
    (Run.after (step w) (start config recvLimiter nick settings) moves).Agrees ∧
      (Run.after (step w) (start config recvLimiter nick settings) moves).Joins := by
  have hinv := h.induction (I := fun net => Sound w net ∧ net.Joined)
    ⟨sound_start config recvLimiter nick settings, rfl, nofun⟩
    fun net m hnet hm => ⟨hnet.1.step hlower hm, hnet.2.step hm⟩
  exact ⟨hinv.1.agrees, hinv.2.2⟩

def plain : World where
  env := { lower := Str.toAsciiLowercase, markdownToMirc := fun text => text }
  platform := {
    isAlphanumeric := fun _ => false
    lowercase := fun c => [c]
    parseIp := fun _ => none
    serverTime := fun _ => none }
  refuses r := r = .other 474

def welcomed (now : Instant) : List Move :=
  [.core (.dialed now),
   .core (.message now (.ofCommand (.response .rplWelcome ["me", "Welcome"])) 0 0)]

def confirmed (now : Instant) : Move :=
  .core (.message now
    { source := some (.nickname "me" "me" "host"), command := .join "#tea" none none } 0 0)

def joinTea : Move := .user ⟨.joinChannel "#tea" none, fun _ _ => by simp⟩

def lost : List Move := [.core (.closed false), .core .wake]

def delivered : List Move := List.replicate 4 (.deliver 0)

/-- We are in `#tea`, which is in the profile, and come back to it. -/
def returning : List Move :=
  joinTea :: welcomed 0 ++ [.core .take, .core (.flush 0), .core (.flush 0), confirmed 0] ++
    delivered ++ lost ++ welcomed 9 ++ [.core (.flush 9), confirmed 9] ++ delivered

theorem channels_agree_returning :
    let net := Run.after (step plain)
      (start { nickname := "me", channels := ["#tea"] } (.init 0) "me" {}) returning
    (net.app.held = ["#tea"] ∧ net.inFlight = [] ∧ net.unanswered = [] ∧ net.wanted = ["#tea"] ∧
      net.sent = ["#tea"] ∧
      net.actor.connection.any (fun c => c.registered && c.outgoing.isEmpty) = true) ∧
      net.Agrees ∧ net.Joins :=
  ⟨by decide +kernel,
    channels_agree (fun _ _ h => Str.eqIgnoreAsciiCase_iff.1 h) (by decide +kernel)⟩

def estranged : List Move :=
  welcomed 0 ++ [joinTea, .core .take, .core (.flush 0), confirmed 0] ++ delivered ++
    lost ++ welcomed 9 ++ delivered

/-- A channel that is in no profile is not joined again: with everything answered, the app goes on
holding it, the core is not in it, and joining it once more sends nothing. -/
theorem app_holds_lost_channel :
    let net := Run.after (step plain) (start { nickname := "me" } (.init 0) "me" {}) estranged
    net.app.held = ["#tea"] ∧ net.refused = [] ∧ net.isIn "#tea" = false ∧ ¬ net.Agrees ∧
      ¬ (net.step plain joinTea).1.Joins := by
  decide +kernel

end Network

end Ddirc.App
