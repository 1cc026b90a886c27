import Ddirc.Lib.Run
import Ddirc.Lib.Map

/-! # The workspace

`Workspace` of the app: the networks that are up, and how one comes up and goes down. A connect
waits for the secrets, the proxy, a persona's nick and the core, and its session exists only when
the core has answered. To disconnect is to drop the session there is, which does nothing to a
network that is being connected. `closeAll` is refused the second time, whatever came up since the
first.

The connections of the core are counted here too, from its answer to the disconnect. -/

namespace Ddirc.App

/-- A SOCKS5 proxy, with its password. -/
structure ProxyConfig where
  host : String
  port : Int
  username : Option String := none
  password : Option String := none
  deriving Repr, DecidableEq

/-- What `resolveProxy` answers. -/
inductive ProxyAnswer where
  | direct
  | through (config : ProxyConfig)
  | refused (message : String)
  deriving Repr, DecidableEq

inductive NetworkProtocol where
  | irc
  | xmpp
  deriving Repr, DecidableEq

/-- What a connect reads of a profile. -/
structure Account where
  id : String
  protocol : NetworkProtocol := .irc
  host : String
  port : Int
  nickname : String
  saslAccount : Option String := none
  personaId : Option String := none
  deriving Repr, DecidableEq

namespace Account
variable (a : Account)

def isXmpp : Bool := a.protocol = .xmpp
def usesPersona : Bool := a.personaId.isSome && !a.isXmpp
def usesSasl : Bool := !(a.saslAccount.getD "").isEmpty
def usesPassword : Bool := a.isXmpp || a.usesSasl

end Account

inductive ServerConfig where
  | xmpp (account : Account) (password : Option String) (proxy : Option ProxyConfig)
  | irc (account : Account) (saslPassword serverPassword nickservPassword : Option String)
      (proxy : Option ProxyConfig) (nicknameOverride : Option String)
  deriving Repr, DecidableEq

/-- What a connect waits for, with what it has read. -/
inductive ConnectStage where
  | password
  | proxy (password : Option String)
  | serverPassword (password : Option String) (proxy : Option ProxyConfig)
  | nickservPassword (password : Option String) (proxy : Option ProxyConfig)
      (serverPassword : Option String)
  | persona (password : Option String) (proxy : Option ProxyConfig)
      (serverPassword nickservPassword : Option String)
  | core (config : ServerConfig)
  deriving Repr, DecidableEq

inductive Awaited where
  | text (value : Option String)
  | proxy (answer : ProxyAnswer)
  | connected
  | threw (message : String)
  deriving Repr, DecidableEq

namespace ConnectStage

def first (a : Account) : ConnectStage := if a.usesPassword then .password else .proxy none

def afterProxy (a : Account) (sasl : Option String) (via : Option ProxyConfig) : ConnectStage :=
  if a.isXmpp then .core (.xmpp a sasl via) else .serverPassword sasl via

def afterSecrets (a : Account) (sasl : Option String) (via : Option ProxyConfig)
    (server nickserv : Option String) : ConnectStage :=
  if a.usesPersona then .persona sasl via server nickserv
  else .core (.irc a sasl server nickserv via none)

/-- How a connect goes on before the core has answered: to what it waits for next, or to an error.
`none` where the answer is to another question. -/
def advance (a : Account) : ConnectStage → Awaited → Option (Except String ConnectStage)
  | _, .threw message => some (.error message)
  | .password, .text sasl => some (.ok (.proxy sasl))
  | .proxy sasl, .proxy .direct => some (.ok (afterProxy a sasl none))
  | .proxy sasl, .proxy (.through config) => some (.ok (afterProxy a sasl (some config)))
  | .proxy _, .proxy (.refused message) => some (.error message)
  | .serverPassword sasl via, .text server => some (.ok (.nickservPassword sasl via server))
  | .nickservPassword sasl via server, .text nickserv =>
    some (.ok (afterSecrets a sasl via server nickserv))
  | .persona sasl via server nickserv, .text nick =>
    some (.ok (.core (.irc a sasl server nickserv via nick)))
  | _, _ => none

end ConnectStage

structure Connecting where
  account : Account
  focus : Bool
  stage : ConnectStage
  deriving Repr, DecidableEq

structure NetworkSession where
  connectionId : Nat
  config : ServerConfig
  deriving Repr, DecidableEq

structure Workspace where
  sessions : Map String NetworkSession := ∅
  connecting : Finset String := ∅
  failures : Map String String := ∅
  active : Option String := none
  closed : Bool := false
  calls : Map Nat Connecting := ∅
  next : Nat := 0
  /-- The profile of each connection the core opened and was not told to disconnect. -/
  opened : Map Nat String := ∅
  nextId : Nat := 0

namespace Workspace

inductive Input where
  | connect (account : Account) (focus : Bool)
  | awaited (n : Nat) (answer : Awaited)
  | disconnect (profileId : String)
  | forget (profileId : String)
  | closeAll
  | select (profileId : String)
  deriving DecidableEq

def select (w : Workspace) (profileId : String) : Workspace :=
  if (w.sessions.lookup profileId).isSome then { w with active := some profileId } else w

def connect (w : Workspace) (a : Account) (focus : Bool) : Workspace :=
  if (w.sessions.lookup a.id).isSome then w.select a.id
  else if a.id ∈ w.connecting then w
  else
    { w with
      connecting := insert a.id w.connecting
      failures := w.failures.erase a.id
      calls := w.calls.insert w.next { account := a, focus, stage := .first a }
      next := w.next + 1 }

def finish (w : Workspace) (n : Nat) (profileId : String) : Workspace :=
  { w with calls := w.calls.erase n, connecting := w.connecting.erase profileId }

def establish (w : Workspace) (a : Account) (focus : Bool) (config : ServerConfig) : Workspace :=
  { w with
    opened := w.opened.insert w.nextId a.id
    nextId := w.nextId + 1
    sessions := w.sessions.insert a.id { connectionId := w.nextId, config }
    active := if focus || w.active.isNone then some a.id else w.active }

def awaited (w : Workspace) (n : Nat) (answer : Awaited) : Workspace :=
  match w.calls.lookup n with
  | none => w
  | some c =>
    match c.stage, answer with
    | .core config, .connected => (w.establish c.account c.focus config).finish n c.account.id
    | stage, answer =>
      match stage.advance c.account answer with
      | none => w
      | some (.ok stage) => { w with calls := w.calls.insert n { c with stage } }
      | some (.error message) =>
        { w with failures := w.failures.insert c.account.id message }.finish n c.account.id

/-- `SessionModel.dispose`, which tells the core to disconnect. -/
def dispose (opened : Map Nat String) (s : NetworkSession) : Map Nat String :=
  opened.erase s.connectionId

def disconnect (w : Workspace) (profileId : String) : Workspace :=
  match w.sessions.lookup profileId with
  | none => w
  | some s =>
    let sessions := w.sessions.erase profileId
    { w with
      sessions
      opened := dispose w.opened s
      active := if w.active = some profileId then sessions.entries.head?.map (·.1) else w.active }

def forget (w : Workspace) (profileId : String) : Workspace :=
  let w := w.disconnect profileId
  { w with failures := w.failures.erase profileId }

def closeAll (w : Workspace) : Workspace :=
  if w.closed then w
  else
    { w with
      closed := true
      opened := (Map.values w.sessions).foldl dispose w.opened
      sessions := ∅ }

def step (w : Workspace) (i : Input) : Workspace × Unit :=
  (match i with
    | .connect a focus => w.connect a focus
    | .awaited n answer => w.awaited n answer
    | .disconnect p => w.disconnect p
    | .forget p => w.forget p
    | .closeAll => w.closeAll
    | .select p => w.select p, ())

def after (inputs : List Input) : Workspace := Run.after step {} inputs

/-! ## The latest call -/

/-- Whether an input is a call for a profile, and then whether it is a connect. -/
def Input.callFor (p : String) : Input → Option Bool
  | .connect a _ => if a.id = p then some true else none
  | .disconnect q | .forget q => if q = p then some false else none
  | .closeAll => some false
  | _ => none

/-- Whether the latest call for a profile is a connect. -/
def latestCall (p : String) (inputs : List Input) : Option Bool :=
  (inputs.filterMap (Input.callFor p)).getLast?

/-- The workspace has no session for a profile, and the core no connection that it was not told to
disconnect. -/
structure Gone (w : Workspace) (p : String) : Prop where
  session : w.sessions.lookup p = none
  opened : ∀ id, w.opened.lookup id ≠ some p

end Workspace
end Ddirc.App
