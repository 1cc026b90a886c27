import Ddirc.App.Request

/-! # The agent server

`McpServer` of the app: an agent asks for a message to be sent, the user is asked unless the
conversation was allowed for good, and the message goes out through the session. What runs between
two awaits of a call, for the user and for a lasting permission to be written down, is one step.

The sessions and the list of networks belong to the app and change at any time. The other tools, the
token, the port, the list of activity and the core's answers are left out. -/

namespace Ddirc.App
open Api Text

/-- A session whose conversations are filed under their names in lower case. -/
structure Filed (env : Env) where
  session : Session
  filed : ∀ k c, session.conversations.lookup k = some c → Session.key env c.name = k

/-- A session after some inputs. -/
def Filed.after (env : Env) (nick : String) (settings : Settings) (inputs : List Session.Input) :
    Filed env where
  session := Run.after (Session.step env) { nick, settings } inputs
  filed := (Session.kept_after env nick settings inputs).filed

namespace Mcp

structure ProfileId where
  text : String
  oneLine : '\n' ∉ text.toList
  deriving DecidableEq

inductive Decision where
  | once | always | deny
  deriving DecidableEq

/-- `McpSendRequest`: what the user is shown. -/
structure SendRequest where
  profileId : ProfileId
  networkName : String
  conversation : String
  text : String
  replyTo : Option ReplyRef := none
  deriving DecidableEq

/-- The arguments of `send_message`; `none` is anything but a string. -/
structure SendArgs where
  network : Option String
  conversation : Option String
  text : Option String
  replyTo : Option String := none

inductive Stage where
  | waiting
  | saving
  deriving DecidableEq

structure Suspended where
  /-- The session the call is for, by its place in `Server.sessions`. -/
  session : Nat
  request : SendRequest
  stage : Stage

inductive Outcome where
  | handed (session : Nat) (call : Call)
  | failed (error : String)
  | declined
  deriving DecidableEq

structure Output where
  call : Nat
  outcome : Outcome
  deriving DecidableEq

/-- A `SessionModel`, by what the server reads of it. -/
structure Held (env : Env) where
  profileId : ProfileId
  network : Option String := none
  model : Filed env

structure Server (env : Env) where
  allowed : Finset String
  /-- The calls whose requests are on show, oldest first. -/
  pending : List Nat := []
  calls : Map Nat Suspended := ∅
  next : Nat := 0
  sessions : List (Held env) := []
  live : List Nat := []
  nameOf : ProfileId → Option String := fun _ => none
  locked : Bool := false
  attached : Bool := true
  running : Bool := true

def maxText : Nat := 2000

/-- The number of code units of a text, as Dart counts its length. -/
def length (text : String) : Nat := (text.toList.flatMap Conversation.utf16).length

def idOf (line : ChatLine) : String :=
  let time := match line with
    | .message _ _ time | .system _ _ time | .file _ time => time
  (line.said.bind (·.msgid)).getD
    ("local-" ++ toString time ++ "-" ++ (line.said.map (·.sender)).getD "system")

variable {env : Env}

def Held.conversations (s : Held env) : List Conversation :=
  s.model.session.order.filterMap s.model.session.conversations.lookup

def allowKey (env : Env) (profileId : ProfileId) (conversation : String) : String :=
  profileId.text ++ "\n" ++ env.lower conversation

namespace Server

/-! ## Finding what is asked for -/

def session (a : Server env) (network : Option String) : Except String (Nat × Held env) :=
  match network with
  | none => .error "network is required"
  | some network =>
    if network.isEmpty then .error "network is required"
    else
      let wanted := env.lower network
      let found := a.live.findSome? fun id => a.sessions[id]?.bind fun s =>
        if s.profileId.text = network ∨ (a.nameOf s.profileId).map env.lower = some wanted ∨
          s.network.map env.lower = some wanted then some (id, s) else none
      match found with
      | some found => .ok found
      | none => .error ("not connected to \"" ++ network ++ "\" — see list_networks")

def conversation (s : Held env) (name : Option String) : Except String Conversation :=
  match name with
  | none => .error "conversation is required"
  | some name =>
    if name.isEmpty then .error "conversation is required"
    else match s.conversations.find? (env.lower ·.name = env.lower name) with
      | some c => .ok c
      | none => .error ("no open conversation \"" ++ name ++ "\" — see list_conversations")

def checkText (text : Option String) : Except String String :=
  match text with
  | none => .error "text is required"
  | some text =>
    if (Session.trim text).isEmpty then .error "text is required"
    else if maxText < length text then
      .error ("text is longer than " ++ toString maxText ++ " characters")
    else .ok text

/-- The message that is answered: the newest one under the id. -/
def replyTo (c : Conversation) (replyId : Option String) : Except String (Option ReplyRef) :=
  match replyId with
  | none => .ok none
  | some replyId =>
    match c.lines.reverse.findSome? fun l => l.said.filter fun _ => idOf l = replyId with
    | none => .error ("no message with id \"" ++ replyId ++ "\" in " ++ c.name)
    | some m => .ok (some { msgid := m.msgid, nick := m.sender, excerpt := m.text })

def networkName (a : Server env) (s : Held env) : String :=
  ((a.nameOf s.profileId).or s.network).getD s.profileId.text

/-- What a call asks for and the session it asks, up to the point where permission is looked up. -/
def request (a : Server env) (args : SendArgs) : Except String (Nat × SendRequest) := do
  if a.locked then throw "ddIRC is locked. Ask the user to unlock it."
  if !a.attached then throw "ddIRC is still starting."
  let (id, s) ← a.session args.network
  let c ← conversation s args.conversation
  if c.pending then throw "that is a message request the user has not accepted"
  let text ← checkText args.text
  let reply ← replyTo c args.replyTo
  return (id, {
    profileId := s.profileId
    networkName := a.networkName s
    conversation := c.name
    text
    replyTo := reply })

/-! ## Sending -/

def say (a : Server env) (n id : Nat) (r : SendRequest) : List Output :=
  match a.sessions[id]? with
  | none => []
  | some s =>
    (s.model.session.say env r.conversation r.text r.replyTo).filterMap fun
      | .call c => some ⟨n, .handed id c⟩
      | .refused error => some ⟨n, .failed error⟩
      | _ => none

def call (a : Server env) (args : SendArgs) : Server env × List Output :=
  let n := a.next
  let a := { a with next := n + 1 }
  match a.request args with
  | .error e => (a, [⟨n, .failed e⟩])
  | .ok (id, r) =>
    if allowKey env r.profileId r.conversation ∈ a.allowed then (a, a.say n id r)
    else
      ({ a with
          pending := a.pending ++ [n]
          calls := a.calls.insert n { session := id, request := r, stage := .waiting } }, [])

/-- `decide`, and the call that was waiting for it. A request that was answered before, or that is
waited for no longer, takes no answer. -/
def decide (a : Server env) (n : Nat) (d : Decision) : Server env × List Output :=
  match a.calls.lookup n with
  | some { session := id, request := r, stage := .waiting } =>
    let a := { a with pending := a.pending.filter (· ≠ n) }
    match d with
    | .deny => ({ a with calls := a.calls.erase n }, [⟨n, .declined⟩])
    | .once => ({ a with calls := a.calls.erase n }, a.say n id r)
    | .always =>
      ({ a with
          allowed := insert (allowKey env r.profileId r.conversation) a.allowed
          calls := a.calls.insert n { session := id, request := r, stage := .saving } }, [])
  | _ => (a, [])

def saved (a : Server env) (n : Nat) (error : Option String) : Server env × List Output :=
  match a.calls.lookup n with
  | some { session := id, request := r, stage := .saving } =>
    let a := { a with calls := a.calls.erase n }
    match error with
    | none => (a, a.say n id r)
    | some e => (a, [⟨n, .failed e⟩])
  | _ => (a, [])

def denyAll (a : Server env) : List Nat → Server env × List Output
  | [] => (a, [])
  | n :: ns =>
    let (a', out) := a.decide n .deny
    let (a'', rest) := denyAll a' ns
    (a'', out ++ rest)

/-- `_stop`: every request on show is withdrawn. -/
def stop (a : Server env) : Server env × List Output :=
  let (a', out) := { a with running := false }.denyAll a.pending
  ({ a' with pending := [] }, out)

inductive Input (env : Env) where
  | call (args : SendArgs)
  | decide (n : Nat) (d : Decision)
  | timeout (n : Nat)
  | saved (n : Nat) (error : Option String)
  | forgetAllowed
  | stop
  | start (bound : Bool)
  | opened (s : Held env)
  | changed (id : Nat) (network : Option String) (model : Filed env)
  /-- The saved networks changed: which sessions are listed, and the names. -/
  | listed (live : List Nat) (nameOf : ProfileId → Option String)
  | locked (value : Bool)
  | attached

def step (a : Server env) : Input env → Server env × List Output
  | .call args => a.call args
  | .decide n d => a.decide n d
  -- `onTimeout` answers for the user, and `decide` finds nobody waiting afterwards.
  | .timeout n => a.decide n .deny
  | .saved n error => a.saved n error
  | .forgetAllowed => ({ a with allowed := ∅ }, [])
  | .stop => a.stop
  | .start bound => ({ a with running := bound }, [])
  | .opened s => ({ a with sessions := a.sessions ++ [s] }, [])
  | .changed id network model =>
    ({ a with sessions := a.sessions.modify id ({ · with network, model }) }, [])
  | .listed live nameOf => ({ a with live, nameOf }, [])
  | .locked value => ({ a with locked := value }, [])
  | .attached => ({ a with attached := true }, [])

def after (a : Server env) (inputs : List (Input env)) : Server env := Run.after step a inputs

end Server
end Mcp
end Ddirc.App
