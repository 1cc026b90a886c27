import Ddirc.Server.State

/-! # The operator's commands, applied

`ddirc-server/src/state/admin.rs`: each command returns a sentence, success or refusal. An
`Operation` is any event the server's task handles, and `Reachable` are the states it can be in. -/

namespace Ddirc.Server
open Irc

def motdLineLen : Nat := 300

namespace Network

def serverOrigin (n : Network) : Prefix := .serverName n.serverName

/-- A notice from the operator, from a nick-shaped prefix named for the server. -/
def serverNotice (n : Network) (target text : String) : Message where
  source := some (.nickname n.serverName "server" host)
  command := .notice target text

def registered (n : Network) (nick : String) : Except String ClientId :=
  match (n.nicks.lookup (fold nick)).filter n.isRegistered with
  | some id => .ok id
  | none => .error ("no such nick: " ++ nick)

def channelKey (n : Network) (name : String) : Except String (String × Channel) :=
  match n.channels.lookup (fold name) with
  | some channel => .ok (fold name, channel)
  | none => .error ("no such channel: " ++ name)

def member (n : Network) (name nick : String) : Except String (String × Channel × ClientId) := do
  let (key, channel) ← n.channelKey name
  let id ← n.registered nick
  if id ∈ channel.members then .ok (key, channel, id)
  else .error (nick ++ " is not in " ++ name)

/-- Go on with what a lookup found, or refuse for its reason. -/
def orRefuse (n : Network) (found : Except String α)
    (go : α → Network × Except String String) : Network × Except String String :=
  match found with
  | .ok a => go a
  | .error why => (n, .error why)

def setOp (n : Network) (name nick : String) (give : Bool) : Network × Except String String :=
  n.orRefuse (n.member name nick) fun (key, channel, id) =>
    let name := n.nickOf id
    let verb := if give then "an operator" else "not an operator"
    -- nothing changes where the set has `id` already, or has it not
    if decide (id ∈ channel.operators) = give then
      (n, .error (name ++ " is already " ++ verb ++ " in " ++ channel.name))
    else
      let operators := if give then insert id channel.operators else channel.operators.erase id
      let n := { n with channels := n.channels.insert key { channel with operators } }
      let n := n.broadcast key {
        source := some n.serverOrigin
        command := .raw "MODE" [channel.name, if give then "+o" else "-o", name] } none
      let n := n.emit (.mode channel.name n.serverName name give)
      (n, .ok (name ++ " is now " ++ verb ++ " in " ++ channel.name))

def ban (n : Network) (nick : String) (reason : Option String) :
    Network × Except String String :=
  if !validNick nick then (n, .error (nick ++ " is not a nickname"))
  else if fold nick ∈ n.banned then (n, .error (nick ++ " is already banned"))
  else
    let n := { n with banned := insert (fold nick) n.banned }
    -- whoever is wearing the name right now goes too
    let n := match n.nicks.lookup (fold nick) with
      | some id => n.close id ("Banned: " ++ reason.getD "Banned by the operator")
      | none => n
    (n, .ok ("banned " ++ nick))

def closeChannel (n : Network) (name : String) (reason : Option String) :
    Network × Except String String :=
  n.orRefuse (n.channelKey name) fun (key, channel) =>
    let why := (reason.map (truncate · topicLen)).getD "Channel closed by the operator"
    let members := sorted channel.members.val
    (members.foldl (fun n member => n.kickMember key member n.serverOrigin (some why)) n,
      .ok ("closed " ++ channel.name ++ " (" ++ toString members.length ++ " removed)"))

def notice (n : Network) (target text : String) : Network × Except String String :=
  let text := truncate text topicLen
  if text.isEmpty then (n, .error "nothing to say")
  else
    let message := n.serverNotice target text
    let done := .ok ("sent to " ++ target)
    if isChannel target then
      n.orRefuse (n.channelKey target) fun (key, _) => (n.broadcast key message none, done)
    else n.orRefuse (n.registered target) fun id => (n.send id message, done)

def wall (n : Network) (text : String) : Network × Except String String :=
  let text := truncate text topicLen
  if text.isEmpty then (n, .error "nothing to say")
  else
    let everyone := n.clients.entries.filter (·.2.registered)
    (n.deliver fun i =>
        if n.isRegistered i then some (n.serverNotice (n.nickOf i) text) else none,
      .ok ("sent to " ++ toString everyone.length ++ " connected"))

def setMotd (n : Network) (lines : List String) : Network × Except String String :=
  let keep (line : String) :=
    truncate (String.ofList (line.toList.filter (!Str.isControl ·))) motdLineLen
  let lines := (lines.map keep).filter (!·.isEmpty)
  if lines.isEmpty then
    ({ n with motd := defaultMotd }, .ok "message of the day restored to the default")
  else
    ({ n with motd := lines },
      .ok ("message of the day set (" ++ toString lines.length ++ " lines)"))

def execute (n : Network) : AdminCommand → Network × Except String String
  | .kick name nick reason =>
    n.orRefuse (n.member name nick) fun (key, channel, victim) =>
      (n.kickMember key victim n.serverOrigin (reason.map (truncate · topicLen)),
        .ok ("kicked " ++ nick ++ " from " ++ channel.name))
  | .disconnect nick reason =>
    n.orRefuse (n.registered nick) fun id =>
      (n.close id (reason.getD "Removed by the operator"), .ok ("disconnected " ++ n.nickOf id))
  | .ban nick reason => n.ban nick reason
  | .unban nick =>
    if fold nick ∈ n.banned then
      ({ n with banned := n.banned.erase (fold nick) }, .ok ("unbanned " ++ nick))
    else (n, .error (nick ++ " is not banned"))
  | .setTopic name topic =>
    n.orRefuse (n.channelKey name) fun (key, channel) =>
      (n.setTopic key n.serverName n.serverOrigin channel (truncate topic topicLen),
        .ok ("topic of " ++ channel.name ++ " updated"))
  | .closeChannel name reason => n.closeChannel name reason
  | .op name nick => n.setOp name nick true
  | .deop name nick => n.setOp name nick false
  | .notice target text => n.notice target text
  | .wall text => n.wall text
  | .setMotd lines => n.setMotd lines

/-- Apply `command`, and tell the operator's view how it went. -/
def runAdmin (n : Network) (command : AdminCommand) : Network × Except String String :=
  let (n, outcome) := n.execute command
  let event : EventKind := match outcome with
    | .ok text => .admin true text
    | .error text => .admin false text
  (n.emit event, outcome)

end Network

/-! ## Runs -/

/-- What the server's task is asked to do, one at a time; the clock moves in between. -/
inductive Operation where
  | connect (id : ClientId)
  | handle (id : ClientId) (message : Message)
  | disconnect (id : ClientId) (reason : String)
  | runAdmin (command : AdminCommand)
  | ping (id : ClientId)
  | observe
  | tick (now : Nat)

namespace Network

def apply (n : Network) : Operation → Network
  | .connect id => n.connect id
  | .handle id message => n.handle id message
  | .disconnect id reason => n.disconnect id reason
  | .runAdmin command => (n.runAdmin command).1
  | .ping id => n.ping id
  | .observe => n.observe
  | .tick now => { n with clock := now }

/-- A connection is accepted under an id that no connected client has. -/
def Allows (n : Network) : Operation → Prop
  | .connect id => n.clients.lookup id = none
  | _ => True

instance : DecidablePred (Allows n) := fun op =>
  match op with
  | .connect _ => inferInstanceAs (Decidable (_ = none))
  | .handle .. | .disconnect .. | .runAdmin _ | .ping _ | .observe | .tick _ => instDecidableTrue

/-- The states a server can be in when `P` holds of each operation and the state it finds. -/
inductive ReachableBy (P : Network → Operation → Prop) : Network → Prop where
  | init (serverName networkName : String) (now : Nat) :
    ReachableBy P (init serverName networkName now)
  | step (op : Operation) : ReachableBy P n → n.Allows op → P n op → ReachableBy P (n.apply op)

abbrev Reachable : Network → Prop := ReachableBy fun _ _ => True

def run (n : Network) (ops : List Operation) : Network := ops.foldl apply n

/-- Each of the operations is allowed when its turn comes, and `P` holds of it then. -/
def Meets (P : Network → Operation → Prop) : Network → List Operation → Prop
  | _, [] => True
  | n, op :: ops => (n.Allows op ∧ P n op) ∧ Meets P (n.apply op) ops

instance decidableMeets {P : Network → Operation → Prop} [∀ n op, Decidable (P n op)] :
    (n : Network) → (ops : List Operation) → Decidable (n.Meets P ops)
  | _, [] => instDecidableTrue
  | n, op :: ops => @instDecidableAnd _ _ _ (decidableMeets (n.apply op) ops)

theorem ReachableBy.run (h : ReachableBy P n) (hops : n.Meets P ops) :
    ReachableBy P (n.run ops) := by
  induction ops generalizing n with
  | nil => exact h
  | cons op ops ih => exact ih (h.step op hops.1.1 hops.1.2) hops.2

end Network

end Ddirc.Server
