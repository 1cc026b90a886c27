import Mathlib.Algebra.Group.Int.Defs
import Ddirc.Server.Snapshot

/-! # The server manager

What the manager's screen knows, and how it reacts to a key (`ddirc-cli/src/server/model.rs`, and
`commands.rs` for the command line): a key goes in and a list of commands for the server comes out.
A selection is a connection id, a channel's name or a nick, from which its row is worked out. The
log and its scrolling are left out: no key's effect depends on them. -/

namespace Ddirc.Manager
open Server (AdminCommand ChannelInfo ClientId MemberInfo Snapshot UserInfo)

/-! ## The command line -/

inductive Parsed where
  | run (command : AdminCommand)
  | help
  deriving Repr, DecidableEq

def channelName (name : String) : String := if Str.startsWith name '#' then name else "#" ++ name

def word (text : String) : String × String :=
  let text := Str.trimStart text
  match text.toList.dropWhile (!Str.isWhitespace ·) with
  | _ :: rest =>
    (String.ofList (text.toList.takeWhile (!Str.isWhitespace ·)), Str.trim (String.ofList rest))
  | [] => (text, "")

def reason (text : String) : Option String := if text.isEmpty then none else some text

/-- Parse one line. A leading `:` or `/` is allowed and ignored. -/
def parse (line : String) : Except String Parsed :=
  let line := Str.trimStartMatches (fun c => c == ':' || c == '/') (Str.trim line)
  let (verb, rest) := word line
  let need (what value : String) : Except String String :=
    if value.isEmpty then .error (verb ++ " needs " ++ what) else .ok value
  match Str.toAsciiLowercase verb with
  | "" => .error "type a command; help lists them"
  | "help" | "?" => .ok .help
  | "kick" => do
    let (chan, rest) := word rest
    let (nick, why) := word rest
    .ok (.run (.kick (channelName (← need "a channel" chan)) (← need "a nick" nick) (reason why)))
  | "kill" | "disconnect" => do
    let (nick, why) := word rest
    .ok (.run (.disconnect (← need "a nick" nick) (reason why)))
  | "ban" => do
    let (nick, why) := word rest
    .ok (.run (.ban (← need "a nick" nick) (reason why)))
  | "unban" => do .ok (.run (.unban (← need "a nick" (word rest).1)))
  | "topic" => do
    let (chan, text) := word rest
    .ok (.run (.setTopic (channelName (← need "a channel" chan)) text))
  | "close" => do
    let (chan, why) := word rest
    .ok (.run (.closeChannel (channelName (← need "a channel" chan)) (reason why)))
  | "op" | "deop" => do
    let (chan, rest) := word rest
    let (nick, _) := word rest
    let channel := channelName (← need "a channel" chan)
    let nick ← need "a nick" nick
    .ok (.run (if Str.eqIgnoreAsciiCase verb "op" then .op channel nick else .deop channel nick))
  | "say" | "msg" | "notice" => do
    let (target, text) := word rest
    .ok (.run (.notice (← need "a nick or channel" target) (← need "something to say" text)))
  | "wall" => do .ok (.run (.wall (← need "something to say" rest)))
  | "motd" => .ok (.run (.setMotd (((Str.split '|' rest).map Str.trim).filter (!·.isEmpty))))
  | other => .error ("unknown command: " ++ other ++ " (help lists them)")

/-! ## The screen -/

inductive Tab where
  | users | channels | log
  deriving Repr, DecidableEq

def Tab.step : Tab → Bool → Tab
  | .users, true => .channels
  | .channels, true => .log
  | .log, true => .users
  | .users, false => .log
  | .channels, false => .users
  | .log, false => .channels

inductive Focus where
  | channels | members
  deriving Repr, DecidableEq

inductive Confirmed where
  | admin (command : AdminCommand)
  | quit
  deriving Repr, DecidableEq

structure Confirm where
  question : String
  action : Confirmed
  deriving Repr, DecidableEq

structure Flash where
  text : String
  ok : Bool
  ticks : Nat
  deriving Repr, DecidableEq

def page : Int := 10

def flashTicks : Nat := 20

inductive KeyCode where
  | char (c : Char)
  | enter | esc | tab | backTab | left | right | up | down | pageUp | pageDown | home | «end»
  | f (n : Nat)
  | other
  deriving Repr, DecidableEq

structure KeyEvent where
  code : KeyCode
  control : Bool := false
  alt : Bool := false
  deriving Repr, DecidableEq

/-- What the terminal brings: the Latin letter on the key of another layout (`keymap::latin`), and
the editing of a line (`tui_input`). -/
structure Terminal where
  latin : Char → Option Char
  edit : String → KeyEvent → String

def Terminal.shortcut (term : Terminal) (key : KeyEvent) : KeyEvent :=
  match key.code with
  | .char c => match term.latin c with
    | some letter => { key with code := .char letter }
    | none => key
  | _ => key

structure App where
  snapshot : Snapshot
  now : Nat
  tab : Tab := .users
  focus : Focus := .channels
  user : Option ClientId := none
  channel : Option String := none
  member : Option String := none
  /-- The command line, while it is open. -/
  bar : Option String := none
  confirm : Option Confirm := none
  help : Bool := false
  flash : Option Flash := none
  quit : Bool := false
  deriving Repr, DecidableEq

/-- Keep `selection` if what it names is still in `items`; otherwise take the item now where it was,
or the last one, or nothing. -/
def reselect {T K : Type} [BEq K] (items : List T) (key : T → K) (selection : Option K)
    (wasAt : Nat) : Option K :=
  if selection.any fun k => items.any (key · == k) then selection
  else (items[min wasAt (items.length - 1)]?).map key

/-- Move a selection by `by_` rows, stopping at the ends. -/
def shift {T K : Type} [BEq K] (items : List T) (key : T → K) (selection : Option K) (by_ : Int) :
    Option K :=
  let at_ := (selection.bind fun k => items.findIdx? (key · == k)).getD 0
  let to_ := max 0 (min ((at_ : Int) + by_) ((items.length : Int) - 1))
  (items[to_.toNat]?).map key

/-- The person the keys act on, and the channel they act in. -/
structure Target where
  nick : String
  channel : Option String

def emptySnapshot : Snapshot where
  serverName := ""
  networkName := ""
  startedAt := 0
  connectionsTotal := 0
  messagesTotal := 0
  users := []
  channels := []
  banned := []
  motd := []

namespace App

/-! ### Selection -/

def selectedUser (app : App) : Option UserInfo := do
  let id ← app.user
  app.snapshot.users.find? (·.id == id)

def selectedChannel (app : App) : Option ChannelInfo := do
  let name ← app.channel
  app.snapshot.channels.find? (·.name == name)

def memberRows (app : App) : List MemberInfo := (app.selectedChannel.map (·.members)).getD []

def selectedMember (app : App) : Option MemberInfo := do
  let nick ← app.member
  app.memberRows.find? (·.nick == nick)

def indexOfUser (app : App) : Option Nat := do
  let id ← app.user
  app.snapshot.users.findIdx? (·.id == id)

def indexOfChannel (app : App) : Option Nat := do
  let name ← app.channel
  app.snapshot.channels.findIdx? (·.name == name)

def indexOfMember (app : App) : Option Nat := do
  let nick ← app.member
  app.memberRows.findIdx? (·.nick == nick)

def setSnapshot (app : App) (snapshot : Snapshot) : App :=
  let userAt := app.indexOfUser.getD 0
  let channelAt := app.indexOfChannel.getD 0
  let memberAt := app.indexOfMember.getD 0
  let app := { app with
    snapshot
    user := reselect snapshot.users (·.id) app.user userAt
    channel := reselect snapshot.channels (·.name) app.channel channelAt }
  -- the members are those of whichever channel is now selected
  { app with member := reselect app.memberRows (·.nick) app.member memberAt }

def blank (now : Nat) : App := { snapshot := emptySnapshot, now }

def moveSelection (app : App) (by_ : Int) : App :=
  match app.tab, app.focus with
  | .users, _ => { app with user := shift app.snapshot.users (·.id) app.user by_ }
  | .channels, .channels =>
    let app := { app with channel := shift app.snapshot.channels (·.name) app.channel by_ }
    -- a new channel starts with its first member selected
    { app with member := app.memberRows.head?.map (·.nick) }
  | .channels, .members => { app with member := shift app.memberRows (·.nick) app.member by_ }
  | .log, _ => app

/-! ### Events -/

def tick (app : App) (now : Nat) : App :=
  { app with
    now
    flash := app.flash.bind fun flash =>
      let ticks := flash.ticks - 1
      if ticks = 0 then none else some { flash with ticks } }

def say (app : App) (text : String) (ok : Bool) : App :=
  { app with flash := some ⟨text, ok, flashTicks⟩ }

/-! ### Keys -/

def openBar (app : App) (text : String) : App := { app with bar := some text }

def ask (app : App) (question : String) (action : Confirmed) : App :=
  { app with confirm := some ⟨question, action⟩ }

def confirmKey (app : App) (key : KeyEvent) : App × List AdminCommand :=
  match key.code with
  | .char 'y' | .char 'Y' =>
    match app.confirm with
    | none => (app, [])
    | some ⟨_, .admin command⟩ => ({ app with confirm := none }, [command])
    | some ⟨_, .quit⟩ => ({ app with confirm := none, quit := true }, [])
  | .char 'n' | .char 'N' | .char 'q' | .esc | .enter => ({ app with confirm := none }, [])
  | _ => (app, [])

def barKey (term : Terminal) (app : App) (key : KeyEvent) : App × List AdminCommand :=
  match key.code with
  | .esc => ({ app with bar := none }, [])
  | .enter =>
    match parse (app.bar.getD "") with
    | .ok (.run command) => ({ app with bar := none }, [command])
    | .ok .help => ({ app with bar := none, help := true }, [])
    -- left open, with what was typed
    | .error message => (app.say message false, [])
  | _ => ({ app with bar := app.bar.map (term.edit · key) }, [])

/-- The highlighted user on the users tab, the highlighted member, once focus is in the member list,
on the channels tab. -/
def target (app : App) : App × Option Target :=
  match app.tab, app.focus with
  | .users, _ =>
    match app.selectedUser with
    | none => (app, none)
    | some user =>
      match user.nick.filter fun _ => user.registered with
      | none =>
        (app.say ("connection #" ++ toString user.id ++ " has not chosen a nick yet") false, none)
      | some nick => (app, some ⟨nick, user.channels.head?⟩)
  | .channels, .members =>
    (app, do
      let channel ← app.selectedChannel
      let member ← app.selectedMember
      some ⟨member.nick, some channel.name⟩)
  | _, _ => (app, none)

def channelKey (app : App) (c : Char) : App :=
  match app.selectedChannel with
  | none => app
  | some channel =>
    match c with
    | 't' => app.openBar ("topic " ++ channel.name ++ " " ++ channel.topic.getD "")
    | 'n' => app.openBar ("say " ++ channel.name ++ " ")
    | _ => app.ask ("Close " ++ channel.name ++ "? Everyone in it is removed.")
        (.admin (.closeChannel channel.name none))

def actionKey (app : App) (c : Char) : App × List AdminCommand :=
  let (app, target) := app.target
  match c, target with
  | 'k', some ⟨nick, channel⟩ =>
    match channel with
    | some channel => (app.openBar ("kick " ++ channel ++ " " ++ nick ++ " "), [])
    | none => (app.say (nick ++ " is not in any channel") false, [])
  | 'x', some ⟨nick, _⟩ =>
    (app.ask ("Disconnect " ++ nick ++ " from the server?") (.admin (.disconnect nick none)), [])
  | 'b', some ⟨nick, _⟩ =>
    (app.ask ("Ban " ++ nick ++ "? They are disconnected and the name is refused.")
      (.admin (.ban nick none)), [])
  | 'm', some ⟨nick, _⟩ => (app.openBar ("say " ++ nick ++ " "), [])
  | 'o', some ⟨nick, some channel⟩ =>
    if app.tab = .channels then
      (app, [if app.selectedMember.any (·.op) then .deop channel nick else .op channel nick])
    else (app, [])
  | 't', _ | 'n', _ | 'c', _ => (if app.tab = .channels then app.channelKey c else app, [])
  | 'u', _ => (app.openBar ("unban " ++ app.snapshot.banned.head?.getD ""), [])
  | _, _ => (app, [])

def normalKey (app : App) (key : KeyEvent) : App × List AdminCommand :=
  let inMembers := app.tab = .channels ∧ app.focus = .members
  let inChannels := app.tab = .channels ∧ app.focus = .channels
  match key.code with
  | .left => (if inMembers then { app with focus := .channels } else app, [])
  | .esc => (if inMembers then { app with focus := .channels } else { app with flash := none }, [])
  | .right | .enter => (if inChannels then { app with focus := .members } else app, [])
  | .char 'q' => (app.ask "Stop the server?" .quit, [])
  | .char '?' | .f 1 => ({ app with help := true }, [])
  | .char ':' | .char '/' | .f 2 => (app.openBar "", [])
  | .char 'w' => (app.openBar "wall ", [])
  | .char 'M' => (app.openBar ("motd " ++ Str.join " | " app.snapshot.motd), [])
  | .tab => ({ app with tab := app.tab.step true }, [])
  | .backTab => ({ app with tab := app.tab.step false }, [])
  | .char '1' => ({ app with tab := .users }, [])
  | .char '2' => ({ app with tab := .channels }, [])
  | .char '3' => ({ app with tab := .log }, [])
  | .up => (app.moveSelection (-1), [])
  | .down => (app.moveSelection 1, [])
  | .pageUp => (app.moveSelection (-page), [])
  | .pageDown => (app.moveSelection page, [])
  | .home => (app.moveSelection (-2 ^ 62), [])
  | .end => (app.moveSelection (2 ^ 62 - 1), [])
  | .char c => app.actionKey c
  | _ => (app, [])

def key (term : Terminal) (app : App) (key : KeyEvent) : App × List AdminCommand :=
  let chord := key.control || key.alt
  let key := if chord || app.bar.isNone then term.shortcut key else key
  if key.control && key.code == .char 'c' then ({ app with quit := true }, [])
  else if app.confirm.isSome then app.confirmKey key
  else if app.bar.isSome then app.barKey term key
  else if app.help then
    match key.code with
    | .esc | .enter | .char 'q' | .char '?' | .f 1 => ({ app with help := false }, [])
    | _ => (app, [])
  else app.normalKey key

end App

end Ddirc.Manager
