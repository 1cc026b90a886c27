import Ddirc.Conn.Loop
import Ddirc.Dcc.Download

/-! # Files

The file commands of the connection actor, and the tasks it starts for them: what they put on the
outgoing queue, where they listen and where they connect to. What a transfer reports is left out,
and so is what becomes of the files. What the outside answers comes with the input. -/

namespace Ddirc.Dcc
open Option

/-- The name in an offer is one that is safe to write to. -/
theorem safe_of_parseSend
    (h : parseSend parseIp body = some offer) :
      ∃ name, safeFilename name = some offer.filename := by
  simp only [parseSend, bind_eq_bind, bind_eq_some_iff] at h
  obtain ⟨_, -, _, -, ⟨name, rest⟩, -, filename, hsafe, _, -, _, -, h⟩ := h
  have hname : offer.filename = filename := by
    split at h
    · obtain ⟨_, -, h⟩ := bind_eq_some_iff.1 h
      rw [← some.inj h]
    · obtain ⟨_, -, h⟩ := bind_eq_some_iff.1 h
      rw [← some.inj h]
  exact ⟨name, hname ▸ hsafe⟩

end Ddirc.Dcc

namespace Ddirc.Conn
open Irc Client Dcc

structure ProxyConfig where
  host : String
  port : Nat
  username : Option String := none
  password : Option String := none
  deriving Repr, DecidableEq

/-- Where a TCP connection goes. -/
inductive Endpoint where
  | host (name : String) (port : Nat)
  | address (addr : IpAddr) (port : Nat)
  deriving Repr, DecidableEq

def dial (proxy : Option ProxyConfig) (addr : IpAddr) (port : Nat) : Endpoint :=
  match proxy with
  | none => .address addr port
  | some proxy => .host proxy.host proxy.port

structure PendingOffer where
  /-- The conversation it belongs to. -/
  channel : String
  sender : String
  offer : DccOffer
  safe : ∃ name, safeFilename name = some offer.filename

inductive Fetching where
  /-- The sender was asked to carry on from `wanted`. -/
  | waiting (wanted : Nat)
  /-- `transfer::accept` runs. -/
  | accepting (startAt : Nat) (stage : Stage)
  | ended

/-- The task that fetches a file, with its own copy of the proxy. -/
structure Fetch where
  pending : PendingOffer
  proxy : Option ProxyConfig
  state : Fetching

namespace Fetch

def acceptance (f : Fetch) (startAt : Nat) : Acceptance where
  offer := f.pending.offer
  sender := f.pending.sender
  proxied := f.proxy.isSome
  startAt
  safe := f.pending.safe

def begin (f : Fetch) (startAt : Nat) : Fetch :=
  { f with state := .accepting startAt (f.acceptance startAt).begin }

/-- The sender's answer, or that none came in time: only the point that was asked for counts. -/
def answered (f : Fetch) (position : Option Nat) : Fetch :=
  match f.state with
  | .waiting wanted => f.begin (if position = some wanted then wanted else 0)
  | _ => f

def cancelled (f : Fetch) : Fetch :=
  match f.state with
  | .waiting _ => { f with state := .ended }
  | _ => f

def act (f : Fetch) (id : Nat) (files : Files SentByte) (choice : Choice) : Fetch × List Endpoint :=
  match f.state with
  | .accepting startAt stage =>
    let connects := match stage, f.pending.offer.addr, f.pending.offer.port with
      | .dialling _, some addr, some port => [dial f.proxy addr port]
      | _, _, _ => []
    ({ f with state := .accepting startAt ((f.acceptance startAt).step id files stage choice).2 },
      connects)
  | _ => (f, [])

end Fetch

structure Outside where
  /-- The last part of the path. -/
  fileName : Option String := none
  fileSize : Except TransferError Nat := .error (.io "")
  /-- `routable_address`, in the integer form of an offer. -/
  routable : Option Nat := none
  /-- The port that `listen` was given. -/
  listen : Except TransferError Nat := .error (.io "")
  /-- What is in the directory that a file goes to. -/
  directory : Directory := ∅

structure FileActor where
  actor : Actor
  /-- Of the configuration, which stays as it is. -/
  proxy : Option ProxyConfig
  nextId : Nat := 0
  offers : Map Nat PendingOffer := ∅
  fetches : Map Nat Fetch := ∅

inductive FileInput where
  | actor (i : Actor.Input) (outside : Outside)
  | timeout (id : Nat)
  | act (id : Nat) (files : Files SentByte) (choice : Choice)

structure FileOutput where
  sent : List Message := []
  queued : List Message := []
  listens : List Nat := []
  connects : List Endpoint := []

def sendLine (filename : String) (advertised port size : Nat) : String :=
  "\x01DCC SEND " ++ quoteFilename filename ++ " " ++ toString advertised ++ " " ++ toString port ++
    " " ++ toString size ++ "\x01"

/-- A message offers a file: its recipient would read it as `DCC SEND`. -/
def isDccSend (m : Message) : Bool :=
  match m.command with
  | .privmsg _ text | .notice _ text =>
    match text.toList with
    | c :: rest => c.toNat == 1 &&
      ((stripKeyword (String.ofList rest) "DCC").bind (stripKeyword · "SEND")).isSome
    | [] => false
  | _ => false

namespace FileActor

/-- Put messages on the outgoing queue of the connection that is up, and change its transfers. -/
def tell (f : FileActor) (change : Transfers → Transfers) (ms : List Message) : FileActor :=
  match f.actor.phase with
  | .online c => { f with actor := { f.actor with
      phase := .online { c with transfers := change c.transfers, outgoing := c.outgoing ++ ms } } }
  | _ => f

def prepare (outside : Outside) : Except TransferError (Nat × Nat × Nat) := do
  let size ← outside.fileSize
  if size > maxTransferBytes then throw (.tooLarge (maxTransferBytes / (1024 * 1024 * 1024)))
  match outside.routable with
  | none => throw .noRoutableAddress
  | some advertised =>
    let port ← outside.listen
    return (size, advertised, port)

/-- Offer a file. Behind a proxy that is refused, whatever else. -/
def sendFile (f : FileActor) (outside : Outside) (target : String) : FileActor × FileOutput :=
  let filename := outside.fileName.getD "file"
  let f := { f with nextId := f.nextId + 1 }
  if f.proxy.isSome then (f, {})
  else
    match prepare outside with
    | .error _ => (f, {})
    | .ok (size, advertised, port) =>
      let line : Message := .ofCommand (.privmsg target (sendLine filename advertised port size))
      let serving := { target, filename, size, offset := 0, live := true }
      (f.tell (fun t => { t.forgetFinished with
          serving := t.forgetFinished.serving.insert port serving }) [line],
        { queued := [line], listens := [port] })

/-- Take up an offer that arrived, and ask to carry on from what there is of the file. -/
def acceptFile (f : FileActor) (outside : Outside) (id : Nat) : FileActor × FileOutput :=
  match f.offers.lookup id, f.actor.connection with
  | some pending, some c =>
    let (transfers, asked) :=
      c.transfers.askToResume outside.directory id pending.sender pending.offer
    let fetch : Fetch := { pending, proxy := f.proxy, state := .ended }
    let fetch := match asked with
      | none => fetch.begin 0
      | some (_, wanted) => { fetch with state := .waiting wanted }
    let queued := (asked.map (·.1)).toList
    ({ f with offers := f.offers.erase id, fetches := f.fetches.insert id fetch }.tell
        (fun _ => transfers) queued,
      { queued })
  | _, _ => (f, {})

/-- Stop a transfer, or turn down an offer that never started. -/
def cancelTransfer (f : FileActor) (id : Nat) : FileActor :=
  { f with
    offers := f.offers.erase id
    fetches := match f.fetches.lookup id with
      | some fetch => f.fetches.insert id fetch.cancelled
      | none => f.fetches }

def offerIn (u : Platform) (s : Session) (m : Message) : Option PendingOffer :=
  match m.command, m.sourceNickname with
  | .privmsg target text, some sender =>
    let body := Str.trimMatches (·.toNat == 1) text
    if Str.startsWithStr body "ACTION " || !text.toList.head?.any (·.toNat == 1) then none
    else if s.isSelf target && ((parseResume body).isSome || (parseAccept body).isSome) then none
    else
      match h : parseSend u.parseIp body with
      | none => none
      | some offer => some
        { channel := if s.isSelf target then sender else target, sender, offer
          safe := safe_of_parseSend h }
  | _, _ => none

def noteOffer (f : FileActor) : Option PendingOffer → FileActor
  | none => f
  | some pending =>
    { f with nextId := f.nextId + 1, offers := f.offers.insert (f.nextId + 1) pending }

def answer (f : FileActor) (id : Nat) (position : Option Nat) : FileActor :=
  match f.fetches.lookup id with
  | some fetch => { f with fetches := f.fetches.insert id (fetch.answered position) }
  | none => f

def fileCommand (f : FileActor) (outside : Outside) : ClientCommand → FileActor × FileOutput
  | .sendFile target _ => f.sendFile outside target
  | .acceptFile id _ => f.acceptFile outside id
  | .cancelTransfer id => (f.cancelTransfer id, {})
  | _ => (f, {})

/-- What the actor itself does with an input, and what that means for the files. -/
def actorStep (u : Platform) (f : FileActor) (i : Actor.Input) (outside : Outside) :
    FileActor × FileOutput :=
  let (actor, out) := f.actor.step u i
  let done : FileOutput := { sent := out.sent, queued := out.queued }
  let f' := { f with actor }
  match i, f.actor.connection with
  | .take, some _ =>
    match f.actor.mailbox with
    | [] => (f', done)
    | command :: _ =>
      let (f', more) := f'.fileCommand outside command
      (f', { more with sent := done.sent ++ more.sent, queued := done.queued ++ more.queued })
  | .message now m _ _, some c =>
    if Actor.admits c now m then
      let f' := f'.noteOffer (offerIn u c.session m)
      match (c.step (.message now m)).2.resumed with
      | some (id, position) => (f'.answer id (some position), done)
      | none => (f', done)
    else (f', done)
  | _, _ => (f', done)

def step (u : Platform) (f : FileActor) : FileInput → FileActor × FileOutput
  | .actor i outside => f.actorStep u i outside
  | .timeout id => (f.answer id none, {})
  | .act id files choice =>
    match f.fetches.lookup id with
    | some fetch =>
      let (fetch, connects) := fetch.act id files choice
      ({ f with fetches := f.fetches.insert id fetch }, { connects })
    | none => (f, {})

end FileActor

end Ddirc.Conn
