import Ddirc.Lib.Run
import Ddirc.Conn.Transfers

/-! # Two clients and a file

One client offers a file to another, any number of times, under one name. The receiver keeps what an
attempt left unfinished and asks the sender to carry on from there. Their messages travel through
the network, while the receiver waits for a while and then connects, and the sender reads where to
start once somebody has connected. -/

namespace Ddirc.Resume
open Irc Dcc Conn

/-- The file, and the names that are used about it. -/
structure Setting where
  file : Bytes
  /-- The name the sender offers the file under. -/
  name : String
  /-- The name the receiver read in the offer. -/
  filename : String
  addr : IpAddr
  /-- The sender, as the receiver sees them. -/
  sender : String
  /-- The receiver, as the sender sees them. -/
  receiver : String
  /-- Whom the sender made the offer to. -/
  target : String
  /-- Whether the receiver connects through a proxy. -/
  proxied : Bool
  deriving Repr, DecidableEq

def Setting.offer (p : Setting) (port : Nat) : DccOffer where
  filename := p.filename
  addr := some p.addr
  port := some port
  size := some p.file.length
  token := none

inductive Stage where
  /-- It waits to hear whether the sender will carry on. -/
  | asking (wanted : Nat) (answer : Option Nat)
  | starting (startAt : Nat)
  /-- It receives, after the bytes it started from. -/
  | receiving (start : Nat) (content : Bytes)
  deriving Repr, DecidableEq

structure Attempt where
  id : Nat
  port : Nat
  stage : Stage
  deriving Repr, DecidableEq

inductive Serve where
  | listening
  /-- Somebody connected; the offset is not read yet. -/
  | connected
  | sending (position : Nat)
  deriving Repr, DecidableEq

structure Exchange where
  sender : Transfers := {}
  receiver : Transfers := {}
  /-- The sender's tasks, by the port each listens on. -/
  serves : Map Nat Serve := ∅
  directory : Directory
  /-- Offers that the receiver has not answered, by their port. -/
  offers : List Nat := []
  attempt : Option Attempt := none
  nextId : Nat := 0
  toSender : List Message := []
  toReceiver : List Message := []
  stream : Bytes := []
  closed : Bool := false

inductive Move where
  | offer (port : Nat)
  | accept (port : Nat)
  | toSender (n : Nat)
  | toReceiver (n : Nat)
  | loseToSender (n : Nat)
  | loseToReceiver (n : Nat)
  | answered
  | timeout
  | connect
  /-- The sender's task reads where to start. -/
  | readOffset
  | send (n : Nat)
  | receive (n : Nat)
  /-- The connection breaks, and so many of the bytes on their way still arrive. -/
  | hangUp (n : Nat)
  | endOfStream
  /-- An I/O error; so much of what was received is on disk. -/
  | fail (n : Nat)
  | cancel
  /-- The user puts the finished file elsewhere. -/
  | takeAway
  deriving Repr, DecidableEq

abbrev Result := Except TransferError Bytes

def ctcpBody (m : Message) : Option String :=
  match m.command with
  | .privmsg _ text => some (Str.trimMatches (·.toNat == 1) text)
  | _ => none

namespace Exchange

/-- A serving task ends, and lets go of its share of the offset. -/
def endServe (x : Exchange) (port : Nat) : Exchange :=
  { x with
    serves := x.serves.erase port
    sender :=
      { x.sender with serving := Map.modify x.sender.serving port ({ · with live := false }) } }

/-- The receiver's task ends, with what `accept` returned; the connection closes. -/
def endAttempt (x : Exchange) (port : Nat) (directory : Directory) (result : Result) :
    Exchange × Option Result :=
  ({ x with attempt := none, directory, stream := [], closed := true }.endServe port, some result)

def offer (p : Setting) (x : Exchange) (port : Nat) : Exchange :=
  if (x.serves.lookup port).isSome ∨ p.file.length > maxTransferBytes then x
  else
    let t := x.sender.forgetFinished
    let serving :=
      { target := p.target, filename := p.name, size := p.file.length, offset := 0, live := true }
    { x with
      offers := x.offers ++ [port]
      serves := x.serves.insert port .listening
      sender := { t with serving := t.serving.insert port serving } }

def accept (p : Setting) (x : Exchange) (port : Nat) : Exchange :=
  let (receiver, asked) := x.receiver.askToResume x.directory x.nextId p.sender (p.offer port)
  let stage := match asked with
    | some (_, len) => .asking len none
    | none => .starting 0
  { x with
    receiver
    offers := x.offers.erase port
    nextId := x.nextId + 1
    attempt := some { id := x.nextId, port, stage }
    toSender := x.toSender ++ (asked.map (·.1)).toList }

def hearRequest (p : Setting) (x : Exchange) (m : Message) : Exchange :=
  match ctcpBody m with
  | none => x
  | some body =>
    let heard := x.sender.onCtcp p.receiver body
    { x with sender := heard.transfers, toReceiver := x.toReceiver ++ heard.answer.toList }

/-- The answer for a transfer reaches its task, if that still waits. -/
def tell (x : Exchange) (resumed : Option (Nat × Nat)) : Exchange :=
  match resumed, x.attempt with
  | some (id, position), some ⟨id', port, .asking wanted none⟩ =>
    if id = id' then { x with attempt := some ⟨id', port, .asking wanted (some position)⟩ } else x
  | _, _ => x

def hearAnswer (p : Setting) (x : Exchange) (m : Message) : Exchange :=
  match ctcpBody m with
  | none => x
  | some body =>
    let heard := x.receiver.onCtcp p.sender body
    { x with receiver := heard.transfers, toSender := x.toSender ++ heard.answer.toList }.tell
      heard.resumed

/-- `transfer::accept` up to the first byte. -/
def connect (p : Setting) (x : Exchange) (id port startAt : Nat) : Exchange × Option Result :=
  match acceptFrom x.directory (p.offer port) p.sender p.proxied startAt with
  | .error e => ({ x with attempt := none }, some (.error e))
  | .ok start =>
    match x.serves.lookup port with
    | some .listening =>
      let content := openPartial x.directory p.filename start
      let directory := (claimPartial x.directory (p.offer port) p.sender).insert
        (partialPath p.filename) content
      ({ x with
          directory
          attempt := some ⟨id, port, .receiving start content⟩
          serves := x.serves.insert port .connected
          stream := []
          closed := false }, none)
    | _ => ({ x with attempt := none }, some (.error (.io "connection refused")))

def offset (x : Exchange) (port : Nat) : Nat :=
  ((x.sender.serving.lookup port).map (·.offset)).getD 0

/-- One read and write of `send_from`; at the end of the file the stream is closed. -/
def send (p : Setting) (x : Exchange) (port position n : Nat) : Exchange :=
  let data := (p.file.drop position).take (min n chunk)
  if p.file.length ≤ position then { x with closed := true }.endServe port
  else
    { x with
      stream := x.stream ++ data
      serves := x.serves.insert port (.sending (position + data.length)) }

def receive (p : Setting) (x : Exchange) (a : Attempt) (start : Nat) (content : Bytes) (n : Nat) :
    Exchange × Option Result :=
  let data := x.stream.take (min n chunk)
  if data.isEmpty then (x, none)
  else match receiveChunk (some p.file.length) content data with
    | .more content =>
      ({ x with
          stream := x.stream.drop data.length
          attempt := some { a with stage := .receiving start content } }, none)
    | .complete content =>
      x.endAttempt a.port (finish x.directory p.filename content) (.ok content)
    | .tooLarge =>
      let e := .tooLarge (maxTransferBytes / (1024 * 1024 * 1024))
      x.endAttempt a.port (giveUp x.directory (p.offer a.port) content e) (.error e)

def endOfStream (p : Setting) (x : Exchange) (a : Attempt) (content : Bytes) :
    Exchange × Option Result :=
  match receiveEnd (some p.file.length) content with
  | .ok () => x.endAttempt a.port (finish x.directory p.filename content) (.ok content)
  | .error e => x.endAttempt a.port (giveUp x.directory (p.offer a.port) content e) (.error e)

def stop (p : Setting) (x : Exchange) (a : Attempt) (start : Nat) (content : Bytes) (n : Nat)
    (e : TransferError) : Exchange × Option Result :=
  x.endAttempt a.port (giveUp x.directory (p.offer a.port) (content.take (max start n)) e)
    (.error e)

/-- The download that is going on: the attempt, where it started and what has been received. -/
def download (x : Exchange) : Option (Attempt × Nat × Bytes) :=
  x.attempt.bind fun a =>
    match a.stage with
    | .receiving start content => some (a, start, content)
    | _ => none

/-- A move; one that is not possible changes nothing. The outcome of `accept` is given when it
returns. -/
def step (p : Setting) (x : Exchange) : Move → Exchange × Option Result
  | .offer port => (x.offer p port, none)
  | .accept port =>
    if x.attempt.isSome || !x.offers.contains port then (x, none) else (x.accept p port, none)
  | .toSender n =>
    match x.toSender[n]? with
    | some m => ({ x with toSender := x.toSender.eraseIdx n }.hearRequest p m, none)
    | none => (x, none)
  | .toReceiver n =>
    match x.toReceiver[n]? with
    | some m => ({ x with toReceiver := x.toReceiver.eraseIdx n }.hearAnswer p m, none)
    | none => (x, none)
  | .loseToSender n => ({ x with toSender := x.toSender.eraseIdx n }, none)
  | .loseToReceiver n => ({ x with toReceiver := x.toReceiver.eraseIdx n }, none)
  | .answered =>
    match x.attempt with
    | some ⟨id, port, .asking wanted (some position)⟩ =>
      let startAt := if position = wanted then wanted else 0
      ({ x with attempt := some ⟨id, port, .starting startAt⟩ }, none)
    | _ => (x, none)
  | .timeout =>
    match x.attempt with
    | some ⟨id, port, .asking _ none⟩ =>
      ({ x with attempt := some ⟨id, port, .starting 0⟩ }, none)
    | _ => (x, none)
  | .connect =>
    match x.attempt with
    | some ⟨id, port, .starting startAt⟩ => x.connect p id port startAt
    | _ => (x, none)
  | .readOffset =>
    match x.download with
    | some (a, _, _) =>
      if x.serves.lookup a.port = some .connected then
        let position := sendStart p.file.length (x.offset a.port)
        ({ x with serves := x.serves.insert a.port (.sending position) }, none)
      else (x, none)
    | none => (x, none)
  | .send n =>
    match x.download with
    | some (a, _, _) =>
      match x.serves.lookup a.port with
      | some (.sending position) => (x.send p a.port position n, none)
      | _ => (x, none)
    | none => (x, none)
  | .receive n =>
    match x.download with
    | some (a, start, content) => x.receive p a start content n
    | none => (x, none)
  | .hangUp n =>
    match x.download with
    | some (a, _, _) =>
      ({ x with stream := x.stream.take n, closed := true }.endServe a.port, none)
    | none => (x, none)
  | .endOfStream =>
    match x.download with
    | some (a, _, content) =>
      if x.closed && x.stream.isEmpty then x.endOfStream p a content else (x, none)
    | none => (x, none)
  | .fail n =>
    match x.download with
    | some (a, start, content) => x.stop p a start content n (.io "connection lost")
    | none => (x, none)
  | .cancel =>
    match x.download, x.attempt with
    | some (a, start, content), _ => x.stop p a start content 0 .cancelled
    | none, some ⟨_, _, .asking _ _⟩ => ({ x with attempt := none }, some (.error .cancelled))
    | none, _ => (x, none)
  | .takeAway => ({ x with directory := x.directory.erase p.filename }, none)

end Exchange

end Ddirc.Resume
