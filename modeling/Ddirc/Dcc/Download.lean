import Ddirc.Lib.Run
import Ddirc.Lib.Files
import Ddirc.Dcc.Transfer

/-! # Downloads side by side

`accept` of `dcc/transfer.rs` as the tasks that run it: each acceptance of an offer goes through its
file operations one at a time, and between any two of them the other tasks may go on. Each byte of a
file is kept together with the acceptance that received it; nothing in the code looks at that. -/

namespace Ddirc.Dcc

/-- A byte, and the acceptance that received it. -/
abbrev SentByte := UInt8 × Option Nat

def zero : SentByte := (0, none)

/-- An offer that the user took up, from `sender`. The name in an offer went through
`safe_filename`. -/
structure Acceptance where
  offer : DccOffer
  sender : String
  proxied : Bool
  /-- Where the sender agreed to start. -/
  startAt : Nat
  safe : ∃ name, safeFilename name = some offer.filename

inductive Stage where
  | checking
  | reading
  | measuring
  | dialling (start : Nat)
  /-- Look whether there is something in the place of the record. -/
  | noting (start : Nat)
  /-- See whether that is a record. -/
  | judging (start : Nat)
  | recording (start : Nat)
  | dropping (start : Nat)
  | opening (start : Nat)
  /-- Cut the unfinished file to the agreed point. -/
  | cutting (handle start : Nat)
  /-- Take what arrives; what is buffered goes to the file at any time. -/
  | receiving (handle position received : Nat) (buffer : List SentByte)
  | flushing (handle position received : Nat) (buffer : List SentByte)
  | naming
  /-- See whether something of the attempt is to be kept. -/
  | failing (e : TransferError)
  | removing (e : TransferError)
  /-- See whether there is a record to forget. -/
  | forgetting (result : Except TransferError String)
  | erasing (result : Except TransferError String)
  | ended (result : Except TransferError String)

inductive Choice where
  | go
  | fail (e : TransferError)
  | data (bytes : List UInt8)
  /-- The buffer is written out in part, as when it is full; here at any time. -/
  | write (n : Nat)
  | cancel

namespace Acceptance

variable (a : Acceptance)

def filename : String := a.offer.filename

/-- What `accept` checks before it looks at any file. -/
def begin : Stage :=
  if a.offer.isReverse && a.proxied then .ended (.error .wouldDiscloseAddress)
  else if a.offer.addr.isNone || a.offer.port.isNone then .ended (.error .wouldDiscloseAddress)
  else if a.offer.size.any (· > maxTransferBytes) then
    .ended (.error (.tooLarge (maxTransferBytes / (1024 * 1024 * 1024))))
  else .checking

def holds (fs : Files SentByte) (name : String) : Option (List UInt8) :=
  (fs.file name).map (·.map Prod.fst)

def isRecord (fs : Files SentByte) : Bool :=
  (holds fs (originPath a.filename)).any fun c =>
    c.take (Str.len originMagic) == Str.bytes originMagic

/-- Only a point inside the file, and only bytes that are here. -/
def startPoint (onDisk : Nat) : Nat :=
  match a.offer.size with
  | some size => if 0 < a.startAt ∧ a.startAt < size ∧ a.startAt ≤ onDisk then a.startAt else 0
  | none => 0

def record (size : Nat) : List UInt8 := Str.bytes (originText a.sender size)

/-- The file at the name of the unfinished one, if it has something in it. -/
def partialLen (fs : Files SentByte) : Option Nat :=
  ((fs.file (partialPath a.filename)).map List.length).filter (0 < ·)

def step (k : Nat) (fs : Files SentByte) : Stage → Choice → Files SentByte × Stage
  | .checking, _ =>
    if (fs.file a.filename).isSome then (fs, .ended (.error (.alreadyExists a.filename)))
    else if a.offer.size.isSome then (fs, .reading)
    else (fs, .dialling (a.startPoint 0))
  | .reading, _ =>
    let expected := (a.offer.size.map a.record).getD []
    -- one byte more than expected is read
    if (holds fs (originPath a.filename)).map (·.take (expected.length + 1)) = some expected then
      (fs, .measuring)
    else (fs, .dialling (a.startPoint 0))
  | .measuring, _ => (fs, .dialling (a.startPoint ((a.partialLen fs).getD 0)))
  | .dialling _, .fail e => (fs, .ended (.error e))
  | .dialling start, _ => (fs, .noting start)
  | .noting start, _ =>
    if a.offer.size.isSome then
      if (fs.file (originPath a.filename)).isSome then (fs, .judging start)
      else (fs, .recording start)
    else if a.isRecord fs then (fs, .dropping start) else (fs, .opening start)
  | .judging start, _ => if a.isRecord fs then (fs, .recording start) else (fs, .opening start)
  | .recording start, .fail _ => (fs, .opening start)
  | .recording start, _ =>
    let text := (a.offer.size.map a.record).getD []
    (fs.write (originPath a.filename) (text.map (·, none)), .opening start)
  | .dropping start, .fail _ => (fs, .opening start)
  | .dropping start, _ => (fs.remove (originPath a.filename), .opening start)
  | .opening _, .fail e => (fs, .failing e)
  | .opening start, _ =>
    if 0 < start then
      match fs.names (partialPath a.filename) with
      | none => (fs, .failing (.io "no such file"))
      | some handle => (fs, .cutting handle start)
    else
      let (fs, handle) := fs.create (partialPath a.filename)
      (fs, .receiving handle 0 0 [])
  | .cutting _ _, .fail e => (fs, .failing e)
  | .cutting handle start, _ => (fs.setLen zero handle start, .receiving handle start start [])
  | .receiving handle position received buffer, c =>
    match c with
    | .go => (fs, .receiving handle position received buffer)
    | .fail e => (fs, .failing e)
    | .cancel => (fs, .failing .cancelled)
    | .write n =>
      (fs.writeAt zero handle position (buffer.take n),
        .receiving handle (position + (buffer.take n).length) received (buffer.drop n))
    | .data [] => (fs, .flushing handle position received buffer)
    | .data bytes =>
      let received := received + bytes.length
      if received > maxTransferBytes then
        (fs, .failing (.tooLarge (maxTransferBytes / (1024 * 1024 * 1024))))
      else
        let buffer := buffer ++ bytes.map (·, some k)
        if a.offer.size.any (received ≥ ·) then (fs, .flushing handle position received buffer)
        else (fs, .receiving handle position received buffer)
  | .flushing _ _ _ _, .fail e => (fs, .failing e)
  | .flushing handle position received buffer, _ =>
    let fs := fs.writeAt zero handle position buffer
    match a.offer.size with
    | some total =>
      if received < total then (fs, .failing (.truncated received total)) else (fs, .naming)
    | none => (fs, .naming)
  | .naming, .fail e => (fs, .ended (.error e))
  | .naming, _ =>
    match fs.rename (partialPath a.filename) a.filename with
    | none => (fs, .ended (.error (.io "no such file")))
    | some fs => (fs, .forgetting (.ok a.filename))
  | .failing e, _ =>
    -- kept when the connection simply went away, so that it can be carried on
    if a.offer.size.isSome && !e.discards && (a.partialLen fs).isSome then (fs, .ended (.error e))
    else (fs, .removing e)
  | .removing e, _ => (fs.remove (partialPath a.filename), .forgetting (.error e))
  | .forgetting result, _ => if a.isRecord fs then (fs, .erasing result) else (fs, .ended result)
  | .erasing result, _ => (fs.remove (originPath a.filename), .ended result)
  | .ended result, _ => (fs, .ended result)

end Acceptance

/-! ## Any number of them -/

structure Task where
  acceptance : Acceptance
  stage : Stage

def Stage.isEnded : Stage → Bool
  | .ended _ => true
  | _ => false

structure Downloads where
  files : Files SentByte
  tasks : List Task := []

inductive Move where
  | accept (a : Acceptance)
  | act (k : Nat) (c : Choice)

def Downloads.step (d : Downloads) : Move → Downloads × Unit
  | .accept a => ({ d with tasks := d.tasks ++ [{ acceptance := a, stage := a.begin }] }, ())
  | .act k c =>
    match d.tasks[k]? with
    | none => (d, ())
    | some task =>
      let (files, stage) := task.acceptance.step k d.files task.stage c
      ({ files, tasks := d.tasks.set k { task with stage } }, ())

end Ddirc.Dcc
