import Ddirc.Lib.Map
import Ddirc.Dcc.Offer

/-! # Downloads

`dcc/transfer.rs`: the files that an unfinished download leaves in its directory, and the two ends
of a transfer up to the socket between them. -/

namespace Ddirc.Dcc

abbrev Bytes := List UInt8

/-- A directory: what each file in it holds. -/
abbrev Directory := Map String Bytes

def chunk : Nat := 64 * 1024

/-- The largest file that is moved, in either direction. -/
def maxTransferBytes : Nat := 4 * 1024 * 1024 * 1024

inductive TransferError where
  | wouldDiscloseAddress
  | wouldDiscloseAddressBySending
  | proxy (reason : String)
  | noRendezvous (secs : Nat)
  | alreadyExists (filename : String)
  | tooLarge (limit : Nat)
  | truncated (received expected : Nat)
  | cancelled
  | noRoutableAddress
  | io (reason : String)
  deriving Repr, DecidableEq

/-- Whether nothing is kept after an error: the user stopped it, or the sender broke the limit. -/
def TransferError.discards : TransferError → Bool
  | .cancelled | .tooLarge _ => true
  | _ => false

/-! ## What an attempt leaves behind -/

def partialPath (filename : String) : String := filename ++ ".part"

def originPath (filename : String) : String := filename ++ ".part.from"

theorem partialPath_ne_originPath (name other : String) : partialPath name ≠ originPath other := by
  intro h
  have hlast := congrArg (fun s : String => s.toList.getLast?) h
  simp [partialPath, originPath] at hlast

def partialLen (d : Directory) (filename : String) : Option Nat :=
  ((d.lookup (partialPath filename)).map List.length).filter (0 < ·)

def originMagic : String := "ddirc-partial 1"

/-- What the record says: who offered the file, and how big they said it was. -/
def originText (sender : String) (size : Nat) : String :=
  originMagic ++ "\nfrom=" ++ Str.toAsciiLowercase sender ++ "\nsize=" ++ toString size ++ "\n"

theorem originText_inj (h : originText s n = originText t m) :
    Str.toAsciiLowercase s = Str.toAsciiLowercase t ∧ n = m := by
  have hlist : (Str.toAsciiLowercase s).toList ++ "\nsize".toList ++ '=' :: (toString n).toList ++
      ['\n'] = (Str.toAsciiLowercase t).toList ++ "\nsize".toList ++ '=' :: (toString m).toList ++
      ['\n'] := by
    simpa [originText, String.ext_iff] using h
  obtain ⟨hname, hnum⟩ := Str.append_toString_inj (by decide) (List.append_cancel_right hlist)
  exact ⟨String.toList_inj.1 (List.append_cancel_right hname), hnum⟩

/-- Whether a file is a record of ours, judged by its first bytes. -/
def isOriginRecord (d : Directory) (path : String) : Bool :=
  (d.lookup path).any fun c => c.take (Str.len originMagic) == Str.bytes originMagic

def writeOrigin (d : Directory) (filename sender : String) (size : Nat) : Directory :=
  if (d.lookup (originPath filename)).isSome && !isOriginRecord d (originPath filename) then d
  else d.insert (originPath filename) (Str.bytes (originText sender size))

def removeOrigin (d : Directory) (filename : String) : Directory :=
  if isOriginRecord d (originPath filename) then d.erase (originPath filename) else d

/-- How much is here from an earlier attempt by `sender` at this size. -/
def resumableLen (d : Directory) (filename sender : String) (size : Nat) : Option Nat :=
  let expected := Str.bytes (originText sender size)
  -- One byte more than expected is read, so that a longer record cannot pass as equal.
  if (d.lookup (originPath filename)).map (·.take (expected.length + 1)) = some expected then
    partialLen d filename
  else none

/-! ## Receiving -/

/-- What `accept` checks before it dials: the point to start from. -/
def acceptFrom (d : Directory) (offer : DccOffer) (sender : String) (proxied : Bool)
    (startAt : Nat) : Except TransferError Nat :=
  if offer.isReverse && proxied then .error .wouldDiscloseAddress
  else if offer.addr.isNone || offer.port.isNone then .error .wouldDiscloseAddress
  else if offer.size.any (· > maxTransferBytes) then
    .error (.tooLarge (maxTransferBytes / (1024 * 1024 * 1024)))
  else if (d.lookup offer.filename).isSome then .error (.alreadyExists offer.filename)
  else
    let onDisk := (offer.size.bind (resumableLen d offer.filename sender)).getD 0
    .ok (match offer.size with
      | some size => if 0 < startAt ∧ startAt < size ∧ startAt ≤ onDisk then startAt else 0
      | none => 0)

/-- What `accept` does with the record once it is connected. -/
def claimPartial (d : Directory) (offer : DccOffer) (sender : String) : Directory :=
  match offer.size with
  | some size => writeOrigin d offer.filename sender size
  | none => removeOrigin d offer.filename

/-- What `receive_into` opens the unfinished file with: cut to the agreed point, or empty. -/
def openPartial (d : Directory) (filename : String) (start : Nat) : Bytes :=
  if 0 < start then ((d.lookup (partialPath filename)).getD []).take start else []

/-- One read of `receive_into`: go on with what is in hand, stop because it is all there, or
fail. -/
inductive Received where
  | more (content : Bytes)
  | complete (content : Bytes)
  | tooLarge
  deriving Repr, DecidableEq

def receiveChunk (expected : Option Nat) (content data : Bytes) : Received :=
  let content := content ++ data
  if content.length > maxTransferBytes then .tooLarge
  else if expected.any (content.length ≥ ·) then .complete content
  else .more content

def receiveEnd (expected : Option Nat) (content : Bytes) : Except TransferError Unit :=
  match expected with
  | some total =>
    if content.length < total then .error (.truncated content.length total) else .ok ()
  | none => .ok ()

/-- The end of `accept` on success: the file takes its name. -/
def finish (d : Directory) (filename : String) (content : Bytes) : Directory :=
  removeOrigin ((d.erase (partialPath filename)).insert filename content) filename

/-- The end of `accept` on an error, with so much of the file on disk. -/
def giveUp (d : Directory) (offer : DccOffer) (onDisk : Bytes) (e : TransferError) : Directory :=
  let d := d.insert (partialPath offer.filename) onDisk
  let keep := offer.size.isSome && !e.discards && (partialLen d offer.filename).isSome
  if keep then d else removeOrigin (d.erase (partialPath offer.filename)) offer.filename

/-! ## Serving -/

/-- Where `send_from` begins: a point outside the file means the whole of it. -/
def sendStart (total start : Nat) : Nat := if start < total then start else 0

end Ddirc.Dcc
