import Mathlib.Data.List.DropRight
import Ddirc.Xmpp.Stanza

/-! # Where files go

`xmpp/upload.rs` up to the upload itself: which component of the server takes files and how large,
and whether a slot it grants is one to send a file to. How an address is taken apart is the `url`
crate's business (`UrlRules`). -/

namespace Ddirc.Xmpp

def hardLimit : Nat := 100 * 1024 * 1024
def maxUrl : Nat := 2048
def maxHeaders : Nat := 8

def nsUpload : String := "urn:xmpp:http:upload:0"

/-! ## The service -/

/-- A form of a component's answer: its type, and its fields with their values. -/
structure DataForm where
  type : Option String
  fields : List (Option String × List String)
  deriving Repr, DecidableEq

structure DiscoInfo where
  features : List String
  extensions : List DataForm := []
  deriving Repr, DecidableEq

structure UploadService where
  jid : Jid
  /-- The largest file the service takes, if it says. -/
  maxBytes : Option Nat
  deriving DecidableEq

def serviceFromInfo (jid : Jid) (info : DiscoInfo) : Option UploadService :=
  if !info.features.contains nsUpload then none
  else
    let fields := (info.extensions.filter fun form => form.type = some nsUpload).flatMap (·.fields)
    let value := (fields.find? fun field => field.1 = some "max-file-size").bind (·.2.head?)
    some { jid, maxBytes := value.bind fun v => Str.parseUnsigned 64 (Str.trim v) }

def UploadService.limit (service : UploadService) : Nat :=
  match service.maxBytes with
  | none => hardLimit
  | some m => min m hardLimit

/-- A media type from a file's name. -/
def contentType (filename : String) : String :=
  let ending := if Str.contains filename '.' then
      Str.toAsciiLowercase (String.ofList (filename.toList.rtakeWhile (· ≠ '.')))
    else ""
  match ending with
  | "jpg" | "jpeg" => "image/jpeg"
  | "png" => "image/png"
  | "gif" => "image/gif"
  | "webp" => "image/webp"
  | "pdf" => "application/pdf"
  | "txt" | "log" | "md" => "text/plain"
  | "mp3" => "audio/mpeg"
  | "ogg" | "opus" => "audio/ogg"
  | "mp4" => "video/mp4"
  | "webm" => "video/webm"
  | "zip" => "application/zip"
  | _ => "application/octet-stream"

/-! ## A slot -/

inductive Host where
  | domain (name : String)
  | address
  deriving Repr, DecidableEq

structure Url where
  text : String
  scheme : String
  username : String := ""
  password : Option String := none
  host : Option Host
  fragment : Option String := none
  deriving Repr, DecidableEq

/-- What the `url` crate makes of text, and whether text is an IP address. -/
structure UrlRules where
  parse : String → Option Url
  isAddress : String → Bool

structure SlotResult where
  put : String
  headers : List (String × String) := []
  get : String
  deriving Repr, DecidableEq

structure Slot where
  put : Url
  headers : List (String × String)
  get : String
  deriving Repr, DecidableEq

inductive SlotError where
  | badAddress
  | unsafeHost
  | badHeader
  deriving Repr, DecidableEq

def SlotError.message : SlotError → String
  | .badAddress => "the server gave an upload address that is not a valid https address"
  | .unsafeHost => "the server gave an upload address that is not a normal website address"
  | .badHeader => "the server gave a header that cannot be sent"

namespace UrlRules
variable (urls : UrlRules)

def parseHttps (address : String) : Except SlotError Url :=
  if Str.len address > maxUrl then .error .badAddress
  else
    match urls.parse address with
    | none => .error .badAddress
    | some url =>
      if url.scheme ≠ "https" ∨ !url.username.isEmpty ∨ url.password.isSome ∨ url.host.isNone ∨
          url.fragment.isSome then
        .error .badAddress
      else
        match url.host with
        | some (.domain name) => if urls.isAddress name then .error .unsafeHost else .ok url
        | _ => .ok url

/-- Whether an upload may go to this host. Inside the account's own domain a host may have any name;
elsewhere it needs a dot in it, and may not be the machine itself. -/
def mayPutTo (name accountDomain : String) : Bool :=
  let name := Str.toAsciiLowercase (Str.trimEndMatches (· == '.') name)
  let domain := Str.toAsciiLowercase (Str.trimEndMatches (· == '.') accountDomain)
  let inside := !domain.isEmpty && (name == domain || Str.endsWith name ("." ++ domain))
  let loopback := name == "localhost" || Str.endsWith name ".localhost"
  inside || (Str.contains name '.' && !loopback)

/-- A header as it is sent. -/
def checkHeader (header : String × String) : Option (String × String) :=
  let value := Str.trim header.2
  if value.isEmpty || Str.len value > 4096 ||
      value.toList.any fun c => Str.isControl c || c.toNat ≥ 128 then none
  else some (header.1, value)

def checkSlot (slot : SlotResult) (accountDomain : String) : Except SlotError Slot := do
  let put ← urls.parseHttps slot.put
  let got ← urls.parseHttps slot.get
  match put.host with
  | some (.domain name) => if !mayPutTo name accountDomain then .error .unsafeHost
  | _ => .error .unsafeHost
  if slot.headers.length > maxHeaders then .error .badHeader
  match slot.headers.mapM checkHeader with
  | none => .error .badHeader
  | some headers => pure { put, headers, get := got.text }

end UrlRules

end Ddirc.Xmpp
