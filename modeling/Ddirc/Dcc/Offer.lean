import Ddirc.Lib.Str

/-! # DCC lines

`dcc/offer.rs`: the offers and the resume messages that two clients exchange about a file, and what
becomes of the file name in one. -/

namespace Ddirc.Dcc

inductive IpAddr where
  | v4 (bits : BitVec 32)
  | v6 (bits : BitVec 128)
  deriving Repr, DecidableEq

structure DccOffer where
  filename : String
  /-- Where to connect; `none` for a reverse offer. -/
  addr : Option IpAddr
  port : Option Nat
  size : Option Nat
  /-- Present exactly for a reverse offer. -/
  token : Option Nat
  deriving Repr, DecidableEq

def DccOffer.isReverse (o : DccOffer) : Bool := o.token.isSome

structure ResumeMessage where
  filename : String
  port : Nat
  /-- How many bytes the receiver already has. -/
  position : Nat
  token : Option Nat
  deriving Repr, DecidableEq

def splitAtBytes : Nat → List Char → Option (List Char × List Char)
  | 0, cs => some ([], cs)
  | _ + 1, [] => none
  | n + 1, c :: cs =>
    if c.utf8Size ≤ n + 1 then (splitAtBytes (n + 1 - c.utf8Size) cs).map fun r => (c :: r.1, r.2)
    else none

/-- Strip a leading keyword, in any case, and the space after it. -/
def stripKeyword (s keyword : String) : Option String := do
  let (head, rest) ← splitAtBytes (Str.len keyword) (Str.trimStart s).toList
  if !Str.eqIgnoreAsciiCase (String.ofList head) keyword then none
  else if !Str.startsWith (String.ofList rest) ' ' then none
  else some (Str.trimStart (String.ofList rest))

def takeFilename (s : String) : Option (String × String) :=
  match Str.stripChar '"' s with
  | some rest => Str.splitOnce '"' rest
  | none =>
    if Str.contains s ' ' then
      some (String.ofList (s.toList.takeWhile (· != ' ')),
        String.ofList (s.toList.dropWhile (· != ' ')))
    else none

def isWindowsDeviceName (name : String) : Bool :=
  let stem := Str.toAsciiUppercase
    (Str.trimEndMatches (· == ' ') ((Str.split '.' name).headD name))
  ["CON", "PRN", "AUX", "NUL", "CONIN$", "CONOUT$"].contains stem ||
    ["COM", "LPT"].any fun start => (Str.stripStr start stem).any fun rest =>
      ["0", "1", "2", "3", "4", "5", "6", "7", "8", "9", "¹", "²", "³"].contains rest

/-- Reduce an offered file name to something safe to create. -/
def safeFilename (name : String) : Option String :=
  let bare := String.ofList (name.toList.rtakeWhile fun c => c != '/' && c != '\\')
  if bare.isEmpty || bare == "." || bare == ".." then none
  else if Str.len bare > 255 then none
  else if bare.toList.any Str.isControl then none
  else
    let replaced := String.ofList
      (bare.toList.map fun c => if "<>:\"|?*".toList.contains c then '_' else c)
    let trimmed := Str.trimEndMatches (fun c => c == '.' || c == ' ') replaced
    if trimmed.isEmpty then none
    else
      -- The names this program gives an unfinished download and the note about it are kept free.
      let lower := Str.toAsciiLowercase trimmed
      let marked :=
        if Str.endsWith lower ".part" || Str.endsWith lower ".part.from" then trimmed ++ "_"
        else trimmed
      let name := if isWindowsDeviceName marked then "_" ++ marked else marked
      if Str.len name ≤ 255 then some name else none

/-- `parse_addr`: a packed number, or a literal in brackets or not, which the platform reads. -/
def parseAddr (parseIp : String → Option IpAddr) (s : String) : Option IpAddr :=
  match Str.parseUnsigned 32 s with
  | some packed => some (.v4 (BitVec.ofNat 32 packed))
  | none => parseIp (Str.trimMatches (fun c => c == '[' || c == ']') s)

/-- An offer. A port of zero marks a reverse one, which needs its token. -/
def parseSend (parseIp : String → Option IpAddr) (body : String) : Option DccOffer := do
  let rest ← stripKeyword body "DCC"
  let rest ← stripKeyword rest "SEND"
  let (name, rest) ← takeFilename rest
  let filename ← safeFilename name
  let args := Str.splitWhitespace rest
  let addr ← args[0]?
  let port ← args[1]?.bind (Str.parseUnsigned 16)
  let size := args[2]?.bind (Str.parseUnsigned 64)
  let token := args[3]?.bind (Str.parseUnsigned 64)
  if port = 0 then
    let token ← token
    some { filename, addr := none, port := none, size, token := some token }
  else
    let addr ← parseAddr parseIp addr
    some { filename, addr := some addr, port := some port, size, token := none }

def parseResumeLike (body keyword : String) : Option ResumeMessage := do
  let rest ← stripKeyword body "DCC"
  let rest ← stripKeyword rest keyword
  let (name, rest) ← takeFilename rest
  let filename ← safeFilename name
  let args := Str.splitWhitespace rest
  let port ← args[0]?.bind (Str.parseUnsigned 16)
  let position ← args[1]?.bind (Str.parseUnsigned 64)
  some { filename, port, position, token := args[2]?.bind (Str.parseUnsigned 64) }

def parseResume (body : String) : Option ResumeMessage := parseResumeLike body "RESUME"

def parseAccept (body : String) : Option ResumeMessage := parseResumeLike body "ACCEPT"

/-- Render a file name for an offer line: quoted if it has a space, without quotes of its own. -/
def quoteFilename (name : String) : String :=
  let cleaned := String.ofList (name.toList.filter (· != '"'))
  if Str.contains cleaned ' ' then "\"" ++ cleaned ++ "\"" else cleaned

example : parseResume "DCC RESUME \"a b.txt\" 5001 42" =
    some { filename := "a b.txt", port := 5001, position := 42, token := none } := by
  decide +kernel

end Ddirc.Dcc
