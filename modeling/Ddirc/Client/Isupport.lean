import Ddirc.Lib.Str

/-! # What a server says about itself

`state/isupport.rs`: case mapping, nick prefixes, channel modes and limits, as `005` lines give
them. -/

namespace Ddirc.Client

inductive CaseMapping where
  | ascii | rfc1459 | rfc1459Strict
  deriving Repr, DecidableEq

namespace CaseMapping

def fromToken (token : String) : Option CaseMapping :=
  match Str.toAsciiLowercase token with
  | "ascii" => some ascii
  | "rfc1459" => some rfc1459
  | "rfc1459-strict" | "strict-rfc1459" => some rfc1459Strict
  | _ => none

def normalizeChar : CaseMapping → Char → Char
  | ascii, c => c.toLower
  | rfc1459, '[' | rfc1459Strict, '[' => '\x7b'
  | rfc1459, ']' | rfc1459Strict, ']' => '\x7d'
  | rfc1459, '\\' | rfc1459Strict, '\\' => '|'
  | rfc1459, '~' => '^'
  | _, c => c.toLower

def normalize (m : CaseMapping) (name : String) : String :=
  String.ofList (name.toList.map m.normalizeChar)

def eq (m : CaseMapping) (a b : String) : Bool := m.normalize a == m.normalize b

end CaseMapping

/-- The `PREFIX=(modes)prefixes` mapping, highest privilege first. -/
structure Prefixes where
  pairs : List (Char × Char) := [('o', '@'), ('v', '+')]
  deriving Repr, DecidableEq

namespace Prefixes

def parse (spec : String) : Option Prefixes :=
  let spec := Str.trim spec
  if spec.isEmpty then some ⟨[]⟩
  else do
    let rest ← Str.stripChar '(' spec
    let (modes, marks) ← Str.splitOnce ')' rest
    if modes.toList.length ≠ marks.toList.length then none
    else some ⟨modes.toList.zip marks.toList⟩

def prefixForMode (p : Prefixes) (mode : Char) : Option Char :=
  (p.pairs.find? (·.1 == mode)).map (·.2)

def isPrefixMode (p : Prefixes) (mode : Char) : Bool := p.pairs.any (·.1 == mode)

def isPrefixChar (p : Prefixes) (c : Char) : Bool := p.pairs.any (·.2 == c)

def splitPrefixes (p : Prefixes) (name : String) : List Char × String :=
  (name.toList.takeWhile p.isPrefixChar, String.ofList (name.toList.dropWhile p.isPrefixChar))

end Prefixes

/-- The `CHANMODES=A,B,C,D` classification, used to align mode parameters. -/
structure ChanModes where
  list : String := "beI"
  alwaysParam : String := "k"
  paramWhenSet : String := "l"
  noParam : String := "imnpstr"
  deriving Repr, DecidableEq

namespace ChanModes

def parse (spec : String) : Option ChanModes :=
  match Str.split ',' spec with
  | a :: b :: c :: d :: _ => some ⟨a, b, c, d⟩
  | _ => none

def takesParameter (m : ChanModes) (mode : Char) (adding : Bool) : Bool :=
  if Str.contains m.list mode || Str.contains m.alwaysParam mode then true
  else if Str.contains m.paramWhenSet mode then adding
  else false

end ChanModes

structure ISupport where
  casemapping : CaseMapping := .rfc1459
  prefixes : Prefixes := {}
  chanmodes : ChanModes := {}
  network : Option String := none
  channelLen : Option Nat := none
  nickLen : Option Nat := none
  deriving Repr, DecidableEq

namespace ISupport

/-- `-KEY` resets a setting to its default. -/
def reset (s : ISupport) (key : String) : ISupport :=
  match Str.toAsciiUppercase key with
  | "PREFIX" => { s with prefixes := {} }
  | "CHANMODES" => { s with chanmodes := {} }
  | "CASEMAPPING" => { s with casemapping := .rfc1459 }
  | "NETWORK" => { s with network := none }
  | "CHANNELLEN" => { s with channelLen := none }
  | "NICKLEN" => { s with nickLen := none }
  | _ => s

def set (s : ISupport) (key : String) (value : Option String) : ISupport :=
  match Str.toAsciiUppercase key with
  | "PREFIX" => { s with prefixes := (value.bind Prefixes.parse).getD s.prefixes }
  | "CHANMODES" => { s with chanmodes := (value.bind ChanModes.parse).getD s.chanmodes }
  | "CASEMAPPING" =>
    { s with casemapping := (value.bind CaseMapping.fromToken).getD s.casemapping }
  | "NETWORK" => { s with network := value }
  | "CHANNELLEN" => { s with channelLen := value.bind (Str.parseUnsigned 64) }
  | "NICKLEN" => { s with nickLen := value.bind (Str.parseUnsigned 64) }
  | _ => s

/-- One parameter of a `005` line; the trailing description has blanks and is not a token. -/
def applyToken (s : ISupport) (token : String) : ISupport :=
  if Str.contains token ' ' then s
  else
    let (key, value) := match Str.splitOnce '=' token with
      | some (k, v) => (k, some v)
      | none => (token, none)
    match Str.stripChar '-' key with
    | some key => s.reset key
    | none => s.set key value

def apply (s : ISupport) (tokens : List String) : ISupport := tokens.foldl applyToken s

end ISupport

end Ddirc.Client
