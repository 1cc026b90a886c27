import Ddirc.Lib.Map
import Ddirc.Lib.Str
import Ddirc.Api.Event

/-! # Conversations

`Conversation`, `ChatLine` and `FileTransfer` of the app's session model. Saved history and the
rule that marks where reading stopped are left out. -/

namespace Ddirc.App
open Api

def maxLinesPerConversation : Nat := 2000

inductive SystemKind where
  | presence | topic | mode | connection
  deriving Repr, DecidableEq

inductive NotifyLevel where
  | all | mentions | none
  deriving Repr, DecidableEq

/-! ## Files -/

inductive TransferStage where
  | offered | running | done | failed | declined | cancelled
  deriving Repr, DecidableEq

structure FileTransfer where
  id : Nat
  filename : String
  incoming : Bool
  sender : Option String := none
  total : Option Nat
  isReverse : Bool := false
  stage : TransferStage
  transferred : Nat := 0
  path : Option String := none
  error : Option String := none
  deriving Repr, DecidableEq

namespace FileTransfer

def cancelledError : String := "cancelled"

def offered (id : Nat) (filename sender : String) (total : Option Nat) (isReverse : Bool) :
    FileTransfer :=
  { id, filename, incoming := true, sender := some sender, total, isReverse, stage := .offered }

def running (id : Nat) (filename : String) (incoming : Bool) (total : Option Nat) : FileTransfer :=
  { id, filename, incoming, total, stage := .running }

def begin (t : FileTransfer) (size : Option Nat) : FileTransfer :=
  { t with total := size.or t.total, stage := .running }

def finish (t : FileTransfer) (path error : Option String) : FileTransfer :=
  match error with
  | none =>
    { t with
      path, error, stage := .done
      total := if t.incoming ∧ t.total = none then some t.transferred else t.total }
  | some e =>
    { t with path, error, stage := if e = cancelledError then .cancelled else .failed }

def decline (t : FileTransfer) : FileTransfer := { t with stage := .declined }

def describeOutcome (filename : String) (path error : Option String) : String :=
  match error, path with
  | some e, _ => "transfer of \"" ++ filename ++ "\" failed: " ++ e
  | none, some path => "saved \"" ++ filename ++ "\" to " ++ path
  | none, none => "sent \"" ++ filename ++ "\""

def outcome (t : FileTransfer) : String :=
  match t.stage with
  | .cancelled => "cancelled \"" ++ t.filename ++ "\""
  | .failed => describeOutcome t.filename none (some (t.error.getD "it did not complete"))
  | _ => describeOutcome t.filename (if t.incoming then t.path else none) none

end FileTransfer

/-! ## Lines -/

inductive ChatLine where
  | message (m : ChatMessage) (edited : Bool) (time : Nat)
  | system (text : String) (kind : SystemKind) (time : Nat)
  | file (card : Nat) (time : Nat)
  deriving Repr, DecidableEq

namespace ChatLine

def said : ChatLine → Option ChatMessage
  | .message m _ _ => some m
  | _ => none

def isSystem (l : ChatLine) : Bool := l.said.isNone

def isMention (l : ChatLine) : Bool := l.said.any (·.isMention)

end ChatLine

def NotifyLevel.counts (line : ChatLine) : NotifyLevel → Bool
  | .none => false
  | .mentions => line.isMention
  | .all => true

structure Conversation where
  name : String
  isChannel : Bool
  /-- A first message from someone we have never spoken to, not yet answered for. -/
  pending : Bool := false
  lines : List ChatLine := []
  members : List MemberView := []
  topic : Option String := none
  unread : Nat := 0
  unreadMentions : Nat := 0
  deriving Repr, DecidableEq

namespace Conversation

def lineWithId (c : Conversation) (msgid : String) : Option Nat :=
  (c.lines.reverse.findIdx? fun l => l.said.any (·.msgid = some msgid)).map
    fun i => c.lines.length - 1 - i

def add (c : Conversation) (line : ChatLine) (active : Bool) (notify : NotifyLevel := .all) :
    Conversation :=
  let lines := c.lines ++ [line]
  let c := { c with lines := lines.drop (lines.length - maxLinesPerConversation) }
  if active || line.isSystem || !notify.counts line then c
  else
    { c with
      unread := c.unread + 1
      unreadMentions := if line.isMention then c.unreadMentions + 1 else c.unreadMentions }

section
variable (c : Conversation) (line : ChatLine) (active : Bool) (notify : NotifyLevel)

-- A line changes the lines and the counts, and nothing else.

@[simp] theorem add_name : (c.add line active notify).name = c.name := by
  unfold add; split <;> rfl
@[simp] theorem add_isChannel : (c.add line active notify).isChannel = c.isChannel := by
  unfold add; split <;> rfl
@[simp] theorem add_pending : (c.add line active notify).pending = c.pending := by
  unfold add; split <;> rfl

end

def markRead (c : Conversation) : Conversation := { c with unread := 0, unreadMentions := 0 }

/-! ## The list of members -/

/-- The code units of a character in UTF-16. -/
def utf16 (c : Char) : List Nat :=
  if c.toNat < 0x10000 then [c.toNat]
  else [0xD800 + (c.toNat - 0x10000) / 0x400, 0xDC00 + (c.toNat - 0x10000) % 0x400]

/-- `a.compareTo(b) < 0`. -/
def comparesBelow (a b : String) : Bool := a.toList.flatMap utf16 < b.toList.flatMap utf16

/-- Where the row for `nick` is: the exact spelling first, then whatever the case. -/
def indexOf (lower : String → String) (members : List MemberView) (nick : String) : Option Nat :=
  (members.findIdx? (·.nick = nick)).or (members.findIdx? (lower ·.nick = lower nick))

/-- The search of `_placeFor`, between `low` and `high`. -/
def placeBetween (rows : List MemberView) (key : String) (low high : Nat) : Nat :=
  if h : low < high then
    let mid := (low + high) / 2
    if rows[mid]?.any fun m => comparesBelow m.sortKey key then
      placeBetween rows key (mid + 1) high
    else placeBetween rows key low mid
  else low
termination_by high - low

def placeFor (rows : List MemberView) (key : String) : Nat := placeBetween rows key 0 rows.length

def applyMemberChange (lower : String → String) (c : Conversation) (previous : String)
    (member : Option MemberView) : Conversation :=
  let next := match indexOf lower c.members previous with
    | some i => c.members.eraseIdx i
    | none => c.members
  { c with
    members := match member with
      | some m => next.insertIdx (placeFor next m.sortKey) m
      | none => next }

end Conversation

end Ddirc.App
