import Ddirc.Conn.Wire
import Ddirc.Text.RoundTrip

/-! # What the other side shows

Our own lines are shown as they are queued, and the other side shows what it makes of them when they
come: it looks for CTCP and for the quoted beginning of a reply in every line, where the echo knows
what was asked for. -/

namespace Ddirc.Conn
open List
open Irc Client Api Text
variable {tags : Option (List Tag)} {target line : String}

structure Bubble where
  spans : List TextSpan
  isAction : Bool
  replyTo : Option ReplyRef
  deriving Repr, DecidableEq

namespace Bubble

def text (b : Bubble) : String := String.join (b.spans.map (·.text))

/-- The bubble without the id of what it answers, which is not drawn. -/
def untagged (b : Bubble) : Bubble :=
  { b with replyTo := b.replyTo.map fun reply => { reply with msgid := none } }

end Bubble

variable (u : Platform)

def splitReply (text : String) (tagMsgid : Option String) : Option ReplyRef × String :=
  let tagMsgid := tagMsgid.map (Str.takeChars maxMsgid)
  match parseReply u.isAlphanumeric text with
  | some (found, body) => (some { found with msgid := tagMsgid }, body)
  -- A tag alone is still a reply.
  | none => (tagMsgid.map fun msgid => { msgid := some msgid }, text)

def said (line : String) (replyMsgid : Option String) : Bubble :=
  let (replyTo, body) := splitReply u line replyMsgid
  { spans := parse body, isAction := false, replyTo }

def acted (line : String) : Bubble := { spans := parse line, isAction := true, replyTo := none }

/-- How our own lines look to us. -/
def ClientCommand.echoes : ClientCommand → List Bubble
  | .sendMessage _ text => (sanitizeOutgoing text).map fun line => said u line none
  | .sendReply _ text reply =>
    match sanitizeOutgoing (reply.quote text) with
    | [] => []
    | first :: rest => said u first reply.msgid :: rest.map fun line => said u line none
  | .sendAction _ text => (sanitizeOutgoing text).map acted
  | _ => []

def heard (m : Message) : Option Bubble :=
  match m.command with
  | .privmsg _ text =>
    match Str.stripStr "ACTION " (Str.trimMatches (·.toNat == 1) text) with
    | some rest => some (acted rest)
    | none =>
      if text.toList.head?.any (·.toNat == 1) then none
      else some (said u text ((Message.tag m replyTag).or (Message.tag m "+reply")))
  | _ => none

/-! ## The bubbles are what is told -/

theorem text_said :
    (said u line replyMsgid).text = strip (replyBody u line) := by
  unfold said splitReply replyBody strip
  cases parseReply u.isAlphanumeric line <;> rfl

theorem text_acted : (acted line).text = strip line := rfl

theorem isAction_said :
    (said u line replyMsgid).isAction = false := rfl

theorem isAction_acted : (acted line).isAction := rfl

theorem shown_eq_echoes {c : Connection} {cmd : ClientCommand} {s : Speech}
    (h : cmd.speech = some s) : c.shown u cmd = (cmd.echoes u).map fun b => .message
      { target := if (c.session.channel s.target).isSome then .channel s.target
        else .direct s.target
        sender := c.session.nick
        text := b.text
        isSelf := true
        isAction := b.isAction } := by
  cases cmd <;> cases h
  case sendMessage =>
    simp [Connection.shown, Connection.echo, ClientCommand.echoes, text_said, isAction_said]
  case sendAction =>
    simp [Connection.shown, Connection.echo, ClientCommand.echoes, text_acted, isAction_acted]
  case sendReply target text reply =>
    simp only [Connection.shown, ClientCommand.echoes]
    cases sanitizeOutgoing (reply.quote text) with
    | nil => rfl
    | cons first rest => simp [Connection.echo, text_said, isAction_said]

def told : IrcEvent → Option ChatMessage
  | .message m => some m
  | _ => none

theorem report_eq_heard (hm : m.command = .privmsg target text)
    (hsource : m.sourceNickname = some sender) :
    ((report u s pick offer m).filterMap told).map (fun shown => (shown.text, shown.isAction)) =
      ((heard u m).map fun b => (b.text, b.isAction)).toList := by
  have hreport : report u s pick offer m = reportChat u s offer m target text sender false := by
    unfold report
    rw [hm, hsource]
  rw [hreport]
  unfold reportChat heard
  rw [hm]
  dsimp only
  cases haction : Str.stripStr "ACTION " (Str.trimMatches (·.toNat == 1) text) with
  | some rest => simp [told, text_acted, isAction_acted]
  | none =>
    cases hctcp : text.toList.head?.any (·.toNat == 1) with
    | true =>
      have hnone : ∀ e ∈ reportCtcp u s offer target (Str.trimMatches (·.toNat == 1) text) sender
          false, told e = none := by
        unfold reportCtcp
        intro e he
        split at he
        · cases he
        · split at he
          · cases he
          · split at he
            · cases he
            · obtain rfl := mem_singleton.1 he
              rfl
      simpa using filterMap_eq_nil_iff.2 hnone
    | false => simp [told, text_said, isAction_said]

/-! ## Line by line -/

/-- A line that nobody takes for CTCP. -/
def isPlainLine (line : String) : Bool :=
  (Str.stripStr "ACTION " (Str.trimMatches (·.toNat == 1) line)).isNone &&
    !line.toList.head?.any (·.toNat == 1)

variable {u}

theorem heard_eq_said_iff :
    (heard u { tags, command := .privmsg target line }).map (·.untagged) =
        some (said u line replyMsgid).untagged ↔
      isPlainLine line ∧
        (said u line ((Message.tag { tags, command := .privmsg target line } replyTag).or
          (Message.tag { tags, command := .privmsg target line } "+reply"))).untagged =
            (said u line replyMsgid).untagged := by
  unfold heard isPlainLine
  dsimp only
  cases haction : Str.stripStr "ACTION " (Str.trimMatches (·.toNat == 1) line) with
  | some rest =>
    have hne : (acted rest).untagged ≠ (said u line replyMsgid).untagged := fun h =>
      Bool.noConfusion (congrArg Bubble.isAction h)
    simp [hne]
  | none => cases hctcp : line.toList.head?.any (·.toNat == 1) <;> simp

theorem said_untagged_iff :
    (said u line a).untagged = (said u line b).untagged ↔
      (parseReply u.isAlphanumeric line).isSome ∨ a.isSome = b.isSome := by
  unfold said splitReply Bubble.untagged
  cases parseReply u.isAlphanumeric line with
  | some found => simp
  | none => cases a <;> cases b <;> simp

/-- What is sent of an action comes back. -/
theorem heard_acted :
    heard u (.ofCommand (.privmsg target ("\x01ACTION " ++ line ++ "\x01"))) =
      some (acted line) := by
  have htrim : Str.stripStr "ACTION " (Str.trimMatches (·.toNat == 1)
      ("\x01ACTION " ++ line ++ "\x01")) =
      some (String.ofList (line.toList.rdropWhile (·.toNat == 1))) := by
    have hlist : (Str.trimMatches (·.toNat == 1) ("\x01ACTION " ++ line ++ "\x01")).toList =
        "ACTION ".toList ++ line.toList.rdropWhile (·.toNat == 1) := by
      rw [Str.trimMatches, Str.trimEndMatches, Str.trimStartMatches, String.toList_ofList,
        String.toList_ofList, String.toList_append, String.toList_append]
      exact (rdropWhile_concat_pos _ ("ACTION ".toList ++ line.toList) '\x01' rfl).trans
        (Str.rdropWhile_append "ACTION".toList rfl line.toList)
    rw [Str.stripStr, Str.startsWithStr, hlist, isPrefixOf_iff_prefix.2 (prefix_append _ _),
      if_pos rfl, drop_left]
  have hcontrol : ∀ c : Char, (c.toNat == 1) →
      isForbidden c ∧ Code.ofChar c = none := by
    intro c hc
    obtain rfl : c = '\x01' := Char.toNat_inj.1 (beq_iff_eq.1 hc)
    decide
  unfold heard Message.ofCommand
  dsimp only
  rw [htrim]
  change some (acted _) = some (acted line)
  rw [acted, acted, parse_rdropWhile hcontrol, String.ofList_toList]

/-- Lists of one length, one of which is a `filterMap`, are equal if they are so one by one. -/
theorem filterMap_eq_iff (hlen : l.length = l'.length) :
    l.filterMap f = l' ↔ List.Forall₂ (fun a b => f a = some b) l l' := by
  induction l generalizing l' with
  | nil =>
    simp
  | cons a l ih =>
    cases l' with
    | nil => cases hlen
    | cons b l' =>
      rw [forall₂_cons, ← ih (Nat.succ.inj hlen)]
      cases ha : f a with
      | some b' => simp [ha]
      | none =>
        rw [filterMap_cons_none ha]
        refine ⟨fun h => ?_, fun h => nomatch h.1⟩
        have := (length_filterMap_le f l).trans_lt (Nat.lt_succ_self _)
        rw [h, ← hlen] at this
        exact absurd this (Nat.lt_irrefl _)

/-! ## Commands -/

/-- No line of it is taken for CTCP; and the other side gets to know that a reply is one, by its
quoted beginning or by its tag. -/
def ClientCommand.isPlain (u : Platform) (c : Connection) : ClientCommand → Bool
  | .sendMessage _ text => (sanitizeOutgoing text).all isPlainLine
  | .sendReply _ text reply =>
    let lines := sanitizeOutgoing (reply.quote text)
    lines.all isPlainLine && lines.head?.all fun first =>
      (parseReply u.isAlphanumeric first).isSome ||
        reply.msgid.all fun msgid => c.clientTags && !msgid.isEmpty
  | _ => true

theorem heard_plain_iff :
    (heard u (.ofCommand (.privmsg target line))).map (·.untagged) =
      some (said u line none).untagged ↔
      isPlainLine line := by
  rw [Message.ofCommand, heard_eq_said_iff]
  exact and_iff_left rfl

/-- The first line of a reply, with its tag if the server lets us send one. -/
theorem heard_tagged_iff (htags : tags = (msgid.filter fun _ => clientTags).map fun id =>
      [{ key := replyTag, value := some id }]) :
    (heard u { tags, command := .privmsg target line }).map (·.untagged) =
        some (said u line msgid).untagged ↔
      isPlainLine line ∧ ((parseReply u.isAlphanumeric line).isSome ||
        msgid.all fun msgid => clientTags && !msgid.isEmpty) := by
  subst htags
  rw [heard_eq_said_iff, said_untagged_iff, Bool.or_eq_true]
  refine and_congr_right fun _ => or_congr_right ?_
  cases msgid with
  | none => exact iff_of_true rfl rfl
  | some msgid =>
    cases clientTags with
    | false => exact iff_of_false Bool.false_ne_true Bool.false_ne_true
    | true =>
      cases hempty : msgid.isEmpty <;>
        simp [Message.tag, replyTag, Option.filter]

/-- What is shown as sent is what the other side shows, just in case it takes no line for CTCP and
gets to know what a reply is. -/
theorem heard_as_echoed_iff (u : Platform) (c : Connection) (cmd : ClientCommand) :
    ((c.queued cmd).filterMap (heard u)).map (·.untagged) =
      (cmd.echoes u).map (·.untagged) ↔ cmd.isPlain u c = true := by
  have hmessages (target : String) (lines : List String) :
      ((lines.map fun line => Message.ofCommand (.privmsg target line)).filterMap
        fun m => (heard u m).map (·.untagged)) =
          lines.map (fun line => (said u line none).untagged) ↔
      lines.all isPlainLine = true := by
    rw [filterMap_map, filterMap_eq_map_iff_forall_eq_some, all_eq_true]
    simp only [Function.comp_def, heard_plain_iff]
  rw [map_filterMap]
  cases cmd
  case sendMessage target text =>
    simp only [Connection.queued, ClientCommand.echoes, ClientCommand.isPlain, map_map,
      Function.comp_def, hmessages]
  case sendAction target text =>
    refine iff_of_true ?_ rfl
    simp only [Connection.queued, ClientCommand.echoes, map_map, filterMap_map,
      Function.comp_def, heard_acted, Option.map_some, filterMap_eq_map_iff_forall_eq_some,
      implies_true]
  case sendReply target text reply =>
    simp only [Connection.queued, ClientCommand.echoes, ClientCommand.isPlain]
    cases sanitizeOutgoing (reply.quote text) with
    | nil => exact iff_of_true rfl rfl
    | cons first rest =>
      have hlen : (rest.map fun line => Message.ofCommand (.privmsg target line)).length =
          (rest.map fun line => (said u line none).untagged).length := by
        rw [length_map, length_map]
      simp only [map_cons, map_map, Function.comp_def, all_cons, Bool.and_eq_true]
      rw [filterMap_eq_iff (by simp only [length_cons, hlen]), forall₂_cons,
        ← filterMap_eq_iff hlen, hmessages, heard_tagged_iff rfl]
      exact and_right_comm
  case kick | listChannels | whois =>
    refine iff_of_true ?_ rfl
    simp only [Connection.queued]
    split <;> rfl
  all_goals exact iff_of_true rfl rfl

def asciiPlatform : Platform where
  isAlphanumeric := Char.isAlphanum
  lowercase c := [c.toLower]
  parseIp _ := none
  serverTime _ := none

/-- A message that begins with `ACTION` is taken for an action, one that begins with the CTCP mark
is not shown at all, and a reply to a nick that the reader does not believe is a reply only to
us. -/
theorem heard_otherwise :
    (let cmd := ClientCommand.sendMessage "#tea" "ACTION waves";
      ((plainConnection.queued cmd).filterMap (heard asciiPlatform)).map (·.isAction) = [true] ∧
        (cmd.echoes asciiPlatform).map (·.isAction) = [false]) ∧
    (let cmd := ClientCommand.sendMessage "#tea" "\x01VERSION\x01";
      (plainConnection.queued cmd).filterMap (heard asciiPlatform) = [] ∧
        (cmd.echoes asciiPlatform).length = 1) ∧
    (let cmd := ClientCommand.sendReply "#tea" "yes"
        { msgid := some "m1", nick := "bob~", excerpt := "tea?" };
      ((plainConnection.queued cmd).filterMap (heard asciiPlatform)).map (·.replyTo.isSome) =
          [false] ∧
        (cmd.echoes asciiPlatform).map (·.replyTo.isSome) = [true]) := by
  refine ⟨⟨?_, ?_⟩, ⟨?_, ?_⟩, ⟨?_, ?_⟩⟩ <;> decide +kernel

end Ddirc.Conn
