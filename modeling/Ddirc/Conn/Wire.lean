import Ddirc.Lib.Chunks
import Ddirc.Conn.Command

/-! # Lines of a message

What the user says goes out in lines of at most 400 characters, while a server takes lines of at
most 512 bytes, the line end and our own name in front of it included. -/

namespace Ddirc.Conn
open List String
open Irc Client Api Text
variable {c : Connection} {cmd : ClientCommand} {l : List Char}

/-- How the `irc` crate writes a command: a colon is put before a last argument that could not be
told from those before it. -/
class Writer where
  stringify : String → List String → String
  stringify_privmsg : ∀ target text, stringify "PRIVMSG" [target, text] =
    "PRIVMSG" ++ (if target.isEmpty then "" else " ") ++ target ++ " " ++
      (if text.isEmpty || Str.contains text ' ' || Str.startsWith text ':' then ":" else "") ++ text

open Writer (stringify stringify_privmsg)

instance : Writer where
  stringify command args :=
    match args.getLast? with
    | none => command
    | some last =>
      let front := Str.join " " args.dropLast
      command ++ (if front.isEmpty then "" else " ") ++ front ++ " " ++
        (if last.isEmpty || Str.contains last ' ' || Str.startsWith last ':' then ":" else "") ++
          last
  stringify_privmsg _ _ := rfl

def maxLine : Nat := 512

def isClean (s : String) : Bool := s.toList.all fun c => c != '\r' && c != '\n' && c.toNat != 0

/-- A `PRIVMSG` is one line, which has room behind our own name. -/
def Fits [Writer] (ours : String) (m : Message) : Prop :=
  match m.command with
  | .privmsg target text =>
    let line := stringify "PRIVMSG" [target, text]
    isClean line = true ∧ Str.len (":" ++ ours ++ " " ++ line ++ "\r\n") ≤ maxLine
  | _ => True

instance [Writer] (ours : String) (m : Message) : Decidable (Fits ours m) := by
  unfold Fits
  generalize m.command = command
  induction command using Command.casesOn <;> infer_instance

/-- What is said where, and how each line of it is dressed. -/
structure Speech where
  target : String
  text : String
  dress : String → String

def ClientCommand.speech : ClientCommand → Option Speech
  | .sendMessage target text => some ⟨target, text, id⟩
  | .sendReply target text reply => some ⟨target, reply.quote text, id⟩
  | .sendAction target text => some ⟨target, text, fun line => "\x01ACTION " ++ line ++ "\x01"⟩
  | _ => none

/-- The piece of a line of the text that begins after `400 * i` of the characters that are sent. -/
def piece (line : String) (i : Nat) : String :=
  String.ofList ((((line.toList.filter fun c => c != '\r' && c != '\n' && c.toNat != 0).drop
    (maxMessageChars * i))).take maxMessageChars)

theorem mem_sanitizeOutgoing : s ∈ sanitizeOutgoing text ↔
    ∃ line ∈ Str.lines text, ∃ i, s = piece line i ∧ (Str.trim s).isEmpty = false := by
  simp only [sanitizeOutgoing, mem_filter, mem_flatMap, mem_map,
    Str.mem_chunks (show 0 < maxMessageChars by decide), Bool.not_eq_true']
  constructor
  · rintro ⟨⟨line, hline, _, ⟨i, -, rfl⟩, rfl⟩, hblank⟩
    exact ⟨line, hline, i, rfl, hblank⟩
  · rintro ⟨line, hline, i, rfl, hblank⟩
    refine ⟨⟨line, hline, _, ⟨i, ?_, rfl⟩, rfl⟩, hblank⟩
    -- A piece beyond the end of the line would be empty.
    by_contra hend
    rw [piece, drop_of_length_le (not_lt.1 hend)] at hblank
    cases hblank

theorem isClean_piece (line : String) (i : Nat) : isClean (piece line i) := by
  rw [isClean, piece, toList_ofList, all_eq_true]
  intro c hc
  exact (mem_filter.1 (mem_of_mem_drop (mem_of_mem_take hc))).2

theorem queued_of_speech (h : cmd.speech = some s) :
    (c.queued cmd).map (·.command) =
      (sanitizeOutgoing s.text).map fun line => .privmsg s.target (s.dress line) := by
  cases cmd <;> cases h
  case sendMessage => simp [Connection.queued, Message.ofCommand]
  case sendAction => simp [Connection.queued, Message.ofCommand]
  case sendReply target text reply =>
    simp only [Connection.queued]
    split
    next hlines => simp [hlines]
    next first rest hlines => simp [hlines, Message.ofCommand]

/-- The bytes of a line beside its text. -/
def frame (ours target : String) : Nat :=
  Str.len ours + Str.len target + (if target.isEmpty then 12 else 13)

/-- The colon that is put before some texts. -/
def colon (text : String) : Nat :=
  if text.isEmpty || Str.contains text ' ' || Str.startsWith text ':' then 1 else 0

theorem len_append : Str.len (s ++ t) = Str.len s + Str.len t :=
  utf8ByteSize_append

theorem len_line [Writer] :
    Str.len (":" ++ ours ++ " " ++ stringify "PRIVMSG" [target, text] ++ "\r\n") =
      frame ours target + colon text + Str.len text := by
  have hcolon : Str.len (if text.isEmpty || Str.contains text ' ' || Str.startsWith text ':'
      then ":" else "") = colon text := by
    rw [colon]
    split <;> rfl
  have hblank : Str.len (if target.isEmpty then "" else " ") + 12 =
      if target.isEmpty then 12 else 13 := by
    split <;> rfl
  have hwords : Str.len ":" = 1 ∧ Str.len " " = 1 ∧ Str.len "PRIVMSG" = 7 ∧ Str.len "\r\n" = 2 :=
    ⟨rfl, rfl, rfl, rfl⟩
  simp only [stringify_privmsg, len_append, frame, hwords]
  omega

theorem isClean_append : isClean (s ++ t) = (isClean s && isClean t) := by
  rw [isClean, toList_append, all_append]
  rfl

theorem isClean_line [Writer] :
    isClean (stringify "PRIVMSG" [target, text]) = (isClean target && isClean text) := by
  have hblank : isClean (if target.isEmpty then "" else " ") := by split <;> decide
  have hcolon : isClean (if text.isEmpty || Str.contains text ' ' || Str.startsWith text ':'
      then ":" else "") := by split <;> decide
  have hwords : isClean "PRIVMSG" ∧ isClean " " := by decide
  simp only [stringify_privmsg, isClean_append, hblank, hcolon, hwords, Bool.true_and,
    Bool.and_true]

theorem isClean_dress (h : cmd.speech = some s) (line : String) :
    isClean (s.dress line) = isClean line := by
  cases cmd <;> cases h
  case sendMessage => rfl
  case sendReply => rfl
  case sendAction =>
    have hdress : isClean "\x01ACTION " ∧ isClean "\x01" := by decide
    simp only [isClean_append, hdress, Bool.true_and, Bool.and_true]

theorem fits_privmsg_iff [Writer] :
    Fits ours (.ofCommand (.privmsg target text)) ↔
      (isClean target ∧ isClean text) ∧
        frame ours target + colon text + Str.len text ≤ maxLine := by
  simp only [Fits, Message.ofCommand, len_line, isClean_line, Bool.and_eq_true]

theorem forall_queued_iff [Writer] (h : cmd.speech = some s) : (∀ m ∈ c.queued cmd, Fits ours m) ↔
      ∀ line ∈ sanitizeOutgoing s.text, Fits ours (.ofCommand (.privmsg s.target (s.dress line))) :=
  calc (∀ m ∈ c.queued cmd, Fits ours m)
      ↔ ∀ command ∈ (c.queued cmd).map (·.command), Fits ours (.ofCommand command) := by
        rw [forall_mem_map]
        rfl
    _ ↔ _ := by rw [queued_of_speech h, forall_mem_map]

/-- Every line that is queued fits, just in case the target is one line and each piece of the text,
cut every 400 characters, takes no more bytes than the rest of the line leaves. -/
theorem lines_fit_iff [Writer] {ours : String} {c : Connection} {cmd : ClientCommand} {s : Speech}
    (h : cmd.speech = some s) : (∀ m ∈ c.queued cmd, Fits ours m) ↔
      ∀ line ∈ Str.lines s.text, ∀ i, (Str.trim (piece line i)).isEmpty = false →
        isClean s.target = true ∧ frame ours s.target + colon (s.dress (piece line i)) +
          Str.len (s.dress (piece line i)) ≤ maxLine := by
  rw [forall_queued_iff h]
  constructor
  · intro hall line hline i hblank
    have := fits_privmsg_iff.1 (hall _ (mem_sanitizeOutgoing.2 ⟨line, hline, i, rfl, hblank⟩))
    exact ⟨this.1.1, this.2⟩
  · intro hall text htext
    obtain ⟨line, hline, i, rfl, hblank⟩ := mem_sanitizeOutgoing.1 htext
    obtain ⟨htarget, hlen⟩ := hall line hline i hblank
    refine fits_privmsg_iff.2 ⟨⟨htarget, ?_⟩, hlen⟩
    rw [isClean_dress h, isClean_piece]

def plainConnection : Connection :=
  (Connection.start { nickname := "me" } {} none (.init 0) 0).1

theorem lines_fit_iff_waves :
    (∀ m ∈ plainConnection.queued (.sendAction "#tea" "waves"), Fits "me!me@host" m) ∧
    ((∀ m ∈ plainConnection.queued (.sendAction "#tea" "waves"), Fits "me!me@host" m) ↔
      ∀ line ∈ Str.lines "waves", ∀ i, (Str.trim (piece line i)).isEmpty = false →
        isClean "#tea" = true ∧ frame "me!me@host" "#tea" +
          colon ("\x01ACTION " ++ piece line i ++ "\x01") +
          Str.len ("\x01ACTION " ++ piece line i ++ "\x01") ≤ maxLine) := by
  have hspeech : (ClientCommand.sendAction "#tea" "waves").speech =
      some ⟨"#tea", "waves", fun line => "\x01ACTION " ++ line ++ "\x01"⟩ := rfl
  have hfit := @lines_fit_iff _ "me!me@host" plainConnection _ _ hspeech
  exact ⟨by decide +kernel, hfit⟩

theorem lines_ofList (hne : l ≠ []) (h : '\n' ∉ l) :
    Str.lines (String.ofList l) = [String.ofList l] := by
  have hsplit : l.splitOn '\n' = [l] :=
    splitOnP_eq_singleton fun c hc => by simpa using ne_of_mem_of_not_mem hc h
  simp [Str.lines, hsplit, hne]

theorem trim_ofList (h : ∀ c ∈ l, Str.isWhitespace c = false) :
    Str.trim (String.ofList l) = String.ofList l := by
  have hstart : l.dropWhile Str.isWhitespace = l := by
    cases l with
    | nil => rfl
    | cons c l => rw [dropWhile_cons_of_neg (by simp [h c mem_cons_self])]
  have hend : l.rdropWhile Str.isWhitespace = l :=
    rdropWhile_eq_self_iff.2 fun hne => by simp [h _ (getLast_mem hne)]
  rw [Str.trim, Str.trimStartMatches, Str.trimEndMatches, toList_ofList, toList_ofList,
    hstart, hend]

theorem self_mem_sanitizeOutgoing (hne : l ≠ []) (hlen : l.length ≤ maxMessageChars)
    (hletters : ∀ c ∈ l, Str.isWhitespace c = false ∧ c.toNat ≠ 0) :
    String.ofList l ∈ sanitizeOutgoing (String.ofList l) := by
  have hclean : l.filter (fun c => c != '\r' && c != '\n' && c.toNat != 0) = l := by
    refine filter_eq_self.2 fun c hc => ?_
    obtain ⟨hwhite, hzero⟩ := hletters c hc
    have hr : c ≠ '\r' := fun heq => absurd (heq ▸ hwhite) (by decide)
    have hn : c ≠ '\n' := fun heq => absurd (heq ▸ hwhite) (by decide)
    simp [hr, hn, hzero]
  have hline : '\n' ∉ l := fun hmem => absurd (hletters _ hmem).1 (by decide)
  refine mem_sanitizeOutgoing.2 ⟨String.ofList l, ?_, 0, ?_, ?_⟩
  · rw [lines_ofList hne hline]
    exact mem_singleton_self _
  · rw [piece, toList_ofList, hclean, Nat.mul_zero, drop_zero, take_of_length_le hlen]
  · rw [trim_ofList fun c hc => (hletters c hc).1]
    simpa using hne

/-- 260 characters of two bytes each make one line, which is too long even without our name. -/
theorem line_too_long :
    let text := String.ofList (replicate 260 'é')
    (∃ m ∈ plainConnection.queued (.sendMessage "#tea" text), m.command = .privmsg "#tea" text) ∧
      Str.len text = 520 ∧
      ¬ ∀ m ∈ plainConnection.queued (.sendMessage "#tea" text), Fits "me!me@host" m := by
  intro text
  have hletter : ∀ c ∈ List.replicate 260 'é', Str.isWhitespace c = false ∧ c.toNat ≠ 0 := by
    intro c hc
    obtain rfl := eq_of_mem_replicate hc
    decide
  have hmem : text ∈ sanitizeOutgoing text :=
    self_mem_sanitizeOutgoing (fun h => absurd (replicate_eq_nil_iff _ |>.1 h) (by decide))
      (List.length_replicate.trans_le (by decide)) hletter
  have hlen : Str.len text = 520 := by
    rw [Str.len_ofList (k := 2), List.length_replicate]
    intro c hc
    rw [eq_of_mem_replicate hc]
    decide
  have hspeech : (ClientCommand.sendMessage "#tea" text).speech = some ⟨"#tea", text, id⟩ := rfl
  refine ⟨?_, hlen, fun hall => ?_⟩
  · have : Command.privmsg "#tea" text ∈
        (plainConnection.queued (.sendMessage "#tea" text)).map (·.command) := by
      rw [queued_of_speech hspeech]
      exact mem_map_of_mem hmem
    simpa using this
  · have hfits := fits_privmsg_iff.1 ((forall_queued_iff hspeech).1 hall text hmem)
    have : Str.len (id text) = 520 := hlen
    rw [this] at hfits
    exact absurd hfits.2 (by simp [maxLine])

/-! ## What is left out -/

def sent (line : String) : List Char :=
  line.toList.filter fun c => c != '\r' && c != '\n' && c.toNat != 0

def linePieces (line : String) : List String :=
  ((Str.chunks maxMessageChars (sent line)).map String.ofList).filter
    fun s => !(Str.trim s).isEmpty

theorem sanitizeOutgoing_eq_flatMap (text : String) :
    sanitizeOutgoing text = (Str.lines text).flatMap linePieces := filter_flatMap

theorem flatMap_linePieces_iff (line : String) :
    (linePieces line).flatMap String.toList = sent line ↔
    ∀ i, maxMessageChars * i < (sent line).length → (Str.trim (piece line i)).isEmpty = false := by
  have hpos : 0 < maxMessageChars := by decide
  have hchunk : ∀ l ∈ Str.chunks maxMessageChars (sent line), l ≠ [] := by
    intro l hl
    obtain ⟨i, hi, rfl⟩ := (Str.mem_chunks hpos).1 hl
    rw [ne_eq, take_eq_nil_iff, drop_eq_nil_iff]
    omega
  have hflat : (linePieces line).flatMap String.toList = ((Str.chunks maxMessageChars
      (sent line)).filter fun l => !(Str.trim (String.ofList l)).isEmpty).flatten := by
    rw [linePieces, filter_map, flatMap_map]
    simp only [toList_ofList, Function.comp_def, flatMap_id']
  have hiff :=
    Str.flatten_filter_eq_iff (p := fun l => !(Str.trim (String.ofList l)).isEmpty) hchunk
  rw [Str.flatten_chunks hpos] at hiff
  rw [hflat, hiff]
  simp only [Str.mem_chunks hpos, Bool.not_eq_true']
  exact ⟨fun h i hi => h _ ⟨i, hi, rfl⟩, fun h l ⟨i, hi, hl⟩ => hl ▸ h i hi⟩

/-- The pieces are clean and short enough, they are those of the lines in order, and those of a line
make up the line exactly if none of the pieces it is cut into is blank. -/
theorem linePieces_lossless_iff (text : String) :
    (∀ s ∈ sanitizeOutgoing text, isClean s = true ∧ s.toList.length ≤ maxMessageChars) ∧
    sanitizeOutgoing text = (Str.lines text).flatMap linePieces ∧
    ∀ line ∈ Str.lines text, ((linePieces line).flatMap String.toList = sent line ↔
      ∀ i, maxMessageChars * i < (sent line).length →
        (Str.trim (piece line i)).isEmpty = false) := by
  refine ⟨fun s hs => ?_, sanitizeOutgoing_eq_flatMap text,
    fun line _ => flatMap_linePieces_iff line⟩
  obtain ⟨line, -, i, rfl, -⟩ := mem_sanitizeOutgoing.1 hs
  refine ⟨isClean_piece line i, ?_⟩
  rw [piece, toList_ofList]
  exact length_take_le _ _

/-- Of a line with a long run of blanks, a whole piece of it is blank and is not sent. -/
theorem blanks_lost :
    let line := String.ofList (List.replicate maxMessageChars 'a' ++
      (List.replicate maxMessageChars ' ' ++ ['b']))
    Str.lines line = [line] ∧ sent line = line.toList ∧
      (sanitizeOutgoing line).flatMap String.toList = List.replicate maxMessageChars 'a' ++
      ['b'] := by
  intro line
  have hchars : ∀ c ∈ List.replicate maxMessageChars 'a' ++
      (List.replicate maxMessageChars ' ' ++ ['b']),
      c ∈ ['a', ' ', 'b'] := by
    simp only [mem_append, mem_replicate, mem_singleton]
    rintro c (⟨-, rfl⟩ | ⟨-, rfl⟩ | rfl) <;> decide
  have hlines : Str.lines line = [line] :=
    lines_ofList (by simp) fun h => absurd (hchars _ h) (by decide)
  have hsent : sent line = line.toList := by
    refine filter_eq_self.2 fun c hc => ?_
    rw [toList_ofList] at hc
    exact all_eq_true.1 (by decide : ['a', ' ', 'b'].all
      fun c => c != '\r' && c != '\n' && c.toNat != 0) c (hchars c hc)
  have hword : (Str.trim (String.ofList (replicate maxMessageChars 'a'))).isEmpty = false := by
    rw [trim_ofList fun c hc => by rw [eq_of_mem_replicate hc]; decide]
    simp [maxMessageChars, -reduceReplicate]
  have hblank : (Str.trim (String.ofList (replicate maxMessageChars ' '))).isEmpty = true := by
    rw [Str.trim, Str.trimStartMatches, toList_ofList, dropWhile_replicate]
    rfl
  have hpos : 0 < maxMessageChars := by decide
  refine ⟨hlines, hsent, ?_⟩
  rw [sanitizeOutgoing_eq_flatMap, hlines, flatMap_singleton, linePieces, hsent,
    toList_ofList, Str.chunks_append hpos List.length_replicate,
    Str.chunks_append hpos List.length_replicate]
  have hlast : (Str.chunks maxMessageChars ['b']).map String.ofList = ["b"] := by decide
  simp only [map_cons, hlast, filter_cons, hword, hblank, Bool.not_true, Bool.not_false,
    if_true, Bool.false_eq_true, if_false, show (Str.trim "b").isEmpty = false by decide,
    filter_nil, flatMap_cons, flatMap_nil, toList_ofList]
  rfl

end Ddirc.Conn
