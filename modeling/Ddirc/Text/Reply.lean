import Ddirc.Lib.Str

/-! # Replies

`text/reply.rs`: the quoted beginning of a reply, written and read. What was written is read back
just if the reader takes the name for a nick and the excerpt opens no quote of its own
(`parseReply_formatReply_iff`). -/

namespace Ddirc.Text
open List Option

def maxExcerpt : Nat := 40

structure ReplyRef where
  msgid : Option String := none
  nick : String := ""
  excerpt : String := ""
  deriving Repr, DecidableEq

/-- Shorten a text to an excerpt: plain, one line, at most `maxExcerpt` characters. -/
def excerpt (text : String) : String :=
  let flat := String.ofList (text.toList.map fun c =>
    if c = '»' then '"' else if Str.isControl c then ' ' else c)
  let flat := Str.join " " (Str.splitWhitespace flat)
  let head := Str.takeChars maxExcerpt flat
  if flat.toList.length > maxExcerpt then Str.trimEndMatches Str.isWhitespace head ++ "…" else head

/-- The text of a reply: the quoted beginning, then what the user wrote. -/
def formatReply (nick excerpt body : String) : String := nick ++ ": «" ++ excerpt ++ "» " ++ body

def ReplyRef.quote (reply : ReplyRef) (text : String) : String :=
  formatReply reply.nick (Text.excerpt reply.excerpt) text

/-- `split_once` at two characters. -/
def splitAtPair (a b : Char) : List Char → Option (List Char × List Char)
  | c :: d :: rest =>
    if c = a ∧ d = b then some ([], rest)
    else (splitAtPair a b (d :: rest)).map fun r => (c :: r.1, r.2)
  | _ => none

/-- A character that a nick can be made of, to the reader of a reply. -/
def isNickChar (isAlphanumeric : Char → Bool) (c : Char) : Bool :=
  isAlphanumeric c || "-_[]\\`^\x7b\x7d|".toList.contains c

/-- Split a message into what it replies to and what it says, if it is a reply. -/
def parseReply (isAlphanumeric : Char → Bool) (text : String) : Option (ReplyRef × String) := do
  let (nick, rest) ← splitAtPair ':' ' ' text.toList
  if nick.isEmpty || nick.length > 64 || !nick.all (isNickChar isAlphanumeric) then none
  else
    let rest ← Str.stripChar '«' (String.ofList rest)
    let (quoted, body) ← Str.splitOnce '»' rest
    if quoted.toList.length > maxExcerpt + 1 || Str.contains quoted '«' then none
    else
      some ({ nick := String.ofList nick, excerpt := quoted }, (Str.stripChar ' ' body).getD body)

theorem splitAtPair_of_not_mem (h : a ∉ l) (rest : List Char) :
    splitAtPair a b (l ++ a :: b :: rest) = some (l, rest) := by
  induction l with
  | nil => simp [splitAtPair]
  | cons c l ih =>
    obtain ⟨hc, hl⟩ := not_or.1 (mt List.mem_cons.2 h)
    obtain ⟨d, more, hmore⟩ : ∃ d more, l ++ a :: b :: rest = d :: more := by cases l <;> simp
    rw [List.cons_append, hmore, splitAtPair, if_neg fun hpair => hc hpair.1.symm, ← hmore, ih hl]
    rfl

/-- An excerpt closes no quote: a mark that would is replaced before the text is cut. -/
theorem not_mem_excerpt (text : String) : '»' ∉ (excerpt text).toList := by
  have hflat : '»' ∉ (Str.join " " (Str.splitWhitespace (String.ofList (text.toList.map fun c =>
      if c = '»' then '"' else if Str.isControl c then ' ' else c)))).toList := by
    intro h
    rcases Str.mem_join h with h | ⟨w, hw, hc⟩
    · exact absurd h (by decide)
    · have hmem := (Str.of_mem_splitWhitespace hw hc).2
      rw [String.toList_ofList] at hmem
      obtain ⟨c, -, hc⟩ := mem_map.1 hmem
      split at hc
      · exact absurd hc (by decide)
      · grind
  intro h
  simp only [excerpt, Str.takeChars, Str.trimEndMatches] at h
  split at h
  all_goals simp only [String.toList_append, String.toList_ofList, mem_append] at h
  · rcases h with h | h
    · exact hflat (mem_of_mem_take (( rdropWhile_prefix _ _).subset h))
    · exact absurd h (by decide)
  · exact hflat (mem_of_mem_take h)

theorem length_excerpt_le (text : String) : (excerpt text).toList.length ≤ maxExcerpt + 1 := by
  simp only [excerpt, Str.takeChars, Str.trimEndMatches]
  split
  · have hcut (l : List Char) :
        ((l.take maxExcerpt).rdropWhile Str.isWhitespace).length ≤ maxExcerpt :=
      (( rdropWhile_prefix _ _).length_le).trans (length_take_le ..)
    simp only [String.toList_append, String.toList_ofList, length_append]
    exact Nat.add_le_add_right (hcut _) 1
  · rw [String.toList_ofList]
    exact Nat.le_succ_of_le (length_take_le ..)

/-- What is read as a reply names a nick and opens no second quote. -/
theorem of_parseReply (h : parseReply isAlphanumeric text = some (reply, body)) :
    (∀ c ∈ reply.nick.toList, isNickChar isAlphanumeric c) ∧ '«' ∉ reply.excerpt.toList := by
  obtain ⟨⟨nick, rest⟩, -, h⟩ := bind_eq_some_iff.1 h
  dsimp only at h
  split at h
  · cases h
  next hnick =>
    obtain ⟨rest, -, h⟩ := bind_eq_some_iff.1 h
    obtain ⟨⟨quoted, body⟩, -, h⟩ := bind_eq_some_iff.1 h
    split at h
    · cases h
    next hquoted =>
      obtain ⟨rfl, -⟩ := Prod.mk.inj (some.inj h)
      simp only [Bool.or_eq_true, not_or, Bool.not_eq_true, Bool.not_eq_false'] at hnick hquoted
      rw [String.toList_ofList]
      exact ⟨all_eq_true.1 hnick.2, by simpa [Str.contains] using hquoted.2⟩

theorem parseReply_formatReply (hcolon : isAlphanumeric ':' = false)
    (hname : 1 ≤ name.toList.length ∧ name.toList.length ≤ 64) (hclose : '»' ∉ quoted.toList)
    (hlength : quoted.toList.length ≤ maxExcerpt + 1) (body : String) :
    parseReply isAlphanumeric (formatReply name quoted body) =
        some ({ nick := name, excerpt := quoted }, body) ↔
      (∀ c ∈ name.toList, isNickChar isAlphanumeric c) ∧ '«' ∉ quoted.toList := by
  refine ⟨fun h => of_parseReply h, fun ⟨hnick, hopen⟩ => ?_⟩
  have hcolon : ':' ∉ name.toList := fun h => by
    have := hnick _ h
    rw [isNickChar, hcolon] at this
    exact absurd this (by decide)
  have hclose : ∀ c ∈ quoted.toList, (c != '»') := fun c hc =>
    bne_iff_ne.2 fun h => hclose (h ▸ hc)
  have htext : (formatReply name quoted body).toList = name.toList ++
      ':' :: ' ' :: '«' :: (quoted.toList ++ '»' :: ' ' :: body.toList) := by
    simp [formatReply]
  have hsplit : Str.splitOnce '»' (String.ofList (quoted.toList ++ '»' :: ' ' :: body.toList)) =
      some (quoted, String.ofList (' ' :: body.toList)) := by
    simp [Str.splitOnce, Str.contains, takeWhile_append_of_pos hclose,
      dropWhile_append_of_pos hclose]
  have hbelieved : (name.toList.isEmpty || decide (name.toList.length > 64) ||
      !name.toList.all (isNickChar isAlphanumeric)) = false := by
    have hne : name ≠ "" := fun h => absurd hname.1 (by simp [h])
    simp [all_eq_true.2 hnick, hne, hname.2]
  unfold parseReply
  rw [htext, splitAtPair_of_not_mem hcolon]
  refine (if_neg (Bool.eq_false_iff.1 hbelieved)).trans ?_
  simp only [Str.stripChar, String.toList_ofList, if_true, bind_eq_bind, bind_some, hsplit]
  rw [if_neg (by simpa [Str.contains, hopen] using hlength)]
  simp

/-- A reply to a name of 1 to 64 characters is read back as it was written if and only if every
character of the name is one that a nick can be made of and the excerpt has no `«` in it. -/
theorem parseReply_formatReply_iff {isAlphanumeric : Char → Bool}
    (hcolon : isAlphanumeric ':' = false) (name text body : String)
    (hname : 1 ≤ name.toList.length ∧ name.toList.length ≤ 64) :
    parseReply isAlphanumeric (formatReply name (excerpt text) body) =
        some ({ nick := name, excerpt := excerpt text }, body) ↔
      (∀ c ∈ name.toList, isNickChar isAlphanumeric c = true) ∧ '«' ∉ (excerpt text).toList :=
  parseReply_formatReply hcolon hname (not_mem_excerpt text) (length_excerpt_le text) body

theorem parseReply_formatReply_alice :
    parseReply Char.isAlphanum (formatReply "alice" (excerpt "tea?") "yes") =
      some ({ nick := "alice", excerpt := excerpt "tea?" }, "yes") :=
  (parseReply_formatReply_iff (by decide) "alice" "tea?" "yes" (by decide)).2
    ⟨List.all_eq_true.1 (by decide), by decide +kernel⟩

/-- A reply to a bare address, or to a text that opens a quote, is not read as one. -/
theorem not_read_back :
    parseReply Char.isAlphanum (formatReply "bob@example.org" (excerpt "tea?") "yes") = none ∧
      parseReply Char.isAlphanum (formatReply "bob" (excerpt "«tea»") "yes") = none := by
  decide +kernel

end Ddirc.Text
