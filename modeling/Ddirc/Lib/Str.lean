import Mathlib.Algebra.Group.Nat.Defs
import Mathlib.Data.List.DropRight

/-! # String operations of the Rust standard library

A Rust `str` is a sequence of Unicode scalar values, which is what `String.toList` gives, so each
operation is a list function on the characters. Lengths are in bytes of UTF-8 where Rust's `len`
is, and in characters where the code counts `chars()`. -/

namespace Ddirc.Str
open List
variable {l : List String} {p : α → Bool}

/-- `char::is_control`: the general category `Cc`. -/
def isControl (c : Char) : Bool :=
  c.toNat < 0x20 || (0x7f ≤ c.toNat && c.toNat ≤ 0x9f)

/-- `char::is_whitespace`: the property `White_Space`. -/
def isWhitespace (c : Char) : Bool :=
  (0x09 ≤ c.toNat && c.toNat ≤ 0x0d) || c.toNat == 0x20 || c.toNat == 0x85 || c.toNat == 0xa0 ||
  c.toNat == 0x1680 || (0x2000 ≤ c.toNat && c.toNat ≤ 0x200a) || c.toNat == 0x2028 ||
  c.toNat == 0x2029 || c.toNat == 0x202f || c.toNat == 0x205f || c.toNat == 0x3000

/-- `str::len`: the length in bytes. -/
def len (s : String) : Nat := s.utf8ByteSize

def bytes (s : String) : List UInt8 := s.toList.flatMap String.utf8EncodeChar

def toAsciiLowercase (s : String) : String := String.ofList (s.toList.map Char.toLower)

def toAsciiUppercase (s : String) : String := String.ofList (s.toList.map Char.toUpper)

def eqIgnoreAsciiCase (a b : String) : Bool := toAsciiLowercase a == toAsciiLowercase b

/-- `str::contains` for a character. -/
def contains (s : String) (c : Char) : Bool := s.toList.contains c

/-- `str::starts_with` for a character. -/
def startsWith (s : String) (c : Char) : Bool := s.toList.head? == some c

/-- `str::starts_with` for a string. -/
def startsWithStr (s start : String) : Bool := start.toList.isPrefixOf s.toList

/-- `str::ends_with` for a string. -/
def endsWith (s ending : String) : Bool := ending.toList.isSuffixOf s.toList

/-- `str::strip_prefix` for a character. -/
def stripChar (c : Char) (s : String) : Option String :=
  match s.toList with
  | d :: rest => if d = c then some (String.ofList rest) else none
  | [] => none

/-- `str::strip_prefix` for a string. -/
def stripStr (start s : String) : Option String :=
  if startsWithStr s start then some (String.ofList (s.toList.drop start.toList.length)) else none

/-- `slice::chunks`, with `acc` the chunk being filled. -/
def chunksFrom (n : Nat) (acc : List α) : List α → List (List α)
  | [] => if acc.isEmpty then [] else [acc]
  | a :: rest =>
    if acc.length + 1 ≥ n then (acc ++ [a]) :: chunksFrom n [] rest
    else chunksFrom n (acc ++ [a]) rest

def chunks (n : Nat) (l : List α) : List (List α) := chunksFrom n [] l

/-- `str::lines`: a carriage return before the end of a line belongs to it. -/
def lines (s : String) : List String :=
  let pieces := s.toList.splitOn '\n'
  let ended (l : List Char) := if l.getLast? = some '\r' then l.dropLast else l
  (pieces.dropLast.map ended ++ pieces.getLast?.toList.filter (!·.isEmpty)).map String.ofList

/-- `str::split_once` for a character. -/
def splitOnce (c : Char) (s : String) : Option (String × String) :=
  if contains s c then
    some (String.ofList (s.toList.takeWhile (· != c)),
      String.ofList ((s.toList.dropWhile (· != c)).drop 1))
  else none

/-- `str::parse` for an unsigned integer of so many bits: an optional sign and digits, in range. -/
def parseUnsigned (bits : Nat) (s : String) : Option Nat :=
  let digits := ((stripChar '+' s).getD s).toList
  if digits.isEmpty || !digits.all Char.isDigit then none
  else
    let value := digits.foldl (fun n c => 10 * n + (c.toNat - '0'.toNat)) 0
    if value < 2 ^ bits then some value else none

/-- `str::trim_start_matches` for a set of characters. -/
def trimStartMatches (p : Char → Bool) (s : String) : String := String.ofList (s.toList.dropWhile p)

/-- `str::trim_end_matches` for a set of characters. -/
def trimEndMatches (p : Char → Bool) (s : String) : String := String.ofList (s.toList.rdropWhile p)

def trimStart (s : String) : String := trimStartMatches isWhitespace s

/-- `str::trim_matches` for a set of characters. -/
def trimMatches (p : Char → Bool) (s : String) : String := trimEndMatches p (trimStartMatches p s)

def trim (s : String) : String := trimEndMatches isWhitespace (trimStartMatches isWhitespace s)

/-- `str::split` for a character. -/
def split (c : Char) (s : String) : List String := (s.toList.splitOn c).map String.ofList

/-- `str::split_whitespace`: the maximal runs of characters that are not white space. -/
def splitWhitespace (s : String) : List String :=
  ((s.toList.splitOnP isWhitespace).filter (!·.isEmpty)).map String.ofList

/-- `u8::is_ascii_whitespace` as `char`: space, tab, line feed, form feed, carriage return. -/
def isAsciiWhitespace (c : Char) : Bool :=
  c == ' ' || c == '\t' || c == '\n' || c.toNat == 0x0c || c == '\r'

def splitAsciiWhitespace (s : String) : List String :=
  ((s.toList.splitOnP isAsciiWhitespace).filter (!·.isEmpty)).map String.ofList

def join (sep : String) (l : List String) : String := sep.intercalate l

/-- `chars().take(n).collect()`: at most `n` characters. -/
def takeChars (n : Nat) (s : String) : String := String.ofList (s.toList.take n)

def takeBytesAux : Nat → List Char → List Char
  | _, [] => []
  | max, c :: cs => if c.utf8Size ≤ max then c :: takeBytesAux (max - c.utf8Size) cs else []

/-- `&text[..end]`, with `end` the last character boundary at or before `max`. -/
def takeBytes (max : Nat) (s : String) : String := String.ofList (takeBytesAux max s.toList)

theorem eqIgnoreAsciiCase_iff :
    eqIgnoreAsciiCase a b ↔ toAsciiLowercase a = toAsciiLowercase b := beq_iff_eq

theorem split_join (hsep : sep.toList = [c]) (hl : l ≠ [])
    (hc : ∀ s ∈ l, c ∉ s.toList) : split c (join sep l) = l := by
  have h : (join sep l).toList = [c].intercalate (l.map String.toList) := by
    rw [join, String.toList_intercalate, hsep]
  rw [split, h, splitOn_intercalate]
  · simp
  · simpa using hc
  · simpa using hl

theorem splitWhitespace_append_space :
    splitWhitespace (a ++ " " ++ b) = splitWhitespace a ++ splitWhitespace b := by
  have h : (a ++ " " ++ b).toList = a.toList ++ ' ' :: b.toList := by simp
  have hblank : isWhitespace ' ' := by decide
  simp only [splitWhitespace, h, splitOnP_append_cons _ _ hblank, filter_append,
    map_append]

theorem splitOnP_intercalate (hsep : p sep) {l : List (List α)} (hl : l ≠ [])
    (h : ∀ w ∈ l, ∀ a ∈ w, p a = false) : ([sep].intercalate l).splitOnP p = l := by
  induction l with
  | nil => exact absurd rfl hl
  | cons w l ih =>
    have hw : w.splitOnP p = [w] := splitOnP_eq_singleton fun a ha => by
      simpa using h w mem_cons_self a ha
    cases l with
    | nil => simpa using hw
    | cons w' l =>
      have hrest := ih (by simp) fun v hv => h v (mem_cons_of_mem _ hv)
      have hcons : [sep].intercalate (w :: w' :: l) = w ++ sep :: [sep].intercalate (w' :: l) := by
        simp
      rw [hcons, splitOnP_append_cons _ _ hsep, hw, hrest]
      rfl

theorem forall_mem_splitOnP {l w : List α} (h : w ∈ l.splitOnP p) :
    ∀ a ∈ w, p a = false ∧ a ∈ l := by
  induction l generalizing w with
  | nil =>
    simp only [splitOnP_nil, mem_singleton] at h
    simp [h]
  | cons x xs ih =>
    rw [splitOnP_cons_eq_if_modifyHead] at h
    split at h
    next =>
      rcases mem_cons.1 h with rfl | h
      · simp
      · exact fun a ha => (ih h a ha).imp_right (mem_cons_of_mem _)
    next hx =>
      cases hs : xs.splitOnP p with
      | nil => exact absurd hs (splitOnP_ne_nil _ _)
      | cons w' ws =>
        rw [hs] at h ih
        rcases mem_cons.1 h with rfl | h
        · intro a ha
          rcases mem_cons.1 ha with rfl | ha
          · simpa using hx
          · exact (ih mem_cons_self a ha).imp_right (mem_cons_of_mem _)
        · exact fun a ha => (ih (mem_cons_of_mem _ h) a ha).imp_right (mem_cons_of_mem _)

theorem of_mem_splitWhitespace (h : w ∈ splitWhitespace s) (hc : c ∈ w.toList) :
    isWhitespace c = false ∧ c ∈ s.toList := by
  obtain ⟨l, hl, rfl⟩ := mem_map.1 h
  rw [String.toList_ofList] at hc
  exact forall_mem_splitOnP (mem_of_mem_filter hl) c hc

theorem mem_join (h : c ∈ (join sep l).toList) : c ∈ sep.toList ∨ ∃ w ∈ l, c ∈ w.toList := by
  rw [join, String.toList_intercalate, List.intercalate] at h
  induction l with
  | nil => simp at h
  | cons w l ih => cases l with
    | nil => exact .inr ⟨w, mem_cons_self, by simpa using h⟩
    | cons w' l =>
      simp only [map_cons, intersperse_cons_cons, flatten_cons, mem_append] at h
      rcases h with h | h | h
      · exact .inr ⟨w, mem_cons_self, h⟩
      · exact .inl h
      · exact (ih h).imp_right fun ⟨v, hv, hc⟩ => ⟨v, mem_cons_of_mem _ hv, hc⟩

theorem splitWhitespace_join (h : ∀ w ∈ l, w ≠ "" ∧ ∀ c ∈ w.toList, isWhitespace c = false) :
    splitWhitespace (join " " l) = l := by
  by_cases hl : l = []
  · subst hl
    decide
  have hlist : (join " " l).toList = [' '].intercalate (l.map String.toList) := by
    rw [join, String.toList_intercalate]
    rfl
  have hwords : ∀ w ∈ l.map String.toList, ∀ c ∈ w, isWhitespace c = false := by
    intro w hw
    obtain ⟨v, hv, rfl⟩ := mem_map.1 hw
    exact (h v hv).2
  have hne : (l.map String.toList).filter (!·.isEmpty) = l.map String.toList := by
    rw [filter_eq_self]
    intro w hw
    obtain ⟨v, hv, rfl⟩ := mem_map.1 hw
    simpa using (h v hv).1
  rw [splitWhitespace, hlist, splitOnP_intercalate (by decide) (by simpa using hl) hwords, hne]
  simp

@[simp] theorem splitWhitespace_empty : splitWhitespace "" = [] := by decide

theorem bytes_inj (h : bytes s = bytes t) : s = t := by
  have hbytes (s : String) : s.toByteArray = (bytes s).toByteArray := by
    conv_lhs => rw [← String.ofList_toList (s := s)]
    rfl
  rw [← String.toByteArray_inj, hbytes, hbytes, h]

theorem toList_toString : (toString n).toList = Nat.toDigits 10 n := by
  rw [show toString n = String.ofList (Nat.toDigits 10 n) from Nat.repr_eq_ofList_toDigits,
    String.toList_ofList]

theorem isDigit_of_mem_toString {n : Nat} {c : Char} (h : c ∈ (toString n).toList) :
    c.isDigit := by
  rw [toList_toString] at h
  exact Nat.isDigit_of_mem_toDigits (by decide) (by decide) h

/-- A number at the end is told from what stands before it. -/
theorem append_toString_inj {a b : List Char} {sep : Char} {n m : Nat} (hsep : sep.isDigit = false)
    (h : a ++ sep :: (toString n).toList = b ++ sep :: (toString m).toList) : a = b ∧ n = m := by
  have htake (a : List Char) (n : Nat) :
      (a ++ sep :: (toString n).toList).reverse.takeWhile Char.isDigit =
        (toString n).toList.reverse := by
    rw [reverse_append, reverse_cons, append_assoc,
      takeWhile_append_of_pos fun c hc => isDigit_of_mem_toString (mem_reverse.1 hc)]
    simp [hsep]
  have hdigits := congrArg (fun l => l.reverse.takeWhile Char.isDigit) h
  simp only [htake, reverse_inj] at hdigits
  rw [hdigits] at h
  refine ⟨append_cancel_right h, ?_⟩
  rw [toList_toString, toList_toString] at hdigits
  rw [← Nat.ofDigitChars_toDigits (n := n) (b := 10) (by decide) (by decide), hdigits,
    Nat.ofDigitChars_toDigits (by decide) (by decide)]

theorem len_ofList {l : List Char} (h : ∀ c ∈ l, c.utf8Size = k) :
    len (String.ofList l) = l.length * k := by
  induction l with
  | nil => simp [len]
  | cons c l ih =>
    obtain ⟨hc, hl⟩ := forall_mem_cons.1 h
    rw [String.ofList_cons, len, String.utf8ByteSize_append, String.utf8ByteSize_singleton, hc,
      length_cons, Nat.succ_mul, Nat.add_comm]
    exact congrArg (· + k) (ih hl)

theorem rdropWhile_append (l : List α) (hx : p x = false) (m : List α) :
    (l ++ [x] ++ m).rdropWhile p = l ++ [x] ++ m.rdropWhile p := by
  induction m using List.reverseRecOn with
  | nil => rw [append_nil, rdropWhile_concat_neg _ _ _ (by simp [hx]), rdropWhile_nil,
      append_nil]
  | append_singleton m y ih =>
    rw [← append_assoc]
    cases hy : p y with
    | false => rw [rdropWhile_concat_neg _ _ _ (by simp [hy]),
        rdropWhile_concat_neg _ _ _ (by simp [hy]), append_assoc]
    | true => rw [rdropWhile_concat_pos _ _ _ hy, rdropWhile_concat_pos _ _ _ hy, ih]

/-- A lower case letter has no lower case of its own. -/
theorem toLower_toLower (c : Char) : c.toLower.toLower = c.toLower := by
  by_cases h : c.val ≥ 'A'.val ∧ c.val ≤ 'Z'.val
  · have hlow : ¬ (c.toLower.val ≥ 'A'.val ∧ c.toLower.val ≤ 'Z'.val) := by
      delta Char.toLower
      rw [dif_pos h]
      simp only [UInt32.le_iff_toNat_le] at h ⊢
      rw [UInt32.toNat_add]
      have : 'A'.val.toNat = 65 := rfl
      have : 'Z'.val.toNat = 90 := rfl
      have : ('a'.val - 'A'.val).toNat = 32 := rfl
      omega
    exact dif_neg hlow
  · have hc : c.toLower = c := dif_neg h
    rw [hc, hc]

end Ddirc.Str
