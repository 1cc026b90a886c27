import Mathlib.Data.List.Basic

/-! # In-band formatting codes

`text/format.rs`: a line with mIRC codes is read into styled spans, and spans are written back as
codes. The reader keeps the spans closed so far, the run being collected and the running style. -/

namespace Ddirc.Text
variable {l rest : List Char}

/-- Styling carried by a run of text. Colours are mIRC indices. -/
structure SpanStyle where
  bold : Bool := false
  italic : Bool := false
  underline : Bool := false
  strikethrough : Bool := false
  monospace : Bool := false
  inverse : Bool := false
  fg : Option Nat := none
  bg : Option Nat := none
  deriving Repr, DecidableEq

structure TextSpan where
  text : String
  style : SpanStyle
  deriving Repr, DecidableEq

/-! ## The codes -/

/-- The formatting control characters. -/
inductive Code where
  | bold
  | color
  | hexColor
  | reset
  | monospace
  | inverse
  | italic
  | strikethrough
  | underline
  deriving Repr, DecidableEq

def Code.char : Code → Char
  | .bold => '\x02'
  | .color => '\x03'
  | .hexColor => '\x04'
  | .reset => '\x0f'
  | .monospace => '\x11'
  | .inverse => '\x16'
  | .italic => '\x1d'
  | .strikethrough => '\x1e'
  | .underline => '\x1f'

def Code.ofChar (c : Char) : Option Code :=
  [bold, color, hexColor, reset, monospace, inverse, italic, strikethrough, underline].find?
    (·.char = c)

/-- Characters that must never reach the user interface as text: C0 and DEL. -/
def isForbidden (c : Char) : Bool := c.toNat < 0x20 || c == '\x7f'

/-! ## Reading -/

/-- `take_digits`: one or two ASCII digits. The `min` of the source never acts. -/
def takeDigits : List Char → Option (Nat × List Char)
  | c :: d :: rest =>
    if c.isDigit then
      if d.isDigit then some ((c.toNat - 48) * 10 + (d.toNat - 48), rest)
      else some (c.toNat - 48, d :: rest)
    else none
  | [c] => if c.isDigit then some (c.toNat - 48, []) else none
  | [] => none

/-- `take_color`: an optional `NN[,NN]`. A comma separates only when digits follow it. -/
def takeColor (l : List Char) : (Option Nat × Option Nat) × List Char :=
  match takeDigits l with
  | none => ((none, none), l)
  | some (fg, ',' :: rest) =>
    match takeDigits rest with
    | some (bg, rest) => ((some fg, some bg), rest)
    | none => ((some fg, none), ',' :: rest)
  | some (fg, rest) => ((some fg, none), rest)

def isHexDigit (c : Char) : Bool :=
  c.isDigit || ('a' ≤ c && c ≤ 'f') || ('A' ≤ c && c ≤ 'F')

def takeSix (l : List Char) : Option (List Char) :=
  if (l.take 6).length = 6 ∧ (l.take 6).all isHexDigit then some (l.drop 6) else none

/-- `take_hex_color`: an optional `RRGGBB[,RRGGBB]`. -/
def takeHexColor (l : List Char) : List Char :=
  match takeSix l with
  | none => l
  | some (',' :: rest) => (takeSix rest).getD (',' :: rest)
  | some rest => rest

/-- What a code does to the running style, and what is left to read after its payload. -/
def Code.apply (style : SpanStyle) (rest : List Char) : Code → SpanStyle × List Char
  | .bold => ({ style with bold := !style.bold }, rest)
  | .italic => ({ style with italic := !style.italic }, rest)
  | .underline => ({ style with underline := !style.underline }, rest)
  | .strikethrough => ({ style with strikethrough := !style.strikethrough }, rest)
  | .monospace => ({ style with monospace := !style.monospace }, rest)
  | .inverse => ({ style with inverse := !style.inverse }, rest)
  | .reset => ({}, rest)
  | .color =>
    let ((fg, bg), rest) := takeColor rest
    ({ style with fg, bg }, rest)
  | .hexColor => ({ style with fg := none, bg := none }, takeHexColor rest)

/-- Close the pending run, merging it into the last span if the styles match. -/
def flush (spans : List TextSpan) (buf : List Char) (style : SpanStyle) : List TextSpan :=
  if buf.isEmpty then spans
  else
    match spans.getLast? with
    | some last =>
      if last.style = style then
        spans.dropLast ++ [{ last with text := last.text ++ String.ofList buf }]
      else spans ++ [⟨String.ofList buf, style⟩]
    | none => [⟨String.ofList buf, style⟩]

theorem takeDigits_length (h : takeDigits l = some (n, rest)) : rest.length < l.length := by
  unfold takeDigits at h
  split at h
  next c d tail =>
    split at h
    · split at h
      · cases h; simp only [List.length_cons]; omega
      · cases h; simp
    · cases h
  next c =>
    split at h
    · cases h; simp
    · cases h
  · cases h

theorem takeColor_length (l : List Char) : (takeColor l).2.length ≤ l.length := by
  unfold takeColor
  split
  · exact Nat.le_refl _
  next fg rest h =>
    have hfg := takeDigits_length h
    split
    next bg rest' hbg =>
      have := takeDigits_length hbg
      simp at hfg ⊢
      omega
    next => exact Nat.le_of_lt hfg
  next fg rest _ h => exact Nat.le_of_lt (takeDigits_length h)

theorem takeSix_length (h : takeSix l = some rest) : rest.length ≤ l.length := by
  unfold takeSix at h
  split at h
  · cases h; simp
  · cases h

theorem takeHexColor_length (l : List Char) : (takeHexColor l).length ≤ l.length := by
  unfold takeHexColor
  split
  · exact Nat.le_refl _
  next rest h =>
    have hsix := takeSix_length h
    cases hnext : takeSix rest with
    | none => exact hsix
    | some rest' =>
      have := takeSix_length hnext
      simp at hsix ⊢
      omega
  next rest _ h => exact takeSix_length h

theorem Code.apply_length (style : SpanStyle) (rest : List Char) (code : Code) :
    (code.apply style rest).2.length ≤ rest.length := by
  cases code with
  | color => exact takeColor_length rest
  | hexColor => exact takeHexColor_length rest
  | _ => exact Nat.le_refl _

/-- The loop of `parse`, on what is left to read. -/
def parseFrom (spans : List TextSpan) (buf : List Char) (style : SpanStyle) :
    List Char → List TextSpan
  | [] => flush spans buf style
  | c :: rest =>
    match Code.ofChar c with
    | some code =>
      -- every code closes the current run before it takes effect
      parseFrom (flush spans buf style) [] (code.apply style rest).1 (code.apply style rest).2
    | none =>
      if isForbidden c then parseFrom spans buf style rest
      else parseFrom spans (buf ++ [c]) style rest
termination_by l => l.length
decreasing_by
  · have := Code.apply_length style rest code
    simp only [List.length_cons]
    omega
  · simp
  · simp

def parse (input : String) : List TextSpan := parseFrom [] [] {} input.toList

def strip (input : String) : String := String.join ((parse input).map (·.text))

/-! ## Writing -/

/-- `format!("{n:02}")`. -/
def twoDigits (n : Nat) : List Char :=
  let digits := Nat.toDigits 10 n
  if digits.length < 2 then '0' :: digits else digits

/-- Whether a text starts with what `takeColor` would take for a background. -/
def opensLikeABackground : List Char → Bool
  | ',' :: c :: _ => c.isDigit
  | _ => false

def encodeFlag (on : Bool) (code : Code) : List Char := if on then [code.char] else []

/-- The colours of a style, before `text`. -/
def encodeColor (style : SpanStyle) (text : List Char) : List Char :=
  match style.fg, style.bg with
  | none, _ => []
  | some fg, some bg => Code.color.char :: (twoDigits fg ++ (',' :: twoDigits bg))
  | some fg, none =>
    -- two toggles cancel out and end the colour's payload
    Code.color.char :: (twoDigits fg ++
      if opensLikeABackground text then [Code.bold.char, Code.bold.char] else [])

/-- One span: a reset, its style in full, and its text. -/
def encodeSpan (span : TextSpan) : List Char :=
  let style := span.style
  Code.reset.char :: (encodeFlag style.bold .bold ++ encodeFlag style.italic .italic ++
    encodeFlag style.underline .underline ++ encodeFlag style.strikethrough .strikethrough ++
    encodeFlag style.monospace .monospace ++ encodeFlag style.inverse .inverse ++
    encodeColor style span.text.toList ++ span.text.toList)

def encode (spans : List TextSpan) : String := String.ofList (spans.flatMap encodeSpan)

end Ddirc.Text
