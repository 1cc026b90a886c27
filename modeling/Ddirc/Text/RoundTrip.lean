import Mathlib.Data.List.Chain
import Ddirc.Text.Format
import Mathlib.Data.List.DropRight

/-! # Reading back what was written

What `parse` gives is in a normal form (`Normal`), and `parse` recovers every list of spans in that
form from its encoding. The second goes by where reading one encoded span takes the
reader (`parseFrom_encodeSpan`). -/

namespace Ddirc.Text
open List
variable {style : SpanStyle} {spans : List TextSpan} {buf : List Char} {span : TextSpan}
  {rest : List Char}

/-- Colours are at most 99, and a background stands only with a foreground. -/
def SpanStyle.Normal (style : SpanStyle) : Prop :=
  (∀ n ∈ style.fg, n ≤ 99) ∧ (∀ n ∈ style.bg, n ≤ 99) ∧ (style.bg.isSome → style.fg.isSome)

instance (style : SpanStyle) : Decidable style.Normal := by
  unfold SpanStyle.Normal
  infer_instance

/-- The text is not empty and has no control characters. -/
def TextSpan.Normal (span : TextSpan) : Prop :=
  span.text ≠ "" ∧ (span.text.toList.all fun c => !isForbidden c) = true ∧ span.style.Normal

instance (span : TextSpan) : Decidable span.Normal := by
  unfold TextSpan.Normal
  infer_instance

/-- Every span is in normal form, and neighbours differ in style. -/
structure Normal (spans : List TextSpan) : Prop where
  each : ∀ span ∈ spans, span.Normal
  apart : (spans.map (·.style)).IsChain (· ≠ ·)

/-! ## What reading gives -/

theorem isDigit_le {c : Char} (h : c.isDigit) : c.toNat - 48 ≤ 9 := by
  simp only [Char.isDigit, Bool.and_eq_true, decide_eq_true_eq] at h
  have : c.val.toNat ≤ 57 := UInt32.le_iff_toNat_le.1 h.2
  have hval : c.toNat = c.val.toNat := rfl
  omega

theorem takeDigits_le (h : takeDigits l = some (n, rest)) : n ≤ 99 := by
  unfold takeDigits at h
  split at h
  next c d tail =>
    split at h
    next hc =>
      have := isDigit_le hc
      split at h
      next hd =>
        have := isDigit_le hd
        cases h
        omega
      · cases h
        omega
    · cases h
  next c =>
    split at h
    next hc =>
      have := isDigit_le hc
      cases h
      omega
    · cases h
  · cases h

theorem Code.apply_normal (h : style.Normal) (rest : List Char) (code : Code) :
    (code.apply style rest).1.Normal := by
  cases code with
  | reset => simp [Code.apply, SpanStyle.Normal]
  | hexColor => simp [Code.apply, SpanStyle.Normal]
  | color =>
    simp only [Code.apply, takeColor, SpanStyle.Normal]
    split
    · simp
    next fg tail hfg =>
      have hfg := takeDigits_le hfg
      split
      next bg _ hbg =>
        have hbg := takeDigits_le hbg
        simp [hfg, hbg]
      · simp [hfg]
    next fg tail _ hfg =>
      have hfg := takeDigits_le hfg
      simp [hfg]
  | _ => exact h

theorem flush_normal (h : Normal spans) (hbuf : (buf.all fun c => !isForbidden c))
    (hstyle : style.Normal) : Normal (flush spans buf style) := by
  unfold flush
  split
  · exact h
  next hne =>
    have htext : ∀ s : String, s ++ String.ofList buf ≠ "" := by
      intro s hs
      have := congrArg String.toList hs
      simp at this
      exact hne (by simp [this.2])
    have hown : TextSpan.Normal ⟨String.ofList buf, style⟩ :=
      ⟨by simpa using htext "", by simpa using hbuf, hstyle⟩
    split
    next last hlast =>
      have hsplit : spans = spans.dropLast ++ [last] := (dropLast_append_getLast? last hlast).symm
      have hmem : last ∈ spans := mem_of_getLast? hlast
      split
      · constructor
        · intro span hspan
          rcases mem_append.1 hspan with hspan | hspan
          · exact h.each span (dropLast_subset _ hspan)
          · rw [mem_singleton.1 hspan]
            obtain ⟨-, hchars, hst⟩ := h.each last hmem
            exact ⟨htext _, by simp [hchars, hbuf], hst⟩
        · -- the styles are what they were
          have := h.apart
          rw [hsplit] at this
          simpa using this
      next hstyles =>
        constructor
        · intro span hspan
          rcases mem_append.1 hspan with hspan | hspan
          · exact h.each span hspan
          · rw [mem_singleton.1 hspan]
            exact hown
        · rw [map_append, isChain_append]
          refine ⟨h.apart, by simp, ?_⟩
          simp [hlast, hstyles]
    next hlast =>
      exact ⟨by simpa using hown, by simp⟩

theorem parseFrom_normal (h : Normal spans) (hbuf : (buf.all fun c => !isForbidden c))
    (hstyle : style.Normal) : Normal (parseFrom spans buf style l) := by
  induction spans, buf, style, l using parseFrom.induct with
  | case1 spans buf style =>
    rw [parseFrom]
    exact flush_normal h hbuf hstyle
  | case2 spans buf style c rest code hcode ih =>
    rw [parseFrom, hcode]
    exact ih (flush_normal h hbuf hstyle) rfl (code.apply_normal hstyle rest)
  | case3 spans buf style c rest hcode hbad ih =>
    rw [parseFrom, hcode]
    simp only [hbad]
    exact ih h hbuf hstyle
  | case4 spans buf style c rest hcode hgood ih =>
    rw [parseFrom, hcode]
    simp only [hgood]
    exact ih h (by simp [hbuf, hgood]) hstyle

theorem parse_normal (input : String) : Normal (parse input) :=
  parseFrom_normal ⟨by simp, by simp⟩ rfl (by simp [SpanStyle.Normal])

/-! ## Where reading takes the state -/

theorem Code.ofChar_char : Code.ofChar code.char = some code := by
  cases code <;> decide

theorem ofChar_eq_none (h : isForbidden c = false) : Code.ofChar c = none := by
  rw [Code.ofChar, List.find?_eq_none]
  intro code _ heq
  have hcode : isForbidden code.char := by cases code <;> decide
  rw [of_decide_eq_true heq, h] at hcode
  cases hcode

theorem parseFrom_code (spans : List TextSpan) (buf : List Char) (style : SpanStyle) (code : Code)
    (rest : List Char) : parseFrom spans buf style (code.char :: rest) =
      parseFrom (flush spans buf style) [] (code.apply style rest).1 (code.apply style rest).2 := by
  rw [parseFrom, code.ofChar_char]

theorem parseFrom_toggle {code : Code} {f : SpanStyle → SpanStyle}
    (hcode : ∀ style rest, code.apply style rest = (f style, rest)) (spans : List TextSpan)
    (style : SpanStyle) (on : Bool) (rest : List Char) :
    parseFrom spans [] style (encodeFlag on code ++ rest) =
      parseFrom spans [] (if on then f style else style) rest := by
  cases on with
  | false => rfl
  | true =>
    rw [encodeFlag, if_pos rfl, cons_append, parseFrom_code, hcode]
    rfl

theorem parseFrom_text (h : (text.all fun c => !isForbidden c)) (spans : List TextSpan)
    (buf : List Char) (style : SpanStyle) (rest : List Char) :
    parseFrom spans buf style (text ++ rest) = parseFrom spans (buf ++ text) style rest := by
  induction text generalizing buf with
  | nil => simp
  | cons c text ih =>
    simp only [all_cons, Bool.and_eq_true, Bool.not_eq_true'] at h
    rw [cons_append, parseFrom, ofChar_eq_none h.1]
    simp only [h.1, Bool.false_eq_true, if_false]
    rw [ih h.2, append_assoc, singleton_append]

/-! ## Colours -/

theorem takeDigits_twoDigits (h : n ≤ 99) (rest : List Char) :
    takeDigits (twoDigits n ++ rest) = some (n, rest) := by
  have hdigits : ∀ n < 100, twoDigits n = [Nat.digitChar (n / 10), Nat.digitChar (n % 10)] := by
    decide
  have hval : ∀ d < 10, (Nat.digitChar d).isDigit ∧ (Nat.digitChar d).toNat - 48 = d := by
    decide
  obtain ⟨htens, htensVal⟩ := hval (n / 10) (by omega)
  obtain ⟨hones, honesVal⟩ := hval (n % 10) (by omega)
  rw [hdigits n (by omega)]
  simp only [cons_append, nil_append, takeDigits, htens, hones, if_true, Option.some.injEq,
    Prod.mk.injEq, and_true]
  omega

/-- After a foreground alone, what follows is not taken for a background. -/
theorem takeColor_foreground (h : n ≤ 99) (ht : ∀ rest, t = ',' :: rest → takeDigits rest = none) :
    takeColor (twoDigits n ++ t) = ((some n, none), t) := by
  unfold takeColor
  rw [takeDigits_twoDigits h]
  split
  next heq => cases heq
  next fg rest heq =>
    cases heq
    rw [ht rest rfl]
  next fg rest _ heq =>
    cases heq
    rfl

theorem takeColor_background (h : n ≤ 99) (h' : m ≤ 99) (tail : List Char) :
    takeColor (twoDigits n ++ (',' :: twoDigits m ++ tail)) = ((some n, some m), tail) := by
  simp only [takeColor, cons_append, takeDigits_twoDigits h, takeDigits_twoDigits h']

/-- A text that does not open like a background is not read as one, whatever code follows it. -/
theorem takeDigits_of_opens {text rest tail : List Char} (hne : text ≠ [])
    (hopens : opensLikeABackground text = false) (hrest : ∀ c ∈ rest.head?, c.isDigit = false)
    (h : text ++ rest = ',' :: tail) : takeDigits tail = none := by
  match text, hne with
  | [c], _ =>
    obtain ⟨-, rfl⟩ : c = ',' ∧ rest = tail := by simpa using h
    match rest with
    | [] => rfl
    | d :: [] => simp [takeDigits, hrest d (by simp)]
    | d :: _ :: _ => simp [takeDigits, hrest d (by simp)]
  | c :: d :: text, _ =>
    obtain ⟨rfl, rfl⟩ : c = ',' ∧ d :: (text ++ rest) = tail := by simpa using h
    have hd : d.isDigit = false := hopens
    match text ++ rest with
    | [] => simp [takeDigits, hd]
    | _ :: _ => simp [takeDigits, hd]

def SpanStyle.uncoloured (style : SpanStyle) : SpanStyle := { style with fg := none, bg := none }

theorem parseFrom_color (h : span.Normal) (spans : List TextSpan)
    (hrest : ∀ c ∈ rest.head?, c.isDigit = false) :
    parseFrom spans [] span.style.uncoloured
      (encodeColor span.style span.text.toList ++ (span.text.toList ++ rest)) =
      parseFrom spans [] span.style (span.text.toList ++ rest) := by
  obtain ⟨hne, -, hfg, hbg, hboth⟩ := h
  have hne : span.text.toList ≠ [] := fun h => hne (String.toList_eq_nil_iff.1 h)
  obtain ⟨text, ⟨bold, italic, underline, strikethrough, monospace, inverse, fg, bg⟩⟩ := span
  simp only [SpanStyle.uncoloured] at *
  cases fg with
  | none =>
    cases bg with
    | none => rfl
    | some bg => cases hboth rfl
  | some fg =>
    have hfg : fg ≤ 99 := hfg fg rfl
    cases bg with
    | some bg =>
      simp only [encodeColor, cons_append, append_assoc]
      have htake := takeColor_background hfg (hbg bg rfl) (text.toList ++ rest)
      rw [cons_append] at htake
      rw [parseFrom_code]
      simp only [Code.apply, htake]
      rfl
    | none =>
      simp only [encodeColor, cons_append, append_assoc]
      rw [parseFrom_code]
      split
      next hopens =>
        -- two toggles of bold stand between the colour and the comma
        have htake := takeColor_foreground hfg
          (t := Code.bold.char :: Code.bold.char :: (text.toList ++ rest))
          (fun _ h => absurd (List.cons.inj h).1 (by decide))
        simp only [cons_append, nil_append, Code.apply, htake]
        rw [parseFrom_code, Code.apply, parseFrom_code, Code.apply]
        simp only [Bool.not_not]
        rfl
      next hopens =>
        have htake := takeColor_foreground hfg fun tail htail =>
          takeDigits_of_opens hne (by simpa using hopens) hrest htail
        simp only [nil_append, Code.apply, htake]
        rfl

/-- Reading an encoded span closes the run before it and collects its text in its style. -/
theorem parseFrom_encodeSpan (h : span.Normal) (spans : List TextSpan) (buf : List Char)
    (style : SpanStyle) (hrest : ∀ c ∈ rest.head?, c.isDigit = false) :
    parseFrom spans buf style (encodeSpan span ++ rest) =
      parseFrom (flush spans buf style) span.text.toList span.style rest := by
  have hcolor := parseFrom_color h (flush spans buf style) hrest
  have htext := parseFrom_text h.2.1 (flush spans buf style) [] span.style rest
  obtain ⟨text, ⟨bold, italic, underline, strikethrough, monospace, inverse, fg, bg⟩⟩ := span
  simp only [encodeSpan, cons_append, append_assoc]
  refine (parseFrom_code spans buf style .reset _).trans ?_
  refine (parseFrom_toggle (f := fun s => { s with bold := !s.bold }) (fun _ _ => rfl) ..).trans ?_
  refine (parseFrom_toggle (f := fun s => { s with italic := !s.italic })
    (fun _ _ => rfl) ..).trans ?_
  refine (parseFrom_toggle (f := fun s => { s with underline := !s.underline })
    (fun _ _ => rfl) ..).trans ?_
  refine (parseFrom_toggle (f := fun s => { s with strikethrough := !s.strikethrough })
    (fun _ _ => rfl) ..).trans ?_
  refine (parseFrom_toggle (f := fun s => { s with monospace := !s.monospace })
    (fun _ _ => rfl) ..).trans ?_
  refine (parseFrom_toggle (f := fun s => { s with inverse := !s.inverse })
    (fun _ _ => rfl) ..).trans ?_
  refine Eq.trans ?_ (hcolor.trans htext)
  congr 1
  -- from a plain style, each toggle sets its flag
  cases bold <;> cases italic <;> cases underline <;> cases strikethrough <;> cases monospace <;>
    cases inverse <;> rfl

theorem head?_encode (spans : List TextSpan) :
    ∀ c ∈ (spans.flatMap encodeSpan).head?, c.isDigit = false := by
  cases spans with
  | nil => simp
  | cons span spans =>
    intro c hc
    simp only [flatMap_cons, encodeSpan, cons_append, List.head?_cons, Option.mem_def,
      Option.some.injEq] at hc
    subst hc
    decide

/-- A run whose style differs from the last span's becomes a span. -/
theorem flush_apart (hne : span.text ≠ "")
    (h : ∀ style ∈ (spans.map (·.style)).getLast?, style ≠ span.style) :
    flush spans span.text.toList span.style = spans ++ [span] := by
  have hne : span.text.toList.isEmpty = false := by
    rw [isEmpty_eq_false_iff]
    exact fun h => hne (String.toList_eq_nil_iff.1 h)
  simp only [flush, hne, Bool.false_eq_true, if_false, String.ofList_toList]
  split
  next last hlast =>
    rw [if_neg]
    exact h last.style (by simp [hlast])
  next hlast =>
    rw [List.getLast?_eq_none_iff.1 hlast]
    rfl

/-- With one span read but not closed, the rest of the encoding gives it and the rest of the
spans. -/
theorem parseFrom_encode {rest : List TextSpan} (done : List TextSpan) (h : Normal (span :: rest))
    (hlast : ∀ style ∈ (done.map (·.style)).getLast?, style ≠ span.style) :
    parseFrom done span.text.toList span.style (rest.flatMap encodeSpan) =
      done ++ span :: rest := by
  induction rest generalizing done span with
  | nil =>
    rw [flatMap_nil, parseFrom]
    exact flush_apart (h.each span mem_cons_self).1 hlast
  | cons next rest ih =>
    have happart := h.apart
    rw [map_cons, map_cons, isChain_cons_cons] at happart
    rw [flatMap_cons, parseFrom_encodeSpan (h.each next (by simp)) _ _ _ (head?_encode rest),
      flush_apart (h.each span mem_cons_self).1 hlast, ih (done ++ [span])]
    · simp
    · exact ⟨fun s hs => h.each s (mem_cons_of_mem _ hs), happart.2⟩
    · simpa using happart.1

theorem parse_encode (h : Normal spans) : parse (encode spans) = spans := by
  unfold parse encode
  rw [String.toList_ofList]
  cases spans with
  | nil => rw [flatMap_nil, parseFrom]; rfl
  | cons span rest =>
    rw [flatMap_cons,
      parseFrom_encodeSpan (h.each span mem_cons_self) _ _ _ (head?_encode rest)]
    exact parseFrom_encode [] h (by simp)

/-- What is stored as codes is read back as it was shown: every list of spans in normal form is
recovered from its encoding, and what is shown is always in normal form. -/
theorem format_round_trip :
    (∀ x, parse (encode (parse x)) = parse x) ∧
    (∀ spans, Normal spans → parse (encode spans) = spans) ∧ ∀ x, Normal (parse x) :=
  ⟨fun x => parse_encode (parse_normal x), fun _ => parse_encode, parse_normal⟩

/-- A colour before a comma and a digit, and a style that ends it. -/
theorem format_round_trip_comma :
    Normal [⟨",5 past", { fg := some 4 }⟩,
      ⟨"midnight", { bold := true, fg := some 4, bg := some 1 }⟩] ∧
    parse (encode
      [⟨",5 past", { fg := some 4 }⟩, ⟨"midnight", { bold := true, fg := some 4, bg := some 1 }⟩]) =
      [⟨",5 past", { fg := some 4 }⟩,
        ⟨"midnight", { bold := true, fg := some 4, bg := some 1 }⟩] := by
  have h : Normal [⟨",5 past", { fg := some 4 }⟩,
      ⟨"midnight", { bold := true, fg := some 4, bg := some 1 }⟩] := ⟨by decide, by decide⟩
  exact ⟨h, format_round_trip.2.1 _ h⟩

/-- A text without control characters is left alone, and what is left of any text is one. -/
theorem strip_eq_self_iff (s : String) :
    (strip s = s ↔ (s.toList.all fun c => !isForbidden c)) ∧ strip (strip s) = strip s := by
  have hplain (s : String) : ((strip s).toList.all fun c => !isForbidden c) := by
    rw [strip, String.toList_join, all_flatMap, all_map, all_eq_true]
    exact fun span hspan => ((parse_normal s).each span hspan).2.1
  have hself (s : String) (h : (s.toList.all fun c => !isForbidden c)) : strip s = s := by
    have hparse := parseFrom_text h [] [] {} []
    rw [append_nil, nil_append, parseFrom, flush] at hparse
    rw [strip, parse, hparse]
    split <;> simp_all
  exact ⟨⟨fun h => h ▸ hplain s, hself s⟩, hself _ (hplain s)⟩

/-! ## Control characters at the end of a line -/

section
variable {x : Char} (hx : isForbidden x = true)
include hx

theorem isHexDigit_of_isForbidden : isHexDigit x = false := by
  have hval : x.toNat < 0x20 ∨ x.toNat = 0x7f := by
    simp only [isForbidden, Bool.or_eq_true, decide_eq_true_eq, beq_iff_eq] at hx
    exact hx.imp_right fun h : x = '\x7f' => congrArg Char.toNat h
  have hlow (c d : Char) (hc : 0x20 ≤ c.toNat) (hd : d.toNat < 0x7f) :
      (decide (c ≤ x) && decide (x ≤ d)) = false := by
    rw [Bool.and_eq_false_iff, decide_eq_false_iff_not, decide_eq_false_iff_not]
    rcases hval with hval | hval
    · exact .inl fun h => absurd (UInt32.le_iff_toNat_le.1 h) (by change ¬c.toNat ≤ x.toNat; omega)
    · exact .inr fun h => absurd (UInt32.le_iff_toNat_le.1 h) (by change ¬x.toNat ≤ d.toNat; omega)
  have hdigit : x.isDigit = false := hlow '0' '9' (by decide) (by decide)
  rw [isHexDigit, hdigit, hlow 'a' 'f' (by decide) (by decide),
    hlow 'A' 'F' (by decide) (by decide)]
  rfl

theorem isDigit_of_isForbidden : x.isDigit = false := by
  have h := isHexDigit_of_isForbidden hx
  rw [isHexDigit, Bool.or_eq_false_iff, Bool.or_eq_false_iff] at h
  exact h.1.1

theorem takeDigits_concat (l : List Char) :
    takeDigits (l ++ [x]) = (takeDigits l).map fun r => (r.1, r.2 ++ [x]) := by
  have hdigit := isDigit_of_isForbidden hx
  match l with
  | [] => simp [takeDigits, hdigit]
  | [c] => cases hc : c.isDigit <;> simp [takeDigits, hdigit]
  | c :: d :: rest => cases hc : c.isDigit <;> cases hd : d.isDigit <;> simp [takeDigits, hd]

theorem takeColor_concat (l : List Char) :
    takeColor (l ++ [x]) = ((takeColor l).1, (takeColor l).2 ++ [x]) := by
  have hcomma : x ≠ ',' := by
    rintro rfl
    cases hx
  unfold takeColor
  rw [takeDigits_concat hx]
  match takeDigits l with
  | none => rfl
  | some (fg, []) => simp [hcomma]
  | some (fg, c :: rest) =>
    by_cases hc : c = ','
    · subst hc
      simp only [Option.map_some, cons_append, takeDigits_concat hx]
      cases takeDigits rest <;> rfl
    · simp [hc]

theorem takeSix_concat (l : List Char) : takeSix (l ++ [x]) = (takeSix l).map (· ++ [x]) := by
  have hhex := isHexDigit_of_isForbidden hx
  unfold takeSix
  rcases Nat.lt_or_ge l.length 6 with hlt | hge
  · rw [if_neg, if_neg]
    · rfl
    · rintro ⟨hlen, -⟩
      rw [length_take] at hlen
      omega
    · -- the six characters would have `x` among them
      rintro ⟨-, hall⟩
      rw [take_of_length_le (by rw [length_append, length_singleton]; omega)] at hall
      simp [hhex] at hall
  · rw [take_append_of_le_length hge, drop_append_of_le_length hge]
    split <;> rfl

theorem takeHexColor_concat (l : List Char) : takeHexColor (l ++ [x]) = takeHexColor l ++ [x] := by
  have hcomma : x ≠ ',' := by
    rintro rfl
    cases hx
  unfold takeHexColor
  rw [takeSix_concat hx]
  match takeSix l with
  | none => rfl
  | some [] => simp [hcomma]
  | some (c :: rest) =>
    by_cases hc : c = ','
    · subst hc
      simp only [Option.map_some, cons_append, takeSix_concat hx]
      cases takeSix rest <;> rfl
    · simp [hc]

theorem Code.apply_concat (style : SpanStyle) (rest : List Char) (code : Code) :
    code.apply style (rest ++ [x]) =
      ((code.apply style rest).1, (code.apply style rest).2 ++ [x]) := by
  cases code with
  | color => simp only [Code.apply, takeColor_concat hx]
  | hexColor => simp only [Code.apply, takeHexColor_concat hx]
  | _ => rfl

theorem parseFrom_concat (hcode : Code.ofChar x = none) (spans : List TextSpan) (buf : List Char)
    (style : SpanStyle) (l : List Char) :
    parseFrom spans buf style (l ++ [x]) = parseFrom spans buf style l := by
  induction spans, buf, style, l using parseFrom.induct with
  | case1 spans buf style =>
    rw [nil_append]
    conv_lhs => rw [parseFrom, hcode]
    simp only [hx, if_true]
  | case2 spans buf style c rest code hc ih =>
    rw [cons_append, parseFrom, parseFrom, hc]
    simp only [Code.apply_concat hx, ih]
  | case3 spans buf style c rest hc hbad ih =>
    rw [cons_append, parseFrom, parseFrom, hc]
    simp only [hbad, if_true, ih]
  | case4 spans buf style c rest hc hgood ih =>
    rw [cons_append, parseFrom, parseFrom, hc]
    simp only [hgood, Bool.false_eq_true, if_false, ih]

end

/-- Control characters at the end of a line, other than codes, do not show. -/
theorem parse_rdropWhile (hp : ∀ c, p c → isForbidden c ∧ Code.ofChar c = none)
    (l : List Char) : parse (String.ofList (l.rdropWhile p)) = parse (String.ofList l) := by
  induction l using List.reverseRecOn with
  | nil => rfl
  | append_singleton l x ih =>
    cases hx : p x with
    | false => rw [rdropWhile_concat_neg _ _ _ (by simp [hx])]
    | true =>
      obtain ⟨hbad, hcode⟩ := hp x hx
      rw [rdropWhile_concat_pos _ _ _ hx, ih]
      simp only [parse, String.toList_ofList]
      rw [parseFrom_concat hbad hcode]

end Ddirc.Text
