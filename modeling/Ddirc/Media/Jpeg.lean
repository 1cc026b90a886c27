import Ddirc.Media.Basic

/-! # JPEG

`media/jpeg.rs`: marker segments up to the start of the first scan, and then the scan, which is
copied as it is. Any number of fill bytes may stand before a marker; they are not copied. -/

namespace Ddirc.Media.Jpeg
open List
variable {rest after : List UInt8} {length : Nat}

def malformed (detail : String) : StripError := .malformed MediaKind.jpeg.asStr detail

/-- Markers that carry no payload and no length. -/
def isStandalone (marker : UInt8) : Bool := marker == 0x01 || (0xd0 ≤ marker && marker ≤ 0xd8)

/-- Whether an application segment is needed to render the image. -/
def isRenderingSegment (marker : UInt8) (payload : List UInt8) : Bool :=
  if marker == 0xe0 then (ascii "JFIF\x00").isPrefixOf payload
  else if marker == 0xe2 then (ascii "ICC_PROFILE\x00").isPrefixOf payload
  else if marker == 0xee then (ascii "Adobe").isPrefixOf payload
  else false

def describe (marker : UInt8) (payload : List UInt8) : String :=
  if marker == 0xfe then "comment"
  else if marker == 0xe0 then "thumbnail"
  else if marker == 0xe1 then
    if (ascii "Exif\x00\x00").isPrefixOf payload then "EXIF"
    else if (ascii "http://ns.adobe.com/xap/").isPrefixOf payload then "XMP"
    else "application data"
  else if marker == 0xed then "Photoshop/IPTC data"
  else if marker == 0xe2 then "multi-picture data"
  else "application data"

def isMetadata (marker : UInt8) (payload : List UInt8) : Bool :=
  (marker == 0xfe || (0xe0 ≤ marker && marker ≤ 0xef)) && !isRenderingSegment marker payload

theorem not_metadata_of_standalone (h : isStandalone marker) :
    isMetadata marker payload = false := by
  have hrange : (marker == 0xfe || (0xe0 ≤ marker && marker ≤ 0xef)) = false := by
    simp only [isStandalone, Bool.or_eq_true, Bool.and_eq_true, beq_iff_eq, decide_eq_true_eq,
      UInt8.le_iff_toNat_le, ← UInt8.toNat_inj] at h
    simp only [Bool.or_eq_false_iff, Bool.and_eq_false_iff, beq_eq_false_iff_ne, ne_eq,
      decide_eq_false_iff_not, UInt8.le_iff_toNat_le, ← UInt8.toNat_inj]
    have h1 : (0x01 : UInt8).toNat = 1 := rfl
    have hd8 : (0xd8 : UInt8).toNat = 0xd8 := rfl
    have hfe : (0xfe : UInt8).toNat = 0xfe := rfl
    have he0 : (0xe0 : UInt8).toNat = 0xe0 := rfl
    omega
  rw [isMetadata, hrange, Bool.false_and]

def readSegment (rest : List UInt8) : Except StripError (List UInt8 × Nat) :=
  match Bytes.get rest 0 2 with
  | none => .error (malformed "truncated segment length")
  | some length =>
    let length := Bytes.ofBe length
    -- the length counts itself
    if length < 2 then .error (malformed "impossible segment length")
    else match Bytes.get rest 2 length with
      | none => .error (malformed "segment runs past the end")
      | some payload => .ok (payload, length)

def walk (out : List UInt8) (removed : List Removed) (rest : List UInt8) :
    Except StripError (List UInt8 × List Removed) :=
  if rest.head? ≠ some 0xff then .error (malformed "expected a marker")
  else match _hafter : rest.dropWhile (· == 0xff) with
    | [] => .error (malformed "truncated at a marker")
    | marker :: after =>
      if isStandalone marker then walk (out ++ [0xff, marker]) removed after
      else match readSegment after with
        | .error e => .error e
        | .ok (payload, length) =>
          -- start of scan: the rest of the file is copied as found
          if marker == 0xda then .ok (out ++ [0xff, marker] ++ after, removed)
          else if isMetadata marker payload then
            walk out (removed ++ [{ what := describe marker payload, bytes := length + 2 }])
              (after.drop length)
          else walk (out ++ [0xff, marker] ++ after.take length) removed (after.drop length)
termination_by rest.length
decreasing_by
  all_goals
    have hlength := (dropWhile_suffix (l := rest) (· == 0xff)).length_le
    rw [_hafter, length_cons] at hlength
    first | rw [length_drop]; omega | omega

def strip (bytes : List UInt8) : Except StripError Stripped :=
  match walk (bytes.take 2) [] (bytes.drop 2) with
  | .error e => .error e
  | .ok (out, removed) => .ok { kind := .jpeg, bytes := out, removed }

/-! ## The grammar -/

/-- A marker with the fill bytes before it and, unless it stands alone, its payload. -/
@[ext] structure Segment where
  fill : Nat
  marker : UInt8
  payload : List UInt8
  marker_ne : marker ≠ 0xff
  payload_length : payload.length + 2 < 256 ^ 2
  standalone : isStandalone marker = true → payload = []

namespace Segment

def body (e : Segment) : List UInt8 :=
  if isStandalone e.marker then [] else Bytes.be 2 (e.payload.length + 2) ++ e.payload

def bytes (e : Segment) : List UInt8 :=
  replicate e.fill 0xff ++ (0xff :: e.marker :: e.body)

theorem body_unambiguous {a b : Segment} (hmarker : a.marker = b.marker)
    (h : a.body ++ x = b.body ++ y) : a.payload = b.payload := by
  unfold body at h
  rw [hmarker] at h
  split at h
  next hs => rw [b.standalone hs, a.standalone (hmarker ▸ hs)]
  next =>
    simp only [append_assoc] at h
    obtain ⟨hlength, h⟩ := append_inj h (by simp)
    have hlength := Bytes.be_inj a.payload_length b.payload_length hlength
    exact (append_inj h (by omega)).1

/-- The marker is the first byte that is not a fill byte. -/
theorem fill_unambiguous {n k : Nat} {a b : UInt8} (ha : a ≠ 0xff) (hb : b ≠ 0xff)
    (h : replicate n 0xff ++ (0xff :: a :: x) = replicate k 0xff ++ (0xff :: b :: y)) :
    n = k ∧ a = b ∧ x = y := by
  induction n generalizing k with
  | zero =>
    cases k with
    | zero => simpa using h
    | succ k =>
      cases k with
      | zero => exact absurd (cons.inj (cons.inj h).2).1 ha
      | succ k => exact absurd (cons.inj (cons.inj h).2).1 ha
  | succ n ih =>
    cases k with
    | zero =>
      cases n with
      | zero => exact absurd (cons.inj (cons.inj h).2).1.symm hb
      | succ n => exact absurd (cons.inj (cons.inj h).2).1.symm hb
    | succ k =>
      obtain ⟨rfl, heq⟩ := ih (cons.inj h).2
      exact ⟨rfl, heq⟩

theorem unambiguous (a b : Segment) (x y : List UInt8) (h : a.bytes ++ x = b.bytes ++ y) :
    a = b := by
  simp only [bytes, append_assoc] at h
  obtain ⟨hfill, hmarker, h⟩ := fill_unambiguous a.marker_ne b.marker_ne h
  exact Segment.ext hfill hmarker (body_unambiguous hmarker h)

end Segment

/-- Segments up to the first start of scan, which is followed by the scan. -/
def format : Format Segment where
  bytes := Segment.bytes
  closes e := e.marker == 0xda
  nonempty e := by simp [Segment.bytes]
  unambiguous := Segment.unambiguous
  describe e := if isMetadata e.marker e.payload then some (describe e.marker e.payload) else none
  rewrite e := { e with fill := 0 }
  slack e := e.fill
  cuts := false
  mustClose := true
  describe_closes e he := by
    simp only [beq_iff_eq] at he
    rw [he]
    rfl
  closes_rewrite _ := rfl
  length_rewrite e := by
    simp only [Segment.bytes, Segment.body, length_append, length_replicate]
    omega

theorem readSegment_ok (h : readSegment after = .ok (payload, length)) :
    length = payload.length + 2 ∧ length < 256 ^ 2 ∧
      ∃ rest, after = Bytes.be 2 length ++ payload ++ rest := by
  unfold readSegment at h
  split at h
  · cases h
  next digits hdigits =>
  dsimp only at h
  split at h
  · cases h
  next htwo =>
  split at h
  · cases h
  next payload' hpayload =>
  cases h
  obtain ⟨hdigits, -⟩ := Bytes.get_eq_some hdigits
  have hlength := Bytes.length_get hpayload
  obtain ⟨hpayload, hle⟩ := Bytes.get_eq_some hpayload
  obtain ⟨front, after, hfront, rfl⟩ := Bytes.exists_append (l := after) (n := 2) (by omega)
  rw [take_left' hfront] at hdigits
  subst hdigits
  rw [length_append] at hle
  obtain ⟨front, after, hlength', rfl⟩ :=
    Bytes.exists_append (l := after) (n := Bytes.ofBe digits - 2) (by omega)
  have hpayload : payload = front := by
    rw [hpayload, ← append_assoc,
      take_left' (by rw [length_append, hfront]; omega), drop_left' hfront]
  have hbe : Bytes.be 2 (Bytes.ofBe digits) = digits := by rw [← hfront, Bytes.be_ofBe]
  refine ⟨by omega, hfront ▸ Bytes.ofBe_lt digits, after, ?_⟩
  rw [hbe, hpayload, append_assoc]

/-- The fill bytes before a marker, and the marker. -/
theorem exists_fill (hhead : rest.head? = some 0xff)
    (h : rest.dropWhile (· == 0xff) = marker :: after) :
    ∃ fill, rest = replicate fill 0xff ++ (0xff :: marker :: after) ∧ marker ≠ 0xff := by
  have hmarker : marker ≠ 0xff := by
    have := head?_dropWhile_not (· == 0xff) rest
    simpa [h] using this
  have htake : rest.takeWhile (· == 0xff) =
      replicate (rest.takeWhile (· == 0xff)).length 0xff :=
    eq_replicate_of_mem fun b hb => by
      simpa using all_eq_true.1 (all_takeWhile (p := (· == (0xff : UInt8)))) b hb
  have hrest := takeWhile_append_dropWhile (p := (· == (0xff : UInt8))) (l := rest)
  cases hlength : (rest.takeWhile (· == 0xff)).length with
  | zero =>
    rw [length_eq_zero_iff.1 hlength, h] at hrest
    rw [← hrest] at hhead
    exact absurd (Option.some.inj hhead) hmarker
  | succ fill =>
    rw [hlength, replicate_succ'] at htake
    refine ⟨fill, ?_, hmarker⟩
    rw [← hrest, htake, h, append_assoc, singleton_append]

theorem exists_segment (hhead : rest.head? = some 0xff)
    (hafter : rest.dropWhile (· == 0xff) = marker :: after) (hs : isStandalone marker = false)
    (hread : readSegment after = .ok (payload, length)) :
    ∃ (e : Segment) (tail : List UInt8), e.marker = marker ∧ e.payload = payload ∧
      rest = e.bytes ++ tail ∧ after = e.body ++ tail ∧ e.body.length = length := by
  obtain ⟨fill, hrest, hmarker⟩ := exists_fill hhead hafter
  obtain ⟨rfl, hlt, tail, htail⟩ := readSegment_ok hread
  let e : Segment := ⟨fill, marker, payload, hmarker, hlt, fun h => by rw [hs] at h; cases h⟩
  have hbody : e.body = Bytes.be 2 (payload.length + 2) ++ payload := by
    rw [Segment.body, if_neg (by simp [e, hs])]
  have hafter : after = e.body ++ tail := by rw [hbody, htail]
  refine ⟨e, tail, rfl, rfl, ?_, hafter, ?_⟩
  · rw [hrest, hafter, Segment.bytes, append_assoc, cons_append, cons_append]
  · rw [hbody, length_append, Bytes.length_be, Nat.add_comm]

theorem Segment.length_unfilled (e : Segment) : e.bytes.length - e.fill = e.body.length + 2 := by
  simp only [bytes, length_append, length_replicate, length_cons]
  omega

/-! ## The loop reads the grammar -/

theorem walk_copies (h : walk out removed rest = .ok (out', removed')) :
    format.Copies out removed rest out' removed' := by
  fun_induction walk out removed rest with
  | case1 | case2 | case4 => cases h
  | case3 out removed rest hhead marker after hafter hstandalone ih =>
    obtain ⟨fill, hrest, hmarker⟩ := exists_fill (not_not.1 hhead) hafter
    let e : Segment := ⟨fill, marker, [], hmarker, by decide, fun _ => rfl⟩
    have hbody : e.body = [] := if_pos hstandalone
    have hrest : rest = e.bytes ++ after := by
      rw [hrest, Segment.bytes, hbody, append_assoc]
      rfl
    have hopen : format.closes e = false := by
      by_contra hda
      have hda : marker = 0xda := by simpa [format] using hda
      rw [hda] at hstandalone
      cases hstandalone
    have hd : format.describe e = none := by
      simp [format, e, not_metadata_of_standalone hstandalone]
    rw [hrest]
    refine .keep (f := format) hopen hd ?_
    have hrewrite : format.bytes (format.rewrite e) = [0xff, marker] := by
      rw [show format.bytes (format.rewrite e) = [0xff, e.marker] ++ e.body from rfl, hbody]
      rfl
    rw [hrewrite]
    exact ih h
  | case5 out removed rest hhead marker after hafter hstandalone payload length hread hsos =>
    cases h
    obtain ⟨e, tail, rfl, rfl, rfl, rfl, -⟩ :=
      exists_segment (not_not.1 hhead) hafter (by simpa using hstandalone) hread
    refine .close (f := format) (e := e) hsos ?_ (by simp [format])
    simp only [append_assoc]
    rfl
  | case6 out removed rest hhead marker after hafter hstandalone payload length hread hsos hmeta
    ih =>
    obtain ⟨e, tail, rfl, rfl, rfl, rfl, rfl⟩ :=
      exists_segment (not_not.1 hhead) hafter (by simpa using hstandalone) hread
    rw [drop_left] at ih h
    refine .remove (f := format) (e := e) (if_pos hmeta) ?_
    have hsize : (format.bytes e).length - format.slack e = e.body.length + 2 := e.length_unfilled
    rw [hsize]
    exact ih h
  | case7 out removed rest hhead marker after hafter hstandalone payload length hread hsos hmeta
    ih =>
    obtain ⟨e, tail, rfl, rfl, rfl, rfl, rfl⟩ :=
      exists_segment (not_not.1 hhead) hafter (by simpa using hstandalone) hread
    rw [drop_left, take_left, append_assoc] at ih h
    exact .keep (f := format) (e := e) (by simpa [format] using hsos) (if_neg hmeta) (ih h)

theorem strip_cleans (h : strip bytes = .ok s) : s.kind = .jpeg ∧
    ∃ body segments scan, s.bytes = bytes.take 2 ++ body ∧
      format.Cleans (bytes.drop 2) body s.removed segments scan := by
  unfold strip at h
  split at h
  · cases h
  next out removed hwalk =>
    cases h
    exact ⟨rfl, (walk_copies hwalk).exists_cleans⟩

end Ddirc.Media.Jpeg
