import Ddirc.Media.Png
import Ddirc.Media.Gif
import Ddirc.Media.Webp
import Ddirc.Media.Jpeg

/-! # Removing everything but the image

`media/mod.rs`: a file is recognised by its leading bytes and cleaned by the cleaner of its format.
Whatever the format, the result is the file's elements without those that are metadata. -/

namespace Ddirc.Media

def detect (bytes : List UInt8) : Option MediaKind :=
  if [0xff, 0xd8, 0xff].isPrefixOf bytes then some .jpeg
  else if (0x89 :: ascii "PNG\r\n\x1a\n").isPrefixOf bytes then some .png
  else if (ascii "GIF87a").isPrefixOf bytes || (ascii "GIF89a").isPrefixOf bytes then some .gif
  else if (ascii "RIFF").isPrefixOf bytes && Bytes.get bytes 8 12 == some (ascii "WEBP") then
    some .webp
  else none

def strip (bytes : List UInt8) : Except StripError Stripped :=
  if bytes.isEmpty then .error .empty
  else match detect bytes with
    | none => .error .unsupported
    | some .jpeg => Jpeg.strip bytes
    | some .png => Png.strip bytes
    | some .gif => Gif.strip bytes
    | some .webp => Webp.strip bytes

/-! ## What is kept and what is reported -/

/-- `bytes` and `out` are read as a header each and, after it, elements of `f`: those of `out` are
those of `bytes` that are not metadata, rewritten as the format says, and `removed` names the
others. There is one way to read them. -/
def CleansAfter {E : Type} (f : Format E) (i : Nat) (bytes out : List UInt8)
    (removed : List Removed) : Prop :=
  (∃ es tail, f.Reads (bytes.drop i) es tail) ∧ ∀ es tail, f.Reads (bytes.drop i) es tail →
    f.Cleans (bytes.drop i) (out.drop i) removed es tail ∧
    out.length + (removed.map (·.bytes)).sum + (es.map f.slack).sum = bytes.length

theorem CleansAfter.of_cleans (hi : i ≤ bytes.length) (hfront : front.length = i)
    (h : f.Cleans (bytes.drop i) body removed es tail) :
    CleansAfter f i bytes (front ++ body) removed := by
  refine ⟨⟨es, tail, h.read⟩, fun es' tail' hread => ?_⟩
  obtain ⟨rfl, rfl⟩ := h.read.unique hread
  have hlength := h.length
  rw [List.length_drop] at hlength
  rw [List.drop_left' hfront]
  refine ⟨h, ?_⟩
  rw [List.length_append]
  omega

/-- What the cleaner of each format makes of a file. -/
def Keeps (bytes : List UInt8) (s : Stripped) : Prop :=
  match s.kind with
  | .png => s.bytes.take Png.signature = bytes.take Png.signature ∧
    CleansAfter Png.format Png.signature bytes s.bytes s.removed
  | .gif =>
    let i := Gif.header + Gif.tableSize (bytes.getD 10 0)
    s.bytes.take i = bytes.take i ∧ CleansAfter Gif.format i bytes s.bytes s.removed
  | .webp =>
    s.bytes.take 4 = bytes.take 4 ∧
    (s.bytes.take Webp.header).drop 8 = (bytes.take Webp.header).drop 8 ∧
    CleansAfter Webp.format Webp.header bytes s.bytes s.removed
  | .jpeg => s.bytes.take 2 = bytes.take 2 ∧ CleansAfter Jpeg.format 2 bytes s.bytes s.removed

theorem jpeg_keeps (hfront : [0xff, 0xd8, 0xff].isPrefixOf bytes)
    (h : Jpeg.strip bytes = .ok s) : Keeps bytes s := by
  obtain ⟨hkind, body, segments, scan, hbytes, hcleans⟩ := Jpeg.strip_cleans h
  obtain ⟨rest, rfl⟩ := List.isPrefixOf_iff_prefix.1 hfront
  unfold Keeps
  rw [hkind, hbytes]
  exact ⟨rfl, .of_cleans (by simp) rfl hcleans⟩

theorem png_keeps (h : Png.strip bytes = .ok s) : Keeps bytes s := by
  obtain ⟨hkind, hlength, body, chunks, tail, hbytes, hcleans⟩ := Png.strip_cleans h
  have hfront : (bytes.take Png.signature).length = Png.signature := List.length_take_of_le hlength
  unfold Keeps
  rw [hkind, hbytes]
  exact ⟨List.take_left' hfront, .of_cleans hlength hfront hcleans⟩

theorem gif_keeps (h : Gif.strip bytes = .ok s) : Keeps bytes s := by
  obtain ⟨hkind, hlength, body, blocks, tail, hbytes, hcleans⟩ := Gif.strip_cleans h
  have hfront := List.length_take_of_le hlength
  unfold Keeps
  rw [hkind, hbytes]
  exact ⟨List.take_left' hfront, .of_cleans hlength hfront hcleans⟩

theorem webp_keeps (hriff : (ascii "RIFF").isPrefixOf bytes)
    (hwebp : Bytes.get bytes 8 12 = some (ascii "WEBP")) (h : Webp.strip bytes = .ok s) :
    Keeps bytes s := by
  obtain ⟨hkind, hlength, body, chunks, tail, hbytes, hcleans⟩ := Webp.strip_cleans h
  obtain ⟨rest, rfl⟩ := List.isPrefixOf_iff_prefix.1 hriff
  have hfront : (ascii "RIFF" ++ Bytes.le 4 (body.length + 4) ++ ascii "WEBP").length =
      Webp.header := by
    rfl
  unfold Keeps
  rw [hkind, hbytes]
  refine ⟨rfl, ?_, .of_cleans hlength hfront hcleans⟩
  rw [List.take_left' hfront]
  exact (List.drop_left' (by simp [ascii])).trans (Bytes.get_eq_some hwebp).1

/-- Which cleaner a file went to. -/
inductive Cleaned (bytes : List UInt8) (s : Stripped) : Prop where
  | jpeg : [0xff, 0xd8, 0xff].isPrefixOf bytes = true → Jpeg.strip bytes = .ok s → Cleaned bytes s
  | png : Png.strip bytes = .ok s → Cleaned bytes s
  | gif : Gif.strip bytes = .ok s → Cleaned bytes s
  | webp : (ascii "RIFF").isPrefixOf bytes = true → Bytes.get bytes 8 12 = some (ascii "WEBP") →
    Webp.strip bytes = .ok s → Cleaned bytes s

theorem strip_cleaned (h : strip bytes = .ok s) : detect bytes = some s.kind ∧ Cleaned bytes s := by
  unfold strip at h
  split at h
  · cases h
  next =>
  cases hdetect : detect bytes with
  | none =>
    rw [hdetect] at h
    cases h
  | some kind =>
    rw [hdetect] at h
    unfold detect at hdetect
    split at hdetect
    next hjpeg =>
      cases hdetect
      exact ⟨congrArg some (Jpeg.strip_cleans h).1.symm, .jpeg hjpeg h⟩
    split at hdetect
    next =>
      cases hdetect
      exact ⟨congrArg some (Png.strip_cleans h).1.symm, .png h⟩
    split at hdetect
    next =>
      cases hdetect
      exact ⟨congrArg some (Gif.strip_cleans h).1.symm, .gif h⟩
    split at hdetect
    next hwebp =>
      cases hdetect
      simp only [Bool.and_eq_true, beq_iff_eq] at hwebp
      exact ⟨congrArg some (Webp.strip_cleans h).1.symm, .webp hwebp.1 hwebp.2 h⟩
    · cases hdetect

/-- Cleaning keeps exactly the picture and reports exactly the rest. -/
theorem strip_keeps_picture (h : strip bytes = .ok s) :
    detect bytes = some s.kind ∧ Keeps bytes s := by
  obtain ⟨hdetect, hcleaned⟩ := strip_cleaned h
  refine ⟨hdetect, ?_⟩
  cases hcleaned with
  | jpeg hfront h => exact jpeg_keeps hfront h
  | png h => exact png_keeps h
  | gif h => exact gif_keeps h
  | webp hriff hwebp h => exact webp_keeps hriff hwebp h

/-- A GIF with a comment, and something after its trailer. -/
theorem strip_keeps_picture_gif :
    let bytes := ascii "GIF89a" ++ [1, 0, 1, 0, 0, 0, 0] ++ [0x21, 0xfe, 2, 0x68, 0x69, 0] ++
      [0x3b] ++ [7, 7]
    let s : Stripped := {
      kind := .gif
      bytes := ascii "GIF89a" ++ [1, 0, 1, 0, 0, 0, 0] ++ [0x3b]
      removed := [⟨"comment", 6⟩, ⟨"data after the end of the image", 2⟩] }
    strip bytes = .ok s ∧ detect bytes = some s.kind ∧ Keeps bytes s := by
  intro bytes s
  have h : strip bytes = .ok s := by decide +kernel
  exact ⟨h, strip_keeps_picture h⟩

end Ddirc.Media
