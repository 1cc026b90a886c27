import Ddirc.Media.Basic

/-! # WebP

`media/webp.rs`: a RIFF container of chunks. The container's length is rewritten around what is
left, and the flags of a `VP8X` chunk no longer announce what was taken out. -/

namespace Ddirc.Media.Webp
open List

def malformed (detail : String) : StripError := .malformed MediaKind.webp.asStr detail

def header : Nat := 12

def flagExif : UInt8 := 0b00001000

def flagXmp : UInt8 := 0b00000100

def describe (kind : List UInt8) : Option String :=
  if kind = ascii "EXIF" then some "EXIF"
  else if kind = ascii "XMP " then some "XMP"
  else none

/-- The chunk at the front: its type, and how long it is with its framing and padding. -/
def readChunk (rest : List UInt8) : Except StripError (List UInt8 × Nat) :=
  match Bytes.get rest 0 4 with
  | none => .error (malformed "truncated chunk type")
  | some kind =>
    match Bytes.get rest 4 8 with
    | none => .error (malformed "truncated chunk size")
    | some size =>
      let size := Bytes.ofLe size
      match checkedAdd (size + size % 2) 8 with
      | none => .error (malformed "impossible chunk size")
      | some total =>
        match Bytes.get rest 0 total with
        | none => .error (malformed "chunk runs past the end")
        | some _ => .ok (kind, total)

/-- The flags of a `VP8X` chunk, without those for what is removed. -/
def clearFlags (flags : UInt8) : UInt8 := flags &&& ~~~(flagExif ||| flagXmp)

/-- A chunk as it is copied: the flags stand after its type and its size. -/
def copyChunk (kind chunk : List UInt8) : List UInt8 :=
  if kind = ascii "VP8X" then chunk.modify 8 clearFlags else chunk

theorem readChunk_ok (h : readChunk rest = .ok (kind, total)) :
    total = Bytes.ofLe ((rest.take 8).drop 4) + Bytes.ofLe ((rest.take 8).drop 4) % 2 + 8 ∧
      kind = rest.take 4 ∧ total ≤ rest.length := by
  unfold readChunk at h
  split at h
  · cases h
  next kind' hkind =>
  split at h
  · cases h
  next size hsize =>
  dsimp only at h
  split at h
  · cases h
  next total' htotal =>
  split at h
  · cases h
  next chunk hchunk =>
  cases h
  obtain ⟨rfl, -⟩ := Bytes.get_eq_some hsize
  refine ⟨?_, (Bytes.get_eq_some hkind).1, (Bytes.get_eq_some hchunk).2⟩
  unfold checkedAdd at htotal
  split at htotal
  · exact (Option.some.inj htotal).symm
  · cases htotal

def walk (payload : List UInt8) (removed : List Removed) (rest : List UInt8) :
    Except StripError (List UInt8 × List Removed) :=
  if _hrest : rest = [] then .ok (payload, removed)
  else match _hread : readChunk rest with
    | .error e => .error e
    | .ok (kind, total) =>
      match describe kind with
      | some what => walk payload (removed ++ [{ what, bytes := total }]) (rest.drop total)
      | none => walk (payload ++ copyChunk kind (rest.take total)) removed (rest.drop total)
termination_by rest.length
decreasing_by
  all_goals
    have := length_pos_iff.2 _hrest
    have := (readChunk_ok _hread).1
    simp only [length_drop]
    omega

/-- RIFF's length covers `WEBP` and everything after it; it is cut to 32 bits. -/
def strip (bytes : List UInt8) : Except StripError Stripped :=
  if bytes.length ≤ header then .error (malformed "no chunks after the header")
  else match walk [] [] (bytes.drop header) with
    | .error e => .error e
    | .ok (payload, removed) =>
      .ok { kind := .webp
            bytes := ascii "RIFF" ++ Bytes.le 4 (payload.length + 4) ++ ascii "WEBP" ++ payload
            removed }

/-! ## The grammar -/

@[ext] structure Chunk where
  kind : List UInt8
  data : List UInt8
  /-- Chunks are padded to an even length. -/
  pad : List UInt8
  kind_length : kind.length = 4
  data_length : data.length < 256 ^ 4
  pad_length : pad.length = data.length % 2

namespace Chunk

def bytes (c : Chunk) : List UInt8 := c.kind ++ (Bytes.le 4 c.data.length ++ (c.data ++ c.pad))

theorem length_bytes (c : Chunk) : c.bytes.length = c.data.length + c.data.length % 2 + 8 := by
  simp only [bytes, length_append, Bytes.length_le, c.kind_length, c.pad_length]
  omega

theorem unambiguous (a b : Chunk) (x y : List UInt8) (h : a.bytes ++ x = b.bytes ++ y) : a = b := by
  simp only [bytes, append_assoc] at h
  obtain ⟨hkind, h⟩ := append_inj h (by rw [a.kind_length, b.kind_length])
  obtain ⟨hlength, h⟩ := append_inj h (by simp)
  have hsize := Bytes.le_inj a.data_length b.data_length hlength
  obtain ⟨hdata, h⟩ := append_inj h hsize
  obtain ⟨hpad, -⟩ := append_inj h (by rw [a.pad_length, b.pad_length, hsize])
  exact Chunk.ext hkind hdata hpad

/-- A chunk that stays; the flags of `VP8X` are the first byte of its data. -/
def rewrite (c : Chunk) : Chunk where
  kind := c.kind
  data := if c.kind = ascii "VP8X" then c.data.modify 0 clearFlags else c.data
  pad := c.pad
  kind_length := c.kind_length
  data_length := by
    split
    · simpa using c.data_length
    · exact c.data_length
  pad_length := by
    split
    · simpa using c.pad_length
    · exact c.pad_length

theorem length_rewrite (c : Chunk) : c.rewrite.bytes.length = c.bytes.length := by
  rw [length_bytes, length_bytes, rewrite]
  split <;> simp

theorem bytes_rewrite (c : Chunk) : c.rewrite.bytes = copyChunk c.kind c.bytes := by
  unfold copyChunk rewrite bytes
  dsimp only
  split
  next =>
    have hframe : (c.kind ++ Bytes.le 4 c.data.length).length = 8 := by
      rw [length_append, c.kind_length, Bytes.length_le]
    have hdata : (c.data ++ c.pad).modifyHead clearFlags =
        c.data.modifyHead clearFlags ++ c.pad := by
      cases hd : c.data with
      | cons => rfl
      | nil => simp [length_eq_zero_iff.1 (by rw [c.pad_length, hd]; rfl : c.pad.length = 0)]
    have hmodify : c.data.modify 0 clearFlags = c.data.modifyHead clearFlags := by
      rw [modify_eq_take_drop, take_zero, nil_append, drop_zero]
    rw [length_modify, hmodify, ← append_assoc c.kind _ (c.data ++ c.pad),
      modify_eq_take_drop, take_left' hframe, drop_left' hframe, hdata,
      append_assoc]
  · rfl

end Chunk

def format : Format Chunk where
  bytes := Chunk.bytes
  closes _ := false
  nonempty c h := by simpa [h] using c.length_bytes
  unambiguous := Chunk.unambiguous
  describe c := describe c.kind
  rewrite := Chunk.rewrite
  cuts := false
  mustClose := false
  describe_closes _ := nofun
  closes_rewrite _ := rfl
  length_rewrite := Chunk.length_rewrite

theorem exists_chunk (h : readChunk rest = .ok (kind, total)) :
    ∃ (c : Chunk) (after : List UInt8), c.kind = kind ∧ c.bytes.length = total ∧
      rest = c.bytes ++ after := by
  obtain ⟨htotal, hkind, hle⟩ := readChunk_ok h
  obtain ⟨name, rest, hname, rfl⟩ := Bytes.exists_append (l := rest) (n := 4) (by omega)
  rw [take_left' hname] at hkind
  rw [length_append] at hle
  obtain ⟨size, rest, hsize, rfl⟩ := Bytes.exists_append (l := rest) (n := 4) (by omega)
  have hslice : ((name ++ (size ++ rest)).take 8).drop 4 = size := by
    simp [take_append, hname, hsize]
  rw [hslice] at htotal
  rw [length_append] at hle
  obtain ⟨data, rest, hdata, rfl⟩ :=
    Bytes.exists_append (l := rest) (n := Bytes.ofLe size) (by omega)
  rw [length_append] at hle
  obtain ⟨pad, rest, hpad, rfl⟩ :=
    Bytes.exists_append (l := rest) (n := Bytes.ofLe size % 2) (by omega)
  let c : Chunk := ⟨name, data, pad, hname, hdata ▸ hsize ▸ Bytes.ofLe_lt size, hdata ▸ hpad⟩
  refine ⟨c, rest, hkind.symm, c.length_bytes.trans (htotal.symm ▸ by rw [hdata]), ?_⟩
  have hle : Bytes.le 4 data.length = size := by rw [hdata, ← hsize, Bytes.le_ofLe]
  simp only [c, Chunk.bytes, hle, append_assoc]

theorem walk_copies (h : walk payload removed rest = .ok (payload', removed')) :
    format.Copies payload removed rest payload' removed' := by
  fun_induction walk payload removed rest with
  | case1 =>
    cases h
    exact .done rfl
  | case2 => cases h
  | case3 payload removed rest _ kind total hread what hd ih =>
    obtain ⟨c, tail, rfl, htotal, rfl⟩ := exists_chunk hread
    rw [drop_left' htotal] at ih h
    rw [← htotal] at ih h
    exact .remove (f := format) (e := c) hd (ih h)
  | case4 payload removed rest _ kind total hread hd ih =>
    obtain ⟨c, tail, rfl, htotal, rfl⟩ := exists_chunk hread
    rw [drop_left' htotal, take_left' htotal, ← c.bytes_rewrite] at ih h
    exact .keep (f := format) (e := c) rfl hd (ih h)

theorem strip_cleans (h : strip bytes = .ok s) : s.kind = .webp ∧ header ≤ bytes.length ∧
    ∃ body chunks tail,
      s.bytes = ascii "RIFF" ++ Bytes.le 4 (body.length + 4) ++ ascii "WEBP" ++ body ∧
      format.Cleans (bytes.drop header) body s.removed chunks tail := by
  unfold strip at h
  split at h
  · cases h
  next hlength =>
  split at h
  · cases h
  next payload removed hwalk =>
    cases h
    obtain ⟨body, chunks, tail, hbody, hcleans⟩ := (walk_copies hwalk).exists_cleans
    subst hbody
    exact ⟨rfl, by omega, payload, chunks, tail, rfl, hcleans⟩

end Ddirc.Media.Webp
