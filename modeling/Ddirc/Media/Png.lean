import Ddirc.Media.Basic

/-! # PNG

`media/png.rs`: a signature, then chunks that each begin with their length. The loop is `walk`;
`format` says what a chunk is, and `strip_cleans` that the loop takes out those that describe the
file. -/

namespace Ddirc.Media.Png
open List

def malformed (detail : String) : StripError := .malformed MediaKind.png.asStr detail

def signature : Nat := 8

/-- Chunks that describe the file rather than draw it. -/
def describe (kind : List UInt8) : Option String :=
  if kind = ascii "tEXt" ∨ kind = ascii "zTXt" then some "text"
  else if kind = ascii "iTXt" then some "text"
  else if kind = ascii "eXIf" then some "EXIF"
  else if kind = ascii "tIME" then some "timestamp"
  else none

/-- The chunk at the front: its type, and how long it is with its framing. -/
def readChunk (rest : List UInt8) : Except StripError (List UInt8 × Nat) :=
  match Bytes.get rest 0 4 with
  | none => .error (malformed "truncated chunk length")
  | some length =>
    match Bytes.get rest 4 8 with
    | none => .error (malformed "truncated chunk type")
    | some kind =>
      match checkedAdd (Bytes.ofBe length) 12 with
      | none => .error (malformed "impossible chunk length")
      | some total =>
        match Bytes.get rest 0 total with
        | none => .error (malformed "chunk runs past the end")
        | some _ => .ok (kind, total)

theorem readChunk_ok (h : readChunk rest = .ok (kind, total)) :
    total = Bytes.ofBe (rest.take 4) + 12 ∧ kind = (rest.take 8).drop 4 ∧ total ≤ rest.length := by
  unfold readChunk at h
  split at h
  · cases h
  next length hlength =>
  split at h
  · cases h
  next kind' hkind =>
  split at h
  · cases h
  next total' htotal =>
  split at h
  · cases h
  next chunk hchunk =>
  cases h
  obtain ⟨rfl, -⟩ := Bytes.get_eq_some hlength
  refine ⟨?_, (Bytes.get_eq_some hkind).1, (Bytes.get_eq_some hchunk).2⟩
  unfold checkedAdd at htotal
  split at htotal
  · exact (Option.some.inj htotal).symm
  · cases htotal

def walk (out : List UInt8) (removed : List Removed) (rest : List UInt8) :
    Except StripError (List UInt8 × List Removed) :=
  if _hrest : rest = [] then .ok (out, removed)
  else match _hread : readChunk rest with
    | .error e => .error e
    | .ok (kind, total) =>
      let (out, removed) := match describe kind with
        | some what => (out, removed ++ [{ what, bytes := total }])
        | none => (out ++ rest.take total, removed)
      let after := rest.drop total
      if kind = ascii "IEND" then .ok (out, removed ++ afterEnd after)
      else walk out removed after
termination_by rest.length
decreasing_by
  have := length_pos_iff.2 _hrest
  have := (readChunk_ok _hread).1
  simp only [length_drop]
  omega

def strip (bytes : List UInt8) : Except StripError Stripped :=
  if bytes.length ≤ signature then .error (malformed "no chunks after the signature")
  else match walk (bytes.take signature) [] (bytes.drop signature) with
    | .error e => .error e
    | .ok (out, removed) => .ok { kind := .png, bytes := out, removed }

/-! ## The grammar -/

@[ext] structure Chunk where
  kind : List UInt8
  data : List UInt8
  crc : List UInt8
  kind_length : kind.length = 4
  crc_length : crc.length = 4
  data_length : data.length < 256 ^ 4

def Chunk.bytes (c : Chunk) : List UInt8 :=
  Bytes.be 4 c.data.length ++ (c.kind ++ (c.data ++ c.crc))

theorem Chunk.length_bytes (c : Chunk) : c.bytes.length = c.data.length + 12 := by
  simp only [bytes, length_append, Bytes.length_be, c.kind_length, c.crc_length]
  omega

theorem Chunk.unambiguous (a b : Chunk) (x y : List UInt8) (h : a.bytes ++ x = b.bytes ++ y) :
    a = b := by
  simp only [bytes, append_assoc] at h
  obtain ⟨hlength, h⟩ := append_inj h (by simp)
  have hdata := Bytes.be_inj a.data_length b.data_length hlength
  obtain ⟨hkind, h⟩ := append_inj h (by rw [a.kind_length, b.kind_length])
  obtain ⟨hdata, h⟩ := append_inj h hdata
  obtain ⟨hcrc, -⟩ := append_inj h (by rw [a.crc_length, b.crc_length])
  exact Chunk.ext hkind hdata hcrc

/-- Chunks up to `IEND`; those that describe the file are metadata. -/
def format : Format Chunk where
  bytes := Chunk.bytes
  closes c := c.kind = ascii "IEND"
  nonempty c h := by simpa [h] using c.length_bytes
  unambiguous := Chunk.unambiguous
  describe c := describe c.kind
  cuts := true
  mustClose := false
  describe_closes c hc := by
    rw [of_decide_eq_true hc]
    decide
  closes_rewrite _ := rfl
  length_rewrite _ := rfl

theorem exists_chunk (h : readChunk rest = .ok (kind, total)) :
    ∃ (c : Chunk) (after : List UInt8), c.kind = kind ∧ c.bytes.length = total ∧
      rest = c.bytes ++ after := by
  obtain ⟨htotal, hkind, hle⟩ := readChunk_ok h
  obtain ⟨length, rest, hlength, rfl⟩ := Bytes.exists_append (l := rest) (n := 4) (by omega)
  rw [take_left' hlength] at htotal
  rw [length_append] at hle
  obtain ⟨name, rest, hname, rfl⟩ := Bytes.exists_append (l := rest) (n := 4) (by omega)
  rw [length_append] at hle
  obtain ⟨data, rest, hdata, rfl⟩ :=
    Bytes.exists_append (l := rest) (n := Bytes.ofBe length) (by omega)
  rw [length_append] at hle
  obtain ⟨crc, rest, hcrc, rfl⟩ := Bytes.exists_append (l := rest) (n := 4) (by omega)
  let c : Chunk := ⟨name, data, crc, hname, hcrc, by
    rw [hdata]
    exact hlength ▸ Bytes.ofBe_lt length⟩
  refine ⟨c, rest, ?_, c.length_bytes.trans (htotal.symm ▸ by rw [hdata]), ?_⟩
  · rw [hkind]
    simp [take_append, hlength, hname, c]
  · have hbe : Bytes.be 4 data.length = length := by rw [hdata, ← hlength, Bytes.be_ofBe]
    simp only [c, Chunk.bytes, hbe, append_assoc]

/-! ## The loop reads the grammar -/

theorem walk_copies (h : walk out removed rest = .ok (out', removed')) :
    format.Copies out removed rest out' removed' := by
  fun_induction walk out removed rest with
  | case1 out removed =>
    cases h
    exact .done rfl
  | case2 => cases h
  | case3 out removed rest _ total out₁ removed₁ after hread hstep =>
    obtain ⟨c, tail, hkind, htotal, rfl⟩ := exists_chunk hread
    have hafter : after = tail := drop_left' htotal
    rw [take_left' htotal] at hstep
    cases hstep
    cases h
    rw [hafter]
    exact .close (f := format) (e := c) (decide_eq_true hkind) (by simp [format]) rfl
  | case4 out removed rest _ kind total hread out₁ removed₁ hstep after hopen ih =>
    obtain ⟨c, tail, rfl, htotal, rfl⟩ := exists_chunk hread
    have hafter : after = tail := drop_left' htotal
    rw [hafter] at ih h
    rw [take_left' htotal, ← htotal] at hstep
    cases hd : describe c.kind with
    | none =>
      simp only [hd] at hstep
      obtain ⟨rfl, rfl⟩ := hstep
      exact .keep (f := format) (e := c) (decide_eq_false hopen) hd (ih h)
    | some what =>
      simp only [hd] at hstep
      obtain ⟨rfl, rfl⟩ := hstep
      exact .remove (f := format) (e := c) hd (ih h)

theorem strip_cleans (h : strip bytes = .ok s) : s.kind = .png ∧ signature ≤ bytes.length ∧
    ∃ body chunks tail, s.bytes = bytes.take signature ++ body ∧
      format.Cleans (bytes.drop signature) body s.removed chunks tail := by
  unfold strip at h
  split at h
  · cases h
  next hlength =>
  split at h
  · cases h
  next out removed hwalk =>
    cases h
    exact ⟨rfl, by omega, (walk_copies hwalk).exists_cleans⟩

end Ddirc.Media.Png
