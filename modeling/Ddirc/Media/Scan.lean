import Ddirc.Media.Strip

/-! # Markers after the first scan

A JPEG may go on after its first scan: with further segments and scans, and with other data after
the end of the image. `walkFile` reads the markers of a whole file. The cleaner copies all that
follows the first start of scan, so its promise holds just of the files with nothing to remove
there. -/

namespace Ddirc.Media
open List

namespace Jpeg
variable {e : Segment} {after : List UInt8} {length : Nat}

/-- What a walk of a whole file finds. -/
inductive Piece where
  /-- A marker with the fill bytes before it and its payload. -/
  | marked (fill : Nat) (marker : UInt8) (payload : List UInt8)
  /-- The coded data of a scan. -/
  | coded (data : List UInt8)
  /-- What is not a marker segment, up to the end of the file. -/
  | unread (data : List UInt8)
  deriving Repr, DecidableEq

structure Walk where
  pieces : List Piece
  /-- What follows the first end of image. -/
  after : List UInt8 := []
  deriving Repr, DecidableEq

def startOfScan : UInt8 := 0xda

def endOfImage : UInt8 := 0xd9

namespace Piece

/-- Whether a piece has no metadata. What cannot be read may hide some. -/
def isClean : Piece → Bool
  | .marked _ marker payload => !isMetadata marker payload
  | .coded _ => true
  | .unread _ => false

def isMarker (wanted : UInt8) : Piece → Bool
  | .marked _ marker _ => marker == wanted
  | _ => false

def body (marker : UInt8) (payload : List UInt8) : List UInt8 :=
  if isStandalone marker || marker == endOfImage then []
  else Bytes.be 2 (payload.length + 2) ++ payload

def bytes : Piece → List UInt8
  | .marked fill marker payload =>
    replicate fill 0xff ++ (0xff :: marker :: body marker payload)
  | .coded data => data
  | .unread data => data

end Piece

/-- The marker at the front, with its segment. -/
def readMarker (rest : List UInt8) : Option (Piece × List UInt8) :=
  if rest.head? ≠ some 0xff then none
  else match rest.dropWhile (· == 0xff) with
    | [] => none
    | marker :: after =>
      let fill := rest.length - after.length - 2
      if isStandalone marker || marker == endOfImage then some (.marked fill marker [], after)
      else match readSegment after with
        | .error _ => none
        | .ok (payload, length) => some (.marked fill marker payload, after.drop length)

/-- Whether what follows an `FF` makes it the start of a marker. In coded data a zero byte is
stuffed after an `FF` that is data, and restart markers belong to the data. -/
def startsMarker (rest : List UInt8) : Bool :=
  match (rest.dropWhile (· == 0xff)).head? with
  | some marker => marker != 0 && !(0xd0 ≤ marker && marker ≤ 0xd7)
  | none => false

/-- The coded data at the front, up to the next marker. -/
def splitCoded : List UInt8 → List UInt8 × List UInt8
  | [] => ([], [])
  | b :: rest =>
    if b == 0xff && startsMarker rest then ([], b :: rest)
    else (b :: (splitCoded rest).1, (splitCoded rest).2)

theorem length_readMarker (h : readMarker rest = some (piece, after)) :
    after.length < rest.length := by
  unfold readMarker at h
  split at h
  · cases h
  split at h
  · cases h
  next marker after' hafter =>
  have hlength := (dropWhile_suffix (l := rest) (· == 0xff)).length_le
  rw [hafter, length_cons] at hlength
  split at h
  · cases h
    omega
  split at h
  · cases h
  · cases h
    rw [length_drop]
    omega

theorem splitCoded_append (rest : List UInt8) :
    (splitCoded rest).1 ++ (splitCoded rest).2 = rest := by
  induction rest with
  | nil => rfl
  | cons b rest ih =>
    rw [splitCoded]
    split
    · rfl
    · rw [cons_append, ih]

theorem length_splitCoded (rest : List UInt8) : (splitCoded rest).2.length ≤ rest.length := by
  conv => rhs; rw [← splitCoded_append rest]
  simp

def codedPieces (data : List UInt8) : List Piece := if data.isEmpty then [] else [.coded data]

/-- The walk of what follows a start of scan, through every scan. -/
def walkScan (rest : List UInt8) : Walk :=
  let front := codedPieces (splitCoded rest).1
  let more := (splitCoded rest).2
  if more.isEmpty then { pieces := front }
  else match _hread : readMarker more with
    | none => { pieces := front ++ [.unread more] }
    | some (piece, after) =>
      if piece.isMarker endOfImage then { pieces := front ++ [piece], after }
      else
        let w := walkScan after
        { w with pieces := front ++ piece :: w.pieces }
termination_by rest.length
decreasing_by exact Nat.lt_of_lt_of_le (length_readMarker _hread) (length_splitCoded rest)

def walkHead (rest : List UInt8) : Walk :=
  match _hread : readMarker rest with
  | none => { pieces := [.unread rest] }
  | some (piece, after) =>
    if piece.isMarker endOfImage then { pieces := [piece], after }
    else
      let w := if piece.isMarker startOfScan then walkScan after else walkHead after
      { w with pieces := piece :: w.pieces }
termination_by rest.length
decreasing_by exact length_readMarker _hread

def walkFile (bytes : List UInt8) : Walk := walkHead (bytes.drop 2)

/-- No metadata, and nothing after the image. -/
def Walk.Clean (w : Walk) : Prop := (∀ p ∈ w.pieces, p.isClean) ∧ w.after = []

/-- All the metadata stands before the first scan, every marker after it can be read, and nothing
follows the image. -/
def Walk.CleanFromScan (w : Walk) : Prop :=
  (∀ p ∈ w.pieces.dropWhile (!·.isMarker startOfScan), p.isClean) ∧ w.after = []

/-- What the file shows: its pieces without metadata. -/
def Walk.picture (w : Walk) : List Piece := w.pieces.filter (·.isClean)

instance (w : Walk) : Decidable w.Clean := by
  unfold Walk.Clean
  infer_instance

instance (w : Walk) : Decidable w.CleanFromScan := by
  unfold Walk.CleanFromScan
  infer_instance

/-! ## The walk leaves nothing out -/

theorem readMarker_bytes (h : readMarker rest = some (piece, after)) :
    piece.bytes ++ after = rest := by
  unfold readMarker at h
  split at h
  · cases h
  next hhead =>
  split at h
  · cases h
  next marker after' hafter =>
  obtain ⟨fill, rfl, hmarker⟩ := exists_fill (not_not.1 hhead) hafter
  have hfill : (replicate fill (0xff : UInt8) ++ 0xff :: marker :: after').length -
      after'.length - 2 = fill := by
    simp only [length_append, length_replicate, length_cons]
    omega
  rw [hfill] at h
  split at h
  next halone =>
    cases h
    simp [Piece.bytes, Piece.body, halone]
  next halone =>
  split at h
  · cases h
  next payload length hread =>
    cases h
    obtain ⟨rfl, -, tail, rfl⟩ := readSegment_ok hread
    rw [drop_left' (by rw [length_append, Bytes.length_be, Nat.add_comm])]
    simp [Piece.bytes, Piece.body, halone]

theorem flatMap_codedPieces : (codedPieces data).flatMap Piece.bytes = data := by
  unfold codedPieces
  split
  next h => exact (isEmpty_iff.1 h).symm
  · simp [Piece.bytes]

theorem walkScan_bytes (rest : List UInt8) :
    (walkScan rest).pieces.flatMap Piece.bytes ++ (walkScan rest).after = rest := by
  fun_induction walkScan rest with
  | case1 rest front more hmore =>
    have hsplit : (splitCoded rest).1 ++ more = rest := splitCoded_append rest
    rw [isEmpty_iff.1 hmore] at hsplit
    simpa [front, flatMap_codedPieces] using hsplit
  | case2 rest front more _ _ =>
    have hsplit : (splitCoded rest).1 ++ more = rest := splitCoded_append rest
    simpa [front, flatMap_codedPieces, Piece.bytes] using hsplit
  | case3 rest front more _ piece after hread _ =>
    have hsplit : (splitCoded rest).1 ++ more = rest := splitCoded_append rest
    rw [← readMarker_bytes hread] at hsplit
    simpa [front, flatMap_codedPieces] using hsplit
  | case4 rest front more _ piece after hread _ w ih =>
    have hsplit : (splitCoded rest).1 ++ more = rest := splitCoded_append rest
    rw [← readMarker_bytes hread, ← ih] at hsplit
    simpa [front, flatMap_codedPieces] using hsplit

/-! ## The walk of a chain of segments -/

theorem dropWhile_segment :
    (e.bytes ++ rest).dropWhile (· == 0xff) = e.marker :: (e.body ++ rest) := by
  have hfill (n : Nat) :
      (replicate n (0xff : UInt8) ++ 0xff :: e.marker :: (e.body ++ rest)).dropWhile
      (· == 0xff) = e.marker :: (e.body ++ rest) := by
    induction n with
    | zero => simp [e.marker_ne]
    | succ n ih => simpa using ih
  simpa [Segment.bytes] using hfill e.fill

theorem head_segment : (e.bytes ++ rest).head? = some 0xff := by
  rw [Segment.bytes]
  cases e.fill <;> rfl

theorem readSegment_body (h : isStandalone e.marker = false) (rest : List UInt8) :
    readSegment (e.body ++ rest) = .ok (e.payload, e.body.length) := by
  have hbody : e.body = Bytes.be 2 (e.payload.length + 2) ++ e.payload := if_neg (by simp [h])
  have hlength : e.body.length = e.payload.length + 2 := by
    rw [hbody, length_append, Bytes.length_be, Nat.add_comm]
  have hdigits : Bytes.get (e.body ++ rest) 0 2 = some (Bytes.be 2 (e.payload.length + 2)) := by
    rw [Bytes.get, if_pos (by rw [length_append]; omega), hbody, append_assoc,
      take_left' (Bytes.length_be _ _), drop_zero]
  have hpayload : Bytes.get (e.body ++ rest) 2 (e.payload.length + 2) = some e.payload := by
    rw [Bytes.get, if_pos (by rw [length_append]; omega), take_left' hlength, hbody,
      drop_left' (Bytes.length_be _ _)]
  simp only [readSegment, hdigits, Bytes.ofBe_be e.payload_length]
  rw [if_neg (by omega), hpayload, hlength]

def Segment.piece (e : Segment) : Piece := .marked e.fill e.marker e.payload

theorem fill_segment : (e.bytes ++ rest).length - (e.body ++ rest).length - 2 = e.fill := by
  simp only [Segment.bytes, length_append, length_replicate, length_cons]
  omega

theorem readMarker_segment (h : e.marker ≠ endOfImage) (rest : List UInt8) :
    readMarker (e.bytes ++ rest) = some (e.piece, rest) := by
  simp only [readMarker, head_segment, ne_eq, not_true_eq_false, if_false, dropWhile_segment,
    fill_segment, beq_eq_false_iff_ne.2 h, Bool.or_false]
  split
  next halone =>
    rw [Segment.body, if_pos halone, nil_append, Segment.piece, e.standalone halone]
  next halone =>
    rw [readSegment_body (by simpa using halone)]
    simp only [drop_left]
    rfl

theorem readMarker_end (h : e.marker = endOfImage) (rest : List UInt8) :
    readMarker (e.bytes ++ rest) = some (.marked e.fill endOfImage [], e.body ++ rest) := by
  simp only [readMarker, head_segment, ne_eq, not_true_eq_false, if_false, dropWhile_segment,
    fill_segment, h, beq_self_eq_true, Bool.or_true, if_true]

theorem walkHead_segment (h : e.marker ≠ endOfImage) (rest : List UInt8) :
    walkHead (e.bytes ++ rest) =
      let w := if e.marker = startOfScan then walkScan rest else walkHead rest
      { w with pieces := e.piece :: w.pieces } := by
  rw [walkHead]
  split
  next hread =>
    rw [readMarker_segment h] at hread
    cases hread
  next piece after hread =>
    rw [readMarker_segment h] at hread
    cases hread
    simp [Segment.piece, Piece.isMarker, h]

theorem walkHead_reads (h : format.Reads rest segments scan)
    (hclosed : ∃ e ∈ segments, format.closes e)
    (hend : ∀ e ∈ segments, e.marker ≠ endOfImage) :
    walkHead rest = { pieces := segments.map Segment.piece ++ (walkScan scan).pieces
                      after := (walkScan scan).after } := by
  induction h with
  | done => exact absurd hclosed (by simp)
  | @close e scan hsos =>
    have hsos : e.marker = startOfScan := eq_of_beq hsos
    refine (walkHead_segment (hend e mem_cons_self) scan).trans ?_
    simp [hsos]
  | @next e rest segments scan hopen _ ih =>
    have hsos : e.marker ≠ startOfScan := beq_eq_false_iff_ne.1 hopen
    have hclosed : ∃ e ∈ segments, format.closes e := by
      simpa [hopen] using hclosed
    refine (walkHead_segment (hend e mem_cons_self) rest).trans ?_
    simp [hsos, ih hclosed fun e he => hend e (mem_cons_of_mem _ he)]

theorem walkHead_ends (h : e.marker = endOfImage) (rest : List UInt8) :
    (walkHead (e.bytes ++ rest)).after = e.body ++ rest := by
  rw [walkHead]
  split
  next hread =>
    rw [readMarker_end h] at hread
    cases hread
  next piece after hread =>
    rw [readMarker_end h] at hread
    cases hread
    simp [Piece.isMarker]

theorem body_ne_nil (h : isStandalone e.marker = false) : e.body ≠ [] := by
  rw [Segment.body, if_neg (by simp [h])]
  intro hnil
  have := congrArg length hnil
  simp at this

theorem walkHead_end (h : format.Reads rest segments scan)
    (hend : ∃ e ∈ segments, e.marker = endOfImage) : (walkHead rest).after ≠ [] := by
  induction h with
  | done => exact absurd hend (by simp)
  | @close e scan hsos =>
    obtain ⟨e', he', hmarker⟩ := hend
    obtain rfl := mem_singleton.1 he'
    rw [show format.closes e' = (e'.marker == 0xda) from rfl, hmarker] at hsos
    cases hsos
  | @next e rest segments scan hopen _ ih =>
    by_cases he : e.marker = endOfImage
    · refine fun hnil => ?_
      have hafter := (walkHead_ends he rest).symm.trans hnil
      exact body_ne_nil (by rw [he]; rfl) (append_eq_nil_iff.1 hafter).1
    · have hsos : e.marker ≠ startOfScan := beq_eq_false_iff_ne.1 hopen
      have hend : ∃ e ∈ segments, e.marker = endOfImage := by simpa [he] using hend
      rw [show format.bytes e = e.bytes from rfl, walkHead_segment he]
      simpa [hsos] using ih hend

/-! ## What is left of the metadata -/

theorem mem_kept {segments : List Segment} {e' : Segment} :
    e' ∈ segments.filterMap format.kept ↔
      ∃ e ∈ segments, isMetadata e.marker e.payload = false ∧ { e with fill := 0 } = e' := by
  rw [mem_filterMap]
  refine exists_congr fun e => and_congr_right fun _ => ?_
  cases h : isMetadata e.marker e.payload <;> simp [Format.kept, format, h]

theorem dropWhile_pieces (h : format.Reads rest segments scan)
    (hclosed : ∃ e ∈ segments, format.closes e) (pieces : List Piece) :
    ∃ e : Segment, e.marker = startOfScan ∧
      (segments.map Segment.piece ++ pieces).dropWhile (!·.isMarker startOfScan) =
        e.piece :: pieces := by
  induction h with
  | done => exact absurd hclosed (by simp)
  | @close e scan hsos =>
    refine ⟨e, eq_of_beq hsos, ?_⟩
    have : e.piece.isMarker startOfScan := hsos
    simp [this]
  | @next e rest segments scan hopen _ ih =>
    obtain ⟨e', hmarker, heq⟩ := ih (by simpa [hopen] using hclosed)
    have : e.piece.isMarker startOfScan = false := hopen
    exact ⟨e', hmarker, by simpa [this] using heq⟩

theorem clean_iff (h : format.Cleans rest body removed segments scan) :
    (walkHead body).Clean ↔ (walkHead rest).CleanFromScan := by
  have hclosed := h.closed rfl
  have hwritten : format.Reads body (segments.filterMap format.kept) scan := h.written
  by_cases hend : ∃ e ∈ segments, e.marker = endOfImage
  · obtain ⟨e, he, hmarker⟩ := hend
    have hkept : { e with fill := 0 } ∈ segments.filterMap format.kept :=
      mem_kept.2 ⟨e, he, by rw [hmarker]; rfl, rfl⟩
    have hbody := walkHead_end hwritten ⟨_, hkept, hmarker⟩
    have hrest := walkHead_end h.read ⟨e, he, hmarker⟩
    exact ⟨fun hc => absurd hc.2 hbody, fun hc => absurd hc.2 hrest⟩
  · obtain ⟨e, he, hsos⟩ := hclosed
    have hkept : { e with fill := 0 } ∈ segments.filterMap format.kept :=
      mem_kept.2 ⟨e, he, by rw [eq_of_beq hsos]; rfl, rfl⟩
    have hbody := walkHead_reads hwritten ⟨_, hkept, hsos⟩ fun e' he' => by
      obtain ⟨e, he, -, rfl⟩ := mem_kept.1 he'
      exact fun hmarker => hend ⟨e, he, hmarker⟩
    have hrest := walkHead_reads h.read ⟨e, he, hsos⟩ fun e he hmarker => hend ⟨e, he, hmarker⟩
    obtain ⟨sos, hmarker, hdrop⟩ :=
      dropWhile_pieces h.read ⟨e, he, hsos⟩ (walkScan scan).pieces
    rw [hbody, hrest, Walk.CleanFromScan, hdrop]
    refine and_congr_left fun _ => ?_
    have hhead : ∀ p ∈ (segments.filterMap format.kept).map Segment.piece, p.isClean := by
      intro p hp
      obtain ⟨e', he', rfl⟩ := mem_map.1 hp
      obtain ⟨e, -, hmeta, rfl⟩ := mem_kept.1 he'
      exact congrArg not hmeta
    have hsos : sos.piece.isClean := by
      rw [Segment.piece, hmarker]
      rfl
    constructor
    · intro hall p hp
      rcases mem_cons.1 hp with rfl | hp
      · exact hsos
      · exact hall p (mem_append_right _ hp)
    · intro hall p hp
      rcases mem_append.1 hp with hp | hp
      · exact hhead p hp
      · exact hall p (mem_cons_of_mem _ hp)

/-! ## Files that show the same -/

/-- The file that a list of pieces is written to: fill bytes are left out up to the first scan. -/
def assemble : List Piece → List UInt8
  | [] => []
  | .marked _ marker payload :: pieces =>
    (Piece.marked 0 marker payload).bytes ++
      if marker = startOfScan then pieces.flatMap Piece.bytes else assemble pieces
  | piece :: pieces => piece.bytes ++ assemble pieces

theorem assemble_segment (h : e.marker ≠ endOfImage) (pieces : List Piece) :
    assemble (e.piece :: pieces) = format.bytes (format.rewrite e) ++
      if e.marker = startOfScan then pieces.flatMap Piece.bytes else assemble pieces := by
  have hbytes : (Piece.marked 0 e.marker e.payload).bytes = format.bytes (format.rewrite e) := by
    simp [Piece.bytes, Piece.body, format, Segment.bytes, Segment.body, h]
  rw [← hbytes]
  rfl

theorem assemble_reads (h : format.Reads rest segments scan)
    (hclosed : ∃ e ∈ segments, format.closes e)
    (hend : ∀ e ∈ segments, e.marker ≠ endOfImage) (pieces : List Piece) :
    assemble ((segments.map Segment.piece ++ pieces).filter (·.isClean)) =
      (segments.filterMap format.kept).flatMap format.bytes ++
        (pieces.filter (·.isClean)).flatMap Piece.bytes := by
  induction h with
  | done => exact absurd hclosed (by simp)
  | @close e scan hsos =>
    have hmeta : isMetadata e.marker e.payload = false := by
      rw [eq_of_beq hsos]
      rfl
    have hpiece : e.piece.isClean := congrArg not hmeta
    have hkept : format.kept e = some (format.rewrite e) := by simp [Format.kept, format, hmeta]
    have hsos : e.marker = startOfScan := eq_of_beq hsos
    simp [hpiece, hkept, assemble_segment (hend e mem_cons_self), hsos]
  | @next e rest segments scan hopen _ ih =>
    have ih := ih (by simpa [hopen] using hclosed) fun e he => hend e (mem_cons_of_mem _ he)
    have hsos : e.marker ≠ startOfScan := beq_eq_false_iff_ne.1 hopen
    cases hmeta : isMetadata e.marker e.payload with
    | false =>
      have hpiece : e.piece.isClean := congrArg not hmeta
      have hkept : format.kept e = some (format.rewrite e) := by simp [Format.kept, format, hmeta]
      simp [hpiece, hkept, assemble_segment (hend e mem_cons_self), hsos, ← ih]
    | true =>
      have hpiece : e.piece.isClean = false := congrArg not hmeta
      have hkept : format.kept e = none := by simp [Format.kept, format, hmeta]
      simp [hpiece, hkept, ← ih]

theorem body_eq_assemble (h : format.Cleans rest body removed segments scan)
    (hclean : (walkHead rest).CleanFromScan) : body = assemble (walkHead rest).picture := by
  have hend (e : Segment) (he : e ∈ segments) : e.marker ≠ endOfImage := fun hmarker =>
    walkHead_end h.read ⟨e, he, hmarker⟩ hclean.2
  have hrest := walkHead_reads h.read (h.closed rfl) hend
  obtain ⟨sos, -, hdrop⟩ := dropWhile_pieces h.read (h.closed rfl) (walkScan scan).pieces
  rw [hrest, Walk.CleanFromScan, hdrop] at hclean
  have hfilter : (walkScan scan).pieces.filter (·.isClean) = (walkScan scan).pieces :=
    filter_eq_self.2 fun p hp => hclean.1 p (mem_cons_of_mem _ hp)
  have hscan := walkScan_bytes scan
  rw [show (walkScan scan).after = [] from hclean.2, append_nil] at hscan
  rw [hrest, Walk.picture, assemble_reads h.read (h.closed rfl) hend, hfilter, hscan]
  exact h.written.input_eq

end Jpeg

theorem jpeg_cleans (h : strip bytes = .ok s) (hkind : s.kind = .jpeg) :
    ∃ body segments scan, s.bytes = [0xff, 0xd8] ++ body ∧
      Jpeg.format.Cleans (bytes.drop 2) body s.removed segments scan := by
  cases (strip_cleaned h).2 with
  | jpeg hfront h =>
    obtain ⟨-, body, segments, scan, hbytes, hcleans⟩ := Jpeg.strip_cleans h
    obtain ⟨rest, rfl⟩ := isPrefixOf_iff_prefix.1 hfront
    exact ⟨body, segments, scan, hbytes, hcleans⟩
  | png h => rw [(Png.strip_cleans h).1] at hkind; cases hkind
  | gif h => rw [(Gif.strip_cleans h).1] at hkind; cases hkind
  | webp _ _ h => rw [(Webp.strip_cleans h).1] at hkind; cases hkind

/-- A cleaned JPEG is clean through all its scans just if the file had all its metadata before the
first scan, markers that can be read after it and nothing after the image; and two such files that
show the same are cleaned to the same. -/
theorem jpeg_clean_iff {a : List UInt8} {s : Stripped} (hs : strip a = .ok s)
    (hkind : s.kind = .jpeg) :
    ((Jpeg.walkFile s.bytes).Clean ↔ (Jpeg.walkFile a).CleanFromScan) ∧
    ∀ b t, strip b = .ok t → t.kind = .jpeg →
      (Jpeg.walkFile a).CleanFromScan → (Jpeg.walkFile b).CleanFromScan →
      (Jpeg.walkFile a).picture = (Jpeg.walkFile b).picture → s.bytes = t.bytes := by
  obtain ⟨body, segments, scan, hbytes, hcleans⟩ := jpeg_cleans hs hkind
  constructor
  · rw [hbytes]
    exact Jpeg.clean_iff hcleans
  · intro b t ht htkind ha hb hpicture
    obtain ⟨body', segments', scan', hbytes', hcleans'⟩ := jpeg_cleans ht htkind
    have hbody : body = body' := by
      rw [Jpeg.body_eq_assemble hcleans ha, Jpeg.body_eq_assemble hcleans' hb]
      exact congrArg Jpeg.assemble hpicture
    rw [hbytes, hbytes', hbody]

namespace Jpeg

def oneScan (head later : List UInt8) : List UInt8 :=
  [0xff, 0xd8] ++ head ++ [0xff, 0xda, 0, 2, 0x11] ++ later ++ [0xff, 0xd9]

def aComment : List UInt8 := [0xff, 0xfe, 0, 4, 0x68, 0x69]

end Jpeg

/-- A comment before the scan goes. -/
theorem jpeg_clean_iff_head :
    let bytes := Jpeg.oneScan Jpeg.aComment []
    let s : Stripped :=
      { kind := .jpeg, bytes := Jpeg.oneScan [] [], removed := [⟨"comment", 6⟩] }
    strip bytes = .ok s ∧ (Jpeg.walkFile bytes).CleanFromScan ∧ (Jpeg.walkFile s.bytes).Clean := by
  intro bytes s
  have h : strip bytes = .ok s := by decide +kernel
  have hclean : (Jpeg.walkFile bytes).CleanFromScan := by decide +kernel
  exact ⟨h, hclean, (jpeg_clean_iff h rfl).1.2 hclean⟩

/-- A comment after the first scan stays, so that it shows in what is sent. -/
theorem jpeg_keeps_later_comment :
    let bytes := Jpeg.oneScan [] Jpeg.aComment
    let s : Stripped := { kind := .jpeg, bytes, removed := [] }
    strip bytes = .ok s ∧ ¬ (Jpeg.walkFile s.bytes).Clean ∧
      (Jpeg.walkFile bytes).picture = (Jpeg.walkFile (Jpeg.oneScan [] [])).picture ∧
      strip (Jpeg.oneScan [] []) =
        .ok { kind := .jpeg, bytes := Jpeg.oneScan [] [], removed := [] } := by
  decide +kernel

end Ddirc.Media
