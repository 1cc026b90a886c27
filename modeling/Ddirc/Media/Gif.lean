import Ddirc.Media.Basic

/-! # GIF

`media/gif.rs`: a header with an optional colour table, then blocks up to a trailer. The data of a
block is a chain of sub-blocks, each with its length in front, that an empty one ends. -/

namespace Ddirc.Media.Gif
open List

def malformed (detail : String) : StripError := .malformed MediaKind.gif.asStr detail

/-- Signature, version, logical screen descriptor. -/
def header : Nat := 13

def extension : UInt8 := 0x21
def image : UInt8 := 0x2c
def trailer : UInt8 := 0x3b
def comment : UInt8 := 0xfe
def application : UInt8 := 0xff

def tableSize (packed : UInt8) : Nat :=
  if packed &&& 0b10000000 ≠ 0 then 3 * 2 ^ ((packed &&& 0b00000111).toNat + 1) else 0

def endOfSubBlocks : List UInt8 → Except StripError Nat
  | [] => .error (malformed "unterminated block")
  | len :: rest =>
    if len = 0 then .ok 1
    else if rest.length < len.toNat then .error (malformed "block runs past the end")
    else (endOfSubBlocks (rest.drop len.toNat)).map (1 + len.toNat + ·)
termination_by rest => rest.length
decreasing_by simp only [length_drop, length_cons]; omega

/-- Whether an application extension holds XMP: its first sub-block names it. -/
def isXmp (label : UInt8) (body : List UInt8) : Bool :=
  label == application && Bytes.get body 1 12 == some (ascii "XMP DataXMP")

def walk (out : List UInt8) (removed : List Removed) (rest : List UInt8) :
    Except StripError (List UInt8 × List Removed) :=
  match rest with
  | [] => .error (malformed "ended without a trailer")
  | block :: after =>
    if block = trailer then .ok (out ++ [trailer], removed ++ afterEnd after)
    else if block = extension then
      match after with
      | [] => .error (malformed "truncated extension")
      | label :: body =>
        match endOfSubBlocks body with
        | .error e => .error e
        | .ok n =>
          if label = comment || isXmp label body then
            let what := if label = comment then "comment" else "XMP"
            walk out (removed ++ [{ what, bytes := 2 + n }]) (body.drop n)
          else walk (out ++ (block :: label :: body.take n)) removed (body.drop n)
    else if block = image then
      match after[8]? with
      | none => .error (malformed "truncated image descriptor")
      | some packed =>
        let data := 9 + tableSize packed
        if after.length ≤ data then .error (malformed "truncated image data")
        else
          match endOfSubBlocks (after.drop (data + 1)) with
          | .error e => .error e
          | .ok n =>
            walk (out ++ (block :: after.take (data + 1 + n))) removed (after.drop (data + 1 + n))
    else .error (malformed "unknown block")
termination_by rest.length
decreasing_by all_goals simp only [length_drop, length_cons]; omega

def strip (bytes : List UInt8) : Except StripError Stripped :=
  if bytes.length ≤ header then .error (malformed "truncated header")
  else
    let i := header + tableSize (bytes.getD 10 0)
    if bytes.length < i then .error (malformed "colour table runs past the end")
    else match walk (bytes.take i) [] (bytes.drop i) with
      | .error e => .error e
      | .ok (out, removed) => .ok { kind := .gif, bytes := out, removed }

/-! ## The grammar -/

/-- A chain of sub-blocks, without the empty one at its end. -/
structure Chain where
  subBlocks : List (List UInt8)
  sizes : ∀ s ∈ subBlocks, s.length ≠ 0 ∧ s.length < 256

namespace Chain

def chainBytes (subBlocks : List (List UInt8)) : List UInt8 :=
  subBlocks.flatMap (fun s => UInt8.ofNat s.length :: s) ++ [0]

def bytes (c : Chain) : List UInt8 := chainBytes c.subBlocks

theorem chainBytes_cons (s : List UInt8) (subBlocks : List (List UInt8)) :
    chainBytes (s :: subBlocks) = UInt8.ofNat s.length :: (s ++ chainBytes subBlocks) := by
  simp [chainBytes]

theorem ofNat_ne_zero (h : n ≠ 0 ∧ n < 256) : UInt8.ofNat n ≠ 0 := fun heq => by
  have := congrArg UInt8.toNat heq
  rw [UInt8.toNat_ofNat', Nat.mod_eq_of_lt h.2] at this
  exact h.1 this

theorem ofNat_inj (hn : n < 256) (hk : k < 256) (h : UInt8.ofNat n = UInt8.ofNat k) : n = k := by
  have := congrArg UInt8.toNat h
  rwa [UInt8.toNat_ofNat', UInt8.toNat_ofNat', Nat.mod_eq_of_lt hn, Nat.mod_eq_of_lt hk] at this

theorem unambiguous {a b : Chain} (h : a.bytes ++ x = b.bytes ++ y) : a = b ∧ x = y := by
  obtain ⟨a, ha⟩ := a
  obtain ⟨b, hb⟩ := b
  suffices a = b ∧ x = y by
    obtain ⟨rfl, rfl⟩ := this
    exact ⟨rfl, rfl⟩
  simp only [bytes] at h
  induction a generalizing b with
  | nil =>
    cases b with
    | nil => exact ⟨rfl, (cons.inj h).2⟩
    | cons t b =>
      exact absurd (cons.inj h).1.symm (ofNat_ne_zero (hb t mem_cons_self))
  | cons s a ih =>
    cases b with
    | nil =>
      exact absurd (cons.inj h).1 (ofNat_ne_zero (ha s mem_cons_self))
    | cons t b =>
      rw [chainBytes_cons, chainBytes_cons, cons_append, cons_append, append_assoc,
        append_assoc] at h
      obtain ⟨hlength, h⟩ := cons.inj h
      have hlength := ofNat_inj (ha s mem_cons_self).2 (hb t mem_cons_self).2 hlength
      obtain ⟨rfl, htail⟩ := append_inj h hlength
      obtain ⟨rfl, hrest⟩ := ih (fun s hs => ha s (mem_cons_of_mem _ hs)) b
        (fun s hs => hb s (mem_cons_of_mem _ hs)) htail
      exact ⟨rfl, hrest⟩

end Chain

theorem exists_chain (h : endOfSubBlocks rest = .ok n) :
    ∃ (c : Chain) (after : List UInt8), rest = c.bytes ++ after ∧ c.bytes.length = n := by
  fun_induction endOfSubBlocks rest generalizing n with
  | case1 | case3 => cases h
  | case2 rest =>
    cases h
    exact ⟨⟨[], nofun⟩, rest, rfl, rfl⟩
  | case4 len rest hne hle ih =>
    cases hrec : endOfSubBlocks (rest.drop len.toNat) with
    | error e =>
      rw [hrec] at h
      cases h
    | ok k =>
      rw [hrec] at h
      cases h
      obtain ⟨⟨subBlocks, hsizes⟩, after, hafter, rfl⟩ := ih hrec
      obtain ⟨s, tail, hs, hrest⟩ := Bytes.exists_append (l := rest) (n := len.toNat) (by omega)
      rw [hrest, drop_left' hs] at hafter
      have hlen : UInt8.ofNat s.length = len := by rw [hs]; exact UInt8.ofNat_toNat
      have hpos : len.toNat ≠ 0 := fun h => hne (UInt8.toNat.inj h)
      have hsizes' : ∀ t ∈ s :: subBlocks, t.length ≠ 0 ∧ t.length < 256 :=
        forall_mem_cons.2 ⟨⟨hs ▸ hpos, hs ▸ len.toNat_lt⟩, hsizes⟩
      refine ⟨⟨s :: subBlocks, hsizes'⟩, after, ?_, ?_⟩
      · rw [hrest, hafter, Chain.bytes, Chain.bytes, Chain.chainBytes_cons, hlen, cons_append,
          append_assoc]
      · simp only [Chain.bytes, Chain.chainBytes_cons, length_cons, length_append]
        omega

inductive Block where
  | trailer
  | extension (label : UInt8) (data : Chain)
  /-- The descriptor announces a colour table; then come the code size and the pixels. -/
  | image (descriptor table : List UInt8) (codeSize : UInt8) (data : Chain)
    (descriptor_length : descriptor.length = 9)
    (table_length : table.length = tableSize (descriptor.getD 8 0))

namespace Block

def bytes : Block → List UInt8
  | .trailer => [Gif.trailer]
  | .extension label data => Gif.extension :: label :: data.bytes
  | .image descriptor table codeSize data _ _ =>
    Gif.image :: (descriptor ++ (table ++ (codeSize :: data.bytes)))

theorem unambiguous (a b : Block) (x y : List UInt8) (h : a.bytes ++ x = b.bytes ++ y) : a = b := by
  cases a with
  | trailer =>
    cases b with
    | trailer => rfl
    | extension | image => exact absurd (cons.inj h).1 (by decide)
  | extension label data =>
    cases b with
    | trailer | image => exact absurd (cons.inj h).1 (by decide)
    | extension label' data' =>
      obtain ⟨hlabel, h⟩ := cons.inj (cons.inj h).2
      rw [hlabel, (Chain.unambiguous h).1]
  | image descriptor table codeSize data hd ht =>
    cases b with
    | trailer | extension => exact absurd (cons.inj h).1 (by decide)
    | image descriptor' table' codeSize' data' hd' ht' =>
      simp only [bytes, cons_append, append_assoc, cons.injEq, true_and] at h
      obtain ⟨rfl, htable⟩ := append_inj h (by rw [hd, hd'])
      obtain ⟨rfl, hdata⟩ := append_inj htable (by rw [ht, ht'])
      obtain ⟨rfl, hchain⟩ := cons.inj hdata
      rw [(Chain.unambiguous hchain).1]

def describe : Block → Option String
  | .extension label data =>
    if label = comment then some "comment" else if isXmp label data.bytes then some "XMP" else none
  | _ => none

def closes : Block → Bool
  | .trailer => true
  | _ => false

end Block

/-- Blocks up to the trailer. -/
def format : Format Block where
  bytes := Block.bytes
  closes := Block.closes
  nonempty b := by cases b <;> exact cons_ne_nil _ _
  unambiguous := Block.unambiguous
  describe := Block.describe
  cuts := true
  mustClose := true
  describe_closes b h := by cases b <;> first | rfl | cases h
  closes_rewrite _ := rfl
  length_rewrite _ := rfl

/-! ## XMP is found inside its block

The source looks for the name in the whole file, whatever the sub-blocks are. Where the file is read
to its end, the name cannot reach past the block. -/

/-- The name has no byte that could end a chain, nor one that is a short length. -/
theorem name_bytes : ∀ b ∈ ascii "XMP DataXMP", 0x20 ≤ b.toNat := by decide +kernel

variable {c : Chain} {after : List UInt8}

theorem length_chain_of_name (hafter : after.head? ≠ some 0x58)
    (h : Bytes.get (c.bytes ++ after) 1 12 = some (ascii "XMP DataXMP")) : 12 ≤ c.bytes.length := by
  by_contra hlt
  obtain ⟨hname, -⟩ := Bytes.get_eq_some h
  have hbyte (i : Nat) (hi : i < 11) :
      (c.bytes ++ after)[1 + i]? = (ascii "XMP DataXMP")[i]? := by
    rw [hname, getElem?_drop, getElem?_take, if_pos (by omega)]
  obtain ⟨subBlocks, hsizes⟩ := c
  cases subBlocks with
  | nil =>
    -- the chain is empty, and the name would begin the next block
    have := hbyte 0 (by decide)
    rw [Chain.bytes] at this
    exact hafter (by simpa [Chain.chainBytes, head?_eq_getElem?, ascii] using this)
  | cons s subBlocks =>
    simp only [Chain.bytes, Chain.chainBytes_cons, length_cons, length_append] at hlt hbyte
    -- the length of the sub-block after the first is a byte of the name
    have hnext := hbyte s.length (by omega)
    have hindex :
        (UInt8.ofNat s.length :: (s ++ Chain.chainBytes subBlocks) ++ after)[1 + s.length]? =
        (Chain.chainBytes subBlocks ++ after)[0]? := by
      rw [Nat.add_comm, cons_append, getElem?_cons_succ, append_assoc,
        getElem?_append_right (Nat.le_refl _), Nat.sub_self]
    rw [hindex] at hnext
    have hlong (b : UInt8) (hb : (Chain.chainBytes subBlocks ++ after)[0]? = some b) :
        0x20 ≤ b.toNat := name_bytes b (mem_of_getElem? (hnext.symm.trans hb))
    cases subBlocks with
    | nil => exact absurd (hlong 0 rfl) (by decide)
    | cons t subBlocks =>
      have ht := hsizes t (by simp)
      rw [Chain.chainBytes_cons] at hlt
      have := hlong _ rfl
      rw [UInt8.toNat_ofNat'] at this
      simp only [length_cons, length_append] at hlt
      omega

theorem isXmp_append (label : UInt8) (hafter : after.head? ≠ some 0x58) :
    isXmp label (c.bytes ++ after) = isXmp label c.bytes := by
  have hget (h : 12 ≤ c.bytes.length) :
      Bytes.get (c.bytes ++ after) 1 12 = Bytes.get c.bytes 1 12 := by
    rw [Bytes.get, Bytes.get, if_pos h, if_pos (by rw [length_append]; omega),
      take_append_of_le_length h]
  have hiff : Bytes.get (c.bytes ++ after) 1 12 = some (ascii "XMP DataXMP") ↔
      Bytes.get c.bytes 1 12 = some (ascii "XMP DataXMP") :=
    ⟨fun h => hget (length_chain_of_name hafter h) ▸ h,
      fun h => (hget (Bytes.get_eq_some h).2).trans h⟩
  rw [isXmp, isXmp, Bool.eq_iff_iff]
  simp [hiff]

/-! ## The loop reads the grammar -/

theorem head_of_walk (h : walk out removed rest = .ok r) : rest.head? ≠ some 0x58 := by
  intro hhead
  cases rest with
  | nil => cases hhead
  | cons b rest =>
    obtain rfl : b = 0x58 := Option.some.inj hhead
    rw [walk.eq_def] at h
    cases h

theorem exists_image (hpacked : rest[8]? = some packed)
    (hlength : 9 + tableSize packed < rest.length)
    (hend : endOfSubBlocks (rest.drop (9 + tableSize packed + 1)) = .ok n) :
    ∃ (b : Block) (tail : List UInt8), Gif.image :: rest = b.bytes ++ tail ∧
      b.bytes.length = 9 + tableSize packed + 1 + n + 1 ∧ b.closes = false ∧ b.describe = none := by
  obtain ⟨descriptor, rest, hdescriptor, rfl⟩ :=
    Bytes.exists_append (l := rest) (n := 9) (by omega)
  rw [getElem?_append_left (by omega)] at hpacked
  rw [length_append] at hlength
  obtain ⟨table, rest, htable, rfl⟩ :=
    Bytes.exists_append (l := rest) (n := tableSize packed) (by omega)
  rw [length_append] at hlength
  cases rest with
  | nil =>
    rw [length_nil] at hlength
    omega
  | cons codeSize rest =>
    have hdrop :
        (descriptor ++ (table ++ codeSize :: rest)).drop (9 + tableSize packed + 1) = rest := by
      rw [← append_assoc, ← drop_drop,
        drop_left' (by rw [length_append, hdescriptor, htable]), drop_one,
        tail_cons]
    rw [hdrop] at hend
    obtain ⟨c, tail, rfl, rfl⟩ := exists_chain hend
    have hsize : table.length = tableSize (descriptor.getD 8 0) := by
      rw [htable, getD_eq_getElem?_getD, hpacked, Option.getD_some]
    refine ⟨.image descriptor table codeSize c hdescriptor hsize, tail, ?_, ?_, rfl, rfl⟩
    · simp [Block.bytes]
    · simp only [Block.bytes, length_cons, length_append, htable]
      omega

theorem walk_copies (h : walk out removed rest = .ok (out', removed')) :
    format.Copies out removed rest out' removed' := by
  fun_induction walk out removed rest with
  | case1 | case3 | case4 | case7 | case8 | case9 | case11 => cases h
  | case2 out removed rest =>
    cases h
    exact .close (f := format) (e := .trailer) rfl (by simp [format, Block.bytes]) rfl
  | case5 out removed label body n hend hmeta what _ ih =>
    obtain ⟨c, tail, rfl, rfl⟩ := exists_chain hend
    rw [drop_left] at ih h
    rw [isXmp_append label (head_of_walk h)] at hmeta
    have hd : format.describe (.extension label c) = some what := by
      by_cases hcomment : label = comment
      · simp [format, Block.describe, what, hcomment]
      · have hxmp : isXmp label c.bytes := by simpa [hcomment] using hmeta
        simp [format, Block.describe, what, hcomment, hxmp]
    refine .remove (f := format) (e := .extension label c) hd ?_
    have hsize : (format.bytes (.extension label c)).length -
        format.slack (.extension label c) = 2 + c.bytes.length := by
      simp only [format, Block.bytes, length_cons]
      omega
    rw [hsize]
    exact ih h
  | case6 out removed label body n hend hmeta _ ih =>
    obtain ⟨c, tail, rfl, rfl⟩ := exists_chain hend
    rw [drop_left, take_left] at ih h
    rw [isXmp_append label (head_of_walk h)] at hmeta
    have hd : format.describe (.extension label c) = none := by
      simp only [Bool.or_eq_true, decide_eq_true_eq, not_or] at hmeta
      simp [format, Block.describe, hmeta.1, hmeta.2]
    exact .keep (f := format) (e := .extension label c) rfl hd (ih h)
  | case10 out removed rest packed hpacked data hlength n hend _ _ ih =>
    obtain ⟨b, tail, hrest, hsize, hopen, hd⟩ :=
      exists_image hpacked (Nat.lt_of_not_le hlength) hend
    have htake : image :: rest.take (data + 1 + n) = b.bytes := by
      rw [← take_succ_cons, hrest, take_left' hsize]
    have hdrop : rest.drop (data + 1 + n) = tail := by
      rw [← drop_succ_cons (a := image), hrest, drop_left' hsize]
    rw [htake, hdrop] at ih h
    rw [hrest]
    exact .keep (f := format) (e := b) hopen hd (ih h)

theorem strip_cleans (h : strip bytes = .ok s) : s.kind = .gif ∧
    header + tableSize (bytes.getD 10 0) ≤ bytes.length ∧
    ∃ body blocks tail, s.bytes = bytes.take (header + tableSize (bytes.getD 10 0)) ++ body ∧
      format.Cleans (bytes.drop (header + tableSize (bytes.getD 10 0))) body s.removed blocks
        tail := by
  unfold strip at h
  split at h
  · cases h
  dsimp only at h
  split at h
  · cases h
  next hlength =>
  split at h
  · cases h
  next out removed hwalk =>
    cases h
    exact ⟨rfl, by omega, (walk_copies hwalk).exists_cleans⟩

end Ddirc.Media.Gif
