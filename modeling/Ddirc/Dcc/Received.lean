import Ddirc.Dcc.Transfer

/-! # What a download receives

`accept` of `dcc/transfer.rs` by itself, with the stream as the reads that it gives. The loop of
`receive_into` counts whole reads: it stops once the declared size is reached, and has by then
written all of the last read. -/

namespace Ddirc.Dcc
open List
variable {size : Nat}

inductive Turn where
  /-- A read of the stream; nothing at its end. -/
  | data (bytes : Bytes)
  | failed (e : TransferError)
  | cancel
  deriving Repr, DecidableEq

def received (expected : Option Nat) (content : Bytes) : Except (TransferError × Bytes) Bytes :=
  match receiveEnd expected content with
  | .ok () => .ok content
  | .error e => .error (e, content)

/-- `receive_into`, from what the unfinished file is opened with; an error comes with what was
received before it. A stream that gives nothing more has ended. -/
def receiveInto (expected : Option Nat) (content : Bytes) :
    List Turn → Except (TransferError × Bytes) Bytes
  | [] => received expected content
  | .data bytes :: turns =>
    if bytes.isEmpty then received expected content
    else
      match receiveChunk expected content bytes with
      | .more content => receiveInto expected content turns
      | .complete content => received expected content
      | .tooLarge => .error (.tooLarge (maxTransferBytes / (1024 * 1024 * 1024)), content)
  | .failed e :: _ => .error (e, content)
  | .cancel :: _ => .error (.cancelled, content)

/-- What comes of dialling the sender, and of the file operations that may fail. -/
structure Conditions where
  dial : Except TransferError Unit := .ok ()
  openFile : Except TransferError Unit := .ok ()
  rename : Except TransferError Unit := .ok ()
  /-- After an error, so much of what was received had been written. -/
  written : Nat := 0

def accept (d : Directory) (offer : DccOffer) (sender : String) (proxied : Bool) (startAt : Nat)
    (w : Conditions) (turns : List Turn) : Except TransferError String × Directory :=
  match acceptFrom d offer sender proxied startAt, w.dial with
  | .error e, _ | _, .error e => (.error e, d)
  | .ok start, .ok () =>
    let d := claimPartial d offer sender
    let left := (d.lookup (partialPath offer.filename)).getD []
    match w.openFile with
    | .error e => (.error e, giveUp d offer left e)
    | .ok () =>
      match receiveInto offer.size (openPartial d offer.filename start) turns with
      | .error (e, content) => (.error e, giveUp d offer (content.take w.written) e)
      | .ok content =>
        match w.rename with
        | .error e => (.error e, d.insert (partialPath offer.filename) content)
        | .ok () => (.ok offer.filename, finish d offer.filename content)

def streamOf : List Turn → Bytes
  | .data bytes :: turns => if bytes.isEmpty then [] else bytes ++ streamOf turns
  | _ => []

/-- No read goes beyond the `need` bytes that are still missing. -/
def fits (need : Nat) : List Turn → Bool
  | .data bytes :: turns =>
    bytes.isEmpty || bytes.length = need || bytes.length < need && fits (need - bytes.length) turns
  | _ => true

/-! ## One read after the other -/

theorem received_ok (h : received (some size) content = .ok c) :
    c = content ∧ size ≤ content.length := by
  unfold received receiveEnd at h
  dsimp only at h
  split at h
  next hend =>
    split at hend
    · cases hend
    next hsize => exact ⟨(Except.ok.inj h).symm, not_lt.1 hsize⟩
  · cases h

/-- The declared size is all there, or more than that if a read went beyond it. -/
theorem receiveInto_ok (hlen : content.length ≤ size)
    (h : receiveInto (some size) content turns = .ok c) :
    if fits (size - content.length) turns then
      c = content ++ (streamOf turns).take (size - content.length) ∧ c.length = size
    else size < c.length := by
  -- The end of the stream: nothing was missing.
  have hended {content : Bytes} (hlen : content.length ≤ size)
      (h : received (some size) content = .ok c) :
      c = content ++ [].take (size - content.length) ∧ c.length = size := by
    obtain ⟨rfl, hsize⟩ := received_ok h
    exact ⟨by rw [take_nil, append_nil], le_antisymm hlen hsize⟩
  induction turns generalizing content with
  | nil =>
    rw [fits]
    · exact hended hlen h
    · nofun
  | cons turn turns ih =>
    cases turn with
    | failed e => cases h
    | cancel => cases h
    | data bytes =>
    rw [receiveInto] at h
    rw [fits, streamOf]
    split at h
    next hempty =>
      rw [hempty, Bool.true_or, Bool.true_or, if_pos rfl]
      exact hended hlen h
    next hempty =>
    have hempty : bytes.isEmpty = false := Bool.eq_false_of_not_eq_true hempty
    rw [hempty, Bool.false_or, if_neg Bool.false_ne_true]
    unfold receiveChunk at h
    dsimp only at h
    split at h
    next hchunk =>
      -- More is missing, so the read was shorter than what was.
      split at hchunk
      · cases hchunk
      split at hchunk
      · cases hchunk
      next hmore =>
        cases hchunk
        rw [Option.any_some, decide_eq_true_eq, length_append] at hmore
        have hlonger : (content ++ bytes).length ≤ size := by
          rw [length_append]
          omega
        have hrest := ih hlonger h
        rw [length_append, ← Nat.sub_sub] at hrest
        have hne : bytes.length ≠ size - content.length := by omega
        have hlt : bytes.length < size - content.length := by omega
        rw [decide_eq_false hne, decide_eq_true hlt, Bool.false_or, Bool.true_and]
        split at hrest
        next hfits =>
          rw [if_pos hfits, take_append, take_of_length_le hlt.le, ← append_assoc]
          exact hrest
        next hfits =>
          rw [if_neg hfits]
          exact hrest
    next hchunk =>
      -- The size is reached.
      split at hchunk
      · cases hchunk
      split at hchunk
      next hdone =>
        cases hchunk
        obtain ⟨rfl, hsize⟩ := received_ok h
        rw [length_append] at hsize
        by_cases heq : bytes.length = size - content.length
        · rw [decide_eq_true heq, Bool.true_or, take_append, heq, Nat.sub_self,
            take_zero, append_nil, ← heq, take_length, length_append]
          exact ⟨rfl, by omega⟩
        · have hlt : ¬ bytes.length < size - content.length := by omega
          rw [decide_eq_false heq, decide_eq_false hlt, Bool.false_or, Bool.false_and,
            if_neg Bool.false_ne_true, length_append]
          omega
      · cases hchunk
    · cases h

/-! ## The finished file -/

theorem lookup_finish (d : Directory) (content : Bytes) :
    (finish d filename content).lookup filename = some content := by
  have hself : AList.lookup filename ((d.erase (partialPath filename)).insert filename content) =
      some content := by
    rw [Map.lookup_insert, if_pos rfl]
  have hne : filename ≠ originPath filename := fun h => by
    have := congrArg String.length h
    simp [originPath] at this
  unfold finish removeOrigin
  split
  · rw [Map.lookup_erase, if_neg hne, hself]
  · exact hself

/-- The unfinished file is not the record. -/
theorem lookup_claimPartial :
    (claimPartial d offer sender).lookup (partialPath offer.filename) =
      d.lookup (partialPath offer.filename) := by
  have hne := partialPath_ne_originPath offer.filename offer.filename
  unfold claimPartial
  split
  · unfold writeOrigin
    split
    · rfl
    · rw [Map.lookup_insert, if_neg hne]
  · unfold removeOrigin
    split
    · rw [Map.lookup_erase, if_neg hne]
    · rfl

def kept (d : Directory) (filename : String) (start : Nat) : Bytes :=
  ((d.lookup (partialPath filename)).getD []).take start

theorem openPartial_claimPartial : openPartial (claimPartial d offer sender) offer.filename start =
      kept d offer.filename start := by
  rw [openPartial, kept, lookup_claimPartial]
  split
  · rfl
  next hstart => rw [Nat.eq_zero_of_not_pos hstart, take_zero]

theorem resumableLen_le (h : resumableLen d filename sender size = some n) :
    n ≤ ((d.lookup (partialPath filename)).getD []).length := by
  rw [resumableLen] at h
  split at h
  · rw [partialLen, Option.filter_eq_some_iff, Option.map_eq_some_iff] at h
    obtain ⟨⟨content, hcontent, rfl⟩, -⟩ := h
    rw [hcontent, Option.getD_some]
  · cases h

theorem acceptFrom_ok (hsize : offer.size = some size)
    (h : acceptFrom d offer sender proxied startAt = .ok start) :
    (kept d offer.filename start).length = start ∧ start ≤ size := by
  unfold acceptFrom at h
  simp only [hsize] at h
  repeat' split at h
  all_goals cases h
  next hpoint =>
    refine ⟨?_, hpoint.2.1.le⟩
    rw [kept, length_take, Nat.min_eq_left]
    refine hpoint.2.2.trans ?_
    rw [Option.bind_some]
    cases hlen : resumableLen d offer.filename sender size with
    | none => exact Nat.zero_le _
    | some n => exact resumableLen_le hlen
  next => exact ⟨by rw [kept, take_zero, length_nil], Nat.zero_le _⟩

theorem accept_ok (h : (accept d offer sender proxied startAt w turns).1 = .ok path) :
    path = offer.filename ∧ ∃ start content,
      acceptFrom d offer sender proxied startAt = .ok start ∧
      receiveInto offer.size (kept d offer.filename start) turns = .ok content ∧
      (accept d offer sender proxied startAt w turns).2.lookup path = some content := by
  unfold accept at h ⊢
  split at h
  · cases h
  · cases h
  next start hstart _ =>
    rw [hstart]
    dsimp only at h ⊢
    split at h
    · cases h
    split at h
    · cases h
    next content hcontent =>
      split at h
      · cases h
      · cases h
        rw [openPartial_claimPartial] at hcontent
        exact ⟨rfl, start, content, rfl, hcontent, lookup_finish _ _⟩

/-- A finished download has the declared size, and is what was here of it with the rest from the
stream, just in case no read went beyond the declared end. -/
theorem finished_size_iff {size : Nat} (hsize : offer.size = some size)
    (h : (accept d offer sender proxied startAt w turns).1 = .ok path) :
    ∃ start content, acceptFrom d offer sender proxied startAt = .ok start ∧
      (accept d offer sender proxied startAt w turns).2.lookup path = some content ∧
      (content.length = size ∧
        content = kept d offer.filename start ++ (streamOf turns).take (size - start) ↔
      fits (size - start) turns = true) := by
  obtain ⟨rfl, start, content, hstart, hcontent, hfile⟩ := accept_ok h
  obtain ⟨hkept, hle⟩ := acceptFrom_ok hsize hstart
  rw [hsize] at hcontent
  have hreceived := receiveInto_ok (hkept.trans_le hle) hcontent
  rw [hkept] at hreceived
  refine ⟨start, content, hstart, hfile, ?_⟩
  split at hreceived
  next hfits => exact ⟨fun _ => hfits, fun _ => hreceived.symm⟩
  next hfits =>
    exact ⟨fun hexact => absurd hexact.1 hreceived.ne', fun h => absurd h hfits⟩

def catOffer : DccOffer :=
  { filename := "cat.jpg", addr := some (.v4 0), port := some 5001, size := some 2, token := none }

def begun : Directory :=
  AList.insert "cat.jpg.part" [65]
    (AList.insert "cat.jpg.part.from" (Str.bytes (originText "alice" 2)) ∅)

theorem finished_size_iff_begun :
    (accept begun catOffer "Alice" false 1 {} [.data [66]]).1 = .ok "cat.jpg" ∧
    (accept begun catOffer "Alice" false 1 {} [.data [66]]).2.lookup "cat.jpg" = some [65, 66] ∧
    ∃ start content, acceptFrom begun catOffer "Alice" false 1 = .ok start ∧
      (accept begun catOffer "Alice" false 1 {} [.data [66]]).2.lookup "cat.jpg" = some content ∧
      (content.length = 2 ∧
        content = kept begun "cat.jpg" start ++ (streamOf [.data [66]]).take (2 - start) ↔
      fits (2 - start) [.data [66]] = true) :=
  ⟨by decide +kernel, by decide +kernel, finished_size_iff rfl (by decide +kernel)⟩

/-- The last read has a byte too many, which ends up in the file. -/
theorem finished_too_long :
    (accept ∅ catOffer "alice" false 0 {} [.data [65], .data [66, 67]]).1 = .ok "cat.jpg" ∧
    (accept ∅ catOffer "alice" false 0 {} [.data [65], .data [66, 67]]).2.lookup "cat.jpg" =
      some [65, 66, 67] := by
  decide +kernel

end Ddirc.Dcc
