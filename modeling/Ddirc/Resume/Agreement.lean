import Ddirc.Resume.Exchange

/-! # What is kept is the beginning of the file

As long as the sender starts where the receiver does, what the receiver has is always the beginning
of the file, on disk and while it receives, and what it finishes with is the file. -/

namespace Ddirc.Resume
open List Option
open Irc Dcc Conn

variable {p : Setting} {x x' : Exchange} {d d' : Directory}

/-! ## The directory -/

theorem partialPath_ne (filename : String) : partialPath filename ≠ filename := by
  simp [partialPath]

theorem originPath_ne (filename : String) : originPath filename ≠ filename := by
  simp [originPath]

theorem lookup_removeOrigin :
    (removeOrigin d filename).lookup (partialPath filename) =
      d.lookup (partialPath filename) := by
  rw [removeOrigin]
  split
  · rw [Map.lookup_erase, if_neg (partialPath_ne_originPath filename filename)]
  · rfl

/-- What there is to carry on from is the beginning of the file. -/
def Setting.Kept (p : Setting) (d : Directory) : Prop :=
  (resumableLen d p.filename p.sender p.file.length).isSome →
    ∀ content, d.lookup (partialPath p.filename) = some content → content <+: p.file

theorem Setting.Kept.of_lookup
    (h : ∀ content, d.lookup (partialPath p.filename) = some content → content <+: p.file) :
    p.Kept d := fun _ => h

theorem kept_insert (h : content <+: p.file) :
    p.Kept (d.insert (partialPath p.filename) content) := by
  refine .of_lookup fun content' h' => ?_
  rw [Map.lookup_insert, if_pos rfl] at h'
  exact some.inj h' ▸ h

theorem kept_finish (content : Bytes) : p.Kept (finish d p.filename content) := by
  refine .of_lookup fun content' h' => ?_
  rw [finish, lookup_removeOrigin, Map.lookup_insert, if_neg (partialPath_ne _), Map.lookup_erase,
    if_pos rfl] at h'
  cases h'

theorem kept_giveUp (h : content <+: p.file) (port : Nat) (e : TransferError) :
    p.Kept (giveUp d (p.offer port) content e) := by
  rw [giveUp]
  split
  · exact kept_insert h
  · refine .of_lookup fun content' h' => ?_
    have hnone : (removeOrigin ((d.insert (partialPath p.filename) content).erase
        (partialPath p.filename)) p.filename).lookup (partialPath p.filename) = none := by
      rw [lookup_removeOrigin, Map.lookup_erase, if_pos rfl]
    cases hnone.symm.trans h'

theorem Setting.Kept.takeAway (h : p.Kept d) : p.Kept (d.erase p.filename) := by
  have hpart : (d.erase p.filename).lookup (partialPath p.filename) =
      d.lookup (partialPath p.filename) := by
    rw [Map.lookup_erase, if_neg (partialPath_ne _)]
  have horigin : (d.erase p.filename).lookup (originPath p.filename) =
      d.lookup (originPath p.filename) := by
    rw [Map.lookup_erase, if_neg (originPath_ne _)]
  rw [Kept, resumableLen, partialLen, horigin, hpart]
  exact h

/-- Where `accept` starts is inside the file and inside what there is to carry on from. -/
theorem acceptFrom_eq_ok (h : acceptFrom d (p.offer port) p.sender p.proxied startAt = .ok start) :
    start = 0 ∨ start < p.file.length ∧
      ∃ len, resumableLen d p.filename p.sender p.file.length = some len ∧ start ≤ len := by
  have hstart : start = if 0 < startAt ∧ startAt < p.file.length ∧
      startAt ≤ (resumableLen d p.filename p.sender p.file.length).getD 0 then startAt else 0 := by
    rw [acceptFrom] at h
    split at h
    · cases h
    split at h
    · cases h
    split at h
    · cases h
    split at h
    · cases h
    · exact (Except.ok.inj h).symm
  split at hstart
  next hin =>
    obtain ⟨hpos, hlt, hle⟩ := hin
    cases hlen : resumableLen d p.filename p.sender p.file.length with
    | none =>
      rw [hlen, getD_none] at hle
      omega
    | some len =>
      rw [hlen] at hle
      exact .inr ⟨hstart ▸ hlt, len, rfl, hstart ▸ hle⟩
  · exact .inl hstart

theorem openPartial_eq (h : p.Kept d) (hs : start = 0 ∨ start < p.file.length ∧
      ∃ len, resumableLen d p.filename p.sender p.file.length = some len ∧ start ≤ len) :
    openPartial d p.filename start = p.file.take start := by
  rw [openPartial]
  rcases hs with rfl | ⟨hlt, len, hlen, hle⟩
  · simp
  split
  · have hpart : partialLen d p.filename = some len := by
      rw [resumableLen] at hlen
      split at hlen
      · exact hlen
      · cases hlen
    simp only [partialLen, filter_eq_some_iff, map_eq_some_iff] at hpart
    obtain ⟨⟨content, hlookup, rfl⟩, -⟩ := hpart
    have hpre := h (by rw [hlen]; rfl) content hlookup
    rw [hlookup, getD_some, prefix_iff_eq_take.1 hpre, take_take,
      Nat.min_eq_left hle]
  next hzero =>
    obtain rfl : start = 0 := by omega
    simp

/-! ## One move -/

/-- How a download stands that started where the sender did. -/
structure Going (p : Setting) (x : Exchange) (port start : Nat) (content : Bytes) : Prop where
  soFar : content ++ x.stream <+: p.file
  inside : start = 0 ∨ start < p.file.length
  connected : x.serves.lookup port = some .connected → x.stream = [] ∧ content.length = start
  sending {position} : x.serves.lookup port = some (.sending position) →
    (content ++ x.stream).length = position

structure Sound (p : Setting) (x : Exchange) : Prop where
  kept : p.Kept x.directory
  going {a start content} : x.download = some (a, start, content) → Going p x a.port start content

/-- The sender is about to start where the receiver did. -/
def Agreed (x : Exchange) : Move → Prop
  | .readOffset => ∀ d ∈ x.download, x.serves.lookup d.1.port = some .connected →
      x.offset d.1.port = d.2.1
  | _ => True

instance (x : Exchange) : (m : Move) → Decidable (Agreed x m)
  | .readOffset => inferInstanceAs (Decidable (∀ _ ∈ _, _))
  | .offer _ | .accept _ | .toSender _ | .toReceiver _ | .loseToSender _ | .loseToReceiver _
  | .answered | .timeout | .connect | .send _ | .receive _ | .hangUp _ | .endOfStream | .fail _
  | .cancel | .takeAway => instDecidableTrue

theorem Sound.idle (hk : p.Kept x.directory) (hd : x.download = none) : Sound p x :=
  ⟨hk, fun h => by rw [hd] at h; cases h⟩

theorem Sound.same (h : Sound p x) (hd : x'.directory = x.directory) (ha : x'.download = x.download)
    (hs : x'.stream = x.stream) (hv : x'.serves = x.serves) : Sound p x' := by
  refine ⟨hd ▸ h.kept, fun {a start content} h' => ?_⟩
  obtain ⟨h1, h2, h3, h4⟩ := h.going (ha ▸ h')
  exact ⟨hs ▸ h1, h2, by rw [hs, hv]; exact h3, by rw [hs, hv]; exact h4⟩

theorem Sound.apart (h : Sound p x) (hd : x'.directory = x.directory) (ha : x'.attempt = x.attempt)
    (hs : x'.stream = x.stream) (hv : x'.serves = x.serves) : Sound p x' :=
  h.same hd (by rw [Exchange.download, ha, Exchange.download]) hs hv

theorem Sound.offer (h : Sound p x) (port : Nat) : Sound p (x.offer p port) := by
  rw [Exchange.offer]
  split
  · exact h
  · refine ⟨h.kept, fun {a start content} h' => ?_⟩
    obtain ⟨h1, h2, h3, h4⟩ := h.going h'
    refine ⟨h1, h2, fun hc => ?_, fun hc => ?_⟩
    · rw [Map.lookup_insert] at hc
      split at hc
      · cases hc
      · exact h3 hc
    · rw [Map.lookup_insert] at hc
      split at hc
      · cases hc
      · exact h4 hc

theorem Sound.accept (h : Sound p x) (port : Nat) : Sound p (x.accept p port) := by
  refine .idle h.kept ?_
  simp only [Exchange.accept, Exchange.download, bind_some]
  split
  next heq =>
    split at heq <;> cases heq
  · rfl

theorem Sound.hearRequest (h : Sound p x) (m : Message) : Sound p (x.hearRequest p m) := by
  rw [Exchange.hearRequest]
  split
  · exact h
  · exact h.apart rfl rfl rfl rfl

theorem Sound.tell (h : Sound p x) (resumed : Option (Nat × Nat)) : Sound p (x.tell resumed) := by
  unfold Exchange.tell
  split
  next id position id' port wanted ha =>
    split
    · refine h.same rfl ?_ rfl rfl
      simp [Exchange.download, ha]
    · exact h
  · exact h

theorem Sound.hearAnswer (h : Sound p x) (m : Message) : Sound p (x.hearAnswer p m) := by
  simp only [Exchange.hearAnswer]
  split
  · exact h
  · apply Sound.tell
    exact h.apart rfl rfl rfl rfl

theorem Sound.connect (h : Sound p x) (id port startAt : Nat) :
    Sound p (x.connect p id port startAt).1 := by
  simp only [Exchange.connect]
  split
  · exact .idle h.kept rfl
  next start hstart =>
    split
    · have hs := acceptFrom_eq_ok hstart
      have hcontent := openPartial_eq h.kept hs
      refine ⟨kept_insert (hcontent ▸ take_prefix ..), fun {a start' content'} h' => ?_⟩
      cases h'
      refine ⟨?_, hs.imp_right And.left, fun _ => ⟨rfl, ?_⟩, fun hc => ?_⟩
      · rw [append_nil, hcontent]
        exact take_prefix ..
      · rw [hcontent, length_take]
        omega
      · rw [Map.lookup_insert, if_pos rfl] at hc
        cases hc
    · exact .idle h.kept rfl

/-- The sender's task ends; what is on its way may still arrive. -/
theorem Sound.endServe (h : Sound p x) (hd : x.download = some (a, start, content))
    (hs : content ++ x'.stream <+: p.file) (hdir : x'.directory = x.directory)
    (ha : x'.download = x.download) : Sound p (x'.endServe a.port) := by
  refine ⟨hdir ▸ h.kept, fun {a' start' content'} h' => ?_⟩
  have hsome : x'.download = some (a', start', content') := h'
  rw [ha, hd] at hsome
  cases hsome
  have hnone : (x'.endServe a.port).serves.lookup a.port = none := by
    rw [Exchange.endServe, Map.lookup_erase, if_pos rfl]
  refine ⟨hs, (h.going hd).inside, fun hc => ?_, fun hc => ?_⟩
  · cases hnone.symm.trans hc
  · cases hnone.symm.trans hc

theorem prefix_append_take (h : l <+: file) (n : Nat) :
    l ++ (file.drop l.length).take n <+: file := by
  obtain ⟨rest, rfl⟩ := h
  rw [drop_left]
  exact (prefix_append_right_inj l).2 ( take_prefix n rest)

theorem Sound.send (h : Sound p x) (hd : x.download = some (a, start, content))
    (hv : x.serves.lookup a.port = some (.sending position)) (n : Nat) :
    Sound p (x.send p a.port position n) := by
  have hg := h.going hd
  rw [Exchange.send]
  split
  · exact h.endServe hd hg.soFar rfl rfl
  · have hlen := hg.sending hv
    refine ⟨h.kept, fun {a' start' content'} h' => ?_⟩
    cases hd.symm.trans h'
    have hdata : content ++ (x.stream ++ (p.file.drop position).take (min n chunk)) <+: p.file := by
      rw [← append_assoc, ← hlen]
      exact prefix_append_take hg.soFar _
    refine ⟨hdata, hg.inside, fun hc => ?_, fun hc => ?_⟩
    · rw [Map.lookup_insert, if_pos rfl] at hc
      cases hc
    · rw [Map.lookup_insert, if_pos rfl] at hc
      cases hc
      rw [← append_assoc, length_append, hlen]

theorem eq_file (h : content <+: p.file) (hlen : p.file.length ≤ content.length) :
    content = p.file :=
  h.eq_of_length_le hlen

theorem Sound.endAttempt (hk : p.Kept d) (port : Nat) (result : Result) :
    Sound p (x.endAttempt port d result).1 :=
  .idle hk rfl

theorem receiveChunk_eq_more (h : receiveChunk (some total) content data = .more c) :
    c = content ++ data := by
  simp only [receiveChunk] at h
  split at h
  · cases h
  split at h
  · cases h
  · exact (Received.more.inj h).symm

theorem receiveChunk_eq_complete (h : receiveChunk (some total) content data = .complete c) :
    c = content ++ data ∧ total ≤ c.length := by
  simp only [receiveChunk] at h
  split at h
  · cases h
  split at h
  next hlen =>
    cases h
    exact ⟨rfl, by simpa using hlen⟩
  · cases h

theorem take_append_drop_length (l : Bytes) (m : Nat) :
    l.take m ++ l.drop (l.take m).length = l := by
  rcases Nat.le_total m l.length with h | h
  · rw [length_take, Nat.min_eq_left h, take_append_drop]
  · rw [take_of_length_le h, drop_length, append_nil]

theorem Sound.receive (h : Sound p x) (hd : x.download = some (a, start, content)) (n : Nat) :
    Sound p (x.receive p a start content n).1 ∧
      ∀ c, (x.receive p a start content n).2 = some (.ok c) → c = p.file := by
  have hg := h.going hd
  have hsplit : content ++ x.stream.take (min n chunk) ++
      x.stream.drop (x.stream.take (min n chunk)).length = content ++ x.stream := by
    rw [append_assoc, take_append_drop_length]
  have hpre : content ++ x.stream.take (min n chunk) <+: p.file := by
    refine (prefix_append _ (x.stream.drop (x.stream.take (min n chunk)).length)).trans ?_
    rw [hsplit]
    exact hg.soFar
  simp only [Exchange.receive]
  split
  · exact ⟨h, nofun⟩
  next hdata =>
    split
    next content' hmore =>
      obtain rfl := receiveChunk_eq_more hmore
      refine ⟨⟨h.kept, fun {a' start' content'} h' => ?_⟩, nofun⟩
      cases h'
      refine ⟨?_, hg.inside, fun hc => ?_, fun hc => ?_⟩
      · rw [hsplit]
        exact hg.soFar
      · -- nothing has been sent yet, so there was nothing to read
        rw [(hg.connected hc).1] at hdata
        simp at hdata
      · rw [hsplit]
        exact hg.sending hc
    next content' hcomplete =>
      obtain ⟨rfl, hlen⟩ := receiveChunk_eq_complete hcomplete
      refine ⟨.endAttempt (kept_finish _) _ _, fun c hc => ?_⟩
      cases hc
      exact eq_file hpre hlen
    · exact ⟨.endAttempt (kept_giveUp ((prefix_append _ _).trans hg.soFar) _ _) _ _, nofun⟩

theorem Sound.endOfStream (h : Sound p x) (hd : x.download = some (a, start, content)) :
    Sound p (x.endOfStream p a content).1 ∧
      ∀ c, (x.endOfStream p a content).2 = some (.ok c) → c = p.file := by
  have hpre : content <+: p.file := (prefix_append _ _).trans (h.going hd).soFar
  rw [Exchange.endOfStream]
  split
  next hok =>
    refine ⟨.endAttempt (kept_finish _) _ _, fun c hc => ?_⟩
    cases hc
    refine eq_file hpre ?_
    simp only [receiveEnd] at hok
    split at hok
    · cases hok
    · omega
  · exact ⟨.endAttempt (kept_giveUp hpre _ _) _ _, nofun⟩

theorem Sound.stop (h : Sound p x) (hd : x.download = some (a, start, content)) (n : Nat)
    (e : TransferError) : Sound p (x.stop p a start content n e).1 :=
  .endAttempt (kept_giveUp (( take_prefix _ _).trans
    ((prefix_append _ _).trans (h.going hd).soFar)) _ _) _ _

theorem Sound.readOffset (h : Sound p x) (hd : x.download = some (a, start, content))
    (hv : x.serves.lookup a.port = some .connected) (hagreed : x.offset a.port = start) :
    Sound p { x with
      serves := x.serves.insert a.port (.sending (sendStart p.file.length (x.offset a.port)))
        } := by
  have hg := h.going hd
  obtain ⟨hstream, hlen⟩ := hg.connected hv
  refine ⟨h.kept, fun {a' start' content'} h' => ?_⟩
  cases hd.symm.trans h'
  refine ⟨hg.soFar, hg.inside, fun hc => ?_, fun hc => ?_⟩
  · rw [Map.lookup_insert, if_pos rfl] at hc
    cases hc
  · rw [Map.lookup_insert, if_pos rfl] at hc
    cases hc
    rw [hstream, append_nil, sendStart]
    have := hg.inside
    split <;> omega

/-- A move keeps what is received the beginning of the file, as long as the sender starts where the
receiver did; and what is finished with is the file. -/
theorem Sound.step (h : Sound p x) (hm : Agreed x m) :
    Sound p (x.step p m).1 ∧ ∀ c, (x.step p m).2 = some (.ok c) → c = p.file := by
  cases m with
  | offer port => exact ⟨h.offer port, nofun⟩
  | accept port =>
    simp only [Exchange.step]
    split
    · exact ⟨h, nofun⟩
    · exact ⟨h.accept port, nofun⟩
  | toSender n =>
    simp only [Exchange.step]
    split
    · refine ⟨Sound.hearRequest ?_ _, nofun⟩
      exact h.apart rfl rfl rfl rfl
    · exact ⟨h, nofun⟩
  | toReceiver n =>
    simp only [Exchange.step]
    split
    · refine ⟨Sound.hearAnswer ?_ _, nofun⟩
      exact h.apart rfl rfl rfl rfl
    · exact ⟨h, nofun⟩
  | loseToSender n | loseToReceiver n => exact ⟨h.apart rfl rfl rfl rfl, nofun⟩
  | answered | timeout =>
    simp only [Exchange.step]
    split
    · exact ⟨.idle h.kept rfl, nofun⟩
    · exact ⟨h, nofun⟩
  | connect =>
    simp only [Exchange.step]
    split
    · refine ⟨h.connect .., fun c hc => ?_⟩
      simp only [Exchange.connect] at hc
      repeat' split at hc
      all_goals cases hc
    · exact ⟨h, nofun⟩
  | readOffset =>
    simp only [Exchange.step]
    split
    next a start content hd =>
      split
      next hv => exact ⟨h.readOffset hd hv (hm _ hd hv), nofun⟩
      · exact ⟨h, nofun⟩
    · exact ⟨h, nofun⟩
  | send n =>
    simp only [Exchange.step]
    split
    next a start content hd =>
      split
      next hv => exact ⟨h.send hd hv n, nofun⟩
      · exact ⟨h, nofun⟩
    · exact ⟨h, nofun⟩
  | receive n =>
    simp only [Exchange.step]
    split
    next a start content hd => exact h.receive hd n
    · exact ⟨h, nofun⟩
  | hangUp n =>
    simp only [Exchange.step]
    split
    next a start content hd =>
      refine ⟨h.endServe hd ?_ rfl rfl, nofun⟩
      exact ((prefix_append_right_inj content).2 ( take_prefix n _)).trans
        (h.going hd).soFar
    · exact ⟨h, nofun⟩
  | endOfStream =>
    simp only [Exchange.step]
    split
    next a start content hd =>
      split
      · exact h.endOfStream hd
      · exact ⟨h, nofun⟩
    · exact ⟨h, nofun⟩
  | fail n =>
    simp only [Exchange.step]
    split
    next a start content hd => exact ⟨h.stop hd n _, nofun⟩
    · exact ⟨h, nofun⟩
  | cancel =>
    simp only [Exchange.step]
    split
    next a start content hd => exact ⟨h.stop hd 0 _, nofun⟩
    · exact ⟨.idle h.kept rfl, nofun⟩
    · exact ⟨h, nofun⟩
  | takeAway =>
    refine ⟨⟨h.kept.takeAway, fun {a start content} h' => ?_⟩, nofun⟩
    obtain ⟨h1, h2, h3, h4⟩ := h.going h'
    exact ⟨h1, h2, h3, h4⟩

/-! ## Whole runs -/

def kitten : Setting where
  file := [1, 2, 3, 4]
  name := "cat.jpg"
  filename := "cat.jpg"
  addr := .v4 0x7f000001
  sender := "ann"
  receiver := "bob"
  target := "bob"
  proxied := false

def brokenOff : List Move :=
  [.offer 5001, .accept 5001, .connect, .readOffset, .send 2, .receive 2, .hangUp 0, .endOfStream]

/-- An attempt that is carried on with: the answer is heard, and the rest arrives. -/
def carriedOn (port answer : Nat) : List Move :=
  [.offer port, .accept port, .toSender 0, .toReceiver answer, .answered, .connect, .readOffset,
    .send 2, .receive 2]

/-- An attempt whose answer comes too late. -/
def tooLate : List Move :=
  [.offer 5002, .accept 5002, .toSender 0, .timeout, .connect, .readOffset, .send 2, .receive 2,
    .send 2, .endOfStream]

end Ddirc.Resume
