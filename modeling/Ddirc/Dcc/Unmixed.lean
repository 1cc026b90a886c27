import Ddirc.Dcc.Download
import Ddirc.Dcc.Names

/-! # No file is mixed

While no two downloads of one name are under way at once, each has its three names in the directory
to itself: the final name, the unfinished file and the record beside it. What holds of these at each
stage of a task is `Acceptance.Holds`; between tasks it is `Kept`, that the unfinished file is from
whom the record says. -/

namespace Ddirc.Dcc
open Function

/-- Whom a file is from: its name, the sender, and how big they said it was. -/
abbrev Key := String × String × Option Nat

def Acceptance.key (a : Acceptance) : Key :=
  (a.filename, Str.toAsciiLowercase a.sender, a.offer.size)

def Sent (keys : List Key) (key : Key) (c : List SentByte) : Prop :=
  ∀ b ∈ c, ∃ k, b.2 = some k ∧ keys[k]? = some key

theorem Sent.mono (h : Sent keys key c) (more : List Key) : Sent (keys ++ more) key c := by
  intro b hb
  obtain ⟨k, hk, hkey⟩ := h b hb
  exact ⟨k, hk, by rw [List.getElem?_append_left (List.getElem?_eq_some_iff.1 hkey).1, hkey]⟩

theorem Sent.append (h : Sent keys key c) (h' : Sent keys key c') : Sent keys key (c ++ c') := by
  intro b hb
  exact (List.mem_append.1 hb).elim (h b) (h' b)

theorem Sent.subset (h : Sent keys key c) (hsub : c' ⊆ c) : Sent keys key c' := fun b hb =>
  h b (hsub hb)

/-! ## Names -/

theorem isWorking_partialPath : isWorking (partialPath name) :=
  isWorking_iff.2 (.inl ⟨name.toList, by simp [partialPath]⟩)

theorem isWorking_originPath : isWorking (originPath name) :=
  isWorking_iff.2 (.inr ⟨name.toList, by simp [originPath]⟩)

theorem partialPath_inj (h : partialPath name = partialPath other) : name = other := by
  simpa [partialPath] using h

theorem originPath_inj (h : originPath name = originPath other) : name = other := by
  simpa [originPath] using h

/-! ## What holds of the three names -/

/-- The unfinished file of a name is from whom the record beside it says. -/
def Kept (keys : List Key) (fs : Files SentByte) (filename : String) : Prop :=
  ∀ sender size, Acceptance.holds fs (originPath filename) =
      some (Str.bytes (originText sender size)) →
    ∀ c, fs.file (partialPath filename) = some c →
      Sent keys (filename, Str.toAsciiLowercase sender, some size) c

theorem Kept.mono (h : Kept keys fs name) (more : List Key) : Kept (keys ++ more) fs name :=
  fun sender size hrecord c hc => (h sender size hrecord c hc).mono more

theorem Kept.congr (h : Kept keys fs name)
    (hworking : fs'.file (partialPath name) = fs.file (partialPath name))
    (horigin : fs'.file (originPath name) = fs.file (originPath name)) : Kept keys fs' name := by
  unfold Kept
  rw [Acceptance.holds, horigin, hworking]
  exact h

namespace Acceptance
variable {name : String} {received : Nat} {a : Acceptance}

variable (a : Acceptance)

theorem filename_ne_partialPath (name : String) : a.filename ≠ partialPath name := fun h => by
  obtain ⟨raw, hsafe⟩ := a.safe
  have := not_isWorking_of_safe hsafe
  rw [show a.offer.filename = partialPath name from h, isWorking_partialPath] at this
  cases this

theorem filename_ne_originPath (name : String) : a.filename ≠ originPath name := fun h => by
  obtain ⟨raw, hsafe⟩ := a.safe
  have := not_isWorking_of_safe hsafe
  rw [show a.offer.filename = originPath name from h, isWorking_originPath] at this
  cases this

/-- The record, if it is one, names this acceptance's sender and size. -/
def RecordOk (fs : Files SentByte) : Prop :=
  ∀ sender size, holds fs (originPath a.filename) = some (Str.bytes (originText sender size)) →
    Str.toAsciiLowercase sender = Str.toAsciiLowercase a.sender ∧ a.offer.size = some size

/-- Before the record is written: there is something to start from if the task will not start
afresh. -/
structure Ready (keys : List Key) (fs : Files SentByte) (start : Nat) : Prop where
  free : fs.file a.filename = none
  kept : Kept keys fs a.filename
  resumes : 0 < start → ∃ size, a.offer.size = some size ∧
    holds fs (originPath a.filename) = some (a.record size) ∧
    ∃ c, fs.file (partialPath a.filename) = some c ∧ start ≤ c.length

/-- From then on the unfinished file is this acceptance's. -/
structure Owned (keys : List Key) (fs : Files SentByte) : Prop where
  free : fs.file a.filename = none
  record : a.RecordOk fs
  sent : ∀ c, fs.file (partialPath a.filename) = some c → Sent keys a.key c

def Returned (keys : List Key) (fs : Files SentByte) : Except TransferError String → Prop
  | .ok path => path = a.filename ∧ ∃ c, fs.file a.filename = some c ∧ Sent keys a.key c
  | .error _ => True

def Holds (keys : List Key) (fs : Files SentByte) : Stage → Prop
  | .checking => Kept keys fs a.filename
  | .reading => a.Ready keys fs 0 ∧ a.offer.size.isSome
  | .measuring => a.Ready keys fs 0 ∧ ∃ size, a.offer.size = some size ∧
    holds fs (originPath a.filename) = some (a.record size)
  | .dialling start | .noting start => a.Ready keys fs start
  | .judging start | .recording start => a.Ready keys fs start ∧ a.offer.size.isSome
  | .dropping start => a.Ready keys fs start ∧ a.offer.size.isNone
  | .opening start => fs.file a.filename = none ∧ a.RecordOk fs ∧
    (0 < start → a.Owned keys fs ∧ ∃ c, fs.file (partialPath a.filename) = some c ∧
      start ≤ c.length)
  | .cutting handle start => a.Owned keys fs ∧ fs.names (partialPath a.filename) = some handle ∧
    ∃ c, fs.file (partialPath a.filename) = some c ∧ start ≤ c.length
  | .receiving handle position _ buffer | .flushing handle position _ buffer =>
    a.Owned keys fs ∧ fs.names (partialPath a.filename) = some handle ∧
    (∃ c, fs.file (partialPath a.filename) = some c ∧ c.length = position) ∧
    Sent keys a.key buffer
  | .naming | .failing _ | .removing _ => a.Owned keys fs
  | .forgetting result | .erasing result =>
    fs.file (partialPath a.filename) = none ∧ a.Returned keys fs result
  | .ended result => Kept keys fs a.filename ∧ a.Returned keys fs result

variable {a}

theorem Owned.kept (h : a.Owned keys fs) : Kept keys fs a.filename := by
  intro sender size hrecord c hc
  obtain ⟨hsender, hsize⟩ := h.record sender size hrecord
  have := h.sent c hc
  rwa [key, hsize, ← hsender] at this

theorem kept_of_no_part (h : fs.file (partialPath name) = none) :
    Kept keys fs name := fun _ _ _ c hc => by
  rw [h] at hc
  cases hc

/-- The three names are all that it is about, and more offers make no difference. -/
theorem Holds.congr (hkeys : keys' = keys ++ more)
    (hfile : fs'.file a.filename = fs.file a.filename)
    (hworking : fs'.file (partialPath a.filename) = fs.file (partialPath a.filename))
    (horigin : fs'.file (originPath a.filename) = fs.file (originPath a.filename))
    (hnames : fs'.names (partialPath a.filename) = fs.names (partialPath a.filename))
    (h : a.Holds keys fs stage) : a.Holds keys' fs' stage := by
  subst hkeys
  have hholds : holds fs' (originPath a.filename) = holds fs (originPath a.filename) := by
    rw [holds, holds, horigin]
  have hkept (h : Kept keys fs a.filename) : Kept (keys ++ more) fs' a.filename :=
    (h.congr hworking horigin).mono more
  have hrecord (h : a.RecordOk fs) : a.RecordOk fs' := by
    unfold RecordOk
    rw [hholds]
    exact h
  have howned (h : a.Owned keys fs) : a.Owned (keys ++ more) fs' :=
    ⟨hfile.trans h.free, hrecord h.record, fun c hc => (h.sent c (hworking ▸ hc)).mono more⟩
  have hready {start} (h : a.Ready keys fs start) : a.Ready (keys ++ more) fs' start :=
    ⟨hfile.trans h.free, hkept h.kept, by rw [hholds, hworking]; exact h.resumes⟩
  have hreturned {result} (h : a.Returned keys fs result) :
      a.Returned (keys ++ more) fs' result := by
    cases result with
    | error e => trivial
    | ok path =>
      obtain ⟨hpath, c, hc, hsent⟩ := h
      exact ⟨hpath, c, hfile.trans hc, hsent.mono more⟩
  cases stage with
  | checking => exact hkept h
  | ended => exact ⟨hkept h.1, hreturned h.2⟩
  | dialling | noting => exact hready h
  | measuring => exact ⟨hready h.1, by rw [hholds]; exact h.2⟩
  | reading | judging | recording | dropping => exact ⟨hready h.1, h.2⟩
  | opening => exact ⟨hfile.trans h.1, hrecord h.2.1, fun hs =>
      ⟨howned (h.2.2 hs).1, by rw [hworking]; exact (h.2.2 hs).2⟩⟩
  | cutting => exact ⟨howned h.1, hnames.trans h.2.1, by rw [hworking]; exact h.2.2⟩
  | receiving | flushing =>
    exact ⟨howned h.1, hnames.trans h.2.1, by rw [hworking]; exact h.2.2.1, h.2.2.2.mono more⟩
  | naming | failing | removing => exact howned h
  | forgetting | erasing => exact ⟨hworking.trans h.1, hreturned h.2⟩

/-! ## What a step does -/

/-- A step keeps to the three names, and the final name is only ever given to a new file. -/
structure Moves (a : Acceptance) (keys : List Key) (fs : Files SentByte)
    (r : Files SentByte × Stage) : Prop where
  holds : a.Holds keys r.1 r.2
  frame : ∀ name, name ≠ a.filename → name ≠ partialPath a.filename →
    name ≠ originPath a.filename → r.1.file name = fs.file name ∧ r.1.names name = fs.names name
  final : r.1.file a.filename = fs.file a.filename ∨
    fs.file a.filename = none ∧ ∃ c, r.1.file a.filename = some c ∧ Sent keys a.key c

theorem Moves.same (h : a.Holds keys fs stage) : a.Moves keys fs (fs, stage) :=
  ⟨h, fun _ _ _ _ => ⟨rfl, rfl⟩, .inl rfl⟩

theorem Moves.update (hname : name ≠ a.filename)
    (hown : name = partialPath a.filename ∨ name = originPath a.filename)
    (hfile : fs'.file = update fs.file name c)
    (hnames : ∀ other, other ≠ name → fs'.names other = fs.names other)
    (h : a.Holds keys fs' stage) : a.Moves keys fs (fs', stage) := by
  refine ⟨h, fun other _ hworking horigin => ?_, .inl ?_⟩
  · have hne : other ≠ name := by
      rcases hown with rfl | rfl
      · exact hworking
      · exact horigin
    exact ⟨by rw [hfile, update_of_ne hne], hnames other hne⟩
  · rw [hfile, update_of_ne (Ne.symm hname)]

/-- The places where an error would leave the record and the unfinished file at odds. -/
def mustSucceed : Stage → Choice → Bool
  | .recording _, .fail _ | .dropping _, .fail _ | .opening _, .fail _ => true
  | _, _ => false

theorem isRecord_of_text {sender : String} {size : Nat}
    (h : holds fs (originPath a.filename) = some (Str.bytes (originText sender size))) :
    a.isRecord fs := by
  have hfront : (Str.bytes (originText sender size)).take (Str.len originMagic) =
      Str.bytes originMagic := by
    have happend : Str.bytes (originText sender size) = Str.bytes originMagic ++
        Str.bytes
          ("\nfrom=" ++ Str.toAsciiLowercase sender ++ "\nsize=" ++ toString size ++ "\n") := by
      simp [Str.bytes, originText]
    rw [happend, List.take_left' (by decide)]
  rw [isRecord, h, Option.any_some, hfront, beq_self_eq_true]

theorem recordOk_of_not_isRecord (h : a.isRecord fs ≠ true) : a.RecordOk fs :=
  fun _ _ htext => absurd (isRecord_of_text htext) h

theorem startPoint_zero : a.startPoint 0 = 0 := by
  unfold startPoint
  split
  · rw [if_neg (by omega)]
  · rfl

/-- What was left by an earlier attempt is from the same sender. -/
theorem Ready.owned (h : a.Ready keys fs start) (hstart : 0 < start) :
    a.Owned keys fs ∧ ∃ c, fs.file (partialPath a.filename) = some c ∧ start ≤ c.length := by
  obtain ⟨size, hsize, hrecord, hworking⟩ := h.resumes hstart
  refine ⟨⟨h.free, fun sender n htext => ?_, fun c hc => ?_⟩, hworking⟩
  · rw [hrecord] at htext
    obtain ⟨hsender, rfl⟩ := originText_inj (Str.bytes_inj (Option.some.inj htext))
    exact ⟨hsender.symm, hsize⟩
  · have := h.kept a.sender size hrecord c hc
    rwa [key, hsize]

theorem writeAt_end (h : c.length = position) :
    c.take position ++ List.replicate (position - c.length) zero ++ data ++
      c.drop (position + data.length) = c ++ data := by
  subst h
  simp

/-- A record that agrees up to one byte more than expected is the one expected. -/
theorem eq_of_take_succ {c expected : List UInt8} (h : c.take (expected.length + 1) = expected) :
    c = expected := by
  have hlength := congrArg List.length h
  rw [List.length_take] at hlength
  rw [← h, List.take_of_length_le (by omega)]

theorem moves_checking (h : a.Holds keys fs .checking) :
    a.Moves keys fs (a.step k fs .checking choice) := by
  have hready (hfree : (fs.file a.filename).isSome ≠ true) : a.Ready keys fs 0 :=
    ⟨by simpa using hfree, h, fun h => absurd h (Nat.lt_irrefl 0)⟩
  unfold step
  dsimp only
  split
  · exact .same ⟨h, trivial⟩
  next hfree =>
    split
    next hsize => exact .same ⟨hready hfree, hsize⟩
    · rw [startPoint_zero]
      exact .same (hready hfree)

theorem moves_reading (h : a.Holds keys fs .reading) :
    a.Moves keys fs (a.step k fs .reading choice) := by
  obtain ⟨hready, hsize⟩ := h
  obtain ⟨size, hsize⟩ := Option.isSome_iff_exists.1 hsize
  unfold step
  dsimp only
  split
  next hrecord =>
    simp only [hsize, Option.map_some, Option.getD_some, Option.map_eq_some_iff] at hrecord
    obtain ⟨c, hc, hrecord⟩ := hrecord
    exact .same ⟨hready, size, hsize, by rw [hc, eq_of_take_succ hrecord]⟩
  · rw [startPoint_zero]
    exact .same hready

theorem moves_measuring (h : a.Holds keys fs .measuring) :
    a.Moves keys fs (a.step k fs .measuring choice) := by
  obtain ⟨hready, size, hsize, hrecord⟩ := h
  refine .same ⟨hready.free, hready.kept, fun hstart => ⟨size, hsize, hrecord, ?_⟩⟩
  simp only [startPoint, hsize] at hstart ⊢
  split at hstart
  next hpoint =>
    rw [if_pos hpoint]
    unfold partialLen at hpoint
    cases hfile : fs.file (partialPath a.filename) with
    | none =>
      simp [hfile] at hpoint
      omega
    | some c =>
      refine ⟨c, rfl, ?_⟩
      have := hpoint.2.2
      simp only [hfile, Option.map_some, Option.filter_some] at this
      split at this <;> simp at this <;> omega
  · exact absurd hstart (Nat.lt_irrefl 0)

theorem moves_noting (h : a.Holds keys fs (.noting start)) :
    a.Moves keys fs (a.step k fs (.noting start) choice) := by
  have hready : a.Ready keys fs start := h
  unfold step
  dsimp only
  split
  next hsize =>
    split
    · exact .same ⟨hready, hsize⟩
    · exact .same ⟨hready, hsize⟩
  next hsize =>
    split
    · exact .same ⟨hready, by simpa using hsize⟩
    next hrecord =>
      exact .same ⟨hready.free, recordOk_of_not_isRecord hrecord, hready.owned⟩

theorem moves_judging (h : a.Holds keys fs (.judging start)) :
    a.Moves keys fs (a.step k fs (.judging start) choice) := by
  obtain ⟨hready, hsize⟩ := h
  unfold step
  dsimp only
  split
  · exact .same ⟨hready, hsize⟩
  next hrecord => exact .same ⟨hready.free, recordOk_of_not_isRecord hrecord, hready.owned⟩

theorem originPath_ne_filename (a : Acceptance) : originPath a.filename ≠ a.filename :=
  Ne.symm (a.filename_ne_originPath a.filename)

theorem partialPath_ne_filename (a : Acceptance) : partialPath a.filename ≠ a.filename :=
  Ne.symm (a.filename_ne_partialPath a.filename)

theorem moves_recording (h : a.Holds keys fs (.recording start)) :
    a.Moves keys fs (fs.write (originPath a.filename)
      (((a.offer.size.map a.record).getD []).map (·, none)), .opening start) := by
  obtain ⟨hready, hsize⟩ := h
  obtain ⟨size, hsize⟩ := Option.isSome_iff_exists.1 hsize
  have hfile := Files.file_write fs (originPath a.filename)
    (((a.offer.size.map a.record).getD []).map (·, none))
  refine .update a.originPath_ne_filename (.inr rfl) hfile
    (fun other hne => Files.names_write_ne hne _) ?_
  generalize fs.write _ _ = fs' at hfile
  have hfree : fs'.file a.filename = none := by
    rw [hfile, update_of_ne (Ne.symm a.originPath_ne_filename), hready.free]
  have hworking : fs'.file (partialPath a.filename) = fs.file (partialPath a.filename) := by
    rw [hfile, update_of_ne (partialPath_ne_originPath _ _)]
  have hrecord : a.RecordOk fs' := by
    intro sender n htext
    rw [holds, hfile, update_self, hsize] at htext
    simp only [Option.map_some, Option.getD_some, List.map_map, comp_def, List.map_id',
      Option.some.injEq] at htext
    obtain ⟨hsender, rfl⟩ := originText_inj (Str.bytes_inj htext)
    exact ⟨hsender.symm, hsize⟩
  refine ⟨hfree, hrecord, fun hstart => ?_⟩
  obtain ⟨howned, hlength⟩ := hready.owned hstart
  exact ⟨⟨hfree, hrecord, hworking ▸ howned.sent⟩, hworking ▸ hlength⟩

theorem moves_dropping (h : a.Holds keys fs (.dropping start)) :
    a.Moves keys fs (fs.remove (originPath a.filename), .opening start) := by
  obtain ⟨hready, hsize⟩ := h
  have hfile := Files.file_remove fs (originPath a.filename)
  refine .update a.originPath_ne_filename (.inr rfl) hfile
    (fun other hne => Files.names_remove_ne hne) ?_
  generalize fs.remove _ = fs' at hfile
  refine ⟨?_, fun sender n htext => ?_, fun hstart => ?_⟩
  · rw [hfile, update_of_ne (Ne.symm a.originPath_ne_filename), hready.free]
  · rw [holds, hfile, update_self] at htext
    cases htext
  · obtain ⟨size, hsome, -⟩ := hready.resumes hstart
    rw [hsome] at hsize
    cases hsize

theorem moves_opening (h : a.Holds keys fs (.opening start))
    (hchoice : mustSucceed (.opening start) choice = false) :
    a.Moves keys fs (a.step k fs (.opening start) choice) := by
  obtain ⟨hfree, hrecord, hresumes⟩ := h
  have hstep : a.step k fs (.opening start) choice = a.step k fs (.opening start) .go := by
    cases choice with
    | fail e => cases hchoice
    | _ => rfl
  rw [hstep]
  unfold step
  dsimp only
  split
  next hstart =>
    obtain ⟨howned, c, hc, hlength⟩ := hresumes hstart
    split
    next hnames =>
      rw [Files.file, hnames] at hc
      cases hc
    next handle hnames => exact .same ⟨howned, hnames, c, hc, hlength⟩
  next =>
    have hfile := Files.file_create fs (partialPath a.filename)
    have hnames := Files.names_create fs (partialPath a.filename)
    refine .update a.partialPath_ne_filename (.inl rfl) hfile
      (fun other hne => Files.names_create_ne hne)
        ⟨⟨?_, ?_, ?_⟩, hnames, ⟨[], ?_, rfl⟩, by rintro _ ⟨⟩⟩
    · rw [hfile, update_of_ne (Ne.symm a.partialPath_ne_filename), hfree]
    · intro sender n htext
      rw [holds, hfile, update_of_ne (Ne.symm (partialPath_ne_originPath _ _))] at htext
      exact hrecord sender n htext
    · intro c hc
      rw [hfile, update_self] at hc
      cases hc
      rintro _ ⟨⟩
    · rw [hfile, update_self]

theorem Owned.update (h : a.Owned keys fs)
    (hfile : fs'.file = update fs.file (partialPath a.filename) (some c))
    (hsent : Sent keys a.key c) : a.Owned keys fs' := by
  refine ⟨?_, fun sender n htext => ?_, fun c' hc' => ?_⟩
  · rw [hfile, update_of_ne (Ne.symm a.partialPath_ne_filename), h.free]
  · rw [holds, hfile, update_of_ne (Ne.symm (partialPath_ne_originPath _ _))] at htext
    exact h.record sender n htext
  · rw [hfile, update_self] at hc'
    cases hc'
    exact hsent

theorem moves_cutting (h : a.Holds keys fs (.cutting handle start)) :
    a.Moves keys fs (fs.setLen zero handle start, .receiving handle start start []) := by
  obtain ⟨howned, hnames, c, hc, hlength⟩ := h
  rw [Files.file_eq_some hnames] at hc
  have hfile := Files.file_setLen zero hnames start
  rw [Option.some.inj hc, Nat.sub_eq_zero_of_le hlength, List.replicate_zero,
    List.append_nil] at hfile
  have hsent : Sent keys a.key c := howned.sent c (by rw [Files.file_eq_some hnames, hc])
  refine .update a.partialPath_ne_filename (.inl rfl) hfile (fun _ _ => rfl)
    ⟨howned.update hfile (hsent.subset (List.take_subset _ _)), hnames,
      ⟨c.take start, ?_, ?_⟩, nofun⟩
  · rw [hfile, update_self]
  · rw [List.length_take, Nat.min_eq_left hlength]

theorem moves_write (h : a.Holds keys fs (.receiving handle position received (data ++ rest))) :
    a.Moves keys fs (fs.writeAt zero handle position data,
      .receiving handle (position + data.length) received rest) := by
  obtain ⟨howned, hnames, ⟨c, hc, hlength⟩, hbuffer⟩ := h
  have hsent : Sent keys a.key c := howned.sent c hc
  rw [Files.file_eq_some hnames] at hc
  have hfile := Files.file_writeAt zero hnames position data
  rw [Option.some.inj hc, writeAt_end hlength] at hfile
  have hdata := hbuffer.subset (List.subset_append_left data rest)
  refine .update a.partialPath_ne_filename (.inl rfl) hfile (fun _ _ => rfl)
    ⟨howned.update hfile (hsent.append hdata), hnames, ⟨c ++ data, ?_, ?_⟩,
      hbuffer.subset (List.subset_append_right data rest)⟩
  · rw [hfile, update_self]
  · rw [List.length_append, hlength]

theorem moves_receiving (hkey : keys[k]? = some a.key)
    (h : a.Holds keys fs (.receiving handle position received buffer)) :
    a.Moves keys fs (a.step k fs (.receiving handle position received buffer) choice) := by
  cases choice with
  | go => exact .same h
  | fail e => exact .same h.1
  | cancel => exact .same h.1
  | write n => exact moves_write (by rw [List.take_append_drop]; exact h)
  | data bytes =>
    cases bytes with
    | nil => exact .same h
    | cons b bytes =>
      have hdata : Sent keys a.key ((b :: bytes).map (·, some k)) := by
        intro x hx
        obtain ⟨y, -, rfl⟩ := List.mem_map.1 hx
        exact ⟨k, rfl, hkey⟩
      obtain ⟨howned, hnames, hlength, hbuffer⟩ := h
      unfold step
      dsimp only
      split
      · exact .same howned
      split <;> exact .same ⟨howned, hnames, hlength, hbuffer.append hdata⟩

theorem moves_flushing (h : a.Holds keys fs (.flushing handle position received buffer)) :
    a.Moves keys fs (a.step k fs (.flushing handle position received buffer) choice) := by
  have hwrite : a.Moves keys fs (fs.writeAt zero handle position buffer,
      .receiving handle (position + buffer.length) received []) :=
    moves_write (by rw [List.append_nil]; exact h)
  have hstage (stage : Stage) (hstage : a.Owned keys (fs.writeAt zero handle position buffer) →
      a.Holds keys (fs.writeAt zero handle position buffer) stage) :
      a.Moves keys fs (fs.writeAt zero handle position buffer, stage) :=
    ⟨hstage hwrite.holds.1, hwrite.frame, hwrite.final⟩
  have hgo : a.Moves keys fs (a.step k fs (.flushing handle position received buffer) .go) := by
    unfold step
    dsimp only
    split
    · split
      · exact hstage _ id
      · exact hstage _ id
    · exact hstage _ id
  cases choice with
  | fail e => exact .same h.1
  | _ => exact hgo

/-- The final name was free, and goes to a file that was all sent for this offer. -/
theorem moves_naming (h : a.Holds keys fs .naming) :
    a.Moves keys fs (a.step k fs .naming choice) := by
  have howned : a.Owned keys fs := h
  have hgo : a.Moves keys fs (a.step k fs .naming .go) := by
    unfold step
    dsimp only
    split
    next hrename => exact .same ⟨kept_of_no_part (Files.rename_eq_none.1 hrename), trivial⟩
    next fs' hrename =>
      have hfile := Files.file_rename hrename
      have hfinal : ∃ c, fs'.file a.filename = some c ∧ Sent keys a.key c := by
        cases hc : fs.file (partialPath a.filename) with
        | none =>
          rw [Files.rename_eq_none.2 hc] at hrename
          cases hrename
        | some c => exact ⟨c, by rw [hfile, update_self, hc], howned.sent c hc⟩
      refine ⟨⟨?_, rfl, hfinal⟩, fun name hname hworking _ =>
        ⟨?_, Files.names_rename_ne hrename hworking hname⟩, .inr ⟨howned.free, hfinal⟩⟩
      · rw [hfile, update_of_ne a.partialPath_ne_filename, update_self]
      · rw [hfile, update_of_ne hname, update_of_ne hworking]
  cases choice with
  | fail e => exact .same ⟨howned.kept, trivial⟩
  | _ => exact hgo

theorem moves_removing : a.Moves keys fs (a.step k fs (.removing e) choice) := by
  have hfile := Files.file_remove fs (partialPath a.filename)
  refine .update a.partialPath_ne_filename (.inl rfl) hfile
    (fun other hne => Files.names_remove_ne hne) ⟨?_, trivial⟩
  rw [hfile, update_self]

theorem moves_erasing (h : a.Holds keys fs (.erasing result)) :
    a.Moves keys fs (a.step k fs (.erasing result) choice) := by
  have hfile := Files.file_remove fs (originPath a.filename)
  refine .update a.originPath_ne_filename (.inr rfl) hfile
    (fun other hne => Files.names_remove_ne hne) ⟨kept_of_no_part ?_, ?_⟩
  · rw [hfile, update_of_ne (partialPath_ne_originPath _ _)]
    exact h.1
  · cases result with
    | error e => trivial
    | ok path =>
      rw [Returned, hfile, update_of_ne (Ne.symm a.originPath_ne_filename)]
      exact h.2

/-- Every step of a task keeps to its three names and to what holds of them. -/
theorem step_moves (hkey : keys[k]? = some a.key) (h : a.Holds keys fs stage)
    (hchoice : mustSucceed stage choice = false) : a.Moves keys fs (a.step k fs stage choice) := by
  cases stage with
  | checking => exact moves_checking h
  | reading => exact moves_reading h
  | measuring => exact moves_measuring h
  | dialling start =>
    have hready : a.Ready keys fs start := h
    cases choice with
    | fail e => exact .same ⟨hready.kept, trivial⟩
    | _ => exact .same h
  | noting start => exact moves_noting h
  | judging start => exact moves_judging h
  | recording start =>
    cases choice with
    | fail e => cases hchoice
    | _ => exact moves_recording h
  | dropping start =>
    cases choice with
    | fail e => cases hchoice
    | _ => exact moves_dropping h
  | opening start => exact moves_opening h hchoice
  | cutting handle start =>
    cases choice with
    | fail e => exact .same h.1
    | _ => exact moves_cutting h
  | receiving handle position received buffer => exact moves_receiving hkey h
  | flushing handle position received buffer => exact moves_flushing h
  | naming => exact moves_naming h
  | failing e =>
    have howned : a.Owned keys fs := h
    unfold step
    dsimp only
    split
    · exact .same ⟨howned.kept, trivial⟩
    · exact .same h
  | removing e => exact moves_removing
  | forgetting result =>
    unfold step
    dsimp only
    split
    · exact .same h
    · exact .same ⟨kept_of_no_part h.1, h.2⟩
  | erasing result => exact moves_erasing h
  | ended result => exact .same h

theorem Moves.other (h : a.Moves keys fs r) (hname : name ≠ a.filename) :
    r.1.file (partialPath name) = fs.file (partialPath name) ∧
      r.1.names (partialPath name) = fs.names (partialPath name) ∧
      r.1.file (originPath name) = fs.file (originPath name) := by
  have hworking := h.frame (partialPath name) (Ne.symm (a.filename_ne_partialPath name))
    (fun heq => hname (partialPath_inj heq)) (partialPath_ne_originPath _ _)
  have horigin := h.frame (originPath name) (Ne.symm (a.filename_ne_originPath name))
    (Ne.symm (partialPath_ne_originPath _ _)) fun heq => hname (originPath_inj heq)
  exact ⟨hworking.1, hworking.2, horigin.1⟩

theorem Moves.final_other (h : a.Moves keys fs r) (hname : name ≠ a.filename)
    (hworking : isWorking name = false) : r.1.file name = fs.file name := by
  refine (h.frame name hname ?_ ?_).1
  · rintro rfl
    rw [isWorking_partialPath] at hworking
    cases hworking
  · rintro rfl
    rw [isWorking_originPath] at hworking
    cases hworking

end Acceptance

/-! ## All the tasks -/

namespace Downloads
variable {d : Downloads}

def keys (d : Downloads) : List Key := d.tasks.map (·.acceptance.key)

/-- What the moves of a run have to keep to: no download begins while one of the same name is under
way, and the record and the unfinished file can be written. -/
def Alone (d : Downloads) : Move → Prop
  | .accept a => ∀ t ∈ d.tasks, t.stage.isEnded = false → t.acceptance.filename ≠ a.filename
  | .act k c => ∀ t ∈ d.tasks[k]?, Acceptance.mustSucceed t.stage c = false

instance (d : Downloads) : (m : Move) → Decidable (d.Alone m)
  | .accept _ => inferInstanceAs (Decidable (∀ t ∈ d.tasks, _ → _))
  | .act _ _ => inferInstanceAs (Decidable (∀ t ∈ d.tasks[_]?, _))

/-- A file is as it was at the start, or it was all sent for one offer. -/
def Whole (fs : Files SentByte) (d : Downloads) (name : String) (c : List SentByte) : Prop :=
  fs.file name = some c ∨ ∃ sender size, Sent d.keys (name, sender, size) c

def Runs (d : Downloads) (i : Nat) (t : Task) : Prop :=
  d.tasks[i]? = some t ∧ t.stage.isEnded = false

structure Inv (fs : Files SentByte) (d : Downloads) : Prop where
  alone : ∀ {i j : Nat} {s t : Task}, d.Runs i s → d.Runs j t →
    s.acceptance.filename = t.acceptance.filename → i = j
  holds : ∀ {i : Nat} {t : Task}, d.Runs i t → t.acceptance.Holds d.keys d.files t.stage
  kept : ∀ name, (∀ i t, d.Runs i t → t.acceptance.filename ≠ name) → Kept d.keys d.files name
  whole : ∀ name c, isWorking name = false → d.files.file name = some c → d.Whole fs name c

def Spares (d d' : Downloads) : Prop :=
  ∀ name c, isWorking name = false → d.files.file name = some c → d'.files.file name = some c

theorem Whole.mono {d d' : Downloads} (hkeys : ∃ more, d'.keys = d.keys ++ more)
    (h : d.Whole fs name c) : d'.Whole fs name c := by
  obtain ⟨more, hkeys⟩ := hkeys
  refine h.imp_right fun ⟨sender, size, hsent⟩ => ⟨sender, size, ?_⟩
  rw [hkeys]
  exact hsent.mono more

theorem begin_cases (a : Acceptance) : a.begin = .checking ∨ ∃ e, a.begin = .ended (.error e) := by
  unfold Acceptance.begin
  repeat' split
  all_goals first | exact .inl rfl | exact .inr ⟨_, rfl⟩

theorem runs_accept (h : (d.step (.accept a)).1.Runs i t) :
    d.Runs i t ∨ i = d.tasks.length ∧ t = { acceptance := a, stage := .checking } := by
  obtain ⟨ht, hrun⟩ := h
  simp only [step, List.getElem?_append] at ht
  split at ht
  · exact .inl ⟨ht, hrun⟩
  next hle =>
    rw [List.getElem?_singleton] at ht
    split at ht
    next hi =>
      cases ht
      rcases begin_cases a with hbegin | ⟨e, hbegin⟩
      · exact .inr ⟨by omega, by rw [hbegin]⟩
      · rw [hbegin] at hrun
        cases hrun
    · cases ht

theorem Inv.accept (h : d.Inv fs) (halone : d.Alone (.accept a)) :
    Inv fs (d.step (.accept a)).1 := by
  have hkeys : (d.step (.accept a)).1.keys = d.keys ++ [a.key] := by simp [step, keys]
  have hold {i t} (ht : d.Runs i t) : (d.step (.accept a)).1.Runs i t :=
    ⟨(List.getElem?_append_left (List.getElem?_eq_some_iff.1 ht.1).1).trans ht.1, ht.2⟩
  have hkept (name : String) (hname : ∀ i t, d.Runs i t → t.acceptance.filename ≠ name) :
      Kept (d.keys ++ [a.key]) d.files name := (h.kept name hname).mono _
  refine ⟨fun {i j s t} hs ht hname => ?_, fun {i t} ht => ?_, fun name hname => ?_,
    fun name c hname hc => ?_⟩
  · rcases runs_accept hs with hs | ⟨rfl, rfl⟩ <;> rcases runs_accept ht with ht | ⟨rfl, rfl⟩
    · exact h.alone hs ht hname
    · exact absurd hname (halone s (List.mem_of_getElem? hs.1) hs.2)
    · exact absurd hname.symm (halone t (List.mem_of_getElem? ht.1) ht.2)
    · rfl
  · rw [hkeys]
    rcases runs_accept ht with ht | ⟨rfl, rfl⟩
    · exact (h.holds ht).congr rfl rfl rfl rfl rfl
    · exact hkept a.filename fun i t ht => halone t (List.mem_of_getElem? ht.1) ht.2
  · rw [hkeys]
    exact hkept name fun i t ht => hname i t (hold ht)
  · exact (h.whole name c hname hc).mono ⟨_, hkeys⟩

theorem set_eq_self {l : List α} (h : l[k]? = some x) : l.set k x = l := by
  obtain ⟨hk, rfl⟩ := List.getElem?_eq_some_iff.1 h
  exact List.set_getElem_self hk

theorem Inv.act (h : d.Inv fs) (halone : d.Alone (.act k c)) :
    Inv fs (d.step (.act k c)).1 ∧ d.Spares (d.step (.act k c)).1 := by
  have hsame : Inv fs d ∧ d.Spares d := ⟨h, fun _ _ _ hc => hc⟩
  cases htask : d.tasks[k]? with
  | none =>
    simp only [step, htask]
    exact hsame
  | some task =>
  obtain ⟨a, stage⟩ := task
  simp only [step, htask]
  cases hended : stage.isEnded with
  | true =>
    obtain ⟨result, rfl⟩ : ∃ result, stage = .ended result := by
      cases stage with
      | ended result => exact ⟨result, rfl⟩
      | _ => cases hended
    simp only [Acceptance.step, set_eq_self htask]
    exact hsame
  | false =>
  have hkey : d.keys[k]? = some a.key := by simp [keys, htask]
  have hrun : d.Runs k ⟨a, stage⟩ := ⟨htask, hended⟩
  have hmoves := Acceptance.step_moves hkey (h.holds hrun) (halone _ htask)
  generalize a.step k d.files stage c = r at hmoves
  have hkeys : keys { files := r.1, tasks := d.tasks.set k ⟨a, r.2⟩ } = d.keys := by
    rw [keys, List.map_set]
    exact set_eq_self hkey
  -- the others are where they were, under other names
  have hruns {i t} (ht : Runs { files := r.1, tasks := d.tasks.set k ⟨a, r.2⟩ } i t) :
      d.Runs i t ∧ t.acceptance.filename ≠ a.filename ∧ i ≠ k ∨
        i = k ∧ t = ⟨a, r.2⟩ := by
    obtain ⟨ht, hrunning⟩ := ht
    rw [List.getElem?_set] at ht
    split at ht
    next hik =>
      subst hik
      split at ht
      · exact .inr ⟨rfl, (Option.some.inj ht).symm⟩
      · cases ht
    next hik =>
      exact .inl ⟨⟨ht, hrunning⟩, fun hname => hik (h.alone hrun ⟨ht, hrunning⟩ hname.symm),
        Ne.symm hik⟩
  have hspares : d.Spares { files := r.1, tasks := d.tasks.set k ⟨a, r.2⟩ } := by
    intro name c hworking hc
    by_cases hname : name = a.filename
    · subst hname
      rcases hmoves.final with hfinal | ⟨hfree, -⟩
      · exact hfinal.trans hc
      · rw [hfree] at hc
        cases hc
    · exact (hmoves.final_other hname hworking).trans hc
  refine ⟨⟨fun {i j s t} hs ht hname => ?_, fun {i t} ht => ?_, fun name hname => ?_,
    fun name c hworking hc => ?_⟩, hspares⟩
  · rcases hruns hs with ⟨hs, hsname, -⟩ | ⟨rfl, rfl⟩ <;>
      rcases hruns ht with ⟨ht, htname, -⟩ | ⟨rfl, rfl⟩
    · exact h.alone hs ht hname
    · exact absurd hname hsname
    · exact absurd hname.symm htname
    · rfl
  · rw [hkeys]
    rcases hruns ht with ⟨ht, hname, -⟩ | ⟨rfl, rfl⟩
    · obtain ⟨hworking, hnames, horigin⟩ := hmoves.other hname
      have hfile : r.1.file t.acceptance.filename = d.files.file t.acceptance.filename := by
        obtain ⟨raw, hsafe⟩ := t.acceptance.safe
        exact hmoves.final_other hname (not_isWorking_of_safe hsafe)
      exact (h.holds ht).congr (List.append_nil _).symm hfile hworking horigin hnames
    · exact hmoves.holds
  · rw [hkeys]
    by_cases heq : name = a.filename
    · subst heq
      have hholds := hmoves.holds
      cases hstage : r.2 with
      | ended result =>
        rw [hstage] at hholds
        exact hholds.1
      | _ =>
        have hnew : Runs { files := r.1, tasks := d.tasks.set k ⟨a, r.2⟩ } k ⟨a, r.2⟩ :=
          ⟨by simp [(List.getElem?_eq_some_iff.1 htask).1], by rw [hstage]; rfl⟩
        exact absurd rfl (hname k _ hnew)
    · have hold : Kept d.keys d.files name := h.kept name fun i t ht => by
        by_cases hik : i = k
        · subst hik
          cases htask.symm.trans ht.1
          exact Ne.symm heq
        · exact hname i t ⟨by rw [List.getElem?_set_ne (Ne.symm hik)]; exact ht.1, ht.2⟩
      obtain ⟨hworking, -, horigin⟩ := hmoves.other heq
      exact hold.congr hworking horigin
  · have hmono (hw : d.Whole fs name c) :
        Whole fs { files := r.1, tasks := d.tasks.set k ⟨a, r.2⟩ } name c :=
      hw.mono ⟨[], by rw [hkeys, List.append_nil]⟩
    by_cases heq : name = a.filename
    · subst heq
      rcases hmoves.final with hfinal | ⟨-, c', hc', hsent⟩
      · exact hmono (h.whole _ c hworking (hfinal.symm.trans hc))
      · cases hc'.symm.trans hc
        exact .inr ⟨_, _, by rw [hkeys]; exact hsent⟩
    · exact hmono (h.whole name c hworking ((hmoves.final_other heq hworking).symm.trans hc))

theorem Inv.init (hfresh : ∀ name sender size,
      Acceptance.holds fs (originPath name) ≠ some (Str.bytes (originText sender size))) :
    Inv fs { files := fs } where
  alone hs := nomatch hs.1
  holds ht := nomatch ht.1
  kept name _ sender size hrecord := absurd hrecord (hfresh name sender size)
  whole _ _ _ hc := .inl hc

theorem Inv.move (h : d.Inv fs) (halone : d.Alone m) :
    Inv fs (d.step m).1 ∧ d.Spares (d.step m).1 := by
  cases m with
  | accept a => exact ⟨h.accept halone, fun _ _ _ hc => hc⟩
  | act k c => exact h.act halone

theorem Inv.spares_after (h : d.Inv fs)
    (halone : Run.Along step Alone d moves) : d.Spares (Run.after step d moves) := by
  intro name c hworking hc
  refine (halone.induction (I := fun d => d.Inv fs ∧ d.files.file name = some c) ⟨h, hc⟩
    fun d m hd hm => ?_).2
  obtain ⟨hinv, hspares⟩ := hd.1.move hm
  exact ⟨hinv, hspares name c hworking hd.2⟩

/-- In a directory without records of earlier attempts, and while no two downloads of one name are
under way at once, every file under a final name was there at the start or was all sent by one
sender for one offer, and it stays as it is once it is there. -/
theorem downloads_unmixed {fs : Files SentByte} (hfresh : ∀ name sender size,
      Acceptance.holds fs (originPath name) ≠ some (Str.bytes (originText sender size)))
    {moves : List Move} (halone : Run.Along step Alone { files := fs } moves) :
    (∀ name c, isWorking name = false →
      (Run.after step { files := fs } moves).files.file name = some c →
      Whole fs (Run.after step { files := fs } moves) name c) ∧
    (∀ n name c, isWorking name = false →
      (Run.after step { files := fs } (moves.take n)).files.file name = some c →
      (Run.after step { files := fs } moves).files.file name = some c) := by
  have hinv {moves : List Move} (halone : Run.Along step Alone { files := fs } moves) :
      Inv fs (Run.after step { files := fs } moves) :=
    halone.induction (Inv.init hfresh) fun _ _ hd hm => (hd.move hm).1
  refine ⟨(hinv halone).whole, fun n name c hworking hc => ?_⟩
  rw [← List.take_append_drop n moves, Run.along_append] at halone
  have hspares := (hinv halone.1).spares_after halone.2 name c hworking hc
  rwa [← Run.after_append, List.take_append_drop] at hspares

/-! ## Two of one name -/

def nothing : Files SentByte where
  names _ := none
  content _ := []
  next := 0
  unshared _ _ _ h := nomatch h
  old _ _ h := nomatch h

def cat (sender : String) (size : Nat := 2) : Acceptance where
  offer := { filename := "cat.jpg", addr := some (.v4 0), port := some 5001, size := some size
             token := none }
  sender := sender
  proxied := false
  startAt := 0
  safe := ⟨"cat.jpg", (by decide +kernel : safeFilename "cat.jpg" = some "cat.jpg")⟩

def goes (k n : Nat) : List Move := List.replicate n (.act k .go)

def inTurn : List Move :=
  [.accept (cat "alice")] ++ goes 0 6 ++ [.act 0 (.data [65, 65])] ++ goes 0 4 ++
  [.accept (cat "bob")] ++ goes 1 1

theorem downloads_unmixed_inTurn : Run.Along step Alone { files := nothing } inTurn ∧
    (Run.after step { files := nothing } inTurn).files.file "cat.jpg" =
      some [(65, some 0), (65, some 0)] ∧
    Whole nothing (Run.after step { files := nothing } inTurn) "cat.jpg"
      [(65, some 0), (65, some 0)] := by
  have halone : Run.Along step Alone { files := nothing } inTurn := by decide +kernel
  have hfile : (Run.after step { files := nothing } inTurn).files.file "cat.jpg" =
      some [(65, some 0), (65, some 0)] := by decide +kernel
  have hfresh : ∀ name sender size, Acceptance.holds nothing (originPath name) ≠
      some (Str.bytes (originText sender size)) := fun _ _ _ => nofun
  exact ⟨halone, hfile, (downloads_unmixed hfresh halone).1 "cat.jpg" _
    (by decide) hfile⟩

/-- Both are begun and all is received; the first is written out and takes the name, and then the
second is written out. -/
def atOnce : List Move :=
  [.accept (cat "alice" 3), .accept (cat "bob")] ++ goes 0 6 ++ goes 1 7 ++
  [.act 0 (.data [65, 65, 65]), .act 1 (.data [66, 66])] ++ goes 0 2 ++ goes 1 1

/-- The file takes its name with bytes of one sender, and then has bytes of both. -/
theorem downloads_mixed :
    let d := Run.after step { files := nothing } atOnce
    (Run.after step { files := nothing } (atOnce.take 19)).files.file "cat.jpg" =
      some [(65, some 0), (65, some 0), (65, some 0)] ∧
    d.files.file "cat.jpg" = some [(66, some 1), (66, some 1), (65, some 0)] ∧
    d.keys = [("cat.jpg", "alice", some 3), ("cat.jpg", "bob", some 2)] := by
  decide +kernel

end Downloads

end Ddirc.Dcc
