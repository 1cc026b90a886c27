import Ddirc.Dcc.Unmixed

/-! # Downloads that are broken off

Calls of `accept` into one directory, one after the other. Any of them may be broken off between two
of its file operations: by the connection, which the call sees, or by the end of the process, which
it does not. The next call begins with what is left. -/

namespace Ddirc.Dcc

structure Attempts where
  files : Files SentByte
  past : List Acceptance := []
  current : Option Task := none

inductive Attempts.Event where
  | accept (a : Acceptance)
  | act (c : Choice)
  /-- The process ends. The record is emptied before it is written, so it may be left empty. -/
  | stop (emptied : Bool)

def Stage.isRecording : Stage → Bool
  | .recording _ => true
  | _ => false

namespace Attempts

def step (s : Attempts) : Event → Attempts × Option (Except TransferError String)
  | .accept a =>
    match s.current with
    | some _ => (s, none)
    | none => ({ s with current := some { acceptance := a, stage := a.begin } }, none)
  | .act c =>
    match s.current with
    | none => (s, none)
    | some ⟨a, stage⟩ =>
      match a.step s.past.length s.files stage c with
      | (files, .ended result) =>
        ({ files, past := s.past ++ [a], current := none }, some result)
      | (files, stage) => ({ s with files, current := some ⟨a, stage⟩ }, none)
  | .stop emptied =>
    match s.current with
    | none => (s, none)
    | some ⟨a, stage⟩ =>
      let files := if emptied && stage.isRecording then s.files.write (originPath a.filename) []
        else s.files
      ({ files, past := s.past ++ [a], current := none }, none)

def calls (s : Attempts) : List Acceptance := s.past ++ (s.current.map (·.acceptance)).toList

/-- Every byte was sent by a transfer from one nick that declared one size. -/
def FromOne (calls : List Acceptance) (c : List SentByte) : Prop :=
  ∃ sender size, ∀ b ∈ c, ∃ k a, b.2 = some k ∧ calls[k]? = some a ∧
    Str.eqIgnoreAsciiCase a.sender sender = true ∧ a.offer.size = size

end Attempts

namespace Acceptance

variable {a : Acceptance}

/-- The record names this call already, and the unfinished file is what an earlier one left. -/
def isExposed (a : Acceptance) (fs : Files SentByte) : Stage → Bool
  | .opening 0 =>
    a.offer.size.any (fun size => holds fs (originPath a.filename) = some (a.record size)) &&
      (a.partialLen fs).isSome
  | _ => false

theorem originText_congr {sender other : String}
    (h : Str.toAsciiLowercase sender = Str.toAsciiLowercase other) (size : Nat) :
    originText sender size = originText other size := by
  rw [originText, originText, h]

theorem Holds.kept (h : a.Holds keys fs stage) (hexposed : a.isExposed fs stage = false) :
    Kept keys fs a.filename := by
  cases stage with
  | checking => exact h
  | ended => exact h.1
  | dialling start | noting start =>
    have hready : a.Ready keys fs start := h
    exact hready.kept
  | reading | measuring | judging | recording | dropping => exact h.1.kept
  | cutting | receiving | flushing => exact h.1.kept
  | naming | failing | removing =>
    have howned : a.Owned keys fs := h
    exact howned.kept
  | forgetting | erasing => exact kept_of_no_part h.1
  | opening start =>
    obtain ⟨-, hrecord, hresumes⟩ := h
    cases start with
    | succ start => exact (hresumes start.succ_pos).1.kept
    | zero =>
      -- The record is another's, or there is nothing that it could be wrong about.
      intro sender size htext c hc
      obtain ⟨hsender, hsize⟩ := hrecord sender size htext
      have hours : holds fs (originPath a.filename) = some (a.record size) := by
        rw [htext, record, originText_congr hsender]
      simp only [isExposed, hsize, Option.any_some, hours, partialLen,
        hc, Option.map_some] at hexposed
      cases c with
      | nil => nofun
      | cons b c => cases hexposed

end Acceptance

namespace Attempts

variable {s : Attempts}

def keys (s : Attempts) : List Key := s.calls.map (·.key)

/-- The process does not end just between the writing of the record and the opening of the
unfinished file, with something of another attempt there; and the record and the unfinished file can
be written. -/
def Spared (s : Attempts) : Event → Prop
  | .accept _ => True
  | .act c => ∀ t ∈ s.current, Acceptance.mustSucceed t.stage c = false
  | .stop _ => ∀ t ∈ s.current, t.acceptance.isExposed s.files t.stage = false

instance (s : Attempts) : (e : Event) → Decidable (s.Spared e)
  | .accept _ => instDecidableTrue
  | .act _ => inferInstanceAs (Decidable (∀ t ∈ s.current, _))
  | .stop _ => inferInstanceAs (Decidable (∀ t ∈ s.current, _))

structure Inv (s : Attempts) : Prop where
  holds : ∀ t ∈ s.current, t.acceptance.Holds s.keys s.files t.stage
  kept : ∀ name, (∀ t ∈ s.current, t.acceptance.filename ≠ name) → Kept s.keys s.files name

theorem Inv.of_kept (hcurrent : s.current = none) (h : ∀ name, Kept s.keys s.files name) :
    Inv s where
  holds t ht := by rw [hcurrent] at ht; cases ht
  kept name _ := h name

theorem keys_over (hcurrent : s.current = some ⟨a, stage⟩) (files : Files SentByte) :
    keys { files, past := s.past ++ [a], current := none } = s.keys := by
  simp [keys, calls, hcurrent]

theorem keys_going (hcurrent : s.current = some ⟨a, stage⟩) (files : Files SentByte)
    (stage' : Stage) : keys { s with files, current := some ⟨a, stage'⟩ } = s.keys := by
  simp [keys, calls, hcurrent]

theorem Inv.accept (h : Inv s) (a : Acceptance) : Inv (s.step (.accept a)).1 := by
  simp only [step]
  split
  · exact h
  next hcurrent =>
    have hkeys : keys { s with current := some { acceptance := a, stage := a.begin } } =
        s.keys ++ [a.key] := by
      simp [keys, calls, hcurrent]
    have hkept (name : String) : Kept (s.keys ++ [a.key]) s.files name :=
      (h.kept name fun t ht => by rw [hcurrent] at ht; cases ht).mono _
    refine ⟨fun t ht => ?_, fun name _ => ?_⟩
    · obtain rfl := Option.mem_some_iff.1 ht
      rw [hkeys]
      rcases Downloads.begin_cases a with hbegin | ⟨e, hbegin⟩
      · rw [hbegin]
        exact hkept a.filename
      · rw [hbegin]
        exact ⟨hkept a.filename, trivial⟩
    · rw [hkeys]
      exact hkept name

theorem Inv.kept_other {files : Files SentByte} (h : Inv s) (hcurrent : s.current = some ⟨a, stage⟩)
    (hfile : files.file (partialPath name) = s.files.file (partialPath name))
    (horigin : files.file (originPath name) = s.files.file (originPath name))
    (hname : name ≠ a.filename) : Kept s.keys files name := by
  refine (h.kept name fun t ht => ?_).congr hfile horigin
  rw [hcurrent] at ht
  obtain rfl := Option.mem_some_iff.1 ht
  exact Ne.symm hname

theorem Inv.act (h : Inv s) (hspared : s.Spared (.act c)) : Inv (s.step (.act c)).1 ∧
    ∀ path, (s.step (.act c)).2 = some (.ok path) →
      ∃ a content, (s.step (.act c)).1.files.file path = some content ∧
        Sent (s.step (.act c)).1.keys (Acceptance.key a) content := by
  cases hcurrent : s.current with
  | none =>
    simp only [step, hcurrent]
    exact ⟨h, nofun⟩
  | some t =>
  obtain ⟨a, stage⟩ := t
  have hkey : s.keys[s.past.length]? = some a.key := by simp [keys, calls, hcurrent]
  have hmoves := Acceptance.step_moves hkey (h.holds _ hcurrent) (hspared _ hcurrent)
  simp only [step, hcurrent]
  generalize a.step s.past.length s.files stage c = r at hmoves
  obtain ⟨files, stage'⟩ := r
  have hother (name : String) (hname : name ≠ a.filename) : Kept s.keys files name := by
    obtain ⟨hfile, -, horigin⟩ := hmoves.other hname
    exact h.kept_other hcurrent hfile horigin hname
  cases hstage : stage' with
  | ended result =>
    rw [hstage] at hmoves
    refine ⟨.of_kept rfl fun name => ?_, fun path hpath => ?_⟩
    · rw [keys_over hcurrent]
      by_cases hname : name = a.filename
      · exact hname ▸ hmoves.holds.1
      · exact hother name hname
    · cases hpath
      obtain ⟨rfl, content, hcontent, hsent⟩ := hmoves.holds.2
      exact ⟨a, content, hcontent, by rw [keys_over hcurrent]; exact hsent⟩
  | _ =>
    rw [hstage] at hmoves
    refine ⟨⟨fun t ht => ?_, fun name hname => ?_⟩, nofun⟩
    · obtain rfl := Option.mem_some_iff.1 ht
      rw [keys_going hcurrent]
      exact hmoves.holds
    · rw [keys_going hcurrent]
      exact hother name (Ne.symm (hname _ rfl))

theorem Inv.stop (h : Inv s) (hspared : s.Spared (.stop emptied)) :
    Inv (s.step (.stop emptied)).1 := by
  cases hcurrent : s.current with
  | none =>
    simp only [step, hcurrent]
    exact h
  | some t =>
  obtain ⟨a, stage⟩ := t
  have hkept := (h.holds _ hcurrent).kept (hspared _ hcurrent)
  simp only [step, hcurrent]
  refine .of_kept rfl fun name => ?_
  rw [keys_over hcurrent]
  split
  · by_cases hname : name = a.filename
    · subst hname
      intro sender size hrecord
      have hmagic := Acceptance.isRecord_of_text hrecord
      rw [Acceptance.isRecord, Acceptance.holds, Files.file_write, Function.update_self] at hmagic
      exact absurd hmagic (by decide)
    · refine h.kept_other hcurrent ?_ ?_ hname
      · rw [Files.file_write, Function.update_of_ne (partialPath_ne_originPath _ _)]
      · rw [Files.file_write, Function.update_of_ne fun heq => hname (originPath_inj heq)]
  · by_cases hname : name = a.filename
    · exact hname ▸ hkept
    · exact h.kept_other hcurrent rfl rfl hname

theorem Inv.init (hfresh : ∀ name sender size,
      Acceptance.holds fs (originPath name) ≠ some (Str.bytes (originText sender size))) :
    Inv { files := fs } :=
  .of_kept rfl fun name sender size hrecord => absurd hrecord (hfresh name sender size)

theorem Inv.event (h : Inv s) (hspared : s.Spared e) : Inv (s.step e).1 := by
  cases e with
  | accept a => exact h.accept a
  | act c => exact (h.act hspared).1
  | stop emptied => exact h.stop hspared

theorem FromOne.of_sent {s : Attempts} {a : Acceptance} (h : Sent s.keys a.key c) :
    FromOne s.calls c := by
  refine ⟨a.sender, a.offer.size, fun b hb => ?_⟩
  obtain ⟨k, hk, hkey⟩ := h b hb
  rw [keys, List.getElem?_map, Option.map_eq_some_iff] at hkey
  obtain ⟨call, hcall, hkey⟩ := hkey
  simp only [Acceptance.key, Prod.mk.injEq] at hkey
  exact ⟨k, call, hk, hcall, Str.eqIgnoreAsciiCase_iff.2 hkey.2.1, hkey.2.2⟩

/-- In a directory without records of earlier attempts, whatever was broken off before: if a call
returns a file, all of it was sent by transfers from one nick that declared one size. -/
theorem resumed_unmixed {fs : Files SentByte} (hfresh : ∀ name sender size,
      Acceptance.holds fs (originPath name) ≠ some (Str.bytes (originText sender size)))
    {front rest : List Event} {e : Event}
    (h : Run.Along step Spared { files := fs } (front ++ e :: rest)) {path : String}
    (hok : ((Run.after step { files := fs } front).step e).2 = some (.ok path)) :
    ∃ c, ((Run.after step { files := fs } front).step e).1.files.file path = some c ∧
      FromOne ((Run.after step { files := fs } front).step e).1.calls c := by
  obtain ⟨hinv, he⟩ := h.before (Inv.init hfresh) fun _ _ hs he => hs.event he
  generalize Run.after step { files := fs } front = s at hinv he hok
  cases e with
  | accept a =>
    simp only [step] at hok
    split at hok <;> cases hok
  | act c =>
    obtain ⟨a, content, hcontent, hsent⟩ := (hinv.act he).2 path hok
    exact ⟨content, hcontent, .of_sent hsent⟩
  | stop emptied =>
    simp only [step] at hok
    split at hok <;> cases hok

/-! ## The moment between -/

/-- A file of two bytes, `cat.jpg`, the sender of which agrees to start at `startAt`. -/
def cat (sender : String) (startAt : Nat) : Acceptance :=
  { Downloads.cat sender with startAt }

def goes (n : Nat) : List Event := List.replicate n (.act .go)

/-- The connection is lost after the first byte. -/
def cutShort (sender : String) (byte : UInt8) : List Event :=
  [.accept (cat sender 0)] ++ goes 6 ++ [.act (.data [byte]), .act (.data [])] ++ goes 2

def carriedOn (sender : String) (byte : UInt8) : List Event :=
  [.accept (cat sender 1)] ++ goes 9 ++ [.act (.data [byte])] ++ goes 3

theorem resumed_unmixed_carriedOn :
    let s := Run.after step { files := Downloads.nothing }
      (cutShort "alice" 65 ++ carriedOn "Alice" 66)
    (s.step (.act .go)).2 = some (.ok "cat.jpg") ∧
    (s.step (.act .go)).1.files.file "cat.jpg" = some [(65, some 0), (66, some 1)] ∧
    ∃ c, (s.step (.act .go)).1.files.file "cat.jpg" = some c ∧
      FromOne (s.step (.act .go)).1.calls c := by
  intro s
  have hfresh : ∀ name sender size, Acceptance.holds Downloads.nothing (originPath name) ≠
      some (Str.bytes (originText sender size)) := fun _ _ _ => nofun
  have halong : Run.Along step Spared { files := Downloads.nothing }
      (cutShort "alice" 65 ++ carriedOn "Alice" 66 ++ [.act .go]) := by decide +kernel
  have hok : (s.step (.act .go)).2 = some (.ok "cat.jpg") := by decide +kernel
  exact ⟨hok, by decide +kernel, resumed_unmixed hfresh halong hok⟩

/-- Bob's record is written, and the process ends before Alice's byte is removed; Bob then carries
it on. -/
def takenOver : List Event :=
  cutShort "alice" 65 ++ [.accept (cat "bob" 0)] ++ goes 6 ++ [.stop false] ++ carriedOn "bob" 66

theorem resumed_mixed :
    let s := Run.after step { files := Downloads.nothing } takenOver
    (s.step (.act .go)).2 = some (.ok "cat.jpg") ∧
    (s.step (.act .go)).1.files.file "cat.jpg" = some [(65, some 0), (66, some 2)] ∧
    (s.step (.act .go)).1.calls.map (·.sender) = ["alice", "bob", "bob"] ∧
    ¬ FromOne (s.step (.act .go)).1.calls [(65, some 0), (66, some 2)] := by
  intro s
  have hcalls : (s.step (.act .go)).1.calls.map (·.sender) = ["alice", "bob", "bob"] := by
    decide +kernel
  refine ⟨by decide +kernel, by decide +kernel, hcalls, ?_⟩
  rintro ⟨sender, size, h⟩
  -- Alice's byte and Bob's would be from the same sender.
  have hsender (k : Nat) (nick : String) (byte : UInt8)
      (hb : (byte, some k) ∈ [((65 : UInt8), some 0), (66, some 2)])
      (hnick : ["alice", "bob", "bob"][k]? = some nick) :
      Str.eqIgnoreAsciiCase nick sender = true := by
    obtain ⟨k', a, hk, ha, hnick', -⟩ := h (byte, some k) hb
    cases hk
    rw [← hcalls, List.getElem?_map, ha] at hnick
    cases hnick
    exact hnick'
  have halice := hsender 0 "alice" 65 List.mem_cons_self rfl
  have hbob := hsender 2 "bob" 66 (List.mem_cons_of_mem _ List.mem_cons_self) rfl
  rw [Str.eqIgnoreAsciiCase_iff] at halice hbob
  exact absurd (halice.trans hbob.symm) (by decide +kernel)

end Attempts

end Ddirc.Dcc
