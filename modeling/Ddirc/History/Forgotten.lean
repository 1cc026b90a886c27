import Ddirc.History.Store
import Ddirc.Lib.Run
import Ddirc.Lib.Str

/-! # What is forgotten

`history.dart`: lines wait in a queue and go to the store in batches. Calls of the store take any
time and can overtake one another. A batch that is being written is in neither, and comes back to
the queue when the write fails, so that a deletion misses it; and the deletion of one conversation
does not look at the queue. -/

namespace Ddirc.History
open List

inductive Deletion where
  | clear
  | forget (profileId conversation : String)
  | forgetProfile (profileId : String)
  | remove (profileId conversation msgid sender : String)
  deriving Repr, DecidableEq

/-- What a deletion asks of the store; a conversation is filed under its lower case. -/
def Deletion.work (lower : String → String) : Deletion → Work
  | .clear => .clear
  | .forget profileId conversation => .forget profileId (lower conversation)
  | .forgetProfile profileId => .forgetProfile profileId
  | .remove profileId conversation msgid sender =>
    .removeLine profileId (lower conversation) msgid sender

def Deletion.covers (lower : String → String) (d : Deletion) : Line → Bool := (d.work lower).deletes

structure Call where
  id : Nat
  work : Work
  result : Option Bool := none
  /-- The deletion that waits for it. -/
  owner : Option Nat := none
  deriving Repr, DecidableEq

def Call.mark (c : Call) (call : Nat) (ok : Bool) : Call :=
  if c.id = call then { c with result := some ok } else c

/-- Where a removal stands in `_settle`. -/
inductive Settling where
  /-- Waiting for a write to end, for the first time or `again`. -/
  | idle (again : Bool) (turns : Nat)
  /-- Waiting for its own write. -/
  | flushing (call : Nat)
  deriving Repr, DecidableEq

structure Removal where
  owner : Nat
  work : Work
  settling : Settling := .idle false 0
  deriving Repr, DecidableEq

/-- `MessageHistory`, with the calls that have not returned. -/
structure MessageHistory where
  enabled : Bool := true
  pending : List Line := []
  /-- The batch being written has failed once. -/
  retried : Bool := false
  timer : Bool := false
  writing : Bool := false
  removals : List Removal := []
  calls : List Call := []
  nextCall : Nat := 0
  deriving Repr, DecidableEq

namespace MessageHistory

def ask (h : MessageHistory) (work : Work) (owner : Option Nat) : MessageHistory :=
  { h with calls := h.calls ++ [{ id := h.nextCall, work, owner }], nextCall := h.nextCall + 1 }

def marked (h : MessageHistory) (call : Nat) (ok : Bool) : MessageHistory :=
  { h with calls := h.calls.map (·.mark call ok) }

def heard (h : MessageHistory) (call : Nat) : MessageHistory :=
  { h with calls := h.calls.filter (·.id ≠ call) }

/-- Write everything queued, if nothing is being written. -/
def flush (h : MessageHistory) : MessageHistory :=
  if h.pending.isEmpty || h.writing || !h.enabled then h
  else { h with pending := [], writing := true }.ask (.append h.pending) none

def record (h : MessageHistory) (line : Line) : MessageHistory :=
  { h with pending := h.pending ++ [line], timer := true }

def onTimer (h : MessageHistory) : MessageHistory :=
  if h.timer then { h with timer := false }.flush else h

def written (h : MessageHistory) (batch : List Line) (ok : Bool) : MessageHistory :=
  if ok then { h with retried := false, writing := false }
  else if !h.retried then
    { h with retried := true, pending := batch ++ h.pending, timer := true, writing := false }
  else { h with retried := false, writing := false }

def returned (h : MessageHistory) (c : Call) : MessageHistory :=
  match c.work with
  | .append batch => (h.heard c.id).written batch (c.result.getD false)
  | _ => h.heard c.id

/-- A deletion is called for; it is the `owner` of what it asks of the store. -/
def delete (lower : String → String) (h : MessageHistory) (owner : Nat) (d : Deletion) :
    MessageHistory :=
  match d with
  | .clear =>
    let h := { h with pending := [] }
    if h.enabled then h.ask (d.work lower) (some owner) else h
  | .forget .. => if h.enabled then h.ask (d.work lower) (some owner) else h
  | .forgetProfile _ =>
    let h := { h with pending := h.pending.filter (!d.covers lower ·) }
    if h.enabled then h.ask (d.work lower) (some owner) else h
  | .remove .. =>
    let h := { h with pending := h.pending.filter (!d.covers lower ·) }
    if h.enabled then { h with removals := h.removals ++ [{ owner, work := d.work lower }] } else h

/-- A removal goes on: it waits for a write to end (for two seconds at most), writes what is queued,
waits again, and calls the store. -/
def goOn (h : MessageHistory) (r : Removal) : MessageHistory × Option Removal :=
  match r.settling with
  | .idle again turns =>
    if turns < 40 ∧ h.writing then (h, some { r with settling := .idle again (turns + 1) })
    else if again then (h.ask r.work (some r.owner), none)
    else
      let h' := h.flush
      (h', some { r with settling :=
        if h'.nextCall = h.nextCall then .idle true 0 else .flushing h.nextCall })
  | .flushing call =>
    if h.calls.any (·.id = call) then (h, some r)
    else (h, some { r with settling := .idle true 0 })

def wake (h : MessageHistory) (n : Nat) : MessageHistory :=
  match h.removals[n]? with
  | none => h
  | some r =>
    let (h', r') := h.goOn r
    { h' with removals := h.removals.take n ++ r'.toList ++ h.removals.drop (n + 1) }

end MessageHistory

/-! ## The history and the store -/

structure Asked where
  deletion : Deletion
  /-- How many lines were recorded before it. -/
  recorded : Nat
  /-- How many calls of the store were made before it. -/
  begun : Nat
  /-- It returned, and its call of the store had gone well. -/
  succeeded : Bool := false
  deriving Repr, DecidableEq

structure World where
  history : MessageHistory := {}
  table : Table := {}
  recorded : Nat := 0
  asked : List Asked := []
  deriving Repr, DecidableEq

inductive Happening where
  | record (profileId conversation : String) (sender msgid : Option String) (text : String)
  | timer
  | delete (d : Deletion)
  | execute (call : Nat) (ok late : Bool)
  | finish (call : Nat)
  | wake (removal : Nat)
  deriving Repr, DecidableEq

namespace World
variable (lower : String → String)

def record (w : World) (profileId conversation : String) (sender msgid : Option String)
    (text : String) : World :=
  if w.history.enabled then
    let line : Line :=
      { number := w.recorded, profileId, conversation := lower conversation, sender, msgid, text }
    { w with history := w.history.record line, recorded := w.recorded + 1 }
  else w

def delete (w : World) (d : Deletion) : World :=
  { w with
    history := w.history.delete lower w.asked.length d
    asked := w.asked ++
      [{ deletion := d, recorded := w.recorded, begun := w.history.nextCall }] }

def execute (w : World) (call : Nat) (ok late : Bool) : World :=
  match w.history.calls.find? fun c => c.id = call && c.result.isNone with
  | none => w
  | some c =>
    { w with
      table := if ok then c.work.run w.table else c.work.fail late w.table
      history := w.history.marked call ok }

def answered (asked : List Asked) (owner : Option Nat) (ok : Bool) : List Asked :=
  match owner with
  | some n => asked.modify n fun a => { a with succeeded := ok }
  | none => asked

def finish (w : World) (call : Nat) : World :=
  match w.history.calls.find? fun c => c.id = call && c.result.isSome with
  | none => w
  | some c =>
    { w with
      history := w.history.returned c
      asked := answered w.asked c.owner (c.result.getD false) }

def step (w : World) : Happening → World × Unit
  | .record profileId conversation sender msgid text =>
    (w.record lower profileId conversation sender msgid text, ())
  | .timer => ({ w with history := w.history.onTimer }, ())
  | .delete d => (w.delete lower d, ())
  | .execute call ok late => (w.execute call ok late, ())
  | .finish call => (w.finish call, ())
  | .wake n => ({ w with history := w.history.wake n }, ())

/-- What was forgotten is not in the store: no line that was recorded before a deletion that has
succeeded and that it is about, once every call of the store has returned that was made before
it. -/
def Forgotten (w : World) : Prop :=
  ∀ a ∈ w.asked, a.succeeded = true → (∀ c ∈ w.history.calls, a.begun ≤ c.id) →
    ∀ r ∈ w.table.rows, r.line.number < a.recorded → a.deletion.covers lower r.line = false

instance (w : World) : Decidable (w.Forgotten lower) :=
  inferInstanceAs (Decidable (∀ a ∈ w.asked, a.succeeded = true →
    (∀ c ∈ w.history.calls, a.begun ≤ c.id) → ∀ r ∈ w.table.rows, r.line.number < a.recorded →
      a.deletion.covers lower r.line = false))

/-- A deletion is called for when nothing is being written, and that of a conversation when no line
of it waits. -/
def isSettled (w : World) : Happening → Bool
  | .delete d => !w.history.writing && match d with
    | .forget .. => w.history.pending.all (!d.covers lower ·)
    | _ => true
  | _ => true

end World

/-! ## What is on its way -/

def Work.isAppend : Work → Bool
  | .append _ => true
  | _ => false

theorem Work.adds_eq_nil {work : Work} (h : work.isAppend = false) : work.adds = [] := by
  cases work with
  | append => cases h
  | _ => rfl

theorem Deletion.isAppend_work (d : Deletion) : (d.work lower).isAppend = false := by
  cases d <;> rfl

/-- What there is to do for the deletions: what each asks of the store, the lines that are to be
gone, and the deletions whose lines are. -/
structure Duty where
  works : Nat → Option Work
  gone : Line → Prop
  done : Nat → Prop

/-- The call was made and, if it writes, is known to. It writes no line that is to be gone, and is
what its deletion asks. -/
structure Call.Fits (c : Call) (h : MessageHistory) (d : Duty) : Prop where
  made : c.id < h.nextCall
  writing : c.work.isAppend = true → h.writing = true
  spared : ∀ l ∈ c.work.adds, ¬d.gone l
  owned : ∀ k, c.owner = some k → d.works k = some c.work ∧ (c.result = some true → d.done k)

namespace MessageHistory
variable {c : Call} {call : Nat} {ok : Bool}

/-- No line waits that is to be gone. The calls that have not returned have numbers of their own,
and at most one of them writes. -/
structure Orderly (h : MessageHistory) (d : Duty) : Prop where
  pending : ∀ l ∈ h.pending, ¬d.gone l
  removals : ∀ r ∈ h.removals, d.works r.owner = some r.work
  fits : ∀ c ∈ h.calls, c.Fits h d
  apart : ∀ c ∈ h.calls, ∀ c' ∈ h.calls,
    c.id = c'.id ∨ c.work.isAppend = true ∧ c'.work.isAppend = true → c = c'

variable {h : MessageHistory} {d d' : Duty} {work : Work} {owner : Option Nat}

theorem mem_ask : c ∈ (h.ask work owner).calls ↔
    c ∈ h.calls ∨ c = { id := h.nextCall, work, owner } := by
  rw [ask, mem_append, mem_singleton]

theorem Orderly.ask (ho : h.Orderly d) (hwork : work.isAppend →
      h.writing ∧ ∀ c ∈ h.calls, c.work.isAppend = false)
    (hadds : ∀ l ∈ work.adds, ¬d.gone l) (howner : ∀ k, owner = some k → d.works k = some work) :
    (h.ask work owner).Orderly d where
  pending := ho.pending
  removals := ho.removals
  fits c hc := by
    rcases mem_ask.1 hc with hc | rfl
    · exact { ho.fits c hc with made := Nat.lt_succ_of_lt (ho.fits c hc).made }
    · exact ⟨Nat.lt_succ_self _, fun h => (hwork h).1, hadds, fun k hk => ⟨howner k hk, nofun⟩⟩
  apart c hc c' hc' hsame := by
    rcases mem_ask.1 hc with hc | rfl <;> rcases mem_ask.1 hc' with hc' | rfl
    · exact ho.apart c hc c' hc' hsame
    · rcases hsame with hid | ⟨happend, hnew⟩
      · exact absurd hid (Nat.ne_of_lt (ho.fits c hc).made)
      · exact absurd happend (Bool.eq_false_iff.1 ((hwork hnew).2 c hc))
    · rcases hsame with hid | ⟨hnew, happend⟩
      · exact absurd hid.symm (Nat.ne_of_lt (ho.fits c' hc').made)
      · exact absurd happend (Bool.eq_false_iff.1 ((hwork hnew).2 c' hc'))
    · rfl

theorem Orderly.ask_owned (ho : h.Orderly d) (happend : work.isAppend = false)
    (hwork : d.works k = some work) : (h.ask work (some k)).Orderly d := by
  refine ho.ask (fun h => ?_) (fun l hl => ?_) fun _ hk => Option.some.inj hk ▸ hwork
  · rw [happend] at h
    cases h
  · rw [Work.adds_eq_nil happend] at hl
    cases hl

/-- Nothing is on its way to the store when nothing is being written. -/
theorem Orderly.isAppend_eq_false (ho : h.Orderly d) (hidle : h.writing = false) :
    ∀ c ∈ h.calls, c.work.isAppend = false := by
  intro c hc
  cases happend : c.work.isAppend with
  | false => rfl
  | true =>
    rw [(ho.fits c hc).writing happend] at hidle
    cases hidle

theorem Orderly.mono (ho : h.Orderly d) (hpending : ∀ l ∈ h.pending, ¬d'.gone l)
    (hspared : ∀ c ∈ h.calls, ∀ l ∈ c.work.adds, ¬d'.gone l)
    (hworks : ∀ k work, d.works k = some work → d'.works k = some work ∧ (d.done k → d'.done k)) :
    h.Orderly d' where
  pending := hpending
  removals r hr := (hworks _ _ (ho.removals r hr)).1
  fits c hc :=
    { ho.fits c hc with
      spared := hspared c hc
      owned := fun k hk => by
        obtain ⟨hwork, hdone⟩ := (ho.fits c hc).owned k hk
        exact ⟨(hworks k _ hwork).1, fun hok => (hworks k _ hwork).2 (hdone hok)⟩ }
  apart := ho.apart

/-! ## Writing -/

theorem flush_cases : h.flush = h ∨ h.writing = false ∧
    h.flush = { h with pending := [], writing := true }.ask (.append h.pending) none := by
  unfold flush
  split
  · exact .inl rfl
  next hidle =>
    rw [Bool.or_eq_true, Bool.or_eq_true, not_or, not_or] at hidle
    exact .inr ⟨Bool.eq_false_iff.2 hidle.1.2, rfl⟩

theorem Orderly.flush (ho : h.Orderly d) : h.flush.Orderly d := by
  rcases flush_cases with heq | ⟨hidle, heq⟩
  · rwa [heq]
  · rw [heq]
    have hwrites : { h with pending := [], writing := true }.Orderly d :=
      ⟨nofun, ho.removals, fun c hc => { ho.fits c hc with writing := fun _ => rfl }, ho.apart⟩
    exact hwrites.ask (fun _ => ⟨rfl, ho.isAppend_eq_false hidle⟩) ho.pending nofun

/-! ## Calls that are done -/

theorem mark_same (c : Call) (call : Nat) (ok : Bool) :
    (c.mark call ok).id = c.id ∧ (c.mark call ok).work = c.work := by
  unfold Call.mark
  split <;> exact ⟨rfl, rfl⟩

theorem Orderly.marked (ho : h.Orderly d)
    (hdone : ∀ c ∈ h.calls, c.id = call → ok → ∀ k, c.owner = some k → d.done k) :
    (h.marked call ok).Orderly d := by
  refine ⟨ho.pending, ho.removals, fun c hc => ?_, fun c hc c' hc' hsame => ?_⟩
  · obtain ⟨c₀, hc₀, rfl⟩ := mem_map.1 hc
    unfold Call.mark
    split
    next hid =>
      exact { ho.fits c₀ hc₀ with owned := fun k hk => ⟨((ho.fits c₀ hc₀).owned k hk).1,
        fun hok => hdone c₀ hc₀ hid (Option.some.inj hok) k hk⟩ }
    · exact { ho.fits c₀ hc₀ with }
  · obtain ⟨c₀, hc₀, rfl⟩ := mem_map.1 hc
    obtain ⟨c₁, hc₁, rfl⟩ := mem_map.1 hc'
    rw [(mark_same c₀ call ok).1, (mark_same c₀ call ok).2, (mark_same c₁ call ok).1,
      (mark_same c₁ call ok).2] at hsame
    rw [ho.apart c₀ hc₀ c₁ hc₁ hsame]

theorem Orderly.heard (ho : h.Orderly d) : (h.heard call).Orderly d where
  pending := ho.pending
  removals := ho.removals
  fits c hc := { ho.fits c (mem_filter.1 hc).1 with }
  apart c hc c' hc' := ho.apart c (mem_filter.1 hc).1 c' (mem_filter.1 hc').1

/-- A batch is in the store, back in the queue or dropped. -/
theorem Orderly.returned (ho : h.Orderly d) (hc : c ∈ h.calls) : (h.returned c).Orderly d := by
  have hheard : (h.heard c.id).Orderly d := ho.heard
  unfold MessageHistory.returned
  split
  next batch hwork =>
    have hbatch : ∀ l ∈ batch, ¬d.gone l := fun l hl =>
      (ho.fits c hc).spared l (by rw [hwork]; exact hl)
    -- it was the only write
    have hfits (h' : MessageHistory) (hnext : h'.nextCall = h.nextCall) :
        ∀ c' ∈ (h.heard c.id).calls, c'.Fits h' d := by
      intro c' hc'
      obtain ⟨hmem, hne⟩ := mem_filter.1 hc'
      refine { hheard.fits c' hc' with
        made := hnext ▸ (ho.fits c' hmem).made
        writing := fun happend => absurd ?_ (of_decide_eq_true hne) }
      rw [ho.apart c' hmem c hc (.inr ⟨happend, by rw [hwork]; rfl⟩)]
    unfold written
    split
    · exact ⟨hheard.pending, hheard.removals, hfits _ rfl, hheard.apart⟩
    split
    · refine ⟨fun l hl => ?_, hheard.removals, hfits _ rfl, hheard.apart⟩
      exact (mem_append.1 hl).elim (hbatch l) (hheard.pending l)
    · exact ⟨hheard.pending, hheard.removals, hfits _ rfl, hheard.apart⟩
  · exact hheard

/-- A removal that goes on waits, writes what is queued or calls the store. -/
theorem goOn_cases (r : Removal) : ((h.goOn r).1 = h ∨ (h.goOn r).1 = h.flush ∨
      (h.goOn r).1 = h.ask r.work (some r.owner)) ∧
    ∀ r' ∈ (h.goOn r).2, r'.owner = r.owner ∧ r'.work = r.work := by
  unfold goOn
  split
  · split
    · exact ⟨.inl rfl, by rintro r' ⟨⟩; exact ⟨rfl, rfl⟩⟩
    split
    · exact ⟨.inr (.inr rfl), nofun⟩
    · exact ⟨.inr (.inl rfl), by rintro r' ⟨⟩; exact ⟨rfl, rfl⟩⟩
  · split
    · exact ⟨.inl rfl, by rintro r' ⟨⟩; exact ⟨rfl, rfl⟩⟩
    · exact ⟨.inl rfl, by rintro r' ⟨⟩; exact ⟨rfl, rfl⟩⟩

end MessageHistory

/-! ## Steps -/

def Asked.gone (lower : String → String) (a : Asked) (l : Line) : Prop :=
  l.number < a.recorded ∧ a.deletion.covers lower l = true

namespace World
variable {lower : String → String} {w : World}
variable {h : MessageHistory} {asked : List Asked} {owner : Option Nat} {ok : Bool} {d : Deletion}

def duty (lower : String → String) (w : World) : Duty where
  works k := w.asked[k]?.map (·.deletion.work lower)
  gone l := ∃ a ∈ w.asked, a.gone lower l
  done k := ∀ a, w.asked[k]? = some a → ∀ r ∈ w.table.rows, ¬a.gone lower r.line

structure Sound (lower : String → String) (w : World) : Prop where
  orderly : w.history.Orderly (w.duty lower)
  recorded : ∀ a ∈ w.asked, a.recorded ≤ w.recorded
  /-- What was deleted is not in the store. -/
  done : ∀ k a, w.asked[k]? = some a → a.succeeded = true → (w.duty lower).done k

theorem Sound.forgotten (hw : w.Sound lower) : w.Forgotten lower := by
  intro a ha hsucceeded _ r hr hnumber
  obtain ⟨k, hk⟩ := mem_iff_getElem?.1 ha
  cases hcovers : a.deletion.covers lower r.line with
  | false => rfl
  | true => exact absurd ⟨hnumber, hcovers⟩ (hw.done k a hk hsucceeded a hk r hr)

theorem Sound.of_history (hw : w.Sound lower) (ho : h.Orderly (w.duty lower)) :
    Sound lower { w with history := h } := ⟨ho, hw.recorded, hw.done⟩

theorem Sound.record (hw : w.Sound lower) :
    Sound lower (w.record lower profileId conversation sender msgid text) := by
  unfold World.record
  split
  · have ho := hw.orderly
    refine ⟨⟨fun l hl => ?_, ho.removals, fun c hc => { ho.fits c hc with }, ho.apart⟩,
      fun a ha => Nat.le_succ_of_le (hw.recorded a ha), hw.done⟩
    rcases mem_append.1 hl with hl | hl
    · exact ho.pending l hl
    · obtain rfl := mem_singleton.1 hl
      rintro ⟨a, ha, hgone, -⟩
      exact absurd hgone (Nat.not_lt.2 (hw.recorded a ha))
  · exact hw

theorem Sound.timer (hw : w.Sound lower) : Sound lower { w with history := w.history.onTimer } := by
  have ho := hw.orderly
  refine hw.of_history ?_
  unfold MessageHistory.onTimer
  split
  · exact MessageHistory.Orderly.flush
      ⟨ho.pending, ho.removals, fun c hc => { ho.fits c hc with }, ho.apart⟩
  · exact ho

theorem Sound.wake (hw : w.Sound lower) (n : Nat) :
    Sound lower { w with history := w.history.wake n } := by
  refine hw.of_history ?_
  unfold MessageHistory.wake
  split
  · exact hw.orderly
  next r hr =>
  have hwork : (w.duty lower).works r.owner = some r.work :=
    hw.orderly.removals r (mem_of_getElem? hr)
  obtain ⟨hcases, hsame⟩ := MessageHistory.goOn_cases (h := w.history) r
  have ho : (w.history.goOn r).1.Orderly (w.duty lower) := by
    rcases hcases with heq | heq | heq <;> rw [heq]
    · exact hw.orderly
    · exact hw.orderly.flush
    · obtain ⟨a, -, ha⟩ := Option.map_eq_some_iff.1 hwork
      exact hw.orderly.ask_owned (ha ▸ a.deletion.isAppend_work) hwork
  refine ⟨ho.pending, fun r' hr' => ?_, fun c hc => { ho.fits c hc with }, ho.apart⟩
  rw [mem_append, mem_append, Option.mem_toList] at hr'
  rcases hr' with (hr' | hr') | hr'
  · exact hw.orderly.removals r' (mem_of_mem_take hr')
  · rw [(hsame r' hr').1, (hsame r' hr').2]
    exact hwork
  · exact hw.orderly.removals r' (mem_of_mem_drop hr')

theorem Sound.execute (hw : w.Sound lower) (call : Nat) (ok late : Bool) :
    Sound lower (w.execute call ok late) := by
  unfold World.execute
  split
  · exact hw
  next c hfind =>
  have ho := hw.orderly
  have hc : c ∈ w.history.calls := mem_of_find?_eq_some hfind
  have hid : c.id = call ∧ c.result = none := by
    simpa using List.find?_some hfind
  -- what is gone from the store stays so
  generalize htable : (if ok then c.work.run w.table else c.work.fail late w.table) = table
  have hdone (k : Nat) (hdone : (w.duty lower).done k) : (duty lower { w with table }).done k := by
    intro a ha r hr
    rw [← htable] at hr
    split at hr
    · rcases Work.mem_run hr with ⟨hr, -⟩ | hr
      · exact hdone a ha r hr
      · exact fun hgone => (ho.fits c hc).spared _ hr ⟨a, mem_of_getElem? ha, hgone⟩
    · exact hdone a ha r (Work.mem_fail hr)
  have hmore : w.history.Orderly (duty lower { w with table }) :=
    ho.mono ho.pending (fun c hc => (ho.fits c hc).spared) fun k work hwork => ⟨hwork, hdone k⟩
  refine ⟨hmore.marked ?_, hw.recorded,
    fun k a hk hsucceeded => hdone k (hw.done k a hk hsucceeded)⟩
  rintro c' hc' hid' rfl k howner a ha r hr
  obtain rfl := ho.apart c' hc' c hc (.inl (hid'.trans hid.1.symm))
  have hwork := ((ho.fits c' hc').owned k howner).1
  rw [← htable] at hr
  simp only [duty, ha] at hwork
  rcases Work.mem_run hr with ⟨-, hkept⟩ | hr
  · rw [← Option.some.inj hwork] at hkept
    exact fun hgone => Bool.false_ne_true (hkept.symm.trans hgone.2)
  · exact fun hgone => (ho.fits c' hc').spared _ hr ⟨a, mem_of_getElem? ha, hgone⟩

theorem getElem?_answered :
    (answered asked owner ok)[k]? =
      asked[k]?.map fun a => if owner = some k then { a with succeeded := ok } else a := by
  unfold answered
  split
  next n =>
    rw [List.getElem?_modify]
    simp only [Option.map_eq_map, Option.some.injEq]
  · simp

theorem Sound.finish (hw : w.Sound lower) (call : Nat) : Sound lower (w.finish call) := by
  unfold World.finish
  split
  · exact hw
  next c hfind =>
  have hc : c ∈ w.history.calls := mem_of_find?_eq_some hfind
  have hid : c.id = call ∧ c.result.isSome := by
    simpa using List.find?_some hfind
  have ho : (w.history.returned c).Orderly (w.duty lower) := hw.orderly.returned hc
  have hanswered {k : Nat} {a : Asked}
      (ha : (answered w.asked c.owner (c.result.getD false))[k]? = some a) :
      ∃ a₀, w.asked[k]? = some a₀ ∧ a.gone lower = a₀.gone lower ∧ a.recorded = a₀.recorded ∧
        (a.succeeded → (w.duty lower).done k) := by
    rw [getElem?_answered] at ha
    obtain ⟨a₀, ha₀, rfl⟩ := Option.map_eq_some_iff.1 ha
    refine ⟨a₀, ha₀, ?_⟩
    split
    next howner =>
      refine ⟨rfl, rfl, fun hok => ((hw.orderly.fits c hc).owned k howner).2 ?_⟩
      obtain ⟨ok, hok'⟩ := Option.isSome_iff_exists.1 hid.2
      rw [hok'] at hok ⊢
      exact congrArg some hok
    · exact ⟨rfl, rfl, hw.done k a₀ ha₀⟩
  have hgone (l : Line) : (∃ a ∈ answered w.asked c.owner (c.result.getD false), a.gone lower l) →
      (w.duty lower).gone l := by
    rintro ⟨a, ha, hgone⟩
    obtain ⟨k, hk⟩ := mem_iff_getElem?.1 ha
    obtain ⟨a₀, ha₀, heq, -⟩ := hanswered hk
    exact ⟨a₀, mem_of_getElem? ha₀, heq ▸ hgone⟩
  have hdone (k : Nat) (hdone : (w.duty lower).done k) : ∀ a,
      (answered w.asked c.owner (c.result.getD false))[k]? = some a → ∀ r ∈ w.table.rows,
        ¬a.gone lower r.line := by
    intro a ha
    obtain ⟨a₀, ha₀, heq, -⟩ := hanswered ha
    exact heq ▸ hdone a₀ ha₀
  refine ⟨ho.mono (fun l hl h => ho.pending l hl (hgone l h))
    (fun c hc l hl h => (ho.fits c hc).spared l hl (hgone l h))
    fun k work hwork => ⟨?_, hdone k⟩, fun a ha => ?_, fun k a hk hsucceeded => ?_⟩
  · rw [← hwork]
    simp only [duty, getElem?_answered, Option.map_map]
    congr 1
    funext a
    split <;> rfl
  · obtain ⟨k, hk⟩ := mem_iff_getElem?.1 ha
    obtain ⟨a₀, ha₀, -, hrecorded, -⟩ := hanswered hk
    exact hrecorded ▸ hw.recorded a₀ (mem_of_getElem? ha₀)
  · exact hdone k ((hanswered hk).choose_spec.2.2.2 hsucceeded)

theorem delete_cases (hforget : ∀ profileId conversation, d = .forget profileId conversation →
      ∀ l ∈ h.pending, d.covers lower l = false) :
    ∃ pending, (∀ l ∈ pending, l ∈ h.pending ∧ d.covers lower l = false) ∧
      (h.delete lower k d = { h with pending } ∨
        h.delete lower k d = { h with pending }.ask (d.work lower) (some k) ∨
        h.delete lower k d = { h with
          pending, removals := h.removals ++ [{ owner := k, work := d.work lower }] }) := by
  have hfilter (d : Deletion) : ∀ l ∈ h.pending.filter (!d.covers lower ·),
      l ∈ h.pending ∧ d.covers lower l = false := by
    simp
  cases d with
  | clear =>
    exact ⟨[], fun _ hl => absurd hl not_mem_nil, (ite_eq_or_eq ..).symm.imp_right .inl⟩
  | forget profileId conversation =>
    exact ⟨h.pending, fun l hl => ⟨hl, hforget _ _ rfl l hl⟩, (ite_eq_or_eq ..).symm.imp_right .inl⟩
  | forgetProfile profileId => exact ⟨_, hfilter _, (ite_eq_or_eq ..).symm.imp_right .inl⟩
  | remove profileId conversation msgid sender =>
    exact ⟨_, hfilter _, (ite_eq_or_eq ..).symm.imp_right .inr⟩

theorem Sound.delete (hw : w.Sound lower)
    (hsettled : w.isSettled lower (.delete d)) : Sound lower (w.delete lower d) := by
  obtain ⟨hidle, hforget⟩ : w.history.writing = false ∧ ∀ profileId conversation,
      d = .forget profileId conversation → ∀ l ∈ w.history.pending, d.covers lower l = false := by
    unfold isSettled at hsettled
    rw [Bool.and_eq_true, Bool.not_eq_true'] at hsettled
    refine ⟨hsettled.1, ?_⟩
    rintro profileId conversation rfl l hl
    simpa using all_eq_true.1 hsettled.2 l hl
  obtain ⟨pending, hpending, hcases⟩ := delete_cases (k := w.asked.length) hforget
  have ho := hw.orderly
  generalize ha : ({ deletion := d, recorded := w.recorded, begun := w.history.nextCall } : Asked) =
      a
  have hold {k : Nat} {a' : Asked} (hk : w.asked[k]? = some a') :
      (w.asked ++ [a])[k]? = some a' := by
    rw [List.getElem?_append_left (List.getElem?_eq_some_iff.1 hk).1, hk]
  have hdone {k : Nat} {a' : Asked} (hk : w.asked[k]? = some a') (hdone : (w.duty lower).done k) :
      (duty lower { w with asked := w.asked ++ [a] }).done k :=
    fun a'' ha'' => hdone a'' (hk.trans ((hold hk).symm.trans ha''))
  have ho' :
      { w.history with pending }.Orderly (duty lower { w with asked := w.asked ++ [a] }) := by
    have hqueue : { w.history with pending }.Orderly (w.duty lower) :=
      ⟨fun l hl => ho.pending l (hpending l hl).1, ho.removals, fun c hc => { ho.fits c hc with },
        ho.apart⟩
    refine hqueue.mono ?_ (fun c hc l hl => ?_) fun k work hwork => ?_
    · rintro l hl ⟨a', ha', hgone⟩
      rcases mem_append.1 ha' with ha' | ha'
      · exact hqueue.pending l hl ⟨a', ha', hgone⟩
      · rw [mem_singleton.1 ha', ← ha] at hgone
        exact Bool.false_ne_true ((hpending l hl).2.symm.trans hgone.2)
    · rw [Work.adds_eq_nil (ho.isAppend_eq_false hidle c hc)] at hl
      cases hl
    · obtain ⟨a', ha', rfl⟩ := Option.map_eq_some_iff.1 hwork
      exact ⟨congrArg (Option.map _) (hold ha'), hdone ha'⟩
  have hworks : (duty lower { w with asked := w.asked ++ [a] }).works w.asked.length =
      some (d.work lower) := by
    simp [duty, ← ha]
  unfold World.delete
  rw [ha]
  refine ⟨?_, fun a' ha' => ?_, fun k a' hk hsucceeded => ?_⟩
  · rcases hcases with heq | heq | heq <;> rw [heq]
    · exact ho'
    · exact ho'.ask_owned d.isAppend_work hworks
    · refine ⟨ho'.pending, fun r hr => ?_, fun c hc => { ho'.fits c hc with }, ho'.apart⟩
      rcases mem_append.1 hr with hr | hr
      · exact ho'.removals r hr
      · obtain rfl := mem_singleton.1 hr
        exact hworks
  · rcases mem_append.1 ha' with ha' | ha'
    · exact hw.recorded a' ha'
    · rw [mem_singleton.1 ha', ← ha]
  · rcases Nat.lt_or_ge k w.asked.length with hlt | hge
    · have hk : w.asked[k]? = some a' := (List.getElem?_append_left hlt).symm.trans hk
      exact hdone hk (hw.done k a' hk hsucceeded)
    · have hnew : a' ∈ [a] := mem_of_getElem? ((List.getElem?_append_right hge).symm.trans hk)
      rw [mem_singleton.1 hnew, ← ha] at hsucceeded
      cases hsucceeded

theorem Sound.step (hw : w.Sound lower) (hi : w.isSettled lower i) :
    Sound lower (w.step lower i).1 := by
  cases i with
  | record => exact hw.record
  | timer => exact hw.timer
  | delete d => exact hw.delete hi
  | execute call ok late => exact hw.execute call ok late
  | finish call => exact hw.finish call
  | wake n => exact hw.wake n

/-! ## Runs -/

/-- Where every deletion is called for with nothing being written, and that of a conversation with
nothing of it in the queue, what is forgotten stays forgotten. -/
theorem forgotten_of_settled {enabled : Bool} {table : Table} {recorded : Nat}
    {happenings : List Happening}
    (h : Run.Along (step lower) (fun w i => w.isSettled lower i = true)
      { history := { enabled }, table, recorded } happenings) :
    (Run.after (step lower) { history := { enabled }, table, recorded } happenings).Forgotten
      lower := by
  have hstart : Sound lower { history := { enabled }, table, recorded } := by
    refine ⟨⟨?_, ?_, ?_, ?_⟩, ?_, ?_⟩ <;> simp
  exact (h.induction hstart fun _ _ hw hi => hw.step hi).forgotten

def said : Happening := .record "home" "#den" (some "bob") (some "m1") "hi"

theorem forgotten_of_settled_written :
    Run.Along (step Str.toAsciiLowercase) (fun w i => w.isSettled Str.toAsciiLowercase i = true) {}
      [said, .timer, .execute 0 true false, .finish 0, .delete (.forget "home" "#DEN"),
        .execute 1 true false, .finish 1] ∧
    (Run.after (step Str.toAsciiLowercase) {}
      [said, .timer, .execute 0 true false, .finish 0, .delete (.forget "home" "#DEN"),
        .execute 1 true false, .finish 1]).Forgotten Str.toAsciiLowercase := by
  have halong : Run.Along (step Str.toAsciiLowercase)
      (fun w i => w.isSettled Str.toAsciiLowercase i = true) {}
      [said, .timer, .execute 0 true false, .finish 0, .delete (.forget "home" "#DEN"),
        .execute 1 true false, .finish 1] := by
    decide +kernel
  exact ⟨halong, forgotten_of_settled halong⟩

/-- A line that waits when its conversation is forgotten is written afterwards; and so is a batch
that is on its way when everything is deleted. -/
theorem forgotten_comes_back :
    ¬(Run.after (step Str.toAsciiLowercase) {}
      [said, .delete (.forget "home" "#den"), .execute 0 true false, .finish 0, .timer,
        .execute 1 true false, .finish 1]).Forgotten Str.toAsciiLowercase ∧
    ¬(Run.after (step Str.toAsciiLowercase) {}
      [said, .timer, .delete .clear, .execute 1 true false, .finish 1, .execute 0 true false,
        .finish 0]).Forgotten Str.toAsciiLowercase := by
  decide +kernel

end World
end Ddirc.History
