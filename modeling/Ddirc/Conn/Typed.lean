import Ddirc.Conn.Queue

/-! # What becomes of what is typed

The lines of a command wait in the mailbox, then on the outgoing queue of the connection that took
it, until they are handed over. The queue ends with its connection, and a command that is taken
without one goes nowhere; neither is said to the user. -/

namespace Ddirc.Conn
open List
open Irc Client Api

def ClientCommand.isSay : ClientCommand → Bool
  | .sendMessage .. | .sendReply .. | .sendAction .. => true
  | _ => false

def lineOf (m : Message) : Option (String × String) :=
  match m.command with
  | .privmsg target text => some (target, text)
  | _ => none

def isError : IrcEvent → Bool
  | .error .. => true
  | _ => false

/-- The actor, with what became of what was typed. -/
structure Typed where
  actor : Actor
  /-- Which messages on the outgoing queue were typed, in its order. -/
  marks : List Bool := []
  ledger : Ledger (String × String) := {}

namespace Typed
variable {cmd : ClientCommand} {i : Actor.Input} {a' : Actor} {out : Actor.Output} {c : Connection}
  {rest : List ClientCommand}

def queue (w : Typed) : List (String × String) := marked lineOf w.actor.outgoing w.marks

def mail (w : Typed) : List (String × String) := w.actor.mailbox.flatMap (·.lines)

def waiting (w : Typed) : List (String × String) := w.queue ++ w.mail

section
variable (u : Platform)

def entries (w : Typed) (i : Actor.Input) (out : Actor.Output) : Ledger (String × String) where
  taken := match i with
    | .send cmd => if out.accepted then cmd.lines else []
    | _ => []
  done := match i with
    | .flush _ => marked lineOf out.sent w.marks
    | _ => []
  refused := match i, w.actor.mailbox with
    | .take, cmd :: _ => if out.events.any isError then cmd.lines else []
    | _, _ => []

def remarked (w : Typed) (i : Actor.Input) (out : Actor.Output) : List Bool :=
  match i with
  | .flush _ => w.marks.drop out.sent.length
  | .take => w.marks ++ out.queued.map fun _ => w.actor.mailbox.head?.any (·.isSay)
  | _ => w.marks ++ out.queued.map fun _ => false

def after (w : Typed) (i : Actor.Input) (actor : Actor) (out : Actor.Output) : Typed where
  actor
  marks := if actor.connection.isSome then w.remarked i out else []
  ledger := w.ledger.add (w.entries i out)

def step (w : Typed) (i : Actor.Input) : Typed × Actor.Output :=
  let (actor, out) := w.actor.step u i
  (w.after i actor out, out)

/-- Nothing typed is lost: it was handed to the connection, or the user was told, or it waits. -/
def Kept (w : Typed) : Prop := w.ledger.Balanced w.waiting

instance (w : Typed) : Decidable w.Kept := inferInstanceAs (Decidable (Ledger.Balanced ..))

end

/-- A connection ends with nothing typed on its queue, nothing typed is taken without a connection,
and nothing typed stands behind a `disconnect`. -/
def isPatient (w : Typed) : Actor.Input → Bool
  | .closed _ => w.queue.isEmpty
  | .take =>
    match w.actor.mailbox with
    | [] => !w.actor.hungUp || w.queue.isEmpty
    | .disconnect _ :: _ => w.waiting.isEmpty
    | cmd :: _ => w.actor.connection.isSome || cmd.lines.isEmpty
  | _ => true

/-! ## The queue and its marks -/

theorem queued_lines (c : Connection) (h : cmd.isSay) :
    (c.queued cmd).filterMap lineOf = cmd.lines := by
  cases cmd <;> cases h
  case sendMessage target text =>
    exact (filterMap_map ..).trans (filterMap_eq_map (f := (target, ·)) ▸ rfl)
  case sendAction target text =>
    exact (filterMap_map ..).trans
      (filterMap_eq_map (f := fun line => (target, "\x01ACTION " ++ line ++ "\x01")) ▸ rfl)
  case sendReply target text reply =>
    simp only [Connection.queued, ClientCommand.lines]
    cases sanitizeOutgoing (reply.quote text) with
    | nil => rfl
    | cons first rest =>
      simp only [filterMap_cons, filterMap_map, lineOf]
      exact congrArg _ (filterMap_eq_map (f := (target, ·)) ▸ rfl)

theorem lines_of_not_say (h : cmd.isSay = false) : cmd.lines = [] := by
  cases cmd <;> cases h <;> rfl

theorem shown_not_error (u : Platform) (c : Connection) (h : cmd.isSay) :
    (c.shown u cmd ++ Actor.drops c).any isError = false := by
  have hdrops : (Actor.drops c).any isError = false := by
    unfold Actor.drops
    split <;> rfl
  rw [any_append, hdrops, Bool.or_false, any_eq_false]
  cases cmd <;> cases h
  all_goals
    intro e he
    obtain ⟨line, -, rfl⟩ := mem_map.1 he
    exact Bool.false_ne_true

/-! ## Steps -/

variable {u : Platform} {w : Typed}

/-- The queue is marked from end to end. -/
def Sound (w : Typed) : Prop := w.marks.length = w.actor.outgoing.length

theorem after_append (hw : w.Sound)
    (hmarks : w.remarked i out = w.marks ++ out.queued.map fun _ => mark)
    (hqueue : a'.outgoing = w.actor.outgoing ++ out.queued) :
    (w.after i a' out).Sound ∧
      (w.after i a' out).queue = w.queue ++ if mark then out.queued.filterMap lineOf else [] := by
  unfold Sound queue after
  rw [hmarks]
  exact Actor.marked_queued mark hw hqueue

theorem after_down (i : Actor.Input) (out : Actor.Output) (hdown : a'.connection = none) :
    (w.after i a' out).Sound ∧ (w.after i a' out).queue = [] := by
  unfold Sound queue after
  simp [Actor.outgoing_of_down hdown, hdown, marked]

def Accounted (w : Typed) (i : Actor.Input) (a' : Actor) (out : Actor.Output) : Prop :=
  (w.after i a' out).Sound ∧ ((w.entries i out).taken ++ w.waiting).Perm
    ((w.entries i out).done ++ (w.entries i out).refused ++ (w.after i a' out).waiting)

theorem accounted_of_eq (hsound : (w.after i a' out).Sound) (hentries : w.entries i out = {})
    (hwaiting : (w.after i a' out).waiting = w.waiting) : w.Accounted i a' out := by
  refine ⟨hsound, ?_⟩
  rw [hentries, hwaiting]
  exact .refl _

theorem accounted_of_other (hw : w.Sound)
    (hmarks : w.remarked i out = w.marks ++ out.queued.map fun _ => false)
    (hentries : w.entries i out = {})
    (hqueue : a'.outgoing = w.actor.outgoing ++ out.queued)
    (hmail : a'.mailbox = w.actor.mailbox) : w.Accounted i a' out := by
  obtain ⟨hsound, hsame⟩ := after_append hw hmarks hqueue
  refine accounted_of_eq hsound hentries ?_
  have hmail : (w.after i a' out).mail = w.mail := congrArg (List.flatMap ClientCommand.lines) hmail
  rw [waiting, hsame, hmail, if_neg Bool.false_ne_true, append_nil, waiting]

theorem accounted_of_down
    (hentries : w.entries i out = {}) (hdown : a'.connection = none) (hempty : w.queue = [])
    (hmail : a'.mailbox.flatMap (·.lines) = w.mail) : w.Accounted i a' out := by
  obtain ⟨hsound, hqueue⟩ := after_down (w := w) i out hdown
  refine accounted_of_eq hsound hentries ?_
  rw [waiting, waiting, hqueue, hempty]
  exact congrArg ([] ++ ·) hmail

theorem queue_of_down (h : w.actor.connection = none) : w.queue = [] := by
  rw [queue, Actor.outgoing_of_down h]
  rfl

theorem accounted_placed (hw : w.Sound)
    (ha : a' = { w.actor with mailbox := w.actor.mailbox ++ [cmd] }) :
    w.Accounted (.send cmd) a' {} := by
  obtain ⟨hsound, hsame⟩ : (w.after (.send cmd) a' {}).Sound ∧ (w.after (.send cmd) a' {}).queue =
      w.queue ++ if false then [] else [] :=
    after_append hw rfl (by rw [ha]; exact (append_nil _).symm)
  refine ⟨hsound, ?_⟩
  have hmail : (w.after (.send cmd) a' {}).mail = w.mail ++ cmd.lines := by
    rw [ha]
    simp only [mail, after, flatMap_append, flatMap_singleton]
  have hlast : (cmd.lines ++ (w.queue ++ w.mail)).Perm (w.queue ++ (w.mail ++ cmd.lines)) := by
    rw [← append_assoc w.queue]
    exact perm_append_comm
  rw [waiting, waiting, hsame, hmail, if_neg Bool.false_ne_true, append_nil]
  exact hlast

theorem accounted_flush (hw : w.Sound) (hc : w.actor.connection = some c) (now : Instant)
    (events : List IrcEvent) :
    w.Accounted (.flush now) (w.actor.turn c (.flush now) events).1
      (w.actor.turn c (.flush now) events).2 := by
  obtain ⟨hsound, hqueue⟩ := Actor.marked_flush (f := lineOf) hw hc now events
  refine ⟨hsound, ?_⟩
  change w.waiting.Perm (marked lineOf (c.step (.flush now)).2.sent w.marks ++ [] ++
    (marked lineOf (c.step (.flush now)).1.outgoing (w.marks.drop _) ++ w.mail))
  rw [waiting, queue, hqueue, append_nil, append_assoc]
  rfl

theorem entries_quiet
    (hsend : ∀ cmd, i = .send cmd → out.accepted = false) (hsent : i = .take ∨ out.sent = [])
    (hevents : i = .take → out.events = []) : w.entries i out = {} := by
  unfold entries
  cases i with
  | send cmd => rw [hsend cmd rfl]; rfl
  | take =>
    rw [hevents rfl]
    cases w.actor.mailbox <;> rfl
  | flush now => rw [hsent.resolve_left nofun]; rfl
  | _ => rfl

theorem mail_cons
    (h : w.actor.mailbox = cmd :: rest) : w.mail = cmd.lines ++ rest.flatMap (·.lines) := by
  rw [mail, h, flatMap_cons]

theorem accounted_command (hw : w.Sound) (hc : w.actor.connection = some c)
    (hmail : w.actor.mailbox = cmd :: rest)
    (ha : a' = { w.actor with mailbox := rest }.upWith (c.command cmd).1) (hout : out =
      { events := c.shown u cmd ++ Actor.drops c, queued := (c.command cmd).2.queued }) :
    w.Accounted .take a' out := by
  have hqueued : out.queued = c.queued cmd := by rw [hout]; rfl
  have hmarks : w.remarked .take out = w.marks ++ out.queued.map fun _ => cmd.isSay := by
    unfold remarked
    rw [hmail]
    rfl
  have hentries : w.entries .take out = {} := by
    unfold entries
    rw [hmail, hout]
    cases hsay : cmd.isSay with
    | true => simp only [shown_not_error u c hsay, Bool.false_eq_true, if_false]
    | false => simp only [lines_of_not_say hsay, ite_self]
  obtain ⟨hsound, hqueue⟩ : (w.after .take a' out).Sound ∧ (w.after .take a' out).queue =
      w.queue ++ if cmd.isSay then out.queued.filterMap lineOf else [] := by
    refine after_append hw hmarks ?_
    rw [Actor.outgoing_of_up hc, hqueued, ha]
    rfl
  refine accounted_of_eq hsound hentries ?_
  have hrest : (w.after .take a' out).mail = rest.flatMap (·.lines) := by rw [ha]; rfl
  have hlines : (if cmd.isSay then out.queued.filterMap lineOf else []) = cmd.lines := by
    rw [hqueued]
    cases hsay : cmd.isSay with
    | true => exact queued_lines c hsay
    | false => exact (lines_of_not_say hsay).symm
  rw [waiting, waiting, hqueue, hrest, hlines, mail_cons hmail, append_assoc]

theorem lines_of_patient (hpatient : w.isPatient .take) (hdown : w.actor.connection = none)
    (hmail : w.actor.mailbox = cmd :: rest)
    (hquit : ∀ reason, cmd ≠ .disconnect reason) : cmd.lines = [] := by
  simp only [isPatient, hmail, hdown] at hpatient
  exact isEmpty_iff.1 hpatient

theorem waiting_of_patient (hpatient : w.isPatient .take)
    (hmail : w.actor.mailbox = [] ∧ w.actor.hungUp ∨
      ∃ reason rest, w.actor.mailbox = .disconnect reason :: rest) :
    w.queue = [] ∧ w.mail = [] := by
  unfold isPatient at hpatient
  rcases hmail with ⟨hmail, hhung⟩ | ⟨reason, rest, hmail⟩
  · rw [hmail, hhung] at hpatient
    exact ⟨isEmpty_iff.1 hpatient, by rw [mail, hmail]; rfl⟩
  · rw [hmail] at hpatient
    exact append_eq_nil_iff.1 (isEmpty_iff.1 hpatient)

theorem accounted_step (hw : w.Sound) (hpatient : w.isPatient i)
    (hstep : w.actor.step u i = (a', out)) : w.Accounted i a' out := by
  have hlines {m : List ClientCommand} (h : a'.mailbox = m) :
      a'.mailbox.flatMap (·.lines) = m.flatMap (·.lines) := by rw [h]
  cases Actor.moved_of_step hstep with
  | idle hphase _ hmail hsent hevents _ hqueued _ hclosed =>
    have hmarks : w.remarked i out = w.marks ++ out.queued.map fun _ => false := by
      unfold remarked
      rw [hsent, hqueued]
      cases i <;> simp
    refine accounted_of_other hw hmarks (entries_quiet hclosed (.inr hsent) fun hi => ?_) ?_ hmail
    · refine eq_nil_iff_forall_not_mem.2 fun e he => ?_
      cases hi.symm.trans (hevents e he).1
    · rw [hqueued, append_nil, Actor.outgoing, Actor.connection, hphase]
      rfl
  | placed _ _ ha => exact accounted_placed hw ha
  | dialed hphase hstart ha =>
    obtain rfl := (Prod.ext_iff.1 hstart).1
    refine accounted_of_other hw rfl rfl ?_ (by rw [ha]; rfl)
    rw [ha, Actor.outgoing.eq_1 w.actor, Actor.connection.eq_1 w.actor, hphase]
    rfl
  | offline hbefore _ hafter _ _ hmail hi =>
    refine accounted_of_down ?_ hafter (queue_of_down hbefore) (hlines hmail)
    rcases hi with rfl | rfl <;> rfl
  | ignored hbefore _ hmail hquit hafter _ _ hmail' =>
    refine accounted_of_down (entries_quiet (by simp) (.inl rfl) fun _ => rfl) hafter
      (queue_of_down hbefore) ?_
    rw [hlines hmail', mail_cons hmail, lines_of_patient hpatient hbefore hmail hquit, nil_append]
  | command hc hmail _ ha hout => exact accounted_command hw hc hmail ha hout
  | turn hc hi _ hturn =>
    obtain ⟨rfl, rfl⟩ := Prod.ext_iff.1 hturn
    rcases hi with ⟨rfl, rfl⟩ | ⟨now, rfl, rfl⟩
    · refine accounted_of_other hw rfl rfl ?_ rfl
      rw [Actor.outgoing_of_up hc]
      exact Connection.step_queued (i := .deadline) _ (by simp)
    · exact accounted_flush hw hc now _
  | message hc _ hturn =>
    obtain ⟨rfl, rfl⟩ := Prod.ext_iff.1 hturn
    refine accounted_of_other hw rfl rfl ?_ rfl
    rw [Actor.outgoing_of_up hc]
    exact Connection.step_queued (i := .message _ _) _ (by simp)
  | lost hc ha =>
    obtain ⟨hdown, -, -, hmail, -⟩ := Actor.retry_connection (w.actor.keep _) _
    rw [← ha] at hdown hmail
    exact accounted_of_down rfl hdown (isEmpty_iff.1 hpatient) (hlines hmail)
  | quit _ hevents hmail ha =>
    obtain ⟨hqueue, hnone⟩ := waiting_of_patient hpatient hmail
    subst ha
    exact accounted_of_down (entries_quiet (by simp) (.inl rfl) fun _ => hevents) rfl hqueue
      hnone.symm

/-! ## Runs -/

theorem sound_kept_step (hw : w.Sound ∧ w.Kept) (hpatient : w.isPatient i) :
    (w.step u i).1.Sound ∧ (w.step u i).1.Kept := by
  obtain ⟨hsound, hperm⟩ := accounted_step (u := u) hw.1 hpatient rfl
  exact ⟨hsound, hw.2.add hperm⟩

theorem emptied_step {a : Actor} (h : a.isFinished → a.mailbox = []) (i : Actor.Input)
    (hdone : (a.step u i).1.isFinished) : (a.step u i).1.mailbox = [] := by
  have hmoved := Actor.step_moved u a i
  generalize a.step u i = r at hmoved hdone
  obtain ⟨a', out⟩ := r
  cases hmoved with
  | idle hphase _ hmail =>
    rw [Actor.isFinished, hphase] at hdone
    exact hmail.trans (h hdone)
  | placed hrunning _ ha =>
    subst ha
    cases hrunning.symm.trans hdone
  | dialed _ _ ha => subst ha; cases hdone
  | offline _ _ _ hstill => cases hstill.symm.trans hdone
  | ignored _ _ _ _ _ hstill => cases hstill.symm.trans hdone
  | command _ _ _ ha => subst ha; cases hdone
  | turn _ _ _ hturn | message _ _ hturn =>
    rw [(Prod.mk.inj hturn).1] at hdone
    cases hdone
  | lost _ ha =>
    subst ha
    cases (Actor.retry_connection ..).2.1.symm.trans hdone
  | quit _ _ _ ha => subst ha; rfl

theorem waiting_of_finished (h : w.actor.isFinished) (hmail : w.actor.mailbox = []) :
    w.waiting = [] := by
  have hdown : w.actor.connection = none := by
    cases hphase : w.actor.phase <;> simp [Actor.isFinished, Actor.connection, hphase] at h ⊢
  rw [waiting, queue_of_down hdown, mail, hmail]
  rfl

/-- What was typed is accounted for all along, and when the actor is done nothing of it waits. -/
theorem kept_along {config : ServerConfig} {recvLimiter : ReceiveLimiter}
    {inputs : List Actor.Input}
    (h : Run.Along (step u) (fun w i => w.isPatient i) { actor := { config, recvLimiter } }
      inputs) :
    let w := Run.after (step u) { actor := { config, recvLimiter } } inputs
    w.Kept ∧ (w.actor.isFinished → w.waiting = []) := by
  obtain ⟨-, hkept, hdone⟩ := h.induction
    (I := fun w => w.Sound ∧ w.Kept ∧ (w.actor.isFinished → w.actor.mailbox = []))
    ⟨rfl, .refl _, fun _ => rfl⟩ fun w i hw hi =>
      have hstep := sound_kept_step ⟨hw.1, hw.2.1⟩ hi
      ⟨hstep.1, hstep.2, emptied_step hw.2.2 i⟩
  exact ⟨hkept, fun hfinished => waiting_of_finished hfinished (hdone hfinished)⟩

end Typed
end Ddirc.Conn
