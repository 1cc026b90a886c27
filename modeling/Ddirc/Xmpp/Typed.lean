import Ddirc.Conn.Echo
import Ddirc.Conn.Typed
import Ddirc.Xmpp.Actor
import Ddirc.Xmpp.Deed

/-! # What becomes of what is typed, over XMPP

The pieces of a text wait in the mailbox, then for the send limiter, until they are handed to the
stream. A text that cannot be sent, or is taken after the stream ended, is answered with an error;
the messages that wait for the limiter when it ends are dropped. -/

namespace Ddirc.Xmpp
open List
open Conn (ClientCommand Instant ReceiveLimiter SendLimiter)

def Event.isError : Event → Bool
  | .error _ => true
  | _ => false

def pieces (rules : JidRules) (target text : String) (action : Bool) : List (Option Jid × String) :=
  (sanitizeOutgoing text).map fun text =>
    (rules.parse (Str.trim target), if action then "/me " ++ text else text)

def said (rules : JidRules) : ClientCommand → List (Option Jid × String)
  | .sendMessage target text => pieces rules target text false
  | .sendAction target text => pieces rules target text true
  | .sendReply target text reply => pieces rules target (reply.quote text) false
  | _ => []

/-! ## What the session sends -/

namespace Effects

def lines (fx : Effects) : List (Option Jid × String) := fx.send.filterMap Outgoing.line

@[simp] theorem lines_append (a b : Effects) : (a ++ b).lines = a.lines ++ b.lines :=
  filterMap_append

end Effects

namespace Session
variable {rules : JidRules} {s : Session}

theorem Does.lines (h : s.Does l r) (htalks : l.talks = false) : r.2.lines = [] := by
  refine h.keeps (I := fun r => r.2.lines = []) rfl fun r d hd hr => ?_
  cases d with
  | ask p request =>
    have hline : (request r.1.nextId.2).line = none := by
      have := hd.2 r.1.nextId.2
      cases hrequest : request r.1.nextId.2 with
      | say => rw [hrequest] at this; cases this
      | _ => rfl
    refine (Effects.lines_append ..).trans ?_
    rw [hr]
    exact filterMap_cons_none hline
  | send o =>
    refine (Effects.lines_append ..).trans ?_
    rw [hr]
    exact filterMap_cons_none (hd.2.2.1.resolve_right (htalks ▸ Bool.false_ne_true))
  | utter | tell =>
    refine (Effects.lines_append ..).trans ?_
    rw [hr]
    rfl
  | _ => exact hr

theorem step_lines (h : ∀ c, i ≠ .command c) : (s.step rules i).2.lines = [] := by
  refine (does_step i).lines ?_
  cases i with
  | command c => exact absurd rfl (h c)
  | _ => rfl

theorem each_sayPart_lines (dest : Jid) (inRoom action : Bool) (conversation : String) (s : Session)
    (texts : List String) :
    (each (sayPart dest inRoom action conversation) s texts).2.lines =
        texts.map (fun text => (some dest, if action then "/me " ++ text else text)) ∧
      (each (sayPart dest inRoom action conversation) s texts).2.events.any Event.isError =
        false := by
  induction texts generalizing s with
  | nil => exact ⟨rfl, rfl⟩
  | cons text rest ih =>
    obtain ⟨hlines, hevents⟩ := ih (sayPart dest inRoom action conversation s text).1
    have hpart : (sayPart dest inRoom action conversation s text).2.lines =
          [(some dest, if action then "/me " ++ text else text)] ∧
        (sayPart dest inRoom action conversation s text).2.events.any Event.isError = false := by
      unfold sayPart
      dsimp only
      split <;> exact ⟨rfl, rfl⟩
    unfold each
    rw [Effects.lines_append, hpart.1, hlines, Effects.append_events, any_append, hpart.2, hevents]
    exact ⟨rfl, rfl⟩

/-- A text is sent in pieces, or the user is told that it is not. -/
theorem say_lines (target text : String) (action : Bool) :
    ((s.say rules target text action).2.lines = [] ∧
        (s.say rules target text action).2.events.any Event.isError) ∨
      ((s.say rules target text action).2.lines = pieces rules target text action ∧
        (s.say rules target text action).2.events.any Event.isError = false) := by
  unfold say pieces
  split
  · exact .inl ⟨rfl, rfl⟩
  next dest hdest =>
    dsimp only
    split
    · exact .inl ⟨rfl, rfl⟩
    · rw [hdest]
      exact .inr (each_sayPart_lines dest _ action _ s (sanitizeOutgoing text))

theorem onClientCommand_lines (cmd : ClientCommand) :
    ((s.onClientCommand rules cmd).2.lines = [] ∧ (said rules cmd = [] ∨
        (s.onClientCommand rules cmd).2.events.any Event.isError)) ∨
      ((s.onClientCommand rules cmd).2.lines = said rules cmd ∧
        (s.onClientCommand rules cmd).2.events.any Event.isError = false) := by
  have hquiet {r : Session × Effects} (h : s.Does { sends := true } r) : r.2.lines = [] :=
    h.lines rfl
  cases cmd with
  | sendMessage target text => exact (say_lines target text false).imp_left fun h => ⟨h.1, .inr h.2⟩
  | sendAction target text => exact (say_lines target text true).imp_left fun h => ⟨h.1, .inr h.2⟩
  | sendReply target text reply =>
    exact (say_lines target (reply.quote text) false).imp_left fun h => ⟨h.1, .inr h.2⟩
  | join channel key => exact .inl ⟨hquiet (.join rfl channel key), .inl rfl⟩
  | part channel reason => exact .inl ⟨hquiet (.part rfl channel), .inl rfl⟩
  | setNick nick =>
    refine .inl ⟨?_, .inl rfl⟩
    rw [onClientCommand, onCommand]
    exact hquiet (.setNick rfl nick)
  | catchUpChats since =>
    refine .inl ⟨?_, .inl rfl⟩
    rw [onClientCommand, onCommand]
    split <;> rfl
  | editMessage target msgid text => exact .inl ⟨hquiet (.edit rfl target msgid text), .inl rfl⟩
  | retractMessage target msgid => exact .inl ⟨hquiet (.retract rfl target msgid), .inl rfl⟩
  | _ => exact .inl ⟨rfl, .inl rfl⟩

end Session

/-! ## The messages that wait -/

namespace Actor
variable {rules : JidRules} {a : Actor}

def paced (a : Actor) : List Outgoing :=
  match a.phase with
  | .running _ paced => paced
  | _ => []

theorem release_append (limiter : SendLimiter) (now : Instant) (ms : List Outgoing) :
    (release limiter now ms).2.1 ++ (release limiter now ms).2.2 = ms := by
  induction ms generalizing limiter with
  | nil => rfl
  | cons m rest ih =>
    unfold release
    dsimp only
    split
    · exact congrArg (m :: ·) (ih _)
    · rfl

/-- Nothing is lost between the session and the stream. -/
theorem apply_lines (now : Instant) (paced : List Outgoing) (r : Session × Effects) :
    (a.apply now paced r).2.sent.filterMap Outgoing.line ++
        (a.apply now paced r).1.paced.filterMap Outgoing.line =
      paced.filterMap Outgoing.line ++ r.2.lines := by
  have hmessages (send : List Outgoing) :
      (send.filter (·.isMessage)).filterMap Outgoing.line = send.filterMap Outgoing.line := by
    rw [filterMap_filter]
    exact filterMap_congr fun o _ => by cases o <;> rfl
  have hothers (send : List Outgoing) :
      (send.filter (!·.isMessage)).filterMap Outgoing.line = [] := by
    refine filterMap_eq_nil_iff.2 fun o ho => ?_
    cases o <;> first | rfl | exact absurd (mem_filter.1 ho).2 Bool.false_ne_true
  have hrelease := release_append a.sendLimiter now (paced ++ r.2.send.filter (·.isMessage))
  unfold apply
  dsimp only [Actor.paced]
  rw [filterMap_append, hothers, nil_append, ← filterMap_append, hrelease,
    filterMap_append, hmessages]
  rfl

end Actor

/-! ## Steps -/

/-- The actor, with what became of what was typed. -/
structure Typed where
  actor : Actor
  ledger : Ledger (Option Jid × String) := {}

namespace Typed
variable {i : Actor.Input} {r : Actor × Actor.Output} {now : Instant} {a : Actor} {s : Session}
  {paced : List Outgoing} {cmd : ClientCommand} {rest : List ClientCommand}

section
variable (rules : JidRules)

def queue (w : Typed) : List (Option Jid × String) := w.actor.paced.filterMap Outgoing.line

def mail (w : Typed) : List (Option Jid × String) := w.actor.mailbox.flatMap (said rules)

def waiting (w : Typed) : List (Option Jid × String) := w.queue ++ w.mail rules

def entries (w : Typed) (i : Actor.Input) (out : Actor.Output) : Ledger (Option Jid × String) where
  taken := match i with
    | .send cmd => if out.accepted then said rules cmd else []
    | _ => []
  done := out.sent.filterMap Outgoing.line
  refused := match i, w.actor.mailbox with
    | .take _, cmd :: _ => if out.events.any Event.isError then said rules cmd else []
    | _, _ => []

def step (w : Typed) (i : Actor.Input) : Typed × Actor.Output :=
  let (actor, out) := w.actor.step rules i
  ({ actor, ledger := w.ledger.add (w.entries rules i out) }, out)

/-- Nothing typed is lost: it was handed to the stream, or the user was told, or it waits. -/
def Kept (w : Typed) : Prop := w.ledger.Balanced (w.waiting rules)

instance (w : Typed) : Decidable (w.Kept rules) := inferInstanceAs (Decidable (Ledger.Balanced ..))

/-- The stream ends with nothing typed waiting for the limiter, and nothing typed stands behind a
`disconnect`, nor waits when nobody listens any more. -/
def isPatient (w : Typed) : Actor.Input → Bool
  | .ended _ => w.queue.isEmpty
  | .unheard => (w.waiting rules).isEmpty
  | .take _ =>
    match w.actor.mailbox with
    | [] => !w.actor.hungUp || w.queue.isEmpty
    | .disconnect _ :: _ => (w.waiting rules).isEmpty
    | _ => true
  | _ => true

end

variable {rules : JidRules} {w : Typed}

def Emptied (a : Actor) : Prop := a.isFinished = true → a.mailbox = []

/-- The input accounts for what was waiting, and an actor that is done has no mail. -/
structure Accounted (rules : JidRules) (w : Typed) (i : Actor.Input) (r : Actor × Actor.Output) :
    Prop where
  perm : ((w.entries rules i r.2).taken ++ w.waiting rules).Perm
    ((w.entries rules i r.2).done ++ (w.entries rules i r.2).refused ++
      (r.1.paced.filterMap Outgoing.line ++ r.1.mailbox.flatMap (said rules)))
  emptied : Emptied w.actor → Emptied r.1

/-- Nothing is handed over and nobody is told that something was not sent. -/
theorem accounted_of_quiet (hi : ∀ cmd, i ≠ .send cmd) (hsent : r.2.sent = [])
    (hevents : r.2.events.any Event.isError = false ∨ ∀ now, i ≠ .take now)
    (hqueue : r.1.paced.filterMap Outgoing.line = w.queue)
    (hmail : r.1.mailbox.flatMap (said rules) = w.mail rules)
    (hemptied : Emptied w.actor → Emptied r.1) : w.Accounted rules i r := by
  have hentries : w.entries rules i r.2 = {} := by
    unfold entries
    rw [hsent]
    cases i with
    | send cmd => exact absurd rfl (hi cmd)
    | take now =>
      rw [hevents.resolve_right fun h => h now rfl]
      cases w.actor.mailbox <;> rfl
    | _ => rfl
  refine ⟨?_, hemptied⟩
  rw [hentries, hqueue, hmail]
  exact .refl _

/-- What the session decides without a command of ours that says something. -/
theorem accounted_apply {r : Session × Effects}
    (hi : (∀ cmd, i ≠ .send cmd) ∧ ∀ now, i ≠ .take now) (hmail : a.mailbox = w.actor.mailbox)
    (hlines : r.2.lines = []) : w.Accounted rules i (a.apply now w.actor.paced r) := by
  have happly := Actor.apply_lines (a := a) now w.actor.paced r
  have hentries : w.entries rules i (a.apply now w.actor.paced r).2 =
      { done := (a.apply now w.actor.paced r).2.sent.filterMap Outgoing.line } := by
    cases i with
    | send cmd => exact absurd rfl (hi.1 cmd)
    | take now => exact absurd rfl (hi.2 now)
    | _ => rfl
  refine ⟨?_, fun _ => nofun⟩
  rw [hentries]
  refine .of_eq ?_
  have hmailbox : (a.apply now w.actor.paced r).1.mailbox = w.actor.mailbox := hmail
  rw [append_nil, hmailbox, ← append_assoc, happly, hlines, append_nil]
  rfl

theorem queue_of_running (h : w.actor.phase = .running s paced) : w.actor.paced = paced := by
  unfold Actor.paced
  rw [h]

theorem mail_cons (h : w.actor.mailbox = cmd :: rest) :
    w.mail rules = said rules cmd ++ rest.flatMap (said rules) := by
  rw [mail, h, flatMap_cons]

theorem accounted_send (cmd : ClientCommand) :
    w.Accounted rules (.send cmd) (w.actor.step rules (.send cmd)) := by
  simp only [Actor.step]
  split
  · exact ⟨.refl _, id⟩
  next hopen =>
    have hlast : (said rules cmd ++ (w.queue ++ w.mail rules)).Perm
        (w.queue ++ (w.mail rules ++ said rules cmd)) := by
      rw [← append_assoc w.queue]
      exact perm_append_comm
    rw [Bool.or_eq_true, not_or] at hopen
    refine ⟨?_, fun _ hdone => absurd hdone hopen.1⟩
    rw [flatMap_append, flatMap_singleton]
    exact hlast

/-- With nothing waiting, the actor may finish. -/
theorem accounted_finish (hi : ∀ cmd, i ≠ .send cmd)
    (hwaiting : w.waiting rules = []) : w.Accounted rules i (w.actor.finish, {}) := by
  obtain ⟨hqueue, hmail⟩ := append_eq_nil_iff.1 hwaiting
  exact accounted_of_quiet hi rfl (.inl rfl) hqueue.symm hmail.symm fun _ _ => rfl

/-- A command that the session takes: its pieces join those that wait, or the user is told. -/
theorem accounted_command (hphase : w.actor.phase = .running s paced)
    (hmail : w.actor.mailbox = cmd :: rest) :
    w.Accounted rules (.take now)
      ({ w.actor with mailbox := rest }.apply now paced (s.onClientCommand rules cmd)) := by
  have hlines : ((s.onClientCommand rules cmd).2.lines = [] ∧ _) ∨ _ := s.onClientCommand_lines cmd
  generalize s.onClientCommand rules cmd = r at hlines
  generalize ha : { w.actor with mailbox := rest } = a
  have happly := Actor.apply_lines (a := a) now paced r
  have hmailbox : (a.apply now paced r).1.mailbox = rest := by rw [← ha]; rfl
  have hevents : (a.apply now paced r).2.events = r.2.events := rfl
  have hentries : w.entries rules (.take now) (a.apply now paced r).2 =
      { done := (a.apply now paced r).2.sent.filterMap Outgoing.line
        refused := if r.2.events.any Event.isError then said rules cmd else [] } := by
    unfold entries
    rw [hmail, hevents]
  refine ⟨?_, fun _ => nofun⟩
  rw [hentries, hmailbox, waiting, mail_cons hmail, queue, queue_of_running hphase]
  generalize (a.apply now paced r).2.sent.filterMap Outgoing.line = sent at happly
  generalize (a.apply now paced r).1.paced.filterMap Outgoing.line = left at happly
  generalize paced.filterMap Outgoing.line = before at happly
  generalize rest.flatMap (said rules) = behind
  rw [nil_append]
  rcases hlines with ⟨hnone, hsaid | herror⟩ | ⟨hsaid, hquiet⟩
  · rw [hsaid, ite_self, append_nil, nil_append, ← append_assoc, happly, hnone,
      append_nil]
  · rw [herror]
    rw [hnone, append_nil] at happly
    rw [← happly, append_assoc, append_assoc]
    refine .append_left sent ?_
    rw [← append_assoc, ← append_assoc]
    exact perm_append_comm.append_right behind
  · rw [hquiet, if_neg Bool.false_ne_true, append_nil, ← append_assoc, ← hsaid, ← happly,
      append_assoc]

theorem waiting_of_disconnect (hpatient : w.isPatient rules (.take now))
    (hmail : w.actor.mailbox = .disconnect reason :: rest) : w.waiting rules = [] := by
  unfold isPatient at hpatient
  rw [hmail] at hpatient
  exact isEmpty_iff.1 hpatient

theorem accounted_take_nil (hpatient : w.isPatient rules (.take now))
    (hmail : w.actor.mailbox = []) :
    w.Accounted rules (.take now) (if w.actor.hungUp then w.actor.finish else w.actor, {}) := by
  unfold isPatient at hpatient
  rw [hmail] at hpatient
  cases hhung : w.actor.hungUp with
  | false => exact accounted_of_quiet nofun rfl (.inl rfl) rfl rfl id
  | true =>
    rw [hhung] at hpatient
    refine accounted_finish nofun ?_
    rw [waiting, isEmpty_iff.1 hpatient, mail, hmail]
    rfl

theorem accounted_take (hpatient : w.isPatient rules (.take now)) :
    w.Accounted rules (.take now) (w.actor.take rules now) := by
  unfold Actor.take
  split
  next hmail => exact accounted_take_nil hpatient hmail
  next hmail => exact accounted_take_nil hpatient hmail
  next s paced cmd rest hphase hmail =>
    unfold Actor.commandRunning
    split
    · exact accounted_finish nofun (waiting_of_disconnect hpatient hmail)
    · refine accounted_of_quiet nofun rfl (.inl rfl) rfl (by rw [mail_cons hmail]; rfl)
        fun _ hdone => ?_
      rw [hphase] at hdone
      cases hdone
    · exact accounted_command hphase hmail
  next cmd rest hphase hmail =>
    have hqueue : w.queue = [] := by
      unfold queue Actor.paced
      rw [hphase]
      rfl
    unfold Actor.commandStopped
    split
    · exact accounted_finish nofun (waiting_of_disconnect hpatient hmail)
    · exact accounted_of_quiet nofun rfl (.inl rfl) hqueue.symm (by rw [mail_cons hmail]; rfl)
        fun _ => nofun
    · refine ⟨.of_eq ?_, fun _ hdone => ?_⟩
      · unfold entries
        rw [hmail, waiting, mail_cons hmail, hqueue]
        change said rules cmd ++ rest.flatMap (said rules) = said rules cmd ++
          (w.queue ++ rest.flatMap (said rules))
        rw [hqueue]
        rfl
      · rw [hphase] at hdone
        cases hdone
  · exact accounted_of_quiet nofun rfl (.inl rfl) rfl rfl id
  · exact accounted_of_quiet nofun rfl (.inl rfl) rfl rfl id

theorem step_received {i : Input} (h : ∀ c, i ≠ .command c) :
    a.step rules (.received now i) = match a.phase with
      | .running s paced =>
        if (a.tryAdmit now i).2 then (a.tryAdmit now i).1.apply now paced (s.step rules i)
        else ((a.tryAdmit now i).1, {})
      | _ => (a, {}) := by
  cases i <;> first | rfl | exact absurd rfl (h _)

theorem tryAdmit_keeps (a : Actor) (now : Instant) (i : Input) :
    (a.tryAdmit now i).1.mailbox = a.mailbox ∧ (a.tryAdmit now i).1.phase = a.phase := by
  cases i <;> exact ⟨rfl, rfl⟩

theorem accounted_step (hpatient : w.isPatient rules i) :
    w.Accounted rules i (w.actor.step rules i) := by
  have hsame {i : Actor.Input} (hi : ∀ cmd, i ≠ .send cmd) : w.Accounted rules i (w.actor, {}) :=
    accounted_of_quiet hi rfl (.inl rfl) rfl rfl id
  cases i with
  | send cmd => exact accounted_send cmd
  | take now => exact accounted_take hpatient
  | hangUp => exact accounted_of_quiet (by simp) rfl (.inl rfl) rfl rfl id
  | started idStem =>
    simp only [Actor.step]
    split
    next hphase =>
      refine accounted_of_quiet (by simp) rfl (.inl rfl) ?_ rfl (by rintro _ ⟨⟩)
      unfold queue Actor.paced
      rw [hphase]
    · exact hsame (by simp)
  | startFailed message =>
    simp only [Actor.step]
    split
    next hphase =>
      refine accounted_of_quiet (by simp) rfl (.inr (by simp)) ?_ rfl (by rintro _ ⟨⟩)
      unfold queue Actor.paced
      rw [hphase]
    · exact hsame (by simp)
  | received now i =>
    by_cases hcommand : ∃ c, i = .command c
    · obtain ⟨c, rfl⟩ := hcommand
      exact hsame (by simp)
    · have hi : ∀ c, i ≠ .command c := fun c h => hcommand ⟨c, h⟩
      obtain ⟨hmail, hsamePhase⟩ := tryAdmit_keeps w.actor now i
      rw [step_received hi]
      split
      next s paced hphase =>
        split
        · rw [← queue_of_running hphase]
          exact accounted_apply (by simp) hmail (Session.step_lines hi)
        · refine accounted_of_quiet (by simp) rfl (.inl rfl) ?_ (by rw [hmail]; rfl) fun h => ?_
          · unfold queue Actor.paced
            rw [hsamePhase]
          · rw [Emptied, Actor.isFinished, hsamePhase, hmail]
            exact h
      · exact hsame (by simp)
  | release now =>
    simp only [Actor.step]
    split
    next hphase =>
      rw [← queue_of_running hphase]
      exact accounted_apply (by simp) rfl rfl
    · exact hsame (by simp)
  | ended message =>
    simp only [Actor.step]
    split
    next hphase =>
      exact accounted_of_quiet (by simp) rfl (.inr (by simp)) (isEmpty_iff.1 hpatient).symm rfl
        (by rintro _ ⟨⟩)
    · exact hsame (by simp)
  | unheard => exact accounted_finish (by simp) (isEmpty_iff.1 hpatient)

/-! ## Runs -/

theorem waiting_of_finished (h : w.actor.isFinished) (hmail : w.actor.mailbox = []) :
    w.waiting rules = [] := by
  have hpaced : w.actor.paced = [] := by
    cases hphase : w.actor.phase <;> simp [Actor.isFinished, Actor.paced, hphase] at h ⊢
  rw [waiting, queue, hpaced, mail, hmail]
  rfl

theorem kept_along (h : Run.Along (step rules) (fun w i => w.isPatient rules i)
      { actor := { config, recvLimiter, sendLimiter } } inputs) :
    let w := Run.after (step rules) { actor := { config, recvLimiter, sendLimiter } } inputs
    w.Kept rules ∧ (w.actor.isFinished → w.waiting rules = []) := by
  obtain ⟨hkept, hdone⟩ := h.induction
    (I := fun w => w.Kept rules ∧ Emptied w.actor) ⟨.refl _, fun _ => rfl⟩
      fun (w : Typed) i hw hi =>
      have hstep : w.Accounted rules i (w.actor.step rules i) := accounted_step hi
      ⟨hw.1.add hstep.perm, hstep.emptied hw.2⟩
  exact ⟨hkept, fun hfinished => waiting_of_finished hfinished (hdone hfinished)⟩

end Typed

/-! ## Both protocols -/

/-- Over either protocol, where connections end with nothing typed on their queue and nothing is
typed without one, what was typed is handed over, or the user is told, and when the actor is done
nothing of it waits. -/
theorem typed_kept (u : Conn.Platform) (rules : JidRules) :
    (∀ config recvLimiter inputs,
      Run.Along (Conn.Typed.step u) (fun w i => w.isPatient i = true)
        { actor := { config, recvLimiter } } inputs →
      let w := Run.after (Conn.Typed.step u) { actor := { config, recvLimiter } } inputs
      w.Kept ∧ (w.actor.isFinished = true → w.waiting = [])) ∧
    ∀ config recvLimiter sendLimiter inputs,
      Run.Along (Typed.step rules) (fun w i => w.isPatient rules i = true)
        { actor := { config, recvLimiter, sendLimiter } } inputs →
      let w := Run.after (Typed.step rules) { actor := { config, recvLimiter, sendLimiter } } inputs
      w.Kept rules ∧ (w.actor.isFinished = true → w.waiting rules = []) :=
  ⟨fun _ _ _ h => Conn.Typed.kept_along h, fun _ _ _ _ h => Typed.kept_along h⟩

def ircLine : Conn.Actor.Input := .send (.sendMessage "bob" "hi")

def ircStart : Conn.Typed where
  actor := { config := { nickname := "alice" }, recvLimiter := .init 0 }

def xmppLine : Actor.Input := .send (.sendMessage "bob@example.org" "hi")

def xmppStart : Typed where
  actor :=
    { config := { account := .alice, roomNick := "alice" }
      recvLimiter := .init 0
      sendLimiter := .init 0 }

theorem typed_kept_patiently :
    (Run.Along (Conn.Typed.step Conn.asciiPlatform) (fun w i => w.isPatient i = true) ircStart
      [.dialed 0, ircLine, .take, .flush 0, .send (.disconnect none), .take] ∧
    (Run.after (Conn.Typed.step Conn.asciiPlatform) ircStart
      [.dialed 0, ircLine, .take, .flush 0, .send (.disconnect none), .take]).ledger =
      { taken := [("bob", "hi")], done := [("bob", "hi")] } ∧
    (Run.after (Conn.Typed.step Conn.asciiPlatform) ircStart
      [.dialed 0, ircLine, .take, .flush 0, .send (.disconnect none), .take]).Kept) ∧
    Run.Along (Typed.step .verbatim) (fun w i => w.isPatient .verbatim i = true) xmppStart
      [.started "x", xmppLine, .take 0, .ended none, xmppLine, .take 0] ∧
    (Run.after (Typed.step .verbatim) xmppStart
      [.started "x", xmppLine, .take 0, .ended none, xmppLine, .take 0]).Kept .verbatim := by
  have hirc :
      Run.Along (Conn.Typed.step Conn.asciiPlatform) (fun w i => w.isPatient i = true) ircStart
      [.dialed 0, ircLine, .take, .flush 0, .send (.disconnect none), .take] := by
    decide +kernel
  have hxmpp :
      Run.Along (Typed.step .verbatim) (fun w i => w.isPatient .verbatim i = true) xmppStart
      [.started "x", xmppLine, .take 0, .ended none, xmppLine, .take 0] := by
    decide +kernel
  have hkept := typed_kept Conn.asciiPlatform .verbatim
  exact ⟨⟨hirc, by decide +kernel, (hkept.1 _ _ _ hirc).1⟩, hxmpp, (hkept.2 _ _ _ _ hxmpp).1⟩

/-- Over IRC a line is shown as ours and lost with the connection before it was sent, and one that
is taken while there is no connection is lost without a word. Over XMPP the sixth of a burst waits
for the limiter and is lost when the stream ends. -/
theorem typed_lost :
    (((Run.after (Conn.Typed.step Conn.asciiPlatform) ircStart [.dialed 0, ircLine]).step
      Conn.asciiPlatform .take).2.events.map fun
        | .message m => m.isSelf
        | _ => false) = [true] ∧
    ¬(Run.after (Conn.Typed.step Conn.asciiPlatform) ircStart
      [.dialed 0, ircLine, .take, .closed false]).Kept ∧
    ¬(Run.after (Conn.Typed.step Conn.asciiPlatform) ircStart
      [.dialFailed, ircLine, .take]).Kept ∧
    ¬(Run.after (Typed.step .verbatim) xmppStart
      ([.started "x"] ++ List.replicate 6 xmppLine ++ List.replicate 6 (.take 0) ++
        [.ended none])).Kept .verbatim := by
  decide +kernel

end Ddirc.Xmpp
