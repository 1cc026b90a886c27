import Mathlib.Data.Finset.Option
import Ddirc.App.Lists

/-! # A stranger is a request until let in

Who was let in and what the user selected is kept beside the session, as the inputs say it. File
offers and transfers open a conversation, the screen falls back on the last conversation when
nothing else is open, and `/me`, a file or a correction asks no question; where an input avoids
these, a conversation with a stranger is a request. -/

namespace Ddirc.App
open List
open Api

def Call.recipient : Call → Option String
  | .sendMessage target _ | .sendReply target _ _ | .sendAction target _ | .sendFile target _
  | .editMessage target _ _ | .retractMessage target _ => some target
  | _ => none

def Effect.recipient : Effect → Option String
  | .call c => c.recipient
  | _ => none

/-- The channels that an event may open a conversation for. -/
def mentions : IrcEvent → List String
  | .message m =>
    match m.target with
    | .channel name => [name]
    | .direct _ => []
  | .joined channel _ _ | .quit channel _ _ | .nickChanged channel _ _ _ | .topicChanged channel _ _
  | .memberList channel _ | .memberChanged channel _ _ | .modeChanged channel _ _ => [channel]
  | .parted channel _ isSelf _ => if isSelf then [] else [channel]
  | .messagesDropped channel _ => channel.toList
  | .fileOffered _ channel _ _ _ _ | .fileTransferStarted _ channel _ _ _
  | .fileTransferEnded _ channel _ _ _ => if Session.looksLikeChannel channel then [channel] else []
  | .registered _ | .fileTransferProgress .. | .messageEdited .. | .messageRetracted ..
  | .error .. => []

namespace Session
variable (env : Env)
variable {nick : String}

/-! ## Who is let in, and what is selected -/

/-- Opening a conversation by name lets the person in. -/
def opens (nick : String) : Option String :=
  if (trim nick).isEmpty then none else some (key env (trim nick))

def letsIn (s : Session) : Input → Option String
  | .event _ (.message m) =>
    match m.target with
    | .direct nick => if m.isSelf then some (key env nick) else none
    | .channel _ => none
  | .openDirect nick => opens env nick
  | .acceptDirect nick =>
    if (s.conversations.lookup (key env nick)).any (·.pending) then some (key env nick) else none
  | .submit input _ =>
    match Typed.read env s.settings.markdown input with
    | .command .msg argument => (Str.splitOnce ' ' argument).map fun x => key env x.1
    | .command .query argument =>
      if s.isChannelName env (firstWord argument) then none else opens env (firstWord argument)
    | _ => none
  | _ => none

/-- Asking to join what is held selects it. -/
def joins (s : Session) (channel : String) : Option String :=
  if (s.conversations.lookup (key env (trim channel))).isSome then some (key env (trim channel))
  else none

def selects (s : Session) : Input → Option String
  | .select name => some (key env name)
  | .joinChannel channel _ => s.joins env channel
  | .submit input _ =>
    match Typed.read env s.settings.markdown input with
    | .command .join argument => s.joins env argument
    | _ => none
  | _ => none

/-! ## What an input must avoid -/

/-- Not a request of someone who was not let in. -/
def answerable (letIn : String → Bool) (s : Session) (k : String) : Bool :=
  (s.conversations.lookup k).all (!·.pending) || letIn k

/-- A file has a place: its conversation is held, or is a channel, or the person was let in. -/
def placed (letIn : String → Bool) (s : Session) (name : String) : Bool :=
  (s.conversations.lookup (key env name)).isSome || looksLikeChannel name || letIn (key env name)

/-- What comes on screen when a conversation closes and no tab is left. -/
def fallback (s : Session) (k : String) : Option String :=
  if s.active = some k ∧ s.tabs.erase k = [] then (s.order.erase k).getLast? else none

/-- The input opens no conversation for a stranger's file, does not put a request on screen by
itself, and sends nothing into one. -/
def allowed (letIn : String → Bool) (s : Session) : Input → Bool
  | .event _ (.fileOffered _ channel _ _ _ _) =>
    !s.settings.fileTransfers || s.placed env letIn channel
  | .event _ (.fileTransferStarted id channel _ _ _) =>
    (s.transfers.lookup id).isSome || s.placed env letIn channel
  | .event _ (.fileTransferEnded id channel _ _ _) =>
    (s.transfers.lookup id).isSome || s.placed env letIn channel
  | .event _ (.messagesDropped none _) => s.shown.isSome || s.placed env letIn "server"
  | .event _ (.joined channel _ isSelf) =>
    !(isSelf && (key env channel ∈ s.requested || !s.landed)) ||
      s.answerable letIn (key env channel)
  | .event _ (.parted channel _ isSelf _) =>
    !isSelf || (s.fallback (key env channel)).all (s.answerable letIn)
  | .declineDirect nick => (s.fallback (key env nick)).all (s.answerable letIn)
  | .submit input _ =>
    match Typed.read env s.settings.markdown input with
    | .command .me _ => s.active.all (s.answerable letIn)
    | _ => true
  | .sendFile target _ | .editMessage target _ _ | .retractMessage target _ =>
    s.answerable letIn (key env target)
  | _ => true

/-! ## One step -/

namespace Safe
variable {env} {L S : Set String} {s : Session} {letIn : String → Bool}

theorem letIn_of_not_pending (h : Safe env L S s) (hc : s.conversations.lookup k = some c)
    (hdirect : c.isChannel = false) (hpending : c.pending = false) : k ∈ L := by
  by_contra hk
  rw [(h.request k c hc hdirect hk).1] at hpending
  cases hpending

theorem letIn_of_answerable (h : Safe env L S s) (hL : ∀ k, letIn k → k ∈ L)
    (hk : s.answerable letIn k) (hc : s.conversations.lookup k = some c)
    (hdirect : c.isChannel = false) : k ∈ L := by
  rw [answerable, hc, Bool.or_eq_true] at hk
  rcases hk with hk | hk
  · exact h.letIn_of_not_pending hc hdirect (by simpa using hk)
  · exact hL k hk

theorem open_of_answerable (h : Safe env L S s) (hL : ∀ k, letIn k → k ∈ L)
    (hk : s.answerable letIn k) : Open L S s k := fun _ hc hdirect hk' =>
  absurd (h.letIn_of_answerable hL hk hc hdirect) hk'

end Safe

def recipients (effects : List Effect) : List String := effects.filterMap Effect.recipient

def Calm (env : Env) (L S : Set String) (P : String → Prop) (r : Session × List Effect) : Prop :=
  Kept env L S P r.1 ∧ recipients r.2 = []

/-- The invariant is kept, and nothing goes into a conversation with someone who was not let in. -/
def Acts (env : Env) (L S : Set String) (P : String → Prop) (s : Session)
    (r : Session × List Effect) : Prop :=
  Kept env L S P r.1 ∧ ∀ name ∈ recipients r.2, ∀ c,
    s.conversations.lookup (key env name) = some c → c.isChannel = false → key env name ∈ L

theorem Calm.acts {env : Env} (h : Calm env L S P r) : Acts env L S P s r := by
  refine ⟨h.1, fun name hname => ?_⟩
  rw [h.2] at hname
  cases hname

theorem recipients_select {env : Env} {s : Session} : recipients (s.select env name).2 = [] := by
  unfold select
  split <;> rfl

namespace Kept
variable {env} {L S : Set String} {P : String → Prop} {s : Session} {letIn : String → Bool}
variable {nick : String} {id : Nat} {channel filename : String}

theorem mayOpen_of_placed (hL : ∀ k, letIn k → k ∈ L)
    (hm : ∀ n ∈ if looksLikeChannel name then [name] else [], P n)
    (hname : s.placed env letIn name) :
    MayOpen env L P s name (looksLikeChannel name) false := by
  simp only [placed, Bool.or_eq_true] at hname
  refine hname.elim (·.imp id fun hch => ?_) fun hk => ?_
  · rw [if_pos hch] at hm ⊢
    exact hm name (mem_singleton_self _)
  · by_cases hch : looksLikeChannel name
    · rw [if_pos hch] at hm
      exact .inr (if_pos hch ▸ hm name (mem_singleton_self _))
    · exact .inr (if_neg hch ▸ .inr (hL _ hk))

theorem close_of_answerable (h : Kept env L S P s) (hL : ∀ k, letIn k → k ∈ L)
    (hfall : (s.fallback (key env name)).all (s.answerable letIn)) :
    Kept env L S P (s.close env name) := by
  refine h.close fun k hactive htabs hlast => h.open_of_answerable hL ?_
  rw [fallback, if_pos ⟨hactive, htabs⟩, hlast] at hfall
  exact hfall

theorem onMessage (h : Kept env L S P s)
    (hlet : ∀ k ∈ letsIn env s (.event now (.message m)), k ∈ L)
    (hm : ∀ n ∈ mentions (.message m), P n) : Calm env L S P (s.onMessage env m now) := by
  unfold Session.onMessage
  split
  next name htarget =>
    split
    · exact ⟨h, rfl⟩
    · exact ⟨h.addLine (.inr (hm name (by simp [mentions, htarget]))), rfl⟩
  next nick htarget =>
    split
    · exact ⟨h, rfl⟩
    refine ⟨h.addLine (.inr ?_), rfl⟩
    by_cases hself : m.isSelf
    · exact .inr (hlet _ (by simp [letsIn, htarget, hself]))
    · by_cases haccepted : key env nick ∈ s.settings.accepted
      · exact .inr (h.accepted _ haccepted)
      · exact .inl (by simp [hself, haccepted])

theorem answerable_addLine (hk : s.answerable letIn k) :
    (s.addLine env channel line true false openTab).1.answerable letIn k := by
  obtain ⟨active, notify, hlookup⟩ := lookup_addLine env s channel line true false openTab k
  rw [answerable, hlookup]
  split
  next =>
    cases hc : s.conversations.lookup k with
    | none => simp
    | some c =>
      rw [answerable, hc] at hk
      simpa using hk
  next => exact hk

theorem onJoined (h : Kept env L S P s) (hL : ∀ k, letIn k → k ∈ L) (hchannel : P channel)
    (hallowed : allowed env letIn s (.event now (.joined channel nick isSelf))) :
    Calm env L S P (s.onJoined env channel nick isSelf now) := by
  unfold Session.onJoined
  dsimp only
  generalize hs : (if isSelf then _ else s) = s₁
  have hconversations : s₁.conversations = s.conversations := by subst hs; split <;> rfl
  have h₁ : Kept env L S P s₁ := by
    subst hs
    split
    · exact h.congr rfl rfl rfl rfl h.accepted
    · exact h
  have h₂ : ∀ text asked, Kept env L S P (s₁.addLine env channel text true false asked).1 :=
    fun text asked => h₁.addLine (.inr hchannel)
  split
  next hmoves =>
    have hk : s₁.answerable letIn (key env channel) := by
      rw [answerable, hconversations]
      refine (Bool.or_eq_true_iff.1 hallowed).resolve_left fun hstays => ?_
      cases isSelf <;> simp_all
    have h₃ : ∀ text asked, Kept env L S P
        { (s₁.addLine env channel text true false asked).1 with landed := true } :=
          fun text asked =>
      (h₂ text asked).congr rfl rfl rfl rfl (h₂ text asked).accepted
    exact ⟨(h₃ _ _).select ((h₃ _ _).open_of_answerable hL (answerable_addLine hk)),
      recipients_select⟩
  next => exact ⟨h₂ _ _, rfl⟩

theorem withCards (h : Kept env L S P s) (cards : List FileTransfer) (transfers : Map Nat Nat) :
    Kept env L S P { s with cards, transfers } :=
  h.congr rfl rfl rfl rfl h.accepted

theorem onFileOffered (h : Kept env L S P s) (hL : ∀ k, letIn k → k ∈ L)
    (hallowed : allowed env letIn s
      (.event now (.fileOffered id channel sender filename size port)))
    (hm : ∀ n ∈ if looksLikeChannel channel then [channel] else [], P n) :
    Calm env L S P (s.onFileOffered env id channel sender filename size port now) := by
  unfold Session.onFileOffered
  split
  · exact ⟨h, rfl⟩
  next hon =>
  have hallowed := Bool.or_eq_true_iff.1 hallowed
  refine ⟨(h.withCards _ _).addLine (mayOpen_of_placed hL hm ?_), rfl⟩
  exact hallowed.resolve_left fun hoff => hon hoff

theorem onFileTransferStarted (h : Kept env L S P s) (hL : ∀ k, letIn k → k ∈ L)
    (hallowed : allowed env letIn s
      (.event now (.fileTransferStarted id channel filename incoming total)))
    (hm : ∀ n ∈ if looksLikeChannel channel then [channel] else [], P n) :
    Calm env L S P (s.onFileTransferStarted env id channel filename incoming total now) := by
  unfold Session.onFileTransferStarted
  split
  · exact ⟨h.withCards _ _, rfl⟩
  next hnone =>
  have hallowed := Bool.or_eq_true_iff.1 hallowed
  refine ⟨(h.withCards _ _).addLine (mayOpen_of_placed hL hm ?_), rfl⟩
  exact hallowed.resolve_left (by simp [hnone])

theorem onFileTransferEnded (h : Kept env L S P s) (hL : ∀ k, letIn k → k ∈ L)
    (hallowed : allowed env letIn s
      (.event now (.fileTransferEnded id channel filename path error)))
    (hm : ∀ n ∈ if looksLikeChannel channel then [channel] else [], P n) :
    Calm env L S P (s.onFileTransferEnded env id channel filename path error now) := by
  unfold Session.onFileTransferEnded
  split
  · exact ⟨h.withCards _ _, rfl⟩
  next hnone =>
  have hallowed := Bool.or_eq_true_iff.1 hallowed
  exact ⟨h.addLine (mayOpen_of_placed hL hm (hallowed.resolve_left (by simp [hnone]))), rfl⟩

theorem onMessageEdited (h : Kept env L S P s) :
    Calm env L S P (s.onMessageEdited env target msgid sender m) := by
  unfold Session.onMessageEdited
  repeat' split
  all_goals try exact ⟨h, rfl⟩
  exact ⟨h.modify _ (fun _ => rfl) (fun _ => rfl) (.inr fun _ => rfl), rfl⟩

theorem onMessageRetracted (h : Kept env L S P s) :
    Calm env L S P (s.onMessageRetracted env target msgid sender now) := by
  unfold Session.onMessageRetracted
  split
  · exact ⟨h, rfl⟩
  next c hc =>
  split
  · exact ⟨h, rfl⟩
  next i _ =>
  split
  · exact ⟨h, rfl⟩
  have hremoved : Kept env L S P
      (s.modify (key env target.name) ({ · with lines := c.lines.eraseIdx i })) :=
    h.modify _ (fun _ => rfl) (fun _ => rfl) (.inr fun _ => rfl)
  refine ⟨hremoved.addLine (.inl ?_), rfl⟩
  rw [lookup_modify, if_pos rfl, hc]
  rfl

theorem addToActive (h : Kept env L S P s) (hL : ∀ k, letIn k → k ∈ L)
    (hallowed : allowed env letIn s (.event now (.messagesDropped none k))) :
    Calm env L S P (s.addToActive env line) := by
  refine ⟨Kept.modify ?_ _ (fun _ => Conversation.add_name ..)
    (fun _ => Conversation.add_isChannel ..) (.inr fun _ => Conversation.add_pending ..), rfl⟩
  split
  · exact h
  next hnone =>
  have hallowed := Bool.or_eq_true_iff.1 hallowed
  refine h.conversationFor
    (mayOpen_of_placed hL (by rintro _ ⟨⟩) (hallowed.resolve_left fun hshown => ?_))
  cases hactive : s.active with
  | none => simp [shown, hactive] at hshown
  | some k => simp_all [shown]

theorem onEvent (h : Kept env L S P s) (hL : ∀ k, letIn k → k ∈ L)
    (hallowed : allowed env letIn s (.event now e))
    (hlet : ∀ k ∈ letsIn env s (.event now e), k ∈ L) (hm : ∀ n ∈ mentions e, P n) :
    Calm env L S P (s.onEvent env now e) := by
  have hline : ∀ (name : String) (line : ChatLine), (∀ n ∈ [name], P n) →
      Calm env L S P (s.addLine env name line true) := fun name line hname =>
    ⟨h.addLine (.inr (hname name (mem_singleton_self _))), rfl⟩
  have hchannel : ∀ name : String, (∀ n ∈ [name], P n) →
      Kept env L S P (s.conversationFor env name true) := fun name hname =>
    h.conversationFor (.inr (hname name (mem_singleton_self _)))
  cases e with
  | registered nick => exact ⟨h.congr rfl rfl rfl rfl h.accepted, rfl⟩
  | message m => exact h.onMessage hlet hm
  | joined channel nick isSelf => exact h.onJoined hL (hm _ (mem_singleton_self _)) hallowed
  | parted channel nick isSelf reason =>
    simp only [Session.onEvent]
    split
    next hself =>
      subst hself
      exact ⟨h.close_of_answerable hL hallowed, rfl⟩
    next hself => exact hline _ _ (by simpa [mentions, hself] using hm)
  | quit channel nick reason | modeChanged channel setBy affected => exact hline _ _ hm
  | nickChanged channel old new isSelf =>
    refine ⟨Kept.addLine ?_ (.inr (hm _ (mem_singleton_self _))), rfl⟩
    split
    · exact h.congr rfl rfl rfl rfl h.accepted
    · exact h
  | topicChanged channel topic setBy =>
    exact ⟨(hchannel channel hm).modify _ (fun _ => Conversation.add_name ..)
      (fun _ => Conversation.add_isChannel ..) (.inr fun _ => Conversation.add_pending ..), rfl⟩
  | memberList channel members | memberChanged channel previous member =>
    exact ⟨(hchannel channel hm).modify _ (fun _ => rfl) (fun _ => rfl) (.inr fun _ => rfl), rfl⟩
  | messagesDropped channel count =>
    cases channel with
    | none => exact h.addToActive hL hallowed
    | some channel => exact hline _ _ (by simpa [mentions] using hm)
  | fileOffered id channel sender filename size port => exact h.onFileOffered hL hallowed hm
  | fileTransferStarted id channel filename incoming total =>
    exact h.onFileTransferStarted hL hallowed hm
  | fileTransferProgress id transferred =>
    simp only [Session.onEvent]
    split
    · exact ⟨h.withCards _ _, rfl⟩
    · exact ⟨h, rfl⟩
  | fileTransferEnded id channel filename path error => exact h.onFileTransferEnded hL hallowed hm
  | messageEdited target msgid sender m => exact h.onMessageEdited
  | messageRetracted target msgid sender => exact h.onMessageRetracted
  | error => exact ⟨h, rfl⟩

theorem accept (h : Kept env L S P s) (hk : k ∈ L) :
    Kept env L S P { s with settings := s.settings.accept k } := by
  refine h.congr rfl rfl rfl rfl fun k' hk' => ?_
  simp only [Settings.accept] at hk'
  split at hk'
  · exact h.accepted k' hk'
  · rcases Finset.mem_insert.1 hk' with rfl | hk'
    · exact hk
    · exact h.accepted k' hk'

theorem block (h : Kept env L S P s) (k : String) :
    Kept env L S P { s with settings := s.settings.block k } := by
  refine h.congr rfl rfl rfl rfl fun k' hk' => ?_
  simp only [Settings.block] at hk'
  split at hk'
  · exact h.accepted k' hk'
  · exact h.accepted k' (Finset.mem_of_mem_erase hk')

theorem openDirect (h : Kept env L S P s) (hlet : ∀ k ∈ opens env nick, k ∈ L) :
    Calm env L S P (s.openDirect env nick) := by
  unfold Session.openDirect
  dsimp only
  split
  · exact ⟨h, rfl⟩
  next hne =>
  have hk : key env (trim nick) ∈ L := hlet _ (by simp [opens, hne])
  have hnew : MayOpen env L P { s with settings := s.settings.accept (key env (trim nick)) }
      (trim nick) false false := .inr (.inr hk)
  refine ⟨Kept.select ?_ fun _ _ _ hk' => absurd hk hk', recipients_select⟩
  exact ((h.accept hk).conversationFor hnew).modify _ (fun _ => rfl) (fun _ => rfl) (.inl hk)

theorem acceptDirect (h : Kept env L S P s)
    (hlet : ∀ k ∈ letsIn env s (.acceptDirect nick), k ∈ L) :
    Calm env L S P (s.acceptDirect env nick) := by
  unfold Session.acceptDirect
  split
  · exact ⟨h, rfl⟩
  next c hc =>
  split
  · exact ⟨h, rfl⟩
  next hpending =>
  have hk : key env nick ∈ L := hlet _ (by simp_all [letsIn])
  have hname : key env c.name ∈ L := h.filed _ c hc ▸ hk
  have haccepted : Kept env L S P (s.modify (key env nick) ({ · with pending := false })) :=
    h.modify _ (fun _ => rfl) (fun _ => rfl) (.inl hk)
  exact ⟨(haccepted.accept hname).select fun _ _ _ hk' => absurd hname hk', recipients_select⟩

theorem declineDirect (h : Kept env L S P s) (hL : ∀ k, letIn k → k ∈ L)
    (hallowed : allowed env letIn s (.declineDirect nick)) :
    Calm env L S P (s.declineDirect env nick) := by
  unfold Session.declineDirect
  split
  · exact ⟨h, rfl⟩
  next c hc =>
  split
  · exact ⟨h, rfl⟩
  refine ⟨(h.block _).close_of_answerable hL ?_, rfl⟩
  rw [h.filed _ c hc]
  exact hallowed

theorem joinChannel {channel : String} (h : Kept env L S P s)
    (hselect : ∀ k ∈ joins env s channel, k ∈ S) :
    Calm env L S P (s.joinChannel env channel password) := by
  unfold Session.joinChannel
  dsimp only
  split
  · exact ⟨h, rfl⟩
  split
  next hheld =>
    refine ⟨Kept.select (h.congr rfl rfl rfl rfl h.accepted) fun _ _ _ _ => hselect _ ?_,
      recipients_select⟩
    simp [joins, hheld]
  next => exact ⟨h.congr rfl rfl rfl rfl h.accepted, rfl⟩

theorem sayIn {send : String → Call} (h : Kept env L S P s)
    (hc : ∀ c, c ∈ conversation → s.conversations.lookup k = some c)
    (hsend : ∀ name, (send name).recipient = some name) :
    Acts env L S P s (s, Session.sayIn conversation missing send) := by
  unfold Session.sayIn
  split
  · exact Calm.acts ⟨h, rfl⟩
  next c' =>
  split
  · exact Calm.acts ⟨h, rfl⟩
  next hpending =>
  refine ⟨h, fun name hname c hheld hdirect => ?_⟩
  obtain rfl : c'.name = name := by
    simpa [recipients, Effect.recipient, hsend, eq_comm] using hname
  rw [h.filed k c' (hc c' rfl)] at hheld ⊢
  obtain rfl : c' = c := Option.some.inj ((hc c' rfl).symm.trans hheld)
  exact h.letIn_of_not_pending hheld hdirect (Bool.eq_false_of_not_eq_true hpending)

theorem send_recipient (text : String) (reply : Option Text.ReplyRef) (name : String) :
    (send text reply name).recipient = some name := by
  cases reply <;> rfl

theorem submit (h : Kept env L S P s) (hL : ∀ k, letIn k → k ∈ L)
    (hallowed : allowed env letIn s (.submit input reply))
    (hlet : ∀ k ∈ letsIn env s (.submit input reply), k ∈ L)
    (hselect : ∀ k ∈ selects env s (.submit input reply), k ∈ S) :
    Acts env L S P s (s.submit env input reply) := by
  unfold Session.submit
  split
  next => exact Calm.acts ⟨h, rfl⟩
  next body _ =>
    cases hactive : s.active with
    | none =>
      rw [shown, hactive]
      exact Calm.acts ⟨h, rfl⟩
    | some k =>
      refine h.sayIn (k := k) (fun c hc => ?_) (send_recipient body reply)
      rwa [shown, hactive] at hc
  next => exact Calm.acts ⟨h, rfl⟩
  next command argument hread =>
  simp only [allowed, letsIn, selects, hread] at hallowed hlet hselect
  cases command <;> simp only [runCommand]
  case join =>
    split
    · exact Calm.acts ⟨h, rfl⟩
    · exact (h.joinChannel hselect).acts
  case msg =>
    split
    · exact Calm.acts ⟨h, rfl⟩
    next target text hsplit =>
    have hk : key env target ∈ L := hlet _ (by simp [hsplit])
    refine ⟨?_, fun name hname _ _ _ => mem_singleton.1 hname ▸ hk⟩
    split
    · exact h
    · exact h.accept hk
  case query =>
    split
    · exact Calm.acts ⟨h, rfl⟩
    split
    · exact Calm.acts ⟨h, rfl⟩
    next hperson =>
    exact (h.openDirect fun k hk => hlet k (by simpa [hperson] using hk)).acts
  case me =>
    split
    · exact Calm.acts ⟨h, rfl⟩
    split
    · exact Calm.acts ⟨h, rfl⟩
    next c' hshown =>
    obtain ⟨k, hactive, hc'⟩ := Option.bind_eq_some_iff.1 hshown
    refine ⟨h, fun name hname c hheld hdirect => ?_⟩
    obtain rfl : name = c'.name := mem_singleton.1 hname
    rw [h.filed k c' hc'] at hheld ⊢
    rw [hactive] at hallowed
    exact h.letIn_of_answerable hL hallowed hheld hdirect
  all_goals repeat' split
  all_goals exact Calm.acts ⟨h, rfl⟩

theorem prefer (h : Kept env L S P s) (p : Preference) :
    Kept env L S P { s with settings := Session.prefer env s.settings p } := by
  cases p with
  | block nick => exact h.block _
  | _ => exact h.congr rfl rfl rfl rfl h.accepted

/-- A step keeps the invariant, where the sets hold whom the input lets in and what it selects. -/
theorem step (h : Kept env L S P s) (hL : ∀ k, letIn k → k ∈ L)
    (hallowed : allowed env letIn s i) (hlet : ∀ k ∈ letsIn env s i, k ∈ L)
    (hselect : ∀ k ∈ selects env s i, k ∈ S)
    (hm : ∀ now e, i = .event now e → ∀ n ∈ mentions e, P n) : Acts env L S P s (s.step env i) := by
  cases i with
  | event now e => exact (h.onEvent hL hallowed hlet (hm now e rfl)).acts
  | openDirect nick =>
    exact (h.openDirect hlet).acts
  | acceptDirect nick => exact (h.acceptDirect hlet).acts
  | declineDirect nick => exact (h.declineDirect hL hallowed).acts
  | select name =>
    exact Calm.acts ⟨h.select fun _ _ _ _ => hselect _ rfl, recipients_select⟩
  | markRead name =>
    simp only [Session.step, Session.markRead]
    split
    · exact Calm.acts ⟨h, rfl⟩
    · exact Calm.acts ⟨h.modify _ (fun _ => rfl) (fun _ => rfl) (.inr fun _ => rfl), rfl⟩
  | closeTab name => exact Calm.acts ⟨h.closeTab, rfl⟩
  | joinChannel channel password =>
    rw [Session.step]
    exact (h.joinChannel hselect).acts
  | joinFailed channel => exact Calm.acts ⟨h.congr rfl rfl rfl rfl h.accepted, rfl⟩
  | submit input reply =>
    rw [Session.step]
    exact h.submit hL hallowed hlet hselect
  | say name text reply => exact h.sayIn (fun _ hc => hc) (send_recipient text reply)
  | sendFile name _ | editMessage name _ _ | retractMessage name _ =>
    refine ⟨h, fun target htarget c hheld hdirect => ?_⟩
    obtain rfl : target = name := mem_singleton.1 htarget
    exact h.letIn_of_answerable hL hallowed hheld hdirect
  | cancelTransfer id =>
    simp only [Session.step, Session.cancelTransfer]
    split
    · exact Calm.acts ⟨h, rfl⟩
    split
    · exact Calm.acts ⟨h.withCards _ _, rfl⟩
    · exact Calm.acts ⟨h, rfl⟩
  | prefer p => exact Calm.acts ⟨h.prefer p, rfl⟩
  | _ => exact Calm.acts ⟨h, rfl⟩

end Kept

/-- Every run starts with no conversation, and with those let in that were accepted before. -/
theorem safe_start {env : Env} (nick : String) (settings : Settings)
    (h : ∀ k ∈ settings.accepted, k ∈ L) : Safe env L S { nick, settings } where
  filed := nofun
  order_nodup := nodup_nil
  mem_order := by simp
  tabs_nodup := nodup_nil
  held := nofun
  active_tab := nofun
  accepted := h
  request := nofun

theorem allowed_of_all (s : Session) (i : Input) : allowed env (fun _ => true) s i := by
  have hanswerable : answerable (fun _ => true) s = fun _ => true := funext fun _ => Bool.or_true _
  unfold allowed
  split <;> simp [placed, hanswerable]
  split <;> simp

theorem kept_after (nick : String) (settings : Settings) (inputs : List Input) :
    Kept env Set.univ Set.univ (fun _ => True) (Run.after (step env) { nick, settings } inputs) :=
  Run.after_induction (P := Kept env Set.univ Set.univ fun _ => True)
    ⟨safe_start nick settings fun _ _ => trivial, nofun⟩ (fun s i hs =>
      (hs.step (fun _ _ => trivial) (allowed_of_all env s i) (fun _ _ => trivial)
        (fun _ _ => trivial) fun _ _ _ _ _ => trivial).1) inputs

theorem lists_consistent (nick : String) (settings : Settings) (inputs : List Input) :
    let s := Run.after (step env) { nick, settings } inputs
    s.order.Nodup ∧ (∀ k, k ∈ s.order ↔ (s.conversations.lookup k).isSome) ∧
    s.tabs.Nodup ∧ (∀ k ∈ s.tabs, (s.conversations.lookup k).isSome) ∧
    ∀ k, s.active = some k → k ∈ s.tabs :=
  have h := kept_after env nick settings inputs
  ⟨h.order_nodup, h.mem_order, h.tabs_nodup, h.held, h.active_tab⟩

end Session

/-! ## Whole runs -/

/-- A session beside whom the user let in, and which of the conversations held the user selected. -/
structure Watched where
  session : Session
  letIn : Finset String := session.settings.accepted
  selected : Finset String := ∅

namespace Watched

def step (env : Env) (w : Watched) (i : Session.Input) : Watched × List Effect :=
  let r := w.session.step env i
  let selected := w.selected ∪ (w.session.selects env i).toFinset
  ({ session := r.1
     letIn := w.letIn ∪ (w.session.letsIn env i).toFinset
     selected := selected.filter fun k => (r.1.conversations.lookup k).isSome }, r.2)

/-- Whoever was not let in has at most a request, with no tab and not on screen unless the user
selected it. -/
def Private (w : Watched) : Prop :=
  ∀ k c, w.session.conversations.lookup k = some c → c.isChannel = false → k ∉ w.letIn →
    c.pending = true ∧ (k ∈ w.session.tabs ∨ w.session.active = some k → k ∈ w.selected)

/-- An input sends nothing into a conversation with someone it leaves not let in. -/
def Silent (env : Env) (w : Watched) (i : Session.Input) : Prop :=
  ∀ call target c, .call call ∈ (w.session.step env i).2 → call.recipient = some target →
    w.session.conversations.lookup (Session.key env target) = some c → c.isChannel = false →
    Session.key env target ∈ (w.step env i).1.letIn

def Allowed (env : Env) (w : Watched) (i : Session.Input) : Prop :=
  Session.allowed env (· ∈ w.letIn) w.session i = true

instance (env : Env) (w : Watched) (i : Session.Input) : Decidable (Allowed env w i) :=
  inferInstanceAs (Decidable (_ = true))

variable {env : Env} {w : Watched}

def Safe (env : Env) (w : Watched) : Prop := Session.Safe env w.letIn w.selected w.session

theorem Safe.grown (h : Safe env w) (i : Session.Input) :
    Session.Safe env ↑(w.step env i).1.letIn
      ↑(w.selected ∪ (w.session.selects env i).toFinset) w.session :=
  Session.Safe.mono h (by simp [Watched.step]) (by simp)

theorem letIn_step (w : Watched) (i : Session.Input) (k : String) (hk : decide (k ∈ w.letIn)) :
    k ∈ (↑(w.step env i).1.letIn : Set String) := by
  simp_all [Watched.step]

theorem letsIn_step (w : Watched) (i : Session.Input) (k : String)
    (hk : k ∈ w.session.letsIn env i) : k ∈ (↑(w.step env i).1.letIn : Set String) := by
  simp_all [Watched.step]

theorem Safe.acts (h : Safe env w) (hallowed : Allowed env w i) :
    Session.Acts env ↑(w.step env i).1.letIn ↑(w.selected ∪ (w.session.selects env i).toFinset)
      (fun _ => True) w.session (w.session.step env i) :=
  Session.Kept.step ⟨h.grown i, fun _ _ _ _ => trivial⟩ (letIn_step w i) hallowed (letsIn_step w i)
    (by simp_all) fun _ _ _ _ _ => trivial

theorem Safe.step (h : Safe env w) (hallowed : Allowed env w i) : Safe env (w.step env i).1 := by
  refine (h.acts hallowed).1.toSafe.restrict.mono Set.Subset.rfl fun k hk => ?_
  simpa [Watched.step] using hk

theorem Safe.silent (h : Safe env w) (hallowed : Allowed env w i) : Silent env w i :=
  fun call target c hcall htarget =>
    (h.acts hallowed).2 target (mem_filterMap.2 ⟨.call call, hcall, htarget⟩) c

theorem Safe.private (h : Safe env w) : Private w := fun k c hc hdirect hk =>
  have hrequest := h.request k c hc hdirect hk
  ⟨hrequest.1, fun hopen => hrequest.2 (hopen.elim id (h.active_tab k))⟩

theorem strangers_are_requests {nick : String} {settings : Settings} {inputs : List Session.Input}
    (h : Run.Along (step env) (Allowed env) { session := { nick, settings } } inputs) :
    Private (Run.after (step env) { session := { nick, settings } } inputs) ∧
    ∀ front i rest, inputs = front ++ i :: rest →
      Silent env (Run.after (step env) { session := { nick, settings } } front) i := by
  have hkeep (w) (i) (hw : Safe env w) (hi : Allowed env w i) : Safe env (step env w i).1 :=
    hw.step hi
  have hstart : Safe env { session := { nick, settings } } :=
    Session.safe_start nick settings fun _ hk => hk
  refine ⟨(h.induction hstart hkeep).private, ?_⟩
  rintro front i rest rfl
  obtain ⟨hsafe, hi⟩ := h.before hstart hkeep
  exact hsafe.silent hi

def plain : Env where
  lower := Str.toAsciiLowercase
  markdownToMirc text := text

/-- Mallory writes, twice; in between we join a channel and say something there. -/
def visited : List Session.Input :=
  [.event 0 (.message { target := .direct "Mallory", sender := "Mallory", text := "hi" }),
   .joinChannel "#tea" none,
   .event 1 (.joined "#tea" "me" true),
   .submit "hello" none,
   .event 2 (.message { target := .direct "mallory", sender := "mallory", text := "well?" })]

theorem strangers_are_requests_visited :
    Run.Along (step plain) (Allowed plain) { session := { nick := "me" } } visited ∧
    ((Run.after (step plain) { session := { nick := "me" } } visited).session.conversations.lookup
      "mallory").isSome ∧
    Private (Run.after (step plain) { session := { nick := "me" } } visited) := by
  have halong : Run.Along (step plain) (Allowed plain) { session := { nick := "me" } } visited := by
    decide +kernel
  exact ⟨halong, by decide +kernel, (strangers_are_requests halong).1⟩

/-- A file offered by a stranger opens a conversation that is no request, with a tab, and puts it on
screen. -/
theorem offer_lets_stranger_in :
    let s := (Run.after (step plain)
      { session := { nick := "me", settings := { fileTransfers := true } } }
      [.event 0 (.fileOffered 1 "mallory" "mallory" "cat.jpg" (some 3) (some 4000))])
    (s.session.conversations.lookup "mallory").any (fun c => !c.isChannel && !c.pending) = true ∧
      s.session.tabs = ["mallory"] ∧ s.session.active = some "mallory" ∧ s.letIn = ∅ ∧
      s.selected = ∅ ∧ ¬ Private s := by
  refine ⟨by decide +kernel, by decide +kernel, by decide +kernel, by decide +kernel,
    by decide +kernel, fun h => ?_⟩
  have hc := h "mallory" { name := "mallory", isChannel := false, lines := [.file 0 0] }
    (by decide +kernel) rfl (by decide +kernel)
  exact Bool.noConfusion hc.1

end Watched

end Ddirc.App
