import Ddirc.Conn.SaslEnd
import Ddirc.Conn.Flood

/-! # The NickServ fallback

Whether to identify with NickServ is decided once, when the welcome is handled, by what is known of
the negotiation then. It comes out right when the negotiation is over by then. -/

namespace Ddirc.Conn
open List
open Irc Client

def isWelcome : Input → Bool
  | .message _ m =>
    match m.command with
    | .response .rplWelcome _ => true
    | _ => false
  | _ => false

def welcomed (x : Input × Turn) : Bool := isWelcome x.1 && !x.2.dropped

def outcomes (t : List (Input × Turn)) : List SaslOutcome := t.filterMap (·.2.outcome)

def AuthOutcome.fallsBack : AuthOutcome → Bool
  | .nickServFallback _ => true
  | _ => false

theorem ServerConfig.fallsBack_authOutcome {config : ServerConfig}
    (hpw : config.nickservPassword = some password) (o : SaslOutcome) :
    (config.authOutcome o).fallsBack = decide (o ≠ .authenticated) := by
  cases o with
  | notAttempted reason =>
    cases reason with
    | noCredentials => simp [authOutcome, hpw, AuthOutcome.fallsBack]
    | unsupported => rfl
  | _ => rfl

namespace Connection

def identifies (password : String) (t : List (Input × Turn)) : Nat :=
  (t.flatMap (·.2.queued)).count (identify password)

/-- A welcome that is let through finds the negotiation finished. -/
def Settled (c : Connection) : Input → Prop
  | .message now m =>
    isWelcome (.message now m) = true → c.recvLimiter.bucket.available now = true →
      c.sasl.isFinished = true
  | _ => True

instance (c : Connection) : (i : Input) → Decidable (c.Settled i)
  | .message .. => inferInstanceAs (Decidable (_ → _ → _))
  | .deadline | .flush _ | .listChannels => instDecidableTrue

/-! ## The negotiation in one turn -/

/-- What a turn makes of the negotiation: nothing that shows, or its end. -/
inductive Progress (c c' : Connection) : Option SaslOutcome → Prop where
  | goes : c'.auth = c.auth → (c'.sasl.state = .finished ↔ c.sasl.state = .finished) →
    Progress c c' none
  | ends : c.sasl.state ≠ .finished → c'.sasl.state = .finished →
    c'.auth = c.config.authOutcome o → Progress c c' (some o)

theorem Progress.of_same (ha : c'.auth = c.auth) (hs : c'.sasl = c.sasl) :
    Progress c c' none := .goes ha (by rw [hs])

theorem Progress.congr (h : Progress c c' o) (ha : c''.auth = c'.auth)
    (hs : c''.sasl = c'.sasl) : Progress c c'' o := by
  cases h with
  | goes hauth hstate => exact .goes (ha.trans hauth) (hs ▸ hstate)
  | ends hopen hdone hauth => exact .ends hopen (hs ▸ hdone) (ha.trans hauth)

theorem negotiated_progress (c : Connection) (hc : c.sasl.state ≠ .finished) (i : SaslInput) :
    Progress c (c.negotiated (c.sasl.step i)).1 (c.negotiated (c.sasl.step i)).2.outcome := by
  have hiff := (SaslNegotiator.step_move c.sasl i).finished_iff
  cases ho : (c.sasl.step i).2.outcome with
  | none =>
    simp only [negotiated, ho, Option.map_none]
    refine .goes rfl ?_
    rw [hiff, ho]
    simp
  | some o =>
    simp only [negotiated, ho, Option.map_some]
    exact .ends hc (hiff.2 (.inr (by simp [ho]))) rfl

theorem isFinished_iff {c : Connection} : c.sasl.isFinished ↔ c.sasl.state = .finished := by
  simp [SaslNegotiator.isFinished]

theorem negotiate_progress (c : Connection) (m : Message) :
    Progress c (c.negotiate m).1 (c.negotiate m).2.outcome := by
  rw [negotiate]
  split
  · exact .of_same rfl rfl
  next hc => exact negotiated_progress c (fun h => hc (isFinished_iff.2 h)) (.message m)

theorem step_config (c : Connection) (i : Input) : (c.step i).1.config = c.config := by
  have h := c.step_turned i
  generalize c.step i = r at h
  cases h with
  | idle | abandoned | flushed | listed => rfl
  | dropped => rw [negotiate_eq]
  | handled c' _ hc' => exact (handle_keeps c' _).1.trans (by rw [hc', negotiate_eq])

theorem step_progress (c : Connection) (i : Input) :
    Progress c (c.step i).1 (c.step i).2.outcome := by
  have h := c.step_turned i
  generalize c.step i = r at h
  cases h with
  | idle | flushed | listed => exact .of_same rfl rfl
  | abandoned _ hc =>
    exact (negotiated_progress c (fun h => hc (isFinished_iff.2 h)) .abandon).congr rfl rfl
  | dropped => exact (negotiate_progress c _).congr rfl rfl
  | handled c' _ hc' =>
    subst hc'
    exact (negotiate_progress c _).congr (handle_keeps ..).2.1 (handle_keeps ..).2.2.1

/-! ## What is queued in one turn -/

theorem identify_ne_resumeLine (password target keyword filename : String) (port position : Nat) :
    identify password ≠
      .ofCommand (.privmsg target (resumeLine keyword filename port position)) := by
  intro h
  have htext := (Command.privmsg.inj (Message.mk.inj h).2.2).2
  unfold resumeLine at htext
  have hhead := congrArg (·.toList.head?) htext
  simp at hhead

theorem count_handle (c : Connection) (hpw : c.config.nickservPassword = some password)
    (now : Instant) (m : Message) :
    (c.handle m).2.queued.count (identify password) =
      if isWelcome (.message now m) && c.auth.fallsBack then 1 else 0 := by
  have hjoins (channels : List String) :
      (channels.map fun channel => Message.ofCommand (.join channel none none)).count
        (identify password) = 0 := by
    rw [count_eq_zero, mem_map]
    rintro ⟨channel, -, h⟩
    cases h
  rcases handle_handled c m with ⟨hm, hr⟩ | ⟨_, _, answer, _, hm, hanswer, hr⟩
  · rw [hr]
    simp only [onRegistered, push, count_append, hjoins, hpw]
    cases c.auth <;> simp [isWelcome, hm, AuthOutcome.fallsBack]
  · have hno : isWelcome (.message now m) = false := by
      simp only [isWelcome]
    rw [hr, hno, Bool.false_and, if_neg Bool.false_ne_true, count_eq_zero]
    intro h
    obtain ⟨_, _, _, _, heq⟩ := hanswer _ h
    exact identify_ne_resumeLine _ _ _ _ _ _ heq

theorem negotiate_of_welcome (c : Connection) (hm : isWelcome (.message now m)) :
    (c.negotiate m).1.auth = c.auth := by
  rw [negotiate]
  split
  · rfl
  next hc =>
    obtain ⟨tags, source, command⟩ := m
    cases command with
    | response response args =>
      cases response with
      | rplWelcome =>
        have hstate : c.sasl.state ≠ .finished := fun h => hc (isFinished_iff.2 h)
        simp [negotiated, SaslNegotiator.advance, SaslNegotiator.onResponse,
          SaslStep.nothing]
      | _ => cases hm
    | _ => cases hm

/-- A turn queues `IDENTIFY` for a welcome that is let through, if the negotiation ended before it
without authenticating us. -/
theorem count_step (c : Connection) (hpw : c.config.nickservPassword = some password) (i : Input) :
    (c.step i).2.queued.count (identify password) =
      if welcomed (i, (c.step i).2) && c.auth.fallsBack then 1 else 0 := by
  have h := c.step_turned i
  generalize c.step i = r at h
  cases h with
  | idle _ _ hi =>
    cases i with
    | message => cases hi
    | _ => rfl
  | abandoned | flushed | listed => rfl
  | dropped =>
    simp only [welcomed, Bool.not_true, Bool.and_false]
    rw [negotiate_eq]
    rfl
  | @handled m now c' _ hc' =>
    have hsame : c'.config = c.config ∧ c'.auth = (c.negotiate m).1.auth := by
      rw [hc', negotiate_eq]
      exact ⟨rfl, rfl⟩
    simp only [welcomed, handle_dropped, count_handle c' (hsame.1 ▸ hpw) now m]
    cases hw : isWelcome (.message now m) with
    | true => rw [hsame.2, negotiate_of_welcome c hw]; rfl
    | false => rfl

theorem finished_of_welcomed (c : Connection) (hi : c.Settled i)
    (hw : welcomed (i, (c.step i).2)) : c.sasl.state = .finished := by
  simp only [welcomed, Bool.and_eq_true, Bool.not_eq_true'] at hw
  obtain ⟨hwelcome, hkept⟩ := hw
  cases i with
  | message now m =>
    have hkeeps : keepsSession m.command := by
      obtain ⟨tags, source, command⟩ := m
      cases command with
      | response response args => cases response <;> first | rfl | cases hwelcome
      | _ => cases hwelcome
    have hdropped : (!(c.askedFor m || c.recvLimiter.bucket.available now)) = false :=
      (onMessage_dropped c now m).symm.trans hkept
    rw [askedFor_of_keeps hkeeps, Bool.not_eq_false'] at hdropped
    exact isFinished_iff.1 (hi hwelcome hdropped)
  | _ => cases hwelcome

/-! ## A whole connection -/

/-- What the turns so far have to do with the state they led to. -/
structure Ledger (config : ServerConfig) (password : String) (t : List (Input × Turn))
    (c : Connection) : Prop where
  config_eq : c.config = config
  going : c.sasl.state ≠ .finished →
    outcomes t = [] ∧ t.countP welcomed = 0 ∧ identifies password t = 0
  ended : c.sasl.state = .finished → ∃ o, outcomes t = [o] ∧ c.auth = config.authOutcome o ∧
    identifies password t = if o = .authenticated then 0 else t.countP welcomed

theorem outcomes_append :
    outcomes (t ++ [x]) = outcomes t ++ x.2.outcome.toList := by
  rw [outcomes, outcomes]
  cases h : x.2.outcome <;> simp [h]

theorem identifies_append :
    identifies password (t ++ [x]) =
      identifies password t + x.2.queued.count (identify password) := by
  simp [identifies, count_append]

theorem countP_welcomed_append :
    (t ++ [x]).countP welcomed = t.countP welcomed + if welcomed x then 1 else 0 := by
  simp [countP_cons]

variable {config : ServerConfig} {c : Connection}

theorem Ledger.step (h : Ledger config password t c) (hpw : config.nickservPassword = some password)
    (hi : c.Settled i) : Ledger config password (t ++ [(i, (c.step i).2)]) (c.step i).1 := by
  have hpw' : c.config.nickservPassword = some password := by rw [h.config_eq, hpw]
  have hcount := count_step c hpw' i
  -- While the negotiation goes on no welcome is handled, so nothing is queued.
  have hgoing (hs : c.sasl.state ≠ .finished) : outcomes t = [] ∧
      (t ++ [(i, (c.step i).2)]).countP welcomed = 0 ∧
      identifies password (t ++ [(i, (c.step i).2)]) = 0 := by
    obtain ⟨ho, hw, hid⟩ := h.going hs
    have hnot : welcomed (i, (c.step i).2) = false :=
      Bool.eq_false_iff.2 fun hw => hs (finished_of_welcomed c hi hw)
    rw [countP_welcomed_append, identifies_append, hcount, hnot]
    exact ⟨ho, by simp [hw], by simp [hid]⟩
  have hprogress := step_progress c i
  generalize ho : (c.step i).2.outcome = o at hprogress
  refine ⟨(step_config c i).trans h.config_eq, fun hs => ?_, fun hs => ?_⟩
  · cases hprogress with
    | goes ha hiff =>
      obtain ⟨h1, h2, h3⟩ := hgoing fun hf => hs (hiff.2 hf)
      exact ⟨by rw [outcomes_append, h1, ho]; rfl, h2, h3⟩
    | ends _ hdone _ => exact absurd hdone hs
  · cases hprogress with
    | goes ha hiff =>
      obtain ⟨o, hout, hauth, hid⟩ := h.ended (hiff.1 hs)
      refine ⟨o, by rw [outcomes_append, hout, ho]; rfl, ha.trans hauth, ?_⟩
      rw [identifies_append, hcount, hid, hauth,
        ServerConfig.fallsBack_authOutcome hpw]
      by_cases hauthd : o = .authenticated <;> simp [hauthd]
    | @ends o hopen _ ha =>
      obtain ⟨h1, h2, h3⟩ := hgoing hopen
      refine ⟨o, by rw [outcomes_append, h1, ho]; rfl, by rw [ha, h.config_eq], ?_⟩
      rw [h2, h3, ite_self]

theorem ledger (hpw : config.nickservPassword = some password) (transfers : Transfers)
    (listing : Option Listing) (limiter : ReceiveLimiter) (now : Instant)
    (hs : Run.Along step Settled (start config transfers listing limiter now).1 is) :
    Ledger config password (Run.trace step (start config transfers listing limiter now).1 is)
      (Run.after step (start config transfers listing limiter now).1 is) := by
  induction is using List.reverseRecOn with
  | nil => exact ⟨rfl, fun _ => ⟨rfl, rfl, rfl⟩, fun h => nomatch h⟩
  | append_singleton is i ih =>
    obtain ⟨hs, hi, -⟩ := Run.along_append.1 hs
    rw [Run.trace_append, Run.after_append]
    exact (ih hs).step hpw hi

theorem countP_welcomed_le (c : Connection) (is : List Input) :
    (Run.trace step c is).countP welcomed ≤ is.countP isWelcome := by
  induction is generalizing c with
  | nil => simp
  | cons i is ih =>
    rw [Run.trace_cons, countP_cons, countP_cons]
    have hle : (if welcomed (i, (c.step i).2) then 1 else 0) ≤ if isWelcome i then 1 else 0 := by
      rw [welcomed]
      cases isWelcome i <;> cases (c.step i).2.dropped <;> decide
    exact Nat.add_le_add (ih _) hle

/-- With a NickServ password and one welcome, which finds the negotiation finished: once both have
happened and SASL did not authenticate us, `IDENTIFY` has been queued once, and if it did it never
is. -/
theorem identify_once (hpw : config.nickservPassword = some password) (transfers : Transfers)
    (listing : Option Listing) (limiter : ReceiveLimiter) (now : Instant) {is : List Input}
    (hone : is.countP isWelcome ≤ 1)
    (hs : Run.Along step Settled (start config transfers listing limiter now).1 is) :
    let t := Run.trace step (start config transfers listing limiter now).1 is
    ((∃ x ∈ t, welcomed x = true) → (∃ o ∈ outcomes t, o ≠ .authenticated) →
      identifies password t = 1) ∧
    (.authenticated ∈ outcomes t → identifies password t = 0) := by
  intro t
  have hledger := ledger hpw transfers listing limiter now hs
  by_cases hfin :
      (Run.after step (start config transfers listing limiter now).1 is).sasl.state = .finished
  · obtain ⟨o, hout, -, hid⟩ := hledger.ended hfin
    refine ⟨?_, fun hauth => ?_⟩
    · rintro hwelcomed ⟨o', ho', hne⟩
      rw [hout, mem_singleton] at ho'
      have hpos : 0 < t.countP welcomed := countP_pos_iff.2 hwelcomed
      have hle : t.countP welcomed ≤ 1 := (countP_welcomed_le _ is).trans hone
      have heq : identifies password t = t.countP welcomed := hid.trans (if_neg (ho' ▸ hne))
      omega
    · rw [hout, mem_singleton] at hauth
      rw [hid, if_pos hauth.symm]
  · obtain ⟨hout, -, hid⟩ := hledger.going hfin
    refine ⟨?_, fun _ => hid⟩
    rintro - ⟨o, ho, -⟩
    rw [hout] at ho
    cases ho

def withNickServ : ServerConfig := { nickname := "me", nickservPassword := some "secret" }

def capLs : Input := .message 0 { command := .cap (some "*") .ls none (some "") }

def welcome : Input := .message 0 { command := .response .rplWelcome ["me", "Welcome"] }

/-- A server that ends the negotiation before it welcomes us. -/
theorem identify_once_in_order :
    let t := Run.trace step (start withNickServ {} none (.init 0) 0).1 [capLs, welcome]
    (∃ x ∈ t, welcomed x = true) ∧ (∃ o ∈ outcomes t, o ≠ .authenticated) ∧
      identifies "secret" t = 1 := by
  intro t
  have hw : ∃ x ∈ t, welcomed x = true := by decide +kernel
  have ho : ∃ o ∈ outcomes t, o ≠ .authenticated := by decide +kernel
  exact ⟨hw, ho, (identify_once rfl {} none (.init 0) 0 (by decide) (by decide +kernel)).1 hw ho⟩

/-- A server that knows nothing of capabilities welcomes us at once, and the negotiation ends at its
deadline: `IDENTIFY` is never queued. -/
theorem identify_never_queued :
    let t := Run.trace step (start withNickServ {} none (.init 0) 0).1 [welcome, .deadline]
    (∃ x ∈ t, welcomed x = true) ∧ (∃ o ∈ outcomes t, o ≠ .authenticated) ∧
      identifies "secret" t = 0 := by
  decide +kernel

end Connection

end Ddirc.Conn
