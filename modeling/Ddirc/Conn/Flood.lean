import Mathlib.Tactic.FieldSimp
import Ddirc.Conn.Actor

/-! # What flood protection costs

The limiter stands before the dispatch, so a message it refuses is lost to the session whatever it
says. The session is the one that all the messages give as long as each message that the session is
kept by finds a token, and it does if no more than 199 messages come beyond 49 a second
(`flood_protection`). The limiter allows a little more, which rounding does not use up. -/

namespace Ddirc.Conn
open Irc Client List

/-! ## The bucket -/

namespace TokenBucket
variable {b : TokenBucket} {now t n : Nat}

theorem le_f64 {x : ℚ} (hx : 0 ≤ x) : x * (1 - 1 / 10 ^ 6) ≤ f64 x := by
  refine le_trans ?_ (le_roundTo 53 hx)
  linarith

theorem le_seconds (n : Nat) : n / 10 ^ 9 * (1 - 1 / 10 ^ 5 : ℚ) ≤ seconds f64 n := by
  have hn : ((n / 10 ^ 9 : Nat) : ℚ) + (n % 10 ^ 9 : Nat) / 10 ^ 9 = n / 10 ^ 9 := by
    field_simp
    exact_mod_cast Nat.div_add_mod' n (10 ^ 9)
  have hwhole₀ : (0 : ℚ) ≤ (n / 10 ^ 9 : Nat) := Nat.cast_nonneg _
  have hpart₀ : (0 : ℚ) ≤ (n % 10 ^ 9 : Nat) / 10 ^ 9 := by positivity
  have hwhole := le_f64 hwhole₀
  have hpart := le_f64 hpart₀
  have hsum := le_f64 (x := f64 (n / 10 ^ 9 : Nat) + f64 ((n % 10 ^ 9 : Nat) / 10 ^ 9))
    (by linarith)
  unfold seconds
  linarith

/-- The bucket of the receive limiter, which `n` messages since `t` leave with this much. -/
structure Owes (b : TokenBucket) (n t : Nat) : Prop where
  capacity : b.capacity = 200
  rate : b.refillPerSec = 50
  le : t ≤ b.lastRefill
  nonneg : 0 ≤ b.tokens
  left : 200 - 1001 / 1000 * (n - 49 * ((b.lastRefill - t : ℚ) / 10 ^ 9)) ≤ b.tokens

theorem Owes.refill (h : b.Owes n t) (hnow : b.lastRefill ≤ now) :
    ∃ tokens, b.refill f64 now = { b with tokens, lastRefill := now } ∧ 0 ≤ tokens ∧
      (200 - 1 / 2500 ≤ tokens ∨ 0 < n ∧
        200 - 1001 / 1000 * (n - 49 * ((now - t : ℚ) / 10 ^ 9)) - 1 / 2500 ≤ tokens) := by
  have hseconds := le_seconds (now - b.lastRefill)
  rw [Nat.cast_sub hnow] at hseconds
  have hcast : (t : ℚ) ≤ b.lastRefill ∧ (b.lastRefill : ℚ) ≤ now :=
    ⟨Nat.cast_le.2 h.le, Nat.cast_le.2 hnow⟩
  obtain ⟨capacity, tokens, rate, last⟩ := b
  obtain ⟨rfl : capacity = 200, rfl : rate = 50, -, hnonneg, hleft⟩ := h
  simp only at hseconds hcast hnonneg hleft hnow
  -- with nothing owed the bucket is full
  have hzero (hn : n = 0) : 200 ≤ tokens := by
    rw [hn, Nat.cast_zero] at hleft
    linarith
  simp only [TokenBucket.refill]
  split
  next hlater =>
    have hadded := le_f64 (x := seconds f64 (now - last) * 50) (by linarith)
    generalize f64 (seconds f64 (now - last) * 50) = added at hadded
    have hsum := le_f64 (x := tokens + added) (by linarith)
    refine ⟨_, rfl, le_min (by linarith) (by norm_num), ?_⟩
    by_cases hfull : 200 ≤ tokens + added
    · exact .inl (le_min (by linarith) (by norm_num))
    · refine .inr ⟨Nat.pos_of_ne_zero fun hn => hfull ?_, le_min (by linarith) (by linarith)⟩
      linarith [hzero hn]
  next hsame =>
    obtain rfl : last = now :=
      le_antisymm hnow (Nat.cast_le.1 (by linarith : (now : ℚ) ≤ last))
    refine ⟨tokens, rfl, hnonneg, ?_⟩
    rcases n.eq_zero_or_pos with hn | hn
    · exact .inl (by linarith [hzero hn])
    · exact .inr ⟨hn, by linarith⟩

/-- A message counts from the time it comes, or with those before it. -/
theorem Owes.tryConsume (h : b.Owes n t) (hnow : b.lastRefill ≤ now) :
    (b.tryConsume f64 now).1.lastRefill = now ∧
      ((b.tryConsume f64 now).1.Owes 1 now ∨ 0 < n ∧ (b.tryConsume f64 now).1.Owes (n + 1) t) := by
  obtain ⟨tokens, hrefill, hnonneg, hleft⟩ := h.refill hnow
  have hle := h.le.trans hnow
  obtain ⟨hcapacity, hrate, -, -, -⟩ := h
  simp only [TokenBucket.tryConsume, hrefill]
  split
  next hone =>
    refine ⟨rfl, ?_⟩
    have hless := le_f64 (x := tokens - 1) (by linarith)
    by_cases hfull : 200 - 1 / 2500 ≤ tokens
    · refine .inl ⟨hcapacity, hrate, le_rfl, by dsimp only; linarith, ?_⟩
      rw [sub_self]
      dsimp only
      linarith
    · obtain ⟨hn, hleft⟩ := hleft.resolve_left hfull
      refine .inr ⟨hn, hcapacity, hrate, hle, by dsimp only; linarith, ?_⟩
      push_cast
      linarith
  next hnone =>
    obtain ⟨hn, hleft⟩ := hleft.resolve_left fun hfull => hnone (by linarith)
    refine ⟨rfl, .inr ⟨hn, hcapacity, hrate, hle, hnonneg, ?_⟩⟩
    push_cast
    linarith

theorem Owes.available (h : b.Owes n t) (hnow : b.lastRefill ≤ now)
    (hfew : 0 < n → (n + 1) * 10 ^ 9 ≤ 199 * 10 ^ 9 + 49 * (now - t)) : b.available now := by
  obtain ⟨tokens, hrefill, -, hleft⟩ := h.refill hnow
  have htokens : 1 ≤ tokens := by
    rcases hleft with hleft | ⟨hn, hleft⟩
    · linarith
    · have hfew := hfew hn
      rw [← Nat.cast_le (α := ℚ)] at hfew
      push_cast [Nat.cast_sub (h.le.trans hnow)] at hfew
      linarith
  rw [TokenBucket.available, hrefill]
  exact decide_eq_true htokens

end TokenBucket

/-- Whether a command is one that the session is kept by; the others are only shown. -/
def keepsSession : Command → Bool
  | .response .rplWelcome _ | .response .rplISupport _ | .response .rplNamReply _
  | .response .rplEndOfNames _ | .response .rplTopic _ => true
  | .topic _ (some _) | .join .. | .part .. | .kick .. | .quit _ | .nick _ | .away _ => true
  | .channelMode .. => true
  | _ => false

theorem receive_of_shown {s : Session} {m : Message} (hm : keepsSession m.command = false) :
    s.receive m = s := by
  obtain ⟨tags, source, command⟩ := m
  cases command with
  | response response args => cases response <;> first | rfl | cases hm
  | topic channel topic => cases topic <;> first | rfl | cases hm
  | _ => first | rfl | cases hm

def messages (is : List Input) : List Message :=
  is.filterMap fun
    | .message _ m => some m
    | _ => none

namespace Connection
variable {i : Input}

/-- A message that the session is kept by finds a token. -/
def Metered (c : Connection) : Input → Prop
  | .message now m => keepsSession m.command = true → c.recvLimiter.bucket.available now = true
  | _ => True

/-! ## One turn -/

theorem askedFor_of_keeps {c : Connection} {m : Message} (hm : keepsSession m.command) :
    c.askedFor m = false := by
  have hlist : isListReply m = false := by
    obtain ⟨tags, source, command⟩ := m
    cases command with
    | response response args => cases response <;> first | rfl | cases hm
    | _ => rfl
  rw [askedFor, hlist, Bool.and_false]

/-- What dispatch comes to. What is queued in answer is that a file will be carried on, or, for a
welcome, what ends registration. -/
inductive Handled (c : Connection) (m : Message) (r : Connection × Turn) : Prop where
  | welcome (hm : m.command = .response .rplWelcome args)
    (hr : r = { c with session := c.session.receive m, registered := true }.onRegistered)
  | heard (listing : Option Listing) (transfers : Transfers) (answer : List Message)
    (resumed : Option (Nat × Nat)) (hm : ∀ args, m.command ≠ .response .rplWelcome args)
    (hanswer : ∀ q ∈ answer, ∃ sender filename port position,
      q = .ofCommand (.privmsg sender (resumeLine "ACCEPT" filename port position)))
    (hr : r = ({ c with session := c.session.receive m, listing, transfers
                        outgoing := c.outgoing ++ answer }, { queued := answer, resumed }))

theorem Handled.quiet (listing : Option Listing)
    (hm : ∀ args, m.command ≠ .response .rplWelcome args) :
    Handled c m ({ c with session := c.session.receive m, listing }, {}) :=
  .heard listing c.transfers [] none hm (fun _ h => absurd h not_mem_nil)
    (by rw [append_nil])

theorem handle_handled (c : Connection) (m : Message) : Handled c m (c.handle m) := by
  have hchat (hm : ∀ args, m.command ≠ .response .rplWelcome args) (target text source isNotice) :
      Handled c m
        ({ c with session := c.session.receive m }.onChat target text source isNotice) := by
    unfold onChat
    split
    · exact .quiet _ hm
    dsimp only
    split
    · exact .quiet _ hm
    split
    · unfold onCtcp
      split
      · exact .quiet _ hm
      · exact .heard _ _ _ _ hm
          (fun q hq => ⟨_, Transfers.onCtcp_answer (Option.mem_toList.1 hq)⟩) rfl
    · exact .quiet _ hm
  unfold handle
  dsimp only
  split
  next hm => exact .welcome hm rfl
  next hm => exact .quiet _ fun _ h => nomatch hm.symm.trans h
  next hm =>
    unfold onListReply
    repeat' split
    all_goals exact .quiet _ fun _ h => nomatch hm.symm.trans h
  next hm => exact .quiet _ fun _ h => nomatch hm.symm.trans h
  next hm => exact hchat (fun _ h => nomatch hm.symm.trans h) ..
  next hm => exact hchat (fun _ h => nomatch hm.symm.trans h) ..
  next hm _ _ _ _ _ => exact .quiet _ hm

/-- Dispatch leaves the session as the message does, adds what is queued to the queue, and has no
part in the negotiation. -/
theorem handle_keeps (c : Connection) (m : Message) :
    (c.handle m).1.config = c.config ∧ (c.handle m).1.auth = c.auth ∧
      (c.handle m).1.sasl = c.sasl ∧ (c.handle m).1.session = c.session.receive m ∧
      (c.handle m).1.outgoing = c.outgoing ++ (c.handle m).2.queued ∧
      (c.handle m).2.dropped = false := by
  rcases handle_handled c m with ⟨-, hr⟩ | ⟨_, _, _, _, -, -, hr⟩
  all_goals
    rw [hr]
    exact ⟨rfl, rfl, rfl, rfl, rfl, rfl⟩

theorem handle_dropped (c : Connection) (m : Message) : (c.handle m).2.dropped = false :=
  (handle_keeps c m).2.2.2.2.2

theorem negotiate_eq (c : Connection) (m : Message) : c.negotiate m =
    ({ c with
        sasl := (c.negotiate m).1.sasl
        auth := (c.negotiate m).1.auth
        clientTags := (c.negotiate m).1.clientTags },
      { sent := (c.negotiate m).2.sent, outcome := (c.negotiate m).2.outcome }) := by
  rw [negotiate]
  split <;> rfl

/-- What one turn comes to. A message is dropped or handled once the negotiator has heard it. -/
inductive Turned (c : Connection) : Input → Connection × Turn → Prop where
  | idle (recvLimiter : ReceiveLimiter) (sendLimiter : SendLimiter) (hj : messages [j] = []) :
    Turned c j ({ c with recvLimiter, sendLimiter }, {})
  | abandoned (recvLimiter : ReceiveLimiter) (hopen : ¬ c.sasl.isFinished = true) :
    Turned c .deadline
      ({ (c.negotiated c.sasl.abandon).1 with recvLimiter }, (c.negotiated c.sasl.abandon).2)
  | flushed (recvLimiter : ReceiveLimiter) (sendLimiter : SendLimiter)
    (hout : c.outgoing = m :: rest) : Turned c (.flush now)
      ({ c with recvLimiter, sendLimiter, outgoing := rest }, { sent := [m] })
  | listed (recvLimiter : ReceiveLimiter) : Turned c .listChannels
      ({ c with recvLimiter, listing := some {}
                outgoing := c.outgoing ++ [.ofCommand (.list none none)] },
        { queued := [.ofCommand (.list none none)] })
  | dropped (recvLimiter : ReceiveLimiter) : Turned c (.message now m)
      ({ (c.negotiate m).1 with recvLimiter }, { (c.negotiate m).2 with dropped := true })
  | handled (c' : Connection) (recvLimiter : ReceiveLimiter)
    (hc' : c' = { (c.negotiate m).1 with recvLimiter }) : Turned c (.message now m)
      ((c'.handle m).1.reportDrops, { (c'.handle m).2 with
        sent := (c.negotiate m).2.sent, outcome := (c.negotiate m).2.outcome })

theorem step_turned (c : Connection) (i : Input) : Turned c i (c.step i) := by
  cases i with
  | deadline =>
    simp only [step]
    split
    · exact .idle _ _ rfl
    next hopen => exact .abandoned _ hopen
  | flush now =>
    simp only [step, onFlush]
    split
    · exact .idle _ _ rfl
    next hout =>
    split
    · exact .flushed _ _ hout
    · exact .idle _ _ rfl
  | listChannels =>
    simp only [step]
    split
    · exact .idle _ _ rfl
    · exact .listed _
  | message now m =>
    have hmeter : ∃ recvLimiter,
        ((c.negotiate m).1.meter now m).1 = { (c.negotiate m).1 with recvLimiter } := by
      rw [meter]
      split <;> exact ⟨_, rfl⟩
    obtain ⟨recvLimiter, hmeter⟩ := hmeter
    simp only [step, onMessage]
    rcases hok : (c.negotiate m).1.meter now m with ⟨c', ok⟩
    rw [hok] at hmeter
    cases ok with
    | true => exact .handled c' recvLimiter hmeter
    | false =>
      obtain rfl : c' = _ := hmeter
      exact .dropped recvLimiter

theorem negotiate_limiter (c : Connection) (m : Message) :
    (c.negotiate m).1.recvLimiter = c.recvLimiter := by rw [negotiate_eq]

theorem negotiate_askedFor (c : Connection) (m : Message) :
    (c.negotiate m).1.askedFor m = c.askedFor m := by
  rw [negotiate_eq]
  rfl

/-- A message is refused exactly when it is no awaited `LIST` reply and finds no token. -/
theorem onMessage_dropped (c : Connection) (now : Instant) (m : Message) :
    (c.onMessage now m).2.dropped = !(c.askedFor m || c.recvLimiter.bucket.available now) := by
  simp only [onMessage, meter, negotiate_askedFor, negotiate_limiter]
  cases c.askedFor m with
  | true => exact handle_dropped ..
  | false =>
    simp only [← ReceiveLimiter.tryAdmit_snd]
    cases h : (c.recvLimiter.tryAdmit now).2 with
    | true => exact handle_dropped ..
    | false => rfl

/-- The session takes a message in unless it is refused. -/
theorem onMessage_session (c : Connection) (now : Instant) (m : Message) :
    (c.onMessage now m).1.session =
      if (c.onMessage now m).2.dropped then c.session else c.session.receive m := by
  have h := c.step_turned (.message now m)
  rw [step] at h
  generalize c.onMessage now m = r at h
  cases h with
  | idle _ _ hi => cases hi
  | dropped => rw [negotiate_eq, if_pos rfl]
  | handled c' _ hc' =>
    rw [if_neg (by simp [handle_dropped])]
    exact (handle_keeps c' m).2.2.2.1.trans (by rw [hc', negotiate_eq])

/-- A turn that is no message leaves the session alone and refuses nothing. -/
theorem step_other (c : Connection) (hi : messages [i] = []) :
    (c.step i).1.session = c.session ∧ (c.step i).2.dropped = false := by
  have h := c.step_turned i
  generalize c.step i = r at h
  cases h with
  | idle | abandoned | flushed | listed => exact ⟨rfl, rfl⟩
  | dropped | handled => cases hi

theorem step_of_metered (c : Connection) (h : c.Metered i) :
    (c.step i).1.session = (messages [i]).foldl Session.receive c.session ∧
      ((c.step i).2.dropped →
        ∃ now m, i = .message now m ∧ keepsSession m.command = false) := by
  by_cases hi : messages [i] = []
  · obtain ⟨hs, hd⟩ := step_other c hi
    rw [hi]
    refine ⟨hs, fun h => ?_⟩
    cases h.symm.trans hd
  cases i with
  | message now m =>
    have hsession : (c.step (.message now m)).1.session = _ := onMessage_session c now m
    cases hkeeps : keepsSession m.command with
    | true =>
      have hno : (c.onMessage now m).2.dropped = false := by
        rw [onMessage_dropped, h hkeeps, Bool.or_true]
        rfl
      rw [hsession, if_neg (by simp [hno])]
      refine ⟨rfl, fun hd => ?_⟩
      cases hd.symm.trans hno
    | false =>
      rw [hsession, receive_of_shown hkeeps, ite_self]
      exact ⟨(receive_of_shown hkeeps).symm, fun _ => ⟨now, m, rfl, hkeeps⟩⟩
  | _ => exact absurd rfl hi

theorem handle_limiter (c : Connection) (m : Message) :
    (c.handle m).1.recvLimiter = c.recvLimiter := by
  rcases handle_handled c m with ⟨-, hr⟩ | ⟨_, _, _, _, -, -, hr⟩ <;> rw [hr]
  rfl

/-! ## Arrivals -/

/-- The message of a turn, unless it is an answer to our own `LIST`. -/
def counts (c : Connection) : Input → Option (Instant × Message)
  | .message now m => if c.askedFor m then none else some (now, m)
  | _ => none

/-- The messages that flood protection counts, each with the time it comes at. -/
def counted : Connection → List Input → List (Instant × Message)
  | _, [] => []
  | c, i :: is => (c.counts i).toList ++ counted (c.step i).1 is

theorem step_bucket (c : Connection) (i : Input) : (c.step i).1.recvLimiter.bucket =
    (c.counts i).elim c.recvLimiter.bucket fun x =>
      (c.recvLimiter.bucket.tryConsume f64 x.1).1 := by
  cases i with
  | deadline =>
    simp only [step]
    split <;> rfl
  | flush now =>
    simp only [step, onFlush]
    split
    · rfl
    · split <;> rfl
  | listChannels =>
    simp only [step]
    split <;> rfl
  | message now m =>
    simp only [step, onMessage, meter, negotiate_askedFor, negotiate_limiter, counts]
    cases c.askedFor m with
    | true =>
      simp only [if_true, reportDrops, handle_limiter, negotiate_limiter]
      rfl
    | false =>
      have hadmit := c.recvLimiter.tryAdmit_bucket now
      cases hok : (c.recvLimiter.tryAdmit now).2 with
      | true => simpa [hok, reportDrops, handle_limiter] using hadmit
      | false => simpa [hok] using hadmit

end Connection

/-- If the last of these messages is one that the session is kept by, there are no more than 199
beyond 49 a second. -/
def Few (stretch : List (Instant × Message)) : Prop :=
  ∀ x ∈ stretch.head?, ∀ y ∈ stretch.getLast?, keepsSession y.2.command →
    stretch.length * 10 ^ 9 ≤ 199 * 10 ^ 9 + 49 * (y.1 - x.1)

instance (stretch : List (Instant × Message)) : Decidable (Few stretch) :=
  inferInstanceAs (Decidable (∀ x ∈ stretch.head?, ∀ y ∈ stretch.getLast?, _ → _))

/-- Messages that come one after the other, with no stretch of them too long for its time. -/
structure Paced (start : Instant) (messages : List (Instant × Message)) : Prop where
  clock : (start :: messages.map Prod.fst).Pairwise (· ≤ ·)
  few : ∀ front ∈ messages.inits, ∀ stretch ∈ front.tails, Few stretch

namespace Connection

/-- Each message finds what those before it left, counted from the first of a stretch. -/
theorem along_metered {c : Connection} {is : List Input} {past : List (Instant × Message)}
    (rest : List (Instant × Message)) (howes : c.recvLimiter.bucket.Owes rest.length t)
    (hrest : rest <:+ past) (hhead : ∀ x ∈ rest.head?, x.1 = t)
    (hclock : (c.recvLimiter.bucket.lastRefill :: (c.counted is).map Prod.fst).Pairwise (· ≤ ·))
    (hfew : ∀ front ∈ (past ++ c.counted is).inits, ∀ stretch ∈ front.tails, Few stretch) :
    Run.Along step Metered c is := by
  induction is generalizing c past rest t with
  | nil => trivial
  | cons i is ih =>
    have hbucket := c.step_bucket i
    cases hi : c.counts i with
    | none =>
      rw [hi] at hbucket
      rw [counted, hi] at hclock hfew
      refine ⟨?_, ih rest (hbucket ▸ howes) hrest hhead (hbucket ▸ hclock) hfew⟩
      cases i with
      | message now m =>
        intro hkeeps
        simp [counts, askedFor_of_keeps hkeeps] at hi
      | _ => trivial
    | some x =>
      rw [hi, Option.elim_some] at hbucket
      rw [counted, hi] at hclock hfew
      have hnow : c.recvLimiter.bucket.lastRefill ≤ x.1 := rel_of_pairwise_cons hclock mem_cons_self
      have hconsume := howes.tryConsume hnow
      rw [← hbucket] at hconsume
      obtain ⟨hlast, hnext⟩ := hconsume
      have hmore : rest ++ [x] <:+ past ++ [x] := by
        obtain ⟨front, rfl⟩ := hrest
        exact ⟨front, (append_assoc ..).symm⟩
      have hpast : past ++ ([x] ++ counted (c.step i).1 is) =
          past ++ [x] ++ counted (c.step i).1 is := (append_assoc ..).symm
      rw [Option.toList_some, hpast] at hfew
      refine ⟨?_, ?_⟩
      · cases i with
        | message now m =>
          intro hkeeps
          obtain rfl : (now, m) = x := by simpa [counts, askedFor_of_keeps hkeeps] using hi
          refine howes.available hnow fun hn => ?_
          obtain ⟨y, rest, rfl⟩ := exists_cons_of_length_pos hn
          have hstretch := hfew _ ((mem_inits _ _).2 (prefix_append ..)) _ ((mem_tails _ _).2 hmore)
          rw [← hhead y rfl]
          have := hstretch y rfl (now, m) (getLast?_concat ..) hkeeps
          simpa using this
        | _ => cases hi
      · have hclock' : ((c.step i).1.recvLimiter.bucket.lastRefill ::
            (counted (c.step i).1 is).map Prod.fst).Pairwise (· ≤ ·) := by
          rw [hlast]
          exact (pairwise_cons.1 hclock).2
        rcases hnext with hnext | ⟨hn, hnext⟩
        · exact ih [x] hnext (suffix_append ..) (by simp) hclock' hfew
        · refine ih (rest ++ [x]) (by rwa [length_append]) hmore ?_ hclock' hfew
          obtain ⟨y, rest, rfl⟩ := exists_cons_of_length_pos hn
          exact hhead

/-! ## Whole connections -/

theorem of_metered (c : Connection) (is : List Input) (h : Run.Along step Metered c is) :
    (Run.after step c is).session = (messages is).foldl Session.receive c.session ∧
      ∀ x ∈ Run.trace step c is, x.2.dropped = true →
        ∃ now m, x.1 = .message now m ∧ keepsSession m.command = false := by
  induction is generalizing c with
  | nil => exact ⟨rfl, by simp⟩
  | cons i is ih =>
    obtain ⟨hi, his⟩ := h
    obtain ⟨hsession, hdrop⟩ := ih _ his
    obtain ⟨hstep, hshown⟩ := step_of_metered c hi
    refine ⟨?_, forall_mem_cons.2 ⟨hshown, hdrop⟩⟩
    have hsplit : messages (i :: is) = messages [i] ++ messages is := by
      rw [messages, messages, messages, ← filterMap_append, singleton_append]
    rw [Run.after_cons, hsession, hstep, hsplit, foldl_append]

/-- On a connection that begins with a full bucket, the session is the one that all the messages
give and only messages to show are refused, if no stretch of messages up to one that the session is
kept by has more than 199 beyond 49 a second. -/
theorem flood_protection {c : Connection} {is : List Input} {start : Instant}
    (hfull : c.recvLimiter.bucket = .init 200 50 start) (h : Paced start (c.counted is)) :
    (Run.after step c is).session = (messages is).foldl Session.receive c.session ∧
      ∀ x ∈ Run.trace step c is, x.2.dropped = true →
        ∃ now m, x.1 = .message now m ∧ keepsSession m.command = false := by
  have howes : c.recvLimiter.bucket.Owes 0 start := by
    rw [hfull]
    exact ⟨by simp [TokenBucket.init], rfl, le_rfl, by simp [TokenBucket.init],
      by simp [TokenBucket.init]⟩
  exact c.of_metered is (along_metered [] howes (nil_suffix (l := [])) (by simp)
    (by rw [hfull]; exact h.clock) h.few)

/-! ## A burst

A server may have as much to say at once: here it welcomes us, relays as many messages as use up the
burst that is allowed, and then tells us that we are in a channel. -/

def burst : List Input :=
  [.message 0 { command := .response .rplWelcome ["me", "Welcome"] }] ++
    replicate 199
      (.message 0
        { source := some (.nickname "you" "u" "h"), command := .privmsg "#old" "hello" }) ++
    [.message 0 { source := some (.nickname "me" "u" "h"), command := .join "#den" none none }]

def fresh : Connection := (start { nickname := "me" } {} none (.init 0) 0).1

/-- Without the messages in between the `JOIN` is heard. -/
theorem flood_protection_join :
    let is := burst.take 1 ++ burst.drop 200
    Paced 0 (fresh.counted is) ∧ ((Run.after step fresh is).session.channel "#den").isSome := by
  intro is
  have hpaced : Paced 0 (fresh.counted is) := ⟨by decide +kernel, by decide +kernel⟩
  have hsession := (flood_protection rfl hpaced).1
  exact ⟨hpaced, by rw [hsession]; decide +kernel⟩

/-- The session does not know the channel that we are in, because a `JOIN` was refused. -/
theorem burst_loses_join :
    ((Run.after step fresh burst).session.channel "#den").isNone ∧
      (((messages burst).foldl Session.receive fresh.session).channel "#den").isSome ∧
      ∃ x ∈ Run.trace step fresh burst, x.2.dropped = true ∧
        ∀ m ∈ messages [x.1], keepsSession m.command = true := by
  decide +kernel

end Connection

end Ddirc.Conn
