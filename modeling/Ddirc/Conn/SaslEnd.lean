import Ddirc.Conn.SaslMoves

/-! # A negotiation ends once

Reporting an outcome, sending `CAP END` and entering the state `finished` are one event
(`Move.countP_isCapEnd`, `Move.finished_iff`), and a finished negotiator is silent. So a run has one
exactly when it leaves the negotiator finished (`countP_outcome`). What it leaves of the credentials
depends on how far the negotiation had come. -/

namespace Ddirc.Conn
open List
open Irc

def isCapEnd : Command → Bool
  | .cap _ .end _ _ => true
  | _ => false

theorem eq_authenticate_of_mem_encodePlain (h : cmd ∈ encodePlain account password) :
    ∃ text, cmd = .authenticate text := by
  simp only [encodePlain] at h
  split at h
  · exact ⟨"+", by simpa using h⟩
  split at h
  · rcases mem_append.1 h with h | h
    · obtain ⟨chunk, -, rfl⟩ := mem_map.1 h
      exact ⟨_, rfl⟩
    · exact ⟨"+", by simpa using h⟩
  · obtain ⟨chunk, -, rfl⟩ := mem_map.1 h
    exact ⟨_, rfl⟩

namespace SaslNegotiator
variable {n : SaslNegotiator}

/-- A step sends `CAP END` once if it reports an outcome, and otherwise not at all. -/
theorem Move.countP_isCapEnd (h : Move n i n' s) :
    s.send.countP isCapEnd = if s.outcome.isSome then 1 else 0 := by
  cases h with
  | releases =>
    simp only [Option.isSome_none, Bool.false_eq_true, if_false, countP_eq_zero]
    intro cmd hcmd
    obtain ⟨text, rfl⟩ := eq_authenticate_of_mem_encodePlain hcmd
    simp [isCapEnd]
  | _ => rfl

theorem Move.finished_iff (h : Move n i n' s) :
    n'.state = .finished ↔ n.state = .finished ∨ s.outcome.isSome := by
  cases h <;> simp_all [SaslStep.nothing, SaslStep.sendOne, SaslStep.finish]

theorem Move.outcome_iff_capEnd (h : Move n i n' s) :
    s.outcome.isSome ↔ ∃ cmd ∈ s.send, isCapEnd cmd := by
  rw [← countP_pos_iff, h.countP_isCapEnd]
  split <;> simp_all

theorem trace_move (h : x ∈ Run.trace step n is) : ∃ m m', Move m x.1 m' x.2 := by
  obtain ⟨k, hk⟩ := mem_iff_getElem?.1 h
  rw [Run.trace_getElem?_eq_some] at hk
  exact ⟨_, _, hk.2 ▸ step_move _ _⟩

theorem countP_outcome :
    (Run.trace step n is).countP (·.2.outcome.isSome) =
      if n.state ≠ .finished ∧ (Run.after step n is).state = .finished then 1 else 0 := by
  induction is generalizing n with
  | nil => simp +contextual
  | cons i is ih =>
    have hf := (step_move n i).finished_iff
    rw [Run.trace_cons, countP_cons, ih]
    by_cases hn : n.state = .finished
    · simp [step_of_finished hn, SaslStep.nothing]
    by_cases ho : (n.step i).2.outcome.isSome
    · have hn' := hf.2 (.inr ho)
      simp [hn, ho, hn', after_of_finished hn']
    · have hn' : (n.step i).1.state ≠ .finished := fun h => (hf.1 h).elim hn ho
      simp [hn, ho, hn']

theorem countP_capEnd :
    ((Run.trace step n is).flatMap (·.2.send)).countP isCapEnd =
      (Run.trace step n is).countP (·.2.outcome.isSome) := by
  induction is generalizing n with
  | nil => rfl
  | cons i is ih =>
    rw [Run.trace_cons, flatMap_cons, countP_append, ih, countP_cons,
      (step_move n i).countP_isCapEnd, Nat.add_comm]

theorem finished_of_outcome (ha : (Run.trace step n is)[a]? = some x) (hx : x.2.outcome.isSome)
    (hab : a < b) : (Run.after step n (is.take b)).state = .finished := by
  rw [Run.trace_getElem?_eq_some] at ha
  have hf : (step (Run.after step n (is.take a)) x.1).1.state = .finished :=
    (step_move _ _).finished_iff.2 (.inr (ha.2 ▸ hx))
  rw [Run.after_take_of_lt _ _ ha.1 hab, after_of_finished hf]
  exact hf

theorem abandon_of_not_finished (hn : n.state ≠ .finished) :
    ∃ outcome, n.abandon.2 = .finish outcome := by
  simp only [abandon, if_neg hn]
  exact ⟨_, rfl⟩

/-- Over a whole negotiation, the opening `CAP LS` included, at most one `CAP END` is sent and at
most one step reports an outcome; these are the same step and every later step is silent. After any
inputs either that step has been taken, or an `abandon` would be that step. -/
theorem negotiation_ends_once (credentials : Option Credentials) (is : List SaslInput) :
    let t := Run.trace step (started credentials) is
    ((init credentials).start.2 :: t.flatMap (·.2.send)).countP isCapEnd ≤ 1 ∧
    t.countP (·.2.outcome.isSome) ≤ 1 ∧
    (∀ x ∈ t, x.2.outcome.isSome ↔ ∃ cmd ∈ x.2.send, isCapEnd cmd) ∧
    (∀ a b : Nat, a < b → ∀ x y : SaslInput × SaslStep, t[a]? = some x → x.2.outcome.isSome →
      t[b]? = some y → y.2 = .nothing) ∧
    ((∃ x ∈ t, x.2.outcome.isSome) ∨
      ∃ outcome, (Run.after step (started credentials) is).abandon.2 = .finish outcome) := by
  intro t
  have hcount : t.countP (·.2.outcome.isSome) ≤ 1 := by
    rw [countP_outcome]
    split <;> omega
  refine ⟨?_, hcount, ?_, ?_, ?_⟩
  · rw [countP_cons, countP_capEnd]
    simpa [start, isCapEnd] using hcount
  · intro x hx
    obtain ⟨_, _, hm⟩ := trace_move hx
    exact hm.outcome_iff_capEnd
  · intro a b hab x y ha hx hb
    have hf := finished_of_outcome ha hx hab
    rw [Run.trace_getElem?_eq_some, step_of_finished hf] at hb
    exact hb.2.symm
  · by_cases hn : (Run.after step (started credentials) is).state = .finished
    · left
      have h1 : 0 < t.countP (·.2.outcome.isSome) := by
        rw [countP_outcome, if_pos ⟨nofun, hn⟩]
        omega
      simpa [countP_pos_iff] using h1
    · exact .inr (abandon_of_not_finished hn)

/-! ## What is left of the credentials -/

/-- While the negotiation lasts, the credentials are kept. -/
theorem Move.credentials_of_unfinished (h : Move n i n' s) (hn' : n'.state ≠ .finished) :
    n'.credentials = n.credentials := by
  cases h with
  | quiet | collects | releases => rfl
  | requests _ _ _ hsame => exact hsame
  | acked _ _ _ _ hsame => exact hsame
  | ends _ hend => exact absurd hend hn'

theorem after_credentials (h : (Run.after step n is).state ≠ .finished) :
    (Run.after step n is).credentials = n.credentials := by
  induction is generalizing n with
  | nil => rfl
  | cons i is ih =>
    rw [Run.after_cons] at h
    have hn' : (n.step i).1.state ≠ .finished := fun hend => by
      rw [after_of_finished hend] at h
      exact h hend
    exact (ih h).trans ((step_move n i).credentials_of_unfinished hn')

theorem step_credentials_iff (hn : n.state ≠ .finished) (hend : (n.step i).1.state = .finished) :
    (n.step i).1.credentials = none ↔ n.credentials = none ∨ n.dropsCredentials i := by
  have hmove := step_move n i
  generalize (n.step i).1 = n', (n.step i).2 = s at hend hmove
  cases hmove with
  | quiet | collects => exact absurd hend hn
  | requests _ _ hs | acked _ _ _ hs => cases hs.symm.trans hend
  | releases => cases hend
  | ends _ _ hgone => exact hgone

/-- Where a negotiation ends, the credentials are gone from then on exactly if there were none, the
caller gave up on it or the server had agreed to SASL. -/
theorem credentials_gone_iff (credentials : Option Credentials) (is : List SaslInput)
    (i : SaslInput) (later : List SaslInput)
    (hbefore : (Run.after step (started credentials) is).isFinished = false)
    (hend : (Run.after step (started credentials) (is ++ [i])).isFinished = true) :
    (Run.after step (started credentials) (is ++ i :: later)).credentials = none ↔
      credentials = none ∨ (Run.after step (started credentials) is).dropsCredentials i = true := by
  have hn : (Run.after step (started credentials) is).state ≠ .finished :=
    beq_eq_false_iff_ne.1 hbefore
  have hn' : ((Run.after step (started credentials) is).step i).1.state = .finished := by
    rw [Run.after_append] at hend
    exact beq_iff_eq.1 hend
  rw [Run.after_append, Run.after_cons, after_of_finished hn', step_credentials_iff hn hn',
    after_credentials hn]
  rfl

theorem credentials_gone_iff_abandoned :
    (Run.after step (started (some ⟨"alice", "secret"⟩)) []).isFinished = false ∧
    (Run.after step (started (some ⟨"alice", "secret"⟩)) [.abandon]).isFinished = true ∧
    (Run.after step (started (some ⟨"alice", "secret"⟩)) [.abandon, .abandon]).credentials = none :=
  ⟨rfl, rfl, (credentials_gone_iff (some ⟨"alice", "secret"⟩) [] .abandon [.abandon] rfl rfl).2
    (.inr rfl)⟩

/-- The server offers no SASL, or refuses it: the negotiation is over and the password is still
there. -/
theorem credentials_left :
    let c : Credentials := ⟨"alice", "secret"⟩
    let ls (caps : String) : SaslInput :=
      .message (.ofCommand (.cap (some "*") .ls (some caps) none))
    let nak : SaslInput := .message (.ofCommand (.cap (some "*") .nak (some "sasl") none))
    (let n := Run.after step (started (some c)) [ls "multi-prefix"];
      n.isFinished = true ∧ n.credentials = some c) ∧
    let n := Run.after step (started (some c)) [ls "sasl", nak]
    n.isFinished = true ∧ n.credentials = some c := by
  decide +kernel

/-- A server's capability list is collected up to `maxCapabilityBytes` and a blank, however many
lines it sends. -/
theorem offered_le (credentials : Option Credentials) (is : List SaslInput) :
    Str.len (Run.after step (started credentials) is).offered ≤ maxCapabilityBytes + 1 := by
  refine Run.after_induction
    (P := fun n : SaslNegotiator => Str.len n.offered ≤ maxCapabilityBytes + 1)
    (Nat.zero_le _) (fun n i h => ?_) is
  have hls (payload : String) (more : Bool) :
      Str.len (n.onCapLs payload more).1.offered ≤ maxCapabilityBytes + 1 := by
    unfold onCapLs
    split
    · exact h
    next hfits =>
      have hcollect : Str.len (n.collect payload) ≤ maxCapabilityBytes + 1 := by
        have hblank : " ".utf8ByteSize = 1 := rfl
        unfold collect
        split <;> simp only [Str.len, String.utf8ByteSize_append] at hfits ⊢ <;> omega
      cases more with
      | true => exact hcollect
      | false =>
        change Str.len (requestSaslOrFinish { n with offered := n.collect payload }).1.offered ≤ _
        simp only [requestSaslOrFinish]
        split <;> exact hcollect
  cases i with
  | abandon =>
    simp only [step, abandon]
    split <;> exact h
  | message m =>
    simp only [step, advance, onCap, onCapAck, onCapNak, onAuthenticate, onResponse]
    repeat' split
    all_goals first | exact h | exact hls ..

end SaslNegotiator

end Ddirc.Conn
