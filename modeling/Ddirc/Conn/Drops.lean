import Mathlib.Algebra.BigOperators.Group.List.Basic
import Ddirc.Lib.Run
import Ddirc.Api.Event
import Ddirc.Conn.RateLimit

/-! # What becomes of the drops that are counted

The actor counts the messages that flood protection refuses and the events that the UI's queue has
no room for, and reports both counts through that queue. A report clears them before it is sent, so
that one which finds no room is forgotten (`balanced_iff`). -/

namespace Ddirc.Conn
open Api List

def reported : IrcEvent → Nat
  | .messagesDropped _ count => count
  | _ => 0

def eventQueue : Nat := 1024

/-- The actor's counters and the UI's queue. -/
structure Outlet where
  recvLimiter : ReceiveLimiter
  droppedEvents : Nat := 0
  queue : List IrcEvent := []
  received : List IrcEvent := []
  /-- The messages refused and the events that did not fit, ever. -/
  lost : Nat := 0

namespace Outlet

inductive Input where
  | tryAdmit (now : Instant)
  | emit (e : IrcEvent) (h : reported e = 0)
  | progress (id transferred : Nat)
  | reportDrops
  | drain (n : Nat)

def u64Max : Nat := 2 ^ 64 - 1

def hasRoom (o : Outlet) : Bool := o.queue.length < eventQueue

def trySend (o : Outlet) (e : IrcEvent) : Outlet :=
  if o.hasRoom then { o with queue := o.queue ++ [e] } else { o with lost := o.lost + 1 }

def step (o : Outlet) : Input → Outlet × Unit
  | .tryAdmit now =>
    let (recvLimiter, ok) := o.recvLimiter.tryAdmit now
    ({ o with recvLimiter, lost := if ok then o.lost else o.lost + 1 }, ())
  | .emit e _ =>
    let droppedEvents := if o.hasRoom then o.droppedEvents else min (o.droppedEvents + 1) u64Max
    ({ o with droppedEvents }.trySend e, ())
  | .progress id transferred => (o.trySend (.fileTransferProgress id transferred), ())
  | .reportDrops =>
    let total := (o.recvLimiter.dropped + o.droppedEvents) % 2 ^ 64
    let o := { o with recvLimiter := { o.recvLimiter with dropped := 0 }, droppedEvents := 0 }
    (if total > 0 then o.trySend (.messagesDropped none total) else o, ())
  | .drain n => ({ o with queue := o.queue.drop n, received := o.received ++ o.queue.take n }, ())

def held (o : Outlet) : Nat := o.recvLimiter.dropped + o.droppedEvents

def told (o : Outlet) : Nat := ((o.received ++ o.queue).map reported).sum

def Balanced (o : Outlet) : Prop := o.lost = o.told + o.held

/-- The step finds room for what it counts: in a counter, or in the queue for a report. A transfer's
progress is not counted. -/
def Accounts (o : Outlet) : Input → Prop
  | .tryAdmit now => o.recvLimiter.bucket.available now = true ∨ o.recvLimiter.dropped < u64Max
  | .emit .. => o.hasRoom = true ∨ o.droppedEvents < u64Max
  | .progress .. => o.hasRoom = true
  | .reportDrops => o.held = 0 ∨ o.held ≤ u64Max ∧ o.hasRoom = true
  | .drain _ => True

variable {o : Outlet} {e : IrcEvent}

def forgotten (o : Outlet) : Int := o.lost - (o.told + o.held)

theorem forgotten_trySend : (o.trySend e).forgotten =
    if o.hasRoom then o.forgotten - reported e else o.forgotten + 1 := by
  rw [trySend]
  split
  · simp only [forgotten, told, held]
    simp
    omega
  · simp only [forgotten, told, held]
    omega

/-- A step forgets drops exactly if it finds no room for them. -/
theorem forgotten_step (o : Outlet) (i : Input) : o.forgotten ≤ (o.step i).1.forgotten ∧
    ((o.step i).1.forgotten = o.forgotten ↔ o.Accounts i) := by
  cases i with
  | tryAdmit now =>
    have hok := o.recvLimiter.tryAdmit_snd now
    have hdropped : (o.recvLimiter.tryAdmit now).1.dropped =
        if (o.recvLimiter.tryAdmit now).2 then o.recvLimiter.dropped
        else min (o.recvLimiter.dropped + 1) u64Max := by
      simp only [ReceiveLimiter.tryAdmit]
      split <;> simp_all [u64Max]
    simp only [step, Accounts, forgotten, held, told, ← hok, hdropped]
    split
    next h => simp [h]
    next h =>
      simp only [h, Bool.false_eq_true, false_or]
      omega
  | emit e he =>
    simp only [step, Accounts, forgotten_trySend, he, hasRoom]
    by_cases hroom : o.queue.length < eventQueue
    · simp [hroom]
    · simp only [hroom, decide_false, Bool.false_eq_true, if_false, false_or, forgotten, told, held]
      omega
  | progress id transferred =>
    simp only [step, Accounts, forgotten_trySend, reported]
    cases o.hasRoom <;> simp
  | reportDrops =>
    simp only [step, Accounts, u64Max]
    split
    · rw [forgotten_trySend]
      simp only [hasRoom, reported, decide_eq_true_eq, forgotten, told, held]
      split <;> omega
    · simp only [forgotten, told, held]
      omega
  | drain n =>
    simp only [step, Accounts, forgotten, told, held, append_assoc]
    simp

theorem forgotten_after (o : Outlet) (is : List Input) :
    o.forgotten ≤ (Run.after step o is).forgotten ∧
      ((Run.after step o is).forgotten = o.forgotten ↔ Run.Along step Accounts o is) := by
  induction is generalizing o with
  | nil => exact ⟨le_rfl, iff_of_true rfl trivial⟩
  | cons i is ih =>
    obtain ⟨hle, hiff⟩ := o.forgotten_step i
    obtain ⟨hle', hiff'⟩ := ih (o.step i).1
    rw [Run.after_cons, Run.Along, ← hiff, ← hiff']
    omega

/-- Every drop is in a report or in a counter exactly if every step finds room for what it
counts. -/
theorem balanced_iff (now : Instant) (is : List Input) :
    (Run.after step { recvLimiter := .init now } is).Balanced ↔
      Run.Along step Accounts { recvLimiter := .init now } is := by
  have hstart : forgotten { recvLimiter := .init now } = 0 := rfl
  rw [← (forgotten_after _ is).2, Balanced, forgotten]
  omega

theorem after_replicate_emit (l : ReceiveLimiter) (he : reported e = 0)
    (hn : n ≤ eventQueue) : Run.after step { recvLimiter := l } (replicate n (.emit e he)) =
      { recvLimiter := l, queue := replicate n e } := by
  induction n with
  | zero => rfl
  | succ n ih =>
    have hroom : n < eventQueue := hn
    rw [replicate_succ', Run.after_append, ih hroom.le, replicate_succ']
    simp [step, trySend, hasRoom, hroom]

/-- The UI takes nothing: the event after the last that fits is counted, and its report does not fit
either. -/
theorem not_balanced_full : ¬ (Run.after step { recvLimiter := .init 0 }
    (replicate eventQueue (.emit (.registered "me") (by decide)) ++
      [.emit (.registered "me") (by decide), .reportDrops])).Balanced := by
  rw [Run.after_append, after_replicate_emit _ _ le_rfl]
  simp [Balanced, step, trySend, hasRoom, told, held, reported, u64Max, ReceiveLimiter.init]

end Outlet

end Ddirc.Conn
