import Mathlib.Algebra.Order.Group.Multiset
import Mathlib.Tactic.Abel

/-! # Accounts

What a machine takes on is done, refused or still waiting. A ledger is kept as lists, and it
balances if nothing was lost and nothing counted twice. Where only some of what waits in a queue is
counted, it is marked. -/

namespace Ddirc

structure Ledger (α : Type*) where
  taken : List α := []
  done : List α := []
  refused : List α := []
  deriving DecidableEq

namespace Ledger
variable {α : Type*} {l step : Ledger α} {waiting waiting' : List α}

/-- All that was taken on is done, refused or waiting. -/
def Balanced (l : Ledger α) (waiting : List α) : Prop :=
  l.taken.Perm (l.done ++ l.refused ++ waiting)

instance [DecidableEq α] : Decidable (l.Balanced waiting) :=
  inferInstanceAs (Decidable (List.Perm ..))

def add (l step : Ledger α) : Ledger α where
  taken := l.taken ++ step.taken
  done := l.done ++ step.done
  refused := l.refused ++ step.refused

/-- A step keeps the balance if it accounts for what was waiting and what it takes on. -/
theorem Balanced.add (h : l.Balanced waiting)
    (hstep : (step.taken ++ waiting).Perm (step.done ++ step.refused ++ waiting')) :
    (l.add step).Balanced waiting' := by
  unfold Balanced Ledger.add at *
  simp only [← Multiset.coe_eq_coe, ← Multiset.coe_add] at h hstep ⊢
  rw [h]
  calc (l.done + l.refused + waiting + step.taken : Multiset α)
      = (l.done + l.refused) + (step.taken + waiting) := by abel
    _ = (l.done + l.refused) + (step.done + step.refused + waiting') := by rw [hstep]
    _ = _ := by abel

end Ledger

variable {α β : Type*}

/-- What `f` makes of the entries of a queue that are marked. -/
def marked (f : β → Option α) (queue : List β) (marks : List Bool) : List α :=
  (queue.zip marks).filterMap fun (x, mark) => if mark then f x else none

variable {f : β → Option α} {l l' : List β} {marks marks' : List Bool}

theorem marked_append (h : marks.length = l.length) :
    marked f (l ++ l') (marks ++ marks') = marked f l marks ++ marked f l' marks' := by
  unfold marked
  rw [List.zip_append h.symm, List.filterMap_append]

theorem marked_append_left (l l' : List β) (marks : List Bool) :
    marked f (l ++ l') marks = marked f l marks ++ marked f l' (marks.drop l.length) := by
  induction l generalizing marks with
  | nil => rfl
  | cons x l ih =>
    unfold marked at ih ⊢
    cases marks with
    | nil => simp
    | cons mark marks =>
      rw [List.cons_append, List.zip_cons_cons, List.zip_cons_cons, List.filterMap_cons,
        List.filterMap_cons, ih]
      split <;> rfl

theorem marked_map : marked f l (l.map fun _ => mark) = if mark then l.filterMap f else [] := by
  induction l with
  | nil => cases mark <;> rfl
  | cons x l ih =>
    unfold marked at ih ⊢
    rw [List.map_cons, List.zip_cons_cons, List.filterMap_cons, ih]
    cases mark <;> cases h : f x <;> simp [h]

end Ddirc
