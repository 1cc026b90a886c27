import Mathlib.Data.List.Sort

/-! # Sorting by a key

A list sorted by a key that tells its elements apart does not depend on the order it was given
in. The first elements of a stably sorted list can be kept up to date without the others: what comes
later is sorted in beside them. -/

namespace Ddirc
open List

variable {α κ : Type*} [LinearOrder κ]

def sortByKey (key : α → κ) (l : List α) : List α := l.insertionSort fun a b => key a ≤ key b

theorem sortByKey_perm (key : α → κ) (l : List α) : (sortByKey key l).Perm l :=
  perm_insertionSort _ l

theorem mem_sortByKey {key : α → κ} {l : List α} : a ∈ sortByKey key l ↔ a ∈ l :=
  (sortByKey_perm key l).mem_iff

theorem sortByKey_eq_of_perm {key : α → κ} {l l' : List α} (h : l.Perm l')
    (hinj : ∀ a ∈ l, ∀ b ∈ l, key a = key b → a = b) : sortByKey key l = sortByKey key l' := by
  refine List.Perm.eq_of_pairwise ?_ (pairwise_insertionSort _ l)
    (pairwise_insertionSort _ l') ?_
  · intro a b ha hb hab hba
    exact hinj a (mem_sortByKey.1 ha) b (h.mem_iff.2 (mem_sortByKey.1 hb)) (le_antisymm hab hba)
  · exact ((sortByKey_perm key l).trans h).trans (sortByKey_perm key l').symm

section
variable {r : α → α → Prop} [DecidableRel r]

/-- Of the first of two lists, only the first elements matter for the first elements of both. -/
theorem take_merge (xs ys : List α) (h : k ≤ j) :
    (List.merge (xs.take j) ys (r · ·)).take k = (List.merge xs ys (r · ·)).take k := by
  induction k generalizing xs ys j with
  | zero => simp
  | succ k ih =>
    obtain ⟨j, rfl⟩ : ∃ i, j = i + 1 := ⟨j - 1, by omega⟩
    cases xs with
    | nil => rw [take_nil]
    | cons x xs =>
      cases ys with
      | nil => simp [take_take, Nat.min_eq_left (Nat.le_of_succ_le_succ h)]
      | cons y ys =>
        have hxs := ih xs (y :: ys) (Nat.le_of_succ_le_succ h)
        have hys := ih (x :: xs) ys (Nat.le_of_succ_le h)
        rw [take_succ_cons] at hys ⊢
        rw [cons_merge_cons, cons_merge_cons]
        split
        · rw [take_succ_cons, take_succ_cons, hxs]
        · rw [take_succ_cons, take_succ_cons, hys]

variable [Std.Total r] [IsTrans α r]

theorem orderedInsert_merge :
    (List.merge xs ys (r · ·)).orderedInsert r a =
      List.merge (xs.orderedInsert r a) ys (r · ·) := by
  induction xs generalizing ys with
  | nil =>
    induction ys with
    | nil => simp
    | cons y ys ih =>
      rw [nil_merge] at ih ⊢
      rw [orderedInsert_cons, ih, orderedInsert_nil, cons_merge_cons]
      simp
  | cons x xs ihx =>
    induction ys with
    | nil => simp
    | cons y ys ihy =>
      rw [cons_merge_cons]
      by_cases hxy : r x y
      · rw [if_pos (decide_eq_true hxy), orderedInsert_cons, orderedInsert_cons, ihx]
        split
        next hax =>
          rw [cons_merge_cons, if_pos (decide_eq_true (IsTrans.trans a x y hax hxy)),
            cons_merge_cons, if_pos (decide_eq_true hxy)]
        · rw [cons_merge_cons, if_pos (decide_eq_true hxy)]
      · have hyx : r y x := (Std.Total.total y x).resolve_right hxy
        rw [if_neg (by simpa using hxy), orderedInsert_cons, ihy]
        split
        next hay =>
          rw [orderedInsert_cons, if_pos (IsTrans.trans a y x hay hyx), cons_merge_cons,
            if_pos (decide_eq_true hay), cons_merge_cons, if_neg (by simpa using hxy)]
        next hay =>
          rw [orderedInsert_cons]
          split
          · rw [cons_merge_cons, if_neg (by simpa using hay)]
          · rw [cons_merge_cons, if_neg (by simpa using hxy)]

theorem insertionSort_append (xs ys : List α) : (xs ++ ys).insertionSort r =
    List.merge (xs.insertionSort r) (ys.insertionSort r) (r · ·) := by
  induction xs with
  | nil => simp
  | cons x xs ih =>
    rw [cons_append, insertionSort_cons, ih, orderedInsert_merge, insertionSort_cons]

/-- The first elements, after more have come, are found from the first elements there were. -/
theorem take_insertionSort_append (k : Nat) (xs ys : List α) :
    (((xs.insertionSort r).take k ++ ys).insertionSort r).take k =
      ((xs ++ ys).insertionSort r).take k := by
  have hsorted : ((xs.insertionSort r).take k).Pairwise r :=
    (pairwise_insertionSort r xs).sublist (take_sublist k _)
  rw [insertionSort_append, insertionSort_append, hsorted.insertionSort_eq, take_merge _ _ le_rfl]

end

end Ddirc
