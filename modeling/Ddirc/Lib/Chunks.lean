import Ddirc.Lib.Str

/-! # Pieces of a list

`slice::chunks` by position: the pieces begin at the multiples of their length. -/

namespace Ddirc.Str
open List
variable {n : Nat}

theorem chunksFrom_eq (h : acc.length < n) : chunksFrom n acc l =
    if acc ++ l = [] then [] else (acc ++ l).take n :: chunksFrom n [] ((acc ++ l).drop n) := by
  induction l generalizing acc with
  | nil =>
    cases acc with
    | nil => rfl
    | cons a acc =>
      rw [append_nil, take_of_length_le h.le,
        drop_of_length_le h.le]
      rfl
  | cons a l ih =>
    rw [if_neg (by simp), chunksFrom]
    split
    next hfull =>
      have hlen : (acc ++ [a]).length = n := by
        rw [length_append, length_singleton]
        omega
      rw [append_cons acc a l, take_left' hlen, drop_left' hlen]
    next hroom =>
      rw [ih (by rw [length_append, length_singleton]; omega), if_neg (by simp),
        append_assoc]
      rfl

theorem chunks_eq (hn : 0 < n) (l : List α) :
    chunks n l = if l = [] then [] else l.take n :: chunks n (l.drop n) := by
  rw [chunks, chunksFrom_eq (by exact hn)]
  rfl

theorem mem_chunks (hn : 0 < n) :
    piece ∈ chunks n l ↔ ∃ i, n * i < l.length ∧ piece = (l.drop (n * i)).take n := by
  induction hlen : l.length using Nat.strong_induction_on generalizing l with
  | _ length ih =>
    subst hlen
    rw [chunks_eq hn]
    split
    next hnil => simp [hnil]
    next hne =>
      have hpos : 0 < l.length := length_pos_iff.2 hne
      have hlen : (l.drop n).length = l.length - n := length_drop
      rw [mem_cons, ih _ (by omega) rfl]
      constructor
      · rintro (rfl | ⟨i, hi, rfl⟩)
        · exact ⟨0, by simpa using hpos, by simp⟩
        · refine ⟨i + 1, by rw [Nat.mul_succ]; omega, ?_⟩
          rw [drop_drop, Nat.mul_succ, Nat.add_comm]
      · rintro ⟨i, hi, rfl⟩
        cases i with
        | zero => exact .inl (by simp)
        | succ i =>
          rw [Nat.mul_succ] at hi
          refine .inr ⟨i, by rw [hlen]; omega, ?_⟩
          rw [drop_drop, Nat.mul_succ, Nat.add_comm]

theorem flatten_chunks (hn : 0 < n) (l : List α) : (chunks n l).flatten = l := by
  induction hlen : l.length using Nat.strong_induction_on generalizing l with
  | _ length ih =>
    rw [chunks_eq hn]
    split
    next hnil => simp [hnil]
    next hne =>
      have hpos : 0 < l.length := length_pos_iff.2 hne
      rw [flatten_cons, ih _ (by rw [length_drop]; omega) _ rfl, take_append_drop]

theorem chunks_append (hn : 0 < n) (h : a.length = n) : chunks n (a ++ l) = a :: chunks n l := by
  rw [chunks_eq hn, if_neg, take_left' h, drop_left' h]
  rintro hnil
  rw [(append_eq_nil_iff.1 hnil).1] at h
  exact hn.ne h

/-- The pieces are full ones and, unless nothing is left, one shorter one. -/
theorem chunks_eq_append (hn : 0 < n) (l : List α) :
    ∃ full rest, l = full.flatten ++ rest ∧ (∀ piece ∈ full, piece.length = n) ∧
      rest.length = l.length % n ∧ chunks n l = full ++ if rest.isEmpty then [] else [rest] := by
  induction hlen : l.length using Nat.strong_induction_on generalizing l with
  | _ length ih =>
    subst hlen
    rw [chunks_eq hn]
    by_cases hshort : l.length < n
    · refine ⟨[], l, rfl, by simp, (Nat.mod_eq_of_lt hshort).symm, ?_⟩
      rw [take_of_length_le hshort.le, drop_of_length_le hshort.le]
      cases l <;> rfl
    · rw [if_neg (length_pos_iff.1 (by omega))]
      have hdrop : (l.drop n).length = l.length - n := length_drop
      obtain ⟨full, rest, hl, hfull, hrest, heq⟩ := ih _ (by omega) (l.drop n) rfl
      refine ⟨l.take n :: full, rest, ?_, forall_mem_cons.2 ⟨?_, hfull⟩, ?_, ?_⟩
      · rw [flatten_cons, append_assoc, ← hl, take_append_drop]
      · rw [length_take]
        omega
      · rw [hrest, hdrop, ← Nat.mod_eq_sub_mod (by omega)]
      · rw [heq, cons_append]

theorem flatten_filter_sublist (p : List α → Bool) (ls : List (List α)) :
    (ls.filter p).flatten.Sublist ls.flatten := by
  induction ls with
  | nil => exact .refl _
  | cons l ls ih =>
    cases hp : p l with
    | true => simpa [hp] using ih
    | false => simpa [hp] using ih.trans (sublist_append_right l ls.flatten)

theorem flatten_filter_eq_iff {p : List α → Bool} {ls : List (List α)} (hls : ∀ l ∈ ls, l ≠ []) :
    (ls.filter p).flatten = ls.flatten ↔ ∀ l ∈ ls, p l := by
  constructor
  · intro h
    induction ls with
    | nil => simp
    | cons l ls ih =>
      obtain ⟨hl, hls⟩ := forall_mem_cons.1 hls
      cases hp : p l with
      | true =>
        rw [filter_cons_of_pos hp, flatten_cons, flatten_cons,
          append_cancel_left_eq] at h
        exact forall_mem_cons.2 ⟨hp, ih hls h⟩
      | false =>
        rw [filter_cons_of_neg (by simp [hp]), flatten_cons] at h
        have hle := (flatten_filter_sublist p ls).length_le
        have hpos := length_pos_iff.2 hl
        rw [h, length_append] at hle
        omega
  · intro h
    rw [filter_eq_self.2 h]

end Ddirc.Str
