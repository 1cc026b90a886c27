import Ddirc.History.Store
import Ddirc.Lib.Run
import Mathlib.Order.Interval.Finset.Nat

/-! # When history is pruned

Rows stand in the order in which they were written, with ascending ids (`Table.Ordered`). A row goes
when its id is `maxRows` below the highest. What is left is the end of what was held and never too
long, but the ids of lines that were deleted count like the others, so that a line can go from a
table that is nearly empty. -/

namespace Ddirc.History
open List

theorem filter_suffix (h : l.Pairwise fun a b => p a → p b) : l.filter p <:+ l := by
  induction l with
  | nil => exact suffix_rfl
  | cons a l ih =>
    rw [pairwise_cons] at h
    cases ha : p a with
    | true => rw [filter_eq_self.2 (forall_mem_cons.2 ⟨ha, fun b hb => h.1 b hb ha⟩)]
    | false => simpa [ha] using (ih h.2).trans (suffix_cons a l)

namespace Table
variable {t : Table} {lines : List Line}

/-- The ids ascend from 1, and none is above the largest that was given. -/
structure Ordered (t : Table) : Prop where
  ascending : t.rows.Pairwise (·.id < ·.id)
  given : ∀ r ∈ t.rows, 0 < r.id ∧ r.id ≤ t.lastId

namespace Ordered

theorem filter (h : t.Ordered) : Ordered { t with rows := t.rows.filter p } :=
  ⟨h.ascending.filter _, fun r hr => h.given r (mem_filter.1 hr).1⟩

theorem insert (h : t.Ordered) : (t.insert line).Ordered := by
  unfold Table.insert
  split
  · exact ⟨h.ascending, fun r hr => ⟨(h.given r hr).1, Nat.le_succ_of_le (h.given r hr).2⟩⟩
  · refine ⟨pairwise_append.2 ⟨h.ascending, pairwise_singleton _ _, fun r hr r' hr' => ?_⟩,
      fun r hr => ?_⟩
    · rw [mem_singleton.1 hr']
      exact Nat.lt_succ_of_le (h.given r hr).2
    · rcases List.mem_append.1 hr with hr | hr
      · exact ⟨(h.given r hr).1, Nat.le_succ_of_le (h.given r hr).2⟩
      · rw [mem_singleton.1 hr]
        exact ⟨Nat.succ_pos _, Nat.le_refl _⟩

theorem foldl_insert (h : t.Ordered) : (lines.foldl Table.insert t).Ordered := by
  induction lines generalizing t with
  | nil => exact h
  | cons line lines ih => exact ih h.insert

theorem nodup (h : t.Ordered) : (t.rows.map (·.id)).Nodup :=
  pairwise_map.2 (h.ascending.imp Nat.ne_of_lt)

end Ordered

/-- The row is `maxRows` below the highest id. -/
def stale (t : Table) (r : Row) : Bool :=
  match (t.rows.map (·.id)).max? with
  | none => false
  | some highest => r.id + maxRows ≤ highest

theorem prune_eq : t.prune = { t with rows := t.rows.filter fun r => !t.stale r } := by
  unfold prune stale
  cases (t.rows.map (·.id)).max? with
  | none => simp
  | some highest => rfl

/-- A row is stale if some other has an id so far above its own. -/
theorem stale_iff : t.stale r ↔ ∃ r' ∈ t.rows, r.id + maxRows ≤ r'.id := by
  unfold stale
  split
  · next h => simp [map_eq_nil_iff.1 (max?_eq_none_iff.1 h)]
  · next highest h =>
    obtain ⟨hmem, hle⟩ := max?_eq_some_iff.1 h
    obtain ⟨top, htop, rfl⟩ := mem_map.1 hmem
    rw [decide_eq_true_iff]
    exact ⟨fun hr => ⟨top, htop, hr⟩,
      fun ⟨r', hr', hlt⟩ => hlt.trans (hle _ (mem_map_of_mem hr'))⟩

theorem Ordered.run {work : Work} (h : t.Ordered) : (work.run t).Ordered := by
  cases work with
  | append lines =>
    show (lines.foldl Table.insert t).prune.Ordered
    rw [prune_eq]
    exact h.foldl_insert.filter
  | _ => exact h.filter

theorem Ordered.prune_suffix (h : t.Ordered) : t.prune.rows <:+ t.rows := by
  rw [prune_eq]
  refine filter_suffix (h.ascending.imp fun {r r'} hlt hr => ?_)
  rw [Bool.not_eq_true', Bool.eq_false_iff, Ne, stale_iff] at hr ⊢
  exact fun ⟨top, htop, hle⟩ => hr ⟨top, htop, by omega⟩

theorem Ordered.length_prune_le (h : t.Ordered) : t.prune.rows.length ≤ maxRows := by
  rw [prune_eq]
  have hids := h.filter (p := fun r => !t.stale r)
  rcases hrows : (t.rows.filter fun r => !t.stale r) with _ | ⟨r, rows⟩
  · exact Nat.zero_le _
  · have hnodup := hids.nodup
    have hr : t.stale r = false := by
      have hmem : r ∈ t.rows.filter fun r => !t.stale r := hrows ▸ mem_cons_self
      simpa using (mem_filter.1 hmem).2
    rw [hrows] at hnodup hids
    -- The ids that are left lie within `maxRows` of the first.
    have hsub : ((r :: rows).map (·.id)).toFinset ⊆ Finset.Ico r.id (r.id + maxRows) := by
      intro id hid
      obtain ⟨r', hr', rfl⟩ := mem_map.1 (mem_toFinset.1 hid)
      have hlow : r.id ≤ r'.id := by
        rcases mem_cons.1 hr' with rfl | hr'
        · exact Nat.le_refl _
        · exact Nat.le_of_lt (rel_of_pairwise_cons hids.ascending hr')
      have hmem : r' ∈ t.rows := (mem_filter.1 (hrows ▸ hr')).1
      have hhigh : ¬ r.id + maxRows ≤ r'.id := fun hle =>
        absurd (stale_iff.2 ⟨r', hmem, hle⟩) (by simp [hr])
      exact Finset.mem_Ico.2 ⟨hlow, Nat.lt_of_not_le hhigh⟩
    have hcard := Finset.card_le_card hsub
    rwa [toFinset_card_of_nodup hnodup, length_map, Nat.card_Ico, Nat.add_sub_cancel_left] at hcard

end Table

def tableAfter (works : List Work) : Table := works.foldl (fun t work => work.run t) {}

theorem ordered_tableAfter (works : List Work) : (tableAfter works).Ordered := by
  induction works using List.reverseRecOn with
  | nil => exact ⟨.nil, nofun⟩
  | append_singleton works work ih =>
    rw [tableAfter, foldl_append]
    exact ih.run

theorem foldl_insert_replicate (h : line.msgid = none) (n : Nat) (t : Table) :
    (replicate n line).foldl Table.insert t =
      { rows := t.rows ++ (range' (t.lastId + 1) n).map fun id => { id, line }
        lastId := t.lastId + n } := by
  induction n generalizing t with
  | zero => simp
  | succ n ih =>
    have hinsert : t.insert line =
        { rows := t.rows ++ [{ id := t.lastId + 1, line }], lastId := t.lastId + 1 } := by
      simp [Table.insert, Table.holds, h]
    rw [replicate_succ, foldl_cons, hinsert, ih]
    simp [range'_succ, Nat.add_assoc, Nat.add_comm 1]

def lineIn (conversation : String) : Line := { number := 0, profileId := "libera", conversation }

theorem tableAfter_forget (h : n < maxRows) :
    tableAfter [.append [lineIn "#tea"], .append (replicate n (lineIn "#den")),
      .forget "libera" "#den"] = { rows := [⟨1, lineIn "#tea"⟩], lastId := 1 + n } := by
  have hfirst : Table.stale { rows := ⟨1, lineIn "#tea"⟩ :: (range' 2 n).map (⟨·, lineIn "#den"⟩)
                              lastId := 1 + n } ⟨1, lineIn "#tea"⟩ = false := by
    rw [Bool.eq_false_iff, Ne, Table.stale_iff]
    rintro ⟨r, hr, hle⟩
    rcases mem_cons.1 hr with rfl | hr
    · simp [maxRows] at hle
    · obtain ⟨id, hid, rfl⟩ := mem_map.1 hr
      rw [mem_range'_1] at hid
      exact absurd hle (by simp only; omega)
  show Table.delete (Table.prune ((replicate n _).foldl Table.insert ⟨[⟨1, _⟩], 1⟩)) _ = _
  rw [foldl_insert_replicate rfl, Table.prune_eq, cons_append, nil_append, Table.delete,
    filter_cons, hfirst]
  simp [Work.deletes, lineIn, filter_map, Function.comp_def]

end Ddirc.History
