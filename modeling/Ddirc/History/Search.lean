import Ddirc.History.Pruned
import Ddirc.Text.Format

/-! # The search index

`lines_fts` holds the sender and the text, without its formatting, of every line that has a sender,
by the id of the line. `append` and `edit_line` add rows, a trigger on the table of lines takes them
away. Search joins the two, and needs only `SearchIndex.Of`; with the trigger there are no other
rows. Every call keeps both (`step_indexed`) and does the same for any index for which they hold
(`Alike.step`). -/

namespace Ddirc.History
open List

def Line.indexed (line : Line) : Option (String × String) :=
  line.sender.map fun sender => (sender, Text.strip line.text)

/-- The ids that the lines of a batch are stored under. -/
def Table.idsFor : Table → List Line → List (Option Nat)
  | _, [] => []
  | t, line :: lines =>
    (if t.holds line then none else some (t.lastId + 1)) :: idsFor (t.insert line) lines

/-- The text of one line changes. -/
def Table.setText (t : Table) (id : Nat) (text : String) : Table :=
  { t with rows := t.rows.map fun r => if r.id = id then { r with line.text := text } else r }

theorem Table.Ordered.setText {t : Table} {id : Nat} {text : String} (h : t.Ordered) :
    (t.setText id text).Ordered := by
  have hid : ∀ r : Row, (if r.id = id then { r with line.text := text } else r).id = r.id := by
    intro r
    split <;> rfl
  refine ⟨pairwise_map.2 (h.ascending.imp fun hlt => by rwa [hid, hid]), fun r hr => ?_⟩
  obtain ⟨old, hold, rfl⟩ := mem_map.1 hr
  exact (hid old).symm ▸ h.given old hold

theorem clear_run_rows (t : Table) : (Work.clear.run t).rows = [] :=
  filter_eq_nil_iff.2 fun _ _ => Bool.false_ne_true

abbrev Entries := Nat → Option (String × String)

def Entries.add (entries : Entries) (id : Nat) (line : Line) : Entries :=
  match line.indexed with
  | none => entries
  | some row => Function.update entries id (some row)

def Entries.addLines (entries : Entries) : Table → List Line → Entries
  | _, [] => entries
  | t, line :: lines =>
    addLines (if t.holds line then entries else entries.add (t.lastId + 1) line)
      (t.insert line) lines

theorem Entries.add_eq {entries : Entries} {id : Nat} {line : Line} (h : entries id = none) :
    entries.add id line = Function.update entries id line.indexed := by
  unfold add
  split
  · next hline => rw [hline, ← h, Function.update_eq_self]
  · next hline => rw [hline]

/-- `lines_fts`, and whether there is `lines_fts_delete`. -/
structure SearchIndex where
  entries : Entries := fun _ => none
  trigger : Bool := false

namespace SearchIndex

/-- Lines are deleted; without the trigger the index does not hear of it. -/
def delete (index : SearchIndex) (rows : List Row) (gone : Row → Bool) : SearchIndex :=
  { index with entries := fun id =>
      if index.trigger && rows.any fun r => r.id = id && gone r then none else index.entries id }

/-- The index is right about the lines there are, and about those to come. -/
structure Of (index : SearchIndex) (t : Table) : Prop where
  held : ∀ r ∈ t.rows, index.entries r.id = r.line.indexed
  fresh : ∀ id, t.lastId < id → index.entries id = none
  tended : index.trigger = true → ∀ id, (∀ r ∈ t.rows, r.id ≠ id) → index.entries id = none

variable {index : SearchIndex} {t : Table}

/-- With the trigger there is one row for each line with a sender, and no other. -/
theorem Of.entries_iff (h : index.Of t) (htrigger : index.trigger) {id : Nat}
    {row : String × String} :
    index.entries id = some row ↔ ∃ r ∈ t.rows, r.id = id ∧ r.line.indexed = some row := by
  constructor
  · intro hrow
    by_cases hid : ∀ r ∈ t.rows, r.id ≠ id
    · rw [h.tended htrigger id hid] at hrow
      cases hrow
    · push Not at hid
      obtain ⟨r, hr, rfl⟩ := hid
      exact ⟨r, hr, rfl, (h.held r hr).symm.trans hrow⟩
  · rintro ⟨r, hr, rfl, hrow⟩
    exact (h.held r hr).trans hrow

theorem Of.delete (ht : t.Ordered) (h : index.Of t) :
    (index.delete t.rows gone).Of { t with rows := t.rows.filter fun r => !gone r } := by
  refine ⟨fun r hr => ?_, fun id hid => ite_eq_left_iff.2 fun _ => h.fresh id hid,
    fun htrigger id hid => ite_eq_left_iff.2 fun hnone => h.tended htrigger id fun r hr hr' => ?_⟩
  · obtain ⟨hr, hgone⟩ := mem_filter.1 hr
    refine (if_neg ?_).trans (h.held r hr)
    simp only [Bool.and_eq_true, any_eq_true, decide_eq_true_eq]
    rintro ⟨-, r', hr', hid, hgone'⟩
    rw [inj_on_of_nodup_map ht.nodup hr' hr hid] at hgone'
    simp [hgone'] at hgone
  · have hgone : gone r = false := Bool.eq_false_iff.2 fun hgone => hnone <|
      Bool.and_eq_true_iff.2 ⟨htrigger, any_eq_true.2 ⟨r, hr, by simp [hr', hgone]⟩⟩
    exact hid r (mem_filter.2 ⟨hr, by simp [hgone]⟩) hr'

theorem Of.cleared {trigger : Bool} : Of { trigger } (Work.clear.run t) :=
  ⟨fun _ hr => absurd hr (clear_run_rows t ▸ not_mem_nil), fun _ _ => rfl, fun _ _ _ => rfl⟩

theorem Of.addLines {lines : List Line} (ht : t.Ordered) (h : index.Of t) :
    Of { index with entries := index.entries.addLines t lines } (lines.foldl Table.insert t) := by
  induction lines generalizing index t with
  | nil => exact h
  | cons line lines ih =>
    suffices hadded : Of { index with
        entries := if t.holds line then index.entries else index.entries.add (t.lastId + 1) line }
        (t.insert line) from ih ht.insert hadded
    by_cases hholds : t.holds line
    · simp only [Table.insert, if_pos hholds]
      exact ⟨h.held, fun id hid => h.fresh id (Nat.lt_of_succ_lt hid), h.tended⟩
    · simp only [Table.insert, if_neg hholds, Entries.add_eq (h.fresh _ (Nat.lt_succ_self _))]
      refine ⟨fun r hr => ?_, fun id hid => ?_, fun htrigger id hid => ?_⟩
      · rcases mem_append.1 hr with hr | hr
        · exact (Function.update_of_ne (Nat.ne_of_lt (Nat.lt_succ_of_le (ht.given r hr).2))
            ..).trans
            (h.held r hr)
        · rw [mem_singleton.1 hr]
          exact Function.update_self ..
      · exact (Function.update_of_ne (Nat.ne_of_gt hid) ..).trans
          (h.fresh id (Nat.lt_of_succ_lt hid))
      · have hne : t.lastId + 1 ≠ id := hid _ (mem_append_right _ mem_cons_self)
        exact (Function.update_of_ne hne.symm ..).trans
          (h.tended htrigger id fun r hr => hid r (mem_append_left _ hr))

theorem Of.setText (ht : t.Ordered) (hr : r ∈ t.rows) (hsender : r.line.sender = some sender)
    (h : index.Of t) :
    Of { index with entries := Function.update index.entries r.id (some (sender, Text.strip text)) }
      (t.setText r.id text) := by
  refine ⟨fun r' hr' => ?_, fun id hid => ?_, fun htrigger id hid => ?_⟩
  · obtain ⟨old, hold, rfl⟩ := mem_map.1 hr'
    by_cases hid : old.id = r.id
    · cases inj_on_of_nodup_map ht.nodup hold hr hid
      simp [Line.indexed, hsender]
    · simpa [hid] using h.held old hold
  · have hne : id ≠ r.id := Nat.ne_of_gt (Nat.lt_of_le_of_lt (ht.given r hr).2 hid)
    exact (Function.update_of_ne hne ..).trans (h.fresh id hid)
  · have hne : id ≠ r.id := fun hid' => hid _ (mem_map_of_mem hr) (by simp [hid'])
    refine (Function.update_of_ne hne ..).trans (h.tended htrigger id fun r' hr' hr'' => ?_)
    exact hid _ (mem_map_of_mem hr') (by split <;> exact hr'')

end SearchIndex

/-! ## The database -/

structure Kept where
  profileId : String
  conversation : String
  content : String

/-- The tables that messages and what goes with them are kept in. -/
structure Database where
  table : Table := {}
  index : Option SearchIndex := none
  /-- `conversation_state`. -/
  states : List Kept := []
  marks : List Kept := []

/-- What a call of the store deletes besides lines. -/
def Work.deletesKept : Work → Kept → Bool
  | .clear, _ => true
  | .forget profileId conversation, k => k.profileId = profileId && k.conversation = conversation
  | .forgetProfile profileId, k => k.profileId = profileId
  | _, _ => false

inductive StoreCall where
  | work (work : Work)
  | editLine (profileId conversation msgid sender text : String)
  /-- What FTS5 finds by the words typed, if there is a word. -/
  | search (profileId conversation : Option String) (query : Option (String × String → Bool))
      (limit : Nat) (beforeId : Option Nat)

inductive StoreAnswer where
  | ids (ids : List (Option Nat))
  | changed (found : Bool)
  | done
  | rows (rows : List Row)
  | failed

namespace Database

/-- The statements of `clear`, each of which is committed by itself. `VACUUM` changes no row. -/
def clearStatements : List (Database → Database) :=
  [fun db => { db with index := db.index.map ({ · with trigger := false }) },
   fun db => { db with index := none },
   fun db => { db with
    table := Work.clear.run db.table
    index := db.index.map (·.delete db.table.rows fun _ => true) },
   fun db => { db with states := [] },
   fun db => { db with marks := [] },
   fun db => { db with index := some (db.index.getD {}) },
   fun db => { db with index := db.index.map ({ · with trigger := true }) },
   id]

def clearUpTo (db : Database) (k : Nat) : Database :=
  (clearStatements.take k).foldl (fun db statement => statement db) db

/-- A call of the store on its writing connection, or on its reading one. -/
def step (db : Database) : StoreCall → Database × StoreAnswer
  | .work (.append lines) =>
    if lines = [] then (db, .ids [])
    else match db.index with
      | none => (db, .failed)
      | some index =>
        let held := lines.foldl Table.insert db.table
        ({ db with
            table := db.table.append lines
            index := some (SearchIndex.delete
              { index with entries := index.entries.addLines db.table lines } held.rows
                held.stale) },
          .ids (db.table.idsFor lines))
  | .work .clear => (db.clearUpTo 8, .done)
  | .work work =>
    ({ table := work.run db.table
       index := db.index.map (·.delete db.table.rows fun r => work.deletes r.line)
       states := db.states.filter fun k => !work.deletesKept k
       marks := db.marks.filter fun k => !work.deletesKept k },
      match work with
      | .removeLine .. => .changed (db.table.rows.any fun r => work.deletes r.line)
      | _ => .done)
  | .editLine profileId conversation msgid sender text =>
    match db.table.rows.find? fun r =>
        (Work.removeLine profileId conversation msgid sender).deletes r.line with
    | none => (db, .changed false)
    | some r =>
      match db.index with
      | none => (db, .failed)
      | some index =>
        ({ db with
            table := db.table.setText r.id text
            index := some { index with
              entries := Function.update index.entries r.id (some (sender, Text.strip text)) } },
          .changed true)
  | .search profileId conversation query limit beforeId =>
    match query, db.index with
    | none, _ => (db, .rows [])
    | some _, none => (db, .failed)
    -- The table is in the order of its ids; the newest come first.
    | some found, some index =>
      (db, .rows ((db.table.rows.reverse.filter fun r => (index.entries r.id).any found &&
        beforeId.all (r.id < ·) && profileId.all (r.line.profileId = ·) &&
        conversation.all (r.line.conversation = ·)).take limit))

/-- The index is right, and if `p` holds the trigger keeps it. -/
structure Indexed (p : Prop) (db : Database) : Prop where
  ordered : db.table.Ordered
  index : ∃ index, db.index = some index ∧ index.Of db.table ∧ (p → index.trigger = true)

variable {p : Prop} {db db' : Database}

theorem Indexed.delete {gone : Row → Bool} {states marks : List Kept} (h : Indexed p db) :
    Indexed p { table := { db.table with rows := db.table.rows.filter fun r => !gone r }
                index := db.index.map (·.delete db.table.rows gone), states, marks } := by
  obtain ⟨ht, index, hdb, hindex, hp⟩ := h
  exact ⟨ht.filter, _, by rw [hdb]; rfl, hindex.delete ht, hp⟩

theorem step_indexed {call : StoreCall} (h : Indexed p db) : Indexed p (db.step call).1 := by
  obtain ⟨ht, index, hdb, hindex, hp⟩ := id h
  cases call with
  | work work =>
    cases work with
    | append lines =>
      simp only [step]
      split
      · exact h
      · rw [hdb, Table.append, Table.prune_eq]
        have hadded : Indexed p { db with
            table := lines.foldl Table.insert db.table
            index := some { index with entries := index.entries.addLines db.table lines } } :=
          ⟨ht.foldl_insert, _, rfl, hindex.addLines ht, hp⟩
        exact hadded.delete
    | clear => exact ⟨(ht.run : (Work.clear.run db.table).Ordered), _, rfl, .cleared, fun _ => rfl⟩
    | _ => exact h.delete
  | editLine profileId conversation msgid sender text =>
    simp only [step]
    split
    · exact h
    · next r hr =>
      rw [hdb]
      have hsender : r.line.sender = some sender := by
        have hfound := find?_some hr
        simp [Work.deletes] at hfound
        exact hfound.2
      exact ⟨ht.setText, _, rfl, hindex.setText ht (mem_of_find?_eq_some hr) hsender, hp⟩
  | search profileId conversation query limit beforeId =>
    simp only [step]
    split <;> exact h

/-- Two databases that differ at most in their indexes, both of which are right. -/
structure Alike (db db' : Database) : Prop where
  table : db.table = db'.table
  states : db.states = db'.states
  marks : db.marks = db'.marks
  left : Indexed False db
  right : Indexed False db'

theorem Alike.step (h : Alike db db') :
    (db.step call).2 = (db'.step call).2 ∧ Alike (db.step call).1 (db'.step call).1 := by
  obtain ⟨htable, hstates, hmarks, hleft, hright⟩ := h
  suffices hsame : (db.step call).2 = (db'.step call).2 ∧
      (db.step call).1.table = (db'.step call).1.table ∧
      (db.step call).1.states = (db'.step call).1.states ∧
      (db.step call).1.marks = (db'.step call).1.marks from
    ⟨hsame.1, hsame.2.1, hsame.2.2.1, hsame.2.2.2, step_indexed hleft, step_indexed hright⟩
  obtain ⟨table, index, states, marks⟩ := db
  obtain ⟨table', index', states', marks'⟩ := db'
  obtain ⟨-, index, rfl : _ = some index, hindex, -⟩ := hleft
  obtain ⟨-, index', rfl : _ = some index', hindex', -⟩ := hright
  subst htable hstates hmarks
  cases call with
  | work work =>
    cases work with
    | append lines =>
      simp only [Database.step]
      split <;> exact ⟨rfl, rfl, rfl, rfl⟩
    | _ => exact ⟨rfl, rfl, rfl, rfl⟩
  | editLine profileId conversation msgid sender text =>
    simp only [Database.step]
    split <;> exact ⟨rfl, rfl, rfl, rfl⟩
  | search profileId conversation query limit beforeId =>
    cases query with
    | none => exact ⟨rfl, rfl, rfl, rfl⟩
    | some found =>
      refine ⟨?_, rfl, rfl, rfl⟩
      simp only [Database.step]
      congr 2
      refine filter_congr fun r hr => ?_
      rw [hindex.held r (mem_reverse.1 hr), hindex'.held r (mem_reverse.1 hr)]

end Database
end Ddirc.History
