import Ddirc.History.Search

/-! # Opening a file of the store

A ladder of statements brings an older file up to date, the last of which writes the version down.
Each is committed by itself, but for those of the fifth step, which are one transaction. So the next
open takes up what an interrupted one leaves, and comes to the same (`opened_openUpTo`). A file that
is up to date is left as it is, and so is what an interrupted `clear` leaves. -/

namespace Ddirc.History
open List

/-! ## The fifth step -/

/-- A line with the server id of an earlier one of its conversation. -/
def isCopy (rows : List Row) (r : Row) : Bool :=
  r.line.msgid.isSome && rows.any fun r' =>
    r'.id < r.id && r'.line.profileId = r.line.profileId &&
      r'.line.conversation = r.line.conversation && r'.line.msgid = r.line.msgid

def Entries.addRows (entries : Entries) (rows : List Row) : Entries :=
  rows.foldl (fun entries r => entries.add r.id r.line) entries

def linesAfter (rows : List Row) (after : Nat) : List Row :=
  rows.filter fun r => after < r.id && r.line.sender.isSome

theorem linesAfter_last {rows : List Row} {after : Nat} {last : Row}
    (h : ((linesAfter rows after).take 5000).getLast? = some last) :
      last ∈ rows ∧ after < last.id := by
  have hmem := mem_filter.1 (mem_of_mem_take (mem_of_getLast? h))
  simp only [Bool.and_eq_true, decide_eq_true_eq] at hmem
  exact ⟨hmem.1, hmem.2.1⟩

/-- `backfill_search_index`: a page after the other. -/
def backfill (rows : List Row) (after : Nat) (entries : Entries) : Entries :=
  let page := (linesAfter rows after).take 5000
  match _h : page.getLast? with
  | none => entries
  | some last => backfill rows last.id (entries.addRows page)
termination_by (rows.filter fun r => after < r.id).length
decreasing_by
  obtain ⟨hmem, hlt⟩ := linesAfter_last _h
  have hfilter : (rows.filter fun r => last.id < r.id) =
      (rows.filter fun r => after < r.id).filter fun r => last.id < r.id := by
    rw [filter_filter]
    refine filter_congr fun r _ => ?_
    by_cases hr : last.id < r.id <;> simp [hr, hlt.trans]
  rw [hfilter]
  exact length_filter_lt_length_iff_exists.2 ⟨last, mem_filter.2 ⟨hmem, by simpa⟩, by simp⟩

theorem linesAfter_eq_drop {rows : List Row} {after n : Nat} {last : Row}
    (h : rows.Pairwise (·.id < ·.id))
    (hlast : ((linesAfter rows after).take n).getLast? = some last)
    (hafter : after < last.id) : linesAfter rows last.id = (linesAfter rows after).drop n := by
  have hfilter :
      linesAfter rows last.id = (linesAfter rows after).filter fun r => last.id < r.id := by
    rw [linesAfter, linesAfter, filter_filter]
    refine filter_congr fun r _ => ?_
    by_cases hr : last.id < r.id <;> simp [hr, hafter.trans]
  have hall : (linesAfter rows after).Pairwise (·.id < ·.id) := h.filter _
  rw [← take_append_drop n (linesAfter rows after)] at hall
  obtain ⟨hpage, -, hbelow⟩ := pairwise_append.1 hall
  obtain ⟨init, hinit⟩ := getLast?_eq_some_iff.1 hlast
  rw [hinit] at hpage hbelow
  have hold : (init ++ [last]).filter (fun r => last.id < r.id) = [] := by
    refine filter_eq_nil_iff.2 fun r hr => ?_
    rcases mem_append.1 hr with hr | hr
    · simpa using Nat.le_of_lt ((pairwise_append.1 hpage).2.2 r hr last mem_cons_self)
    · simp [mem_singleton.1 hr]
  have hnew : ((linesAfter rows after).drop n).filter (fun r => last.id < r.id) =
      (linesAfter rows after).drop n :=
    filter_eq_self.2 fun r hr => decide_eq_true (hbelow last (by simp) r hr)
  rw [hfilter]
  conv_lhs => rw [← take_append_drop n (linesAfter rows after)]
  rw [filter_append, hinit, hold, hnew, nil_append]

theorem backfill_eq {rows : List Row} {after : Nat} {entries : Entries}
    (h : rows.Pairwise (·.id < ·.id)) :
    backfill rows after entries = entries.addRows (linesAfter rows after) := by
  fun_induction backfill rows after entries with
  | case1 after entries page hlast =>
    rw [(take_eq_nil_iff.1 (getLast?_eq_none_iff.1 hlast)).resolve_left (by decide)]
    rfl
  | case2 after entries page last hlast ih =>
    rw [ih, linesAfter_eq_drop h hlast (linesAfter_last hlast).2, Entries.addRows, Entries.addRows,
      ← foldl_append, take_append_drop]
    rfl

theorem Entries.addRows_linesAfter {rows : List Row} {entries : Entries}
    (h : ∀ r ∈ rows, 0 < r.id) :
    entries.addRows (linesAfter rows 0) = entries.addRows rows := by
  induction rows generalizing entries with
  | nil => rfl
  | cons r rows ih =>
    obtain ⟨hr, hrows⟩ := forall_mem_cons.1 h
    have hadd : Entries.addRows entries (r :: rows) = (entries.add r.id r.line).addRows rows := rfl
    rw [hadd, ← ih hrows]
    cases hsender : r.line.sender with
    | none => simp [linesAfter, Entries.add, Line.indexed, hsender]
    | some sender => simp [linesAfter, hr, hsender, Entries.addRows]

theorem addRows_right (h : rows.Pairwise (·.id < ·.id)) :
    (∀ r ∈ rows, Entries.addRows (fun _ => none) rows r.id = r.line.indexed) ∧
      ∀ id, (∀ r ∈ rows, r.id ≠ id) → Entries.addRows (fun _ => none) rows id = none := by
  induction rows using List.reverseRecOn with
  | nil => exact ⟨nofun, fun _ _ => rfl⟩
  | append_singleton rows r ih =>
    obtain ⟨hrows, -, hr⟩ := pairwise_append.1 h
    obtain ⟨hheld, hother⟩ := ih hrows
    have hne : ∀ r' ∈ rows, r'.id ≠ r.id := fun r' hr' => Nat.ne_of_lt (hr r' hr' r mem_cons_self)
    have hlast : Entries.addRows (fun _ => none) (rows ++ [r]) =
        Function.update (Entries.addRows (fun _ => none) rows) r.id r.line.indexed := by
      rw [← Entries.add_eq (hother _ hne), Entries.addRows, foldl_append]
      rfl
    rw [hlast]
    refine ⟨fun r' hr' => ?_, fun id hid => ?_⟩
    · rcases mem_append.1 hr' with hr' | hr'
      · rw [Function.update_of_ne (hne r' hr'), hheld r' hr']
      · rw [mem_singleton.1 hr', Function.update_self]
    · rw [Function.update_of_ne (hid r (by simp)).symm,
        hother id fun r' hr' => hid r' (mem_append_left _ hr')]

def SearchIndex.built (t : Table) : SearchIndex :=
  { entries := backfill t.rows 0 fun _ => none, trigger := true }

theorem SearchIndex.built_of {t : Table} (h : t.Ordered) : (built t).Of t := by
  obtain ⟨hheld, hother⟩ := addRows_right h.ascending
  rw [← Entries.addRows_linesAfter fun r hr => (h.given r hr).1, ← backfill_eq h.ascending]
    at hheld hother
  refine ⟨hheld, fun id hid => hother id fun r hr hr' => ?_, fun _ => hother⟩
  have hgiven := (h.given r hr).2
  omega

theorem isCopy_mono (h : rows' ⊆ rows) (hr : isCopy rows' r) : isCopy rows r := by
  simp only [isCopy, Bool.and_eq_true, any_eq_true] at hr ⊢
  obtain ⟨hsome, r', hr', hcopy⟩ := hr
  exact ⟨hsome, r', h hr', hcopy⟩

namespace Database
variable {db : Database}

def dropCopies (db : Database) : Database :=
  { db with
    table.rows := db.table.rows.filter fun r => !isCopy db.table.rows r
    index := db.index.map fun index => index.delete db.table.rows (isCopy db.table.rows) }

def ensureIndex (db : Database) : Database :=
  { db with index := some (db.index.getD (.built db.table)) }

/-- `migrate_to_5`, as far as it concerns rows. -/
def migrateTo5 (db : Database) : Database := db.dropCopies.ensureIndex

theorem dropCopies_eq_self (h : ∀ r ∈ db.table.rows, isCopy db.table.rows r = false) :
    db.dropCopies = db := by
  have hindex :
      ∀ index : SearchIndex, index.delete db.table.rows (isCopy db.table.rows) = index := by
    have hnone : ∀ id, (db.table.rows.any fun r => r.id = id && isCopy db.table.rows r) = false :=
      fun id => any_eq_false.2 fun r hr => by simp [h r hr]
    simp [SearchIndex.delete, hnone]
  have hrows : db.table.rows.filter (fun r => !isCopy db.table.rows r) = db.table.rows :=
    filter_eq_self.2 fun r hr => by rw [h r hr, Bool.not_false]
  simp [dropCopies, hindex, hrows]

/-- The second time there are no copies, and there is an index. -/
theorem migrateTo5_migrateTo5 : db.migrateTo5.migrateTo5 = db.migrateTo5 := by
  have hcopies : db.migrateTo5.dropCopies = db.migrateTo5 := dropCopies_eq_self fun r hr =>
    Bool.eq_false_iff.2 fun hcopy =>
      absurd (isCopy_mono (filter_subset_self _) hcopy) (by simpa using (mem_filter.1 hr).2)
  rw [migrateTo5, hcopies]
  rfl

end Database

/-! ## The ladder -/

/-- What each step of the ladder creates. -/
def createdBy : Nat → List String
  | 1 => ["lines", "lines_by_conversation"]
  | 2 => ["people"]
  | 3 => ["personas", "persona_nicks"]
  | 4 => ["lines.msgid", "lines.reply_msgid", "lines.reply_nick", "lines.reply_excerpt"]
  | _ => ["lines_by_msgid", "conversation_state", "marks", "marks_by_conversation", "marks_by_kind",
    "marks_unique"]

structure File where
  /-- `user_version`. -/
  version : Nat
  /-- The tables, indexes and added columns there are, by their names. -/
  objects : Finset String
  database : Database

namespace File
variable {f : File} {k : Nat}

/-- `SCHEMA_VERSION`. -/
def schemaVersion : Nat := 5

inductive Statement where
  | create (name : String)
  | migrateTo5
  | setVersion

def exec (f : File) : Statement → File
  | .create name => { f with objects := insert name f.objects }
  | .migrateTo5 =>
    { f with objects := f.objects ∪ (createdBy 5).toFinset, database := f.database.migrateTo5 }
  | .setVersion => { f with version := schemaVersion }

/-- What the steps before the fifth create. A column that is there is not added again. -/
def creates (f : File) : List String :=
  ([1, 2, 3].filter (f.version < ·)).flatMap createdBy ++
    if f.version < 4 then (createdBy 4).filter (· ∉ f.objects) else []

/-- The statements of `migrate`. A file that is up to date, or newer, has none. -/
def ladder (f : File) : List Statement :=
  if f.version < schemaVersion then f.creates.map .create ++ [.migrateTo5, .setVersion] else []

/-- The file is opened, and that is stopped after `k` statements. -/
def openUpTo (f : File) (k : Nat) : File := (f.ladder.take k).foldl exec f

def opened (f : File) : File := f.ladder.foldl exec f

theorem foldl_create {names : List String} :
    (names.map Statement.create).foldl exec f =
      { f with objects := f.objects ∪ names.toFinset } := by
  induction names generalizing f with
  | nil => simp
  | cons name names ih =>
    rw [map_cons, foldl_cons, ih]
    simp [exec]

def missing (version : Nat) : Finset String :=
  (([1, 2, 3, 4, 5].filter (version < ·)).flatMap createdBy).toFinset

theorem objects_creates (h : f.version < schemaVersion) :
    f.objects ∪ f.creates.toFinset ∪ (createdBy 5).toFinset = f.objects ∪ missing f.version := by
  obtain ⟨version, objects, database⟩ := f
  ext name
  rcases version with _ | _ | _ | _ | _ | version
  all_goals simp [creates, missing, schemaVersion] at h ⊢
  all_goals tauto

theorem opened_eq (h : f.version < schemaVersion) :
    f.opened = { version := schemaVersion, objects := f.objects ∪ missing f.version
                 database := f.database.migrateTo5 } := by
  rw [opened, ladder, if_pos h, foldl_append, foldl_create, ← objects_creates h]
  rfl

theorem opened_of_current (h : ¬ f.version < schemaVersion) : f.opened = f := by
  rw [opened, ladder, if_neg h, foldl_nil]

theorem openUpTo_cases (h : f.version < schemaVersion) :
    (∃ objects, f.objects ⊆ objects ∧ objects ⊆ f.objects ∪ missing f.version ∧
      (f.openUpTo k = { f with objects } ∨
        f.openUpTo k = { f with objects, database := f.database.migrateTo5 })) ∨
    f.openUpTo k = f.opened := by
  have htake : (f.creates.take k).toFinset ⊆ f.creates.toFinset := by
    intro name hname
    rw [mem_toFinset] at hname ⊢
    exact mem_of_mem_take hname
  have hopen : f.openUpTo k = ([.migrateTo5, .setVersion].take (k - f.creates.length)).foldl exec
      { f with objects := f.objects ∪ (f.creates.take k).toFinset } := by
    rw [openUpTo, ladder, if_pos h, take_append, foldl_append, ← map_take, foldl_create, length_map]
  rw [hopen, ← objects_creates h]
  rcases hk : k - f.creates.length with _ | _ | n
  · refine .inl ⟨_, Finset.subset_union_left, ?_, .inl rfl⟩
    exact (Finset.union_subset_union_right htake).trans Finset.subset_union_left
  · refine .inl ⟨_, ?_, ?_, .inr rfl⟩
    · exact Finset.subset_union_left.trans Finset.subset_union_left
    · exact Finset.union_subset_union_left (Finset.union_subset_union_right htake)
  · right
    rw [opened_eq h, ← objects_creates h, take_of_length_le (by omega), take_succ_cons,
      take_succ_cons, take_nil]
    rfl

theorem opened_openUpTo : (f.openUpTo k).opened = f.opened := by
  by_cases h : f.version < schemaVersion
  · rcases openUpTo_cases (k := k) h with ⟨objects, hle, hge, heq⟩ | heq
    · have hobjects : objects ∪ missing f.version = f.objects ∪ missing f.version :=
        Finset.Subset.antisymm (Finset.union_subset hge Finset.subset_union_right)
          (Finset.union_subset_union_left hle)
      rw [opened_eq h, ← hobjects]
      rcases heq with heq | heq <;> rw [heq]
      · exact opened_eq h
      · refine (opened_eq (by exact h)).trans ?_
        rw [Database.migrateTo5_migrateTo5]
    · rw [heq, opened_eq h]
      exact opened_of_current (lt_irrefl _)
  · rw [openUpTo, ladder, if_neg h, take_nil, foldl_nil]

end File

/-- A file of an older version, with any lines. -/
structure OldFile where
  version : Fin 5
  objects : Finset String
  table : Table
  ordered : table.Ordered

namespace OldFile

def file (f : OldFile) : File := { f with version := f.version, database := { table := f.table } }

theorem opened_indexed (f : OldFile) : f.file.opened.database.Indexed True := by
  rw [File.opened_eq f.version.isLt]
  have hordered := f.ordered.filter (p := fun r => !isCopy f.table.rows r)
  exact ⟨hordered, _, rfl, SearchIndex.built_of hordered, fun _ => rfl⟩

/-- However often an open is stopped, what comes of it in the end is the same: every line but for
later copies, and the index of these. -/
theorem opened_interrupted (f : OldFile) (ks : List Nat) :
    let done := (ks.foldl File.openUpTo f.file).opened
    done = f.file.opened ∧ done.version = File.schemaVersion ∧
      done.database.table.rows = f.table.rows.filter (fun r => !isCopy f.table.rows r) ∧
      ∃ index, done.database.index = some index ∧ ∀ id row, index.entries id = some row ↔
        ∃ r ∈ done.database.table.rows, r.id = id ∧ r.line.indexed = some row := by
  intro done
  have hdone : done = f.file.opened := by
    show (ks.foldl File.openUpTo f.file).opened = _
    induction ks using List.reverseRecOn with
    | nil => rfl
    | append_singleton ks k ih =>
      rw [foldl_append]
      exact File.opened_openUpTo.trans ih
  obtain ⟨-, index, hindex, hof, htrigger⟩ := f.opened_indexed
  rw [hdone]
  refine ⟨rfl, ?_, ?_, index, hindex, fun id row => hof.entries_iff (htrigger trivial)⟩ <;>
    rw [File.opened_eq f.version.isLt]
  rfl

/-- After any calls of a store that was opened from an older file, the index is that of its
lines. -/
theorem index_of_lines (f : OldFile) (calls : List StoreCall) :
    let db := Run.after Database.step f.file.opened.database calls
    ∃ index, db.index = some index ∧ ∀ id row, index.entries id = some row ↔
      ∃ r ∈ db.table.rows, r.id = id ∧ r.line.indexed = some row := by
  intro db
  have hdb : db.Indexed True :=
    Run.after_induction f.opened_indexed (fun _ _ h => Database.step_indexed h) calls
  obtain ⟨-, index, hindex, hof, htrigger⟩ := hdb
  exact ⟨index, hindex, fun id row => hof.entries_iff (htrigger trivial)⟩

end OldFile

/-! ## A deletion that is interrupted -/

namespace Database
variable {p : Prop} {db db' : Database} {k : Nat}

def rebuilt (db : Database) : Database := { db with index := some (.built db.table) }

theorem Alike.trace (h : Alike db db') :
    Run.trace Database.step db calls = Run.trace Database.step db' calls := by
  induction calls generalizing db db' with
  | nil => rfl
  | cons call calls ih => rw [Run.trace_cons, Run.trace_cons, h.step.1, ih h.step.2]

theorem Indexed.alike_rebuilt (h : Indexed p db) : Alike db db.rebuilt :=
  ⟨rfl, rfl, rfl, ⟨h.ordered, h.index.imp fun _ hindex => ⟨hindex.1, hindex.2.1, False.elim⟩⟩,
    ⟨h.ordered, _, rfl, SearchIndex.built_of h.ordered, False.elim⟩⟩

theorem trace_ne_of_index (h : db.index = none) :
    Run.trace step db [.work (.append [lineIn "#tea"])] ≠
      Run.trace step db.rebuilt [.work (.append [lineIn "#tea"])] := by
  simp [step, rebuilt, h]

/-- Whether an interrupted `clear` leaves a store in order: its index is missing in the middle. -/
theorem clearUpTo_cases (h : Indexed True db) :
    (k ≤ 1 ∨ 6 ≤ k) ∧ Indexed False (db.clearUpTo k) ∧
      ((db.clearUpTo k).table = db.table ∧ (db.clearUpTo k).states = db.states ∧
          (db.clearUpTo k).marks = db.marks ∨
        (db.clearUpTo k).table.rows = [] ∧ (db.clearUpTo k).states = [] ∧
          (db.clearUpTo k).marks = []) ∨
    ¬ (k ≤ 1 ∨ 6 ≤ k) ∧ (db.clearUpTo k).index = none := by
  have hcleared : (Work.clear.run db.table).Ordered := h.ordered.run
  have hgone := clear_run_rows db.table
  obtain ⟨ht, index, hindex, hof, -⟩ := h
  rcases k with _ | _ | _ | _ | _ | _ | _ | _ | k
  · exact .inl ⟨by omega, ⟨ht, index, hindex, hof, False.elim⟩, .inl ⟨rfl, rfl, rfl⟩⟩
  · refine .inl ⟨by omega, ⟨ht, { index with trigger := false }, ?_, ⟨hof.held, hof.fresh, ?_⟩,
      False.elim⟩, .inl ⟨rfl, rfl, rfl⟩⟩
    · exact congrArg (Option.map _) hindex
    · exact fun htrigger => absurd htrigger Bool.false_ne_true
  iterate 4 exact .inr ⟨by omega, rfl⟩
  · exact .inl ⟨by omega, ⟨hcleared, _, rfl, .cleared, False.elim⟩, .inr ⟨hgone, rfl, rfl⟩⟩
  · exact .inl ⟨by omega, ⟨hcleared, _, rfl, .cleared, False.elim⟩, .inr ⟨hgone, rfl, rfl⟩⟩
  · have hall : db.clearUpTo (k + 8) = db.clearUpTo 8 := by
      rw [clearUpTo, take_of_length_le (by simp [clearStatements])]
      rfl
    rw [hall]
    exact .inl ⟨by omega, ⟨hcleared, _, rfl, .cleared, False.elim⟩, .inr ⟨hgone, rfl, rfl⟩⟩

end Database

/-- When `clear` is stopped after `k` of its statements and the store is opened again, the store is
in order, with all of its messages or none, exactly if the index was not yet dropped or is there
again. -/
theorem clear_stopped_iff (f : OldFile) (past : List StoreCall) (states marks : List Kept)
    (objects : Finset String) (k : Nat) :
    let db := { Run.after Database.step f.file.opened.database past with states, marks }
    let left := (File.opened ⟨File.schemaVersion, objects, db.clearUpTo k⟩).database
    ((∀ calls, Run.trace Database.step left calls = Run.trace Database.step left.rebuilt calls) ∧
      (left.table = db.table ∧ left.states = db.states ∧ left.marks = db.marks ∨
        left.table.rows = [] ∧ left.states = [] ∧ left.marks = [])) ↔ k ≤ 1 ∨ 6 ≤ k := by
  intro db left
  have hafter : (Run.after Database.step f.file.opened.database past).Indexed True :=
    Run.after_induction f.opened_indexed (fun _ _ h => Database.step_indexed h) past
  have hdb : db.Indexed True := ⟨hafter.ordered, hafter.index⟩
  have hleft : left = db.clearUpTo k :=
    congrArg File.database (File.opened_of_current (lt_irrefl _))
  rw [hleft]
  rcases Database.clearUpTo_cases (k := k) hdb with ⟨hk, hindexed, hkept⟩ | ⟨hk, hindex⟩
  · exact ⟨fun _ => hk, fun _ => ⟨fun _ => hindexed.alike_rebuilt.trace, hkept⟩⟩
  · exact ⟨fun h => absurd (h.1 _) (Database.trace_ne_of_index hindex), fun h => absurd h hk⟩

/-- The table of the index is dropped, and then the process ends: nothing can be appended any more,
and nothing found. -/
theorem clear_stopped_loses_index :
    let new := File.opened ⟨0, ∅, {}⟩
    let db := (new.database.step (.work (.append [lineIn "#tea"]))).1
    let left := (File.opened { new with database := db.clearUpTo 2 }).database
    (left.step (.work (.append [lineIn "#tea"]))).2 = .failed ∧
      (left.step (.search none none (some fun _ => true) 10 none)).2 = .failed ∧
      left.table.rows.length = 1 :=
  ⟨rfl, rfl, rfl⟩

end Ddirc.History
