import Mathlib.Data.List.Basic

/-! # The message store

`store/mod.rs`: the table of lines, and the calls that add to it and take from it. Each call is one
transaction, so that one that fails leaves the table as it was; only `clear` is not, and can fail
when the rows are gone. Of a line the columns are kept that some call reads; the text stands for the
others. -/

namespace Ddirc.History

def maxRows : Nat := 2000000

structure Line where
  /-- How many lines were recorded before it. Nothing reads this. -/
  number : Nat
  profileId : String
  conversation : String
  sender : Option String := none
  msgid : Option String := none
  text : String := ""
  deriving Repr, DecidableEq

structure Row where
  id : Nat
  line : Line
  deriving Repr, DecidableEq

structure Table where
  rows : List Row := []
  /-- The largest id that was ever given. -/
  lastId : Nat := 0
  deriving Repr, DecidableEq

namespace Table
variable {t : Table} {r : Row} {lines : List Line}

/-- The same message of the same conversation, as the unique index has it. -/
def holds (t : Table) (line : Line) : Bool :=
  line.msgid.isSome && t.rows.any fun r =>
    r.line.profileId = line.profileId && r.line.conversation = line.conversation &&
      r.line.msgid = line.msgid

/-- `INSERT OR IGNORE`. A line that is ignored uses up an id as well. -/
def insert (t : Table) (line : Line) : Table :=
  { rows := if t.holds line then t.rows else t.rows ++ [{ id := t.lastId + 1, line }]
    lastId := t.lastId + 1 }

/-- Drop the oldest lines once the table is over its ceiling. -/
def prune (t : Table) : Table :=
  match (t.rows.map (·.id)).max? with
  | none => t
  | some highest => { t with rows := t.rows.filter fun r => !(r.id + maxRows ≤ highest) }

def append (t : Table) (lines : List Line) : Table := (lines.foldl insert t).prune

def delete (t : Table) (gone : Line → Bool) : Table :=
  { t with rows := t.rows.filter fun r => !gone r.line }

theorem mem_insert (h : r ∈ (t.insert line).rows) : r ∈ t.rows ∨ r.line = line := by
  simp only [insert] at h
  split at h
  · exact .inl h
  · rw [List.mem_append, List.mem_singleton] at h
    rcases h with h | rfl
    · exact .inl h
    · exact .inr rfl

theorem mem_prune (h : r ∈ t.prune.rows) : r ∈ t.rows := by
  unfold prune at h
  split at h
  · exact h
  · exact (List.mem_filter.1 h).1

theorem mem_foldl_insert (h : r ∈ (lines.foldl insert t).rows) : r ∈ t.rows ∨ r.line ∈ lines := by
  induction lines generalizing t with
  | nil => exact .inl h
  | cons line lines ih =>
    rcases ih h with h | h
    · rcases mem_insert h with h | rfl
      · exact .inl h
      · exact .inr List.mem_cons_self
    · exact .inr (List.mem_cons_of_mem _ h)

theorem mem_append (h : r ∈ (t.append lines).rows) :
    r ∈ t.rows ∨ r.line ∈ lines := mem_foldl_insert (mem_prune h)

theorem mem_delete : r ∈ (t.delete gone).rows ↔ r ∈ t.rows ∧ gone r.line = false := by
  simp [delete]

end Table

/-! ## Calls -/

inductive Work where
  | append (lines : List Line)
  | clear
  | forget (profileId conversation : String)
  | forgetProfile (profileId : String)
  | removeLine (profileId conversation msgid sender : String)
  deriving Repr, DecidableEq

namespace Work
variable {work : Work} {t : Table}

def deletes : Work → Line → Bool
  | .append _, _ => false
  | .clear, _ => true
  | .forget profileId conversation, l => l.profileId = profileId && l.conversation = conversation
  | .forgetProfile profileId, l => l.profileId = profileId
  | .removeLine profileId conversation msgid sender, l =>
    l.profileId = profileId && l.conversation = conversation && l.msgid = some msgid &&
      l.sender = some sender

def run (work : Work) (t : Table) : Table :=
  match work with
  | .append lines => t.append lines
  | work => t.delete work.deletes

def fail (work : Work) (late : Bool) (t : Table) : Table :=
  if work = .clear ∧ late then t.delete work.deletes else t

def adds : Work → List Line
  | .append lines => lines
  | _ => []

theorem mem_run (h : r ∈ (work.run t).rows) :
    r ∈ t.rows ∧ work.deletes r.line = false ∨ r.line ∈ work.adds := by
  cases work with
  | append lines =>
    rcases Table.mem_append h with h | h
    · exact .inl ⟨h, rfl⟩
    · exact .inr h
  | _ => exact .inl (Table.mem_delete.1 h)

theorem mem_fail (h : r ∈ (work.fail late t).rows) : r ∈ t.rows := by
  unfold fail at h
  split at h
  · exact (Table.mem_delete.1 h).1
  · exact h

end Work
end Ddirc.History
