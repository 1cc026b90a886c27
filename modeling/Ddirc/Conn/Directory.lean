import Ddirc.Lib.Run
import Ddirc.Lib.Sort
import Ddirc.Lib.Str

/-! # The directory of channels

What a `LIST` in progress has collected: the busiest channels only, sorted and cut no more often
than every hundredth reply and whenever the user is shown what there is. That is the beginning of
all the channels told of so far, sorted. -/

namespace Ddirc.Conn

structure ChannelListing where
  name : String
  users : Nat
  topic : String
  deriving Repr, DecidableEq

def maxListKept : Nat := 100

/-- What a `LIST` in progress has collected; `Listing.seen` counts its replies. -/
structure ChannelDirectory where
  kept : List ChannelListing := []
  truncated : Bool := false
  /-- The count at the last progress report. -/
  reportedAt : Nat := 0
  deriving Repr, DecidableEq

namespace ChannelDirectory

/-- The busiest first, and those that are equally busy by name. -/
def before (a b : ChannelListing) : Prop :=
  b.users < a.users ∨ (a.users = b.users ∧ Str.bytes a.name ≤ Str.bytes b.name)

instance (a b : ChannelListing) : Decidable (before a b) :=
  inferInstanceAs (Decidable (b.users < a.users ∨ (a.users = b.users ∧ _)))

def compact (d : ChannelDirectory) : ChannelDirectory :=
  let sorted := d.kept.insertionSort before
  { d with
    kept := sorted.take maxListKept
    truncated := d.truncated || decide (maxListKept < sorted.length) }

def push (d : ChannelDirectory) (entry : ChannelListing) : ChannelDirectory :=
  let d := { d with kept := d.kept ++ [entry] }
  if maxListKept * 2 ≤ d.kept.length then d.compact else d

def snapshot (d : ChannelDirectory) : ChannelDirectory × List ChannelListing :=
  (d.compact, d.compact.kept)

instance : Std.Total before where
  total a b := by
    rcases Nat.lt_trichotomy a.users b.users with h | h | h
    · exact .inr (.inl h)
    · exact (List.le_total (Str.bytes a.name) (Str.bytes b.name)).imp (fun hle => .inr ⟨h, hle⟩)
        fun hle => .inr ⟨h.symm, hle⟩
    · exact .inl (.inl h)

instance : IsTrans ChannelListing before where
  trans a b c := by
    rintro (hab | ⟨hab, hle⟩) (hbc | ⟨hbc, hle'⟩)
    · exact .inl (by omega)
    · exact .inl (by omega)
    · exact .inl (by omega)
    · exact .inr ⟨hab.trans hbc, List.le_trans hle hle'⟩

/-! ## Against sorting everything -/

inductive Move where
  | push (entry : ChannelListing)
  | snapshot

def step (d : ChannelDirectory) : Move → ChannelDirectory × Option (List ChannelListing)
  | .push entry => (d.push entry, none)
  | .snapshot => (d.snapshot.1, some d.snapshot.2)

def told (moves : List Move) : List ChannelListing :=
  moves.flatMap fun
    | .push entry => [entry]
    | .snapshot => []

/-- A directory that can stand for all the channels told of. -/
structure Stands (all : List ChannelListing) (d : ChannelDirectory) : Prop where
  top : (d.kept.insertionSort before).take maxListKept =
    (all.insertionSort before).take maxListKept
  whole : d.truncated = false → d.kept.length = all.length
  cut : d.truncated = true → maxListKept < all.length

theorem Stands.compact (h : Stands all d) : Stands all d.compact where
  top := by
    have := take_insertionSort_append (r := before) maxListKept d.kept []
    rw [List.append_nil, List.append_nil] at this
    exact this.trans h.top
  whole hcut := by
    obtain ⟨hd, hlen⟩ :
        d.truncated = false ∧ ¬ maxListKept < (d.kept.insertionSort before).length := by
      simpa [ChannelDirectory.compact] using hcut
    rw [ChannelDirectory.compact, List.length_take, Nat.min_eq_right (by omega),
      List.length_insertionSort, h.whole hd]
  cut hcut := by
    cases hd : d.truncated with
    | true => exact h.cut hd
    | false =>
      have hlen : maxListKept < (d.kept.insertionSort before).length := by
        simpa [ChannelDirectory.compact, hd] using hcut
      rwa [List.length_insertionSort, h.whole hd] at hlen

theorem Stands.push (h : Stands all d) (entry : ChannelListing) :
    Stands (all ++ [entry]) (d.push entry) := by
  have hmore : Stands (all ++ [entry]) { d with kept := d.kept ++ [entry] } := by
    refine ⟨?_, fun hcut => ?_, fun hcut => ?_⟩
    · rw [← take_insertionSort_append _ d.kept, h.top, take_insertionSort_append]
    · rw [List.length_append, List.length_append, h.whole hcut]
    · exact (h.cut hcut).trans_le (by simp)
  unfold ChannelDirectory.push
  dsimp only
  split
  · exact hmore.compact
  · exact hmore

theorem stands_after (moves : List Move) : Stands (told moves) (Run.after step {} moves) := by
  refine Run.after_history (P := fun moves d => Stands (told moves) d)
    ⟨rfl, fun _ => rfl, fun h => Bool.noConfusion h⟩ (fun moves move h => ?_) moves
  rw [told, List.flatMap_append, List.flatMap_singleton]
  cases move with
  | push entry => exact h.push entry
  | snapshot =>
    rw [List.append_nil]
    exact h.compact

/-- Whatever was shown before, what is shown is the beginning of all the channels told of, sorted,
and it is called cut exactly when there are more. -/
theorem snapshot_eq_top (moves : List Move) :
    let d := Run.after step {} moves
    d.snapshot.2 = ((told moves).insertionSort before).take maxListKept ∧
      (d.snapshot.1.truncated = true ↔ maxListKept < (told moves).length) := by
  intro d
  have h := stands_after moves
  refine ⟨h.top, h.compact.cut, fun hlen => ?_⟩
  by_contra hcut
  have hwhole := h.compact.whole (Bool.eq_false_iff.2 hcut)
  have hkept : d.compact.kept.length ≤ maxListKept := List.length_take_le _ _
  exact absurd (hwhole ▸ hkept) (by omega)

end ChannelDirectory

end Ddirc.Conn
