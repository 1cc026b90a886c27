import Ddirc.App.Request

/-! # The channels a session holds

A channel conversation is opened by an event that names the channel, closed by our own departure
and by nothing else. -/

namespace Ddirc.App
open Api

def closes : IrcEvent → Option String
  | .parted channel _ true _ => some channel
  | _ => none

namespace Session

def held (s : Session) : List String :=
  ((Map.values s.conversations).filter (·.isChannel)).map (·.name)

theorem mem_held {s : Session} : n ∈ s.held ↔
    ∃ k c, s.conversations.lookup k = some c ∧ c.isChannel ∧ c.name = n := by
  simp only [held, Map.values, List.mem_map, List.mem_filter]
  constructor
  · rintro ⟨c, ⟨⟨e, he, rfl⟩, hch⟩, hn⟩
    exact ⟨e.1, e.2, Map.mem_entries_iff.1 he, hch, hn⟩
  · rintro ⟨k, c, hc, hch, hn⟩
    exact ⟨c, ⟨⟨⟨k, c⟩, Map.mem_entries_iff.2 hc, rfl⟩, hch⟩, hn⟩

theorem within_held (s : Session) : Within (· ∈ s.held) s := fun k c hc hch =>
  mem_held.2 ⟨k, c, hc, hch, rfl⟩

variable {env : Env} {P Q : String → Prop} {s : Session}

namespace Within

theorem of_mem_held (h : Within P s) (hn : n ∈ s.held) : P n := by
  obtain ⟨k, c, hc, hch, rfl⟩ := mem_held.1 hn
  exact h k c hc hch

theorem mono (h : Within P s) (hPQ : ∀ n, P n → Q n) : Within Q s := fun k c hc hch =>
  hPQ _ (h k c hc hch)

theorem lookup_close :
    (s.close env name).conversations.lookup k =
      if k = key env name then none else s.conversations.lookup k := by
  unfold Session.close
  split <;> exact Map.lookup_erase ..

theorem close (h : Within P s)
    (hfiled : ∀ k c, s.conversations.lookup k = some c → key env c.name = k) :
    Within (fun n => P n ∧ key env n ≠ key env name) (s.close env name) := by
  intro k c hc hch
  rw [lookup_close] at hc
  split at hc
  · cases hc
  next hk => exact ⟨h k c hc hch, hfiled k c hc ▸ hk⟩

end Within

/-- Where everybody is let in and everything selected, only the lists and the names are left, and
every step keeps them. -/
theorem Safe.kept (h : Safe env Set.univ Set.univ s) (hwithin : Within P s) (i : Input)
    (hm : ∀ now e, i = .event now e → ∀ n ∈ mentions e, P n) :
    Kept env Set.univ Set.univ P (s.step env i).1 := by
  have hall : ∀ k, answerable (fun _ => true) s k := fun k => by simp [answerable]
  have hplaced : ∀ name, placed env (fun _ => true) s name := fun name => by simp [placed]
  refine (Kept.step ⟨h, hwithin⟩ (fun _ (_ : true) => trivial) ?_ (fun _ _ => trivial)
    (fun _ _ => trivial) hm).1
  unfold allowed
  repeat' split
  all_goals simp [hall, hplaced, Option.all_eq_true]

theorem Safe.always (h : Safe env Set.univ Set.univ s) (i : Input) :
    Safe env Set.univ Set.univ (s.step env i).1 :=
  (h.kept (P := fun _ => True) (fun _ _ _ _ => trivial) i fun _ _ _ _ _ => trivial).toSafe

end Session

end Ddirc.App
