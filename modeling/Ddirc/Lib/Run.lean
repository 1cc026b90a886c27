import Mathlib.Data.List.Basic
import Mathlib.Data.List.Induction

/-! # Runs of deterministic machines

A machine is a function `step : σ → ι → σ × ο`: the state reached on an input and what the step
emits. `Run.after` is the state after a list of inputs and `Run.trace` the inputs, each with the
output it drew. The `n`-th entry of a trace is one step from the state after `n` inputs
(`Run.trace_getElem?`), so trace properties reduce to invariants
(`Run.after_induction`, `Run.after_history`). -/

namespace Ddirc.Run
open List
variable {t : List α}

variable {σ ι ο : Type*} (step : σ → ι → σ × ο)

def after (s : σ) (is : List ι) : σ := is.foldl (fun s i => (step s i).1) s

/-- The inputs of a run, each with what it made the machine emit. -/
def trace : σ → List ι → List (ι × ο)
  | _, [] => []
  | s, i :: is => (i, (step s i).2) :: trace (step s i).1 is

@[simp] theorem after_nil (s : σ) : after step s [] = s := rfl

@[simp] theorem after_cons :
    after step s (i :: is) = after step (step s i).1 is := rfl

@[simp] theorem after_append (s : σ) (is js : List ι) :
    after step s (is ++ js) = after step (after step s is) js := foldl_append

@[simp] theorem trace_nil (s : σ) : trace step s [] = [] := rfl

@[simp] theorem trace_cons :
    trace step s (i :: is) = (i, (step s i).2) :: trace step (step s i).1 is := rfl

@[simp] theorem trace_length (s : σ) (is : List ι) : (trace step s is).length = is.length := by
  induction is generalizing s with
  | nil => rfl
  | cons i is ih => simp [ih]

theorem trace_append :
    trace step s (is ++ js) = trace step s is ++ trace step (after step s is) js := by
  induction is generalizing s with
  | nil => rfl
  | cons i is ih => simp [ih]

/-- The `n`-th entry of a trace is one step from the state after the first `n` inputs. -/
theorem trace_getElem? (s : σ) (is : List ι) (n : Nat) :
    (trace step s is)[n]? = is[n]?.map fun i => (i, (step (after step s (is.take n)) i).2) := by
  induction is generalizing s n with
  | nil => simp
  | cons i is ih =>
    cases n with
    | zero => simp
    | succ n => simpa using ih _ n

theorem trace_getElem?_eq_some :
    (trace step s is)[n]? = some x ↔
      is[n]? = some x.1 ∧ (step (after step s (is.take n)) x.1).2 = x.2 := by
  rw [trace_getElem?, Option.map_eq_some_iff]
  constructor
  · rintro ⟨i, hi, rfl⟩
    exact ⟨hi, rfl⟩
  · rintro ⟨hi, hx⟩
    exact ⟨x.1, hi, by rw [hx]⟩

/-- The run up to `b` passes through the step taken at an earlier input. -/
theorem after_take_of_lt (s : σ) {is : List ι} (ha : is[a]? = some i) (hab : a < b) :
    after step s (is.take b) =
      after step (step (after step s (is.take a)) i).1 ((is.take b).drop (a + 1)) := by
  obtain ⟨hlt, hi⟩ := List.getElem?_eq_some_iff.1 ha
  have htake : is.take b = is.take a ++ i :: (is.take b).drop (a + 1) := by
    conv_lhs => rw [← take_append_drop a (is.take b)]
    rw [take_take, Nat.min_eq_left (Nat.le_of_lt hab), drop_eq_getElem_cons (by simp; omega)]
    simp [hi]
  conv_lhs => rw [htake]
  rw [after_append, after_cons]

theorem trace_take :
    trace step s (is.take n) = (trace step s is).take n := by
  induction is generalizing s n with
  | nil => simp
  | cons i is ih =>
    cases n with
    | zero => rfl
    | succ n => simp [ih]

variable {step}

/-- An invariant that holds at the start and is kept by every step holds after every run. -/
theorem after_induction {P : σ → Prop} {s : σ} (h0 : P s) (hs : ∀ s i, P s → P (step s i).1)
    (is : List ι) : P (after step s is) := by
  induction is generalizing s with
  | nil => exact h0
  | cons i is ih => exact ih (hs s i h0)

/-- The same rule for an invariant that relates the state to the inputs taken so far. -/
theorem after_history {P : List ι → σ → Prop} {s : σ} (h0 : P [] s)
    (hs : ∀ is i, P is (after step s is) → P (is ++ [i]) (step (after step s is) i).1)
    (is : List ι) : P is (after step s is) := by
  induction is using List.reverseRecOn with
  | nil => exact h0
  | append_singleton is i ih => simpa using hs is i ih

/-! ## Conditions on the inputs of a run -/

variable (step)

/-- Each input finds the state it comes to as `P` asks. -/
def Along (P : σ → ι → Prop) : σ → List ι → Prop
  | _, [] => True
  | s, i :: is => P s i ∧ Along P (step s i).1 is

instance Along.decidable {P : σ → ι → Prop} [∀ s i, Decidable (P s i)] :
    (s : σ) → (is : List ι) → Decidable (Along step P s is)
  | _, [] => instDecidableTrue
  | s, i :: is => @instDecidableAnd _ _ _ (Along.decidable (step s i).1 is)

variable {step}

theorem along_append :
    Along step P s (is ++ js) ↔ Along step P s is ∧ Along step P (after step s is) js := by
  induction is generalizing s with
  | nil => simp [Along]
  | cons i is ih => rw [cons_append, Along, Along, ih, after_cons, and_assoc]

/-- An invariant that holds at the start and is kept by every step taken as `P` asks holds after the
run, and what each such step shows of its output holds of every entry of the trace. -/
theorem Along.shown {P : σ → ι → Prop} {I : σ → Prop} {Q : ι × ο → Prop} {s : σ} {is : List ι}
    (h0 : I s) (hs : ∀ s i, I s → P s i → I (step s i).1 ∧ Q (i, (step s i).2))
    (h : Along step P s is) : I (after step s is) ∧ ∀ x ∈ trace step s is, Q x := by
  induction is generalizing s with
  | nil => exact ⟨h0, by simp⟩
  | cons i is ih =>
    obtain ⟨hI, hQ⟩ := hs s i h0 h.1
    obtain ⟨hafter, htrace⟩ := ih hI h.2
    exact ⟨hafter, forall_mem_cons.2 ⟨hQ, htrace⟩⟩

theorem Along.induction {P : σ → ι → Prop} {I : σ → Prop} {s : σ} {is : List ι}
    (h : Along step P s is) (h0 : I s) (hs : ∀ s i, I s → P s i → I (step s i).1) :
    I (after step s is) :=
  (h.shown (Q := fun _ => True) h0 fun s i hI hP => ⟨hs s i hI hP, trivial⟩).1

/-- Every input finds the invariant, and what is asked of it. -/
theorem Along.before {P : σ → ι → Prop} {I : σ → Prop} {s : σ} {front rest : List ι} {i : ι}
    (h : Along step P s (front ++ i :: rest)) (h0 : I s)
    (hs : ∀ s i, I s → P s i → I (step s i).1) :
    I (after step s front) ∧ P (after step s front) i :=
  have ⟨hfront, hi, _⟩ := along_append.1 h
  ⟨hfront.induction h0 hs, hi⟩

/-- The same rule for an invariant that relates the state to the inputs taken so far. -/
theorem Along.history {P : σ → ι → Prop} {I : List ι → σ → Prop} {s : σ} {is : List ι} (h0 : I [] s)
    (hs : ∀ is i, I is (after step s is) → P (after step s is) i →
      I (is ++ [i]) (step (after step s is) i).1)
    (h : Along step P s is) : I is (after step s is) := by
  induction is using List.reverseRecOn with
  | nil => exact h0
  | append_singleton is i ih =>
    obtain ⟨hfront, hlast⟩ := along_append.1 h
    simpa using hs is i (ih hfront) hlast.1

/-- Inputs that do nothing where they come can be taken out of a run. -/
theorem Along.filter {step : σ → ι → σ × List ο} {P : σ → ι → Prop} {keep : ι → Bool} {s : σ}
    {is : List ι} (hP : ∀ s i, P s i → keep i = false → step s i = (s, []))
    (h : Along step P s is) : after step s (is.filter keep) = after step s is ∧
      (trace step s (is.filter keep)).flatMap Prod.snd = (trace step s is).flatMap Prod.snd := by
  induction is generalizing s with
  | nil => exact ⟨rfl, rfl⟩
  | cons i is ih =>
    obtain ⟨hafter, htrace⟩ := ih h.2
    cases hkeep : keep i with
    | true =>
      rw [filter_cons_of_pos hkeep, trace_cons, trace_cons, flatMap_cons, htrace]
      exact ⟨hafter, rfl⟩
    | false =>
      have hstep := hP s i h.1 hkeep
      rw [hstep] at hafter htrace
      rw [filter_cons_of_neg (by rw [hkeep]; exact Bool.false_ne_true), after_cons, trace_cons,
        flatMap_cons, hstep]
      exact ⟨hafter, htrace⟩

/-! ## Events of a trace -/

def At (t : List α) (n : Nat) (p : α → Prop) : Prop := ∃ x, t[n]? = some x ∧ p x

theorem At.append (h : At t n p) (u : List α) : At (t ++ u) n p := by
  obtain ⟨x, hx, hp⟩ := h
  exact ⟨x, by rw [List.getElem?_append_left (List.getElem?_eq_some_iff.1 hx).1, hx], hp⟩

theorem At.lt_length (h : At t n p) : n < t.length := by
  obtain ⟨x, hx, -⟩ := h
  exact (List.getElem?_eq_some_iff.1 hx).1

theorem At.last (t : List α) (x : α) (h : p x) : At (t ++ [x]) t.length p :=
  ⟨x, by simp, h⟩

theorem At.of_take (h : At (t.take m) n p) : At t n p := by
  obtain ⟨x, hx, hp⟩ := h
  rw [List.getElem?_take] at hx
  split at hx
  · exact ⟨x, hx, hp⟩
  · cases hx

end Ddirc.Run
