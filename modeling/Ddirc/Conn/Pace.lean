import Mathlib.Tactic.FieldSimp
import Ddirc.Conn.RateLimit

/-! # The rate limit holds

A bucket of exact numbers, asked at any times, in any order. A refill is worth the time since the
latest time that was seen (`refill_eq`), so what is let through is covered by the bucket's contents
and that time, whatever the clock does. The time to wait is counted from there as well, which need
not be the time of the call. -/

namespace Ddirc.Conn.TokenBucket

/-- A call of `try_consume`, or else of `time_until_available`. -/
structure Call where
  takes : Bool
  now : Instant

def call (b : TokenBucket) (c : Call) : TokenBucket × Bool :=
  if c.takes then b.tryConsume id c.now else ((b.timeUntilAvailable id c.now).1, false)

def run (b : TokenBucket) : List Call → TokenBucket × Nat
  | [] => (b, 0)
  | c :: cs => (((b.call c).1.run cs).1, (b.call c).2.toNat + ((b.call c).1.run cs).2)

structure Sound (size : Nat) (rate : ℚ) (b : TokenBucket) : Prop where
  capacity : b.capacity = size
  rate : b.refillPerSec = rate
  nonneg : 0 ≤ b.tokens
  le : b.tokens ≤ size

def worth (rate : ℚ) (time : Nat) : ℚ := time / 10 ^ 9 * rate

variable {b : TokenBucket} {c : Call} {cs : List Call} {now t size early late : Nat} {rate : ℚ}

theorem sound_init (start : Nat) : (init size rate start).Sound size rate :=
  ⟨rfl, rfl, Nat.cast_nonneg _, le_rfl⟩

theorem worth_le (hrate : 0 < rate) (h : now ≤ t) : worth rate now ≤ worth rate t := by
  unfold worth
  gcongr

theorem seconds_id (n : Nat) : seconds id n = n / 10 ^ 9 := by
  simp only [seconds, id]
  field_simp
  exact_mod_cast Nat.div_add_mod' n (10 ^ 9)

theorem refill_eq (h : b.Sound size rate) : b.refill id now =
    { b with
      tokens := min (b.tokens + (worth rate (max b.lastRefill now) - worth rate b.lastRefill)) size
      lastRefill := max b.lastRefill now } := by
  simp only [refill, seconds_id, id]
  rcases lt_or_ge b.lastRefill now with hlt | hle
  · have hcast : (b.lastRefill : ℚ) < now := Nat.cast_lt.2 hlt
    rw [Nat.cast_sub hlt.le, if_pos (div_pos (sub_pos.2 hcast) (by positivity)),
      max_eq_right hlt.le, h.rate, h.capacity, sub_div, sub_mul]
    rfl
  · rw [Nat.sub_eq_zero_of_le hle, if_neg (by simp), max_eq_left hle, sub_self, add_zero,
      min_eq_left h.le]

theorem Sound.refill (hrate : 0 < rate) (h : b.Sound size rate) :
    (b.refill id now).Sound size rate := by
  have hworth := worth_le hrate (le_max_left b.lastRefill now)
  rw [refill_eq h]
  exact ⟨h.capacity, h.rate, le_min (by linarith [h.nonneg]) (Nat.cast_nonneg _), min_le_right _ _⟩

theorem Sound.call (hrate : 0 < rate) (h : b.Sound size rate) (c : Call) :
    (b.call c).1.Sound size rate ∧ (b.call c).1.lastRefill = max b.lastRefill c.now ∧
      (b.call c).2.toNat + (b.call c).1.tokens ≤
        b.tokens + (worth rate (max b.lastRefill c.now) - worth rate b.lastRefill) := by
  have hr : (b.refill id c.now).Sound size rate := h.refill hrate
  have hlast : (b.refill id c.now).lastRefill = max b.lastRefill c.now := by rw [refill_eq h]
  have hpaid : (b.refill id c.now).tokens ≤
      b.tokens + (worth rate (max b.lastRefill c.now) - worth rate b.lastRefill) := by
    rw [refill_eq h]
    exact min_le_left _ _
  unfold TokenBucket.call tryConsume timeUntilAvailable
  dsimp only
  split
  · split
    next hone =>
      refine ⟨⟨hr.capacity, hr.rate, sub_nonneg.2 hone, ?_⟩, hlast, ?_⟩
      · exact (sub_le_self _ zero_le_one).trans hr.le
      · simpa using hpaid
    · exact ⟨hr, hlast, by simpa using hpaid⟩
  · split <;> exact ⟨hr, hlast, by simpa using hpaid⟩

theorem Sound.run (hrate : 0 < rate) (h : b.Sound size rate) (cs : List Call) :
    (b.run cs).1.Sound size rate ∧ b.lastRefill ≤ (b.run cs).1.lastRefill := by
  induction cs generalizing b with
  | nil => exact ⟨h, le_rfl⟩
  | cons c cs ih =>
    obtain ⟨hc, hlast, -⟩ := h.call hrate c
    obtain ⟨hrun, hle⟩ := ih hc
    exact ⟨hrun, (le_max_left _ _).trans (hlast ▸ hle)⟩

/-! ## What is let through -/

theorem taken_le (hrate : 0 < rate) (h : b.Sound size rate) (hlate : ∀ c ∈ cs, c.now ≤ late)
    (hb : b.lastRefill ≤ late) :
    ((b.run cs).2 : ℚ) ≤ b.tokens + (worth rate late - worth rate b.lastRefill) := by
  induction cs generalizing b with
  | nil =>
    have := worth_le hrate hb
    simp only [TokenBucket.run, Nat.cast_zero]
    linarith [h.nonneg]
  | cons c cs ih =>
    obtain ⟨hc, hlast, hpaid⟩ := h.call hrate c
    have hrest := ih hc (fun c hc => hlate c (List.mem_cons_of_mem _ hc))
      (hlast ▸ max_le hb (hlate c List.mem_cons_self))
    rw [hlast] at hrest
    simp only [TokenBucket.run, Nat.cast_add]
    linarith

theorem window_le (hrate : 0 < rate) (h : b.Sound size rate) (hlate : ∀ c ∈ cs, c.now ≤ late)
    (hearly : early ≤ b.lastRefill) :
    ((b.run cs).2 : ℚ) ≤ size + rate * ((late - early : Nat) / 10 ^ 9) := by
  have htaken := taken_le hrate h (fun c hc => le_max_of_le_left (hlate c hc))
    (le_max_right late b.lastRefill)
  have hspan : worth rate (max late b.lastRefill) - worth rate b.lastRefill ≤
      rate * ((late - early : Nat) / 10 ^ 9) := by
    rcases le_total late b.lastRefill with hle | hle
    · rw [max_eq_right hle, sub_self]
      positivity
    · rw [max_eq_left hle, worth, worth, ← sub_mul, ← sub_div, mul_comm,
        Nat.cast_sub (hearly.trans hle)]
      gcongr
  linarith [h.le]

/-- A full bucket might as well have been made at its first call. -/
theorem run_init (hrate : 0 < rate) (start : Nat) (c : Call) (cs : List Call) :
    (init size rate start).run (c :: cs) = (init size rate (max start c.now)).run (c :: cs) := by
  have hrefill : (init size rate start).refill id c.now =
      (init size rate (max start c.now)).refill id c.now := by
    have hworth := worth_le hrate (le_max_left start c.now)
    rw [refill_eq (sound_init _), refill_eq (sound_init _)]
    simp [init, hworth]
  simp only [TokenBucket.run, TokenBucket.call, tryConsume, timeUntilAvailable, hrefill]

/-! ## How long it takes -/

def Due (rate : ℚ) (b : TokenBucket) (t : Nat) : Prop :=
  1 ≤ b.tokens + (worth rate (max b.lastRefill t) - worth rate b.lastRefill)

theorem tryConsume_iff (hsize : 0 < size) (h : b.Sound size rate) :
    (b.tryConsume id t).2 ↔ b.Due rate t := by
  have hone : (1 : ℚ) ≤ size := Nat.one_le_cast.2 hsize
  have hdue : 1 ≤ (b.refill id t).tokens ↔ b.Due rate t := by
    rw [refill_eq h, Due, le_min_iff, and_iff_left hone]
  rw [tryConsume]
  split <;> simp_all

theorem Due.run (hsize : 0 < size) (hrate : 0 < rate) (h : b.Sound size rate)
    (hnone : (b.run cs).2 = 0) (hdue : b.Due rate t) : (b.run cs).1.Due rate t := by
  induction cs generalizing b with
  | nil => exact hdue
  | cons c cs ih =>
    simp only [TokenBucket.run, Nat.add_eq_zero_iff] at hnone
    refine ih (h.call hrate c).1 hnone.2 ?_
    have hcall : (b.call c).1 = b.refill id c.now := by
      have := hnone.1
      unfold TokenBucket.call tryConsume timeUntilAvailable at this ⊢
      dsimp only at this ⊢
      split_ifs at this ⊢ <;> first | rfl | cases this
    have hone : (1 : ℚ) ≤ size := Nat.one_le_cast.2 hsize
    have h₁ := worth_le hrate (le_max_left (max b.lastRefill c.now) t)
    have h₂ := worth_le hrate (max_le_max (le_max_left b.lastRefill c.now) (le_refl t))
    rw [hcall, refill_eq h]
    unfold Due at hdue ⊢
    rcases min_cases (b.tokens + (worth rate (max b.lastRefill c.now) - worth rate b.lastRefill))
      (size : ℚ) with ⟨hmin, -⟩ | ⟨hmin, -⟩
    · linarith
    · linarith

/-- Whoever waits as long as is said at `now` gets a token, unless one is taken meanwhile. -/
def WaitSuffices (b : TokenBucket) (now : Nat) : Prop :=
  ∀ (cs : List Call) (t : Nat), ((b.timeUntilAvailable id now).1.run cs).2 = 0 →
    now + (b.timeUntilAvailable id now).2 * 10 ^ 9 ≤ t →
    (((b.timeUntilAvailable id now).1.run cs).1.tryConsume id t).2 = true

theorem waitSuffices_iff (hsize : 0 < size) (hrate : 0 < rate) (h : b.Sound size rate) (now : Nat) :
    b.WaitSuffices now ↔ 1 ≤ b.tokens ∨ b.lastRefill ≤ now := by
  have hr : (b.refill id now).Sound size rate := h.refill hrate
  have hasked : b.timeUntilAvailable id now = (b.refill id now,
      if 1 ≤ (b.refill id now).tokens then 0 else (1 - (b.refill id now).tokens) / rate) := by
    rw [timeUntilAvailable, ← hr.rate]
    split <;> rfl
  have hdue : b.WaitSuffices now ↔ ∀ t : Nat, now + (b.timeUntilAvailable id now).2 * 10 ^ 9 ≤ t →
      (b.refill id now).Due rate t := by
    simp only [WaitSuffices, hasked]
    constructor
    · intro hall t ht
      exact (tryConsume_iff hsize hr).1 (hall [] t rfl ht)
    · intro hall cs t hnone ht
      exact (tryConsume_iff hsize (hr.run hrate cs).1).2 ((hall t ht).run hsize hrate hr hnone)
  have hsame (hback : ¬b.lastRefill ≤ now) : b.refill id now = b := by
    rw [refill_eq h, max_eq_left (not_le.1 hback).le, sub_self, add_zero, min_eq_left h.le]
  rw [hdue, hasked]
  by_cases hone : 1 ≤ (b.refill id now).tokens
  · refine iff_of_true (fun t _ => ?_) (or_iff_not_imp_right.2 fun hback => hsame hback ▸ hone)
    have := worth_le hrate (le_max_left (b.refill id now).lastRefill t)
    unfold Due
    linarith
  have hshort : 0 < 1 - (b.refill id now).tokens := by linarith
  have hfew : ¬1 ≤ b.tokens := fun hb => hone <| by
    have := worth_le hrate (le_max_left b.lastRefill now)
    rw [refill_eq h]
    exact le_min (by linarith) (Nat.one_le_cast.2 hsize)
  rw [if_neg hone, or_iff_right hfew]
  constructor
  · intro hall
    by_contra hback
    have hbehind : (now : ℚ) + 1 ≤ b.lastRefill := by exact_mod_cast not_le.1 hback
    rw [hsame hback] at hall hshort
    -- the clock is behind by a nanosecond at least, so the time to wait ends too early
    have hceil := Nat.ceil_lt_add_one (a := now + (1 - b.tokens) / rate * 10 ^ 9) (by positivity)
    have hdue := hall _ (Nat.le_ceil _)
    generalize ⌈now + (1 - b.tokens) / rate * 10 ^ 9⌉₊ = t at hceil hdue
    rw [Due] at hdue
    rcases le_total t b.lastRefill with hle | hle
    · rw [max_eq_left hle] at hdue
      linarith
    · have hgain : (t - b.lastRefill : ℚ) / 10 ^ 9 < (1 - b.tokens) / rate := by
        linarith
      rw [max_eq_right hle, worth, worth, ← sub_mul] at hdue
      rw [lt_div_iff₀ hrate] at hgain
      linarith
  · intro hle t ht
    have hworth : (1 - (b.refill id now).tokens) ≤ worth rate t - worth rate now := by
      rw [worth, worth, ← sub_mul, ← sub_div, ← div_le_iff₀ hrate]
      linarith
    have := worth_le hrate (le_max_right now t)
    rw [refill_eq h] at hworth ⊢
    rw [Due]
    rw [max_eq_right hle] at hworth ⊢
    linarith

/-- Whatever the times of the calls, a bucket holds no more than fits and lets through no more than
the rate allows; the time it says to wait is enough exactly if a token is there or the clock has not
gone back. -/
theorem limit_holds_iff (hsize : 0 < size) (hrate : 0 < rate) (start : Nat) (cs : List Call) :
    let b := ((init size rate start).run cs).1
    (0 ≤ b.tokens ∧ b.tokens ≤ size) ∧
    (∀ (window : List Call) (early late : Nat),
      (∀ c ∈ cs ++ window, early ≤ c.now ∧ c.now ≤ late) →
      ((b.run window).2 : ℚ) ≤ size + rate * ((late - early : Nat) / 10 ^ 9)) ∧
    ∀ now, b.WaitSuffices now ↔ 1 ≤ b.tokens ∨ b.lastRefill ≤ now := by
  have hsound := ((@sound_init size rate start).run hrate cs).1
  refine ⟨⟨hsound.nonneg, hsound.le⟩, fun window early late h => ?_, ?_⟩
  · have hlate (c) (hc : c ∈ window) := (h c (List.mem_append_right _ hc)).2
    cases cs with
    | nil =>
      cases window with
      | nil =>
        simp only [TokenBucket.run, Nat.cast_zero]
        positivity
      | cons c window =>
        rw [TokenBucket.run, run_init hrate]
        exact window_le hrate (sound_init _) hlate
          ((h c List.mem_cons_self).1.trans (le_max_right start c.now))
    | cons c cs =>
      rw [run_init hrate]
      obtain ⟨hsound, hlater⟩ := (@sound_init size rate (max start c.now)).run hrate (c :: cs)
      exact window_le hrate hsound hlate
        (((h c List.mem_cons_self).1.trans (le_max_right start c.now)).trans hlater)
  · exact waitSuffices_iff hsize hrate hsound

theorem limit_holds_iff_second :
    ((((init 1 1 0).run [⟨true, 0⟩, ⟨true, 0⟩]).1.run [⟨true, 10 ^ 9⟩]).2 : ℚ) ≤
      (1 : Nat) + 1 * ((10 ^ 9 - 0 : Nat) / 10 ^ 9) :=
  (limit_holds_iff Nat.one_pos one_pos 0 _).2.1 _ 0 (10 ^ 9) (by decide)

/-- The clock goes back ten seconds; the bucket says to wait for one, and that is not enough. -/
theorem not_waitSuffices_back :
    ¬((init 1 1 (10 * 10 ^ 9)).run [⟨true, 10 * 10 ^ 9⟩]).1.WaitSuffices 0 := fun h =>
  absurd (h [] (10 ^ 9) rfl (by decide +kernel)) (by decide +kernel)

end Ddirc.Conn.TokenBucket
