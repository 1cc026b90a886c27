import Mathlib.Algebra.Group.Int.Defs
import Ddirc.Lib.Str

/-! # Server times

`parse_server_time`: the moment that a server puts in a tag, in milliseconds. The year is as long as
it likes, and nothing bounds it before it is multiplied: every number on the way is one of 64 bits
just up to a day in August of the year 292278994 (`inRange_iff`). -/

namespace Ddirc.Conn
open Option

def parseI64 (s : String) : Option Int :=
  match Str.stripChar '-' s with
  | none => (Str.parseUnsigned 63 s).map Int.ofNat
  | some digits =>
    if Str.startsWith digits '+' then none
    else ((Str.parseUnsigned 64 digits).filter (· ≤ 2 ^ 63)).map fun n => -n

structure Stamp where
  year : Int
  month : Int
  day : Int
  hour : Int
  minute : Int
  second : Int
  millis : Nat

namespace Stamp

section
variable (t : Stamp)

def isValid : Bool :=
  (1 ≤ t.month && t.month ≤ 12) && (1 ≤ t.day && t.day ≤ 31) && (0 ≤ t.hour && t.hour ≤ 23) &&
    (0 ≤ t.minute && t.minute ≤ 59) && (0 ≤ t.second && t.second ≤ 60)

def y : Int := if t.month ≤ 2 then t.year - 1 else t.year

def era : Int := t.y / 400

def yoe : Int := t.y - t.era * 400

def mp : Int := (t.month + 9) % 12

def doy : Int := (153 * t.mp + 2) / 5 + t.day - 1

def doe : Int := t.yoe * 365 + t.yoe / 4 - t.yoe / 100 + t.doy

def days : Int := t.era * 146097 + t.doe - 719468

def minutes : Int := (t.days * 24 + t.hour) * 60 + t.minute

def total : Int := t.minutes * 60000 + t.second * 1000 + t.millis

/-- Every sum, difference and product on the way, in their order. -/
def values : List Int :=
  [t.y, t.era * 400, t.yoe, t.month + 9, 153 * t.mp, 153 * t.mp + 2, (153 * t.mp + 2) / 5 + t.day,
    t.doy, t.yoe * 365, t.yoe * 365 + t.yoe / 4, t.yoe * 365 + t.yoe / 4 - t.yoe / 100, t.doe,
    t.era * 146097, t.era * 146097 + t.doe, t.days, t.days * 24, t.days * 24 + t.hour,
    (t.days * 24 + t.hour) * 60, t.minutes, t.minutes * 60000, t.second * 1000,
    t.minutes * 60000 + t.second * 1000, t.total]

def fields : List Int := [t.year, t.month, t.day, t.hour, t.minute, t.second, t.millis]

/-- None of them is out of the range of an `i64`. -/
def InRange : Prop := ∀ n ∈ t.values, -2 ^ 63 ≤ n ∧ n < 2 ^ 63

instance : Decidable t.InRange := inferInstanceAs (Decidable (∀ n ∈ t.values, _))

end

/-- The last moment whose milliseconds fit in an `i64`: 292278994-08-17T07:12:55.807Z. -/
def lastFields : List Int := [292278994, 8, 17, 7, 12, 55, 807]

/-- A moment is not after another: the first field in which they differ is smaller. -/
def NotAfter : List Int → List Int → Prop
  | n :: ns, m :: ms => n < m ∨ n = m ∧ NotAfter ns ms
  | _, _ => True

def stripZ (value : String) : Option String :=
  if Str.endsWith value "Z" then some (String.ofList value.toList.dropLast) else none

/-- The numbers of a date or a clock: `splitn(3, c)`, each parsed. -/
def readThree (c : Char) (s : String) : Option (Int × Int × Int) := do
  let (first, rest) ← Str.splitOnce c s
  let (second, third) ← Str.splitOnce c rest
  return (← parseI64 first, ← parseI64 second, ← parseI64 third)

/-- The milliseconds, filled up with zeros to three digits, of which there are no more. -/
def readMillis (fraction : String) : Option Nat :=
  if fraction.isEmpty || !fraction.toList.all Char.isDigit then none
  else Str.parseUnsigned 63 (Str.takeChars 3 (fraction ++ "00"))

def read (value : String) : Option Stamp := do
  let value ← stripZ value
  let (date, time) ← Str.splitOnce 'T' value
  let (year, month, day) ← readThree '-' date
  let (clock, fraction) := (Str.splitOnce '.' time).getD (time, "0")
  let (hour, minute, second) ← readThree ':' clock
  let millis ← readMillis fraction
  some { year, month, day, hour, minute, second, millis : Stamp } |>.filter isValid

end Stamp

/-- `parse_server_time`, where no number is too big. -/
def parseServerTime (value : String) : Option Int := (Stamp.read value).map (·.total)

namespace Stamp
variable {t : Stamp}

theorem nonneg_of_readThree (h : readThree '-' s = some r) : 0 ≤ r.1 := by
  obtain ⟨⟨first, rest⟩, hsplit, h⟩ := bind_eq_some_iff.1 h
  obtain ⟨_, -, h⟩ := bind_eq_some_iff.1 h
  obtain ⟨n, hn, h⟩ := bind_eq_some_iff.1 h
  obtain ⟨_, -, h⟩ := bind_eq_some_iff.1 h
  obtain ⟨_, -, h⟩ := bind_eq_some_iff.1 h
  obtain rfl := some.inj h
  have hnone : Str.stripChar '-' first = none := by
    unfold Str.splitOnce at hsplit
    split at hsplit
    · obtain ⟨rfl, -⟩ := Prod.mk.inj (some.inj hsplit)
      rw [Str.stripChar]
      cases s.toList with
      | nil => rfl
      | cons c l => by_cases hc : c = '-' <;> simp [hc]
    · cases hsplit
  rw [parseI64, hnone] at hn
  obtain ⟨m, -, rfl⟩ := map_eq_some_iff.1 hn
  exact Int.natCast_nonneg m

theorem foldl_digits_lt {l : List Char} (h : l.all Char.isDigit) (n : Nat) :
    l.foldl (fun n c => 10 * n + (c.toNat - '0'.toNat)) n < (n + 1) * 10 ^ l.length := by
  induction l generalizing n with
  | nil => simp
  | cons c l ih =>
    obtain ⟨hc, hl⟩ := Bool.and_eq_true_iff.1 h
    have hdigit : c.toNat - '0'.toNat ≤ 9 := by
      have hc : c.toNat ≤ 57 := (Bool.and_eq_true_iff.1 hc).2 |> of_decide_eq_true
      exact Nat.sub_le_sub_right hc 48
    calc _ < (10 * n + (c.toNat - '0'.toNat) + 1) * 10 ^ l.length := ih hl _
      _ ≤ (n + 1) * 10 * 10 ^ l.length := Nat.mul_le_mul_right _ (by omega)
      _ = _ := by rw [List.length_cons, Nat.pow_succ', Nat.mul_assoc]

theorem parseUnsigned_lt (h : Str.parseUnsigned bits s = some n) : n < 10 ^ s.toList.length := by
  have hlength : ((Str.stripChar '+' s).getD s).toList.length ≤ s.toList.length := by
    unfold Str.stripChar
    split
    next hs => split <;> simp [hs]
    · exact le_rfl
  unfold Str.parseUnsigned at h
  dsimp only at h
  split at h
  · cases h
  next hdigits =>
  rw [Bool.or_eq_true, not_or, Bool.not_eq_true', Bool.not_eq_false] at hdigits
  split at h
  · cases h
    have hlt := foldl_digits_lt hdigits.2 0
    rw [Nat.zero_add, Nat.one_mul] at hlt
    exact hlt.trans_le (Nat.pow_le_pow_right (by decide) hlength)
  · cases h

theorem readMillis_lt (h : readMillis s = some n) : n < 1000 := by
  unfold readMillis at h
  split at h
  · cases h
  · refine (parseUnsigned_lt h).trans_le (Nat.pow_le_pow_right (n := 10) (by decide) (j := 3) ?_)
    rw [Str.takeChars, String.toList_ofList]
    exact List.length_take_le ..

theorem of_read (h : read value = some t) : t.isValid ∧ 0 ≤ t.year ∧ t.millis < 1000 := by
  obtain ⟨_, -, h⟩ := bind_eq_some_iff.1 h
  obtain ⟨_, -, h⟩ := bind_eq_some_iff.1 h
  obtain ⟨_, hdate, h⟩ := bind_eq_some_iff.1 h
  obtain ⟨_, -, h⟩ := bind_eq_some_iff.1 h
  obtain ⟨_, hmillis, h⟩ := bind_eq_some_iff.1 h
  obtain ⟨hfields, hvalid⟩ := filter_eq_some_iff.1 h
  obtain rfl := some.inj hfields
  exact ⟨hvalid, nonneg_of_readThree hdate, readMillis_lt hmillis⟩

/-- The milliseconds are the largest of the numbers that grow with the year. -/
theorem inRange_of_total (hvalid : t.isValid) (hyear : 0 ≤ t.year) (h : t.total < 2 ^ 63) :
    t.InRange := by
  simp only [isValid, Bool.and_eq_true, decide_eq_true_eq] at hvalid
  have hy : -1 ≤ t.y := by
    unfold y
    split <;> omega
  have hera : -1 ≤ t.era ∧ t.y = t.era * 400 + t.yoe ∧ 0 ≤ t.yoe ∧ t.yoe < 400 := by
    unfold yoe era
    omega
  have hmp : 0 ≤ t.mp ∧ t.mp < 12 := by
    unfold mp
    omega
  have hdoy : 0 ≤ t.doy ∧ t.doy < 400 := by
    unfold doy
    omega
  have hdoe : 0 ≤ t.doe ∧ t.doe < 200000 := by
    unfold doe
    omega
  simp only [minutes, total, days] at h
  simp only [InRange, values, List.forall_mem_cons, List.not_mem_nil, false_implies, implies_true,
    and_true, minutes, total, days]
  and_intros <;> omega

theorem total_lt_iff (hvalid : t.isValid) (hyear : 0 ≤ t.year) (hmillis : t.millis < 1000) :
    t.total < 2 ^ 63 ↔ NotAfter t.fields lastFields := by
  simp only [isValid, Bool.and_eq_true, decide_eq_true_eq] at hvalid
  -- `z` counts the days of the years before `t.y`, which begin in March.
  obtain ⟨z, hdays, hz⟩ : ∃ z, t.days = z + t.doy - 719468 ∧
      (t.y ≤ 292278993 → z ≤ 106752710101) ∧ (t.y = 292278994 → z = 106752710466) ∧
      (292278995 ≤ t.y → 106752710831 ≤ z) := by
    refine ⟨t.era * 146097 + (t.yoe * 365 + t.yoe / 4 - t.yoe / 100), ?_, ?_⟩
    · simp only [days, doe]
      omega
    · simp only [yoe, era]
      have : t.y / 400 < 730697 ∨ t.y / 400 = 730697 ∨ 730697 < t.y / 400 := by omega
      omega
  have hmonth : (3 ≤ t.month → t.y = t.year ∧ t.mp = t.month - 3) ∧
      (t.month ≤ 2 → t.y = t.year - 1 ∧ t.mp = t.month + 9) := by
    simp only [y, mp]
    split <;> omega
  have hdoy : (t.mp < 5 → t.doy ≤ 152) ∧ (t.mp = 5 → t.doy = 152 + t.day) ∧
      (5 < t.mp → 184 ≤ t.doy) ∧ 0 ≤ t.doy ∧ t.doy < 400 := by
    simp only [doy]
    omega
  simp only [fields, lastFields, NotAfter, and_true, total, minutes, hdays]
  omega

/-- Every number on the way is in range just if the date is not past the last moment. -/
theorem inRange_iff (value : String) :
    (∀ t ∈ read value, t.InRange) ↔ ∀ t ∈ read value, NotAfter t.fields lastFields := by
  refine forall₂_congr fun t ht => ?_
  obtain ⟨hvalid, hyear, hmillis⟩ := of_read ht
  rw [← total_lt_iff hvalid hyear hmillis]
  exact ⟨fun h => (h t.total (by simp [values])).2, inRange_of_total hvalid hyear⟩

/-- The year 300000000, at its beginning. -/
theorem not_inRange_far : ¬∀ t ∈ read "300000000-01-01T00:00:00Z", t.InRange := by
  decide +kernel

example : parseServerTime "2026-09-30T12:34:56.7Z" = some 1790771696700 := by decide +kernel

end Stamp

end Ddirc.Conn
