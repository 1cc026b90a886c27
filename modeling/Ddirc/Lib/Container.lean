import Mathlib.Data.List.Induction
import Mathlib.Tactic.Linarith

/-! # Containers

Files that are a sequence of elements, each of which says how long it is. A `Grammar` gives the
bytes of an element and which elements close the container; `Grammar.Reads` relates a file's bytes
to its elements. No element's bytes begin another's, so a file is read in one way
(`Grammar.Reads.unique`). -/

namespace Ddirc

/-! ## Numbers of fixed width -/

namespace Bytes
variable {k n m : Nat} {bs : List α}

def be : Nat → Nat → List UInt8
  | 0, _ => []
  | k + 1, n => be k (n / 256) ++ [UInt8.ofNat n]

def ofBe (bs : List UInt8) : Nat := bs.foldl (fun n b => n * 256 + b.toNat) 0

def le (k n : Nat) : List UInt8 := (be k n).reverse

def ofLe (bs : List UInt8) : Nat := ofBe bs.reverse

@[simp] theorem length_be (k n : Nat) : (be k n).length = k := by
  induction k generalizing n with
  | zero => rfl
  | succ k ih => simp [be, ih]

@[simp] theorem length_le (k n : Nat) : (le k n).length = k := by simp [le]

theorem ofBe_concat (bs : List UInt8) (b : UInt8) : ofBe (bs ++ [b]) = ofBe bs * 256 + b.toNat := by
  simp [ofBe]

theorem ofBe_lt (bs : List UInt8) : ofBe bs < 256 ^ bs.length := by
  induction bs using List.reverseRecOn with
  | nil => decide
  | append_singleton bs b ih =>
    have := b.toNat_lt
    rw [ofBe_concat, List.length_append, List.length_singleton]
    omega

theorem be_ofBe (bs : List UInt8) : be bs.length (ofBe bs) = bs := by
  induction bs using List.reverseRecOn with
  | nil => rfl
  | append_singleton bs b ih =>
    have hb := b.toNat_lt
    have hdiv : (ofBe bs * 256 + b.toNat) / 256 = ofBe bs := by omega
    have hmod : UInt8.ofNat (ofBe bs * 256 + b.toNat) = b := by
      apply UInt8.toNat.inj
      simp only [UInt8.toNat_ofNat']
      omega
    rw [ofBe_concat, List.length_append, List.length_singleton, be, hdiv, hmod, ih]

theorem ofBe_be (h : n < 256 ^ k) : ofBe (be k n) = n := by
  induction k generalizing n with
  | zero =>
    have : n = 0 := by omega
    subst this
    rfl
  | succ k ih =>
    have hdiv : n / 256 < 256 ^ k := by
      omega
    rw [be, ofBe_concat, ih hdiv, UInt8.toNat_ofNat']
    omega

theorem be_inj (hn : n < 256 ^ k) (hm : m < 256 ^ k) (h : be k n = be k m) : n = m := by
  rw [← ofBe_be hn, h, ofBe_be hm]

theorem ofLe_lt (bs : List UInt8) : ofLe bs < 256 ^ bs.length := by
  simpa [ofLe] using ofBe_lt bs.reverse

theorem le_ofLe (bs : List UInt8) : le bs.length (ofLe bs) = bs := by
  have := be_ofBe bs.reverse
  rw [List.length_reverse] at this
  rw [le, ofLe, this, List.reverse_reverse]

theorem ofLe_le (h : n < 256 ^ k) : ofLe (le k n) = n := by
  rw [ofLe, le, List.reverse_reverse, ofBe_be h]

theorem le_inj (hn : n < 256 ^ k) (hm : m < 256 ^ k) (h : le k n = le k m) : n = m := by
  rw [← ofLe_le hn, h, ofLe_le hm]

/-- `slice::get` with a range. -/
def get (bs : List α) (a b : Nat) : Option (List α) :=
  if b ≤ bs.length then some ((bs.take b).drop a) else none

theorem get_eq_some (h : get bs a b = some x) : x = (bs.take b).drop a ∧ b ≤ bs.length := by
  unfold get at h
  split at h
  next hle => exact ⟨(Option.some.inj h).symm, hle⟩
  · cases h

theorem length_get (h : get bs a b = some x) : x.length = b - a := by
  obtain ⟨rfl, hle⟩ := get_eq_some h
  simp [Nat.min_eq_left hle]

theorem exists_append {l : List α} (h : n ≤ l.length) : ∃ a b, a.length = n ∧ l = a ++ b :=
  ⟨l.take n, l.drop n, by simp [h], (List.take_append_drop n l).symm⟩

end Bytes

/-! ## Elements -/

/-- How the elements of a container are written, and which of them close it. -/
structure Grammar (E : Type u) (B : Type v) where
  bytes : E → List B
  closes : E → Bool
  nonempty : ∀ e, bytes e ≠ []
  unambiguous : ∀ a b x y, bytes a ++ x = bytes b ++ y → a = b

namespace Grammar

variable {E : Type u} {B : Type v} (g : Grammar E B)

/-- The input is the elements in order, up to its end or to the first element that closes the
container; `tail` is what follows that one. -/
inductive Reads : List B → List E → List B → Prop where
  | done : Reads [] [] []
  | close : g.closes e = true → Reads (g.bytes e ++ tail) [e] tail
  | next : g.closes e = false → Reads input es tail → Reads (g.bytes e ++ input) (e :: es) tail

variable {g}

theorem Reads.input_eq (h : g.Reads input es tail) : input = es.flatMap g.bytes ++ tail := by
  induction h with
  | done => rfl
  | close _ => simp
  | next _ _ ih => simp [← ih]

theorem Reads.unique (h : g.Reads input es tail) (h' : g.Reads input es' tail') :
    es = es' ∧ tail = tail' := by
  induction h generalizing es' with
  | done =>
    generalize hin : ([] : List B) = input at h'
    cases h' with
    | done => exact ⟨rfl, rfl⟩
    | close _ | next _ _ => exact absurd (List.append_eq_nil_iff.1 hin.symm).1 (g.nonempty _)
  | @close e tail hclose =>
    generalize hin : g.bytes e ++ tail = input at h'
    cases h' with
    | done => exact absurd (List.append_eq_nil_iff.1 hin).1 (g.nonempty _)
    | close _ =>
      cases g.unambiguous _ _ _ _ hin
      exact ⟨rfl, List.append_cancel_left hin⟩
    | next hopen _ =>
      cases g.unambiguous _ _ _ _ hin
      rw [hclose] at hopen
      cases hopen
  | @next e input es tail hopen _ ih =>
    generalize hin : g.bytes e ++ input = whole at h'
    cases h' with
    | done => exact absurd (List.append_eq_nil_iff.1 hin).1 (g.nonempty _)
    | close hclose =>
      cases g.unambiguous _ _ _ _ hin
      rw [hclose] at hopen
      cases hopen
    | next _ hrest =>
      cases g.unambiguous _ _ _ _ hin
      rw [← List.append_cancel_left hin] at hrest
      obtain ⟨rfl, rfl⟩ := ih hrest
      exact ⟨rfl, rfl⟩

/-- Elements may be left out or rewritten, as long as the one that closes the container stays, and
what follows it may be cut off. -/
theorem Reads.filterMap (hclose : ∀ e, g.closes e →
      ∃ e', f e = some e' ∧ g.closes e')
    (hopen : ∀ e e', g.closes e = false → f e = some e' → g.closes e' = false)
    (htail : tail' = [] ∨ tail' = tail) (h : g.Reads input es tail) :
    g.Reads ((es.filterMap f).flatMap g.bytes ++ tail') (es.filterMap f) tail' := by
  induction h with
  | done =>
    obtain rfl : tail' = [] := by simpa using htail
    exact .done
  | close hc =>
    obtain ⟨e', he, hc'⟩ := hclose _ hc
    rw [List.filterMap_cons_some he, List.filterMap_nil, List.flatMap_singleton]
    exact .close hc'
  | @next e _ _ _ ho _ ih =>
    cases he : f e with
    | none => simpa [List.filterMap_cons_none he] using ih htail
    | some e' =>
      rw [List.filterMap_cons_some he, List.flatMap_cons, List.append_assoc]
      exact .next (hopen _ _ ho he) (ih htail)

end Grammar

end Ddirc
