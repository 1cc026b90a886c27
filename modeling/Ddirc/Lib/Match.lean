import Mathlib.Data.List.Infix

/-! # A word in a text

`str::match_indices` goes through a text from the left and passes over what a match covers, so it
never sees the second of two occurrences that overlap. A search for an occurrence that stands by
itself can miss it, unless there is always part of a word before it (`Unbroken`). -/

namespace Ddirc.Match
open List

variable {word : α → Bool} {w front rest text : List α}

/-- Neither what comes before ends, nor what comes after begins, with part of a word. -/
def apart (word : α → Bool) (front back : List α) : Bool :=
  !front.getLast?.any word && !back.head?.any word

/-- `w` stands by itself somewhere in a text. -/
def Stands (word : α → Bool) (w text : List α) : Prop :=
  ∃ front back, text = front ++ (w ++ back) ∧ apart word front back = true

/-- Wherever `w` overlaps itself, part of a word comes before the second. -/
def Unbroken (word : α → Bool) (w : List α) : Prop :=
  w ≠ [] ∧ ∀ k < w.length, 0 < k → w.drop k <+: w → (w.take k).getLast?.any word = true

instance [DecidableEq α] : Decidable (Unbroken word w) := inferInstanceAs (Decidable (_ ∧ _))

/-- Before the second of two occurrences that overlap there is part of a word. -/
theorem Unbroken.getLast? (hw : Unbroken word w) (h : x ++ (w ++ y) = g ++ (w ++ z))
    (hlt : g.length < x.length) (hover : x.length < g.length + w.length) :
    x.getLast?.any word := by
  obtain ⟨a, rfl, htail⟩ : ∃ a, x = g ++ a ∧ w ++ z = a ++ (w ++ y) := by
    rcases append_eq_append_iff.1 h with ⟨a, rfl, -⟩ | h
    · rw [length_append] at hlt
      omega
    · exact h
  rw [length_append] at hlt hover
  have htake : w.take a.length = a := by
    have := congrArg (take a.length) htail
    rwa [take_append_of_le_length (by omega), take_left] at this
  have hdrop : w.drop a.length ++ z = w ++ y := by
    have := congrArg (drop a.length) htail
    rwa [drop_append_of_le_length (by omega), drop_left] at this
  have hlast := hw.2 a.length (by omega) (by omega) (prefix_of_prefix_length_le
    ⟨z, hdrop⟩ (prefix_append w y) (by rw [length_drop]; omega))
  rw [htake] at hlast
  rwa [getLast?_append_of_ne_nil _ (ne_nil_of_length_pos (by omega))]

section
variable [DecidableEq α]

/-- The matches of `w`, from the left, by what comes before each and what comes after it. The first
`skip` characters of what is left belong to the last match. -/
def matchesFrom (w : List α) : (skip : Nat) → (front rest : List α) → List (List α × List α)
  | _, _, [] => []
  | skip + 1, front, c :: rest => matchesFrom w skip (front ++ [c]) rest
  | 0, front, c :: rest =>
    if w.isPrefixOf (c :: rest) then
      (front, (c :: rest).drop w.length) :: matchesFrom w (w.length - 1) (front ++ [c]) rest
    else matchesFrom w 0 (front ++ [c]) rest

def hasWord (word : α → Bool) (w text : List α) : Bool :=
  !w.isEmpty && (matchesFrom w 0 [] text).any fun (front, back) => apart word front back

theorem append_of_mem_matchesFrom (h : p ∈ matchesFrom w skip front rest) :
    front ++ rest = p.1 ++ (w ++ p.2) := by
  induction rest generalizing skip front with
  | nil =>
    cases h
  | cons c rest ih =>
    have hnext {skip} (h : p ∈ matchesFrom w skip (front ++ [c]) rest) :
        front ++ c :: rest = p.1 ++ (w ++ p.2) := (append_cons ..).trans (ih h)
    cases skip with
    | succ skip => exact hnext h
    | zero =>
      rw [matchesFrom] at h
      split at h
      next hw =>
        rcases mem_cons.1 h with rfl | h
        · exact congrArg (front ++ ·) (prefix_iff_eq_append.1 ( isPrefixOf_iff_prefix.1 hw)).symm
        · exact hnext h
      · exact hnext h

/-- An occurrence that does not come after part of a word is a match. -/
theorem mem_matchesFrom (hw : Unbroken word w) (hx : x.getLast?.any word = false)
    (htext : front ++ rest = x ++ (w ++ y)) (hle : front.length ≤ x.length)
    (hskip : 0 < skip → ∃ g z, front ++ rest = g ++ (w ++ z) ∧ g.length < front.length ∧
      front.length + skip = g.length + w.length) : (x, y) ∈ matchesFrom w skip front rest := by
  have hpos := length_pos_iff.2 hw.1
  induction rest generalizing skip front with
  | nil =>
    have := congrArg length htext
    simp only [length_append, length_nil] at this
    omega
  | cons c rest ih =>
    rw [append_cons] at htext
    have hnext {skip} (hlt : front.length < x.length)
        (hskip : 0 < skip → ∃ g z, front ++ [c] ++ rest = g ++ (w ++ z) ∧
          g.length < front.length + 1 ∧ front.length + 1 + skip = g.length + w.length) :
        (x, y) ∈ matchesFrom w skip (front ++ [c]) rest :=
      ih htext (by rw [length_append]; exact hlt) (by rwa [length_append])
    cases skip with
    | succ skip =>
      obtain ⟨g, z, hg, hlt, hlen⟩ := hskip (Nat.succ_pos skip)
      rw [append_cons] at hg
      rcases hle.eq_or_lt with heq | hle
      · rw [hw.getLast? (htext.symm.trans hg) (heq ▸ hlt) (by omega)] at hx
        cases hx
      · exact hnext hle fun _ => ⟨g, z, hg, by omega, by omega⟩
    | zero =>
      rw [matchesFrom]
      rcases hle.eq_or_lt with heq | hle
      · rw [← append_cons] at htext
        obtain ⟨rfl, hrest⟩ := append_inj htext heq
        rw [hrest, if_pos ( isPrefixOf_iff_prefix.2 (prefix_append w y)), drop_left]
        exact mem_cons_self
      · split
        next hp =>
          obtain ⟨z, hz⟩ := isPrefixOf_iff_prefix.1 hp
          refine mem_cons_of_mem _ (hnext hle fun _ => ⟨front, z, ?_, by omega, by omega⟩)
          rw [hz, ← append_cons]
        · exact hnext hle fun h => absurd h (Nat.lt_irrefl 0)

theorem hasWord_iff (hw : Unbroken word w) : hasWord word w text ↔ Stands word w text := by
  have hempty : w.isEmpty = false := isEmpty_eq_false_iff.2 hw.1
  rw [hasWord, hempty, Bool.not_false, Bool.true_and, any_eq_true]
  constructor
  · rintro ⟨p, hp, hapart⟩
    exact ⟨p.1, p.2, append_of_mem_matchesFrom hp, hapart⟩
  · rintro ⟨x, y, htext, hapart⟩
    refine ⟨(x, y), mem_matchesFrom hw ?_ htext (Nat.zero_le _) nofun, hapart⟩
    rw [apart, Bool.and_eq_true, Bool.not_eq_true'] at hapart
    exact hapart.1

/-! ## What is missed -/

theorem matchesFrom_eq_nil (h : rest.length < skip + w.length) :
    matchesFrom w skip front rest = [] := by
  induction rest generalizing skip front with
  | nil => rw [matchesFrom]
  | cons c rest ih =>
    rw [length_cons] at h
    cases skip with
    | succ skip => exact ih (by omega)
    | zero =>
      rw [matchesFrom, if_neg fun hw => ?_]
      · exact ih (by omega)
      · have := ( isPrefixOf_iff_prefix.1 hw).length_le
        rw [length_cons] at this
        omega

/-- Otherwise an occurrence is missed, in a text of no characters but those of the word and two
others. -/
theorem exists_missed (hx : word x) (hy : word y) (hxy : x ≠ y)
    (h : ¬Unbroken word w) : ∃ text, (∀ c ∈ text, c = x ∨ c = y ∨ c ∈ w) ∧ Stands word w text ∧
      hasWord word w text = false := by
  cases w with
  | nil => exact ⟨[], nofun, ⟨[], [], rfl, rfl⟩, rfl⟩
  | cons c w =>
    obtain ⟨k, hk, hpos, hover, hlast⟩ : ∃ k, k < (c :: w).length ∧ 0 < k ∧
        (c :: w).drop k <+: c :: w ∧ ((c :: w).take k).getLast?.any word = false := by
      by_contra hnot
      refine h ⟨cons_ne_nil c w, fun k hk hpos hover => ?_⟩
      by_contra hlast
      exact hnot ⟨k, hk, hpos, hover, Bool.eq_false_iff.2 hlast⟩
    -- the first of the two follows another part of a word
    obtain ⟨z, hz, hword, hne⟩ : ∃ z, (z = x ∨ z = y) ∧ word z ∧ z ≠ c := by
      by_cases hc : x = c
      · exact ⟨y, .inr rfl, hy, fun he => hxy (hc.trans he.symm)⟩
      · exact ⟨x, .inl rfl, hx, hc⟩
    have hfirst : (c :: w).isPrefixOf ((c :: w).take k ++ c :: w) := by
      obtain ⟨back, hback⟩ := hover
      refine isPrefixOf_iff_prefix.2 ⟨back, ?_⟩
      calc c :: w ++ back = (c :: w).take k ++ ((c :: w).drop k ++ back) := by
            rw [← append_assoc, take_append_drop]
        _ = (c :: w).take k ++ c :: w := by rw [hback]
    have hmatches : matchesFrom (c :: w) 0 [] (z :: ((c :: w).take k ++ c :: w)) =
        [([z], ((c :: w).take k ++ c :: w).drop (c :: w).length)] := by
      rw [matchesFrom, if_neg (by simp [hne.symm])]
      cases hr : (c :: w).take k ++ c :: w with
      | nil => simp at hr
      | cons d rest =>
        have hlen := congrArg length hr
        rw [length_append, length_take, length_cons, length_cons] at hlen
        rw [hr] at hfirst
        rw [matchesFrom, if_pos hfirst, matchesFrom_eq_nil]
        · rfl
        · rw [length_cons] at hk ⊢
          omega
    refine ⟨z :: ((c :: w).take k ++ c :: w), ?_, ⟨z :: (c :: w).take k, [], by simp, ?_⟩, ?_⟩
    · intro d hd
      rcases mem_cons.1 hd with rfl | hd
      · exact hz.imp_right .inl
      · exact .inr (.inr ((mem_append.1 hd).elim mem_of_mem_take id))
    · rw [apart, getLast?_cons_of_ne_nil (ne_nil_of_length_pos (by simp; omega)), hlast]
      rfl
    · rw [hasWord, hmatches]
      simp [apart, hword]

/-- A search for a word, whatever its case, finds it in every text where it stands by itself exactly
if it is unbroken. -/
theorem hasWord_iff_unbroken (lower : α → List α) (hlower : ∀ c, ∀ d ∈ lower c, lower d = [d])
    (hx : lower x = [x] ∧ word x) (hy : lower y = [y] ∧ word y) (hxy : x ≠ y)
    (w : List α) :
    (∀ text : List α, hasWord word (w.flatMap lower) (text.flatMap lower) ↔
      Stands word (w.flatMap lower) (text.flatMap lower)) ↔ Unbroken word (w.flatMap lower) := by
  refine ⟨fun h => ?_, fun hw text => hasWord_iff hw⟩
  by_contra hw
  obtain ⟨text, hchars, hstands, hmissed⟩ := exists_missed hx.2 hy.2 hxy hw
  have htext : text.flatMap lower = text := by
    refine Eq.trans (flatMap_congr fun c hc => ?_) (flatMap_singleton' text)
    rcases hchars c hc with rfl | rfl | hc
    · exact hx.1
    · exact hy.1
    · obtain ⟨b, -, hb⟩ := mem_flatMap.1 hc
      exact hlower b c hb
  have hfound := (h text).2 (htext.symm ▸ hstands)
  rw [htext, hmissed] at hfound
  cases hfound

end

end Ddirc.Match
