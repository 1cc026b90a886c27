import Ddirc.Server.Roster
import Ddirc.Client.Names

/-! # The roll of a channel, on the server's side

What a client should show of a channel it is in: its members under their folded nicks, each with its
spelling and its rank. How the roll changes when someone enters, leaves, is renamed or is given a
rank, and that the names a server lists are the roll. -/

namespace Ddirc.Server.Roster
open Irc Function Option
open Ddirc.Client (Roll View Sayable shownName)

variable {r r' : Roster} {room room' : Room} {i j id : ClientId} {nick : String}

def nickAt (r : Roster) (id : ClientId) : Option String := (r.clients id).bind (·.nick)

theorem nickOf_of_nickAt (h : r.nickAt id = some nick) : r.nickOf id = nick := by
  rw [nickOf, show (r.clients id).bind (·.nick) = some nick from h]
  rfl

theorem nickAt_modifyClient (hf : ∀ c, (f c).nick = c.nick) :
    (r.modifyClient id f).nickAt j = r.nickAt j := by
  simp only [nickAt, modifyClient, update_apply]
  split
  next hj =>
    subst hj
    cases r.clients j with
    | none => rfl
    | some c => exact hf c
  · rfl

theorem registered_of_modifyClient (h : (r.modifyClient id f).clients i = some c')
    (hf : ∀ c, (f c).registered = c.registered) :
    ∃ c, r.clients i = some c ∧ c'.registered = c.registered := by
  rcases modifyClient_eq_some.1 h with ⟨rfl, c, hc, rfl⟩ | ⟨-, hc⟩
  · exact ⟨c, hc, hf c⟩
  · exact ⟨c', hc, rfl⟩

def roll (r : Roster) (room : Room) : Roll := fun k =>
  ((r.nicks k).filter (· ∈ room.members)).map fun j => (r.nickOf j, decide (j ∈ room.operators))

theorem Consistent.nicks_eq_some (H : r.Consistent) :
    r.nicks k = some j ↔ ∃ n, r.nickAt j = some n ∧ fold n = k := by
  rw [H.nicks_iff]
  constructor
  · rintro ⟨c, n, hc, hn, hk⟩
    exact ⟨n, by simp [nickAt, hc, hn], hk⟩
  · rintro ⟨n, hn, hk⟩
    obtain ⟨c, hc, hn⟩ := bind_eq_some_iff.1 hn
    exact ⟨c, n, hc, hn, hk⟩

/-- No two clients hold nicks that fold to the same. -/
theorem Consistent.nickAt_inj (H : r.Consistent) (hi : r.nickAt i = some n)
    (hj : r.nickAt j = some n') (hfold : fold n = fold n') : i = j := by
  have hi' := H.nicks_eq_some.2 ⟨n, hi, rfl⟩
  have hj' := H.nicks_eq_some.2 ⟨n', hj, hfold.symm⟩
  exact some.inj (hi'.symm.trans hj')

theorem Consistent.roll_eq_some (H : r.Consistent) : r.roll room k = some v ↔
    ∃ j ∈ room.members, r.nickAt j = some v.1 ∧ fold v.1 = k ∧
      v.2 = decide (j ∈ room.operators) := by
  simp only [roll, map_eq_some_iff, filter_eq_some_iff, H.nicks_eq_some,
    decide_eq_true_eq]
  constructor
  · rintro ⟨j, ⟨⟨n, hn, hk⟩, hj⟩, rfl⟩
    rw [nickOf_of_nickAt hn]
    exact ⟨j, hj, hn, hk, rfl⟩
  · rintro ⟨j, hj, hn, hk, hop⟩
    refine ⟨j, ⟨⟨v.1, hn, hk⟩, hj⟩, ?_⟩
    rw [nickOf_of_nickAt hn, ← hop]

theorem Consistent.roll_of_mem (H : r.Consistent) (hj : j ∈ room.members)
    (hn : r.nickAt j = some nick) :
    r.roll room (fold nick) = some (nick, decide (j ∈ room.operators)) :=
  H.roll_eq_some.2 ⟨j, hj, hn, rfl, rfl⟩

theorem Consistent.roll_eq_none (H : r.Consistent) (hid : r.nickAt id = some nick)
    (hnot : id ∉ room.members) : r.roll room (fold nick) = none := by
  rw [eq_none_iff_forall_ne_some]
  intro v hv
  obtain ⟨j, hj, hn, hk, -⟩ := H.roll_eq_some.1 hv
  exact hnot (H.nickAt_inj hn hid hk ▸ hj)

/-- Two rolls agree where they differ at most in `id` and the name is not `id`'s. -/
theorem Consistent.roll_agree (H : r.Consistent) (H' : r'.Consistent) (id : ClientId)
    (hk : ∀ n, r.nickAt id = some n → fold n ≠ k) (hk' : ∀ n, r'.nickAt id = some n → fold n ≠ k)
    (hmem : ∀ j ≠ id, j ∈ room'.members ↔ j ∈ room.members)
    (hop : ∀ j ≠ id, j ∈ room'.operators ↔ j ∈ room.operators)
    (hn : ∀ j ≠ id, j ∈ room.members → r'.nickAt j = r.nickAt j) :
    r'.roll room' k = r.roll room k := by
  ext v
  rw [H'.roll_eq_some, H.roll_eq_some]
  constructor
  · rintro ⟨j, hj, hnick, hfold, hrank⟩
    have hne : j ≠ id := by
      rintro rfl
      exact hk' v.1 hnick hfold
    have hj' := (hmem j hne).1 hj
    refine ⟨j, hj', by rw [← hn j hne hj', hnick], hfold, ?_⟩
    simpa only [hop j hne] using hrank
  · rintro ⟨j, hj, hnick, hfold, hrank⟩
    have hne : j ≠ id := by
      rintro rfl
      exact hk v.1 hnick hfold
    refine ⟨j, (hmem j hne).2 hj, by rw [hn j hne hj, hnick], hfold, ?_⟩
    simpa only [hop j hne] using hrank

/-- A roll is settled by the nicks of the members and their ranks. -/
theorem Consistent.roll_congr (H : r.Consistent) (H' : r'.Consistent)
    (hn : ∀ j ∈ room.members, r'.nickAt j = r.nickAt j) : r'.roll room = r.roll room := by
  funext k
  ext v
  rw [H'.roll_eq_some, H.roll_eq_some]
  refine exists_congr fun j => and_congr_right fun hj => ?_
  rw [hn j hj]

/-! ## The changes -/

theorem Step.nickAt (h : Step r l r') (hn : r'.nickAt i = some nick) :
    r.nickAt i = some nick ∨ l = .claim nick ∧ validNick nick := by
  obtain ⟨c', hc', hn⟩ := bind_eq_some_iff.1 hn
  have hold {c} (hc : r.clients i = some c) (hsame : c'.nick = c.nick) : r.nickAt i = some nick :=
    bind_eq_some_iff.2 ⟨c, hc, hsame ▸ hn⟩
  cases h.became i with
  | connected hc =>
    cases hc'.symm.trans hc
    cases hn
  | registered hc _ _ hc'' =>
    cases hc'.symm.trans hc''
    exact .inl (hold hc rfl)
  | kept _ hkept =>
    obtain ⟨c, hc, -, hsame | ⟨new, rfl, hv, hnew⟩⟩ := hkept c' hc'
    · exact .inl (hold hc hsame)
    · obtain rfl := some.inj (hnew.symm.trans hn)
      exact .inr ⟨rfl, hv⟩

theorem Consistent.roll_insert (H : r.Consistent) (H' : r'.Consistent)
    (hnick : r'.nickAt id = some nick) (hsame : ∀ j, r'.nickAt j = r.nickAt j)
    (hops : room'.operators = room.operators) (hmem : room'.members = insert id room.members)
    (hnot : id ∉ room.operators) :
    r'.roll room' = update (r.roll room) (fold nick) (some (nick, false)) := by
  funext k
  rw [update_apply]
  split
  next hk =>
    have hid : id ∈ room'.members := by simp [hmem]
    rw [hk, H'.roll_of_mem hid hnick, hops]
    simp [hnot]
  next hk =>
    have hown (n) (hn : r'.nickAt id = some n) : fold n ≠ k := by
      obtain rfl := some.inj (hnick.symm.trans hn)
      exact Ne.symm hk
    refine H.roll_agree H' _ (fun n hn => hown n (by rw [hsame, hn])) hown ?_ ?_ fun j _ _ =>
      hsame j
    · intro j hne
      simp [hmem, hne]
    · intro j _
      rw [hops]

theorem Consistent.roll_without (H : r.Consistent) (H' : r'.Consistent)
    (hnick : r.nickAt id = some nick) (hsame : ∀ j ≠ id, r'.nickAt j = r.nickAt j)
    (hown : ∀ n, r'.nickAt id = some n → n = nick) :
    r'.roll (room.without id) = update (r.roll room) (fold nick) none := by
  funext k
  rw [update_apply]
  split
  next hk =>
    rw [eq_none_iff_forall_ne_some]
    intro v hv
    obtain ⟨j, hj, hn, hfold, -⟩ := H'.roll_eq_some.1 hv
    obtain ⟨hne, -⟩ := Finset.mem_erase.1 hj
    rw [hsame j hne] at hn
    exact hne (H.nickAt_inj hn hnick (hfold.trans hk))
  next hk =>
    refine H.roll_agree H' id ?_ ?_ ?_ ?_ fun j hne _ => hsame j hne
    · intro n hn
      obtain rfl := some.inj (hnick.symm.trans hn)
      exact Ne.symm hk
    · intro n hn
      rw [hown n hn]
      exact Ne.symm hk
    · intro j hne
      simp [Room.without, hne]
    · intro j hne
      simp [Room.without, hne]

theorem Consistent.roll_rename (H : r.Consistent) (H' : r'.Consistent) (hid : id ∈ room.members)
    (hold : r.nickAt id = some old) (hnick : r'.nickAt id = some nick)
    (hsame : ∀ j ≠ id, r'.nickAt j = r.nickAt j) :
    r'.roll room = ((View.mk (r.roll room) b).rename (fold old) (fold nick) nick).roll := by
  simp only [View.rename, H.roll_of_mem hid hold]
  funext k
  rw [update_apply]
  split
  next hk => rw [hk, H'.roll_of_mem hid hnick]
  next hk =>
    rw [update_apply]
    split
    next hk' =>
      rw [eq_none_iff_forall_ne_some]
      intro v hv
      obtain ⟨j, hj, hn, hfold, -⟩ := H'.roll_eq_some.1 hv
      have hne : j ≠ id := by
        rintro rfl
        obtain rfl := some.inj (hnick.symm.trans hn)
        exact hk hfold.symm
      rw [hsame j hne] at hn
      exact hne (H.nickAt_inj hn hold (hfold.trans hk'))
    next hk' =>
      refine H.roll_agree H' id ?_ ?_ (fun _ _ => .rfl) (fun _ _ => .rfl)
        fun j hne _ => hsame j hne
      · intro n hn
        obtain rfl := some.inj (hold.symm.trans hn)
        exact Ne.symm hk'
      · intro n hn
        obtain rfl := some.inj (hnick.symm.trans hn)
        exact Ne.symm hk

theorem Consistent.roll_mark (H : r.Consistent) (H' : r'.Consistent) (hid : id ∈ room.members)
    (hnick : r.nickAt id = some nick) (hsame : ∀ j, r'.nickAt j = r.nickAt j) (give : Bool)
    (hmem : room'.members = room.members)
    (hops : room'.operators = if give then insert id room.operators else room.operators.erase id) :
    r'.roll room' = ((View.mk (r.roll room) b).mark (fold nick) give).roll := by
  simp only [View.mark, H.roll_of_mem hid hnick]
  funext k
  rw [update_apply]
  split
  next hk =>
    rw [hk, H'.roll_of_mem (hmem ▸ hid) (by rw [hsame, hnick]), hops]
    cases give <;> simp
  next hk =>
    have hown (n) (hn : r.nickAt id = some n) : fold n ≠ k := by
      obtain rfl := some.inj (hnick.symm.trans hn)
      exact Ne.symm hk
    refine H.roll_agree H' _ hown (fun n hn => hown n (by rw [← hsame, hn])) ?_ ?_ fun j _ _ =>
      hsame j
    · intro j _
      rw [hmem]
    · intro j hne
      rw [hops]
      cases give <;> simp [hne]

/-! ## The names listed -/

/-- The names of a channel, in whatever order, are its roll. -/
theorem Consistent.names_eq (H : r.Consistent)
    (hsay : ∀ j ∈ room.members, ∀ n, r.nickAt j = some n → Sayable n) :
    ∃ l : List (String × Bool), r.names room = l.map (fun p => shownName p.1 p.2) ∧
      (∀ p ∈ l, Sayable p.1) ∧ (l.map fun p => fold p.1).Nodup ∧ l.length ≤ room.members.card ∧
      ∀ k v, r.roll room k = some v ↔ v ∈ l ∧ fold v.1 = k := by
  let entry (j : ClientId) : Option (String × Bool) :=
    (r.nickAt j).map fun n => (n, decide (j ∈ room.operators))
  have hnames : ((r.names room : List String) : Multiset String) =
      (room.members.val.filterMap entry).map fun p => shownName p.1 p.2 := by
    rw [names, coe_sorted, Multiset.map_filterMap]
    refine congrArg (Multiset.filterMap · _) (funext fun j => ?_)
    rw [map_map]
    refine congrArg (Option.map · _) (funext fun n => ?_)
    by_cases hj : j ∈ room.operators <;> simp [shownName]
  obtain ⟨l, hl, hlist⟩ := exists_map_eq hnames
  have hmem (v : String × Bool) : v ∈ l ↔
      ∃ j ∈ room.members, r.nickAt j = some v.1 ∧ v.2 = decide (j ∈ room.operators) := by
    rw [← Multiset.mem_coe, hl, Multiset.mem_filterMap]
    refine exists_congr fun j => and_congr_right fun _ => ?_
    obtain ⟨n, b⟩ := v
    simp only [entry, map_eq_some_iff, Prod.mk.injEq]
    constructor
    · rintro ⟨n', hn, rfl, rfl⟩
      exact ⟨hn, rfl⟩
    · rintro ⟨hn, rfl⟩
      exact ⟨n, hn, rfl, rfl⟩
  refine ⟨l, hlist.symm, ?_, ?_, ?_, ?_⟩
  · intro p hp
    obtain ⟨j, hj, hn, -⟩ := (hmem p).1 hp
    exact hsay j hj p.1 hn
  · have hkeys : ((l.map fun p => fold p.1 : List String) : Multiset String) =
        room.members.val.filterMap fun j => (r.nickAt j).map fold := by
      rw [← Multiset.map_coe, hl, Multiset.map_filterMap]
      refine congrArg (Multiset.filterMap · _) (funext fun j => ?_)
      rw [map_map]
      rfl
    rw [← Multiset.coe_nodup, hkeys]
    refine Multiset.Nodup.filterMap _ ?_ room.members.nodup
    rintro i j k hi hj
    obtain ⟨n, hn, rfl⟩ := map_eq_some_iff.1 hi
    obtain ⟨n', hn', hk⟩ := map_eq_some_iff.1 hj
    exact H.nickAt_inj hn hn' hk.symm
  · have hcard : l.length = (room.members.val.filterMap entry).card := by rw [← hl]; rfl
    have hle (s : Multiset ClientId) : (s.filterMap entry).card ≤ s.card :=
      Quot.inductionOn s fun l => List.length_filterMap_le entry l
    rw [hcard]
    exact hle _
  · intro k v
    rw [H.roll_eq_some, hmem]
    constructor
    · rintro ⟨j, hj, hn, hk, hop⟩
      exact ⟨⟨j, hj, hn, hop⟩, hk⟩
    · rintro ⟨⟨j, hj, hn, hop⟩, hk⟩
      exact ⟨j, hj, hn, hk, hop⟩

end Ddirc.Server.Roster
