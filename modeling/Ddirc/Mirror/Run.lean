import Ddirc.Mirror.Enter

/-! # Sessions follow any number of steps

Two kinds of run: one that lets nobody into a channel, where channels only shrink, and the joins of
one client, where they only grow and the channels its session tracks are those it tracked and those
it asked for. -/

namespace Ddirc.Server
open Irc Function Option Finset
open Ddirc.Client (Session Roll View Sayable maxMembers maxChannels)

namespace Roster

variable {r r' : Roster} {i id : ClientId} {nick name start : String}

/-- Sessions follow every step, a join only if the newcomer's session has room for it. -/
theorem Follows.step [LineReader] (F : Follows start r) (H : r.Consistent) (S : r.Spoken)
    (h : Step r l r')
    (hword : ∀ nick, l = .claim nick → ∀ c ∈ nick.toList, Str.isWhitespace c = false)
    (hfits : ∀ id name, l = .enter id name → fold name ∈ (sessionFrom start (r.told id)).tracked ∨
      (sessionFrom start (r.told id)).tracked.card < maxChannels)
    (hcard : ∀ key room, r.channels key = some room → room.members.card ≤ maxMembers)
    (hcard' : ∀ key room, r'.channels key = some room → room.members.card ≤ maxMembers) :
    Follows start r' := by
  cases h with
  | connects id hid => exact F.connect H hid
  | claims id nick _ hid hkeep hfree => exact F.claim H S hid hkeep hfree
  | registers id text hid hreg hnick => exact F.register H S hid hreg hnick
  | renames id user nick hv hid hreg hold hfree =>
    exact F.rename H (sayable_of_validNick hv (hword nick rfl)) hid hreg hold hfree
  | enters id name user topic hv hid hreg hnot =>
    refine F.enter H S hv hid hreg hnot (hfits id name rfl) (hcard' (fold name) _ ?_)
    rw [enter_channels]
    exact update_self ..
  | lists id name hid => exact F.list H S hid fun key room hroom _ => hcard key room hroom
  | shows whom message hm => exact F.topic whom hm
  | parts id key user reason hroom hid | kicks victim key by_ reason hroom hid =>
    exact F.leave H S hroom hid fun s => by rw [Message.reread_cooked (by simp)]; rfl
  | @ops room id key give hroom hid =>
    refine F.op H S hroom hid give rfl ?_ rfl
    split
    · exact insert_subset hid (H.operators_subset hroom)
    · exact (erase_subset _ _).trans (H.operators_subset hroom)
  | quits id user said hid =>
    exact F.quit H S hid fun s => by rw [Message.reread_cooked (by simp)]; rfl

/-! ## How channels grow -/

/-- Every channel of `r` is one of `r'`, with at least its members. -/
def Within (r r' : Roster) : Prop :=
  ∀ key room, r.channels key = some room →
    ∃ room', r'.channels key = some room' ∧ room.members ⊆ room'.members

theorem Within.of_eq (h : r.channels = r'.channels) : r.Within r' :=
  fun _ room hroom => ⟨room, h ▸ hroom, subset_rfl⟩

theorem Within.trans (h : r.Within r') (h' : r'.Within r'') : r.Within r'' := by
  intro key room hroom
  obtain ⟨room', hroom', hsub⟩ := h key room hroom
  obtain ⟨room'', hroom'', hsub'⟩ := h' key room' hroom'
  exact ⟨room'', hroom'', hsub.trans hsub'⟩

/-- No channel has more members than a session keeps. -/
def Bounded (r : Roster) : Prop :=
  ∀ key room, r.channels key = some room → room.members.card ≤ maxMembers

theorem Bounded.of_within (h : r'.Bounded) (hw : r.Within r') : r.Bounded := by
  intro key room hroom
  obtain ⟨room', hroom', hsub⟩ := hw key room hroom
  exact (card_le_card hsub).trans (h key room' hroom')

/-- What a join lets in is the only thing that makes a channel grow. -/
theorem Step.within (h : Step r l r') (hl : ∀ id name, l ≠ .enter id name) : r'.Within r := by
  intro key room' hroom'
  rcases h.room hroom' with ⟨room, hroom, -, hsub⟩ | ⟨id, name, rfl, -⟩
  · exact ⟨room, hroom, hsub hl⟩
  · exact absurd rfl (hl id name)

theorem Step.within_enter (h : Step r (.enter id name) r') : r.Within r' := by
  cases h with
  | enters id name user topic =>
    intro key room hroom
    rw [enter_channels]
    simp only [place, update_apply]
    split
    next hk =>
      subst hk
      refine ⟨_, rfl, fun i hi => entered_members.2 (.inr ⟨room, hroom, hi⟩)⟩
    · exact ⟨room, hroom, subset_rfl⟩

/-! ## Runs of steps -/

theorem Follows.steps [LineReader] (hs : r.Steps P r') (F : Follows start r) (H : r.Consistent)
    (S : r.Spoken)
    (B : r.Bounded) (henter : ∀ id name, ¬P (.enter id name))
    (hword : ∀ nick, P (.claim nick) → ∀ c ∈ nick.toList, Str.isWhitespace c = false) :
    Follows start r' ∧ r'.Spoken := by
  suffices h : Follows start r' ∧ r'.Spoken ∧ r'.Bounded ∧ r'.Consistent from ⟨h.1, h.2.1⟩
  induction hs with
  | refl => exact ⟨F, S, B, H⟩
  | tail _ hs ih =>
    obtain ⟨F, S, B, H⟩ := ih
    obtain ⟨l, hl, hs⟩ := hs
    have hw : ∀ nick, l = .claim nick → ∀ c ∈ nick.toList, Str.isWhitespace c = false := by
      rintro nick rfl
      exact hword nick hl
    have hnot : ∀ id name, l ≠ .enter id name := by
      rintro id name rfl
      exact henter id name hl
    have B' := B.of_within (hs.within hnot)
    refine ⟨F.step H S hs hw (fun id name he => absurd he (hnot id name)) B B', S.step hs hw, B',
      H.step hs⟩

theorem Follows.tracked_enter [LineReader] (F : Follows start r) (H : r.Consistent)
    (h : Step r (.enter id name) r') (hroom : fold name ∈ (sessionFrom start (r.told id)).tracked ∨
      (sessionFrom start (r.told id)).tracked.card < maxChannels) :
    (sessionFrom start (r'.told id)).tracked ⊆
      insert (fold name) (sessionFrom start (r.told id)).tracked := by
  cases h with
  | enters id name user topic hv hid hreg hnot =>
    have M := F.after hid hreg
    obtain ⟨c', hc'⟩ := clients_joined id name user hid
    have hjoined := sessionFrom_joined id name user start hid
    rw [if_pos (entered_members.2 (.inl rfl)), nickOf_of_nickAt M.nick] at hjoined
    have hfold : fold (r.entered id name).name = fold name := H.fold_entered
    obtain ⟨-, hrest⟩ := Session.view_onJoin_self M.plain ((M.isSelf_iff H M.nick).2 rfl)
      (hfold.symm ▸ hroom)
    rw [← hjoined] at hrest
    have hplain : (sessionFrom start ((r.joined id name user).told id)).Plain := by
      rw [hjoined]
      exact M.plain.congr Session.isupport_onJoin
    intro key hkey
    by_cases hk : key = fold name
    · exact mem_insert.2 (.inl hk)
    refine mem_insert_of_mem ?_
    have hne : key ≠ fold (r.entered id name).name := hfold.symm ▸ hk
    rw [Session.mem_tracked] at hkey ⊢
    rw [← hrest key hne]
    rw [sessionFrom_enter H hid, if_pos rfl] at hkey
    obtain ⟨hv, -, hi⟩ := sessionFrom_showTopic start (r.entered id name).name topic hc'
    rwa [view_listed_of_ne (hplain.congr hi) hne, hv] at hkey

theorem mem_or_card_lt {s t : Finset String} (h : (s ∪ t).card ≤ n) (hk : k ∈ t) :
    k ∈ s ∨ s.card < n := by
  by_cases hks : k ∈ s
  · exact .inl hks
  · refine .inr (lt_of_lt_of_le ?_ h)
    exact card_lt_card ⟨subset_union_left,
      fun hsub => hks (hsub (mem_union_right _ hk))⟩

/-- Sessions follow the joins of one client, if its session has room for them all. -/
theorem Follows.joins [LineReader] {asked : Finset String} (hs : r.Steps P r')
    (hP : ∀ l, P l → ∃ name, l = .enter id name ∧ (validChannel name → fold name ∈ asked))
    (F : Follows start r) (H : r.Consistent) (S : r.Spoken) (B : r'.Bounded)
    (hroom : ((sessionFrom start (r.told id)).tracked ∪ asked).card ≤ maxChannels) :
    Follows start r' ∧ r'.Spoken := by
  have hwithin {r₁ : Roster} (hs : r₁.Steps P r') : r₁.Within r' := by
    induction hs using Relation.ReflTransGen.head_induction_on with
    | refl => exact .of_eq rfl
    | head hs _ ih =>
      obtain ⟨l, hl, hs⟩ := hs
      obtain ⟨name, rfl, -⟩ := hP l hl
      exact hs.within_enter.trans ih
  induction hs using Relation.ReflTransGen.head_induction_on with
  | refl => exact ⟨F, S⟩
  | head hs hrest ih =>
    obtain ⟨l, hl, hs⟩ := hs
    obtain ⟨name, rfl, hasked⟩ := hP l hl
    have hin : fold name ∈ asked := by
      cases hs with
      | enters id name user topic hv => exact hasked hv
    have hfits := mem_or_card_lt hroom hin
    have B₁ := B.of_within (hwithin hrest)
    have B₀ := B₁.of_within hs.within_enter
    have hw : ∀ nick, Label.enter id name = .claim nick →
        ∀ c ∈ nick.toList, Str.isWhitespace c = false := by
      rintro nick ⟨⟩
    refine ih (F.step H S hs hw ?_ B₀ B₁) (H.step hs) (S.step hs hw) ?_
    · rintro _ _ ⟨⟩
      exact hfits
    · refine (card_le_card ?_).trans hroom
      refine union_subset ((F.tracked_enter H hs hfits).trans ?_)
        subset_union_right
      exact insert_subset (mem_union_right _ hin) subset_union_left

end Roster

end Ddirc.Server
