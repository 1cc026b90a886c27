import Mathlib.Data.Set.Basic
import Mathlib.Data.Finset.Insert
import Ddirc.App.Session

/-! # The lists of a session

The order of the conversations, the open tabs and the one on screen stay in step with the
conversations held, and a conversation with someone who was not let in stays a request: one
invariant, `Session.Safe`, over the people let in and the conversations the user selected.

`Session.Within P` says that the names of the channel conversations satisfy `P`. Each operation
keeps both, `Session.Kept`, if `P` holds of the channels it may open. -/

namespace Ddirc.App.Session
open List Option

theorem lookup_modify (s : Session) (k k' : String) (f : Conversation → Conversation) :
    (s.modify k f).conversations.lookup k' =
      if k' = k then (s.conversations.lookup k').map f else s.conversations.lookup k' :=
  Map.lookup_modify ..

theorem lookup_conversationFor (env : Env) (s : Session) (name : String)
    (isChannel pending openTab : Bool) (k : String) :
    (s.conversationFor env name isChannel pending openTab).conversations.lookup k =
      if k = key env name then
        some ((s.conversations.lookup k).getD { name, isChannel, pending })
      else s.conversations.lookup k := by
  unfold Session.conversationFor
  split
  next hsome =>
    split
    next hk =>
      obtain ⟨c, hc⟩ := isSome_iff_exists.1 (hk ▸ hsome)
      rw [hc, getD_some]
    next => rfl
  next hnone =>
    have hnone : s.conversations.lookup (key env name) = none := by simpa using hnone
    have hinsert := Map.lookup_insert s.conversations (key env name) k { name, isChannel, pending }
    split <;> rw [hinsert] <;> split
    all_goals first | rfl | next hk => rw [hk, hnone, getD_none]

theorem lookup_addLine (env : Env) (s : Session) (name : String) (line : ChatLine)
    (isChannel pending openTab : Bool) (k : String) :
    ∃ active notify, (s.addLine env name line isChannel pending openTab).1.conversations.lookup k =
      if k = key env name then
        some (((s.conversations.lookup k).getD { name, isChannel, pending }).add line active notify)
      else s.conversations.lookup k := by
  let s₁ := s.conversationFor env name isChannel pending openTab
  refine ⟨s₁.active = some (key env name), s₁.settings.notifyFor (key env name), ?_⟩
  unfold addLine
  rw [lookup_modify, lookup_conversationFor]
  split <;> rfl

structure Safe (env : Env) (letIn selected : Set String) (s : Session) : Prop where
  filed : ∀ k c, s.conversations.lookup k = some c → key env c.name = k
  order_nodup : s.order.Nodup
  mem_order : ∀ k, k ∈ s.order ↔ (s.conversations.lookup k).isSome
  tabs_nodup : s.tabs.Nodup
  held : ∀ k ∈ s.tabs, (s.conversations.lookup k).isSome
  active_tab : ∀ k, s.active = some k → k ∈ s.tabs
  accepted : ∀ k ∈ s.settings.accepted, k ∈ letIn
  request : ∀ k c, s.conversations.lookup k = some c → c.isChannel = false → k ∉ letIn →
    c.pending = true ∧ (k ∈ s.tabs → k ∈ selected)

/-- A conversation may be shown: it is a channel, or the person was let in, or the user selected
it. -/
def Open (letIn selected : Set String) (s : Session) (k : String) : Prop :=
  ∀ c, s.conversations.lookup k = some c → c.isChannel = false → k ∉ letIn → k ∈ selected

def Within (P : String → Prop) (s : Session) : Prop :=
  ∀ k c, s.conversations.lookup k = some c → c.isChannel = true → P c.name

structure Kept (env : Env) (letIn selected : Set String) (P : String → Prop) (s : Session) : Prop
    extends Safe env letIn selected s where
  within : Within P s

/-- A conversation that is not held may be opened: a channel as `P` asks, or a request, or with
someone who was let in. -/
def MayOpen (env : Env) (letIn : Set String) (P : String → Prop) (s : Session) (name : String)
    (isChannel pending : Bool) : Prop :=
  (s.conversations.lookup (key env name)).isSome ∨
    if isChannel then P name else pending = true ∨ key env name ∈ letIn

variable {env : Env} {L S : Set String} {P : String → Prop} {s : Session}

namespace Safe

theorem open_of_tab (h : Safe env L S s) (hk : k ∈ s.tabs) : Open L S s k := fun c hc hdirect hk' =>
  (h.request k c hc hdirect hk').2 hk

theorem mono (h : Safe env L S s) (hL : L ⊆ L') (hS : S ⊆ S') : Safe env L' S' s :=
  { h with
    accepted := fun k hk => hL (h.accepted k hk)
    request := fun k c hc hdirect hk =>
      have := h.request k c hc hdirect fun hk' => hk (hL hk')
      ⟨this.1, fun htab => hS (this.2 htab)⟩ }

/-- Only what is held can have been selected. -/
theorem restrict (h : Safe env L S s) : Safe env L {k ∈ S | (s.conversations.lookup k).isSome} s :=
  { h with
    request := fun k c hc hdirect hk =>
      have := h.request k c hc hdirect hk
      ⟨this.1, fun htab => ⟨this.2 htab, by rw [hc]; rfl⟩⟩ }

end Safe

namespace Kept
variable {openTab : Bool}

theorem congr (h : Kept env L S P s) (hconversations : s'.conversations = s.conversations)
    (horder : s'.order = s.order) (htabs : s'.tabs = s.tabs) (hactive : s'.active = s.active)
    (haccepted : ∀ k ∈ s'.settings.accepted, k ∈ L) : Kept env L S P s' where
  filed := hconversations ▸ h.filed
  order_nodup := horder ▸ h.order_nodup
  mem_order := by
    rw [hconversations, horder]
    exact h.mem_order
  tabs_nodup := htabs ▸ h.tabs_nodup
  held := by
    rw [hconversations, htabs]
    exact h.held
  active_tab := by
    rw [hactive, htabs]
    exact h.active_tab
  accepted := haccepted
  request := by
    rw [hconversations, htabs]
    exact h.request
  within := by
    rw [Within, hconversations]
    exact h.within

theorem retab {tabs : List String} {active : Option String} (h : Kept env L S P s)
    (hnodup : tabs.Nodup)
    (hheld : ∀ k ∈ tabs, (s.conversations.lookup k).isSome) (hopen : ∀ k ∈ tabs, Open L S s k)
    (hactive : ∀ k, active = some k → k ∈ tabs) : Kept env L S P { s with tabs, active } :=
  { h with
    tabs_nodup := hnodup
    held := hheld
    active_tab := hactive
    request := fun k c hc hdirect hk =>
      ⟨(h.request k c hc hdirect hk).1, fun htab => hopen k htab c hc hdirect hk⟩ }

theorem addTab (active : Option String) (h : Kept env L S P s)
    (hheld : (s.conversations.lookup k).isSome) (hopen : Open L S s k)
    (hactive : ∀ k', active = some k' → k' ∈ k :: s.tabs) :
    Kept env L S P { s with tabs := if k ∈ s.tabs then s.tabs else s.tabs ++ [k], active } := by
  have hmem : ∀ k', k' ∈ (if k ∈ s.tabs then s.tabs else s.tabs ++ [k]) ↔ k' ∈ k :: s.tabs := by
    intro k'
    split
    next hk => exact ⟨mem_cons_of_mem k, fun hk' => (mem_cons.1 hk').elim (· ▸ hk) id⟩
    next => simp [or_comm]
  refine h.retab ?_ (fun k' hk' => ?_) (fun k' hk' => ?_) fun k' hk' => (hmem k').2 (hactive k' hk')
  · split
    next => exact h.tabs_nodup
    next hk =>
      rw [← concat_eq_append]
      exact h.tabs_nodup.concat hk
  all_goals rcases mem_cons.1 ((hmem k').1 hk') with rfl | hk'
  · exact hheld
  · exact h.held k' hk'
  · exact hopen
  · exact h.open_of_tab hk'

theorem modify (h : Kept env L S P s) (k : String) (hname : ∀ c, (f c).name = c.name)
    (hchannel : ∀ c, (f c).isChannel = c.isChannel)
    (hpending : k ∈ L ∨ ∀ c, (f c).pending = c.pending) : Kept env L S P (s.modify k f) := by
  have hlookup : ∀ k' c, (s.modify k f).conversations.lookup k' = some c →
      ∃ c', s.conversations.lookup k' = some c' ∧ c.name = c'.name ∧ c.isChannel = c'.isChannel ∧
        (k' ∈ L ∨ c.pending = c'.pending) := by
    intro k' c hc
    rw [lookup_modify] at hc
    split at hc
    next hk =>
      obtain ⟨c', hc', rfl⟩ := map_eq_some_iff.1 hc
      exact ⟨c', hc', hname c', hchannel c', hpending.imp (hk ▸ ·) (· c')⟩
    next => exact ⟨c, hc, rfl, rfl, .inr rfl⟩
  have hsome : ∀ k', ((s.modify k f).conversations.lookup k').isSome =
      (s.conversations.lookup k').isSome := by
    intro k'
    rw [lookup_modify]
    split
    next => exact isSome_map
    next => rfl
  exact
    { h with
      filed := fun k' c hc => by
        obtain ⟨c', hc', hn, -, -⟩ := hlookup k' c hc
        rw [hn, h.filed k' c' hc']
      mem_order := fun k' => by
        rw [hsome]
        exact h.mem_order k'
      held := fun k' hk' => by
        rw [hsome]
        exact h.held k' hk'
      request := fun k' c hc hdirect hk' => by
        obtain ⟨c', hc', -, hch, hp⟩ := hlookup k' c hc
        rw [hp.resolve_left hk']
        exact h.request k' c' hc' (hch ▸ hdirect) hk'
      within := fun k' c hc hch => by
        obtain ⟨c', hc', hn, hch', -⟩ := hlookup k' c hc
        rw [hn]
        exact h.within k' c' hc' (hch' ▸ hch) }

/-- A new conversation that is no channel is a request, unless the person was let in. -/
theorem conversationFor (h : Kept env L S P s) (hnew : MayOpen env L P s name isChannel pending) :
    Kept env L S P (s.conversationFor env name isChannel pending openTab) := by
  unfold Session.conversationFor
  split
  · exact h
  next hnone =>
  have hnew := hnew.resolve_left hnone
  have htab : key env name ∉ s.tabs := fun hk => hnone (h.held _ hk)
  have hlookup :
      ∀ k, (s.conversations.insert (key env name) { name, isChannel, pending }).lookup k =
      if k = key env name then some { name, isChannel, pending } else s.conversations.lookup k :=
    fun k => Map.lookup_insert ..
  have hadded : Kept env L S P { s with
      conversations := s.conversations.insert (key env name) { name, isChannel, pending }
      order := s.order ++ [key env name] } :=
    { h with
      filed := fun k c hc => by
        rw [hlookup] at hc
        split at hc
        next hk => cases hc; exact hk.symm
        next => exact h.filed k c hc
      order_nodup := by
        rw [← concat_eq_append]
        exact h.order_nodup.concat fun hk => hnone ((h.mem_order _).1 hk)
      mem_order := fun k => by
        rw [hlookup, mem_append, h.mem_order]
        split
        next hk => simp [hk]
        next hk => simp [hk]
      held := fun k hk => by
        rw [hlookup]
        split
        next => rfl
        next => exact h.held k hk
      request := fun k c hc hdirect hk => by
        rw [hlookup] at hc
        split at hc
        next heq =>
          cases hc
          subst heq
          rw [if_neg (by simpa using hdirect)] at hnew
          exact ⟨hnew.resolve_right hk, fun hk' => absurd hk' htab⟩
        next => exact h.request k c hc hdirect hk
      within := fun k c hc hch => by
        rw [hlookup] at hc
        split at hc
        next =>
          cases hc
          rwa [if_pos hch] at hnew
        next => exact h.within k c hc hch }
  split
  · exact hadded
  next hopens =>
  have hpending : pending = false := by
    rw [Bool.or_eq_true, not_or] at hopens
    exact Bool.eq_false_of_not_eq_true hopens.1
  have hopen : Open L S { s with
      conversations := s.conversations.insert (key env name) { name, isChannel, pending }
      order := s.order ++ [key env name] } (key env name) := by
    intro c hc hdirect hk
    rw [hlookup, if_pos rfl] at hc
    cases hc
    rw [if_neg (by simpa using hdirect), hpending] at hnew
    exact absurd (hnew.resolve_left (by simp)) hk
  have := hadded.addTab (k := key env name) (s.active.or (some (key env name)))
    (by rw [hlookup, if_pos rfl]; rfl) hopen fun k hk => by
      rcases or_eq_some_iff.1 hk with hk | ⟨-, hk⟩
      · exact mem_cons_of_mem _ (h.active_tab k hk)
      · cases hk
        exact mem_cons_self
  rwa [if_neg htab] at this

theorem addLine (h : Kept env L S P s) (hnew : MayOpen env L P s name isChannel pending) :
    Kept env L S P (s.addLine env name line isChannel pending openTab).1 :=
  (h.conversationFor hnew).modify _ (fun _ => Conversation.add_name ..)
    (fun _ => Conversation.add_isChannel ..) (.inr fun _ => Conversation.add_pending ..)

theorem select (h : Kept env L S P s) (hopen : Open L S s (key env name)) :
    Kept env L S P (s.select env name).1 := by
  unfold Session.select
  split
  · exact h
  next hheld =>
  refine Kept.modify ?_ _ (fun _ => rfl) (fun _ => rfl) (.inr fun _ => rfl)
  exact h.addTab _ (isSome_iff_ne_none.2 fun hn => hheld (by simp [hn])) hopen
    fun k hk => by cases hk; exact mem_cons_self

theorem closeTab (h : Kept env L S P s) : Kept env L S P (s.closeTab env name) := by
  unfold Session.closeTab
  split
  · exact h
  next i hi =>
  have hmem : ∀ k ∈ s.tabs.eraseIdx i, k ∈ s.tabs := fun k => mem_of_mem_eraseIdx
  have htabs : ∀ active, (∀ k, active = some k → k ∈ s.tabs.eraseIdx i) →
      Kept env L S P { s with tabs := s.tabs.eraseIdx i, active } := fun active =>
    h.retab (h.tabs_nodup.eraseIdx i) (fun k hk => h.held k (hmem k hk))
      fun k hk => h.open_of_tab (hmem k hk)
  dsimp only
  split
  next =>
    have := htabs (s.tabs.eraseIdx i)[min i ((s.tabs.eraseIdx i).length - 1)]? fun k hk =>
      mem_of_getElem? hk
    split
    next => exact this
    next => exact this.modify _ (fun _ => rfl) (fun _ => rfl) (.inr fun _ => rfl)
  next hne =>
    refine htabs s.active fun k hk => ?_
    have herase : s.tabs.eraseIdx i = s.tabs.erase (key env name) := by
      rw [erase_eq_eraseIdx, hi]
    rw [herase, h.tabs_nodup.mem_erase_iff]
    refine ⟨?_, h.active_tab k hk⟩
    rintro rfl
    exact hne hk

/-- When the conversation on screen goes, the last tab is shown, or else the last conversation. -/
theorem close (h : Kept env L S P s)
    (hfall : ∀ k, s.active = some (key env name) → s.tabs.erase (key env name) = [] →
      (s.order.erase (key env name)).getLast? = some k → Open L S s k) :
    Kept env L S P (s.close env name) := by
  have hlookup : ∀ k, (s.conversations.erase (key env name)).lookup k =
      if k = key env name then none else s.conversations.lookup k := fun k => Map.lookup_erase ..
  have hsome : ∀ k ≠ key env name, ((s.conversations.erase (key env name)).lookup k).isSome =
      (s.conversations.lookup k).isSome := fun k hk => by rw [hlookup, if_neg hk]
  have htabs : ∀ k ∈ s.tabs.erase (key env name), k ≠ key env name ∧ k ∈ s.tabs := fun k hk =>
    (h.tabs_nodup.mem_erase_iff).1 hk
  have hclosed : ∀ active, (∀ k, active = some k → k ∈ s.tabs.erase (key env name)) →
      Kept env L S P { s with
        conversations := s.conversations.erase (key env name)
        order := s.order.erase (key env name)
        tabs := s.tabs.erase (key env name)
        active } := fun active hactive =>
    { h with
      filed := fun k c hc => by
        rw [hlookup] at hc
        split at hc
        · cases hc
        · exact h.filed k c hc
      order_nodup := h.order_nodup.erase _
      mem_order := fun k => by
        rw [h.order_nodup.mem_erase_iff, h.mem_order, hlookup]
        split
        next hk => simp [hk]
        next hk => simp [hk]
      tabs_nodup := h.tabs_nodup.erase _
      held := fun k hk => by
        rw [hsome k (htabs k hk).1]
        exact h.held k (htabs k hk).2
      active_tab := hactive
      request := fun k c hc hdirect hk => by
        rw [hlookup] at hc
        split at hc
        · cases hc
        have := h.request k c hc hdirect hk
        exact ⟨this.1, fun htab => this.2 (htabs k htab).2⟩
      within := fun k c hc hch => by
        rw [hlookup] at hc
        split at hc
        · cases hc
        · exact h.within k c hc hch }
  unfold Session.close
  dsimp only
  split
  next hactive =>
    cases htab : (s.tabs.erase (key env name)).getLast? with
    | some k =>
      have hk := mem_of_getLast? htab
      simpa [hk] using hclosed (some k) fun k' hk' => by cases hk'; exact hk
    | none =>
      rw [List.getLast?_eq_none_iff] at htab
      cases hlast : (s.order.erase (key env name)).getLast? with
      | none => simpa using hclosed none nofun
      | some k =>
        have hk := h.order_nodup.mem_erase_iff.1 (mem_of_getLast? hlast)
        have := (hclosed none nofun).addTab (k := k) (some k)
          (by rw [hsome k hk.1]; exact (h.mem_order k).1 hk.2)
          (fun c hc => by
            rw [hlookup, if_neg hk.1] at hc
            exact hfall k hactive htab hlast c hc)
          fun k' hk' => by cases hk'; exact mem_cons_self
        simpa [htab] using this
  next hactive =>
    refine hclosed s.active fun k hk => h.tabs_nodup.mem_erase_iff.2 ⟨?_, h.active_tab k hk⟩
    rintro rfl
    exact hactive hk

end Kept

end Ddirc.App.Session
