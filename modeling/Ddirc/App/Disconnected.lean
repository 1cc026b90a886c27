import Ddirc.App.Workspace

/-! # A network that was disconnected stays so

In every run a connect that is running is the only one for its profile, its profile has no session
yet, and each connection of the core that is not told to disconnect is that of a session (`Tidy`).
A disconnect drops the session there is. So where no disconnect comes while a connect for its
profile is running, a profile is up only by the latest call for it (`up_of_step`). -/

namespace Ddirc.App.Workspace
open Option Finset Map
variable {q : String}

variable {w : Workspace} {n m : Nat} {p : String} {c : Connecting} {inputs : List Input}

/-! ## What holds in every run -/

structure Tidy (w : Workspace) : Prop where
  fresh : ∀ {n c}, w.calls.lookup n = some c → n < w.next
  running : ∀ {n c}, w.calls.lookup n = some c → c.account.id ∈ w.connecting
  single : ∀ {n m c d}, w.calls.lookup n = some c → w.calls.lookup m = some d →
    c.account.id = d.account.id → n = m
  apart : ∀ {p}, p ∈ w.connecting → w.sessions.lookup p = none
  owned : ∀ {id p}, w.opened.lookup id = some p →
    ∃ s, w.sessions.lookup p = some s ∧ s.connectionId = id

/-- A part of the state that the invariant does not read may be anything. -/
theorem Tidy.congr (h : Tidy w) (hcalls : w'.calls = w.calls) (hnext : w'.next = w.next)
    (hconnecting : w'.connecting = w.connecting) (hsessions : w'.sessions = w.sessions)
    (hopened : w'.opened = w.opened) : Tidy w' := by
  obtain ⟨hfresh, hrunning, hsingle, hapart, howned⟩ := h
  constructor
  · rwa [hcalls, hnext]
  · rwa [hcalls, hconnecting]
  · rwa [hcalls]
  · rwa [hconnecting, hsessions]
  · rwa [hopened, hsessions]

theorem Tidy.select (h : Tidy w) (p : String) : Tidy (w.select p) := by
  unfold Workspace.select
  split
  · exact h.congr rfl rfl rfl rfl rfl
  · exact h

theorem Tidy.connect (h : Tidy w) (a : Account) (focus : Bool) : Tidy (w.connect a focus) := by
  unfold Workspace.connect
  split
  · exact h.select a.id
  next hsession =>
  split
  · exact h
  next hidle =>
  -- The new call is the only one for its profile.
  have hother {m : Nat} {d : Connecting} (hd : w.calls.lookup m = some d) :
      d.account.id ≠ a.id := fun hid => hidle (hid ▸ h.running hd)
  refine ⟨fun hn => ?_, fun hn => ?_, fun hn hm hid => ?_, fun hp => ?_, h.owned⟩
  · rcases of_lookup_insert hn with ⟨rfl, -⟩ | ⟨-, hn⟩
    · exact Nat.lt_succ_self _
    · exact (h.fresh hn).trans (Nat.lt_succ_self _)
  · rcases of_lookup_insert hn with ⟨-, rfl⟩ | ⟨-, hn⟩
    · exact mem_insert_self ..
    · exact mem_insert_of_mem (h.running hn)
  · rcases of_lookup_insert hn with ⟨rfl, rfl⟩ | ⟨-, hn⟩ <;>
      rcases of_lookup_insert hm with ⟨rfl, rfl⟩ | ⟨-, hm⟩
    · rfl
    · exact absurd hid.symm (hother hm)
    · exact absurd hid (hother hn)
    · exact h.single hn hm hid
  · rcases mem_insert.1 hp with rfl | hp
    · exact not_isSome_iff_eq_none.1 hsession
    · exact h.apart hp

theorem Tidy.ne (h : Tidy w) (hc : w.calls.lookup n = some c) (hd : w.calls.lookup m = some d)
    (hm : m ≠ n) : d.account.id ≠ c.account.id :=
  fun hid => hm (h.single hd hc hid)

theorem Tidy.finish (h : Tidy w) (hc : w.calls.lookup n = some c) :
    Tidy (w.finish n c.account.id) where
  fresh hm := h.fresh (of_lookup_erase hm).2
  running hm := by
    obtain ⟨hne, hm⟩ := of_lookup_erase hm
    exact mem_erase.2 ⟨h.ne hc hm hne, h.running hm⟩
  single hn hm := h.single (of_lookup_erase hn).2 (of_lookup_erase hm).2
  apart hp := h.apart (mem_of_mem_erase hp)
  owned := h.owned

theorem Tidy.establish (h : Tidy w) (hc : w.calls.lookup n = some c) (config : ServerConfig) :
    Tidy ((w.establish c.account c.focus config).finish n c.account.id) where
  fresh := (h.finish hc).fresh
  running := (h.finish hc).running
  single := (h.finish hc).single
  apart hp := by
    obtain ⟨hne, hp⟩ := mem_erase.1 hp
    exact (lookup_insert ..).trans ((if_neg hne).trans (h.apart hp))
  owned {id p} hid := by
    rcases of_lookup_insert hid with ⟨rfl, rfl⟩ | ⟨-, hid⟩
    · exact ⟨_, (lookup_insert ..).trans (if_pos rfl), rfl⟩
    · obtain ⟨s, hs, rfl⟩ := h.owned hid
      -- The profile that comes up had no session.
      have hne : p ≠ c.account.id := by
        rintro rfl
        exact absurd ((h.apart (h.running hc)).symm.trans hs) nofun
      exact ⟨s, (lookup_insert ..).trans ((if_neg hne).trans hs), rfl⟩

theorem Tidy.advance (h : Tidy w) (hc : w.calls.lookup n = some c) (stage : ConnectStage) :
    Tidy { w with calls := w.calls.insert n { c with stage } } := by
  have hold {m : Nat} {d : Connecting}
      (hd : (w.calls.insert n { c with stage }).lookup m = some d) :
      ∃ d', w.calls.lookup m = some d' ∧ d'.account = d.account := by
    rcases of_lookup_insert hd with ⟨rfl, rfl⟩ | ⟨-, hd⟩
    · exact ⟨c, hc, rfl⟩
    · exact ⟨d, hd, rfl⟩
  refine ⟨fun hn => ?_, fun hn => ?_, fun hn hm hid => ?_, h.apart, h.owned⟩
  · obtain ⟨_, hn, -⟩ := hold hn
    exact h.fresh hn
  · obtain ⟨_, hn, haccount⟩ := hold hn
    exact haccount ▸ h.running hn
  · obtain ⟨_, hn, haccount⟩ := hold hn
    obtain ⟨_, hm, haccount'⟩ := hold hm
    exact h.single hn hm (haccount ▸ haccount' ▸ hid)

theorem Tidy.disconnect (h : Tidy w) (p : String) : Tidy (w.disconnect p) := by
  unfold Workspace.disconnect
  split
  · exact h
  next s hs =>
  refine ⟨h.fresh, h.running, h.single, fun hq => ?_, fun {id q} hid => ?_⟩
  · rw [lookup_erase]
    split
    · rfl
    · exact h.apart hq
  · obtain ⟨hne, hid⟩ := of_lookup_erase hid
    obtain ⟨s', hs', rfl⟩ := h.owned hid
    have hq : q ≠ p := by
      rintro rfl
      exact hne (by rw [some.inj (hs'.symm.trans hs)])
    exact ⟨s', (lookup_erase ..).trans ((if_neg hq).trans hs'), rfl⟩

theorem of_lookup_dispose {opened : Map Nat String} {sessions : List NetworkSession} {id : Nat}
    (h : (sessions.foldl dispose opened).lookup id = some p) :
    opened.lookup id = some p ∧ ∀ s ∈ sessions, s.connectionId ≠ id := by
  induction sessions generalizing opened with
  | nil => exact ⟨h, fun _ hs => absurd hs List.not_mem_nil⟩
  | cons s sessions ih =>
    obtain ⟨hid, hne⟩ := ih h
    obtain ⟨hs, hid⟩ := of_lookup_erase hid
    exact ⟨hid, List.forall_mem_cons.2 ⟨hs.symm, hne⟩⟩

theorem Tidy.closeAll (h : Tidy w) : Tidy w.closeAll := by
  unfold Workspace.closeAll
  split
  · exact h
  refine ⟨h.fresh, h.running, h.single, fun _ => rfl, fun hid => ?_⟩
  obtain ⟨hid, hne⟩ := of_lookup_dispose hid
  obtain ⟨s, hs, rfl⟩ := h.owned hid
  exact absurd rfl (hne s (mem_values.2 ⟨_, hs⟩))

/-- How a connect goes on: the session is made, or it waits for something else, or it is over, or
the answer is not to what it waits for. -/
theorem awaited_cases (w : Workspace) (n : Nat) (answer : Awaited) :
    w.awaited n answer = w ∨ ∃ c, w.calls.lookup n = some c ∧
      ((∃ config, w.awaited n answer =
          (w.establish c.account c.focus config).finish n c.account.id) ∨
        (∃ stage, w.awaited n answer = { w with calls := w.calls.insert n { c with stage } }) ∨
        ∃ message, w.awaited n answer =
          { w with failures := w.failures.insert c.account.id message }.finish n c.account.id) := by
  unfold awaited
  split
  · exact .inl rfl
  next c hc =>
  split
  · next config _ => exact .inr ⟨c, hc, .inl ⟨config, rfl⟩⟩
  · split
    · exact .inl rfl
    · next stage _ => exact .inr ⟨c, hc, .inr (.inl ⟨stage, rfl⟩)⟩
    · next message _ => exact .inr ⟨c, hc, .inr (.inr ⟨message, rfl⟩)⟩

theorem Tidy.awaited (h : Tidy w) (n : Nat) (answer : Awaited) : Tidy (w.awaited n answer) := by
  rcases awaited_cases w n answer with heq | ⟨c, hc, ⟨config, heq⟩ | ⟨stage, heq⟩ | ⟨message, heq⟩⟩
  · rwa [heq]
  · exact heq ▸ h.establish hc config
  · exact heq ▸ h.advance hc stage
  · exact heq ▸ (h.finish hc).congr rfl rfl rfl rfl rfl

theorem Tidy.step (h : Tidy w) (i : Input) : Tidy (w.step i).1 := by
  cases i with
  | connect a focus => exact h.connect a focus
  | awaited n answer => exact h.awaited n answer
  | disconnect p => exact h.disconnect p
  | forget p => exact (h.disconnect p).congr rfl rfl rfl rfl rfl
  | closeAll => exact h.closeAll
  | select p => exact h.select p

theorem tidy_after (inputs : List Input) : Tidy (after inputs) := by
  refine Run.after_induction (P := Tidy) ?_ (fun _ i h => h.step i) inputs
  exact ⟨nofun, nofun, nofun, nofun, nofun⟩

/-! ## Who is up -/

def Up (w : Workspace) (p : String) : Prop :=
  p ∈ w.connecting ∨ (w.sessions.lookup p).isSome = true

/-- No connect for a profile is running when it is disconnected, and `closeAll` is not called again
when something came up after it. -/
def Alone (w : Workspace) : Input → Prop
  | .disconnect p | .forget p => p ∉ w.connecting
  | .closeAll => w.connecting = ∅ ∧ (w.closed = true → w.sessions.entries = [])
  | _ => True

instance (w : Workspace) : (i : Input) → Decidable (Alone w i)
  | .disconnect p | .forget p => inferInstanceAs (Decidable (p ∉ w.connecting))
  | .closeAll =>
    inferInstanceAs (Decidable (w.connecting = ∅ ∧ (w.closed = true → w.sessions.entries = [])))
  | .connect .. | .awaited .. | .select .. => inferInstanceAs (Decidable True)

theorem up_select (h : Up (w.select q) p) : Up w p := by
  unfold select at h
  split at h <;> exact h

theorem up_disconnect (hidle : q ∉ w.connecting) (h : Up (w.disconnect q) p) : Up w p ∧ q ≠ p := by
  unfold disconnect at h
  split at h
  · next hnone =>
    refine ⟨h, ?_⟩
    rintro rfl
    exact h.elim hidle fun hs => by rw [hnone] at hs; cases hs
  · rcases h with h | h
    · exact ⟨.inl h, fun hq => hidle (hq ▸ h)⟩
    · obtain ⟨s, hs⟩ := isSome_iff_exists.1 h
      obtain ⟨hne, hs⟩ := of_lookup_erase hs
      exact ⟨.inr (isSome_iff_exists.2 ⟨s, hs⟩), hne.symm⟩

theorem up_connect (h : Up (w.connect a focus) p) : a.id = p ∨ Up w p := by
  unfold connect at h
  split at h
  · exact .inr (up_select h)
  split at h
  · exact .inr h
  rcases h with h | h
  · rcases mem_insert.1 h with rfl | h
    · exact .inl rfl
    · exact .inr (.inl h)
  · exact .inr (.inr h)

theorem Tidy.up_awaited (htidy : Tidy w) (h : Up (w.awaited n answer) p) : Up w p := by
  rcases awaited_cases w n answer with heq | ⟨c, hc, ⟨config, heq⟩ | ⟨stage, heq⟩ | ⟨message, heq⟩⟩
  all_goals rw [heq] at h
  · exact h
  · rcases h with h | h
    · exact .inl (mem_of_mem_erase h)
    · -- The session that is made is for a profile that was being connected.
      obtain ⟨s, hs⟩ := isSome_iff_exists.1 h
      rcases of_lookup_insert hs with ⟨rfl, -⟩ | ⟨-, hs⟩
      · exact .inl (htidy.running hc)
      · exact .inr (isSome_iff_exists.2 ⟨s, hs⟩)
  · exact h
  · exact h.imp mem_of_mem_erase fun hs => hs

/-- A profile is up after a step by a connect for it, or was up and the step is no call for it. -/
theorem Tidy.up_of_step (htidy : Tidy w) (halone : Alone w i)
    (h : Up (w.step i).1 p) : i.callFor p = some true ∨ Up w p ∧ i.callFor p = none := by
  cases i with
  | connect a focus =>
    simp only [Input.callFor]
    split
    · exact .inl rfl
    · next hne => exact .inr ⟨(up_connect h).resolve_left hne, rfl⟩
  | awaited n answer => exact .inr ⟨htidy.up_awaited h, rfl⟩
  | disconnect q | forget q =>
    obtain ⟨hup, hne⟩ := up_disconnect halone h
    exact .inr ⟨hup, if_neg hne⟩
  | closeAll =>
    exfalso
    have hsessions : w.closeAll.sessions = ∅ := by
      unfold Workspace.closeAll
      split
      · next hclosed => exact AList.ext (halone.2 hclosed)
      · rfl
    have hconnecting : w.closeAll.connecting = ∅ := by
      unfold Workspace.closeAll
      split <;> exact halone.1
    rcases h with h | h
    · exact absurd (hconnecting ▸ h) (notMem_empty p)
    · change (w.closeAll.sessions.lookup p).isSome at h
      rw [hsessions] at h
      cases h
  | select q => exact .inr ⟨up_select h, rfl⟩

/-! ## Runs -/

theorem latestCall_append :
    latestCall p (inputs ++ [i]) = (i.callFor p).or (latestCall p inputs) := by
  unfold latestCall
  cases h : i.callFor p <;> simp [h]

/-- Where no disconnect comes while its profile is being connected, the latest call for a profile
that is up is a connect. -/
theorem latestCall_of_up (h : Run.Along step Alone {} inputs) :
    ∀ p, Up (after inputs) p → latestCall p inputs = some true := by
  refine Run.Along.history (I := fun inputs w => ∀ p, Up w p → latestCall p inputs = some true)
    ?_ (fun is i ih halone p hup => ?_) h
  · rintro p (hp | hp)
    · exact absurd hp (notMem_empty p)
    · cases hp
  · rw [latestCall_append]
    rcases (tidy_after is).up_of_step halone hup with hcall | ⟨hup, hcall⟩
    · rw [hcall]
      rfl
    · rw [hcall]
      exact ih p hup

/-- Where the latest call for a profile is no connect, the workspace has no session for it and each
connection the core opened for it was told to disconnect, in every run in which no disconnect comes
while a connect for its profile is running and `closeAll` is not called again after something came
up. -/
theorem disconnected_stays (inputs : List Input) (h : Run.Along step Alone {} inputs) (p : String)
    (hlatest : latestCall p inputs ≠ some true) : (after inputs).Gone p := by
  have hdown : ¬ Up (after inputs) p := fun hup => hlatest (latestCall_of_up h p hup)
  have hsession : (after inputs).sessions.lookup p = none :=
    not_isSome_iff_eq_none.1 fun hs => hdown (.inr hs)
  refine ⟨hsession, fun id hid => ?_⟩
  obtain ⟨s, hs, -⟩ := (tidy_after inputs).owned hid
  exact absurd (hsession.symm.trans hs) nofun

def libera : Account where
  id := "p1"
  host := "irc.libera.chat"
  port := 6697
  nickname := "me"

def answers (n : Nat) : List Input :=
  [.awaited n (.proxy .direct), .awaited n (.text none), .awaited n (.text none),
    .awaited n .connected]

theorem disconnected_stays_down :
    (after (.connect libera true :: answers 0)).sessions.lookup "p1" =
        some { connectionId := 0, config := .irc libera none none none none none } ∧
      (after (.connect libera true :: answers 0 ++ [.disconnect "p1"])).Gone "p1" :=
  ⟨by decide +kernel, disconnected_stays _ (by decide +kernel) "p1" (by decide +kernel)⟩

/-- A disconnect while the proxy is being chosen drops nothing, and the session comes up; and so it
is with a second `closeAll`. -/
theorem disconnected_comes_up :
    (latestCall "p1" (.connect libera true :: .disconnect "p1" :: answers 0) = some false ∧
      (after (.connect libera true :: .disconnect "p1" :: answers 0)).calls.entries = [] ∧
      ¬ (after (.connect libera true :: .disconnect "p1" :: answers 0)).Gone "p1") ∧
    (latestCall "p1" (.closeAll :: .connect libera true :: answers 0 ++ [.closeAll]) = some false ∧
      (after (.closeAll :: .connect libera true :: answers 0 ++ [.closeAll])).calls.entries = [] ∧
      ¬ (after (.closeAll :: .connect libera true :: answers 0 ++ [.closeAll])).Gone "p1") :=
  ⟨⟨by decide +kernel, by decide +kernel, fun h => absurd h.session (by decide +kernel)⟩,
    ⟨by decide +kernel, by decide +kernel, fun h => absurd h.session (by decide +kernel)⟩⟩

end Ddirc.App.Workspace
