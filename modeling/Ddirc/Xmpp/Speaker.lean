import Ddirc.Xmpp.Whole

/-! # Who speaks for a contact

`Contacts::render` takes the best of the values of a hash map, in whatever order the map gives them.
How available a person is shown depends neither on that order nor on the order in which their
presence came. The text of their status does, unless all of the best say the same. -/

namespace Ddirc.Xmpp
open List

theorem Seen.le.trans {s t u : Seen} (h : s.le t) (h' : t.le u) : s.le u := by
  unfold Seen.le at *
  omega

def Tops (seens : List Seen) (s : Seen) : Prop := ∀ t ∈ seens, t.le s

instance (seens : List Seen) (s : Seen) : Decidable (Tops seens s) :=
  inferInstanceAs (Decidable (∀ t ∈ seens, t.le s))

variable {seens : List Seen} {s : Seen}

theorem foldl_louder (b : Seen) (seens : List Seen) :
    ∃ s ∈ b :: seens, seens.foldl louder (some b) = some s ∧ Tops (b :: seens) s := by
  induction seens generalizing b with
  | nil => exact ⟨b, mem_cons_self, rfl, fun t ht => mem_singleton.1 ht ▸ .inr ⟨rfl, le_rfl⟩⟩
  | cons seen seens ih =>
    rw [foldl_cons, louder]
    split
    next h =>
      obtain ⟨s, hs, hfold, htop⟩ := ih seen
      refine ⟨s, mem_cons_of_mem b hs, hfold, forall_mem_cons.2 ⟨?_, htop⟩⟩
      exact h.trans (htop seen mem_cons_self)
    next h =>
      have h : seen.le b := by
        unfold Seen.le at *
        omega
      obtain ⟨s, hs, hfold, htop⟩ := ih b
      obtain ⟨hb, hrest⟩ := forall_mem_cons.1 htop
      refine ⟨s, ?_, hfold, forall_mem_cons.2 ⟨hb, forall_mem_cons.2 ⟨h.trans hb, hrest⟩⟩⟩
      exact (mem_cons.1 hs).elim (· ▸ mem_cons_self) fun hs => by simp [hs]

/-- Of the best, the last speaks. -/
theorem loudest_concat (h : Tops seens s) : loudest (seens ++ [s]) = some s := by
  rw [loudest, foldl_append]
  cases seens with
  | nil => rfl
  | cons b seens =>
    obtain ⟨t, ht, hfold, -⟩ := foldl_louder b seens
    have hfold : (b :: seens).foldl louder none = some t := hfold
    rw [hfold]
    exact if_pos (h t ht)

/-- In one order or another, each of the best speaks. -/
theorem drawn_iff : (∃ walk, walk.Perm seens ∧ drawn walk = x) ↔ seens = [] ∧ x = (.offline, "") ∨
    ∃ s ∈ seens, Tops seens s ∧ x = (s.availability, s.status) := by
  constructor
  · rintro ⟨walk, hw, rfl⟩
    cases walk with
    | nil => exact .inl ⟨hw.nil_eq.symm, rfl⟩
    | cons b walk =>
      obtain ⟨s, hs, hfold, htop⟩ := foldl_louder b walk
      have hbest : loudest (b :: walk) = some s := hfold
      refine .inr ⟨s, hw.mem_iff.1 hs, fun t ht => htop t (hw.mem_iff.2 ht), ?_⟩
      rw [drawn, hbest]
      rfl
  · rintro (⟨rfl, rfl⟩ | ⟨s, hs, htop, rfl⟩)
    · exact ⟨[], .refl _, rfl⟩
    · refine ⟨seens.erase s ++ [s],
        (perm_append_singleton ..).trans (perm_cons_erase hs).symm, ?_⟩
      rw [drawn, loudest_concat fun t ht => htop t (mem_of_mem_erase ht)]
      rfl

theorem availability_eq_of_tops (hs : s ∈ seens) (ht : t ∈ seens) (hstop : Tops seens s)
    (httop : Tops seens t) : s.availability = t.availability := by
  have hst := httop s hs
  have hts := hstop t ht
  have hrank : s.availability.rank = t.availability.rank := by
    unfold Seen.le at hst hts
    omega
  cases hav : s.availability <;> cases hav' : t.availability <;> rw [hav, hav'] at hrank <;>
    first | rfl | cases hrank

/-! ## Presences in any order -/

/-- A person says from one place how they are. -/
structure Arrival where
  resource : String
  availability : Option Availability := none
  status : Option String := none
  priority : Int := 0

def Arrival.presence (a : Arrival) : Presence := { availability := a.availability }

def Arrival.seen (a : Arrival) : Seen := seenAs a.presence a.status a.priority

def arrive (jid : BareJid) (w : Whole) (a : Arrival) : Whole :=
  (w.applyPresence ⟨jid, some a.resource⟩ a.presence a.status a.priority).1

/-- Every place that a person is known to be signed in from is one of these. -/
def Among (places : Finset String) (resources : Map String Seen) : Prop :=
  ∀ k, (resources.lookup k).isSome = true → k ∈ places

theorem Among.insert (h : Among places resources) (hk : k ∈ places)
    (s : Seen) : Among places (resources.insert k s) := by
  intro k' hk'
  rw [Map.lookup_insert] at hk'
  split at hk'
  next heq => exact heq ▸ hk
  · exact h k' hk'

variable {w : Whole} {jid : BareJid} {a : Arrival} {arrivals : List Arrival}

theorem arrive_of_among (hjid : (w.account.contacts.items.lookup jid).isSome)
    (hplaces : places.card ≤ maxResources) (hknown : Among places (w.whereabouts.of jid))
    (ha : a.resource ∈ places) : (arrive jid w a).account = w.account ∧
      (arrive jid w a).whereabouts.of jid = (w.whereabouts.of jid).insert a.resource a.seen := by
  obtain ⟨contact, hcontact⟩ := Option.isSome_iff_exists.1 hjid
  have hroom : ¬ (((w.whereabouts.of jid).lookup a.resource).isNone ∧
      (w.whereabouts.of jid).entries.length ≥ maxResources) := by
    rintro ⟨hnew, hfull⟩
    have hle := Map.length_le_card (hknown.insert ha a.seen)
    rw [AList.entries_insert_of_notMem (AList.lookup_eq_none.1 (Option.isNone_iff_eq_none.1 hnew)),
      length_cons] at hle
    omega
  simp only [arrive, Whole.applyPresence, hcontact, Arrival.presence, if_neg hroom]
  refine ⟨trivial, ?_⟩
  rw [Whereabouts.of, Map.lookup_insert, if_pos rfl]
  rfl

theorem of_foldl_arrive (hjid : (w.account.contacts.items.lookup jid).isSome)
    (hplaces : places.card ≤ maxResources) (hknown : Among places (w.whereabouts.of jid))
    (hcome : ∀ a ∈ arrivals, a.resource ∈ places) :
    (arrivals.foldl (arrive jid) w).whereabouts.of jid =
      Map.fileAll (·.resource) (·.seen) arrivals (w.whereabouts.of jid) := by
  induction arrivals generalizing w with
  | nil => rfl
  | cons a arrivals ih =>
    obtain ⟨ha, hcome⟩ := forall_mem_cons.1 hcome
    obtain ⟨haccount, hof⟩ := arrive_of_among hjid hplaces hknown ha
    rw [foldl_cons, ih (haccount ▸ hjid) (hof ▸ hknown.insert ha a.seen) hcome, hof]
    rfl

/-- What may be shown of a person once these presences have come, in one order or another. -/
def Draws (w : Whole) (jid : BareJid) (arrivals : List Arrival)
    (shown : UserAvailability × String) :
    Prop :=
  ∃ order : List Arrival, order.Perm arrivals ∧ ∃ walk : List Seen,
    walk.Perm (Map.values ((order.foldl (arrive jid) w).whereabouts.of jid)) ∧ drawn walk = shown

open BareJid (bob)

/-- Bob is on the contact list, and nothing was heard of them yet. -/
def friend : Whole where
  account :=
    { session := .new .alice "alice" "ddirc" []
      contacts := { items := (∅ : Map BareJid Contact).insert bob ⟨none, .both, false⟩ } }

def phone : Arrival := { resource := "phone", status := some "out" }

def laptop (status : String) : Arrival := { resource := "laptop", status := some status }

end Ddirc.Xmpp
