import Ddirc.Server.Announced

/-! # What the operator's commands do

Every command looks up what it names before it changes anything, so that a refused one has done
nothing: the operator's view alone hears of it (`runAdmin_refused`). One that names a person acts on
whoever then holds that nick, and on nobody else (`lookup_nicks_of_acts`). -/

namespace Ddirc.Server.Network
variable {command : AdminCommand}

variable {n : Network} {i j : ClientId}

/-! ## Refusals -/

theorem orRefuse_error (hgo : ∀ a, (go a).2 = .error why → (go a).1 = n)
    (h : (n.orRefuse found go).2 = .error why) : (n.orRefuse found go).1 = n := by
  cases found with
  | ok a => exact hgo a h
  | error e => rfl

theorem setOp_error (h : (n.setOp name nick give).2 = .error why) :
    (n.setOp name nick give).1 = n := by
  refine orRefuse_error (fun (key, channel, id) h => ?_) h
  dsimp only at h ⊢
  split at h
  next hset => rw [if_pos hset]
  next => cases h

theorem ban_error (h : (n.ban nick reason).2 = .error why) : (n.ban nick reason).1 = n := by
  unfold ban at h ⊢
  split
  next => rfl
  next hvalid =>
    rw [if_neg hvalid] at h
    split
    next => rfl
    -- past both checks a ban succeeds, whether or not anyone wears the name
    next hbanned => rw [if_neg hbanned] at h; cases h

theorem notice_error (h : (n.notice target text).2 = .error why) :
    (n.notice target text).1 = n := by
  unfold notice at h ⊢
  dsimp only at ⊢
  split
  next => rfl
  next hempty =>
    rw [if_neg hempty] at h
    split at h
    next hchannel =>
      rw [if_pos hchannel]
      exact orRefuse_error (by simp) h
    next hnick =>
      rw [if_neg hnick]
      exact orRefuse_error (by simp) h

theorem wall_error (h : (n.wall text).2 = .error why) : (n.wall text).1 = n := by
  unfold wall at h ⊢
  dsimp only at ⊢
  split
  next => rfl
  next hempty => rw [if_neg hempty] at h; cases h

theorem setMotd_ne_error : (n.setMotd lines).2 ≠ .error why := by
  unfold setMotd
  dsimp only
  split <;> exact nofun

theorem execute_error (h : (n.execute command).2 = .error why) : (n.execute command).1 = n := by
  cases command with
  | kick name nick reason | disconnect nick reason => exact orRefuse_error (by simp) h
  | ban nick reason => exact ban_error h
  | unban nick =>
    rw [execute] at h ⊢
    split
    next hbanned => rw [if_pos hbanned] at h; cases h
    next => rfl
  | setTopic name topic | closeChannel name reason => exact orRefuse_error (by simp) h
  | op name nick | deop name nick => exact setOp_error h
  | notice target text => exact notice_error h
  | wall text => exact wall_error h
  | setMotd lines => exact absurd h setMotd_ne_error

/-- A command that is refused is told to the operator's view, and nothing else happens: nothing in
the network changes and no client is queued anything. -/
theorem runAdmin_refused (command : AdminCommand) (why : String)
    (h : (n.runAdmin command).2 = .error why) :
    (n.runAdmin command).1 = n.emit (.admin false why) ∧
      { (n.runAdmin command).1 with events := n.events } = n ∧
      (n.runAdmin command).1.queues = n.queues := by
  have hsame : (n.runAdmin command).1 = n.emit (.admin false why) := by
    have hwhy : (n.execute command).2 = .error why := h
    unfold runAdmin
    dsimp only
    rw [hwhy, execute_error hwhy]
  refine ⟨hsame, ?_⟩
  rw [hsame, emit]
  split <;> exact ⟨rfl, rfl⟩

theorem runAdmin_refused_ban :
    let n := (init "local" "Local" 0).apply (.runAdmin (.ban "mallory" none))
    (n.runAdmin (.ban "Mallory" none)).2 = .error "Mallory is already banned" ∧
      (n.runAdmin (.ban "Mallory" none)).1.queues = n.queues := by
  have h : (((init "local" "Local" 0).apply (.runAdmin (.ban "mallory" none))).runAdmin
      (.ban "Mallory" none)).2 = .error "Mallory is already banned" := by decide +kernel
  exact ⟨h, (runAdmin_refused _ _ h).2.2⟩

/-! ## Whom a command acts on -/

/-- Whether `id` is disconnected, or made an operator or no longer one, between two states. -/
def Acts (n n' : Network) (id : ClientId) : Prop :=
  ((n.clients.lookup id).isSome ∧ n'.clients.lookup id = none) ∨
    ∃ k, n'.isOperator id k ≠ n.isOperator id k

/-- Taking one client out of a channel leaves the others the operators they were. -/
theorem any_operators_without (room : Option Room) (hj : j ≠ i)
    (hroom : ∀ r ∈ room, r.operators ⊆ r.members) :
    ((room.map (·.without i)).filter (·.members ≠ ∅)).any (j ∈ ·.operators) =
      room.any (j ∈ ·.operators) := by
  cases room with
  | none => rfl
  | some room =>
    have hop : j ∈ (room.without i).operators ↔ j ∈ room.operators := by simp [Room.without, hj]
    by_cases he : (room.without i).members = ∅
    · have hnot : j ∉ room.operators := fun h => by
        have hmem := Finset.mem_erase.2 ⟨hj, hroom room rfl h⟩
        rw [show room.members.erase i = ∅ from he] at hmem
        exact Finset.notMem_empty j hmem
      simp [he, hnot]
    · simp [he, hop]

theorem isOperator_disconnect (H : n.roster.Consistent) (hj : j ≠ i) :
    (n.disconnect i reason).isOperator j k = n.isOperator j k := by
  cases hc : n.clients.lookup i with
  | none => simp only [disconnect, hc]
  | some client =>
    obtain ⟨said, user, h⟩ := roster_disconnect hc reason
    rw [isOperator_roster, isOperator_roster, h]
    have hsub : ∀ r ∈ n.roster.channels k, r.operators ⊆ r.members := fun r hr =>
      H.operators_subset hr
    simp only [Roster.tell, Roster.drop]
    split
    · exact any_operators_without _ hj hsub
    · cases hr : n.roster.channels k with
      | none => rfl
      | some room => simp [H.members_nonempty hr]

theorem isOperator_close (H : n.roster.Consistent) (hj : j ≠ i) :
    (n.close i reason).isOperator j k = n.isOperator j k := by
  unfold close
  rw [isOperator_disconnect (by rw [roster_closing]; exact H) hj, isOperator_roster,
    isOperator_roster, roster_closing]

theorem registered_of_setOp (h : (n.setOp name nick give).1.isOperator j k ≠ n.isOperator j k) :
    n.registered nick = .ok j := by
  unfold setOp at h
  cases hm : n.member name nick with
  | error =>
    rw [hm] at h
    exact absurd rfl h
  | ok found =>
    obtain ⟨key, channel, i⟩ := found
    obtain ⟨hch, -, hreg⟩ := member_eq_ok hm
    rw [hreg, Except.ok.injEq]
    simp only [hm, orRefuse] at h
    split at h
    · exact absurd rfl h
    by_contra hj
    refine h ?_
    have hji : j ≠ i := fun he => hj he.symm
    simp only [isOperator, channels_emit, channels_broadcast, Map.lookup_insert]
    split
    next hkey =>
      subst hkey
      rw [hch]
      cases give <;> simp [hji]
    · rfl

def personOf : AdminCommand → Option String
  | .disconnect nick _ | .ban nick _ | .op _ nick | .deop _ nick => some nick
  | _ => none

/-- A command that names a person acts on nobody but whoever holds the nick. -/
theorem lookup_nicks_of_acts (H : n.roster.Consistent) (hp : personOf command = some nick)
    (h : n.Acts (n.runAdmin command).1 i) : n.nicks.lookup (fold nick) = some i := by
  rcases h with ⟨hsome, hnone⟩ | ⟨k, hk⟩
  · have hdeparts : n.Departs i (.runAdmin command) := departs_of_gone hsome hnone
    cases command with
    | disconnect =>
      obtain rfl := Option.some.inj hp
      exact (registered_eq_ok hdeparts).1
    | ban =>
      obtain rfl := Option.some.inj hp
      exact hdeparts.2.2
    | _ => exact hdeparts.elim
  replace hk : (n.execute command).1.isOperator i k ≠ n.isOperator i k := by
    simpa only [isOperator, runAdmin, channels_emit] using hk
  have hclose {n : Network} {j reason} (H : n.roster.Consistent)
      (hk : (n.close j reason).isOperator i k ≠ n.isOperator i k) : i = j := by
    by_contra hi
    exact hk (isOperator_close H hi)
  cases command with
  | disconnect nick reason =>
    obtain rfl := Option.some.inj hp
    simp only [execute] at hk
    cases hr : n.registered nick with
    | error =>
      rw [hr] at hk
      exact absurd rfl hk
    | ok j =>
      simp only [hr] at hk
      exact hclose H hk ▸ (registered_eq_ok hr).1
  | ban nick reason =>
    obtain rfl := Option.some.inj hp
    simp only [execute, ban] at hk
    split at hk
    · exact absurd rfl hk
    split at hk
    · exact absurd rfl hk
    split at hk
    next j hj => exact hclose (n := { n with banned := insert (fold nick) n.banned }) H hk ▸ hj
    · exact absurd rfl hk
  | op name nick | deop name nick =>
    obtain rfl := Option.some.inj hp
    exact (registered_eq_ok (registered_of_setOp hk)).1
  | _ => cases hp

end Ddirc.Server.Network
