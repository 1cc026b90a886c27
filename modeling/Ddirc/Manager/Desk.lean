import Ddirc.Server.Registration
import Ddirc.Server.Orders
import Ddirc.Manager.Model

/-! # The manager and its server

The manager works on a copy of the server's state that is as old as its last snapshot, and the
commands it gives name people by the nick shown there. A `Desk` is the server, the screen and the
commands on their way between them, each with what it was meant for. -/

namespace Ddirc.Manager
open Irc Server Option List
open Server.Network (personOf)

/-! ## What a key brings about -/

namespace App
variable {app' : App}

variable {app : App} {term : Terminal}

theorem snapshot_moveSelection : (app.moveSelection by_).snapshot = app.snapshot := by
  unfold moveSelection
  split <;> rfl

theorem confirm_moveSelection : (app.moveSelection by_).confirm = app.confirm := by
  unfold moveSelection
  split <;> rfl

theorem target_fst : ∃ flash, app.target.1 = { app with flash } := by
  unfold target
  split
  · split
    · exact ⟨app.flash, rfl⟩
    · split
      · exact ⟨_, rfl⟩
      · exact ⟨app.flash, rfl⟩
  · exact ⟨app.flash, rfl⟩
  · exact ⟨app.flash, rfl⟩

theorem mem_memberRows (h : m ∈ app.memberRows) :
    ∃ channel ∈ app.snapshot.channels, m ∈ channel.members := by
  cases hch : app.selectedChannel with
  | none => simp [memberRows, hch] at h
  | some channel =>
    rw [memberRows, hch] at h
    obtain ⟨name, -, hfind⟩ := bind_eq_some_iff.1 hch
    exact ⟨channel, mem_of_find?_eq_some hfind, h⟩

theorem mem_selectedMember (h : app.selectedMember = some m) :
    m ∈ app.memberRows ∧ app.member = some m.nick := by
  obtain ⟨nick, hmember, hrow⟩ := bind_eq_some_iff.1 h
  have hnick : m.nick = nick := by simpa using find?_some hrow
  exact ⟨mem_of_find?_eq_some hrow, hnick ▸ hmember⟩

/-- What a key may leave on the screen and give to the server: the snapshot stays; a question about
a person was there before or is about the target; a command about a person was asked about, or
typed, or is about the target. -/
structure Minds (app : App) (result : App × List AdminCommand) : Prop where
  snapshot : result.1.snapshot = app.snapshot
  confirm {question command nick} : result.1.confirm = some ⟨question, .admin command⟩ →
    personOf command = some nick → app.confirm = some ⟨question, .admin command⟩ ∨
      (app.confirm = none ∧ ∃ t, app.target.2 = some t ∧ t.nick = nick)
  commands {command nick} : command ∈ result.2 → personOf command = some nick →
    (∃ question, app.confirm = some ⟨question, .admin command⟩) ∨
      (app.confirm = none ∧ app.bar.isSome) ∨
      (app.confirm = none ∧ app.bar = none ∧ ∃ t, app.target.2 = some t ∧ t.nick = nick)

theorem minds_of_eq (hs : app'.snapshot = app.snapshot)
    (hc : app'.confirm = app.confirm ∨ app'.confirm = none) : app.Minds (app', []) where
  snapshot := hs
  confirm h _ := by
    rcases hc with hc | hc
    · exact .inl (hc ▸ h)
    · rw [hc] at h
      cases h
  commands h := nomatch h

theorem minds_confirmKey : app.Minds (app.confirmKey k) := by
  unfold confirmKey
  split
  iterate 2
    split
    · exact minds_of_eq rfl (.inl rfl)
    next question command h =>
      refine ⟨rfl, by simp, fun hc _ => .inl ⟨question, ?_⟩⟩
      rw [mem_singleton.1 hc, h]
    · exact minds_of_eq rfl (.inr rfl)
  all_goals first | exact minds_of_eq rfl (.inr rfl) | exact minds_of_eq rfl (.inl rfl)

theorem minds_barKey (hc : app.confirm = none) (hbar : app.bar.isSome) :
    app.Minds (app.barKey term k) := by
  unfold barKey
  split
  · exact minds_of_eq rfl (.inl rfl)
  · split
    · exact ⟨rfl, fun h => by simp [hc] at h, fun _ _ => .inr (.inl ⟨hc, hbar⟩)⟩
    · exact minds_of_eq rfl (.inl rfl)
    · exact minds_of_eq rfl (.inl rfl)
  · exact minds_of_eq rfl (.inl rfl)

theorem minds_channelKey (hs : app'.snapshot = app.snapshot)
    (hc : app'.confirm = app.confirm) : app.Minds (app'.channelKey c, []) := by
  have hask {q name} : app.Minds (app'.ask q (.admin (.closeChannel name none)), []) := by
    refine ⟨hs, fun h hn => ?_, nofun⟩
    simp only [ask, Option.some.injEq, Confirm.mk.injEq, Confirmed.admin.injEq] at h
    rw [← h.2] at hn
    cases hn
  unfold channelKey
  split
  · exact minds_of_eq hs (.inl hc)
  split
  · exact minds_of_eq hs (.inl hc)
  · exact minds_of_eq hs (.inl hc)
  · exact hask

theorem minds_actionKey (hc : app.confirm = none) (hbar : app.bar = none) :
    app.Minds (app.actionKey c) := by
  obtain ⟨flash, hflash⟩ := app.target_fst
  have htarget : app.target = ({ app with flash }, app.target.2) := Prod.ext hflash rfl
  unfold actionKey
  rw [htarget]
  generalize htarget : app.target.2 = target
  dsimp only
  -- a question about the target
  have hask {app' : App} {q : String} {command : AdminCommand} {t : Target}
      (hs : app'.snapshot = app.snapshot) (ht : app.target.2 = some t)
      (hp : personOf command = some t.nick) : app.Minds (app'.ask q (.admin command), []) := by
    refine ⟨hs, fun h hn => ?_, nofun⟩
    simp only [ask, Option.some.injEq, Confirm.mk.injEq, Confirmed.admin.injEq] at h
    rw [← h.2, hp] at hn
    exact .inr ⟨hc, t, ht, some.inj hn⟩
  split
  · split
    · exact minds_of_eq rfl (.inl rfl)
    · exact minds_of_eq rfl (.inl rfl)
  · exact hask rfl htarget rfl
  · exact hask rfl htarget rfl
  · exact minds_of_eq rfl (.inl rfl)
  · split
    · refine ⟨rfl, fun h => by simp [hc] at h, fun hm hn => .inr (.inr ⟨hc, hbar, _, htarget, ?_⟩)⟩
      rw [mem_singleton.1 hm] at hn
      split at hn <;> exact some.inj hn
    · exact minds_of_eq rfl (.inl rfl)
  · split
    · exact minds_channelKey rfl rfl
    · exact minds_of_eq rfl (.inl rfl)
  · split
    · exact minds_channelKey rfl rfl
    · exact minds_of_eq rfl (.inl rfl)
  · split
    · exact minds_channelKey rfl rfl
    · exact minds_of_eq rfl (.inl rfl)
  · exact minds_of_eq rfl (.inl rfl)
  · exact minds_of_eq rfl (.inl rfl)

theorem minds_normalKey (hc : app.confirm = none) (hbar : app.bar = none) :
    app.Minds (app.normalKey k) := by
  have hmove (by_ : Int) : app.Minds (app.moveSelection by_, []) :=
    minds_of_eq snapshot_moveSelection (.inl confirm_moveSelection)
  have hquit : app.Minds (app.ask "Stop the server?" .quit, []) := ⟨rfl, nofun, nofun⟩
  have hif {p : Prop} [Decidable p] {a b : App} (ha : app.Minds (a, [])) (hb : app.Minds (b, [])) :
      app.Minds (if p then a else b, []) := by
    split
    · exact ha
    · exact hb
  have hstill {app' : App} (hs : app'.snapshot = app.snapshot) (hc : app'.confirm = app.confirm) :
      app.Minds (app', []) := minds_of_eq hs (.inl hc)
  simp only [normalKey]
  split
  all_goals first
    | exact hstill rfl rfl
    | exact hmove _
    | exact hquit
    | exact hif (hstill rfl rfl) (hstill rfl rfl)
    | exact minds_actionKey hc hbar

theorem minds_key : app.Minds (app.key term k) := by
  unfold key
  dsimp only
  generalize (if (k.control || k.alt || app.bar.isNone) then term.shortcut k else k) = k
  split
  · exact minds_of_eq rfl (.inl rfl)
  split
  · exact minds_confirmKey
  next hc =>
    split
    next hbar => exact minds_barKey (by simpa using hc) hbar
    next hbar =>
      split
      · split
        all_goals exact minds_of_eq rfl (.inl rfl)
      · exact minds_normalKey (by simpa using hc) (by simpa using hbar)

end App

/-! ## The desk -/

/-- Where a command comes from: the command line, or a key, with whoever was highlighted when it was
pressed. -/
inductive Origin where
  | typed
  | key (who : Option ClientId)
  deriving Repr, DecidableEq

structure Desk where
  network : Network
  accepted : Finset ClientId
  app : App
  /-- The network as it was when the snapshot on the screen was taken. -/
  seen : Network
  /-- Who was highlighted when the open question was asked. -/
  asked : Option ClientId
  sent : List (AdminCommand × Origin)

inductive Move where
  /-- The server handles something that is not from the manager. -/
  | serve (op : Operation)
  | execute
  | look
  | press (key : KeyEvent)
  | tick (now : Nat)
  /-- The outcome of a command, shown on the status line. -/
  | hear (text : String) (ok : Bool)

namespace Desk

def highlightedMember (desk : Desk) : Option ClientId :=
  desk.app.selectedMember.bind fun m => desk.seen.nicks.lookup (fold m.nick)

/-- The connection that is highlighted where the keys are. -/
def highlighted (desk : Desk) : Option ClientId :=
  match desk.app.tab, desk.app.focus with
  | .users, _ => desk.app.selectedUser.map (·.id)
  | .channels, .members => desk.highlightedMember
  | _, _ => none

def start (server network : String) (now : Nat) : Desk where
  network := .init server network now
  accepted := ∅
  app := .blank now
  seen := .init server network now
  asked := none
  sent := []

def press (term : Terminal) (desk : Desk) (key : KeyEvent) : Desk :=
  let (app, commands) := desk.app.key term key
  let origin : Origin :=
    if desk.app.confirm.isSome then .key desk.asked
    else if desk.app.bar.isSome then .typed
    else .key desk.highlighted
  { desk with
    app
    asked := if desk.app.confirm.isSome then desk.asked else desk.highlighted
    sent := desk.sent ++ commands.map (·, origin) }

/-- Every walk of the server's maps gives the same snapshot (`Network.snapshot_eq`). -/
def step (term : Terminal) (desk : Desk) : Move → Desk
  | .serve op => { desk with
      network := desk.network.apply op
      accepted := match op with
        | .connect id => insert id desk.accepted
        | _ => desk.accepted }
  | .execute =>
    match desk.sent with
    | [] => desk
    | (command, _) :: sent => { desk with network := (desk.network.runAdmin command).1, sent }
  | .look => { desk with
      app := desk.app.setSnapshot (desk.network.snapshot (.ofEntries _ _))
      seen := desk.network }
  | .press key => desk.press term key
  | .tick now => { desk with app := desk.app.tick now }
  | .hear text ok => { desk with app := desk.app.say text ok }

/-- A connection is accepted under an id there has not been. -/
def Allows (desk : Desk) : Move → Prop
  | .serve (.connect id) => id ∉ desk.accepted
  | _ => True

def run (term : Terminal) (desk : Desk) (moves : List Move) : Desk := moves.foldl (step term) desk

/-- Each of the moves is allowed when its turn comes, and `P` holds of it then. -/
def Meets (term : Terminal) (P : Desk → Move → Prop) : Desk → List Move → Prop
  | _, [] => True
  | desk, move :: moves =>
    (desk.Allows move ∧ P desk move) ∧ Meets term P (desk.step term move) moves

instance : Decidable (Allows desk move) :=
  match move with
  | .serve (.connect _) => inferInstanceAs (Decidable (_ ∉ _))
  | .serve (.handle ..) | .serve (.disconnect ..) | .serve (.runAdmin _) | .serve (.ping _)
  | .serve .observe | .serve (.tick _) | .execute | .look | .press _ | .tick _ | .hear .. =>
    instDecidableTrue

instance decidableMeets {P : Desk → Move → Prop} [∀ desk move, Decidable (P desk move)] :
    (desk : Desk) → (moves : List Move) → Decidable (desk.Meets term P moves)
  | _, [] => instDecidableTrue
  | desk, move :: moves => @instDecidableAnd _ _ _ (decidableMeets (desk.step term move) moves)

/-! ## Who is meant -/

def ShowsMember (desk : Desk) (nick : String) (id : ClientId) : Prop :=
  (∃ channel ∈ desk.app.snapshot.channels, ∃ m ∈ channel.members, m.nick = nick) ∧
    desk.seen.nicks.lookup (fold nick) = some id

/-- By `nick` the manager means `id`: in a list, in the open question or in a command on its way. -/
def Means (desk : Desk) (nick : String) (id : ClientId) : Prop :=
  (∃ u ∈ desk.app.snapshot.users, u.registered = true ∧ u.nick = some nick ∧ u.id = id) ∨
  desk.ShowsMember nick id ∨
  (∃ question command, desk.app.confirm = some ⟨question, .admin command⟩ ∧
    personOf command = some nick ∧ desk.asked = some id) ∨
  ∃ command, (command, .key (some id)) ∈ desk.sent ∧ personOf command = some nick

/-- What must not happen: that someone takes a nick by which the manager means another, that someone
in a list of members is renamed, and that a nick is shown, for the characters in it that are written
out, as the nick of another. -/
def Calm (desk : Desk) : Move → Prop
  | .serve (.handle id message) => ∀ typed, message.command = .nick typed →
      (∀ nick who, desk.Means nick who → fold (Str.trim typed) = fold nick → who = id) ∧
      ∀ nick, desk.ShowsMember nick id → Str.trim typed = nick
  | .look => ∀ id client nick, desk.network.clients.lookup id = some client →
      client.registered = true → client.nick = some nick →
      ∀ j, desk.network.nicks.lookup (fold (clean nick)) = some j → j = id
  | _ => True

variable {desk : Desk} {term : Terminal}

/-- What the manager means by a nick is so: nobody else holds it, and whoever is shown as a member
holds it just as it is shown. A command about a person, asked about or given by key, was meant for
someone. -/
structure Sure (desk : Desk) : Prop where
  reachable : desk.network.Reachable
  accepted {id} : (desk.network.clients.lookup id).isSome → id ∈ desk.accepted
  known {nick id} : desk.ShowsMember nick id → id ∈ desk.accepted
  rows {channel m} : channel ∈ desk.app.snapshot.channels → m ∈ channel.members →
    (desk.seen.nicks.lookup (fold m.nick)).isSome
  alone {nick id j} : desk.Means nick id → desk.network.nicks.lookup (fold nick) = some j → j = id
  named {nick id client} : desk.ShowsMember nick id → desk.network.clients.lookup id = some client →
    client.nick = some nick
  asked {question command} : desk.app.confirm = some ⟨question, .admin command⟩ →
    (personOf command).isSome → desk.asked.isSome
  origins {command who} : (command, .key who) ∈ desk.sent → (personOf command).isSome → who.isSome

theorem sure_start (server network : String) (now : Nat) : (start server network now).Sure where
  reachable := .init _ _ _
  accepted h := by simp [start, Network.init] at h
  known h := by simp [ShowsMember, start, App.blank, emptySnapshot] at h
  rows h := by simp [start, App.blank, emptySnapshot] at h
  alone _ h := by simp [start, Network.init] at h
  named _ h := by simp [start, Network.init] at h
  asked h := by simp [start, App.blank] at h
  origins h := by simp [start] at h

theorem Sure.serve {sent : List (AdminCommand × Origin)} {accepted : Finset ClientId}
    {op : Operation} (h : desk.Sure) (hop : desk.Allows (.serve op)) (hcalm : desk.Calm (.serve op))
    (hsent : sent ⊆ desk.sent) (haccepted : desk.accepted ⊆ accepted)
    (hconn : ∀ id, op = .connect id → id ∈ accepted) :
    Sure { desk with network := desk.network.apply op, sent, accepted } := by
  have hallows : desk.network.Allows op := by
    cases op with
    | connect id =>
      refine not_isSome_iff_eq_none.1 fun hc => hop (h.accepted hc)
    | _ => trivial
  have hmeans {nick id}
      (hm : Means { desk with network := desk.network.apply op, sent, accepted } nick id) :
      desk.Means nick id := by
    rcases hm with hm | hm | hm | ⟨command, hc, hp⟩
    · exact .inl hm
    · exact .inr (.inl hm)
    · exact .inr (.inr (.inl hm))
    · exact .inr (.inr (.inr ⟨command, hsent hc, hp⟩))
  have harrives {id} (hnone : desk.network.clients.lookup id = none)
      (hsome : ((desk.network.apply op).clients.lookup id).isSome) : op = .connect id := by
    by_contra hne
    simp [(Network.unheard hnone hne).1] at hsome
  refine ⟨h.reachable.step op hallows trivial, fun {id} hc => ?_, fun hm => haccepted (h.known hm),
    h.rows, fun {nick id j} hm hj => ?_, fun {nick id after} hm hafter => ?_, h.asked,
    fun hc hp => h.origins (hsent hc) hp⟩
  · by_cases hold : (desk.network.clients.lookup id).isSome
    · exact haccepted (h.accepted hold)
    · exact hconn id (harrives (not_isSome_iff_eq_none.1 hold) hc)
  · -- whoever took the nick was the one meant
    rcases Network.lookup_nicks_apply hj with hj | ⟨message, typed, rfl, hm', hk⟩
    · exact h.alone (hmeans hm) hj
    · exact ((hcalm typed hm').1 nick id (hmeans hm) hk.symm).symm
  · cases hc : desk.network.clients.lookup id with
    | none =>
      obtain rfl := harrives hc (by rw [hafter]; rfl)
      exact absurd (h.known hm) hop
    | some client =>
      rcases Network.nick_apply hallows hc hafter with hsame | ⟨message, typed, rfl, hm', hnick⟩
      · rw [hsame]
        exact h.named hm hc
      · rw [hnick, (hcalm typed hm').2 nick hm]

/-! ## Looking -/

theorem nick_of_row {n : Network} {id : ClientId} {walk : Walk n.clients n.channels}
    (H : n.roster.Consistent) (hch : channel ∈ (n.snapshot walk).channels)
    (hm : m ∈ channel.members) (hid : n.nicks.lookup (fold m.nick) = some id) :
    ∃ client, n.clients.lookup id = some client ∧ client.nick = some m.nick := by
  obtain ⟨i, client, hc, hnick⟩ := Network.lookup_of_mem_members hch hm
  have hi : n.nicks.lookup (fold m.nick) = some i :=
    H.nicks_iff.2 ⟨_, m.nick, Network.clients_roster hc, hnick, rfl⟩
  obtain rfl := some.inj (hi.symm.trans hid)
  exact ⟨client, hc, hnick⟩

theorem Sure.look (h : desk.Sure) (hcalm : desk.Calm .look) : (desk.step term .look).Sure := by
  have H := h.reachable.consistent
  have hshown {nick id} (hm : (desk.step term .look).ShowsMember nick id) :
      ∃ client, desk.network.clients.lookup id = some client ∧ client.nick = some nick := by
    obtain ⟨⟨channel, hch, m, hm, rfl⟩, hid⟩ := hm
    exact nick_of_row H hch hm hid
  refine ⟨h.reachable, h.accepted, fun hm => ?_, fun hch hm => ?_, fun {nick id j} hm hj => ?_,
    fun hm hc => ?_, h.asked, h.origins⟩
  · obtain ⟨client, hc, -⟩ := hshown hm
    exact h.accepted (by rw [hc]; rfl)
  · obtain ⟨i, client, hc, hnick⟩ := Network.lookup_of_mem_members hch hm
    have hi : desk.network.nicks.lookup (fold _) = some i :=
      H.nicks_iff.2 ⟨_, _, Network.clients_roster hc, hnick, rfl⟩
    exact isSome_iff_exists.2 ⟨i, hi⟩
  · rcases hm with ⟨u, hu, hreg, hnick, rfl⟩ | hm | hm | hm
    · obtain ⟨client, hc, hshow, hreg'⟩ := Network.lookup_of_mem_users hu
      rw [hshow] at hnick
      obtain ⟨name, hname, rfl⟩ := map_eq_some_iff.1 hnick
      exact hcalm u.id client name hc (hreg' ▸ hreg) hname j hj
    · exact (some.inj (hm.2.symm.trans hj)).symm
    · exact h.alone (.inr (.inr (.inl hm))) hj
    · exact h.alone (.inr (.inr (.inr hm))) hj
  · obtain ⟨client, hc', hnick⟩ := hshown hm
    rw [← some.inj (hc'.symm.trans hc), hnick]

/-! ## Pressing -/

theorem Sure.target (h : desk.Sure) (ht : desk.app.target.2 = some t) :
    ∃ id, desk.highlighted = some id ∧ desk.Means t.nick id := by
  unfold App.target at ht
  split at ht
  next htab =>
    split at ht
    · cases ht
    next u hu =>
      split at ht
      · cases ht
      next nick hnick =>
        obtain ⟨hnick, hreg⟩ := filter_eq_some_iff.1 hnick
        obtain rfl := some.inj ht
        refine ⟨u.id, by simp [highlighted, htab, hu], .inl ⟨u, ?_, hreg, hnick, rfl⟩⟩
        obtain ⟨id, -, hu⟩ := bind_eq_some_iff.1 hu
        exact mem_of_find?_eq_some hu
  next htab hfocus =>
    obtain ⟨channel, hch, ht⟩ := bind_eq_some_iff.1 ht
    obtain ⟨m, hm, ht⟩ := bind_eq_some_iff.1 ht
    obtain rfl := some.inj ht
    obtain ⟨shown, hshown, hmem⟩ := App.mem_memberRows (App.mem_selectedMember hm).1
    obtain ⟨id, hid⟩ := isSome_iff_exists.1 (h.rows hshown hmem)
    refine ⟨id, ?_, .inr (.inl ⟨⟨shown, hshown, m, hmem, rfl⟩, hid⟩)⟩
    simp only [highlighted, htab, hfocus, highlightedMember, hm, bind_some, hid]
  · cases ht

theorem Sure.means_of_press {id : ClientId} (h : desk.Sure)
    (hm : (desk.press term k).Means nick id) : desk.Means nick id := by
  have hminds : desk.app.Minds (desk.app.key term k) := App.minds_key
  have hsnapshot : (desk.press term k).app.snapshot = desk.app.snapshot := hminds.snapshot
  -- whoever the target is, is the one highlighted
  have htarget {t} (ht : desk.app.target.2 = some t) (hi : desk.highlighted = some id) :
      desk.Means t.nick id := by
    obtain ⟨j, hj, hmeans⟩ := h.target ht
    rwa [some.inj (hi.symm.trans hj)]
  rcases hm with hm | hm | ⟨question, command, hc, hp, hasked⟩ | ⟨command, hc, hp⟩
  · exact .inl (hsnapshot ▸ hm)
  · refine .inr (.inl ?_)
    unfold ShowsMember at hm
    rw [hsnapshot] at hm
    exact hm
  · rcases hminds.confirm hc hp with hold | ⟨hnone, t, ht, rfl⟩
    · refine .inr (.inr (.inl ⟨question, command, hold, hp, ?_⟩))
      simpa only [press, hold, isSome_some, if_true] using hasked
    · refine htarget ht ?_
      simpa only [press, hnone, isSome_none, Bool.false_eq_true, if_false] using hasked
  · rcases mem_append.1 hc with hc | hc
    · exact .inr (.inr (.inr ⟨command, hc, hp⟩))
    obtain ⟨command, hgiven, heq⟩ := mem_map.1 hc
    obtain ⟨rfl, horigin⟩ := Prod.mk.inj heq
    rcases hminds.commands hgiven hp with
      ⟨question, hold⟩ | ⟨hnone, hbar⟩ | ⟨hnone, hbar, t, ht, rfl⟩
    · refine .inr (.inr (.inl ⟨question, command, hold, hp, ?_⟩))
      simpa only [hold, isSome_some, if_true, Origin.key.injEq] using horigin
    · simp [hnone, hbar] at horigin
    · refine htarget ht ?_
      simpa only [hnone, hbar, isSome_none, Bool.false_eq_true, if_false,
        Origin.key.injEq] using horigin

theorem Sure.press (h : desk.Sure) : (desk.press term k).Sure := by
  have hminds : desk.app.Minds (desk.app.key term k) := App.minds_key
  have hsnapshot : (desk.press term k).app.snapshot = desk.app.snapshot := hminds.snapshot
  have hshows {nick id} (hm : (desk.press term k).ShowsMember nick id) :
      desk.ShowsMember nick id := by
    unfold ShowsMember at hm
    rw [hsnapshot] at hm
    exact hm
  have htarget {t} (ht : desk.app.target.2 = some t) : desk.highlighted.isSome := by
    obtain ⟨id, hid, -⟩ := h.target ht
    rw [hid]
    rfl
  refine ⟨h.reachable, h.accepted, fun hm => h.known (hshows hm), fun hch => ?_,
    fun hm => h.alone (h.means_of_press hm), fun hm => h.named (hshows hm), fun hc hp => ?_,
    fun {command who} hc hp => ?_⟩
  · rw [hsnapshot] at hch
    exact h.rows hch
  · obtain ⟨nick, hp'⟩ := isSome_iff_exists.1 hp
    rcases hminds.confirm hc hp' with hold | ⟨hnone, t, ht, -⟩
    · simpa only [Desk.press, hold, isSome_some, if_true] using h.asked hold hp
    · simpa only [Desk.press, hnone, isSome_none, Bool.false_eq_true, if_false] using
        htarget ht
  · rcases mem_append.1 hc with hc | hc
    · exact h.origins hc hp
    obtain ⟨command, hgiven, heq⟩ := mem_map.1 hc
    obtain ⟨rfl, horigin⟩ := Prod.mk.inj heq
    obtain ⟨nick, hp'⟩ := isSome_iff_exists.1 hp
    rcases hminds.commands hgiven hp' with
      ⟨question, hold⟩ | ⟨hnone, hbar⟩ | ⟨hnone, hbar, t, ht, -⟩
    · simp only [hold, isSome_some, if_true, Origin.key.injEq] at horigin
      exact horigin ▸ h.asked hold hp
    · simp [hnone, hbar] at horigin
    · simp only [hnone, hbar, isSome_none, Bool.false_eq_true, if_false,
        Origin.key.injEq] at horigin
      exact horigin ▸ htarget ht

/-! ## Runs -/

theorem Sure.step {move : Move} (h : desk.Sure) (hallows : desk.Allows move)
    (hcalm : desk.Calm move) : (desk.step term move).Sure := by
  cases move with
  | serve op =>
    refine h.serve hallows hcalm (List.Subset.refl _) ?_ ?_
    · split
      · exact Finset.subset_insert _ _
      · exact Finset.Subset.refl _
    · rintro id rfl
      exact Finset.mem_insert_self _ _
  | execute =>
    unfold Desk.step
    dsimp only
    split
    · exact h
    next command origin sent hsent =>
      have hsubset : sent ⊆ desk.sent := by
        rw [hsent]
        exact subset_cons_self _ _
      have hop : desk.Allows (.serve (.runAdmin command)) := trivial
      exact h.serve hop trivial hsubset (Finset.Subset.refl _) nofun
  | look => exact h.look hcalm
  | press key => exact h.press
  | tick now | hear text ok => exact ⟨h.1, h.2, h.3, h.4, h.5, h.6, h.7, h.8⟩

theorem Sure.run (h : desk.Sure) (hmeets : desk.Meets term Calm moves) :
    (desk.run term moves).Sure := by
  induction moves generalizing desk with
  | nil => exact h
  | cons move moves ih => exact ih (h.step hmeets.1.1 hmeets.1.2) hmeets.2

/-! ## The highlight -/

theorem reselect_of_mem {T K : Type} [BEq K] [LawfulBEq K] {items : List T} {key : T → K} {k : K}
    (h : ∃ item ∈ items, key item = k) : reselect items key (some k) wasAt = some k := by
  obtain ⟨item, hmem, rfl⟩ := h
  unfold reselect
  rw [if_pos]
  simpa using ⟨item, hmem, rfl⟩

theorem Sure.highlightedMember_look {id : ClientId} (h : desk.Sure)
    (hid : desk.highlightedMember = some id) (hrow : ∃ m ∈ (desk.step term .look).app.memberRows,
      desk.network.nicks.lookup (fold m.nick) = some id) :
    (desk.step term .look).highlightedMember = some id := by
  obtain ⟨m, hm, hseen⟩ := bind_eq_some_iff.1 hid
  obtain ⟨hrow₀, hmember⟩ := App.mem_selectedMember hm
  obtain ⟨m', hm', hnow⟩ := hrow
  -- the row it has now bears the nick that was selected
  have hnick : m'.nick = m.nick := by
    obtain ⟨channel, hch, hmem⟩ := App.mem_memberRows hm'
    obtain ⟨client, hc, hnick⟩ := nick_of_row h.reachable.consistent hch hmem hnow
    have hold := h.named ⟨⟨_, (App.mem_memberRows hrow₀).choose_spec.1, m,
      (App.mem_memberRows hrow₀).choose_spec.2, rfl⟩, hseen⟩ hc
    exact some.inj (hnick.symm.trans hold)
  have hkept : (desk.step term .look).app.member = some m.nick := by
    change reselect (desk.step term .look).app.memberRows (·.nick) desk.app.member _ = _
    rw [hmember]
    exact reselect_of_mem ⟨m', hm', hnick⟩
  obtain ⟨m'', hm''⟩ : ∃ m'', (desk.step term .look).app.selectedMember = some m'' := by
    unfold App.selectedMember
    rw [hkept]
    refine isSome_iff_exists.1 (find?_isSome.2 ⟨m', hm', by simp [hnick]⟩)
  have hnick'' : m''.nick = m.nick := by
    have := (App.mem_selectedMember hm'').2
    exact some.inj (this.symm.trans hkept)
  unfold highlightedMember
  rw [hm'', bind_some, hnick'', ← hnick]
  exact hnow

/-- In every run in which nobody takes a nick by which the manager means another, nobody in a list
of members is renamed and no nick is shown as another's: whomever a command given by key
disconnects, or makes or unmakes an operator, was highlighted when the key was pressed; and with the
next snapshot the highlight is on the same connection, among the users and among the members, if it
is in the list. -/
theorem acts_on_chosen (term : Terminal) (server network : String) (now : Nat) (moves : List Move)
    (hcalm : (start server network now).Meets term Calm moves) :
    let desk := (start server network now).run term moves
    (∀ command who rest, desk.sent = (command, .key who) :: rest → (personOf command).isSome →
      ∀ id, desk.network.Acts (desk.step term .execute).network id → who = some id) ∧
    (∀ id, desk.app.user = some id → (∃ u ∈ (desk.step term .look).app.snapshot.users, u.id = id) →
      (desk.step term .look).app.user = some id) ∧
    ∀ id, desk.highlightedMember = some id →
      (∃ m ∈ (desk.step term .look).app.memberRows,
        desk.network.nicks.lookup (fold m.nick) = some id) →
      (desk.step term .look).highlightedMember = some id := by
  intro desk
  have h : desk.Sure := (sure_start server network now).run hcalm
  refine ⟨fun command who rest hsent hp id hacts => ?_, fun id huser hrow => ?_,
    fun id hid hrow => h.highlightedMember_look hid hrow⟩
  · have hmem : (command, .key who) ∈ desk.sent := by rw [hsent]; exact mem_cons_self
    obtain ⟨chosen, rfl⟩ := isSome_iff_exists.1 (h.origins hmem hp)
    obtain ⟨nick, hp⟩ := isSome_iff_exists.1 hp
    have hexec : (desk.step term .execute).network = (desk.network.runAdmin command).1 := by
      simp only [step, hsent]
    rw [hexec] at hacts
    have hheld := Network.lookup_nicks_of_acts h.reachable.consistent hp hacts
    rw [h.alone (.inr (.inr (.inr ⟨command, hmem, hp⟩))) hheld]
  · change reselect _ _ desk.app.user _ = _
    rw [huser]
    exact reselect_of_mem hrow

def keys : Terminal := ⟨fun _ => none, fun line _ => line⟩

/-- Two people come, the second of them is selected, and `x` is pressed. -/
def choosing : List Move :=
  let line (id : ClientId) (command : Command) := Move.serve (.handle id { command })
  [.serve (.connect 1), line 1 (.nick "ann"), line 1 (.user "ann" "0" "Ann"),
    .serve (.connect 2), line 2 (.nick "bob"), line 2 (.user "bob" "0" "Bob"),
    .look, .press ⟨.down, false, false⟩, .press ⟨.char 'x', false, false⟩]

theorem acts_on_chosen_second :
    let desk := (start "srv" "net" 0).run keys (choosing ++ [.press ⟨.char 'y', false, false⟩])
    desk.sent.map (·.1) = [.disconnect "bob" none] ∧
      (desk.network.clients.lookup 2).isSome ∧
      (desk.step keys .execute).network.clients.lookup 2 = none ∧
      ∀ command who, desk.sent = [(command, .key who)] → who = some 2 := by
  have hblank {id : ClientId} {command : Command} {desk : Desk} (hr : desk.app = .blank 0)
      (hs : desk.sent = []) : desk.Calm (.serve (.handle id { command })) := by
    have hnobody (nick who) : ¬ desk.Means nick who := by
      simp [Means, ShowsMember, hr, hs, App.blank, emptySnapshot]
    exact fun typed _ => ⟨fun nick who hm => absurd hm (hnobody nick who),
      fun nick hm => absurd (.inr (.inl hm)) (hnobody nick id)⟩
  -- neither nick is shown as the other's
  have hlook : ((start "srv" "net" 0).run keys (choosing.take 6)).Calm .look := by
    have hrows : ∀ p ∈ ((start "srv" "net" 0).run keys (choosing.take 6)).network.clients.entries,
        ∀ nick ∈ p.2.nick, ∀ j ∈ ((start "srv" "net" 0).run keys
          (choosing.take 6)).network.nicks.lookup (fold (clean nick)), j = p.1 := by decide +kernel
    intro id client nick hc _ hnick j hj
    exact hrows _ (AList.mem_lookup_iff.1 hc) nick hnick j hj
  have hcalm : (start "srv" "net" 0).Meets keys Calm
      (choosing ++ [.press ⟨.char 'y', false, false⟩]) :=
    ⟨⟨by decide, trivial⟩, ⟨trivial, hblank rfl rfl⟩, ⟨trivial, hblank rfl rfl⟩,
      ⟨by decide, trivial⟩, ⟨trivial, hblank rfl rfl⟩, ⟨trivial, hblank rfl rfl⟩,
      ⟨trivial, hlook⟩, ⟨trivial, trivial⟩, ⟨trivial, trivial⟩, ⟨trivial, trivial⟩, trivial⟩
  have hsent : ((start "srv" "net" 0).run keys
      (choosing ++ [.press ⟨.char 'y', false, false⟩])).sent.map (·.1) =
        [.disconnect "bob" none] := by decide +kernel
  obtain ⟨hin, hgone⟩ : (((start "srv" "net" 0).run keys
      (choosing ++ [.press ⟨.char 'y', false, false⟩])).network.clients.lookup 2).isSome ∧
      (((start "srv" "net" 0).run keys (choosing ++ [.press ⟨.char 'y', false, false⟩])).step keys
        .execute).network.clients.lookup 2 = none := by decide +kernel
  refine ⟨hsent, hin, hgone, fun command who h => ?_⟩
  refine (acts_on_chosen keys "srv" "net" 0 _ hcalm).1 command who [] h ?_ 2 (.inl ⟨hin, hgone⟩)
  rw [h] at hsent
  obtain rfl : command = .disconnect "bob" none := (cons.inj hsent).1
  rfl

/-- Before the question is answered, the second takes another nick and the first takes its old
one: the answer disconnects the first. -/
theorem acts_on_another :
    let moves := choosing ++ [.serve (.handle 2 { command := .nick "rob" }),
      .serve (.handle 1 { command := .nick "bob" }), .press ⟨.char 'y', false, false⟩]
    let desk := (start "srv" "net" 0).run keys moves
    (start "srv" "net" 0).Meets keys (fun _ _ => True) moves ∧
    desk.sent = [(.disconnect "bob" none, .key (some 2))] ∧
    (desk.network.clients.lookup 1).isSome ∧
    (desk.step keys .execute).network.clients.lookup 1 = none ∧
    (desk.step keys .execute).network.nicks.lookup "rob" = some 2 := by
  decide +kernel

end Desk

end Ddirc.Manager
