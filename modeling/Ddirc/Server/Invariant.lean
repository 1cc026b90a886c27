import Ddirc.Server.Deed

/-! # The server's indexes agree

A network keeps who is where in five places: the nick of each client, the index of nicks, the
channels of each client, the members and the operators of each channel. In every reachable state
they say the same (`indexes_agree`): every run is one of the roster (`run_refines`), whose steps
keep it consistent. -/

namespace Ddirc.Server
open Irc

namespace Network

theorem roster_init_consistent (server network : String) (now : Nat) :
    (init server network now).roster.Consistent where
  nicks_iff := by simp [roster, init]
  channels_iff h := by simp [roster, init] at h
  operators_subset h := by simp [roster, init] at h
  members_nonempty h := by simp [roster, init] at h
  filed h := by simp [roster, init] at h
  registered h := by simp [roster, init] at h

theorem ReachableBy.consistent (h : ReachableBy P n) : n.roster.Consistent := by
  induction h with
  | init => exact roster_init_consistent _ _ _
  | step op _ hop _ ih => exact ih.steps (apply_steps hop)

/-- In every state the server can be in: a folded nick is in the index exactly for the connected
client that holds it; a channel is among a client's exactly when the client is among its members;
operators are members; no channel is empty; a channel is filed under its folded name; and every
member is connected and registered. -/
theorem indexes_agree {n : Network} (h : n.Reachable) :
    (∀ k id, n.nicks.lookup k = some id ↔
      ∃ c nick, n.clients.lookup id = some c ∧ c.nick = some nick ∧ fold nick = k) ∧
    (∀ id c k, n.clients.lookup id = some c →
      (k ∈ c.channels ↔ ∃ ch, n.channels.lookup k = some ch ∧ id ∈ ch.members)) ∧
    (∀ k ch, n.channels.lookup k = some ch → ch.operators ⊆ ch.members) ∧
    (∀ k ch, n.channels.lookup k = some ch → ch.members ≠ ∅) ∧
    (∀ k ch, n.channels.lookup k = some ch → fold ch.name = k) ∧
    (∀ k ch id, n.channels.lookup k = some ch → id ∈ ch.members →
      ∃ c, n.clients.lookup id = some c ∧ c.registered = true) := by
  have H := h.consistent
  refine ⟨?_, ?_, ?_, ?_, ?_, ?_⟩
  · intro k id
    refine H.nicks_iff.trans ?_
    simp [roster, Client.view]
  · intro id c k hc
    refine (H.channels_iff (clients_roster hc)).trans ?_
    simp [roster, Channel.view]
  · intro k ch hch
    exact (H.operators_subset (channels_roster hch) :)
  · intro k ch hch
    exact (H.members_nonempty (channels_roster hch) :)
  · intro k ch hch
    exact (H.filed (channels_roster hch) :)
  · intro k ch id hch hid
    obtain ⟨c, hc, hreg⟩ := H.registered (channels_roster hch) hid
    simp only [roster, Option.map_eq_some_iff] at hc
    obtain ⟨c, hc, rfl⟩ := hc
    exact ⟨c, hc, hreg⟩

/-- Two clients meet in a channel that one of them created. -/
def meeting : List Operation :=
  let line (id : ClientId) (command : Command) := Operation.handle id { command }
  [.connect 1, line 1 (.nick "Ann"), line 1 (.user "ann" "0" "Ann"),
    line 1 (.join "#Den" none none),
    .connect 2, line 2 (.nick "bob"), line 2 (.user "bob" "0" "Bob"),
      line 2 (.join "#den" none none)]

theorem indexes_agree_meeting :
    let n := (init "srv" "net" 0).run meeting
    n.channels.keys = ["#den"] ∧ n.nicks.keys = ["bob", "ann"] ∧
    ((n.channels.lookup "#den").map fun ch => (ch.name, ch.members, ch.operators)) =
      some ("#Den", {1, 2}, {1}) ∧
    ∀ k ch id, n.channels.lookup k = some ch → id ∈ ch.members →
      ∃ c, n.clients.lookup id = some c ∧ c.registered = true := by
  have hops : (init "srv" "net" 0).Meets (fun _ _ => True) meeting := by decide +kernel
  have h := indexes_agree ((ReachableBy.init "srv" "net" 0).run hops)
  exact ⟨by decide +kernel, by decide +kernel, by decide +kernel, h.2.2.2.2.2⟩

/-- A run of the server is a run of the roster, which lets in only what the operations ask for. -/
theorem run_refines {n : Network} {ops : List Operation} (h : n.Meets (fun _ _ => True) ops) :
    n.roster.Steps (fun l => ∃ op ∈ ops, letsIn op l) (n.run ops).roster := by
  induction ops generalizing n with
  | nil => exact .refl
  | cons op ops ih =>
    refine ((apply_steps h.1.1).mono fun _ hl => ⟨op, .head _, hl⟩).trans ?_
    exact (ih h.2).mono fun _ => Exists.imp fun _ => And.imp_left (.tail _)

theorem run_refines_meeting :
    (init "srv" "net" 0).Meets (fun _ _ => True) meeting ∧ (init "srv" "net" 0).roster.Steps
      (fun l => ∃ op ∈ meeting, letsIn op l) ((init "srv" "net" 0).run meeting).roster := by
  have h : (init "srv" "net" 0).Meets (fun _ _ => True) meeting := by decide +kernel
  exact ⟨h, run_refines h⟩

end Network

end Ddirc.Server
