import Mathlib.Data.Finset.Basic
import Mathlib.Logic.Function.Basic
import Mathlib.Logic.Relation
import Ddirc.Server.State

/-! # Who is where, and what each client was told about it

The abstract server. Of a network a `Roster` has only who is connected under which nick, who is in
which channel with which rank, and the messages about these that each client was sent. `Roster.Step`
lists the ways it changes, each announced as it happens. `Consistent` says that the indexes agree,
and every step keeps it so. -/

namespace Ddirc.Server
open Irc Function Option Finset

/-- Whether a command is one that a client's picture of the server depends on. -/
def tellsRoster : Command → Bool
  | .join .. | .part .. | .kick .. | .quit _ | .nick _ | .channelMode .. | .away _ => true
  | .topic _ topic => topic.isSome
  | .raw command _ => command == "MODE"
  | .response r _ => r ∈ [.rplWelcome, .rplISupport, .rplNamReply, .rplEndOfNames, .rplTopic]
  | _ => false

def isWelcome (m : Message) : Bool :=
  match m.command with
  | .response .rplWelcome _ => true
  | _ => false

/-- A client: its nick, whether it is registered, and the folded names of its channels. -/
structure Person where
  nick : Option String := none
  registered : Bool := false
  channels : Finset String := ∅
  deriving DecidableEq

/-- A channel: its name as first typed, its members and its operators. -/
structure Room where
  name : String
  members : Finset ClientId
  operators : Finset ClientId
  deriving DecidableEq

def Room.without (room : Room) (id : ClientId) : Room :=
  { room with members := room.members.erase id, operators := room.operators.erase id }

@[ext] structure Roster where
  serverName : String
  networkName : String
  clients : ClientId → Option Person
  nicks : String → Option ClientId
  channels : String → Option Room
  /-- The news each client has been sent. -/
  told : ClientId → List Message

namespace Roster

variable (r : Roster)

def nickOf (id : ClientId) : String := ((r.clients id).bind (·.nick)).getD "*"

def isRegistered (id : ClientId) : Bool := (r.clients id).any (·.registered)

def tell (whom : ClientId → Prop) [DecidablePred whom] (message : Message) : Roster :=
  { r with told := fun i =>
      if whom i ∧ (r.clients i).isSome then r.told i ++ [message] else r.told i }

def tellMembers (room : Room) (message : Message) : Roster := r.tell (· ∈ room.members) message

def sharesOne (names : Finset String) (i : ClientId) : Prop :=
  ∃ name ∈ names, (r.channels name).any (i ∈ ·.members)

instance : Decidable (sharesOne r names i) := inferInstanceAs (Decidable (∃ _ ∈ _, _))

def modifyClient (id : ClientId) (f : Person → Person) : Roster :=
  { r with clients := update r.clients id ((r.clients id).map f) }

def numeric (id : ClientId) (response : Response) (args : List String) : Roster :=
  r.tell (· = id) {
    source := some (.serverName r.serverName), command := .response response (r.nickOf id :: args) }

/-! ## The changes -/

def connect (id : ClientId) : Roster :=
  { r with clients := update r.clients id (some {}), told := update r.told id [] }

/-- The index of nicks without the one given. -/
def released : Option String → String → Option ClientId
  | some nick => update r.nicks (fold nick) none
  | none => r.nicks

def claim (id : ClientId) (nick : String) : Roster :=
  { r.modifyClient id ({ · with nick := some nick }) with
    nicks := update (r.released ((r.clients id).bind (·.nick))) (fold nick) id }

def register (id : ClientId) (text : String) : Roster :=
  let r := r.modifyClient id ({ · with registered := true })
  let r := r.numeric id .rplWelcome [text]
  r.numeric id .rplISupport
    (Network.isupportTokens r.networkName ++ ["are supported by this server"])

def names (room : Room) : List String :=
  sorted (room.members.val.filterMap fun m =>
    ((r.clients m).bind (·.nick)).map fun nick =>
      if m ∈ room.operators then "@" ++ nick else nick)

/-- `id` is told that `names` are the members of a channel. -/
def listNames (id : ClientId) (shown : String) (names : List String) : Roster :=
  (if names.isEmpty then r else r.numeric id .rplNamReply ["=", shown, Str.join " " names]).numeric
    id .rplEndOfNames [shown, "End of /NAMES list"]

def list (id : ClientId) (name : String) : Roster :=
  match r.channels (fold name) with
  | some room => r.listNames id room.name (r.names room)
  | none => r.listNames id name []

/-- The channel `id` enters when it joins `name`: a new one makes it an operator. -/
def entered (id : ClientId) (name : String) : Room :=
  match r.channels (fold name) with
  | some room => { room with members := insert id room.members }
  | none => { name, members := {id}, operators := {id} }

def place (id : ClientId) (name : String) : Roster :=
  { r.modifyClient id (fun c => { c with channels := insert (fold name) c.channels }) with
    channels := update r.channels (fold name) (r.entered id name) }

/-- `id` is told the topic of a channel, where there is one. -/
def showTopic (id : ClientId) (name : String) (topic : Option String) : Roster :=
  match topic with
  | some text => r.numeric id .rplTopic [name, text]
  | none => r

/-- `id` joins: everyone in the channel hears of it, and `id` hears what it is about and who they
are. -/
def enter (id : ClientId) (name user : String) (topic : Option String) : Roster :=
  let room := r.entered id name
  let r := r.place id name
  let r := r.tellMembers room {
    source := some (.nickname (r.nickOf id) user host), command := .join room.name none none }
  let r := r.showTopic id room.name topic
  r.list id room.name

def remove (key : String) (id : ClientId) : Roster :=
  { r.modifyClient id (fun c => { c with channels := c.channels.erase key }) with
    channels := update r.channels key
      (((r.channels key).map (·.without id)).filter (·.members ≠ ∅)) }

def setOperators (key : String) (operators : Finset ClientId) : Roster :=
  { r with channels := update r.channels key ((r.channels key).map ({ · with operators })) }

def drop (id : ClientId) (client : Person) : Roster :=
  { r with
    clients := update r.clients id none
    nicks := r.released client.nick
    channels := fun name => if name ∈ client.channels
      then ((r.channels name).map (·.without id)).filter (·.members ≠ ∅)
      else (r.channels name).filter (·.members ≠ ∅) }

/-- What a step lets in: a nick, a member, or nothing. -/
inductive Label where
  | quiet
  | claim (nick : String)
  | enter (id : ClientId) (name : String)

def isTopic : Command → Prop
  | .topic _ topic => topic.isSome
  | .response r _ => r = .rplTopic
  | _ => False

/-- The ways a roster changes. -/
inductive Step (r : Roster) : Label → Roster → Prop where
  | connects (id : ClientId) : r.clients id = none → Step r .quiet (r.connect id)
  /-- Before registration a nick is taken without anyone hearing of it. -/
  | claims (id : ClientId) (nick : String) : validNick nick → r.clients id = some client →
    (∀ old, client.registered = true → client.nick = some old → old = nick) →
    (∀ holder, r.nicks (fold nick) = some holder → holder = id) →
    Step r (.claim nick) (r.claim id nick)
  | registers (id : ClientId) (text : String) : r.clients id = some client →
    client.registered = false → client.nick = some nick → Step r .quiet (r.register id text)
  | renames (id : ClientId) (user nick : String) : validNick nick →
    r.clients id = some client → client.registered = true → client.nick = some old →
    (∀ holder, r.nicks (fold nick) = some holder → holder = id) →
    Step r (.claim nick) ((r.claim id nick).tell (fun i => i = id ∨ r.sharesOne client.channels i)
      { source := some (.nickname old user host), command := .nick nick })
  | enters (id : ClientId) (name user : String) (topic : Option String) : validChannel name →
    r.clients id = some client → client.registered = true →
    (∀ room, r.channels (fold name) = some room → id ∉ room.members) →
    Step r (.enter id name) (r.enter id name user topic)
  | lists (id : ClientId) (name : String) : r.isRegistered id → Step r .quiet (r.list id name)
  | shows (whom : ClientId → Prop) [DecidablePred whom] (message : Message) :
    isTopic message.command → Step r .quiet (r.tell whom message)
  | parts (id : ClientId) (key user : String) (reason : Option String) :
    r.channels key = some room → id ∈ room.members →
    Step r .quiet ((r.tellMembers room {
      source := some (.nickname (r.nickOf id) user host)
      command := .part room.name reason }).remove key id)
  | kicks (victim : ClientId) (key : String) (by_ : Prefix) (reason : Option String) :
    r.channels key = some room → victim ∈ room.members →
    Step r .quiet ((r.tellMembers room {
      source := some by_, command := .kick room.name (r.nickOf victim) reason }).remove key victim)
  | ops (id : ClientId) (key : String) (give : Bool) : r.channels key = some room →
    id ∈ room.members →
    Step r .quiet ((r.setOperators key
        (if give then insert id room.operators else room.operators.erase id)).tellMembers room {
      source := some (.serverName r.serverName)
      command := .raw "MODE" [room.name, if give then "+o" else "-o", r.nickOf id] })
  | quits (id : ClientId) (user said : String) : r.clients id = some client →
    Step r .quiet ((r.drop id client).tell (fun i => i ≠ id ∧ r.sharesOne client.channels i) {
      source := some (.nickname (client.nick.getD "*") user host), command := .quit (some said) })

/-! ## What telling leaves alone -/

variable {id : ClientId}

@[simp] theorem listNames_clients : (r.listNames id shown l).clients = r.clients := by
  unfold listNames
  split <;> rfl

@[simp] theorem listNames_nicks : (r.listNames id shown l).nicks = r.nicks := by
  unfold listNames
  split <;> rfl

@[simp] theorem listNames_channels : (r.listNames id shown l).channels = r.channels := by
  unfold listNames
  split <;> rfl

@[simp] theorem list_clients : (r.list id name).clients = r.clients := by
  unfold list
  split <;> simp

@[simp] theorem list_nicks : (r.list id name).nicks = r.nicks := by
  unfold list
  split <;> simp

@[simp] theorem list_channels : (r.list id name).channels = r.channels := by
  unfold list
  split <;> simp

@[simp] theorem enter_clients :
    (r.enter id name user topic).clients = (r.place id name).clients := by
  simp only [enter, list_clients]
  cases topic <;> rfl

@[simp] theorem channels_showTopic : (r.showTopic id name topic).channels = r.channels := by
  cases topic <;> rfl

@[simp] theorem enter_channels :
    (r.enter id name user topic).channels = (r.place id name).channels := by
  simp only [enter, list_channels, channels_showTopic]
  rfl

def Quiet : Label → Prop := (· = .quiet)

/-- Any number of changes, whose labels satisfy `P`. -/
abbrev Steps (P : Label → Prop) : Roster → Roster → Prop :=
  Relation.ReflTransGen fun r r' => ∃ l, P l ∧ Step r l r'

theorem Step.steps {r r' : Roster} (h : Step r l r') (hl : P l) : r.Steps P r' :=
  .single ⟨l, hl, h⟩

theorem Steps.mono {r r' : Roster} (h : r.Steps P r') (hPQ : ∀ l, P l → Q l) : r.Steps Q r' :=
  Relation.ReflTransGen.mono (fun _ _ ⟨l, hl, hs⟩ => ⟨l, hPQ l hl, hs⟩) _ _ h

/-! ## Consistency -/

/-- The indexes agree with each other. -/
structure Consistent : Prop where
  nicks_iff {k id} : r.nicks k = some id ↔
    ∃ client nick, r.clients id = some client ∧ client.nick = some nick ∧ fold nick = k
  channels_iff {id client k} : r.clients id = some client →
    (k ∈ client.channels ↔ ∃ room, r.channels k = some room ∧ id ∈ room.members)
  operators_subset {k room} : r.channels k = some room → room.operators ⊆ room.members
  members_nonempty {k room} : r.channels k = some room → room.members ≠ ∅
  filed {k room} : r.channels k = some room → fold room.name = k
  registered {k room id} : r.channels k = some room → id ∈ room.members →
    ∃ client, r.clients id = some client ∧ client.registered = true

variable {r r' : Roster}

theorem Consistent.registered_of_mem (H : r.Consistent) (hroom : r.channels k = some room)
    (hid : id ∈ room.members) (hc : r.clients id = some client) : client.registered := by
  obtain ⟨c, hc', hreg⟩ := H.registered hroom hid
  rwa [some.inj (hc.symm.trans hc')]

theorem Consistent.congr (H : r.Consistent) (hc : r'.clients = r.clients)
    (hn : r'.nicks = r.nicks) (hch : r'.channels = r.channels) : r'.Consistent := by
  obtain ⟨_, _, clients, nicks, channels, _⟩ := r'
  subst hc hn hch
  exact ⟨H.nicks_iff, H.channels_iff, H.operators_subset, H.members_nonempty, H.filed,
    H.registered⟩

theorem Consistent.connect (H : r.Consistent) (hid : r.clients id = none) :
    (r.connect id).Consistent := by
  have hold {i c} (h : (r.connect id).clients i = some c) :
      (i = id ∧ c = {}) ∨ r.clients i = some c := by
    simp only [Roster.connect, update_apply] at h
    split at h
    next hi => exact .inl ⟨hi, (some.inj h).symm⟩
    · exact .inr h
  have hnew {i c} (h : r.clients i = some c) : (r.connect id).clients i = some c := by
    have hi : i ≠ id := by rintro rfl; simp [hid] at h
    simp [Roster.connect, hi, h]
  refine ⟨?_, ?_, H.operators_subset, H.members_nonempty, H.filed, ?_⟩
  · refine H.nicks_iff.trans ⟨?_, ?_⟩
    · rintro ⟨c, nick, hc, h⟩
      exact ⟨c, nick, hnew hc, h⟩
    · rintro ⟨c, nick, hc, h⟩
      rcases hold hc with ⟨rfl, rfl⟩ | hc
      · simp at h
      · exact ⟨c, nick, hc, h⟩
  · intro i c k hc
    rcases hold hc with ⟨rfl, rfl⟩ | hc
    · simp only [notMem_empty, false_iff, not_exists, not_and]
      intro room hroom hmem
      obtain ⟨c, hc, -⟩ := H.registered hroom hmem
      simp [hid] at hc
    · exact H.channels_iff hc
  · intro k room i hroom hmem
    obtain ⟨c, hc, hreg⟩ := H.registered hroom hmem
    exact ⟨c, hnew hc, hreg⟩

theorem modifyClient_eq_some {f : Person → Person} :
    (r.modifyClient id f).clients i = some c ↔
      (i = id ∧ ∃ c₀, r.clients id = some c₀ ∧ f c₀ = c) ∨ (i ≠ id ∧ r.clients i = some c) := by
  simp only [modifyClient, update_apply]
  split
  next hi => simp [hi]
  next hi => simp [hi]

private theorem nicks_iff_modifyClient (H : r.Consistent) {f : Person → Person}
    (hf : ∀ c, (f c).nick = c.nick) : r.nicks k = some i ↔
    ∃ c nick, (r.modifyClient id f).clients i = some c ∧ c.nick = some nick ∧ fold nick = k := by
  simp only [H.nicks_iff, modifyClient_eq_some]
  constructor
  · rintro ⟨c, nick, hc, hnick⟩
    by_cases hi : i = id
    · exact ⟨f c, nick, .inl ⟨hi, c, hi ▸ hc, rfl⟩, by rwa [hf]⟩
    · exact ⟨c, nick, .inr ⟨hi, hc⟩, hnick⟩
  · rintro ⟨c, nick, ⟨rfl, c₀, hc, rfl⟩ | ⟨-, hc⟩, hnick⟩
    · exact ⟨c₀, nick, hc, by rwa [hf] at hnick⟩
    · exact ⟨c, nick, hc, hnick⟩

/-- A member of a channel stays registered as long as nobody's registration is taken back. -/
private theorem registered_modifyClient {f : Person → Person}
    (hf : ∀ c, c.registered → (f c).registered)
    (h : ∃ c, r.clients i = some c ∧ c.registered) :
    ∃ c, (r.modifyClient id f).clients i = some c ∧ c.registered := by
  obtain ⟨c, hc, hreg⟩ := h
  simp only [modifyClient_eq_some]
  by_cases hi : i = id
  · exact ⟨f c, .inl ⟨hi, c, hi ▸ hc, rfl⟩, hf c hreg⟩
  · exact ⟨c, .inr ⟨hi, hc⟩, hreg⟩

theorem Consistent.modifyClient (H : r.Consistent) {f : Person → Person}
    (hn : ∀ c, (f c).nick = c.nick) (hch : ∀ c, (f c).channels = c.channels)
    (hreg : ∀ c, c.registered → (f c).registered) :
    (r.modifyClient id f).Consistent := by
  refine ⟨nicks_iff_modifyClient H hn, ?_, H.operators_subset, H.members_nonempty, H.filed,
    fun hroom hmem => registered_modifyClient hreg (H.registered hroom hmem)⟩
  intro i c k hc
  rw [modifyClient_eq_some] at hc
  rcases hc with ⟨rfl, c₀, hc, rfl⟩ | ⟨-, hc⟩
  · rw [hch]
    exact H.channels_iff hc
  · exact H.channels_iff hc

/-- Releasing a client's nick takes its entry out of the index and no other. -/
theorem Consistent.released_eq_some (H : r.Consistent) (hid : r.clients id = some client) :
    r.released client.nick k = some i ↔ i ≠ id ∧ r.nicks k = some i := by
  have hown (h : r.nicks k = some i) :
      i = id ↔ ∃ nick, client.nick = some nick ∧ fold nick = k := by
    constructor
    · rintro rfl
      obtain ⟨c, nick, hc, h⟩ := H.nicks_iff.1 h
      obtain rfl := some.inj (hid.symm.trans hc)
      exact ⟨nick, h⟩
    · rintro ⟨nick, hn, hk⟩
      have h' := H.nicks_iff.2 ⟨client, nick, hid, hn, hk⟩
      exact some.inj (h.symm.trans h')
  cases hn : client.nick with
  | none =>
    refine ⟨fun h => ⟨fun hi => ?_, h⟩, And.right⟩
    obtain ⟨nick, hn', -⟩ := (hown h).1 hi
    simp [hn] at hn'
  | some nick =>
    rw [released, update_apply]
    split
    next hk =>
      simp only [reduceCtorEq, false_iff, not_and]
      intro hi h
      exact hi ((hown h).2 ⟨nick, hn, hk.symm⟩)
    next hk =>
      refine ⟨fun h => ⟨fun hi => ?_, h⟩, And.right⟩
      obtain ⟨nick', hn', hk'⟩ := (hown h).1 hi
      obtain rfl := some.inj (hn.symm.trans hn')
      exact hk hk'.symm

theorem Consistent.claim (H : r.Consistent) (hid : r.clients id = some client)
    (hfree : ∀ holder, r.nicks (fold nick) = some holder → holder = id) :
    (r.claim id nick).Consistent := by
  refine ⟨?_, ?_, H.operators_subset, H.members_nonempty, H.filed,
    fun hroom hmem => registered_modifyClient (fun _ h => h) (H.registered hroom hmem)⟩
  · intro k i
    simp only [Roster.claim, modifyClient_eq_some]
    rw [update_apply, hid, bind_some]
    split
    next hk =>
      subst hk
      constructor
      · rintro ⟨⟩
        exact ⟨_, nick, .inl ⟨rfl, client, rfl, rfl⟩, rfl, rfl⟩
      · rintro ⟨c, n, ⟨rfl, -⟩ | ⟨hi, hc⟩, hn, hk⟩
        · rfl
        · exact absurd (hfree i (H.nicks_iff.2 ⟨c, n, hc, hn, hk⟩)) hi
    next hk =>
      rw [H.released_eq_some hid]
      constructor
      · rintro ⟨hi, h⟩
        obtain ⟨c, n, hc, h⟩ := H.nicks_iff.1 h
        exact ⟨c, n, .inr ⟨hi, hc⟩, h⟩
      · rintro ⟨c, n, ⟨rfl, c₀, -, rfl⟩ | ⟨hi, hc⟩, hn, hkn⟩
        · exact absurd (some.inj hn ▸ hkn).symm hk
        · exact ⟨hi, H.nicks_iff.2 ⟨c, n, hc, hn, hkn⟩⟩
  · intro i c k hc
    rcases modifyClient_eq_some.1 hc with ⟨rfl, c₀, hc₀, rfl⟩ | ⟨-, hc₀⟩
    · exact (H.channels_iff hc₀ :)
    · exact H.channels_iff hc₀

theorem entered_members : i ∈ (r.entered id name).members ↔
    i = id ∨ ∃ room, r.channels (fold name) = some room ∧ i ∈ room.members := by
  unfold entered
  cases r.channels (fold name) <;> simp

theorem Consistent.entered_operators (H : r.Consistent) :
    (r.entered id name).operators ⊆ (r.entered id name).members := by
  unfold entered
  split
  next room h => exact (H.operators_subset h).trans (subset_insert _ _)
  · exact subset_rfl

theorem Consistent.fold_entered (H : r.Consistent) : fold (r.entered id name).name = fold name := by
  unfold entered
  split
  next room h => exact (H.filed h :)
  · rfl

theorem Consistent.place (H : r.Consistent) (hid : r.clients id = some client)
    (hreg : client.registered) : (r.place id name).Consistent := by
  -- the channels are as before but for the one entered
  have hch {k room} (h : (r.place id name).channels k = some room) :
      (k = fold name ∧ room = r.entered id name) ∨ r.channels k = some room := by
    simp only [Roster.place, update_apply] at h
    split at h
    next hk => exact .inl ⟨hk, (some.inj h).symm⟩
    · exact .inr h
  refine ⟨nicks_iff_modifyClient H fun _ => rfl, ?_, ?_, ?_, ?_, ?_⟩
  · intro i c k hc
    have hmem : (∃ room, (r.place id name).channels k = some room ∧ i ∈ room.members) ↔
        (k = fold name ∧ i = id) ∨ ∃ room, r.channels k = some room ∧ i ∈ room.members := by
      simp only [Roster.place]
      by_cases hk : k = fold name
      · simp [hk, entered_members]
      · simp [hk]
    rw [hmem]
    rcases modifyClient_eq_some.1 hc with ⟨rfl, c₀, hc₀, rfl⟩ | ⟨hi, hc₀⟩
    · simp [H.channels_iff hc₀]
    · simp [hi, H.channels_iff hc₀]
  · intro k room h
    obtain ⟨-, rfl⟩ | h := hch h
    · exact H.entered_operators
    · exact H.operators_subset h
  · intro k room h
    obtain ⟨-, rfl⟩ | h := hch h
    · exact ne_empty_of_mem (entered_members.2 (.inl rfl))
    · exact H.members_nonempty h
  · intro k room h
    obtain ⟨rfl, rfl⟩ | h := hch h
    · exact H.fold_entered
    · exact H.filed h
  · intro k room i h hi
    refine registered_modifyClient (fun _ h => h) ?_
    obtain ⟨-, rfl⟩ | h := hch h
    · obtain rfl | ⟨room, hroom, hi⟩ := entered_members.1 hi
      · exact ⟨client, hid, hreg⟩
      · exact H.registered hroom hi
    · exact H.registered h hi

/-- What is left of a channel that `id` may have been taken out of: the members but `id`. -/
theorem filter_without {room : Option Room} :
    (room.map (·.without id)).filter (·.members ≠ ∅) = some left ↔
      ∃ whole, room = some whole ∧ whole.without id = left ∧ left.members ≠ ∅ := by
  cases room <;> simp [filter_some]
  grind

theorem Room.without_operators {room : Room} (h : room.operators ⊆ room.members) :
    (room.without id).operators ⊆ (room.without id).members := erase_subset_erase id h

theorem Consistent.remove (H : r.Consistent) : (r.remove key id).Consistent := by
  have hch {k room} (h : (r.remove key id).channels k = some room) :
      ∃ whole, r.channels k = some whole ∧ (room = whole ∨ room = whole.without id) ∧
        room.members ≠ ∅ := by
    simp only [Roster.remove, update_apply] at h
    split at h
    next hk =>
      obtain ⟨whole, hw, rfl, hne⟩ := filter_without.1 h
      exact ⟨whole, hk ▸ hw, .inr rfl, hne⟩
    · exact ⟨room, h, .inl rfl, H.members_nonempty h⟩
  refine ⟨nicks_iff_modifyClient H fun _ => rfl, ?_, ?_, fun h => (hch h).choose_spec.2.2, ?_, ?_⟩
  · intro i c k hc
    have hmem : (∃ room, (r.remove key id).channels k = some room ∧ i ∈ room.members) ↔
        ¬(k = key ∧ i = id) ∧ ∃ room, r.channels k = some room ∧ i ∈ room.members := by
      simp only [Roster.remove, update_apply]
      by_cases hk : k = key
      · subst hk
        simp only [if_true, filter_without, true_and]
        constructor
        · rintro ⟨_, ⟨whole, hw, rfl, -⟩, hi⟩
          obtain ⟨hne, hi⟩ := mem_erase.1 hi
          exact ⟨hne, whole, hw, hi⟩
        · rintro ⟨hne, whole, hw, hi⟩
          have hi' : i ∈ (whole.without id).members := mem_erase.2 ⟨hne, hi⟩
          exact ⟨_, ⟨whole, hw, rfl, ne_empty_of_mem hi'⟩, hi'⟩
      · simp [hk]
    rw [hmem]
    rcases modifyClient_eq_some.1 hc with ⟨rfl, c₀, hc₀, rfl⟩ | ⟨hi, hc₀⟩
    · simp [H.channels_iff hc₀]
    · simp [hi, H.channels_iff hc₀]
  · intro k room h
    obtain ⟨whole, hw, rfl | rfl, -⟩ := hch h
    · exact H.operators_subset hw
    · exact Room.without_operators (H.operators_subset hw)
  · intro k room h
    obtain ⟨whole, hw, rfl | rfl, -⟩ := hch h
    · exact H.filed hw
    · exact (H.filed hw :)
  · intro k room i h hi
    refine registered_modifyClient (fun _ h => h) ?_
    obtain ⟨whole, hw, rfl | rfl, -⟩ := hch h
    · exact H.registered hw hi
    · exact H.registered hw (mem_of_mem_erase hi)

theorem Consistent.setOperators (H : r.Consistent)
    (hops : ∀ room, r.channels key = some room → operators ⊆ room.members) :
    (r.setOperators key operators).Consistent := by
  have hch {k room} (h : (r.setOperators key operators).channels k = some room) :
      ∃ old, r.channels k = some old ∧ room.name = old.name ∧ room.members = old.members ∧
        room.operators ⊆ old.members := by
    simp only [Roster.setOperators, update_apply] at h
    split at h
    next hk =>
      obtain ⟨old, ho, rfl⟩ := map_eq_some_iff.1 h
      exact ⟨old, hk ▸ ho, rfl, rfl, hops old ho⟩
    · exact ⟨room, h, rfl, rfl, H.operators_subset h⟩
  refine ⟨H.nicks_iff, ?_, ?_, ?_, ?_, ?_⟩
  · intro i c k hc
    rw [H.channels_iff hc]
    simp only [Roster.setOperators]
    by_cases hk : k = key
    · subst hk
      cases r.channels k <;> simp
    · simp [hk]
  all_goals
    intro k room
  · intro h
    obtain ⟨old, -, -, hm, ho⟩ := hch h
    exact hm ▸ ho
  · intro h
    obtain ⟨old, ho, -, hm, -⟩ := hch h
    exact hm ▸ H.members_nonempty ho
  · intro h
    obtain ⟨old, ho, hn, -⟩ := hch h
    exact hn ▸ H.filed ho
  · intro i h hi
    obtain ⟨old, ho, -, hm, -⟩ := hch h
    exact H.registered ho (hm ▸ hi)

/-- Whether or not `id` was in a channel, what is left of it is the channel without `id`. -/
theorem Consistent.drop_channels (H : r.Consistent) (hid : r.clients id = some client) :
    (r.drop id client).channels k = some left ↔
      ∃ whole, r.channels k = some whole ∧ whole.without id = left ∧ left.members ≠ ∅ := by
  simp only [Roster.drop]
  split
  · exact filter_without
  next hk =>
    have hnot {whole} (hw : r.channels k = some whole) : whole.without id = whole := by
      have hm : id ∉ whole.members := fun h => hk ((H.channels_iff hid).2 ⟨whole, hw, h⟩)
      have ho : id ∉ whole.operators := fun h => hm (H.operators_subset hw h)
      simp [Room.without, erase_eq_of_notMem hm, erase_eq_of_notMem ho]
    simp only [filter_eq_some_iff, decide_eq_true_eq]
    constructor
    · rintro ⟨hw, hne⟩
      exact ⟨left, hw, hnot hw, hne⟩
    · rintro ⟨whole, hw, rfl, hne⟩
      rw [hnot hw] at hne ⊢
      exact ⟨hw, hne⟩

theorem Consistent.drop (H : r.Consistent) (hid : r.clients id = some client) :
    (r.drop id client).Consistent := by
  have hcl {i c} : (r.drop id client).clients i = some c ↔ i ≠ id ∧ r.clients i = some c := by
    simp only [Roster.drop, update_apply]
    split <;> simp_all
  refine ⟨?_, ?_, ?_, ?_, ?_, ?_⟩
  · refine (H.released_eq_some hid).trans ?_
    simp only [hcl, H.nicks_iff, and_assoc, exists_and_left]
  · intro i c k hc
    obtain ⟨hi, hc⟩ := hcl.1 hc
    simp only [H.channels_iff hc, H.drop_channels hid]
    constructor
    · rintro ⟨whole, hw, hmem⟩
      have hmem' : i ∈ (whole.without id).members := mem_erase.2 ⟨hi, hmem⟩
      exact ⟨_, ⟨whole, hw, rfl, ne_empty_of_mem hmem'⟩, hmem'⟩
    · rintro ⟨_, ⟨whole, hw, rfl, -⟩, hmem⟩
      exact ⟨whole, hw, mem_of_mem_erase hmem⟩
  · intro k room h
    obtain ⟨whole, hw, rfl, -⟩ := (H.drop_channels hid).1 h
    exact Room.without_operators (H.operators_subset hw)
  · intro k room h
    exact ((H.drop_channels hid).1 h).choose_spec.2.2
  · intro k room h
    obtain ⟨whole, hw, rfl, -⟩ := (H.drop_channels hid).1 h
    exact (H.filed hw :)
  · intro k room i h hi
    obtain ⟨whole, hw, rfl, -⟩ := (H.drop_channels hid).1 h
    obtain ⟨hne, hi⟩ := mem_erase.1 hi
    obtain ⟨c, hc, hreg⟩ := H.registered hw hi
    exact ⟨c, hcl.2 ⟨hne, hc⟩, hreg⟩

/-! ## Steps -/

theorem Consistent.list (H : r.Consistent) : (r.list id name).Consistent :=
  H.congr (list_clients r) (list_nicks r) (list_channels r)

theorem Consistent.step (H : r.Consistent) (h : Step r l r') : r'.Consistent := by
  cases h with
  | connects id hid => exact H.connect hid
  | claims id nick _ hid _ hfree => exact H.claim hid hfree
  | registers id text hid =>
    have H' : (r.modifyClient id ({ · with registered := true })).Consistent :=
      H.modifyClient (fun _ => rfl) (fun _ => rfl) (fun _ _ => rfl)
    exact H'.congr rfl rfl rfl
  | renames id user nick _ hid _ _ hfree => exact (H.claim hid hfree).congr rfl rfl rfl
  | enters id name user topic _ hid hreg =>
    refine Consistent.list ?_
    cases topic with
    | none => exact (H.place hid hreg).congr rfl rfl rfl
    | some text => exact (H.place hid hreg).congr rfl rfl rfl
  | lists id name => exact H.list
  | shows whom message => exact H.congr rfl rfl rfl
  | parts id key | kicks victim key => exact Consistent.remove (H.congr rfl rfl rfl)
  | @ops room id key give hroom hid =>
    refine (H.setOperators fun room' hroom' => ?_).congr rfl rfl rfl
    obtain rfl := some.inj (hroom.symm.trans hroom')
    split
    · exact insert_subset hid (H.operators_subset hroom)
    · exact (erase_subset _ _).trans (H.operators_subset hroom)
  | quits id user said hid => exact (H.drop hid).congr rfl rfl rfl

theorem Consistent.steps (H : r.Consistent) (h : r.Steps P r') : r'.Consistent := by
  induction h with
  | refl => exact H
  | tail _ hs ih =>
    obtain ⟨l, -, hs⟩ := hs
    exact ih.step hs

/-! ## What a step makes of a client and of a channel -/

def welcomes (r : Roster) (id : ClientId) : Nat := (r.told id).countP isWelcome

theorem welcomes_tell {whom : ClientId → Prop} [DecidablePred whom] {m : Message}
    (hm : isWelcome m = false) : (r.tell whom m).welcomes = r.welcomes := by
  funext i
  simp only [welcomes, tell]
  split
  · simp [hm]
  · rfl

theorem welcomes_numeric (response : Response) (hr : response ≠ .rplWelcome) :
    (r.numeric id response args).welcomes = r.welcomes := by
  refine welcomes_tell ?_
  cases response <;> first | rfl | exact absurd rfl hr

theorem welcomes_list : (r.list id name).welcomes = r.welcomes := by
  have h (shown : String) (names : List String) :
      (r.listNames id shown names).welcomes = r.welcomes := by
    unfold listNames
    rw [welcomes_numeric .rplEndOfNames nofun]
    split
    · rfl
    · exact welcomes_numeric _ nofun
  unfold list
  split
  · exact h _ _
  · exact h _ _

theorem welcomes_register (hid : r.clients id = some client) (text : String) (i : ClientId) :
    (r.register id text).welcomes i = if i = id then r.welcomes id + 1 else r.welcomes i := by
  simp only [register]
  rw [welcomes_numeric .rplISupport nofun]
  simp only [welcomes, numeric, tell, Roster.modifyClient, update_apply]
  split
  next hi => subst hi; simp [hid, isWelcome]
  next hi => simp [hi]

/-- What a step with label `l` makes of a client, and of how often it was welcomed. -/
inductive Became (r r' : Roster) (l : Label) (i : ClientId) : Prop where
  | connected : r'.clients i = some {} → r'.welcomes i = 0 → Became r r' l i
  | registered : r.clients i = some c → c.registered = false → c.nick.isSome →
    r'.clients i = some { c with registered := true } → r'.welcomes i = r.welcomes i + 1 →
    Became r r' l i
  | kept : r'.welcomes i = r.welcomes i →
    (∀ c', r'.clients i = some c' → ∃ c, r.clients i = some c ∧ c'.registered = c.registered ∧
      (c'.nick = c.nick ∨ ∃ nick, l = .claim nick ∧ validNick nick ∧ c'.nick = some nick)) →
    Became r r' l i

theorem Step.became (h : Step r l r') (i : ClientId) : Became r r' l i := by
  have hsame {r' : Roster} (hw : r'.welcomes i = r.welcomes i)
      (hc : ∀ c, r'.clients i = some c → r.clients i = some c) : Became r r' l i :=
    .kept hw fun c h => ⟨c, hc c h, rfl, .inl rfl⟩
  have hmodify {r' : Roster} {id : ClientId} {f : Person → Person} (hw : r'.welcomes = r.welcomes)
      (hc : r'.clients = (r.modifyClient id f).clients)
      (hf : ∀ c, (f c).registered = c.registered ∧ ((f c).nick = c.nick ∨
        ∃ nick, l = .claim nick ∧ validNick nick ∧ (f c).nick = some nick)) : Became r r' l i := by
    refine .kept (congrFun hw i) fun c' h => ?_
    rw [hc] at h
    rcases modifyClient_eq_some.1 h with ⟨rfl, c, hc, rfl⟩ | ⟨-, h⟩
    · exact ⟨c, hc, hf c⟩
    · exact ⟨c', h, rfl, .inl rfl⟩
  cases h with
  | connects id =>
    by_cases hi : i = id
    · exact .connected (by simp [connect, hi]) (by simp [welcomes, connect, hi])
    · exact hsame (by simp [welcomes, connect, hi]) fun c h => by simpa [connect, hi] using h
  | claims id nick hv => exact hmodify rfl rfl fun c => ⟨rfl, .inr ⟨nick, rfl, hv, rfl⟩⟩
  | registers id text hid hreg hnick =>
    have hw := welcomes_register hid text i
    by_cases hi : i = id
    · subst hi
      rw [if_pos rfl] at hw
      exact .registered hid hreg (hnick ▸ rfl) (modifyClient_eq_some.2 (.inl ⟨rfl, _, hid, rfl⟩)) hw
    · rw [if_neg hi] at hw
      exact hsame hw fun c h => ((modifyClient_eq_some.1 h).resolve_left fun h => hi h.1).2
  | renames id user nick hv =>
    exact hmodify (welcomes_tell rfl) rfl fun c => ⟨rfl, .inr ⟨nick, rfl, hv, rfl⟩⟩
  | enters id name user topic =>
    refine hmodify ?_ (enter_clients r) fun c => ⟨rfl, .inl rfl⟩
    simp only [enter]
    rw [welcomes_list]
    cases topic with
    | none => exact welcomes_tell rfl
    | some text =>
      rw [showTopic, welcomes_numeric .rplTopic (by simp)]
      exact welcomes_tell rfl
  | lists id name => exact hsame (congrFun welcomes_list i) fun c h => list_clients r ▸ h
  | shows whom message hm =>
    refine hsame (congrFun (welcomes_tell ?_) i) fun c h => h
    obtain ⟨tags, source, command⟩ := message
    cases command with
    | response response args =>
      obtain rfl : response = .rplTopic := hm
      rfl
    | _ => rfl
  | parts id key
  | kicks victim key => exact hmodify (welcomes_tell rfl) rfl fun c => ⟨rfl, .inl rfl⟩
  | ops id key give => exact hsame (congrFun (welcomes_tell rfl) i) fun c h => h
  | quits id user said hid =>
    refine hsame (congrFun (welcomes_tell rfl) i) fun c h => ?_
    simp only [tell, Roster.drop, update_apply] at h
    split at h
    · cases h
    · exact h

theorem channels_place (h : (r.place id name).channels key = some room) :
    (key = fold name ∧ room = r.entered id name) ∨
      (key ≠ fold name ∧ r.channels key = some room) := by
  simp only [place, update_apply] at h
  split at h
  next hk => exact .inl ⟨hk, (some.inj h).symm⟩
  next hk => exact .inr ⟨hk, h⟩

/-- The channel was there before a step with label `l`, by its name, and had all its members unless
someone joined. -/
def Had (r : Roster) (l : Label) (key : String) (room' : Room) : Prop :=
  ∃ room, r.channels key = some room ∧ room'.name = room.name ∧
    ((∀ id name, l ≠ .enter id name) → room'.members ⊆ room.members)

theorem Step.room (h : Step r l r') (hroom : r'.channels key = some room') :
    r.Had l key room' ∨ ∃ id name, l = .enter id name ∧ validChannel name ∧ room'.name = name := by
  have hsame (h : r.channels key = some room') : r.Had l key room' :=
    ⟨room', h, rfl, fun _ => subset_rfl⟩
  have hleft {id : ClientId}
      (h : ((r.channels key).map (·.without id)).filter (·.members ≠ ∅) = some room') :
      r.Had l key room' := by
    obtain ⟨whole, hw, rfl, -⟩ := filter_without.1 h
    exact ⟨whole, hw, rfl, fun _ => erase_subset _ _⟩
  have hremove {key' : String} {room m} {id : ClientId}
      (h : ((r.tellMembers room m).remove key' id).channels key = some room') :
      r.Had l key room' := by
    simp only [Roster.remove, update_apply] at h
    split at h
    next hk => exact hleft (hk ▸ h)
    · exact hsame h
  cases h with
  | enters id name user topic hv =>
    rw [enter_channels] at hroom
    rcases channels_place hroom with ⟨rfl, rfl⟩ | ⟨-, hold⟩
    · unfold entered
      split
      next room h => exact .inl ⟨room, h, rfl, fun hl => absurd rfl (hl id name)⟩
      · exact .inr ⟨id, name, rfl, hv, rfl⟩
    · exact .inl (hsame hold)
  | lists id name => exact .inl (hsame (list_channels r ▸ hroom))
  | parts id key' | kicks victim key' => exact .inl (hremove hroom)
  | ops id key' give =>
    simp only [tellMembers, tell, setOperators, update_apply] at hroom
    split at hroom
    next hk =>
      obtain ⟨old, hold, rfl⟩ := map_eq_some_iff.1 hroom
      exact .inl ⟨old, hk ▸ hold, rfl, fun _ => subset_rfl⟩
    · exact .inl (hsame hroom)
  | quits id user said hid =>
    simp only [tell, Roster.drop] at hroom
    split at hroom
    · exact .inl (hleft hroom)
    · exact .inl (hsame (filter_eq_some_iff.1 hroom).1)
  | _ => exact .inl (hsame hroom)

end Roster

end Ddirc.Server
