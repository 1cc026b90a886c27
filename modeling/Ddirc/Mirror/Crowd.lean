import Mathlib.Data.Finset.Option
import Ddirc.Mirror.Network

/-! # A session that is full

A `353` makes a session track the channel it names, whether or not its client is in it. A client
that asks for the names of too many channels has no room left for one it then joins: the server has
it in a channel that its session does not know. -/

namespace Ddirc.Server
open List Option Roster
open Irc Function
open Ddirc.Client (Session maxMembers maxChannels)

/-! ## Names enough -/

def letter (d : Nat) : Char := Char.ofNat (97 + d)

/-- As many channel names as are needed, two letters each. -/
def channelName (k : Nat) : String := String.ofList ['#', letter (k / 26), letter (k % 26)]

theorem letter_ok : ∀ d < 26, (letter d).toLower = letter d ∧ (letter d).toNat = 97 + d ∧
    (letter d).utf8Size = 1 ∧ letter d ≠ ' ' ∧ letter d ≠ ',' ∧ Str.isControl (letter d) = false ∧
    Str.isWhitespace (letter d) = false := by decide +kernel

/-- A channel's name that is taken as it is. -/
structure Usual (name : String) : Prop where
  valid : validChannel name = true
  fold : fold name = name
  split : Str.split ',' name = [name]
  trim : Str.trim name = name

theorem usual_channelName (hk : k < 512) : Usual (channelName k) := by
  obtain ⟨hlow, -, hsize, hblank, hcomma, hctl, -⟩ := letter_ok (k / 26) (by omega)
  obtain ⟨hlow', -, hsize', hblank', hcomma', hctl', hspace'⟩ := letter_ok (k % 26) (by omega)
  have hhash : Str.isControl '#' = false ∧ Str.isWhitespace '#' = false ∧ '#'.toLower = '#' ∧
      (String.ofList ['#']).utf8ByteSize = 1 := by decide
  unfold channelName
  generalize letter (k / 26) = a at *
  generalize letter (k % 26) = b at *
  have hlen : Str.len (String.ofList ['#', a, b]) = 3 := by
    have h : String.ofList ['#', a, b] =
        String.ofList ['#'] ++ (String.ofList [a] ++ String.ofList [b]) := by
      rw [← String.ofList_append, ← String.ofList_append]
      rfl
    rw [Str.len, h, String.utf8ByteSize_append, hhash.2.2.2]
    simp [hsize, hsize']
  refine ⟨?_, ?_, ?_, ?_⟩
  · simp only [validChannel, hlen]
    simp [isChannel, Str.startsWith, Str.contains, channelLen, hblank.symm, hcomma.symm,
      hblank'.symm, hcomma'.symm, hhash, hctl, hctl']
  · simp [fold, Str.toAsciiLowercase, hlow, hlow']
  · rw [Str.split, String.toList_ofList, List.splitOn, splitOnP_eq_singleton]
    · rfl
    · simp [hcomma, hcomma']
  · simp [Str.trim, Str.trimStartMatches, Str.trimEndMatches, List.rdropWhile, hhash, hspace']

theorem channelName_inj (hj : j < 512) (hk : k < 512) (h : channelName j = channelName k) :
    j = k := by
  have hlist :
      ['#', letter (j / 26), letter (j % 26)] = ['#', letter (k / 26), letter (k % 26)] := by
    simpa [channelName] using congrArg String.toList h
  simp only [List.cons.injEq, true_and, and_true] at hlist
  have h1 := congrArg Char.toNat hlist.1
  have h2 := congrArg Char.toNat hlist.2
  rw [(letter_ok (j / 26) (by omega)).2.1, (letter_ok (k / 26) (by omega)).2.1] at h1
  rw [(letter_ok (j % 26) (by omega)).2.1, (letter_ok (k % 26) (by omega)).2.1] at h2
  omega

theorem channelName_ne : channelName k ≠ "#new" := by
  intro h
  have hlist := congrArg (fun s : String => s.toList.length) h
  simp [channelName] at hlist

/-- A session that is full makes nothing of its client's own join. -/
theorem view_enter_of_full {r : Roster} {id : ClientId} {name start : String} (user : String)
    (topic : Option String) (H : r.Consistent) (hc : r.clients id = some c)
    (hs : (sessionFrom start (r.told id)).Plain) (hidle : (sessionFrom start (r.told id)).Idle)
    (hnew : fold name ∉ (sessionFrom start (r.told id)).tracked)
    (hfull : maxChannels ≤ (sessionFrom start (r.told id)).tracked.card) :
    (sessionFrom start ((r.enter id name user topic).told id)).view =
        (sessionFrom start (r.told id)).view ∧
      (sessionFrom start ((r.enter id name user topic).told id)).isupport =
        (sessionFrom start (r.told id)).isupport := by
  have hnew' : fold (r.entered id name).name ∉ (sessionFrom start (r.told id)).tracked := by
    rwa [show fold (r.entered id name).name = fold name from H.fold_entered]
  obtain ⟨c', hc'⟩ := clients_joined id name user hc
  have hjoined : sessionFrom start ((r.joined id name user).told id) =
      sessionFrom start (r.told id) := by
    rw [sessionFrom_joined id name user start hc, if_pos (entered_members.2 (.inl rfl))]
    exact Session.onJoin_of_full hs hnew' hfull
  rw [sessionFrom_enter H hc, if_pos rfl]
  obtain ⟨hv, -, hi⟩ := sessionFrom_showTopic start (r.entered id name).name topic hc'
  rw [hjoined] at hv hi
  rw [← hv, ← hi]
  obtain ⟨hview, -, hsupport⟩ := listed_view _ (hs.congr hi) (fun key v h => hidle key v (hv ▸ h))
    (.inr (by rw [Session.tracked_congr hv]; exact ⟨hnew', hfull⟩))
  exact ⟨hview, hsupport⟩

namespace Network

variable {n : Network} {i id : ClientId} {name : String}

/-! ## One command at a time -/

theorem apply_join (h : Usual name) (hreg : n.isRegistered id)
    (hnot : n.channels.lookup (fold name) = none) :
    ∃ user topic, (n.apply (.handle id { command := .join name none none })).roster =
      n.roster.enter id name user topic := by
  obtain ⟨client, hc, -⟩ := isRegistered_iff.1 hreg
  have hjoin : n.apply (.handle id { command := .join name none none }) = n.onJoin id name := by
    simp only [apply, handle, hc, isNone_some, Bool.false_eq_true, if_false, hreg, if_true,
      registeredCommand, h.split, foldl_cons, foldl_nil, h.trim]
  have henter : n.onJoin id name = n.enter id name := by
    rw [onJoin, if_neg (by simp [h.valid]), if_neg (by simp [hnot])]
  rw [hjoin, henter]
  exact roster_enter hc name

theorem apply_names (h : Usual name) (hreg : n.isRegistered id) :
    (n.apply (.handle id { command := .names (some name) none })).roster =
      n.roster.list id name := by
  obtain ⟨client, hc, -⟩ := isRegistered_iff.1 hreg
  simp only [apply, handle, hc, hreg, registeredCommand, h.split, foldl_cons, h.trim]
  exact roster_sendNames name

theorem apply_part (h : Usual name) (hreg : n.isRegistered id)
    (hch : n.roster.channels (fold name) = some room) (hmem : id ∈ room.members) :
    ∃ m, (n.apply (.handle id { command := .part name none })).roster =
      (n.roster.tellMembers room m).remove (fold name) id := by
  obtain ⟨client, hc, -⟩ := isRegistered_iff.1 hreg
  obtain ⟨channel, hlookup, rfl⟩ := map_eq_some_iff.1 hch
  have hfilter : (n.channels.lookup (fold name)).filter (id ∈ ·.members) = some channel := by
    rw [hlookup]
    exact (filter_some ..).trans (if_pos (decide_eq_true hmem))
  simp only [apply, handle, hc, isNone_some, Bool.false_eq_true, if_false, hreg, if_true,
    registeredCommand, h.split, foldl_cons, foldl_nil, h.trim]
  simp only [onPart, hfilter]
  rw [roster_removeMember, roster_emit, roster_broadcast hlookup rfl]
  exact ⟨_, rfl⟩

/-! ## The run -/

def line (id : ClientId) (command : Command) : Operation := .handle id { command }

def opening : List Operation :=
  [.connect 1, line 1 (.nick "one"), line 1 (.user "one" "0" "One"),
    .connect 2, line 2 (.nick "two"), line 2 (.user "two" "0" "Two")]

def passing (name : String) : List Operation :=
  [line 1 (.join name none none), line 2 (.names (some name) none), line 1 (.part name none)]

/-- After so many channels the second client joins one of its own. -/
def crowd (count : Nat) : List Operation :=
  opening ++ (List.range count).flatMap (fun k => passing (channelName k)) ++
    [line 2 (.join "#new" none none)]

/-- The two clients, of whom the first is in the channel given, if any. -/
def bothThere (visited : Option String) : ClientId → Option Person := fun i =>
  if i = 1 then some ⟨some "one", true, visited.toFinset⟩
  else if i = 2 then some ⟨some "two", true, ∅⟩ else none

/-- The channel given, with the first client in it. -/
def roomOf (visited : Option String) : String → Option Room := fun key =>
  if visited = some key then some ⟨key, {1}, {1}⟩ else none

/-- The first client is in the channel `visited`, if any, and the second client's session tracks the
channels in `seen`. -/
structure Stage (visited : Option String) (seen : Finset String) (n : Network) : Prop where
  reach : ReachableBy (fun n op => Modest (n.apply op)) n
  clients : n.roster.clients = bothThere visited
  channels : n.roster.channels = roomOf visited
  plain : (n.sessionOf "two" 2).Plain
  idle : (n.sessionOf "two" 2).Idle
  tracked : (n.sessionOf "two" 2).tracked = seen

theorem modest_of_roster (hcl : ∀ i c, n.roster.clients i = some c →
      (c.nick = some "one" ∨ c.nick = some "two") ∧ c.channels.card ≤ 1)
    (hch : ∀ key room, n.roster.channels key = some room → room.members.card ≤ 1) : Modest n := by
  refine ⟨fun hc hn => ?_, fun hc => ?_, fun h => ?_⟩
  · rcases (hcl _ _ (clients_roster hc)).1 with h | h
    · obtain rfl := some.inj (h.symm.trans hn)
      decide
    · obtain rfl := some.inj (h.symm.trans hn)
      decide
  · exact (hcl _ _ (clients_roster hc)).2.trans (by decide)
  · exact (hch _ _ (channels_roster h)).trans (by decide)

theorem bothThere_eq_some (h : bothThere visited i = some c) :
    (c.nick = some "one" ∨ c.nick = some "two") ∧ c.channels.card ≤ 1 := by
  unfold bothThere at h
  split at h
  · cases h
    exact ⟨.inl rfl, by cases visited <;> simp⟩
  split at h
  · cases h
    exact ⟨.inr rfl, by simp⟩
  · cases h

theorem modest_visited (hcl : n.roster.clients = bothThere visited)
    (hch : n.roster.channels = roomOf visited) : Modest n := by
  refine modest_of_roster (fun i c h => bothThere_eq_some (hcl ▸ h)) fun key room h => ?_
  rw [hch, roomOf] at h
  split at h
  · cases h
    simp
  · cases h

theorem opening_stage : Stage none ∅ ((init "srv" "net" 0).run opening) := by
  have hentries : ((init "srv" "net" 0).run opening).clients.entries.map
      (fun e => (e.1, e.2.view)) =
        [(2, ⟨some "two", true, ∅⟩), (1, ⟨some "one", true, ∅⟩)] := by decide +kernel
  have hchannels : ((init "srv" "net" 0).run opening).channels.entries.map
      (fun e => (e.1, e.2.view)) = [] := by decide +kernel
  have hkeys : (((init "srv" "net" 0).run opening).sessionOf "two" 2).channels.keys = [] := by
    decide +kernel
  have htracked : (((init "srv" "net" 0).run opening).sessionOf "two" 2).tracked = ∅ := by
    rw [Session.tracked, hkeys]
    rfl
  refine ⟨?_, ?_, ?_, ⟨by decide +kernel, by decide +kernel⟩, ?_, htracked⟩
  · exact (ReachableBy.init "srv" "net" 0).run (by decide +kernel)
  · funext i
    refine (Map.map_lookup_of_entries hentries i).trans ?_
    unfold bothThere
    split
    next hi => rw [hi]; rfl
    next hi =>
      split
      next hi' => rw [hi']; rfl
      next hi' => simp [lookup_cons, beq_eq_false_iff_ne.2 hi, beq_eq_false_iff_ne.2 hi']
  · funext key
    exact Map.map_lookup_of_entries hchannels key
  · intro key v hv
    have hin := Session.mem_tracked.2 (isSome_of_mem hv)
    simp [htracked] at hin

/-! ## The steps of a passing -/

variable {visited : Option String} {seen : Finset String}

theorem Stage.registered (h : Stage visited seen n) (hi : i = 1 ∨ i = 2) : n.isRegistered i := by
  rw [← isRegistered_roster, Roster.isRegistered, h.clients]
  rcases hi with rfl | rfl <;> rfl

theorem Stage.client (h : Stage visited seen n) :
    n.roster.clients 2 = some ⟨some "two", true, ∅⟩ := by
  rw [h.clients]
  rfl

theorem Stage.lookup (h : Stage none seen n) (key : String) : n.channels.lookup key = none := by
  have := congrFun h.channels key
  simpa [roster, roomOf] using this

theorem Stage.next (h : Stage visited seen n) (hop : n.Allows op) (hr : (n.apply op).roster = r)
    (hcl : r.clients = bothThere visited') (hch : r.channels = roomOf visited')
    (hs : (Roster.sessionFrom "two" (r.told 2)).Plain ∧
      (Roster.sessionFrom "two" (r.told 2)).Idle ∧
      (Roster.sessionFrom "two" (r.told 2)).tracked = seen') :
    Stage visited' seen' (n.apply op) := by
  subst hr
  rw [← sessionOf_eq] at hs
  exact ⟨h.reach.step _ hop (modest_visited hcl hch), hcl, hch, hs.1, hs.2.1, hs.2.2⟩

theorem Stage.heard (h : Stage visited seen n) :
    (Roster.sessionFrom "two" (n.roster.told 2)).Plain ∧
      (Roster.sessionFrom "two" (n.roster.told 2)).Idle ∧
      (Roster.sessionFrom "two" (n.roster.told 2)).tracked = seen := by
  rw [← sessionOf_eq]
  exact ⟨h.plain, h.idle, h.tracked⟩

theorem Stage.join (h : Stage none seen n) (hname : Usual name) :
    Stage (some name) seen (n.apply (line 1 (.join name none none))) := by
  obtain ⟨user, topic, hr⟩ := apply_join hname (h.registered (.inl rfl)) (h.lookup _)
  have hentered : n.roster.entered 1 name = ⟨name, {1}, {1}⟩ := by
    simp [Roster.entered, h.channels, roomOf]
  refine h.next trivial hr ?_ ?_ ?_
  · rw [enter_clients]
    funext i
    simp only [Roster.place, Roster.modifyClient, h.clients, update_apply, bothThere, hname.fold]
    split <;> simp
  · rw [enter_channels]
    funext key
    simp only [Roster.place, h.channels, update_apply, hname.fold, hentered, roomOf]
    by_cases hk : key = name
    · simp [hk]
    · simp [hk, Ne.symm hk]
  · rw [sessionFrom_enter h.reach.consistent h.client,
      sessionFrom_joined 1 name user "two" h.client, hentered]
    exact h.heard

theorem Stage.room (h : Stage (some name) seen n) (hname : Usual name) :
    n.roster.channels (fold name) = some ⟨name, {1}, {1}⟩ := by
  rw [h.channels, hname.fold]
  simp [roomOf]

theorem Stage.names (h : Stage (some name) seen n) (hname : Usual name)
    (hroom : seen.card < maxChannels) :
    Stage (some name) (insert name seen) (n.apply (line 2 (.names (some name) none))) := by
  have hnames : n.roster.names ⟨name, {1}, {1}⟩ ≠ [] := by
    have hone : "@one" ∈ n.roster.names ⟨name, {1}, {1}⟩ := by
      simp only [Roster.names, mem_sorted, Multiset.mem_filterMap]
      exact ⟨1, by simp, by rw [h.clients]; rfl⟩
    exact ne_nil_of_mem hone
  refine h.next trivial (apply_names hname (h.registered (.inr rfl))) ?_ ?_ ?_
  · rw [list_clients, h.clients]
  · rw [list_channels, h.channels]
  · obtain ⟨hplain, hidle, htracked⟩ := h.heard
    have hlisted := tracked_listed name hplain hidle (htracked ▸ hroom) hnames
    rw [hname.fold, htracked] at hlisted
    rw [sessionFrom_list h.client, h.room hname]
    exact hlisted

theorem Stage.part (h : Stage (some name) seen n) (hname : Usual name) :
    Stage none seen (n.apply (line 1 (.part name none))) := by
  obtain ⟨m, hr⟩ := apply_part hname (h.registered (.inl rfl)) (h.room hname)
    (Finset.mem_singleton_self 1)
  refine h.next trivial hr ?_ ?_ ?_
  · funext i
    simp only [Roster.remove, Roster.modifyClient, Roster.tellMembers, Roster.tell, h.clients,
      update_apply, bothThere, hname.fold]
    split <;> simp
  · funext key
    simp only [Roster.remove, Roster.tellMembers, Roster.tell, h.channels, update_apply, hname.fold,
      roomOf]
    by_cases hk : key = name
    · simp [hk, Room.without]
    · simp [hk, Ne.symm hk]
  · have htold : Roster.sessionFrom "two" (((n.roster.tellMembers ⟨name, {1}, {1}⟩ m).remove
        (fold name) 1).told 2) = Roster.sessionFrom "two" (n.roster.told 2) :=
      (sessionFrom_tell (· ∈ ({1} : Finset ClientId)) m h.client).trans
        (if_neg (by decide))
    exact h.heard

theorem Stage.passing (h : Stage none ((Finset.range j).image channelName) n) (hj : j < 512) :
    Stage none ((Finset.range (j + 1)).image channelName) (n.run (passing (channelName j))) := by
  have hname := usual_channelName hj
  have hcard : ((Finset.range j).image channelName).card < maxChannels :=
    lt_of_le_of_lt Finset.card_image_le ((Finset.card_range j).trans_lt hj)
  rw [Finset.range_add_one, Finset.image_insert]
  exact ((h.join hname).names hname hcard).part hname

theorem Stage.passings (h : Stage none ∅ n) (hj : j ≤ 512) :
    Stage none ((Finset.range j).image channelName)
      (n.run ((List.range j).flatMap fun k => Network.passing (channelName k))) := by
  induction j with
  | zero => simpa [Network.run] using h
  | succ j ih =>
    have hstep := (ih (by omega)).passing (by omega)
    rw [range_succ]
    simpa [Network.run] using hstep

theorem run_crowd (hj : j ≤ 512) : ∃ n, Stage none ((Finset.range j).image channelName) n ∧
    (init "srv" "net" 0).run (crowd j) = n.apply (line 2 (.join "#new" none none)) :=
  ⟨_, opening_stage.passings hj, by simp only [crowd, Network.run, foldl_append,
    foldl_cons, foldl_nil]⟩

/-- The run ends with a client that the server has in a channel and whose session does not track
it. -/
theorem crowd_hides_channel :
    ReachableBy (fun n op => Modest (n.apply op)) ((init "srv" "net" 0).run (crowd maxChannels)) ∧
      (((init "srv" "net" 0).run (crowd maxChannels)).channels.lookup "#new").any
        (2 ∈ ·.members) ∧
      (((init "srv" "net" 0).run (crowd maxChannels)).sessionOf "two" 2).channel "#new" = none := by
  obtain ⟨n, hstage, hrun⟩ := run_crowd (j := maxChannels) le_rfl
  obtain ⟨hplain, hidle, htracked⟩ := hstage.heard
  have hcard : (Roster.sessionFrom "two" (n.roster.told 2)).tracked.card = maxChannels := by
    rw [htracked, Finset.card_image_of_injOn, Finset.card_range]
    intro j hj k hk h
    exact channelName_inj (Finset.mem_range.1 hj) (Finset.mem_range.1 hk) h
  have hname : Usual "#new" := ⟨by decide, by decide, by decide, by decide⟩
  have hnew : fold "#new" ∉ (Roster.sessionFrom "two" (n.roster.told 2)).tracked := by
    rw [htracked, Finset.mem_image]
    rintro ⟨k, -, hk⟩
    exact channelName_ne hk
  obtain ⟨user, topic, hr⟩ := apply_join hname (hstage.registered (.inr rfl)) (hstage.lookup _)
  replace hr : (n.apply (line 2 (.join "#new" none none))).roster = _ := hr
  rw [hrun]
  have hroom : (n.apply (line 2 (.join "#new" none none))).roster.channels =
      update (roomOf none) "#new" (some ⟨"#new", {2}, {2}⟩) := by
    rw [hr]
    simp [Roster.place, Roster.entered, hname.fold, hstage.channels, roomOf]
  refine ⟨hstage.reach.step _ trivial (modest_of_roster ?_ ?_), ?_, ?_⟩
  · intro i c h
    rw [hr, enter_clients] at h
    rcases modifyClient_eq_some.1 h with ⟨rfl, c', hc', rfl⟩ | ⟨-, hc⟩
    · obtain rfl := some.inj (hstage.client.symm.trans hc')
      exact ⟨.inr rfl, by simp⟩
    · exact bothThere_eq_some (hstage.clients ▸ hc)
  · intro key room h
    rw [hroom, update_apply] at h
    split at h
    · cases h
      simp
    · cases h
  · have hnew := congrFun hroom "#new"
    obtain ⟨room, hlookup, hview⟩ := map_eq_some_iff.1 hnew
    rw [hlookup]
    exact decide_eq_true ((congrArg (2 ∈ Room.members ·) hview).mpr (Finset.mem_singleton_self 2))
  · obtain ⟨hview, hsupport⟩ := view_enter_of_full user topic
      hstage.reach.consistent hstage.client hplain hidle hnew hcard.ge
    rw [← hr, ← sessionOf_eq] at hview hsupport
    rw [Session.channel, (hplain.congr hsupport).normalize]
    have hlookup : Session.view _ (fold "#new") = none :=
      (congrFun hview _).trans (not_isSome_iff_eq_none.1 fun h =>
        hnew (Session.mem_tracked.2 h))
    exact map_eq_none_iff.1 hlookup

end Network

end Ddirc.Server
