import Ddirc.App.Agent

/-! # What an agent sends is what the user allowed

A message is handed over in three places: by a call whose conversation was allowed for good, by the
decision that lets a request through once, and after a lasting permission was written down. `Move`
says what a step can be. The invariant `Sound` relates the state to the inputs so far: a permission,
and a call that is writing one down, goes back to a decision of the user, a call that waits for the
user is on show, and no call hands a message over twice. -/

namespace Ddirc.App.Mcp
open List
open Api Text

variable {env : Env}

/-- Two permissions have one key only if they are for one profile and one conversation. -/
theorem allowKey_inj (h : allowKey env p c = allowKey env q d) :
    p = q ∧ env.lower c = env.lower d := by
  have hlist : p.text.toList ++ '\n' :: (env.lower c).toList =
      q.text.toList ++ '\n' :: (env.lower d).toList := by
    simpa [allowKey, append_assoc] using congrArg String.toList h
  -- The id ends at line.
  have htake (p : ProfileId) (l : List Char) :
      (p.text.toList ++ '\n' :: l).takeWhile (· ≠ '\n') = p.text.toList := by
    rw [takeWhile_append_of_pos fun x hx => ?_]
    · simp
    · exact decide_eq_true fun (hx' : x = '\n') => p.oneLine (hx' ▸ hx)
  have htext : p.text.toList = q.text.toList := by rw [← htake p, hlist, htake]
  rw [htext, append_cancel_left_eq, List.cons.injEq, String.toList_inj] at hlist
  obtain ⟨q, _⟩ := q
  obtain rfl := String.toList_inj.1 htext
  exact ⟨rfl, hlist.2⟩

def handedCalls (out : List Output) : List Nat :=
  out.filterMap fun o => match o.outcome with
    | .handed _ _ => some o.call
    | _ => none

namespace Server
variable {a a' start : Server env} {n id : Nat} {r : SendRequest} {inputs : List (Input env)}
variable {i : Input env} {c : Call} {b : Server env} {pending : List Nat} {w : Suspended}
  {next : Nat} {allowed : Finset String}

/-! ## What the user saw and said -/

structure Shows (a : Server env) (n id : Nat) (r : SendRequest) : Prop where
  pending : n ∈ a.pending
  waiting : a.calls.lookup n = some { session := id, request := r, stage := .waiting }

/-- The user approved the request of a call while it was on show. -/
def Approved (start : Server env) (inputs : List (Input env)) (n id : Nat) (r : SendRequest) :
    Prop :=
  ∃ front d rest, inputs = front ++ .decide n d :: rest ∧ d ≠ .deny ∧
    (start.after front).Shows n id r

/-- A conversation is allowed for good: it was so at the start, or the user said so to a request on
show, and no permission was revoked since. -/
def Always (start : Server env) (inputs : List (Input env)) (profileId : ProfileId)
    (conversation : String) : Prop :=
  (allowKey env profileId conversation ∈ start.allowed ∧ .forgetAllowed ∉ inputs) ∨
    ∃ front n rest id r, inputs = front ++ .decide n .always :: rest ∧
      (start.after front).Shows n id r ∧ r.profileId = profileId ∧
      env.lower r.conversation = env.lower conversation ∧ .forgetAllowed ∉ rest

theorem Approved.append (h : Approved start inputs n id r) (i : Input env) :
    Approved start (inputs ++ [i]) n id r := by
  obtain ⟨front, d, rest, rfl, hd, hshows⟩ := h
  exact ⟨front, d, rest ++ [i], by simp, hd, hshows⟩

theorem Always.append {p : ProfileId} {c : String} (h : Always start inputs p c)
    (hi : i ≠ .forgetAllowed) : Always start (inputs ++ [i]) p c := by
  rcases h with ⟨hkey, hno⟩ | ⟨front, n, rest, id, r, rfl, hshows, hp, hc, hno⟩
  · exact .inl ⟨hkey, by simpa [hno] using hi.symm⟩
  · exact .inr ⟨front, n, rest ++ [i], id, r, by simp, hshows, hp, hc, by simpa [hno] using hi.symm⟩

/-! ## Saying -/

def Fits (a : Server env) (id : Nat) (r : SendRequest) : Prop :=
  ∃ s, a.sessions[id]? = some s ∧ s.profileId = r.profileId

/-- The request names the network as the app does. -/
def Names (a : Server env) (id : Nat) (r : SendRequest) : Prop :=
  ∃ s, a.sessions[id]? = some s ∧ s.profileId = r.profileId ∧ r.networkName = a.networkName s

/-- A message that `say` hands over is the one of the request, in a conversation that has the
request's name up to case and is no request itself. -/
theorem of_mem_say (hfits : a.Fits id r) (h : ⟨m, .handed id' c⟩ ∈ a.say n id r) :
    m = n ∧ id' = id ∧ ∃ s conv, a.sessions[id]? = some s ∧ s.profileId = r.profileId ∧
      s.model.session.conversations.lookup (env.lower conv.name) = some conv ∧
      conv.pending = false ∧ env.lower conv.name = env.lower r.conversation ∧
      c = Session.send r.text r.replyTo conv.name := by
  obtain ⟨s, hs, hprofile⟩ := hfits
  simp only [say, hs, Session.say, Session.sayIn] at h
  cases hconv : s.model.session.conversations.lookup (Session.key env r.conversation) with
  | none => simp [hconv] at h
  | some conv =>
    have hname := s.model.filed _ conv hconv
    cases hp : conv.pending with
    | true => simp [hconv, hp] at h
    | false =>
      simp only [hconv, hp, Bool.false_eq_true, if_false, filterMap_cons,
        filterMap_nil, mem_singleton, Output.mk.injEq, Outcome.handed.injEq] at h
      refine ⟨h.1, h.2.1, s, conv, hs, hprofile, ?_, hp, hname, h.2.2⟩
      rw [← hname] at hconv
      exact hconv

theorem handedCalls_say (a : Server env) (n id : Nat) (r : SendRequest) :
    handedCalls (a.say n id r) = [] ∨ handedCalls (a.say n id r) = [n] := by
  unfold say
  cases a.sessions[id]? with
  | none => exact .inl rfl
  | some s =>
    simp only [Session.say, Session.sayIn]
    cases s.model.session.conversations.lookup (Session.key env r.conversation) with
    | none => exact .inl rfl
    | some conv =>
      cases hp : conv.pending with
      | true => exact .inl (by simp [hp, handedCalls])
      | false => exact .inr (by simp [hp, handedCalls])

theorem of_session (h : a.session network = .ok (id, s)) : a.sessions[id]? = some s := by
  unfold session at h
  split at h
  · cases h
  · split at h
    · cases h
    · dsimp only at h
      split at h
      · next found hfound =>
        obtain rfl := Except.ok.inj h
        obtain ⟨m, -, hm⟩ := exists_of_findSome?_eq_some hfound
        obtain ⟨s', hs', hfound⟩ := Option.bind_eq_some_iff.1 hm
        split at hfound
        · obtain ⟨rfl, rfl⟩ := Prod.mk.inj (Option.some.inj hfound)
          exact hs'
        · cases hfound
      · cases h

theorem names_request (h : a.request args = .ok (id, r)) : a.Names id r := by
  simp only [request, bind, Except.bind, throw, throwThe, MonadExceptOf.throw]
    at h
  repeat' split at h
  all_goals try cases h
  exact ⟨_, of_session ‹a.session args.network = _›, rfl, rfl⟩

/-! ## What a step can be -/

/-- Calls come to an end and permissions are taken back, and nothing is added. -/
structure Shrinks (a a' : Server env) : Prop where
  calls : ∀ {n w}, a'.calls.lookup n = some w → a.calls.lookup n = some w
  waits : ∀ {n w}, a'.calls.lookup n = some w → w.stage = .waiting → n ∈ a.pending → n ∈ a'.pending
  next : a.next ≤ a'.next
  fits : ∀ {id r}, a.Fits id r → a'.Fits id r
  allowed : a'.allowed ⊆ a.allowed

theorem Shrinks.refl (a : Server env) : Shrinks a a :=
  ⟨fun h => h, fun _ _ h => h, le_rfl, fun h => h, subset_rfl⟩

theorem Shrinks.trans (h : Shrinks a a') (h' : Shrinks a' b) : Shrinks a b where
  calls hw := h.calls (h'.calls hw)
  waits hw hs hn := h'.waits hw hs (h.waits (h'.calls hw) hs hn)
  next := h.next.trans h'.next
  fits hf := h'.fits (h.fits hf)
  allowed := h'.allowed.trans h.allowed

theorem Shrinks.erase (h : ∀ m, m ≠ n → m ∈ a.pending → m ∈ pending) :
    Shrinks a { a with pending, calls := a.calls.erase n } where
  calls hw := (Map.of_lookup_erase hw).2
  waits hw _ hm := h _ (Map.of_lookup_erase hw).1 hm
  next := le_rfl
  fits hf := hf
  allowed := subset_rfl

theorem Shrinks.forget (a : Server env) (n : Nat) :
    Shrinks a { a with pending := a.pending.filter (· ≠ n), calls := a.calls.erase n } :=
  .erase fun _ hm hmem => mem_filter.2 ⟨hmem, decide_eq_true hm⟩

theorem decide_deny (a : Server env) (n : Nat) :
    Shrinks a (a.decide n .deny).1 ∧ handedCalls (a.decide n .deny).2 = [] ∧
      ∀ w, (a.decide n .deny).1.calls.lookup n = some w → w.stage ≠ .waiting := by
  unfold decide
  split
  · refine ⟨.forget a n, rfl, fun w hw => ?_⟩
    exact absurd rfl (Map.of_lookup_erase hw).1
  · next hno =>
    refine ⟨.refl a, rfl, fun w hw hstage => ?_⟩
    obtain ⟨id, r, stage⟩ := w
    exact hno id r (hw.trans (by rw [← hstage]))

theorem denyAll_spec (a : Server env) (ns : List Nat) :
    Shrinks a (a.denyAll ns).1 ∧ handedCalls (a.denyAll ns).2 = [] ∧
      ∀ n ∈ ns, ∀ w, (a.denyAll ns).1.calls.lookup n = some w → w.stage ≠ .waiting := by
  induction ns generalizing a with
  | nil => exact ⟨.refl a, rfl, fun _ h => absurd h not_mem_nil⟩
  | cons n ns ih =>
    obtain ⟨hfirst, hout, hn⟩ := decide_deny a n
    obtain ⟨hrest, hout', hns⟩ := ih (a.decide n .deny).1
    refine ⟨hfirst.trans hrest, ?_, fun m hm w hw => ?_⟩
    · simp only [denyAll, handedCalls, filterMap_append] at hout hout' ⊢
      rw [hout, hout', append_nil]
    · rcases mem_cons.1 hm with rfl | hm
      · exact hn w (hrest.calls hw)
      · exact hns m hm w hw

inductive Move (a : Server env) : Input env → Server env → List Output → Prop where
  | quiet {i : Input env} {a' : Server env} {out : List Output} (hi : i ≠ .forgetAllowed)
      (h : Shrinks a a') (hout : handedCalls out = []) : Move a i a' out
  | revoked : Move a .forgetAllowed { a with allowed := ∅ } []
  | passed {args : SendArgs} {id : Nat} {r : SendRequest} (hfits : a.Fits id r)
      (hkey : allowKey env r.profileId r.conversation ∈ a.allowed) :
      Move a (.call args) { a with next := a.next + 1 } (a.say a.next id r)
  | asked {args : SendArgs} {id : Nat} {r : SendRequest} (hfits : a.Fits id r)
      (hnames : a.Names id r) :
      Move a (.call args)
        { a with
          next := a.next + 1
          pending := a.pending ++ [a.next]
          calls := a.calls.insert a.next { session := id, request := r, stage := .waiting } } []
  | once {n id : Nat} {r : SendRequest}
      (hw : a.calls.lookup n = some { session := id, request := r, stage := .waiting }) :
      Move a (.decide n .once)
        { a with pending := a.pending.filter (· ≠ n), calls := a.calls.erase n } (a.say n id r)
  | always {n id : Nat} {r : SendRequest}
      (hw : a.calls.lookup n = some { session := id, request := r, stage := .waiting }) :
      Move a (.decide n .always)
        { a with
          pending := a.pending.filter (· ≠ n)
          allowed := insert (allowKey env r.profileId r.conversation) a.allowed
          calls := a.calls.insert n { session := id, request := r, stage := .saving } } []
  | saved {n id : Nat} {r : SendRequest}
      (hw : a.calls.lookup n = some { session := id, request := r, stage := .saving }) :
      Move a (.saved n none) { a with calls := a.calls.erase n } (a.say n id r)

theorem Shrinks.sessions {sessions : List (Held env)}
    (h : ∀ (id : Nat) (s : Held env), a.sessions[id]? = some s →
      ∃ s' : Held env, sessions[id]? = some s' ∧ s'.profileId = s.profileId) :
    Shrinks a { a with sessions } where
  calls hw := hw
  waits _ _ hn := hn
  next := le_rfl
  fits := by
    rintro id r ⟨s, hs, hp⟩
    obtain ⟨s', hs', hp'⟩ := h id s hs
    exact ⟨s', hs', hp'.trans hp⟩
  allowed := subset_rfl

theorem shrinks_stop (a : Server env) : Shrinks a a.stop.1 := by
  obtain ⟨h, -, hno⟩ := denyAll_spec { a with running := false } a.pending
  exact ⟨h.calls, fun hw hs hn => absurd hs (hno _ hn _ hw), h.next, h.fits, h.allowed⟩

theorem move (a : Server env) (i : Input env) : Move a i (a.step i).1 (a.step i).2 := by
  cases i with
  | call args =>
    simp only [step, call]
    split
    · refine .quiet nofun ⟨fun h => h, fun _ _ h => h, Nat.le_succ _, fun h => h, subset_rfl⟩ rfl
    · next id r hr =>
      have hnames : a.Names id r := names_request (a := { a with next := a.next + 1 }) hr
      have hfits : a.Fits id r := hnames.imp fun _ h => ⟨h.1, h.2.1⟩
      split
      · next hkey => exact .passed hfits hkey
      · exact .asked hfits hnames
  | decide n d =>
    cases d with
    | deny => exact .quiet nofun (decide_deny a n).1 (decide_deny a n).2.1
    | once =>
      simp only [step, decide]
      split
      · next hw => exact .once hw
      · exact .quiet nofun (.refl a) rfl
    | always =>
      simp only [step, decide]
      split
      · next hw => exact .always hw
      · exact .quiet nofun (.refl a) rfl
  | timeout n => exact .quiet nofun (decide_deny a n).1 (decide_deny a n).2.1
  | saved n error =>
    simp only [step, saved]
    split
    · next hw =>
      cases error with
      | none => exact .saved hw
      | some e => exact .quiet nofun (.erase fun _ _ h => h) rfl
    · exact .quiet nofun (.refl a) rfl
  | forgetAllowed => exact .revoked
  | stop =>
    have hout := (denyAll_spec { a with running := false } a.pending).2.1
    exact .quiet nofun (shrinks_stop a) hout
  | opened s =>
    refine .quiet nofun (.sessions fun id s' hs' => ⟨s', ?_, rfl⟩) rfl
    exact (List.getElem?_append_left (List.getElem?_eq_some_iff.1 hs').1).trans hs'
  | changed id network model =>
    refine .quiet nofun (.sessions fun id' s' hs' => ?_) rfl
    rw [List.getElem?_modify, hs']
    refine ⟨_, rfl, ?_⟩
    split <;> rfl
  | start _ | listed _ _ | locked _ | attached =>
    exact .quiet nofun ⟨fun h => h, fun _ _ h => h, le_rfl, fun h => h, subset_rfl⟩ rfl

/-! ## The invariant -/

/-- The request named the network as the app did then. -/
def Named (start : Server env) (inputs : List (Input env)) (id : Nat) (r : SendRequest) : Prop :=
  ∃ front rest, inputs = front ++ rest ∧ (start.after front).Names id r

theorem Named.append (h : Named start inputs id r) (i : Input env) :
    Named start (inputs ++ [i]) id r := by
  obtain ⟨front, rest, rfl, hnames⟩ := h
  exact ⟨front, rest ++ [i], append_assoc .., hnames⟩

/-- Where a suspended call comes from, after some inputs and with these calls over that handed a
message over. -/
structure Proper (start : Server env) (inputs : List (Input env)) (spent : List Nat)
    (a : Server env)
    (n : Nat) (w : Suspended) : Prop where
  waits : w.stage = .waiting → n ∈ a.pending
  fresh : n < a.next
  fits : a.Fits w.session w.request
  named : Named start inputs w.session w.request
  saving : w.stage = .saving → Approved start inputs n w.session w.request
  unspent : n ∉ spent

/-- The state after some inputs: where its calls and permissions come from, and that each call
handed over one message at most. -/
structure Sound (start : Server env) (inputs : List (Input env)) (spent : List Nat)
    (a : Server env) : Prop where
  calls : ∀ {n w}, a.calls.lookup n = some w → Proper start inputs spent a n w
  allowed : ∀ {p c}, allowKey env p c ∈ a.allowed → Always start inputs p c
  nodup : spent.Nodup
  old : ∀ n ∈ spent, n < a.next

variable {spent : List Nat}

theorem Sound.shrinks (h : Sound start inputs spent a) (hs : Shrinks a a') :
    Sound start inputs spent a' where
  calls hw :=
    have hc := h.calls (hs.calls hw)
    { waits := fun hstage => hs.waits hw hstage (hc.waits hstage)
      fresh := hc.fresh.trans_le hs.next
      fits := hs.fits hc.fits
      named := hc.named
      saving := hc.saving
      unspent := hc.unspent }
  allowed hkey := h.allowed (hs.allowed hkey)
  nodup := h.nodup
  old n hn := (h.old n hn).trans_le hs.next

theorem Proper.append (h : Proper start inputs spent a n w) (i : Input env) :
    Proper start (inputs ++ [i]) spent a n w :=
  { h with
    named := h.named.append i
    saving := fun hstage => (h.saving hstage).append i }

theorem Sound.append (h : Sound start inputs spent a) (hi : i ≠ .forgetAllowed) :
    Sound start (inputs ++ [i]) spent a where
  calls hw := (h.calls hw).append i
  allowed hkey := (h.allowed hkey).append hi
  nodup := h.nodup
  old := h.old

theorem Sound.insert (h : Sound start inputs spent a) (hnext : a.next ≤ next)
    (hpending : ∀ m, m ≠ n → m ∈ a.pending → m ∈ pending)
    (hproper : Proper start inputs spent { a with pending, next } n w)
    (hallowed : ∀ {p c}, allowKey env p c ∈ allowed → Always start inputs p c) :
    Sound start inputs spent { a with pending, next, allowed, calls := a.calls.insert n w } where
  calls hw := by
    rcases Map.of_lookup_insert hw with ⟨rfl, rfl⟩ | ⟨hm, hw⟩
    · exact { hproper with }
    · obtain ⟨hwaits, hfresh, hfits, hnamed, hsaving, hunspent⟩ := h.calls hw
      exact ⟨fun hstage => hpending _ hm (hwaits hstage), hfresh.trans_le hnext, hfits, hnamed,
        hsaving, hunspent⟩
  allowed := hallowed
  nodup := h.nodup
  old m hm := (h.old m hm).trans_le hnext

theorem Sound.say (h : Sound start inputs spent a) (hn : n ∉ spent) (hold : n < a.next)
    (hover : a.calls.lookup n = none) :
    Sound start inputs (spent ++ handedCalls (b.say n id r)) a := by
  rcases handedCalls_say b n id r with hsay | hsay
  · rw [hsay, append_nil]
    exact h
  rw [hsay]
  refine ⟨fun {m w} hw => { h.calls hw with unspent := fun hm => ?_ }, h.allowed, ?_,
    fun m hm => ?_⟩
  · rcases mem_append.1 hm with hm | hm
    · exact (h.calls hw).unspent hm
    · rw [mem_singleton.1 hm, hover] at hw
      cases hw
  · exact nodup_append.2 ⟨h.nodup, nodup_singleton n,
      fun m hm m' hm' hmm => hn (mem_singleton.1 hm' ▸ hmm ▸ hm)⟩
  · exact (mem_append.1 hm).elim (h.old m) fun hm => mem_singleton.1 hm ▸ hold

theorem Sound.shows (h : Sound start inputs spent (start.after inputs))
    (hw : (start.after inputs).calls.lookup n =
      some { session := id, request := r, stage := .waiting }) :
    (start.after inputs).Shows n id r := ⟨(h.calls hw).waits rfl, hw⟩

theorem Sound.step (h : Sound start inputs spent (start.after inputs)) :
    Sound start (inputs ++ [i]) (spent ++ handedCalls ((start.after inputs).step i).2)
      ((start.after inputs).step i).1 := by
  have hmove := move (start.after inputs) i
  generalize ha' : ((start.after inputs).step i).1 = a' at hmove
  generalize ((start.after inputs).step i).2 = out at hmove
  have hnone : spent ++ handedCalls [] = spent := append_nil spent
  have hnew : (start.after inputs).next ∉ spent := fun hn => absurd (h.old _ hn) (Nat.lt_irrefl _)
  have herase (n : Nat) : ((start.after inputs).calls.erase n).lookup n = none := by
    rw [Map.lookup_erase, if_pos rfl]
  cases hmove with
  | quiet hi hs hout =>
    rw [hout, append_nil]
    exact (h.shrinks hs).append hi
  | revoked =>
    rw [hnone]
    exact { h with
      calls := fun hw => { (h.calls hw).append _ with }
      allowed := fun hkey => absurd hkey (Finset.notMem_empty _) }
  | passed hfits hkey =>
    refine .append (.say (h.shrinks ?_) hnew (Nat.lt_succ_self _) ?_) nofun
    · exact ⟨fun h => h, fun _ _ h => h, Nat.le_succ _, fun h => h, subset_rfl⟩
    · exact Option.eq_none_iff_forall_ne_some.2 fun w hw =>
        absurd (h.calls hw).fresh (Nat.lt_irrefl _)
  | @asked args id r hfits hnames =>
    have h' := h.append (i := .call args) nofun
    rw [hnone]
    exact h'.insert (Nat.le_succ _) (fun _ _ hm => mem_append_left _ hm)
      ⟨fun _ => mem_append_right _ (mem_singleton_self _), Nat.lt_succ_self _, hfits,
        ⟨inputs, _, rfl, hnames⟩, nofun, hnew⟩ h'.allowed
  | once hw =>
    have hc := h.calls hw
    exact ((h.shrinks (.forget _ _)).say hc.unspent hc.fresh (herase _)).append nofun
  | @always n id r hw =>
    have h' := h.append (i := .decide n .always) nofun
    have hc := h.calls hw
    rw [hnone]
    refine h'.insert le_rfl (fun _ hm hmem => mem_filter.2 ⟨hmem, decide_eq_true hm⟩)
      ⟨nofun, hc.fresh, hc.fits, hc.named.append _,
        fun _ => ⟨inputs, .always, [], rfl, nofun, h.shows hw⟩, hc.unspent⟩
      fun {p c} hkey => ?_
    rcases Finset.mem_insert.1 hkey with hkey | hkey
    · -- The permission that was just given.
      obtain ⟨hp, hc⟩ := allowKey_inj hkey
      exact .inr ⟨inputs, n, [], id, r, rfl, h.shows hw, hp.symm, hc.symm, not_mem_nil⟩
    · exact h'.allowed hkey
  | saved hw =>
    have hc := h.calls hw
    exact ((h.shrinks (.erase fun _ _ hm => hm)).say hc.unspent hc.fresh (herase _)).append nofun

/-! ## Runs -/

def init (env : Env) (allowed : Finset String) : Server env := { allowed, attached := false }

def spentIn (start : Server env) (inputs : List (Input env)) : List Nat :=
  handedCalls ((Run.trace step start inputs).flatMap (·.2))

theorem sound_after (allowed : Finset String) (inputs : List (Input env)) :
    Sound (init env allowed) inputs ((init env allowed).spentIn inputs)
      ((init env allowed).after inputs) := by
  refine Run.after_history
    (P := fun is => Sound (init env allowed) is ((init env allowed).spentIn is)) ?_
    (fun is i h => ?_)
    inputs
  · exact ⟨nofun, fun hkey => .inl ⟨hkey, not_mem_nil⟩, nodup_nil, nofun⟩
  · have hspent : (init env allowed).spentIn (is ++ [i]) = (init env allowed).spentIn is ++
        handedCalls (((init env allowed).after is).step i).2 := by
      simp [spentIn, Run.trace_append, handedCalls, after]
    rw [hspent]
    exact h.step

theorem call_mem_handedCalls (h : ⟨n, .handed id c⟩ ∈ out) :
    n ∈ handedCalls out := mem_filterMap.2 ⟨_, h, rfl⟩

/-- A message that call `n` hands over at input `i` is one the user allowed: its own request, which
named its network, was approved, or its conversation was allowed for good when the call came. -/
def Permitted (start : Server env) (inputs : List (Input env)) (i : Input env) (n id : Nat)
    (profileId : ProfileId) (target text : String) (reply : Option ReplyRef) : Prop :=
  (∃ r, Approved start (inputs ++ [i]) n id r ∧ Named start inputs id r ∧ r.profileId = profileId ∧
      env.lower r.conversation = env.lower target ∧ r.text = text ∧ r.replyTo = reply) ∨
    ((∃ args, i = .call args) ∧ Always start inputs profileId target)

/-- Call `n` hands over at input `i` a message for a conversation of session `id` that is not a
request, and the user allowed it. -/
def Lawful (start : Server env) (inputs : List (Input env)) (i : Input env) (n id : Nat)
    (c : Call) : Prop :=
  ∃ s conv text reply, (start.after inputs).sessions[id]? = some s ∧
    s.model.session.conversations.lookup (env.lower conv.name) = some conv ∧
    conv.pending = false ∧ c = Session.send text reply conv.name ∧
    Permitted start inputs i n id s.profileId conv.name text reply

theorem Sound.lawful (h : Sound start inputs spent (start.after inputs))
    (hc : ⟨n, .handed id c⟩ ∈ ((start.after inputs).step i).2) : Lawful start inputs i n id c := by
  -- Where the request was approved, it was on show or its permission was being written.
  have happroved {m id' : Nat} {w : Suspended} (hw : (start.after inputs).calls.lookup m = some w)
      (hc : ⟨n, .handed id c⟩ ∈ (start.after inputs).say m id' w.request) (hid : id' = w.session)
      (happroved : Approved start (inputs ++ [i]) m w.session w.request) :
      Lawful start inputs i n id c := by
    subst hid
    obtain ⟨rfl, rfl, s, conv, hs, hprofile, hconv, hp, hname, rfl⟩ :=
      of_mem_say (h.calls hw).fits hc
    exact ⟨s, conv, _, _, hs, hconv, hp, rfl,
      .inl ⟨w.request, happroved, (h.calls hw).named, hprofile.symm, hname.symm, rfl, rfl⟩⟩
  have hmove := move (start.after inputs) i
  generalize ((start.after inputs).step i).1 = a' at hmove
  generalize ((start.after inputs).step i).2 = out at hmove hc
  cases hmove with
  | quiet _ _ hout => exact absurd (hout ▸ call_mem_handedCalls hc) not_mem_nil
  | revoked | asked | always => exact absurd hc not_mem_nil
  | @passed args _ r hfits hkey =>
    obtain ⟨rfl, rfl, s, conv, hs, hprofile, hconv, hp, hname, rfl⟩ := of_mem_say hfits hc
    refine ⟨s, conv, _, _, hs, hconv, hp, rfl, .inr ⟨⟨args, rfl⟩, h.allowed ?_⟩⟩
    rwa [allowKey, hname, hprofile]
  | once hw => exact happroved hw hc rfl ⟨inputs, .once, [], rfl, nofun, h.shows hw⟩
  | saved hw => exact happroved hw hc rfl (((h.calls hw).saving rfl).append _)

/-- In every run of the agent server, from whatever was allowed for good before it, each message
that is handed to a session is one the user allowed, for a conversation that is not a request; and a
call, so also the approval of its request, hands over one message at most. A conversation is the one
a session files under the name in lower case. -/
theorem agent_sends_what_is_allowed (env : Env) (allowed : Finset String)
    (inputs : List (Input env)) :
    (∀ front i rest, inputs = front ++ i :: rest → ∀ n id c,
      ⟨n, .handed id c⟩ ∈ (((init env allowed).after front).step i).2 →
        Lawful (init env allowed) front i n id c) ∧
    ((init env allowed).spentIn inputs).Nodup :=
  ⟨fun front _ _ _ _ _ _ hc => (sound_after allowed front).lawful hc,
    (sound_after allowed inputs).nodup⟩

def ascii : Env where
  lower := Str.toAsciiLowercase
  markdownToMirc text := text

def inChannel : Held ascii where
  profileId := ⟨"p1", by decide⟩
  model := .after ascii "me" {} [.event 0 (.joined "#Rust" "me" true)]

def asking : List (Input ascii) :=
  [.attached, .opened inChannel, .listed [0] fun _ => some "Libera",
    .call { network := some "libera", conversation := some "#RUST", text := some "hello" }]

theorem agent_sends_what_is_allowed_once :
    ⟨0, .handed 0 (.sendMessage "#Rust" "hello")⟩ ∈
        (((init ascii ∅).after asking).step (.decide 0 .once)).2 ∧
      Lawful (init ascii ∅) asking (.decide 0 .once) 0 0 (.sendMessage "#Rust" "hello") := by
  have hc : ⟨0, .handed 0 (.sendMessage "#Rust" "hello")⟩ ∈
      (((init ascii ∅).after asking).step (.decide 0 .once)).2 := by decide +kernel
  exact ⟨hc, (agent_sends_what_is_allowed ascii ∅ (asking ++ [.decide 0 .once])).1
    asking _ [] rfl _ _ _ hc⟩

end Server
end Ddirc.App.Mcp
