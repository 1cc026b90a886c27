import Ddirc.Lib.Run
import Ddirc.Xmpp.Deed

/-! # The key of a room

The user gives a room's key with the join. The session sends it with that one presence and does not
keep it: a join that it sends by itself, under another nickname or after a new login, has no key. -/

namespace Ddirc.Xmpp

theorem Outgoing.entry_of_request {o : Outgoing} (h : o.request account = some sent) :
    o.entry = none := by
  cases o <;> first | rfl | cases h

namespace Session

theorem Does.entries {s : Session} {l : Licence} (h : s.Does l r) (occupant : Jid)
    (password : Option String) :
    .join occupant password ∈ r.2.send → l.enters occupant.bare password := by
  refine h.keeps (I := fun r => .join occupant password ∈ r.2.send → _) nofun fun r d hd hr => ?_
  have happend {o : Outgoing} (ho : ∀ e ∈ o.entry, l.enters e.1 e.2)
      (h : .join occupant password ∈ r.2.send ++ [o]) : l.enters occupant.bare password := by
    rcases List.mem_append.1 h with h | h
    · exact hr h
    · exact ho (occupant.bare, password) (by rw [← List.mem_singleton.1 h]; rfl)
  cases d with
  | ask p request =>
    refine happend fun e he => ?_
    rw [Outgoing.entry_of_request (hd.2 _)] at he
    cases he
  | send o => exact happend hd.2.2.2
  | utter | tell => exact fun h => hr ((List.mem_append.1 h).resolve_right List.not_mem_nil)
  | _ => exact hr

end Session

/-- The session, beside the key that the user joined each room with and did not leave since. -/
structure Locked where
  session : Session
  keys : BareJid → Option String := fun _ => none

namespace Locked
variable (rules : JidRules)

/-- The keys after an input. A room that is joined already is not joined again. -/
def note (w : Locked) : Input → BareJid → Option String
  | .command (.join channel key) =>
    match Session.roomJid rules channel with
    | some jid =>
      if (w.session.rooms.lookup jid).any fun r => r.joined && !r.leaving then w.keys
      else Function.update w.keys jid (key.filter (!·.isEmpty))
    | none => w.keys
  | .command (.part channel) =>
    match Session.roomJid rules channel with
    | some jid => Function.update w.keys jid none
    | none => w.keys
  | _ => w.keys

def step (w : Locked) (i : Input) : Locked × Effects :=
  let r := w.session.step rules i
  ({ session := r.1, keys := w.note rules i }, r.2)

/-- Every join that an input makes the session send carries the key of its room. -/
def Carries (w : Locked) (i : Input) : Prop :=
  ∀ occupant password key, .join occupant password ∈ (w.step rules i).2.send →
    (w.step rules i).1.keys occupant.bare = some key → password = some key

/-- The session does not join a room with a key by itself: there is no new login while it holds one,
and nobody has our nickname in one. -/
def spares (w : Locked) : Input → Bool
  | .online => w.session.rooms.keys.all fun jid => (w.keys jid).isNone
  | .presence p => p.type ≠ .error || p.error ≠ some .conflict ||
      p.sender.all fun sender => (w.keys sender.bare).isNone
  | _ => true

variable {rules} {w : Locked} {i : Input}

theorem carries_of_spares (h : w.spares i) : w.Carries rules i := by
  intro occupant password key hjoin hkey
  have henters := (w.session.does_step i).entries occupant password hjoin
  have hnone {jid : BareJid} (hjid : (w.keys jid).isNone) (hkey : w.keys jid = some key) :
      password = some key := by
    rw [hkey] at hjid
    cases hjid
  cases i with
  | online => exact hnone (List.all_eq_true.1 h _ henters.1) hkey
  | presence p =>
    obtain ⟨htype, herror, sender, hsender, hjid⟩ := henters
    simp only [spares, htype, herror] at h
    exact hnone (hjid ▸ (Option.all_eq_true _ _).1 h sender hsender) hkey
  | command c =>
    cases c with
    | join channel typed =>
      obtain ⟨hjid, rfl⟩ := henters
      simp only [step, note, hjid] at hkey
      split at hkey
      next hin =>
        -- joined already: nothing is sent
        simp only [step, Session.step, Session.onCommand, Session.join, hjid, hin] at hjoin
        cases hjoin
      next => rwa [Function.update_self] at hkey
    | _ => exact henters.elim
  | _ => exact henters.elim

/-- A room's key is sent with every join, as long as the session joins no room with a key by
itself. -/
theorem key_carried {session : Session} {inputs : List Input}
    (h : Run.Along (step rules) (fun w i => w.spares i = true) { session } inputs)
    (front : List Input) (i : Input) (rest : List Input) (hinputs : inputs = front ++ i :: rest) :
    (Run.after (step rules) { session } front).Carries rules i := by
  subst hinputs
  exact carries_of_spares (Run.along_append.1 h).2.1

def vault : BareJid := ⟨"vault@muc.example.org", rfl⟩

def alice : Session := .new .alice "alice" "ddirc" []

def unlock : Input := .command (.join vault.text (some "sesame"))

theorem key_carried_unlock :
    (({ session := alice } : Locked).step .verbatim unlock).2.send =
      [.join ⟨vault, some "alice"⟩ (some "sesame")] ∧
    ({ session := alice } : Locked).Carries .verbatim unlock :=
  ⟨by decide +kernel, @key_carried _ _ [unlock] ⟨rfl, trivial⟩ [] unlock [] rfl⟩

def taken : Input :=
  .presence { sender := some ⟨vault, some "alice"⟩, type := .error, error := some .conflict }

/-- Neither the retry under another nickname nor the join after a new login has the key. -/
theorem key_forgotten :
    let w := (({ session := alice } : Locked).step .verbatim unlock).1
    w.keys vault = some "sesame" ∧
    (w.step .verbatim taken).2.send = [.join ⟨vault, some "alice_"⟩ none] ∧
    .join ⟨vault, some "alice"⟩ none ∈ (w.step .verbatim .online).2.send ∧
    ¬w.Carries .verbatim taken ∧ ¬w.Carries .verbatim .online := by
  refine ⟨by decide +kernel, by decide +kernel, by decide +kernel, fun h => ?_, fun h => ?_⟩
  · cases h ⟨vault, some "alice_"⟩ none "sesame" (by decide +kernel) (by decide +kernel)
  · cases h ⟨vault, some "alice"⟩ none "sesame" (by decide +kernel) (by decide +kernel)

end Locked

end Ddirc.Xmpp
