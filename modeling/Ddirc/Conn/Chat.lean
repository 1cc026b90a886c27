import Ddirc.Conn.Flood

/-! # What others say

A `PRIVMSG` or a `NOTICE` puts nothing on the outgoing queue, with one exception: the person that a
file is served to may ask for the rest of it (`Transfers.Owes`) and is told that it is carried
on. -/

namespace Ddirc.Conn
open Irc Dcc

namespace Transfers
variable {t : Transfers}

def served (t : Transfers) (port : Nat) : Option Serving := (t.serving.lookup port).filter (·.live)

/-- The person a file was offered to asks for the rest of it, by its port and its safe name. -/
structure Owes (t : Transfers) (sender : String) (request : ResumeMessage) (file : Serving) :
    Prop where
  /-- The passive form names a token instead. -/
  byPort : request.token = none ∧ request.port ≠ 0
  served : t.served request.port = some file
  name : safeFilename file.filename = some request.filename
  inside : 0 < request.position ∧ request.position < file.size
  person : isChannelTarget file.target = false
  offeredTo : Str.eqIgnoreAsciiCase file.target sender = true

theorem lookup_forgetFinished :
    t.forgetFinished.serving.lookup port = t.served port := by
  rw [forgetFinished, Map.lookup_retain, served]

theorem served_forgetFinished (t : Transfers) : t.forgetFinished.served = t.served := by
  funext port
  rw [served, lookup_forgetFinished, served, Option.filter_filter]
  simp only [Bool.and_self]

theorem live_of_served (h : t.served port = some file) : file.live :=
  (Option.filter_eq_some_iff.1 h).2

theorem onResumeRequest_owes (h : t.Owes sender request file) :
    (t.onResumeRequest sender request).2 = some (.ofCommand (.privmsg sender
      (resumeLine "ACCEPT" file.filename request.port request.position))) ∧
    (t.onResumeRequest sender request).1.served =
      Function.update t.served request.port
        (some { file with offset := request.position }) := by
  have hinside : ¬ (request.position = 0 ∨ request.position ≥ file.size) := by
    have := h.inside
    omega
  have hform : (request.token.isSome || request.port == 0) = false := by
    simp [h.byPort.1, h.byPort.2]
  simp only [onResumeRequest, hform, Bool.false_eq_true, if_false, lookup_forgetFinished, h.served,
    h.name, ne_eq, not_true_eq_false, hinside, h.person, h.offeredTo, Bool.not_true, Bool.or_self,
    true_and]
  funext port
  rw [served, Map.lookup_insert, Function.update_apply]
  split
  · simp [live_of_served h.served]
  · exact congrFun (served_forgetFinished t) port

theorem onResumeRequest_refuses (h : ∀ file, ¬ t.Owes sender request file) :
    (t.onResumeRequest sender request).2 = none ∧
    (t.onResumeRequest sender request).1.served = t.served := by
  unfold onResumeRequest
  split
  · exact ⟨rfl, rfl⟩
  next hform =>
  simp only [lookup_forgetFinished]
  split
  · exact ⟨rfl, served_forgetFinished t⟩
  next file hserved =>
  split
  · exact ⟨rfl, served_forgetFinished t⟩
  next hname =>
  split
  · exact ⟨rfl, served_forgetFinished t⟩
  next hinside =>
  split
  · exact ⟨rfl, served_forgetFinished t⟩
  next hperson =>
  simp only [Bool.or_eq_true, Option.isSome_iff_ne_none, beq_iff_eq, not_or, not_not,
    Bool.not_eq_true', Bool.not_eq_true, Bool.not_eq_false] at hform hname hperson
  exact absurd ⟨hform, hserved, hname, by omega, hperson.1, hperson.2⟩ (h file)

theorem onResumeAccepted_served (t : Transfers) (sender : String) (accepted : ResumeMessage) :
    (t.onResumeAccepted sender accepted).1.served = t.served := by
  unfold onResumeAccepted
  dsimp only
  repeat' split
  all_goals rfl

end Transfers

/-- A request to resume is not an `ACTION`. -/
theorem not_action_of_parseResume (h : parseResume body = some request) :
    Str.startsWithStr body "ACTION " = false := by
  by_contra haction
  obtain ⟨rest, hrest⟩ := List.isPrefixOf_iff_prefix.1 (Bool.eq_true_of_not_eq_false haction)
  have hstrip : stripKeyword body "DCC" = none := by
    have htrim : (Str.trimStart body).toList = "ACTION ".toList ++ rest := by
      rw [Str.trimStart, Str.trimStartMatches, ← hrest, String.toList_ofList]
      rfl
    have hsplit : splitAtBytes (Str.len "DCC") ("ACTION ".toList ++ rest) =
        some ("ACT".toList, "ION ".toList ++ rest) := rfl
    have hhead : Str.eqIgnoreAsciiCase (String.ofList "ACT".toList) "DCC" = false := by decide
    simp only [stripKeyword, htrim, hsplit, Option.bind_eq_bind, Option.bind_some, hhead,
      Bool.not_false, if_true]
  rw [parseResume, parseResumeLike, hstrip] at h
  cases h

namespace Connection
variable {c : Connection} {text : String} {m : Message}

/-- `m` is a `PRIVMSG` to us that asks, in a CTCP request, to resume a file. -/
structure AsksToResume (c : Connection) (m : Message) (sender : String) (request : ResumeMessage) :
    Prop where
  source : m.sourceNickname = some sender
  said : ∃ target text, m.command = .privmsg target text ∧ c.session.isSelf target = true ∧
    text.toList.head?.any (·.toNat == 1) = true ∧
    parseResume (Str.trimMatches (·.toNat == 1) text) = some request

/-- What handling a message does that others can notice. -/
structure Answers (c c' : Connection) (queued lines : List Message)
    (served : Nat → Option Serving) :
    Prop where
  queued : queued = lines
  outgoing : c'.outgoing = c.outgoing ++ lines
  served : c'.transfers.served = served

theorem onChat_asked (hself : c.session.isSelf target)
    (hctcp : text.toList.head?.any (·.toNat == 1))
    (hparse : parseResume (Str.trimMatches (·.toNat == 1) text) = some request) :
    c.onChat target text (some sender) false =
      ({ c with
          transfers := (c.transfers.onResumeRequest sender request).1
          outgoing := c.outgoing ++ (c.transfers.onResumeRequest sender request).2.toList },
        { queued := (c.transfers.onResumeRequest sender request).2.toList }) := by
  simp only [onChat, not_action_of_parseResume hparse, Bool.false_eq_true, if_false, hctcp, if_true,
    onCtcp, hself, Bool.not_true, Bool.or_self, Transfers.onCtcp, hparse]

theorem onChat_other (h : ∀ sender request, source = some sender → isNotice = false →
      c.session.isSelf target → text.toList.head?.any (·.toNat == 1) →
      parseResume (Str.trimMatches (·.toNat == 1) text) = some request → False) :
    Answers c (c.onChat target text source isNotice).1
      (c.onChat target text source isNotice).2.queued
      [] c.transfers.served := by
  have hsame : Answers c c [] [] c.transfers.served := ⟨rfl, (List.append_nil _).symm, rfl⟩
  unfold onChat
  split
  · exact hsame
  next sender =>
  dsimp only
  split
  · exact hsame
  split
  next hctcp =>
    unfold onCtcp
    split
    · exact hsame
    next haddressed =>
    simp only [Bool.or_eq_true, Bool.not_eq_true', not_or, Bool.not_eq_true,
      Bool.not_eq_false] at haddressed
    simp only [Transfers.onCtcp]
    split
    next request hparse => exact (h sender request rfl haddressed.1 haddressed.2 hctcp hparse).elim
    · split
      · exact ⟨rfl, rfl, Transfers.onResumeAccepted_served ..⟩
      · exact ⟨rfl, rfl, rfl⟩
  · exact hsame

def acceptLine (sender : String) (request : ResumeMessage) (file : Serving) : Message :=
  .ofCommand (.privmsg sender (resumeLine "ACCEPT" file.filename request.port request.position))

def isChat : Command → Bool
  | .privmsg .. | .notice .. => true
  | _ => false

theorem receive_chat (h : isChat m.command) (s : Client.Session) : s.receive m = s := by
  obtain ⟨tags, source, command⟩ := m
  cases command <;> first | rfl | cases h

theorem handle_privmsg (h : m.command = .privmsg target text) :
    c.handle m = c.onChat target text m.sourceNickname false := by
  simp only [handle, receive_chat (m := m) (by rw [h]; rfl)]
  simp only [h]

theorem handle_notice (h : m.command = .notice target text) :
    c.handle m = c.onChat target text m.sourceNickname true := by
  simp only [handle, receive_chat (m := m) (by rw [h]; rfl)]
  simp only [h]

theorem handle_asked (h : c.AsksToResume m sender request) :
    c.handle m =
      ({ c with
          transfers := (c.transfers.onResumeRequest sender request).1
          outgoing := c.outgoing ++ (c.transfers.onResumeRequest sender request).2.toList },
        { queued := (c.transfers.onResumeRequest sender request).2.toList }) := by
  obtain ⟨hsource, target, text, hcommand, hself, hctcp, hparse⟩ := h
  rw [handle_privmsg hcommand, hsource, onChat_asked hself hctcp hparse]

theorem handle_owes (hasks : c.AsksToResume m sender request)
    (howes : c.transfers.Owes sender request file) :
    Answers c (c.handle m).1 (c.handle m).2.queued [acceptLine sender request file]
      (Function.update c.transfers.served request.port
        (some { file with offset := request.position })) := by
  obtain ⟨hanswer, hserved⟩ := Transfers.onResumeRequest_owes howes
  rw [handle_asked hasks, hanswer]
  exact ⟨rfl, rfl, hserved⟩

theorem handle_other (hm : isChat m.command)
    (h : ∀ sender request file, c.AsksToResume m sender request →
      ¬ c.transfers.Owes sender request file) :
    Answers c (c.handle m).1 (c.handle m).2.queued [] c.transfers.served := by
  by_cases hasks : ∃ sender request, c.AsksToResume m sender request
  · obtain ⟨sender, request, hasks⟩ := hasks
    obtain ⟨hanswer, hserved⟩ :=
      Transfers.onResumeRequest_refuses fun file => h sender request file hasks
    rw [handle_asked hasks, hanswer]
    exact ⟨rfl, rfl, hserved⟩
  · cases hcommand : m.command with
    | privmsg target text =>
      rw [handle_privmsg hcommand]
      exact onChat_other fun sender request hsource _ hself hctcp hparse =>
        hasks ⟨sender, request, hsource, target, text, hcommand, hself, hctcp, hparse⟩
    | notice target text =>
      rw [handle_notice hcommand]
      exact onChat_other nofun
    | _ => simp [hcommand, isChat] at hm

/-! ## The whole turn -/

/-- The negotiation and flood protection leave all alone that an answer depends on. -/
structure Alike (c c' : Connection) : Prop where
  session : c'.session = c.session
  transfers : c'.transfers = c.transfers
  outgoing : c'.outgoing = c.outgoing

theorem negotiate_chat (hm : isChat m.command) (c : Connection) :
    (c.negotiate m).2.sent = [] := by
  unfold negotiate
  split
  · rfl
  next =>
    have hadvance : c.sasl.advance m = (c.sasl, .nothing) := by
      unfold SaslNegotiator.advance
      split
      · rfl
      · split <;> first | rfl | simp_all [isChat]
    rw [hadvance]
    rfl

theorem Alike.answers (h : Alike c d) (ha : Answers d d' queued lines served) :
    Answers c d' queued lines served := ⟨ha.queued, h.outgoing ▸ ha.outgoing, ha.served⟩

/-- Handling what others say hands nothing to the connection and queues nothing, but for the answer
to the person that a file is served to. -/
theorem chat_goes_unanswered (c : Connection) (now : Instant) (m : Message)
    (hm : isChat m.command = true) :
    (c.onMessage now m).2.sent = [] ∧
    (∀ sender request file, c.AsksToResume m sender request →
      c.transfers.Owes sender request file → (c.onMessage now m).2.dropped = false →
      Answers c (c.onMessage now m).1 (c.onMessage now m).2.queued [acceptLine sender request file]
        (Function.update c.transfers.served request.port
          (some { file with offset := request.position }))) ∧
    ((∀ sender request file, c.AsksToResume m sender request →
      c.transfers.Owes sender request file → (c.onMessage now m).2.dropped = true) →
      Answers c (c.onMessage now m).1 (c.onMessage now m).2.queued [] c.transfers.served) := by
  have hsent := negotiate_chat hm c
  have h := c.step_turned (.message now m)
  rw [step] at h
  generalize c.onMessage now m = r at h
  cases h with
  | idle _ _ hi => cases hi
  | handled d _ hd =>
    have halike : Alike c d := by
      rw [hd, negotiate_eq]
      exact ⟨rfl, rfl, rfl⟩
    have hasks {sender request} :
        d.AsksToResume m sender request ↔ c.AsksToResume m sender request := by
      constructor <;> exact fun h => ⟨h.1, by simpa [halike.session] using h.2⟩
    refine ⟨hsent, fun sender request file h howes _ => ?_, fun h => ?_⟩
    · have hanswers := handle_owes (hasks.2 h) (halike.transfers ▸ howes)
      rw [halike.transfers] at hanswers
      exact ⟨hanswers.queued, (halike.answers hanswers).outgoing, hanswers.served⟩
    · have hanswers := handle_other (c := d) hm fun sender request file hd' howes => by
        have hdropped := h sender request file (hasks.1 hd') (halike.transfers ▸ howes)
        rw [handle_asked hd'] at hdropped
        cases hdropped
      rw [halike.transfers] at hanswers
      exact ⟨hanswers.queued, (halike.answers hanswers).outgoing, hanswers.served⟩
  | dropped =>
    refine ⟨hsent, fun _ _ _ _ _ h => Bool.noConfusion h, fun _ => ?_⟩
    rw [negotiate_eq]
    exact ⟨rfl, (List.append_nil _).symm, rfl⟩

def servingAlice : Connection :=
  let file : Serving :=
    { target := "alice", filename := "cat.jpg", size := 100, offset := 0, live := true }
  (start { nickname := "me" } { serving := AList.insert 5001 file ∅ } none (.init 0) 0).1

/-- Whoever the file was offered to may have the rest of it, in whatever case their name is. -/
theorem chat_goes_unanswered_resume :
    let m : Message := { source := some (.nickname "Alice" "u" "h")
                         command := .privmsg "Me" "\x01DCC RESUME cat.jpg 5001 42\x01" }
    isChat m.command = true ∧
    (servingAlice.onMessage 0 m).2.queued =
      [.ofCommand (.privmsg "Alice" "\x01DCC ACCEPT cat.jpg 5001 42\x01")] := by
  intro m
  have hasks : servingAlice.AsksToResume m "Alice" ⟨"cat.jpg", 5001, 42, none⟩ :=
    ⟨rfl, "Me", _, rfl, by decide +kernel, by decide +kernel, by decide +kernel⟩
  have howes : servingAlice.transfers.Owes "Alice" ⟨"cat.jpg", 5001, 42, none⟩
      { target := "alice", filename := "cat.jpg", size := 100, offset := 0, live := true } :=
    ⟨by decide, by decide, by decide +kernel, by decide, by decide, by decide⟩
  refine ⟨rfl, (((chat_goes_unanswered servingAlice 0 m rfl).2.1 _ _ _ hasks howes
    (by decide +kernel)).queued).trans ?_⟩
  decide +kernel

end Connection
end Ddirc.Conn
