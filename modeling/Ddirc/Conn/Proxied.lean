import Ddirc.Conn.Echo
import Ddirc.Conn.Queue
import Ddirc.Conn.Files

/-! # Files behind a proxy

With a proxy configured nothing is listened on and every connection that a transfer opens goes to
the proxy: a file is never offered, an offer that would have us listen is refused, and a task dials
through the proxy it was started with. Only a line that the user types can still offer a file. -/

namespace Ddirc.Conn
open List Option
open Irc Client Dcc
variable {keyword : String}

/-! ## Lines that offer a file -/

theorem stripKeyword_dcc (hc : Str.isWhitespace c = false) (rest : List Char) :
    stripKeyword (String.ofList ('D' :: 'C' :: 'C' :: ' ' :: c :: rest)) "DCC" =
      some (String.ofList (c :: rest)) := by
  have hd : Str.isWhitespace 'D' = false := by decide
  have hblank : Str.isWhitespace ' ' := by decide
  have hsplit : splitAtBytes (Str.len "DCC") ('D' :: 'C' :: 'C' :: ' ' :: c :: rest) =
      some (['D', 'C', 'C'], ' ' :: c :: rest) := rfl
  have hsame : Str.eqIgnoreAsciiCase (String.ofList ['D', 'C', 'C']) "DCC" := by decide
  simp only [stripKeyword, Str.trimStart, Str.trimStartMatches, String.toList_ofList,
    dropWhile_cons, hd, hblank, hc, Bool.false_eq_true, if_false, if_true, hsplit,
    bind_eq_bind, bind_some, hsame, Bool.not_true, Str.startsWith, List.head?_cons,
    beq_self_eq_true]

/-- Another word stands in the place of the keyword. -/
theorem stripKeyword_none {c : Char} {rest head tail : List Char} (hc : Str.isWhitespace c = false)
    (hsplit : splitAtBytes (Str.len keyword) (c :: rest) = some (head, tail))
    (hother : Str.eqIgnoreAsciiCase (String.ofList head) keyword = false) :
    stripKeyword (String.ofList (c :: rest)) keyword = none := by
  simp only [stripKeyword, Str.trimStart, Str.trimStartMatches, String.toList_ofList,
    dropWhile_cons, hc, Bool.false_eq_true, if_false, if_true, hsplit, bind_eq_bind,
    bind_some, hother, Bool.not_false]

/-- A line about a file that is carried on does not offer one. -/
theorem not_dccSend_resumeLine (h : keyword = "RESUME" ∨ keyword = "ACCEPT")
    (target filename : String) (port position : Nat) :
    isDccSend (.ofCommand (.privmsg target (resumeLine keyword filename port position))) =
      false := by
  have hdcc : "\x01DCC ".toList = ['\x01', 'D', 'C', 'C', ' '] := by decide
  have hresume : "RESUME".toList = ['R', 'E', 'S', 'U', 'M', 'E'] := by decide
  have haccept : "ACCEPT".toList = ['A', 'C', 'C', 'E', 'P', 'T'] := by decide
  have hsplit (a b c d : Char) (rest : List Char) (h : a.utf8Size = 1 ∧ b.utf8Size = 1 ∧
      c.utf8Size = 1 ∧ d.utf8Size = 1) :
      splitAtBytes (Str.len "SEND") (a :: b :: c :: d :: rest) = some ([a, b, c, d], rest) := by
    have hlen : Str.len "SEND" = 4 := by decide
    simp [hlen, splitAtBytes, h]
  unfold isDccSend
  rcases h with rfl | rfl
  · simp only [Message.ofCommand, resumeLine, String.toList_append, hdcc, hresume, cons_append,
      nil_append]
    rw [stripKeyword_dcc (by decide), bind_some,
      stripKeyword_none (by decide) (hsplit _ _ _ _ _ (by decide)) (by decide)]
    rfl
  · simp only [Message.ofCommand, resumeLine, String.toList_append, hdcc, haccept, cons_append,
      nil_append]
    rw [stripKeyword_dcc (by decide), bind_some,
      stripKeyword_none (by decide) (hsplit _ _ _ _ _ (by decide)) (by decide)]
    rfl

theorem not_dccSend_identify (password : String) :
    isDccSend (Connection.identify password) = false := by
  have hword : "IDENTIFY ".toList = ['I', 'D', 'E', 'N', 'T', 'I', 'F', 'Y', ' '] := by decide
  simp only [isDccSend, Connection.identify, Message.ofCommand, String.toList_append, hword]
  rfl

namespace Connection
variable {c : Connection} {m : Message}
variable {isNotice : Bool}

theorem not_dccSend_handle (h : m ∈ (c.handle m').2.queued) : isDccSend m = false := by
  rcases handle_handled c m' with ⟨-, hr⟩ | ⟨_, _, answer, _, -, hanswer, hr⟩
  · rw [hr] at h
    rcases mem_append.1 h with h | h
    · split at h
      · obtain ⟨password, -, rfl⟩ := map_eq_some_iff.1 (mem_toList.1 h)
        exact not_dccSend_identify password
      · cases h
    · obtain ⟨channel, -, rfl⟩ := mem_map.1 h
      rfl
  · rw [hr] at h
    obtain ⟨_, _, _, _, rfl⟩ := hanswer m h
    exact not_dccSend_resumeLine (.inr rfl) ..

theorem not_dccSend_step (h : m ∈ (c.step i).2.queued) : isDccSend m = false := by
  have ht := c.step_turned i
  generalize c.step i = r at h ht
  cases ht with
  | idle | abandoned | flushed => cases h
  | listed =>
    rw [mem_singleton.1 h]
    rfl
  | dropped =>
    rw [negotiate_eq] at h
    cases h
  | handled => exact not_dccSend_handle h

/-- Of the commands only what the user types can be such a line. -/
theorem typed_of_dccSend (h : m ∈ c.queued cmd) (hm : isDccSend m) :
    ∃ target text, (target, text) ∈ cmd.lines ∧ m.command = .privmsg target text := by
  cases cmd with
  | sendMessage target text =>
    obtain ⟨line, hline, rfl⟩ := mem_map.1 h
    exact ⟨target, line, mem_map.2 ⟨line, hline, rfl⟩, rfl⟩
  | sendAction target text =>
    obtain ⟨line, hline, rfl⟩ := mem_map.1 h
    exact ⟨target, _, mem_map.2 ⟨line, hline, rfl⟩, rfl⟩
  | sendReply target text reply =>
    simp only [queued] at h
    unfold ClientCommand.lines
    dsimp only
    generalize sanitizeOutgoing (reply.quote text) = lines at h ⊢
    cases lines with
    | nil => cases h
    | cons first rest =>
      rcases mem_cons.1 h with rfl | h
      · exact ⟨target, first, mem_cons_self, rfl⟩
      · obtain ⟨line, hline, rfl⟩ := mem_map.1 h
        exact ⟨target, line, mem_cons_of_mem _ (mem_map.2 ⟨line, hline, rfl⟩), rfl⟩
  | kick | listChannels | whois =>
    simp only [queued] at h
    split at h
    · rw [mem_singleton.1 h] at hm
      cases hm
    · cases h
  | join | part | setNick | setTopic =>
    rw [mem_singleton.1 h] at hm
    cases hm
  | _ => cases h

end Connection

/-- Whatever the actor queues that offers a file was typed. -/
theorem Actor.typed_of_dccSend {u : Platform} {a : Actor} {i : Actor.Input} {m : Message}
    (h : m ∈ (a.step u i).2.queued) (hm : isDccSend m) : ∃ cmd rest target text,
      i = .take ∧ a.mailbox = cmd :: rest ∧ (target, text) ∈ cmd.lines ∧
        m.command = .privmsg target text := by
  have hturn {c j events a' out} (hout : (a', out) = a.turn c j events) : m ∉ out.queued := by
    obtain ⟨-, rfl⟩ := Prod.ext_iff.1 hout
    intro h
    have := Connection.not_dccSend_step (c := c) (i := j) h
    rw [hm] at this
    cases this
  obtain ⟨⟨a', out⟩, hstep⟩ : ∃ r, a.step u i = r := ⟨_, rfl⟩
  rw [hstep] at h
  cases moved_of_step hstep with
  | idle _ _ _ _ _ _ hqueued =>
    rw [hqueued] at h
    cases h
  | placed | dialed | offline | ignored | lost => cases h
  | command _ hmail _ _ hout =>
    subst hout
    obtain ⟨target, text, hline, hcommand⟩ := Connection.typed_of_dccSend h hm
    exact ⟨_, _, target, text, rfl, hmail, hline, hcommand⟩
  | turn _ _ _ hout | message _ _ hout => exact absurd h (hturn hout)
  | quit _ _ _ _ hqueued =>
    rw [hqueued] at h
    cases h

theorem Transfers.askToResume_line {t : Transfers} {d : Directory} {id : Nat} {sender : String}
    {offer : DccOffer} (h : (t.askToResume d id sender offer).2 = some (m, wanted)) :
    ∃ port, m = .ofCommand (.privmsg sender (resumeLine "RESUME" offer.filename port wanted)) := by
  unfold askToResume at h
  split at h
  · cases h
  split at h
  · split at h
    · split at h
      · cases h
      · obtain ⟨rfl, rfl⟩ := Prod.mk.inj (some.inj h)
        exact ⟨_, rfl⟩
    · cases h
  · cases h

/-! ## The proxy of every transfer -/

namespace FileActor
variable {u : Platform} {p : ProxyConfig} {f : FileActor}
variable {f' : FileActor}

/-- There is a proxy, and every download was started with it. -/
structure Proxied (p : ProxyConfig) (f : FileActor) : Prop where
  proxy : f.proxy = some p
  fetches {id fetch} : f.fetches.lookup id = some fetch → fetch.proxy = some p

theorem Proxied.of_eq (h : f.Proxied p) (proxy : f'.proxy = f.proxy)
    (fetches : f'.fetches = f.fetches) : f'.Proxied p :=
  ⟨proxy.trans h.proxy, fun hid => h.fetches (fetches ▸ hid)⟩

theorem Proxied.insert {id : Nat} {fetch : Fetch} (h : f.Proxied p)
    (fetches : f'.fetches = f.fetches.insert id fetch) (proxy : f'.proxy = f.proxy)
    (hfetch : fetch.proxy = some p) : f'.Proxied p := by
  refine ⟨proxy.trans h.proxy, fun {id' fetch'} hid => ?_⟩
  rw [fetches, Map.lookup_insert] at hid
  split at hid
  · rw [← some.inj hid]
    exact hfetch
  · exact h.fetches hid

theorem tell_proxy (f : FileActor) (change : Transfers → Transfers) (ms : List Message) :
    (f.tell change ms).proxy = f.proxy ∧ (f.tell change ms).fetches = f.fetches := by
  unfold tell
  split <;> exact ⟨rfl, rfl⟩

theorem Proxied.noteOffer (h : f.Proxied p) (offer : Option PendingOffer) :
    (f.noteOffer offer).Proxied p := by
  cases offer <;> exact h.of_eq rfl rfl

theorem proxy_answered (fetch : Fetch) (position : Option Nat) :
    (fetch.answered position).proxy = fetch.proxy := by
  unfold Fetch.answered
  split <;> rfl

theorem Proxied.answer (h : f.Proxied p) (id : Nat) (position : Option Nat) :
    (f.answer id position).Proxied p := by
  unfold FileActor.answer
  split
  next fetch hfetch =>
    exact h.insert rfl rfl ((proxy_answered fetch position).trans (h.fetches hfetch))
  · exact h

theorem Proxied.sendFile (h : f.Proxied p) (outside : Outside) (target : String) :
    f.sendFile outside target = ({ f with nextId := f.nextId + 1 }, {}) := by
  unfold FileActor.sendFile
  rw [if_pos (by rw [h.proxy]; rfl)]

theorem Proxied.acceptFile (h : f.Proxied p) (outside : Outside) (id : Nat) :
    (f.acceptFile outside id).1.Proxied p := by
  unfold FileActor.acceptFile
  split
  next pending c _ _ =>
    obtain ⟨hproxy, hfetches⟩ := tell_proxy { f with offers := f.offers.erase id, fetches := _ }
      (fun _ => (c.transfers.askToResume outside.directory id pending.sender pending.offer).1) _
    refine h.insert hfetches hproxy ?_
    split <;> exact h.proxy
  · exact h

theorem not_dccSend_acceptFile {outside : Outside} {id : Nat}
    (h : m ∈ (f.acceptFile outside id).2.queued) : isDccSend m = false := by
  unfold acceptFile at h
  split at h
  next pending c _ _ =>
    obtain ⟨⟨m, wanted⟩, hasked, rfl⟩ := map_eq_some_iff.1 (mem_toList.1 h)
    obtain ⟨port, rfl⟩ := Transfers.askToResume_line hasked
    exact not_dccSend_resumeLine (.inl rfl) ..
  · cases h

theorem Proxied.cancelTransfer (h : f.Proxied p) (id : Nat) : (f.cancelTransfer id).Proxied p := by
  unfold FileActor.cancelTransfer
  split
  next fetch hfetch =>
    have hproxy := h.fetches hfetch
    refine h.insert rfl rfl ?_
    unfold Fetch.cancelled
    split <;> exact hproxy
  · exact h.of_eq rfl rfl

theorem Proxied.fileCommand (h : f.Proxied p) (outside : Outside) (cmd : ClientCommand) :
    (f.fileCommand outside cmd).1.Proxied p ∧ (f.fileCommand outside cmd).2.listens = [] ∧
      (f.fileCommand outside cmd).2.connects = [] ∧
      ∀ m ∈ (f.fileCommand outside cmd).2.queued, isDccSend m = false := by
  have hnothing {f' : FileActor} (h : f'.Proxied p) : f'.Proxied p ∧
      (({} : FileOutput).listens = [] ∧ ({} : FileOutput).connects = [] ∧
        ∀ m ∈ ({} : FileOutput).queued, isDccSend m = false) :=
    ⟨h, rfl, rfl, fun _ hm => absurd hm not_mem_nil⟩
  cases cmd with
  | sendFile target path =>
    have hrefused : f.fileCommand outside (.sendFile target path) = _ := h.sendFile outside target
    rw [hrefused]
    exact hnothing (h.of_eq rfl rfl)
  | acceptFile id directory =>
    refine ⟨h.acceptFile outside id, ?_, ?_, fun m hm => not_dccSend_acceptFile hm⟩
    all_goals
      simp only [FileActor.fileCommand, FileActor.acceptFile]
      split <;> rfl
  | cancelTransfer id => exact hnothing (h.cancelTransfer id)
  | _ => exact hnothing h

/-- What `f` does keeps to the proxy, and what it queues that offers a file was typed. -/
structure Keeps (p : ProxyConfig) (f : FileActor) (i : FileInput) (out : FileOutput) : Prop where
  listens : out.listens = []
  connects : ∀ e ∈ out.connects, e = .host p.host p.port
  queued : ∀ m ∈ out.queued, isDccSend m = true → ∃ outside cmd rest target text,
    i = .actor .take outside ∧ f.actor.mailbox = cmd :: rest ∧ (target, text) ∈ cmd.lines ∧
      m.command = .privmsg target text

theorem Proxied.actorStep (h : f.Proxied p) (i : Actor.Input) (outside : Outside) :
    (f.actorStep u i outside).1.Proxied p ∧
      f.Keeps p (.actor i outside) (f.actorStep u i outside).2 := by
  have htyped {m} (hm : m ∈ (f.actor.step u i).2.queued) (hsend : isDccSend m) :
      ∃ outside' cmd rest target text, FileInput.actor i outside = .actor .take outside' ∧
        f.actor.mailbox = cmd :: rest ∧ (target, text) ∈ cmd.lines ∧
          m.command = .privmsg target text := by
    obtain ⟨cmd, rest, target, text, rfl, hrest⟩ := Actor.typed_of_dccSend hm hsend
    exact ⟨outside, cmd, rest, target, text, rfl, hrest⟩
  have hactor : FileActor.Proxied p { f with actor := (f.actor.step u i).1 } := h.of_eq rfl rfl
  have hdone : f.Keeps p (.actor i outside)
      { sent := (f.actor.step u i).2.sent, queued := (f.actor.step u i).2.queued } :=
    ⟨rfl, fun _ he => absurd he not_mem_nil, fun m hm hsend => htyped hm hsend⟩
  unfold FileActor.actorStep
  dsimp only
  split
  · split
    · exact ⟨hactor, hdone⟩
    · obtain ⟨hproxied, hlistens, hconnects, hqueued⟩ := hactor.fileCommand outside _
      refine ⟨hproxied, hlistens, fun e he => ?_, fun m hm hsend => ?_⟩
      · rw [hconnects] at he
        cases he
      · rcases mem_append.1 hm with hm | hm
        · exact htyped hm hsend
        · rw [hqueued m hm] at hsend
          cases hsend
  · split
    · split
      · exact ⟨(hactor.noteOffer _).answer _ _, hdone⟩
      · exact ⟨hactor.noteOffer _, hdone⟩
    · exact ⟨hactor, hdone⟩
  · exact ⟨hactor, hdone⟩

theorem Proxied.step (h : f.Proxied p) (i : FileInput) :
    (f.step u i).1.Proxied p ∧ f.Keeps p i (f.step u i).2 := by
  have hnothing : f.Keeps p i {} :=
    ⟨rfl, fun _ he => absurd he not_mem_nil, fun _ hm => absurd hm not_mem_nil⟩
  cases i with
  | actor i outside => exact h.actorStep i outside
  | timeout id => exact ⟨h.answer id none, hnothing⟩
  | act id files choice =>
    unfold FileActor.step
    dsimp only
    split
    next fetch hfetch =>
      have hproxy := h.fetches hfetch
      unfold Fetch.act
      split
      · refine ⟨h.insert rfl rfl hproxy, rfl, fun e he => ?_, fun _ hm => absurd hm not_mem_nil⟩
        split at he
        · rw [mem_singleton.1 he, hproxy]
          rfl
        · cases he
      · exact ⟨h.insert rfl rfl hproxy, hnothing⟩
    · exact ⟨h, hnothing⟩

/-- In every run of the actor that has a proxy, whatever arrives and whatever the user commands, no
socket is listened on, every connection that a transfer opens is to the proxy, and no line that
offers a file is queued but one that the user has typed. -/
theorem transfers_keep_to_proxy (u : Platform) (actor : Actor) (p : ProxyConfig)
    (inputs : List FileInput) (i : FileInput) :
    let f := Run.after (FileActor.step u) { actor, proxy := some p } inputs
    f.Keeps p i (f.step u i).2 := by
  have hstart : FileActor.Proxied p { actor, proxy := some p } :=
    ⟨rfl, fun h => by simp at h⟩
  have hafter := Run.after_induction (P := Proxied p) hstart (fun _ i h => (h.step (u := u) i).1)
    inputs
  exact (hafter.step i).2

/-- With a proxy configured, a line typed as a message is queued as it is typed. -/
theorem typed_offer_queued :
    let line := "\x01DCC SEND cat.jpg 2130706433 5000 9\x01"
    let f := Run.after (FileActor.step asciiPlatform)
      { actor := { config := { nickname := "alice" }, recvLimiter := .init 0 },
        proxy := some ⟨"localhost", 9050, none, none⟩ }
      [.actor (.dialed 0) {}, .actor (.send (.sendMessage "bob" line)) {}]
    (f.step asciiPlatform (.actor .take {})).2.queued = [.ofCommand (.privmsg "bob" line)] ∧
      isDccSend (.ofCommand (.privmsg "bob" line)) = true := by
  decide +kernel

end FileActor

end Ddirc.Conn
