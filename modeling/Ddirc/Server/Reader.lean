import Mathlib.Data.List.TakeWhile

/-! # Reading a connection of the local server

The reader's loop of `session.rs`. The line codec and the framing below it are parameters, of which
only what the loop rests on is assumed: after a decoding error the framing yields the end of the
stream once, which the loop takes for the client's leaving. Deadlines, the writer and the end of the
server itself are left out. -/

namespace Ddirc.Server
open List

def maxPending : Nat := 8 * 1024

def newline : UInt8 := 10

inductive Polled (M : Type u) where
  | frame (message : M)
  | invalid (line : List UInt8)
  | failed (error : String)
  | finished
  /-- No line is complete, and the socket has nothing more to read. -/
  | waiting

/-- `Event`, of one connection. -/
inductive Reported (M : Type u) where
  | line (message : M)
  | disconnected (reason : String)
  deriving DecidableEq

variable {M : Type u} {parse : List UInt8 → Option M}

/-- `IrcCodec`: each line is taken off the buffer, also one that is not IRC. -/
structure IrcCodec (parse : List UInt8 → Option M) where
  decode : List UInt8 → Polled M × List UInt8
  decode_line : ∀ {line} rest, newline ∉ line →
    decode (line ++ newline :: rest) = ((parse line).elim (.invalid line) .frame, rest)
  decode_rest : ∀ {rest}, newline ∉ rest → decode rest = (.waiting, rest)

/-- `Bounded::decode`. -/
def IrcCodec.bounded (codec : IrcCodec parse) (buffer : List UInt8) : Polled M × List UInt8 :=
  if maxPending < buffer.length ∧ newline ∉ buffer then (.failed "line too long", buffer)
  else codec.decode buffer

/-- A framed connection that is open: the bytes that are pending, the pieces in which the socket
will yield more, and whether the decoder just failed. -/
structure Framed where
  buffer : List UInt8
  socket : List (List UInt8)
  errored : Bool := false

/-- The stream that `tokio_util` makes of a connection and a decoder. -/
structure Framing (decode : List UInt8 → Polled M × List UInt8) where
  next : Framed → Polled M × Framed
  next_errored : ∀ {buffer socket}, next ⟨buffer, socket, true⟩ =
    (.finished, ⟨buffer, socket, false⟩)
  next_frame : ∀ {buffer socket m rest}, decode buffer = (.frame m, rest) →
    next { buffer, socket } = (.frame m, ⟨rest, socket, false⟩)
  next_invalid : ∀ {buffer socket line rest}, decode buffer = (.invalid line, rest) →
    next { buffer, socket } = (.invalid line, ⟨rest, socket, true⟩)
  next_read : ∀ {buffer piece socket}, decode buffer = (.waiting, buffer) →
    next { buffer, socket := piece :: socket } = next { buffer := buffer ++ piece, socket }
  next_waiting : ∀ {buffer}, decode buffer = (.waiting, buffer) →
    next { buffer, socket := [] } = (.waiting, { buffer, socket := [] })

/-- The loop of `serve`, for so many rounds. -/
def serve (framing : Framing (M := M) decode) : Nat → Framed → List (Reported M)
  | 0, _ => []
  | n + 1, f =>
    match framing.next f with
    | (.frame m, f') => .line m :: serve framing n f'
    | (.invalid _, f') => serve framing n f'
    | (.failed error, _) => [.disconnected error]
    | (.finished, _) => [.disconnected "Connection closed"]
    | (.waiting, _) => []

variable {codec : IrcCodec parse} (framing : Framing codec.bounded)

theorem bounded_unfinished (h : newline ∉ line) (hlength : line.length ≤ maxPending)
    (hbuffer : buffer <+: line) : codec.bounded buffer = (.waiting, buffer) := by
  rw [IrcCodec.bounded, if_neg fun h => Nat.not_lt.2 (hbuffer.length_le.trans hlength) h.1]
  exact codec.decode_rest fun hmem => h (hbuffer.mem hmem)

theorem next_pending (h : newline ∉ line) :
    framing.next ⟨line ++ newline :: rest, socket, false⟩ = (parse line).elim
      (.invalid line, ⟨rest, socket, true⟩) fun m => (.frame m, ⟨rest, socket, false⟩) := by
  have hdecode : codec.bounded (line ++ newline :: rest) =
      ((parse line).elim (.invalid line) .frame, rest) := by
    rw [IrcCodec.bounded, if_neg fun h => h.2 (by simp), codec.decode_line rest h]
  cases hparse : parse line with
  | none => exact framing.next_invalid (by rw [hdecode, hparse]; rfl)
  | some m => exact framing.next_frame (by rw [hdecode, hparse]; rfl)

/-- However the bytes come, the next line is yielded whole, and what follows it is still there. -/
theorem next_line (h : newline ∉ line) (hlength : line.length ≤ maxPending)
    (hbytes : buffer ++ socket.flatten = line ++ newline :: rest) :
    ∃ buffer' socket', buffer' ++ socket'.flatten = rest ∧
      framing.next { buffer, socket } = (parse line).elim
        (.invalid line, ⟨buffer', socket', true⟩) fun m =>
          (.frame m, ⟨buffer', socket', false⟩) := by
  induction socket generalizing buffer with
  | nil =>
    obtain rfl : buffer = line ++ newline :: rest := by simpa using hbytes
    exact ⟨rest, [], by simp, next_pending framing h⟩
  | cons piece socket ih =>
    by_cases hbuffer : buffer <+: line
    · rw [framing.next_read (bounded_unfinished h hlength hbuffer)]
      exact ih (by simpa using hbytes)
    · obtain ⟨_, rfl, -⟩ | ⟨_ | ⟨c, after⟩, rfl, hafter⟩ := append_eq_append_iff.1 hbytes
      · exact absurd (prefix_append ..) hbuffer
      · exact absurd (by simp) hbuffer
      · obtain ⟨rfl, rfl⟩ := cons.inj hafter
        exact ⟨after, piece :: socket, rfl, next_pending framing h⟩

theorem next_rest (h : newline ∉ rest) (hlength : rest.length ≤ maxPending)
    (hbytes : buffer ++ socket.flatten = rest) :
    framing.next { buffer, socket } = (.waiting, { buffer := rest, socket := [] }) := by
  induction socket generalizing buffer with
  | nil =>
    obtain rfl : buffer = rest := by simpa using hbytes
    exact framing.next_waiting (bounded_unfinished h hlength prefix_rfl)
  | cons piece socket ih =>
    rw [framing.next_read (bounded_unfinished h hlength ⟨_, hbytes⟩)]
    exact ih (by simpa using hbytes)

/-- Of the lines that came, and the beginning of one more, exactly those that are IRC are reported,
and the connection stays, exactly if they all are IRC. -/
theorem lines_reported_iff {lines : List (List UInt8)}
    (hlines : ∀ line ∈ lines, newline ∉ line ∧ line.length ≤ maxPending)
    (hrest : newline ∉ rest ∧ rest.length ≤ maxPending)
    (hbytes : buffer ++ socket.flatten = lines.flatMap (· ++ [newline]) ++ rest)
    (hn : lines.length < n) :
    serve framing n { buffer, socket } = (lines.filterMap parse).map .line ↔
      ∀ line ∈ lines, (parse line).isSome := by
  obtain _ | n := n
  · cases hn
  induction lines generalizing buffer socket n with
  | nil => simp [serve, next_rest framing hrest.1 hrest.2 hbytes]
  | cons line lines ih =>
    obtain ⟨hline, hlines⟩ := forall_mem_cons.1 hlines
    obtain _ | n := n
    · simp at hn
    rw [flatMap_cons, append_assoc, append_assoc, singleton_append] at hbytes
    obtain ⟨buffer', socket', hafter, hnext⟩ := next_line framing hline.1 hline.2 hbytes
    have ih := ih hlines hafter n (by simpa using hn)
    rw [serve, hnext]
    cases hparse : parse line with
    | none =>
      -- The end of the stream that the framing yields next is taken for the socket's.
      have hlost : serve framing (n + 1) ⟨buffer', socket', true⟩ =
          [.disconnected "Connection closed"] := by
        rw [serve, framing.next_errored]
      refine ⟨fun h => ?_, fun h => by simp [hparse] at h⟩
      change serve framing (n + 1) _ = _ at h
      cases hs : (line :: lines).filterMap parse <;> simp [hs, hlost] at h
    | some m => simp [hparse, ih]

/-! ## A codec and a framing -/

/-- Every line but the empty one is a message. -/
def nonEmpty (line : List UInt8) : Option (List UInt8) := if line.isEmpty then none else some line

def lineCodec (parse : List UInt8 → Option M) : IrcCodec parse where
  decode buffer :=
    match buffer.dropWhile (· ≠ newline) with
    | [] => (.waiting, buffer)
    | _ :: rest =>
      let line := buffer.takeWhile (· ≠ newline)
      ((parse line).elim (.invalid line) .frame, rest)
  decode_line {line} rest h := by
    have hline (x) (hx : x ∈ line) : decide (x ≠ newline) :=
      decide_eq_true fun hx' => h (hx' ▸ hx)
    rw [dropWhile_append_of_pos hline, takeWhile_append_of_pos hline]
    simp
  decode_rest {rest} h := by
    have hdrop : rest.dropWhile (· ≠ newline) = [] := by
      rw [dropWhile_eq_nil_iff]
      exact fun x hx => decide_eq_true fun hx' => h (hx' ▸ hx)
    rw [hdrop]

def poll (decode : List UInt8 → Polled M × List UInt8) (socket : List (List UInt8))
    (buffer : List UInt8) : Polled M × Framed :=
  match decode buffer with
  | (.frame m, rest) => (.frame m, ⟨rest, socket, false⟩)
  | (.waiting, _) =>
    match socket with
    | [] => (.waiting, ⟨buffer, [], false⟩)
    | piece :: socket => poll decode socket (buffer ++ piece)
  | (polled, rest) => (polled, ⟨rest, socket, true⟩)

def polling (decode : List UInt8 → Polled M × List UInt8) : Framing decode where
  next f := if f.errored then (.finished, { f with errored := false })
    else poll decode f.socket f.buffer
  next_errored := rfl
  next_frame h := by
    change poll .. = _
    unfold poll
    rw [h]
  next_invalid h := by
    change poll .. = _
    unfold poll
    rw [h]
  next_read h := by simp [poll, h]
  next_waiting h := by simp [poll, h]

theorem lines_reported_iff_two :
    serve (polling (lineCodec nonEmpty).bounded) 3 ⟨[], [[80], [newline, 81, newline, 82]], false⟩ =
      [.line [80], .line [81]] := by
  have hbytes : [] ++ [[80], [newline, 81, newline, 82]].flatten =
      [[80], [81]].flatMap (· ++ [newline]) ++ [82] := by decide
  exact (lines_reported_iff _ (by decide) (by decide) hbytes (by decide)).2 (by decide)

/-- After an empty line the connection is given up, and the line behind it is lost. -/
theorem lost_behind_bad_line :
    serve (polling (lineCodec nonEmpty).bounded) 3 ⟨[], [[newline, 80, newline]], false⟩ =
        [.disconnected "Connection closed"] ∧
      [[], [80]].filterMap nonEmpty = [[80]] := by
  decide

end Ddirc.Server
