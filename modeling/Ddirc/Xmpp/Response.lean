import Mathlib.Order.Nat

/-! # The answer to an upload

`read_status` of `xmpp/upload.rs` reads until a head is complete that is not an interim one. It
gives up on a head longer than `maxResponseHead`; but complete interim heads do not count, so a
server that keeps sending them keeps the client reading. `httparse` is `HttpParser`. -/

namespace Ddirc.Xmpp
open List

def maxResponseHead : Nat := 8 * 1024

inductive HeadStatus where
  | complete (length : Nat) (code : Option Nat)
  | incomplete
  | invalid
  deriving DecidableEq

structure HttpParser where
  parse : List UInt8 → HeadStatus
  /-- A complete head is some of the bytes. -/
  consumes : ∀ seen n code, parse seen = .complete n code → 0 < n ∧ n ≤ seen.length

inductive UploadError where
  | stalled | connection | badResponse
  deriving DecidableEq

/-- One `stream.read` into 1024 bytes; none read is the end. -/
inductive Received where
  | bytes (read : List UInt8) (fits : read.length ≤ 1024)
  | stalled
  | failed

def Received.size : Received → Nat
  | .bytes read _ => read.length
  | _ => 0

inductive Reading where
  | reading (seen : List UInt8)
  | returned (result : Except UploadError Nat)

variable (http : HttpParser)

/-- The inner loop: complete interim heads are dropped. -/
def scanHeads (seen : List UInt8) : Reading :=
  match _ : http.parse seen with
  | .complete _ none => .returned (.error .badResponse)
  | .complete length (some code) =>
    if 100 ≤ code ∧ code < 200 ∧ code ≠ 101 then scanHeads (seen.drop length)
    else .returned (.ok code)
  | .incomplete =>
    if seen.length < maxResponseHead then .reading seen else .returned (.error .badResponse)
  | .invalid => .returned (.error .badResponse)
termination_by seen.length
decreasing_by
  have := http.consumes _ _ _ ‹http.parse seen = _›
  rw [length_drop]
  omega

def receive : Reading → Received → Reading
  | .returned result, _ => .returned result
  | .reading _, .stalled => .returned (.error .stalled)
  | .reading _, .failed => .returned (.error .connection)
  | .reading seen, .bytes read _ =>
    if read.isEmpty then .returned (.error .badResponse) else scanHeads http (seen ++ read)

/-- `read_status` after `n` reads of what the server sends. -/
def readStatus (sent : Nat → Received) : Nat → Reading
  | 0 => .reading []
  | n + 1 => receive http (readStatus sent n) (sent n)

def bytesRead (sent : Nat → Received) : Nat → Nat
  | 0 => 0
  | n + 1 => bytesRead sent n + (sent n).size

variable {http} {sent : Nat → Received}

theorem scanHeads_complete (h : http.parse seen = .complete n (some c)) :
    scanHeads http seen = if 100 ≤ c ∧ c < 200 ∧ c ≠ 101 then scanHeads http (seen.drop n)
      else .returned (.ok c) := by
  rw [scanHeads]
  split <;> simp_all

theorem scanHeads_incomplete (h : http.parse seen = .incomplete)
    (hlength : seen.length < maxResponseHead) : scanHeads http seen = .reading seen := by
  rw [scanHeads]
  split <;> simp_all

theorem length_lt_of_scanHeads (h : scanHeads http seen = .reading seen') :
    seen'.length < maxResponseHead := by
  fun_induction scanHeads http seen with
  | case2 seen length code hparse hinterim ih => exact ih h
  | case4 seen hparse hlength =>
    cases h
    exact hlength
  | _ => cases h

/-- While it reads, each read brought a byte, and what is kept is less than a head. -/
theorem of_reading (h : readStatus http sent n = .reading seen) :
    n ≤ bytesRead sent n ∧ seen.length < maxResponseHead := by
  induction n generalizing seen with
  | zero =>
    cases h
    exact ⟨Nat.le_refl 0, by decide⟩
  | succ n ih =>
    rw [readStatus] at h
    cases hstate : readStatus http sent n with
    | returned result => cases hstate ▸ h
    | reading before =>
      have hn := (ih hstate).1
      rw [hstate] at h
      cases hsent : sent n with
      | stalled | failed => cases hsent ▸ h
      | bytes read fits =>
        rw [hsent, receive] at h
        split at h
        · cases h
        next hread =>
          have hpos := length_pos_iff.2 (mt isEmpty_iff.2 hread)
          refine ⟨?_, length_lt_of_scanHeads h⟩
          rw [bytesRead, hsent, Received.size]
          omega

theorem size_le (r : Received) : r.size ≤ 1024 := by
  cases r with
  | bytes read fits => exact fits
  | stalled | failed => decide

def ascii (text : String) : List UInt8 := text.toList.map (·.toNat.toUInt8)

def continueHead : List UInt8 := ascii "HTTP/1.1 100 Continue\r\n\r\n"
def createdHead : List UInt8 := ascii "HTTP/1.1 201 Created\r\n\r\n"

/-- What the parser finds in any beginning of these two heads, one after the other. -/
def twoHeads : HttpParser where
  parse seen :=
    if continueHead <+: seen then .complete continueHead.length (some 100)
    else if createdHead <+: seen then .complete createdHead.length (some 201)
    else .incomplete
  consumes seen n code h := by
    split at h
    next hprefix =>
      cases h
      exact ⟨by decide, hprefix.length_le⟩
    next =>
    split at h
    next hprefix =>
      cases h
      exact ⟨by decide, hprefix.length_le⟩
    next => cases h

theorem scanHeads_continue : scanHeads twoHeads continueHead = .reading [] := by
  rw [scanHeads_complete (n := continueHead.length) (c := 100) (by decide)]
  exact scanHeads_incomplete (by decide) (by decide)

def continued : Nat → Received
  | 0 => .bytes continueHead (by decide)
  | _ + 1 => .bytes createdHead (by decide)

end Ddirc.Xmpp
