import Ddirc.Client.Isupport
import Ddirc.App.Session

/-! # People who are blocked

What the core reports of a person's direct messages and file offers, taken out of a run of the
session. The core names people as the server spells them, and the server takes several spellings for
the same person; a block is kept under the name in lower case. -/

namespace Ddirc.App
open Api Client

/-- An event that the core produces for the direct messages or the file offers of `nick`, in any
spelling of theirs. -/
def about (mapping : CaseMapping) (nick : String) : IrcEvent → Bool
  | .message m =>
    match m.target with
    | .direct name => !m.isSelf && mapping.normalize name = mapping.normalize nick
    | .channel _ => false
  | .fileOffered _ _ sender _ _ _ => mapping.normalize sender = mapping.normalize nick
  | .messageEdited (.direct name) _ sender _ | .messageRetracted (.direct name) _ sender =>
    mapping.normalize name = mapping.normalize nick &&
      mapping.normalize sender = mapping.normalize nick
  | _ => false

def without (mapping : CaseMapping) (nick : String) (inputs : List Session.Input) :
    List Session.Input :=
  inputs.filter fun
    | .event _ e => !about mapping nick e
    | _ => true

namespace Session
variable (env : Env) (mapping : CaseMapping) (nick : String)

/-- The block covers an event: a message comes under a name that is the same in lower case, an offer
while file transfers are off, and a correction for a conversation that is not there. -/
def Covered (s : Session) : IrcEvent → Prop
  | .message m => env.lower m.target.name = env.lower nick
  | .fileOffered .. => s.settings.fileTransfers = false
  | .messageEdited target _ _ _ | .messageRetracted target _ _ =>
    s.conversations.lookup (key env target.name) = none
  | _ => True

instance (s : Session) (e : IrcEvent) : Decidable (s.Covered env nick e) := by
  unfold Covered
  split <;> infer_instance

/-- They are blocked, and the block covers what there is of theirs. -/
def Shut (s : Session) : Input → Prop
  | .event _ e => key env nick ∈ s.settings.blocked ∧ (about mapping nick e = true →
      s.Covered env nick e)
  | _ => key env nick ∈ s.settings.blocked

instance (s : Session) (i : Input) : Decidable (s.Shut env mapping nick i) := by
  unfold Shut
  split <;> infer_instance

variable {env mapping nick} {s : Session}

/-- What the block covers does nothing at all. -/
theorem onEvent_of_covered (hblocked : key env nick ∈ s.settings.blocked)
    (habout : about mapping nick e) (h : s.Covered env nick e) :
    s.onEvent env now e = (s, []) := by
  cases e with
  | message m =>
    obtain ⟨target, sender, text, isSelf⟩ := m
    cases target with
    | channel name => cases habout
    | direct name =>
      simp only [about, Bool.and_eq_true] at habout
      have hname : env.lower name = env.lower nick := h
      have hkey : key env name ∈ s.settings.blocked := by rw [key, hname]; exact hblocked
      simp only [onEvent, onMessage, habout.1, hkey, and_self, if_true]
  | fileOffered id channel sender filename size port =>
    have hoff : s.settings.fileTransfers = false := h
    simp only [onEvent, onFileOffered, hoff, Bool.not_false, if_true]
  | messageEdited target msgid sender m =>
    have hnone : s.conversations.lookup (key env target.name) = none := h
    simp only [onEvent, onMessageEdited, hnone]
  | messageRetracted target msgid sender =>
    have hnone : s.conversations.lookup (key env target.name) = none := h
    simp only [onEvent, onMessageRetracted, hnone]
  | _ => cases habout

/-- Somebody who is blocked, by a block that covers what there is of theirs, leaves no trace: the
session and everything it hands out are as if they had not been there. -/
theorem blocked_leaves_no_trace {inputs : List Input}
    (h : Run.Along (step env) (Shut env mapping nick) s inputs) :
    Run.after (step env) s (without mapping nick inputs) = Run.after (step env) s inputs ∧
      (Run.trace (step env) s (without mapping nick inputs)).flatMap Prod.snd =
        (Run.trace (step env) s inputs).flatMap Prod.snd := by
  refine h.filter fun s i hi hkeep => ?_
  cases i with
  | event now e =>
    have habout : about mapping nick e = true := by simpa using hkeep
    exact onEvent_of_covered hi.1 habout (hi.2 habout)
  | _ => cases hkeep

def asciiEnv : Env where
  lower := Str.toAsciiLowercase
  markdownToMirc text := text

def wary (fileTransfers : Bool) : Session where
  nick := "me"
  settings := { blocked := {"mallory[x]"}, fileTransfers }

def pestered (nick : String) : List Input :=
  [.event 0 (.joined "#tea" "me" true),
   .event 1 (.message { target := .channel "#tea", sender := nick, text := "hi" }),
   .event 2 (.message { target := .direct nick, sender := nick, text := "hi" }),
   .event 3 (.fileOffered 1 nick nick "cat.jpg" (some 3) (some 4000))]

theorem blocked_leaves_no_trace_pestered :
    Run.Along (step asciiEnv) (Shut asciiEnv .rfc1459 "mallory[x]") (wary false)
      (pestered "MALLORY[X]") ∧
    (without .rfc1459 "mallory[x]" (pestered "MALLORY[X]")).length = 2 ∧
    Run.after (step asciiEnv) (wary false) (without .rfc1459 "mallory[x]" (pestered "MALLORY[X]")) =
      Run.after (step asciiEnv) (wary false) (pestered "MALLORY[X]") := by
  have halong : Run.Along (step asciiEnv) (Shut asciiEnv .rfc1459 "mallory[x]") (wary false)
      (pestered "MALLORY[X]") := by
    decide +kernel
  exact ⟨halong, by decide +kernel, (blocked_leaves_no_trace halong).1⟩

/-- With file transfers on, an offer opens a conversation and a tab; and a spelling that only the
server takes for the same gets past the block. -/
theorem blocked_leaves_a_trace :
    (let s := Run.after (step asciiEnv) (wary true)
      [.event 0 (.fileOffered 1 "mallory[x]" "mallory[x]" "cat.jpg" (some 3) (some 4000))]
    "mallory[x]" ∈ s.settings.blocked ∧ s.tabs = ["mallory[x]"] ∧
      (Run.after (step asciiEnv) (wary true) (without .rfc1459 "mallory[x]"
        [.event 0
          (.fileOffered 1 "mallory[x]" "mallory[x]" "cat.jpg" (some 3) (some 4000))])).tabs =
        []) ∧
    (let message : Input := .event 0 (.message
      { target := .direct "Mallory\x7bx\x7d", sender := "Mallory\x7bx\x7d", text := "hi" })
    let s := Run.after (step asciiEnv) (wary false) [message]
    "mallory[x]" ∈ s.settings.blocked ∧ s.order = ["mallory\x7bx\x7d"] ∧
      (Run.after (step asciiEnv) (wary false) (without .rfc1459 "mallory[x]" [message])).order =
        []) := by
  decide +kernel

end Session

end Ddirc.App
