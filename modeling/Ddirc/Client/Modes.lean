import Ddirc.Client.Session

/-! # Mode lines

A `MODE` line is a word of letters under signs, and arguments that some of the letters take. Which
letters do is the server's to say, in `PREFIX` and `CHANMODES`; the crate that splits the line goes
by a table of its own. The actor keeps the letters and the arguments of what the crate gives, each
in order, and aligns them again: it comes to `read`, the line as the server wrote it
(`onModes_eq_read`). -/

namespace Ddirc.Client
open List
open Irc

def signedLetters : Bool → List Char → List (Bool × Char)
  | _, [] => []
  | adding, c :: cs =>
    if c = '+' then signedLetters true cs
    else if c = '-' then signedLetters false cs
    else (adding, c) :: signedLetters adding cs

/-- What a letter does with arguments. -/
inductive ModeType where
  /-- It gives a member a mark, or takes it. -/
  | privilege (mark : Char)
  | list
  | always
  | whenSet
  | never
  deriving Repr, DecidableEq

namespace ISupport

/-- The type of a letter; one that the server did not list takes no argument. -/
def typeOf (i : ISupport) (letter : Char) : ModeType :=
  match i.prefixes.prefixForMode letter with
  | some mark => .privilege mark
  | none =>
    if Str.contains i.chanmodes.list letter then .list
    else if Str.contains i.chanmodes.alwaysParam letter then .always
    else if Str.contains i.chanmodes.paramWhenSet letter then .whenSet
    else .never

end ISupport

def ModeType.takesArgument (adding : Bool) : ModeType → Bool
  | .privilege _ | .list | .always => true
  | .whenSet => adding
  | .never => false

namespace ISupport

variable (i : ISupport)

/-- Each letter with the argument it takes, letters left to right; where none is left, none. -/
def align : List (Bool × Char) → List String → List (Bool × Char × Option String)
  | [], _ => []
  | (adding, letter) :: letters, args =>
    if (i.typeOf letter).takesArgument adding then
      (adding, letter, args.head?) :: align letters args.tail
    else (adding, letter, none) :: align letters args

def grant (members : Map String Member) :
    Bool × Char × Option String → Map String Member
  | (adding, letter, some target) =>
    match i.typeOf letter with
    | .privilege mark => Session.setPrefix members (i.casemapping.normalize target) mark adding
    | _ => members
  | _ => members

/-- How the member is spelled whom a letter gives a mark or takes it from. -/
def named (members : Map String Member) : Bool × Char × Option String → Option String
  | (_, letter, some target) =>
    match i.typeOf letter with
    | .privilege _ => (members.lookup (i.casemapping.normalize target)).map (·.nick)
    | _ => none
  | _ => none

/-- A mode line as the server wrote it: the members with their marks after it, and whom it names. -/
def read (modes : String) (args : List String) (members : Map String Member) :
    Map String Member × List String :=
  let aligned := i.align (signedLetters true modes.toList) args
  (aligned.foldl i.grant members, aligned.filterMap (i.named members))

end ISupport

/-- A mode as the crate gives it, without its argument. -/
def modeSigned (m : Mode) : Bool × Char := ((modeParts m).1 = '+', (modeParts m).2.1)

/-- What the crate makes of a line keeps the letters and the arguments, each in order. -/
def KeepsOrder (modes : String) (args : List String) (ms : List Mode) : Prop :=
  ms.map modeSigned = signedLetters true modes.toList ∧ modeParams ms = args

namespace ISupport

variable {i : ISupport}

theorem prefixForMode_isSome (p : Prefixes) (letter : Char) :
    (p.prefixForMode letter).isSome = p.isPrefixMode letter := by
  rw [Prefixes.prefixForMode, Option.isSome_map, isSome_find?]
  rfl

theorem typeOf_of_isPrefixMode (h : i.prefixes.isPrefixMode letter) :
    ∃ mark, i.prefixes.prefixForMode letter = some mark ∧ i.typeOf letter = .privilege mark := by
  rw [← prefixForMode_isSome] at h
  obtain ⟨mark, hm⟩ := Option.isSome_iff_exists.1 h
  exact ⟨mark, hm, by rw [typeOf, hm]⟩

/-- Of the letters that are no privileges, `CHANMODES` says which take an argument. -/
theorem takesArgument_of_not_isPrefixMode (h : i.prefixes.isPrefixMode letter = false) :
    (i.typeOf letter).takesArgument adding = i.chanmodes.takesParameter letter adding ∧
      ∀ mark, i.typeOf letter ≠ .privilege mark := by
  rw [← prefixForMode_isSome, Option.isSome_eq_false_iff, Option.isNone_iff_eq_none] at h
  simp only [typeOf, h, ChanModes.takesParameter]
  cases Str.contains i.chanmodes.list letter <;>
    cases Str.contains i.chanmodes.alwaysParam letter <;>
    cases Str.contains i.chanmodes.paramWhenSet letter <;>
    simp [ModeType.takesArgument]

theorem named_setPrefix :
    i.named (Session.setPrefix members key mark adding) = i.named members := by
  funext ⟨b, letter, arg⟩
  cases arg with
  | none => rfl
  | some target =>
    simp only [named, Session.setPrefix, Map.lookup_modify]
    split
    · split
      · rw [Option.map_map]
        rfl
      · rfl
    · rfl

theorem align_nil (letters : List (Bool × Char)) (members : Map String Member) :
    (i.align letters []).foldl i.grant members = members ∧
      (i.align letters []).filterMap (i.named members) = [] := by
  induction letters with
  | nil => exact ⟨rfl, rfl⟩
  | cons p letters ih =>
    simp only [align, List.head?_nil, tail_nil, ite_self]
    exact ih

theorem modeLoop_cons (hplus : letter ≠ '+') (hminus : letter ≠ '-') (letters : List (Bool × Char))
    (args : List String) (members : Map String Member)
    (hloop : ∀ args members, Session.modeLoop i cs args adding members =
      ((i.align letters args).foldl i.grant members,
        (i.align letters args).filterMap (i.named members))) :
    Session.modeLoop i (letter :: cs) args adding members =
      ((i.align ((adding, letter) :: letters) args).foldl i.grant members,
        (i.align ((adding, letter) :: letters) args).filterMap (i.named members)) := by
  unfold Session.modeLoop
  rw [if_neg hplus, if_neg hminus]
  cases hp : i.prefixes.isPrefixMode letter with
  | true =>
    obtain ⟨mark, hmark, htype⟩ := typeOf_of_isPrefixMode hp
    simp only [if_true, align, htype, ModeType.takesArgument]
    cases args with
    | nil =>
      obtain ⟨hgrant, hnamed⟩ := align_nil (i := i) letters members
      simp only [List.head?_nil, tail_nil, foldl_cons, filterMap_cons, grant, named,
        hgrant, hnamed]
    | cons target args =>
      simp only [List.head?_cons, tail_cons, foldl_cons, filterMap_cons, grant, named,
        htype, hmark]
      cases hm : members.lookup (i.casemapping.normalize target) with
      | none =>
        have hsame :
            Session.setPrefix members (i.casemapping.normalize target) mark adding = members := by
          simp only [Session.setPrefix, Map.modify, hm]
        simp only [hloop, Option.map_none, hsame]
      | some member => simp only [hloop, Option.map_some, named_setPrefix]
  | false =>
    obtain ⟨htakes, hnone⟩ : (i.typeOf letter).takesArgument adding =
        i.chanmodes.takesParameter letter adding ∧ ∀ mark, i.typeOf letter ≠ .privilege mark :=
      takesArgument_of_not_isPrefixMode hp
    have hgrant (arg : Option String) : i.grant members (adding, letter, arg) = members := by
      cases arg with
      | none => rfl
      | some target =>
        cases h : i.typeOf letter with
        | privilege mark => exact absurd h (hnone mark)
        | _ => simp only [grant]
    have hnamed (arg : Option String) : i.named members (adding, letter, arg) = none := by
      cases arg with
      | none => rfl
      | some target =>
        cases h : i.typeOf letter with
        | privilege mark => exact absurd h (hnone mark)
        | _ => simp only [named]
    simp only [Bool.false_eq_true, if_false, align, htakes]
    split
    · cases args with
      | nil =>
        obtain ⟨hg, hn⟩ := align_nil (i := i) letters members
        simp only [tail_nil, foldl_cons, filterMap_cons, hgrant, hnamed,
          hg, hn]
      | cons target args =>
        simp only [tail_cons, foldl_cons, filterMap_cons, hgrant,
          hnamed, hloop]
    · simp only [foldl_cons, filterMap_cons, hgrant, hnamed, hloop]

theorem modeLoop_plus (cs : List Char) (args : List String) (adding : Bool)
    (members : Map String Member) : Session.modeLoop i ('+' :: cs) args adding members =
      Session.modeLoop i cs args true members := by
  conv_lhs => unfold Session.modeLoop
  exact if_pos rfl

theorem modeLoop_minus (cs : List Char) (args : List String) (adding : Bool)
    (members : Map String Member) : Session.modeLoop i ('-' :: cs) args adding members =
      Session.modeLoop i cs args false members := by
  conv_lhs => unfold Session.modeLoop
  exact (if_neg (by decide)).trans (if_pos rfl)

/-- The string the actor writes says what the list it is written from says. -/
theorem modeLoop_modeString (hms : ∀ m ∈ ms, (modeSigned m).2 ≠ '+' ∧ (modeSigned m).2 ≠ '-')
    (sign : Option Char)
    (hsign : ∀ c, sign = some c → (c = '+' ∧ adding = true) ∨ (c = '-' ∧ adding = false))
    (args : List String) (members : Map String Member) :
    Session.modeLoop i (modeString sign ms) args adding members =
      ((i.align (ms.map modeSigned) args).foldl i.grant members,
        (i.align (ms.map modeSigned) args).filterMap (i.named members)) := by
  induction ms generalizing sign adding args members with
  | nil => rfl
  | cons m ms ih =>
    obtain ⟨hplus, hminus⟩ := hms m mem_cons_self
    -- the sign of this mode, written or standing from before
    have hm : ((modeParts m).1 = '+' ∧ (modeSigned m).1 = true) ∨
        ((modeParts m).1 = '-' ∧ (modeSigned m).1 = false) := by
      cases m <;> simp [modeSigned, modeParts]
    have hcons : Session.modeLoop i ((modeSigned m).2 :: modeString (some (modeParts m).1) ms) args
        (modeSigned m).1 members =
        ((i.align (modeSigned m :: ms.map modeSigned) args).foldl i.grant members,
          (i.align (modeSigned m :: ms.map modeSigned) args).filterMap (i.named members)) :=
      modeLoop_cons hplus hminus (ms.map modeSigned) args members
        (ih (fun m' hm' => hms m' (mem_cons_of_mem _ hm')) (some (modeParts m).1)
          fun c hc => Option.some.inj hc ▸ hm)
    simp only [modeString]
    split
    next hs =>
      have hadding : adding = (modeSigned m).1 := by
        rcases hm with ⟨hc, hm⟩ | ⟨hc, hm⟩ <;> rcases hsign _ hs with ⟨hc', ha⟩ | ⟨hc', ha⟩
        · rw [ha, hm]
        · simp [hc] at hc'
        · simp [hc] at hc'
        · rw [ha, hm]
      rw [hadding]
      exact hcons
    next =>
      rcases hm with ⟨hc, hm⟩ | ⟨hc, hm⟩
      · rw [hm] at hcons
        rw [hc] at hcons ⊢
        exact (modeLoop_plus ..).trans hcons
      · rw [hm] at hcons
        rw [hc] at hcons ⊢
        exact (modeLoop_minus ..).trans hcons

theorem mem_signedLetters (h : p ∈ signedLetters adding cs) : p.2 ≠ '+' ∧ p.2 ≠ '-' := by
  induction cs generalizing adding with
  | nil => cases h
  | cons c cs ih =>
    simp only [signedLetters] at h
    split at h
    · exact ih h
    next hplus =>
      split at h
      · exact ih h
      next hminus =>
        rcases mem_cons.1 h with rfl | h
        · exact ⟨hplus, hminus⟩
        · exact ih h

end ISupport

namespace Session

variable {s : Session} {c : Channel} {modes : String} {args : List String} {ms : List Mode}

/-- Channel modes are read as the server wrote them. Whatever the server advertised, if the crate
keeps the letters and the arguments of a line in order, the members of a tracked channel have the
marks that the line gives them, and those reported are the members it names, in order. -/
theorem onModes_eq_read (hc : s.channel room = some c) (h : KeepsOrder modes args ms) :
    s.onModes room ms =
      let (members, named) := s.isupport.read modes args c.members
      ({ s with channels := s.channels.insert (s.normalize room) { c with members } }, named) := by
  obtain ⟨hletters, hargs⟩ := h
  have hms : ∀ m ∈ ms, (modeSigned m).2 ≠ '+' ∧ (modeSigned m).2 ≠ '-' := fun m hm =>
    ISupport.mem_signedLetters (hletters ▸ mem_map_of_mem hm)
  have hloop : modeLoop s.isupport (modeString none ms) (modeParams ms) true c.members =
      ((s.isupport.align (ms.map modeSigned) (modeParams ms)).foldl s.isupport.grant c.members,
        (s.isupport.align (ms.map modeSigned) (modeParams ms)).filterMap
          (s.isupport.named c.members)) :=
    ISupport.modeLoop_modeString hms none (fun c hc => nomatch hc) (modeParams ms) c.members
  rw [hletters, hargs] at hloop
  rw [channel] at hc
  simp only [onModes, onMode, hc, String.toList_ofList, hargs, hloop]
  rfl

/-- The client is in a channel with Ann, who holds `@`, and Bob. -/
def seated : Session := ((init "me").onJoin "#den" "me").1.onNamesReply "#den" "@ann bob me"

/-- `MODE #den -l+ov bob ann`, of which the crate gives `bob` to `l` and `ann` to `o`. -/
theorem onModes_eq_read_misaligned :
    KeepsOrder "-l+ov" ["bob", "ann"]
      [.minus 'l' (some "bob"), .plus 'o' (some "ann"), .plus 'v' none] ∧
    ∃ c, seated.channel "#den" = some c ∧
      (seated.isupport.read "-l+ov" ["bob", "ann"] c.members).2 = ["bob", "ann"] ∧
      seated.onModes "#den" [.minus 'l' (some "bob"), .plus 'o' (some "ann"), .plus 'v' none] =
        let (members, named) := seated.isupport.read "-l+ov" ["bob", "ann"] c.members
        ({ seated with
          channels := seated.channels.insert (seated.normalize "#den") { c with members } },
            named) := by
  have hkeeps : KeepsOrder "-l+ov" ["bob", "ann"]
      [.minus 'l' (some "bob"), .plus 'o' (some "ann"), .plus 'v' none] := by
    constructor <;> decide +kernel
  have hsome : (seated.channel "#den").isSome := by decide +kernel
  have hnamed : ((seated.channel "#den").map fun c =>
      (seated.isupport.read "-l+ov" ["bob", "ann"] c.members).2) = some ["bob", "ann"] := by
    decide +kernel
  obtain ⟨c, hc⟩ := Option.isSome_iff_exists.1 hsome
  rw [hc] at hnamed
  exact ⟨hkeeps, c, hc, Option.some.inj hnamed, onModes_eq_read hc hkeeps⟩

end Session

end Ddirc.Client
