import Ddirc.Conn.Echo
import Ddirc.Client.Tracked

/-! # Which texts mention us

Both protocols look for the folded nick in the folded text with `str::match_indices`, and ask of
each match whether it is part of a longer word. That finds the nick wherever it stands by itself
exactly if the nick is unbroken, as IRC's are; the name somebody goes by in an XMPP room can be
`j.j`. -/

namespace Ddirc.Xmpp
open Conn

/-- No `.`: it ends sentences. -/
def isWordChar (u : Platform) (c : Char) : Bool := u.isAlphanumeric c || "_-".toList.contains c

/-- Whether a text mentions a nick as a whole word, ignoring case. -/
def mentions (u : Platform) (nick text : String) : Bool :=
  Match.hasWord (isWordChar u) (nick.toList.flatMap u.lowercase) (text.toList.flatMap u.lowercase)

end Ddirc.Xmpp

namespace Ddirc.Client

theorem CaseMapping.normalizeChar_normalizeChar (m : CaseMapping) (c : Char) :
    m.normalizeChar (m.normalizeChar c) = m.normalizeChar c := by
  by_cases hc : c ∈ ['[', ']', '\\', '~']
  · simp only [List.mem_cons, List.not_mem_nil, or_false] at hc
    rcases hc with rfl | rfl | rfl | rfl <;> cases m <;> rfl
  · have hlower : m.normalizeChar c = c.toLower := by
      simp only [List.mem_cons, not_or] at hc
      cases m <;> simp [normalizeChar, hc]
    rw [hlower, m.normalizeChar_eq (Str.toLower_toLower c), hlower]

end Ddirc.Client

namespace Ddirc.Conn
open Client Match

/-- What is in lower case stays as it is. -/
structure Platform.Lawful (u : Platform) : Prop where
  lowercase_of_mem : ∀ c, ∀ d ∈ u.lowercase c, u.lowercase d = [d]
  lowercase_underscore : u.lowercase '_' = ['_']
  lowercase_hyphen : u.lowercase '-' = ['-']

/-- A nick is found wherever it stands by itself exactly if part of a word comes before the second
of any two occurrences that overlap. -/
theorem mention_iff_unbroken (u : Platform) (hu : u.Lawful) :
    (∀ s : Session,
      (∀ text, s.isMention u text = true ↔
        Match.Stands (Session.isNickChar u) (s.normalize s.nick).toList (s.normalize text).toList) ↔
      Unbroken (Session.isNickChar u) (s.normalize s.nick).toList) ∧
    ∀ nick : String,
      (∀ text : String, Xmpp.mentions u nick text = true ↔
        Match.Stands (Xmpp.isWordChar u) (nick.toList.flatMap u.lowercase)
          (text.toList.flatMap u.lowercase)) ↔
      Unbroken (Xmpp.isWordChar u) (nick.toList.flatMap u.lowercase) := by
  have htexts : Function.Surjective String.toList := fun l => ⟨.ofList l, String.toList_ofList⟩
  constructor
  · intro s
    have hfold : ∀ text : String, (s.normalize text).toList =
        text.toList.flatMap fun c => [s.isupport.casemapping.normalizeChar c] := by
      intro text
      rw [Session.normalize, CaseMapping.normalize, String.toList_ofList, ← List.map_eq_flatMap]
    have hword (c : Char) (h : "[]\\`_^\x7b|\x7d-".toList.contains c = true) :
        Session.isNickChar u c = true := by
      rw [Session.isNickChar, h, Bool.or_true]
    simp only [Session.isMention, hfold]
    refine htexts.forall.symm.trans (hasWord_iff_unbroken (x := '_') (y := '-') _ ?_
      ⟨?_, hword _ (by decide)⟩ ⟨?_, hword _ (by decide)⟩ (by decide) _)
    · intro c d hd
      rw [List.mem_singleton.1 hd, CaseMapping.normalizeChar_normalizeChar]
    all_goals cases s.isupport.casemapping <;> rfl
  · intro nick
    have hword (c : Char) (h : "_-".toList.contains c = true) : Xmpp.isWordChar u c = true := by
      rw [Xmpp.isWordChar, h, Bool.or_true]
    exact htexts.forall.symm.trans (hasWord_iff_unbroken _ hu.lowercase_of_mem
      ⟨hu.lowercase_underscore, hword _ (by decide)⟩ ⟨hu.lowercase_hyphen, hword _ (by decide)⟩
      (by decide) _)

theorem asciiPlatform_lawful : asciiPlatform.Lawful where
  lowercase_of_mem c d hd := by
    rw [List.mem_singleton.1 hd]
    exact congrArg List.singleton (Str.toLower_toLower c)
  lowercase_underscore := rfl
  lowercase_hyphen := rfl

/-- Somebody called `sam` hears of everything that names them. -/
theorem mentions_sam :
    Xmpp.mentions asciiPlatform "sam" "hi, Sam" = true ∧
    ∀ text : String, Xmpp.mentions asciiPlatform "sam" text = true ↔
      Match.Stands (Xmpp.isWordChar asciiPlatform) ("sam".toList.flatMap asciiPlatform.lowercase)
        (text.toList.flatMap asciiPlatform.lowercase) :=
  ⟨by decide, ((mention_iff_unbroken asciiPlatform asciiPlatform_lawful).2 "sam").2 (by decide)⟩

/-- `xj.j.j` ends with the nick, after a full stop, but the match that is found first covers half of
it. -/
theorem mention_missed :
    (let s : Session := { nick := "j.j" };
      Match.Stands (Session.isNickChar asciiPlatform) (s.normalize s.nick).toList
        (s.normalize "xj.j.j").toList ∧ s.isMention asciiPlatform "xj.j.j" = false) ∧
    Match.Stands (Xmpp.isWordChar asciiPlatform) ("j.j".toList.flatMap asciiPlatform.lowercase)
      ("xj.j.j".toList.flatMap asciiPlatform.lowercase) ∧
    Xmpp.mentions asciiPlatform "j.j" "xj.j.j" = false :=
  ⟨⟨⟨"xj.".toList, [], by decide, by decide⟩, by decide⟩,
    ⟨"xj.".toList, [], by decide, by decide⟩, by decide⟩

end Ddirc.Conn
