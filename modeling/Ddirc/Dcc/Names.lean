import Ddirc.Dcc.Offer

/-! # Names of offered files

What `safe_filename` of `dcc/offer.rs` promises of a name it lets through, by all its steps
together: the mark after a name of this program's own is made when the dots at the end are gone, and
the one before the name of a device last. -/

namespace Ddirc.Dcc
open List
variable {name : String}

/-! ## The program's own names -/

/-- The names of unfinished files and of the records beside them. -/
def isWorking (name : String) : Bool := Str.endsWith name ".part" || Str.endsWith name ".part.from"

theorem isWorking_iff : isWorking name ↔
    ".part".toList <:+ name.toList ∨ ".part.from".toList <:+ name.toList := by
  simp [isWorking, Str.endsWith]

theorem isWorking_of_underscore (h : isWorking ("_" ++ name)) : isWorking name := by
  have hcons : ("_" ++ name).toList = '_' :: name.toList := by simp
  rw [isWorking_iff, hcons, suffix_cons_iff, suffix_cons_iff] at h
  rw [isWorking_iff]
  rcases h with (h | h) | (h | h)
  · exact absurd (congrArg head? h) (by simp)
  · exact .inl h
  · exact absurd (congrArg head? h) (by simp)
  · exact .inr h

theorem not_isWorking_underscore (name : String) : isWorking (name ++ "_") = false := by
  by_contra h
  have hlast (e : List Char) (he : e.getLast? ≠ some '_') (hne : e ≠ []) :
      ¬ e <:+ (name ++ "_").toList := by
    rintro ⟨front, hfront⟩
    have hlast := congrArg getLast? hfront
    rw [getLast?_append_of_ne_nil _ hne] at hlast
    exact he (hlast.trans (by simp))
  rcases isWorking_iff.1 (eq_true_of_ne_false h) with h | h
  · exact hlast _ (by simp) (by simp) h
  · exact hlast _ (by simp) (by simp) h

theorem isWorking_lower (h : isWorking name) :
    isWorking (Str.toAsciiLowercase name) := by
  have hlower : (Str.toAsciiLowercase name).toList = name.toList.map Char.toLower := by
    simp [Str.toAsciiLowercase]
  rw [isWorking_iff, hlower]
  exact (isWorking_iff.1 h).imp (fun h => h.map Char.toLower) fun h => h.map Char.toLower

/-! ## Devices -/

def deviceNames : List String :=
  ["CON", "PRN", "AUX", "NUL", "CONIN$", "CONOUT$"] ++ ["COM", "LPT"].flatMap fun start =>
    ["0", "1", "2", "3", "4", "5", "6", "7", "8", "9", "¹", "²", "³"].map (start ++ ·)

/-- A device's name in any case, with blanks after it or not and with an extension or not. -/
def NamesDevice (name : String) : Prop :=
  ∃ device ∈ deviceNames, ∃ blanks extension, (extension = [] ∨ extension.head? = some '.') ∧
    (Str.toAsciiUppercase name).toList = device.toList ++ replicate blanks ' ' ++ extension

theorem eq_of_toUpper {c x : Char} (h : c.toUpper = x) (hx : x.isUpper = false) : c = x := by
  delta Char.toUpper at h
  split at h
  next hc =>
    subst h
    obtain ⟨hlow, hhigh⟩ := hc
    exfalso
    revert hx hlow hhigh
    delta Char.isUpper
    simp [UInt32.le_iff_toNat_le]
    omega
  next => exact h

theorem stem_of_dot (hl : '.' ∉ l) (hext : ext = [] ∨ ext.head? = some '.') :
    (Str.split '.' (String.ofList (l ++ ext))).headD (String.ofList (l ++ ext)) =
      String.ofList l := by
  rw [Str.split, String.toList_ofList]
  cases ext with
  | nil => rw [append_nil, splitOn_eq_singleton hl]; rfl
  | cons c ext =>
    obtain rfl : c = '.' := by simpa using hext
    rw [splitOn, splitOnP_append_cons _ _ (p := (· == '.')) rfl,
      show l.splitOnP (· == '.') = [l] from splitOn_eq_singleton hl]
    rfl

def deviceStem (name : String) : String :=
  Str.toAsciiUppercase (Str.trimEndMatches (· == ' ') ((Str.split '.' name).headD name))

theorem isWindowsDeviceName_congr (h : deviceStem a = deviceStem b) :
    isWindowsDeviceName a = isWindowsDeviceName b := by
  unfold isWindowsDeviceName
  rw [← deviceStem, h, deviceStem]

theorem deviceStem_eq (hdot : '.' ∉ device.toList) (hlast : device.toList.getLast? ≠ some ' ')
    (hext : ext = [] ∨ ext.head? = some '.') (hname : (Str.toAsciiUppercase name).toList =
      device.toList ++ replicate blanks ' ' ++ ext) : deviceStem name = device := by
  rw [Str.toAsciiUppercase, String.toList_ofList, map_eq_append_iff] at hname
  obtain ⟨before, ext', hsplit, hbefore, hext'⟩ := hname
  obtain ⟨stem, spaces, rfl, hstem, hspaces⟩ := map_eq_append_iff.1 hbefore
  have hspaces : ∀ c ∈ spaces, c = ' ' := fun c hc =>
    eq_of_toUpper (eq_of_mem_replicate (hspaces ▸ mem_map_of_mem hc)) rfl
  have hnodot : '.' ∉ stem ++ spaces := by
    intro hmem
    rcases mem_append.1 hmem with hmem | hmem
    · exact hdot (hstem ▸ mem_map_of_mem (f := Char.toUpper) hmem)
    · exact absurd (hspaces _ hmem) (by decide)
  have hdotted : ext' = [] ∨ ext'.head? = some '.' := by
    cases ext' with
    | nil => exact .inl rfl
    | cons c _ =>
      rw [← hext'] at hext
      exact .inr (congrArg some (eq_of_toUpper (by simpa using hext) rfl))
  have hends : stem.rdropWhile (· == ' ') = stem := by
    rw [rdropWhile_eq_self_iff]
    intro hne hblank
    refine hlast ?_
    rw [← hstem, getLast?_map, getLast?_eq_some_getLast hne, eq_of_beq hblank]
    rfl
  have htrim : (stem ++ spaces).rdropWhile (· == ' ') = stem := by
    rw [rdropWhile, reverse_append, dropWhile_append_of_pos fun c hc => by
      rw [hspaces c (mem_reverse.1 hc)]; rfl]
    exact hends
  rw [deviceStem, ← String.ofList_toList (s := name), hsplit, stem_of_dot hnodot hdotted,
    Str.trimEndMatches, String.toList_ofList, htrim, Str.toAsciiUppercase, String.toList_ofList,
      hstem,
    String.ofList_toList]

theorem NamesDevice.isWindowsDeviceName (h : NamesDevice name) : isWindowsDeviceName name := by
  obtain ⟨device, hdevice, blanks, ext, hext, hname⟩ := h
  have hall : deviceNames.all (fun d => !d.toList.contains '.' && d.toList.getLast? != some ' ' &&
      deviceStem d == d && Dcc.isWindowsDeviceName d) := by decide +kernel
  have hchars := all_eq_true.1 hall device hdevice
  simp only [Bool.and_eq_true, Bool.not_eq_true', bne_iff_ne, beq_iff_eq,
    contains_eq_mem, decide_eq_false_iff_not] at hchars
  obtain ⟨⟨⟨hdot, hlast⟩, hself⟩, hknown⟩ := hchars
  have hstem := deviceStem_eq hdot hlast hext hname
  rw [isWindowsDeviceName_congr (hstem.trans hself.symm), hknown]

theorem deviceStem_underscore (name : String) :
    ∃ l, deviceStem ("_" ++ name) = String.ofList ('_' :: l) := by
  have hlist : ("_" ++ name).toList = '_' :: name.toList := by simp
  obtain ⟨w, hw⟩ : ∃ w, (Str.split '.' ("_" ++ name)).headD ("_" ++ name) =
      String.ofList ('_' :: w) := by
    rw [Str.split, hlist, splitOn, splitOnP_cons_eq_if_modifyHead]
    cases hrest : name.toList.splitOnP (· == '.') with
    | nil => exact absurd hrest (splitOnP_ne_nil _ _)
    | cons w _ => exact ⟨w, rfl⟩
  refine ⟨(w.rdropWhile (· == ' ')).map Char.toUpper, ?_⟩
  rw [deviceStem, hw, Str.trimEndMatches, String.toList_ofList, Str.toAsciiUppercase,
    String.toList_ofList]
  exact congrArg (String.ofList <| map Char.toUpper ·) (Str.rdropWhile_append [] rfl w)

theorem not_isWindowsDeviceName_underscore (name : String) :
    isWindowsDeviceName ("_" ++ name) = false := by
  obtain ⟨l, hl⟩ := deviceStem_underscore name
  unfold isWindowsDeviceName
  rw [← deviceStem, hl]
  simp [Str.stripStr, Str.startsWithStr, ← String.toList_inj]

/-! ## Safe names -/

/-- A character that stays in a name. -/
def Plain (c : Char) : Prop :=
  c ≠ '/' ∧ c ≠ '\\' ∧ Str.isControl c = false ∧ c ∉ "<>:\"|?*".toList

/-- A name that no step before the marks would change. -/
structure Clean (name : String) : Prop where
  plain : ∀ c ∈ name.toList, Plain c
  last : ∃ front c, name.toList = front ++ [c] ∧ c ≠ '.' ∧ c ≠ ' '

theorem plain_underscore : Plain '_' := by
  unfold Plain
  decide

theorem Clean.ends (h : Clean name) : ∃ c, name.toList.getLast? = some c ∧ c ≠ '.' ∧ c ≠ ' ' := by
  obtain ⟨front, c, hname, hc⟩ := h.last
  exact ⟨c, by rw [hname, getLast?_concat], hc⟩

theorem Clean.ne (h : Clean name) : name ≠ "" ∧ name ≠ "." ∧ name ≠ ".." := by
  obtain ⟨c, hlast, hdot, -⟩ := h.ends
  refine ⟨?_, ?_, ?_⟩ <;> rintro rfl <;> cases hlast <;> exact hdot rfl

theorem Clean.after (h : Clean name) : Clean (name ++ "_") where
  plain c hc := by
    rcases mem_append.1 (String.toList_append ▸ hc) with hc | hc
    · exact h.plain c hc
    · exact mem_singleton.1 hc ▸ plain_underscore
  last := ⟨name.toList, '_', String.toList_append, by decide, by decide⟩

theorem Clean.before (h : Clean name) : Clean ("_" ++ name) where
  plain c hc := by
    rcases mem_append.1 (String.toList_append ▸ hc) with hc | hc
    · exact mem_singleton.1 hc ▸ plain_underscore
    · exact h.plain c hc
  last := by
    obtain ⟨front, c, hname, hc⟩ := h.last
    exact ⟨'_' :: front, c, by rw [String.toList_append, hname]; rfl, hc⟩

def trimmed (bare : String) : String :=
  Str.trimEndMatches (fun c => c == '.' || c == ' ')
    (String.ofList (bare.toList.map fun c => if "<>:\"|?*".toList.contains c then '_' else c))

theorem clean_trimmed (hsep : ∀ c ∈ bare.toList, c ≠ '/' ∧ c ≠ '\\')
    (hcontrol : bare.toList.any Str.isControl = false) (hne : trimmed bare ≠ "") :
    Clean (trimmed bare) := by
  have hlist : (trimmed bare).toList = (bare.toList.map fun c =>
      if "<>:\"|?*".toList.contains c then '_' else c).rdropWhile
        (fun c => c == '.' || c == ' ') := by
    rw [trimmed, Str.trimEndMatches, String.toList_ofList, String.toList_ofList]
  constructor
  · intro c hc
    obtain ⟨d, hd, rfl⟩ := mem_map.1 (( rdropWhile_prefix _ _).subset (hlist ▸ hc))
    split
    next => exact plain_underscore
    next hreserved =>
      refine ⟨(hsep d hd).1, (hsep d hd).2, ?_, by simpa using hreserved⟩
      exact Bool.eq_false_iff.2 (any_eq_false.1 hcontrol d hd)
  · have hnil : (trimmed bare).toList ≠ [] := fun hnil => hne (String.toList_eq_nil_iff.1 hnil)
    rw [hlist] at hnil ⊢
    have hend := rdropWhile_last_not _ _ hnil
    rw [Bool.or_eq_true, beq_iff_eq, beq_iff_eq, not_or] at hend
    exact ⟨_, _, (dropLast_append_getLast hnil).symm, hend⟩

theorem toAsciiLowercase_append (a b : String) :
    Str.toAsciiLowercase (a ++ b) = Str.toAsciiLowercase a ++ Str.toAsciiLowercase b := by
  simp [Str.toAsciiLowercase]

def marked (name : String) : String :=
  let marked := if isWorking (Str.toAsciiLowercase name) then name ++ "_" else name
  if isWindowsDeviceName marked then "_" ++ marked else marked

structure IsSafe (name : String) : Prop extends Clean name where
  free : isWorking (Str.toAsciiLowercase name) = false
  file : isWindowsDeviceName name = false

theorem Clean.marked (h : Clean bare) : IsSafe (marked bare) := by
  obtain ⟨name, hname, hclean, hfree⟩ : ∃ name, name = (if isWorking (Str.toAsciiLowercase bare)
      then bare ++ "_" else bare) ∧ Clean name ∧
        isWorking (Str.toAsciiLowercase name) = false := by
    refine ⟨_, rfl, ?_⟩
    split
    next => exact ⟨h.after, toAsciiLowercase_append .. ▸ not_isWorking_underscore _⟩
    next hfree => exact ⟨h, Bool.eq_false_iff.2 hfree⟩
  unfold Dcc.marked
  dsimp only
  rw [← hname]
  split
  next =>
    refine ⟨hclean.before, ?_, not_isWindowsDeviceName_underscore name⟩
    rw [toAsciiLowercase_append]
    refine Bool.eq_false_iff.2 fun hworking => ?_
    exact absurd (isWorking_of_underscore hworking) (Bool.eq_false_iff.1 hfree)
  next hfile => exact ⟨hclean, hfree, Bool.eq_false_iff.2 hfile⟩

theorem IsSafe.marked (h : IsSafe name) : marked name = name := by
  unfold Dcc.marked
  dsimp only
  rw [h.free, if_neg Bool.false_ne_true, h.file, if_neg Bool.false_ne_true]

theorem safeFilename_eq : safeFilename name =
    let bare := String.ofList (name.toList.rtakeWhile fun c => c != '/' && c != '\\')
    if bare.isEmpty || bare == "." || bare == ".." then none
    else if Str.len bare > 255 then none
    else if bare.toList.any Str.isControl then none
    else if (trimmed bare).isEmpty then none
    else if Str.len (marked (trimmed bare)) ≤ 255 then some (marked (trimmed bare)) else none := by
  unfold safeFilename marked isWorking trimmed
  rfl

/-- Nothing is changed in a safe name. -/
theorem IsSafe.safeFilename (h : IsSafe name) (hlen : Str.len name ≤ 255) :
    safeFilename name = some name := by
  obtain ⟨front, last, hname, hdot, hblank⟩ := h.last
  have hbare : name.toList.rtakeWhile (fun c => c != '/' && c != '\\') = name.toList := by
    rw [rtakeWhile_eq_self_iff]
    intro c hc
    simp [(h.plain c hc).1, (h.plain c hc).2.1]
  have htrimmed : trimmed name = name := by
    have hreplaced : name.toList.map (fun c => if "<>:\"|?*".toList.contains c then '_' else c) =
        name.toList := by
      conv_rhs => rw [← map_id name.toList]
      refine map_congr_left fun c hc => if_neg ?_
      rw [contains_iff_mem]
      exact (h.plain c hc).2.2.2
    rw [trimmed, hreplaced, String.ofList_toList, Str.trimEndMatches, hname,
      rdropWhile_concat_neg _ _ _ (by simp [hdot, hblank]), ← hname, String.ofList_toList]
  obtain ⟨hne, hone, htwo⟩ := h.ne
  have hempty : ¬ name.isEmpty := fun hempty => hne (String.isEmpty_iff.1 hempty)
  have hcontrol : ¬ name.toList.any Str.isControl := by
    rw [any_eq_true]
    rintro ⟨c, hc, hcontrol⟩
    exact absurd hcontrol (by simp [(h.plain c hc).2.2.1])
  rw [safeFilename_eq]
  dsimp only
  rw [hbare, String.ofList_toList, htrimmed, h.marked, if_neg (by simp [hne, hone, htwo]),
    if_neg (Nat.not_lt.2 hlen), if_neg hcontrol, if_neg hempty, if_pos hlen]

theorem isSafe_of_safeFilename (h : safeFilename offered = some name) :
    Str.len name ≤ 255 ∧ IsSafe name := by
  rw [safeFilename_eq] at h
  simp only [Option.ite_none_left_eq_some, Option.ite_none_right_eq_some] at h
  obtain ⟨-, -, hcontrol, hne, hlen, h⟩ := h
  rw [Option.some.injEq] at h
  subst h
  refine ⟨hlen, (clean_trimmed ?_ (Bool.eq_false_iff.2 hcontrol) ?_).marked⟩
  · intro c hc
    rw [String.toList_ofList] at hc
    simpa using mem_rtakeWhile_imp hc
  · exact fun hempty => hne (String.isEmpty_iff.2 hempty)

/-- No offer is saved under a name of the program's own. -/
theorem not_isWorking_of_safe (h : safeFilename name = some filename) :
    isWorking filename = false := by
  refine Bool.eq_false_iff.2 fun hworking => ?_
  exact absurd (isWorking_lower hworking) (Bool.eq_false_iff.1 (isSafe_of_safeFilename h).2.free)

/-- A name let through is safe to create, and is let through again as it is. -/
theorem safeFilename_safe (h : safeFilename offered = some name) :
    name ≠ "" ∧ Str.len name ≤ 255 ∧
      (∀ c ∈ name.toList, c ≠ '/' ∧ c ≠ '\\' ∧ Str.isControl c = false ∧ c ∉ "<>:\"|?*".toList) ∧
      name ≠ "." ∧ name ≠ ".." ∧
      name.toList.getLast? ≠ some '.' ∧ name.toList.getLast? ≠ some ' ' ∧
      ¬ NamesDevice name ∧
      (∀ ending ∈ [".part", ".part.from"],
        ¬ ending.toList <:+ (Str.toAsciiLowercase name).toList) ∧
      safeFilename name = some name := by
  obtain ⟨hlen, hsafe⟩ := isSafe_of_safeFilename h
  obtain ⟨hne, hone, htwo⟩ := hsafe.ne
  obtain ⟨c, hlast, hdot, hblank⟩ := hsafe.ends
  rw [hlast]
  refine ⟨hne, hlen, hsafe.plain, hone, htwo, fun h => hdot (Option.some.inj h),
    fun h => hblank (Option.some.inj h), fun hdevice => ?_, ?_, hsafe.safeFilename hlen⟩
  · exact absurd hdevice.isWindowsDeviceName (Bool.eq_false_iff.1 hsafe.file)
  · intro ending hending hsuffix
    refine absurd (isWorking_iff.2 ?_) (Bool.eq_false_iff.1 hsafe.free)
    rcases mem_pair.1 hending with rfl | rfl
    · exact .inl hsuffix
    · exact .inr hsuffix

theorem safeFilename_safe_device : safeFilename "a/con.<x>.." = some "_con._x_" ∧
    safeFilename "_con._x_" = some "_con._x_" := by
  have h : safeFilename "a/con.<x>.." = some "_con._x_" := by decide +kernel
  obtain ⟨-, -, -, -, -, -, -, -, -, hsame⟩ := safeFilename_safe h
  exact ⟨h, hsame⟩

end Ddirc.Dcc
