import Ddirc.Lib.Map
import Ddirc.Lib.Str

/-! # Recent messages, found by id

The `MessageIndex` of `xmpp/edits.rs`: a queue of slots, numbered in order of arrival and never
renumbered, and two maps that say where a message is, by the id the user interface knows it by and
by the id its sender put on it. Every operation is described by what it does to
`MessageIndex.entryAt`, the queue by number; `MessageIndex.Filed` says that the maps mirror it, and
`Index` is an index whose maps do. -/

namespace Ddirc.Xmpp
open List

def maxIndexed : Nat := 2000

/-- What is known about a message that was shown. -/
structure Entry where
  conversation : String
  /-- Who wrote it: a nickname in a room, an address in a chat. -/
  author : String
  /-- The id the user interface was given for it. -/
  msgid : String
  /-- The id its sender put on it, which a correction refers to. -/
  origin : Option String := none
  mine : Bool := false
  deriving Repr, DecidableEq

/-! ## Where messages are found -/

/-- Sequence numbers, by conversation and then by id. -/
abbrev Found := Map String (Map String (List Nat))

namespace Found
variable {found : Found}

/-- What is filed under `id` in `conversation`, oldest first. -/
def seqs (found : Found) (conversation id : String) : List Nat :=
  ((found.lookup conversation).bind (·.lookup id)).getD []

def file (found : Found) (conversation id : String) (seq : Nat) : Found :=
  let ids := (found.lookup conversation).getD ∅
  found.insert conversation (ids.insert id ((ids.lookup id).getD [] ++ [seq]))

/-- `seqs.retain` in the ids of one conversation; an empty list is not kept. -/
def dropSeq (ids : Map String (List Nat)) (id : String) (seq : Nat) : Map String (List Nat) :=
  match ids.lookup id with
  | none => ids
  | some seqs =>
    let seqs := seqs.filter (· ≠ seq)
    if seqs.isEmpty then ids.erase id else ids.insert id seqs

def unfile (found : Found) (conversation id : String) (seq : Nat) : Found :=
  match found.lookup conversation with
  | none => found
  | some ids =>
    let ids := dropSeq ids id seq
    if ids.entries.isEmpty then found.erase conversation else found.insert conversation ids

theorem seqs_file :
    seqs (file found c i seq) c' i' =
      if c' = c ∧ i' = i then seqs found c i ++ [seq] else seqs found c' i' := by
  unfold seqs file
  rw [Map.lookup_insert]
  by_cases hc : c' = c
  · subst hc
    simp only [if_true, true_and, Option.bind_some]
    rw [Map.lookup_insert]
    by_cases hi : i' = i
    · subst hi
      cases found.lookup c' <;> simp
    · simp only [if_neg hi]
      cases found.lookup c' <;> simp
  · simp [hc]

theorem lookup_dropSeq (ids : Map String (List Nat)) (i : String) (seq : Nat) (i' : String) :
    ((dropSeq ids i seq).lookup i').getD [] =
      if i' = i then ((ids.lookup i).getD []).filter (· ≠ seq) else (ids.lookup i').getD [] := by
  unfold dropSeq
  split
  next h =>
    split
    next hi => subst hi; simp [h]
    · rfl
  next l h =>
    rw [h]
    dsimp only [Option.getD_some]
    split
    next hempty =>
      rw [Map.lookup_erase]
      split
      · rw [isEmpty_iff.1 hempty]; rfl
      · rfl
    · rw [Map.lookup_insert]
      split <;> rfl

theorem seqs_unfile :
    seqs (unfile found c i seq) c' i' =
      if c' = c ∧ i' = i then (seqs found c i).filter (· ≠ seq) else seqs found c' i' := by
  by_cases hc : c' = c
  · subst hc
    simp only [true_and]
    unfold seqs unfile
    split
    next h => split <;> simp [h]
    next ids h =>
      have hdrop := lookup_dropSeq ids i seq i'
      rw [h]
      dsimp only [Option.bind_some]
      rw [← hdrop]
      split
      next hempty =>
        -- nothing is left in the conversation, so nothing is filed under `i'`
        rw [Map.lookup_erase, if_pos rfl]
        have hnil : dropSeq ids i seq = ∅ := AList.ext (isEmpty_iff.1 hempty)
        rw [hnil]
        rfl
      · rw [Map.lookup_insert, if_pos rfl]
        rfl
  · simp only [hc, false_and, if_false]
    unfold seqs unfile
    split
    · rfl
    next ids h =>
      dsimp only
      split
      · rw [Map.lookup_erase, if_neg hc]
      · rw [Map.lookup_insert, if_neg hc]

theorem mem_seqs_file :
    s ∈ seqs (file found c i seq) c' i' ↔ s ∈ seqs found c' i' ∨ (s = seq ∧ c = c' ∧ i = i') := by
  rw [seqs_file]
  split
  next h =>
    obtain ⟨rfl, rfl⟩ := h
    simp
  next h =>
    constructor
    · exact .inl
    · rintro (hs | ⟨-, rfl, rfl⟩)
      · exact hs
      · exact absurd ⟨rfl, rfl⟩ h

theorem mem_seqs_unfile :
    s ∈ seqs (unfile found c i seq) c' i' ↔ s ∈ seqs found c' i' ∧
      ¬(s = seq ∧ c = c' ∧ i = i') := by
  rw [seqs_unfile]
  split
  next h =>
    obtain ⟨rfl, rfl⟩ := h
    simp
  next h =>
    constructor
    · exact fun hs => ⟨hs, fun ⟨_, hc, hi⟩ => h ⟨hc.symm, hi.symm⟩⟩
    · exact And.left

theorem seqs_unfile_sublist (found : Found) (c i : String) (seq : Nat) (c' i' : String) :
    (seqs (unfile found c i seq) c' i').Sublist (seqs found c' i') := by
  rw [seqs_unfile]
  split
  next h =>
    obtain ⟨rfl, rfl⟩ := h
    exact filter_sublist
  · exact .refl _

end Found

/-! ## The queue -/

/-- The recent messages. A slot is emptied when its message is taken out of the middle. -/
structure MessageIndex where
  slots : List (Option Entry) := []
  /-- The sequence number of the first slot. -/
  first : Nat := 0
  byId : Found := ∅
  byOrigin : Found := ∅

namespace MessageIndex
variable {i : MessageIndex}

def entryAt (i : MessageIndex) (seq : Nat) : Option Entry :=
  if i.first ≤ seq then i.slots[seq - i.first]?.join else none

/-- The entries filed under `id` in `conversation`, newest first. -/
def candidates (i : MessageIndex) (found : Found) (conversation id : String) : List Entry :=
  (found.seqs conversation id).reverse.filterMap i.entryAt

/-- Take an entry out of the maps. The queue keeps its place. -/
def unfileEntry (i : MessageIndex) (seq : Nat) (e : Entry) : MessageIndex :=
  { i with
    byId := i.byId.unfile e.conversation e.msgid seq
    byOrigin := match e.origin with
      | some origin => i.byOrigin.unfile e.conversation origin seq
      | none => i.byOrigin }

/-- Take every entry that `gone` names out of the maps. -/
def unfileWhere (gone : Entry → Bool) (i : MessageIndex) : List (Option Entry × Nat) → MessageIndex
  | [] => i
  | (some e, seq) :: rest => unfileWhere gone (if gone e then i.unfileEntry seq e else i) rest
  | (none, _) :: rest => unfileWhere gone i rest

def trimFront (i : MessageIndex) : MessageIndex :=
  { i with
    slots := i.slots.dropWhile Option.isNone
    first := i.first + (i.slots.takeWhile Option.isNone).length }

/-- Drop every entry `gone` names, wherever it is in the queue. -/
def removeWhere (i : MessageIndex) (gone : Entry → Bool) : MessageIndex :=
  trimFront { unfileWhere gone i (i.slots.zipIdx i.first) with
    slots := i.slots.map (Option.filter fun e => !gone e) }

def evict (i : MessageIndex) : MessageIndex :=
  match i.slots with
  | [] => i
  | some old :: rest => { i.unfileEntry i.first old with slots := rest, first := i.first + 1 }
  | none :: rest => { i with slots := rest, first := i.first + 1 }

def push (i : MessageIndex) (e : Entry) : MessageIndex :=
  let seq := i.first + i.slots.length
  { i with
    byId := i.byId.file e.conversation e.msgid seq
    byOrigin := match e.origin with
      | some origin => i.byOrigin.file e.conversation origin seq
      | none => i.byOrigin
    slots := i.slots ++ [some e] }

/-- Remember a message that was shown, unless its author's message with that id is remembered. -/
def record (i : MessageIndex) (e : Entry) : MessageIndex :=
  if (i.candidates i.byId e.conversation e.msgid).any (·.author == e.author) then i
  else (evict^[i.slots.length + 1 - maxIndexed] i).push e

def contains (i : MessageIndex) (conversation msgid : String) : Bool :=
  (i.candidates i.byId conversation msgid).head?.isSome

/-- The message a correction from `author` refers to. -/
def forCorrection (i : MessageIndex) (conversation origin author : String) : Option Entry :=
  (i.candidates i.byOrigin conversation origin).find? (·.author == author)

/-- The message a retraction from `author` refers to, by either id. -/
def forRetraction (i : MessageIndex) (conversation id author : String) : Option Entry :=
  (i.candidates i.byId conversation id ++ i.candidates i.byOrigin conversation id).find?
    (·.author == author)

/-- One of our own messages, by the id the user interface knows it by. -/
def ours (i : MessageIndex) (conversation msgid : String) : Option Entry :=
  (i.candidates i.byId conversation msgid).find? (·.mine)

def forgetAuthor (i : MessageIndex) (conversation author : String) : MessageIndex :=
  i.removeWhere fun e => e.conversation == conversation && e.author == author

def forgetConversation (i : MessageIndex) (conversation : String) : MessageIndex :=
  i.removeWhere fun e => e.conversation == conversation

/-- `forget_conversation_prefix`: forget every conversation whose name begins with `start`. -/
def forgetConversations (i : MessageIndex) (start : String) : MessageIndex :=
  i.removeWhere fun e => Str.startsWithStr e.conversation start

/-- Carry an author's messages over to a new name. -/
def renameAuthor (i : MessageIndex) (conversation old new : String) : MessageIndex :=
  { i with slots := i.slots.map (Option.map fun e =>
      if e.conversation = conversation ∧ e.author = old then { e with author := new } else e) }

/-- Forget a message, once it has been retracted. -/
def forget (i : MessageIndex) (conversation msgid : String) : MessageIndex :=
  i.removeWhere fun e => e.conversation == conversation && e.msgid == msgid

/-! ## The queue by number -/

theorem entryAt_eq_some :
    i.entryAt seq = some e ↔ i.first ≤ seq ∧ i.slots[seq - i.first]? = some (some e) := by
  unfold entryAt
  split
  next h => simp [h, Option.join_eq_some_iff]
  next h => simp [h]

/-- The slots, each with its number, are what the queue reads. -/
theorem mem_zipIdx_iff : (some e, seq) ∈ i.slots.zipIdx i.first ↔ i.entryAt seq = some e := by
  rw [mk_mem_zipIdx_iff_le_and_getElem?_sub, entryAt_eq_some]

theorem entryAt_trimFront :
    i.trimFront.entryAt seq = i.entryAt seq := by
  have hsplit := takeWhile_append_dropWhile (p := Option.isNone) (l := i.slots)
  have hempty : ∀ o ∈ i.slots.takeWhile Option.isNone, o = none := fun o ho =>
    Option.isNone_iff_eq_none.1 (mem_takeWhile_imp ho)
  have hread : ∀ n, i.slots[n]? = if n < (i.slots.takeWhile Option.isNone).length then some none
      else (i.slots.dropWhile Option.isNone)[n - (i.slots.takeWhile Option.isNone).length]? := by
    intro n
    conv_lhs => rw [← hsplit]
    rw [getElem?_append]
    split
    next h => rw [getElem?_eq_getElem h, hempty _ (getElem_mem h)]
    · rfl
  unfold entryAt trimFront
  dsimp only
  rw [hread (seq - i.first)]
  split
  next h =>
    rw [if_pos (by omega), if_neg (by omega), ← Nat.sub_sub]
  next h =>
    split
    next hfirst => rw [if_pos (by omega)]; rfl
    · rfl

theorem unfileWhere_slots (gone : Entry → Bool) (i : MessageIndex) (l : List (Option Entry × Nat)) :
    (unfileWhere gone i l).slots = i.slots ∧ (unfileWhere gone i l).first = i.first := by
  fun_induction unfileWhere gone i l with
  | case1 => exact ⟨rfl, rfl⟩
  | case2 i e seq rest ih =>
    by_cases hgone : gone e
    · rw [if_pos hgone] at ih ⊢
      exact ih
    · rw [if_neg hgone] at ih ⊢
      exact ih
  | case3 i seq rest ih => exact ih

theorem entryAt_removeWhere (i : MessageIndex) (gone : Entry → Bool) (seq : Nat) :
    (i.removeWhere gone).entryAt seq = (i.entryAt seq).filter fun e => !gone e := by
  unfold removeWhere
  rw [entryAt_trimFront]
  unfold entryAt
  rw [(unfileWhere_slots ..).2]
  split
  · rw [getElem?_map]
    cases i.slots[seq - i.first]? <;> rfl
  · rfl

theorem entryAt_renameAuthor :
    (i.renameAuthor conversation old new).entryAt seq = (i.entryAt seq).map fun e =>
      if e.conversation = conversation ∧ e.author = old then { e with author := new } else e := by
  unfold entryAt renameAuthor
  split
  · rw [getElem?_map]
    cases i.slots[seq - i.first]? <;> rfl
  · rfl

/-- The number of the next entry has no entry yet. -/
theorem lt_of_entryAt (h : i.entryAt seq = some e) : seq < i.first + i.slots.length := by
  obtain ⟨hle, hslot⟩ := entryAt_eq_some.1 h
  have := (List.getElem?_eq_some_iff.1 hslot).1
  omega

theorem entryAt_push (i : MessageIndex) (e : Entry) (seq : Nat) :
    (i.push e).entryAt seq =
      if seq = i.first + i.slots.length then some e else i.entryAt seq := by
  unfold entryAt push
  dsimp only
  rw [getElem?_append]
  split
  next hle =>
    split
    next h => rw [if_neg (by omega)]
    next h =>
      split
      next heq => simp [heq]
      next hne =>
        rw [getElem?_eq_none (by simp; omega), getElem?_eq_none (by omega)]
  next h => rw [if_neg (by omega)]

theorem entryAt_evict (i : MessageIndex) (seq : Nat) :
    i.evict.entryAt seq = if seq = i.first then none else i.entryAt seq := by
  have key : ∀ (j : MessageIndex) slot rest, i.slots = slot :: rest → j.slots = rest →
      j.first = i.first + 1 →
      j.entryAt seq = if seq = i.first then none else i.entryAt seq := by
    intro j slot rest hi hj hfirst
    unfold entryAt
    rw [hi, hj, hfirst]
    split
    next h =>
      rw [if_neg (by omega), if_pos (by omega),
        show seq - i.first = seq - (i.first + 1) + 1 by omega]
      rfl
    next h =>
      split
      · rfl
      · rw [if_neg (by omega)]
  unfold evict
  split
  next h =>
    simp [entryAt, h]
  next old rest h => exact key _ _ rest h rfl rfl
  next rest h => exact key _ _ rest h rfl rfl

/-! ## The maps mirror the queue -/

/-- `found` lists exactly the numbers of the entries that have an id, `key`, in ascending order. -/
structure Mirrors (i : MessageIndex) (found : Found) (key : Entry → Option String) : Prop where
  asc : ∀ c k, (found.seqs c k).Pairwise (· < ·)
  mem : ∀ c k s, s ∈ found.seqs c k ↔ ∃ e, i.entryAt s = some e ∧ e.conversation = c ∧
    key e = some k

/-- Both maps mirror the queue, which is bounded. -/
structure Filed (i : MessageIndex) : Prop where
  byId : i.Mirrors i.byId (some ·.msgid)
  byOrigin : i.Mirrors i.byOrigin (·.origin)
  bound : i.slots.length ≤ maxIndexed

/-- What `unfileEntry` does to the map by `key`. -/
structure Unfiles (map : MessageIndex → Found) (key : Entry → Option String) : Prop where
  sub : ∀ i seq e c k, ((map (i.unfileEntry seq e)).seqs c k).Sublist ((map i).seqs c k)
  mem : ∀ i seq e c k s, s ∈ (map (i.unfileEntry seq e)).seqs c k ↔
    s ∈ (map i).seqs c k ∧ ¬(s = seq ∧ e.conversation = c ∧ key e = some k)

theorem unfiles_byId : Unfiles byId (some ·.msgid) where
  sub i seq e c k := Found.seqs_unfile_sublist ..
  mem i seq e c k s := by
    simp only [Option.some.injEq]
    exact Found.mem_seqs_unfile

theorem unfiles_byOrigin : Unfiles byOrigin (·.origin) where
  sub i seq e c k := by
    unfold unfileEntry
    dsimp only
    split
    · exact Found.seqs_unfile_sublist ..
    · exact .refl _
  mem i seq e c k s := by
    unfold unfileEntry
    dsimp only
    split
    next origin h => simp only [Found.mem_seqs_unfile, h, Option.some.injEq]
    next h => simp [h]

section
variable {map : MessageIndex → Found} {key : Entry → Option String}
variable {i j : MessageIndex} {found : Found}

theorem Unfiles.mem_unfileWhere (h : Unfiles map key) :
    s ∈ (map (unfileWhere gone i l)).seqs c k ↔ s ∈ (map i).seqs c k ∧
      ∀ e, (some e, s) ∈ l → gone e → ¬(e.conversation = c ∧ key e = some k) := by
  fun_induction unfileWhere gone i l with
  | case1 => simp
  | case2 i e seq rest ih =>
    by_cases hgone : gone e
    · rw [if_pos hgone] at ih ⊢
      rw [ih, h.mem, and_assoc]
      refine and_congr_right fun _ => ?_
      constructor
      · rintro ⟨hne, hrest⟩ e' he'
        rcases mem_cons.1 he' with heq | hmem
        · cases heq
          exact fun _ hkey => hne ⟨rfl, hkey⟩
        · exact hrest e' hmem
      · intro hall
        exact ⟨fun ⟨hs, hkey⟩ => hall e (hs ▸ mem_cons_self) hgone hkey,
          fun e' he' => hall e' (mem_cons_of_mem _ he')⟩
    · rw [if_neg hgone] at ih ⊢
      rw [ih]
      refine and_congr_right fun _ => forall_congr' fun e' => ?_
      constructor
      · intro hall he' hg
        rcases mem_cons.1 he' with heq | hmem
        · cases heq
          exact absurd hg hgone
        · exact hall hmem hg
      · exact fun hall he' => hall (mem_cons_of_mem _ he')
  | case3 i seq rest ih => simpa using ih

theorem Unfiles.unfileWhere_sublist (h : Unfiles map key) (gone : Entry → Bool) (i : MessageIndex)
    (l : List (Option Entry × Nat)) (c k : String) :
    ((map (unfileWhere gone i l)).seqs c k).Sublist ((map i).seqs c k) := by
  fun_induction unfileWhere gone i l with
  | case1 => exact .refl _
  | case2 i e seq rest ih =>
    by_cases hgone : gone e
    · rw [if_pos hgone] at ih ⊢
      exact ih.trans (h.sub ..)
    · rw [if_neg hgone] at ih ⊢
      exact ih
  | case3 i seq rest ih => exact ih

theorem Mirrors.removeWhere (h : i.Mirrors (map i) key) (hmap : Unfiles map key)
    (htrim : ∀ j : MessageIndex, ∀ slots first, map { j with slots, first } = map j)
    (gone : Entry → Bool) : (i.removeWhere gone).Mirrors (map (i.removeWhere gone)) key := by
  have hmaps : map (i.removeWhere gone) = map (unfileWhere gone i (i.slots.zipIdx i.first)) := by
    unfold MessageIndex.removeWhere trimFront
    rw [htrim]
    exact htrim _ _ (unfileWhere gone i (i.slots.zipIdx i.first)).first
  rw [hmaps]
  refine ⟨fun c k => (h.asc c k).sublist (hmap.unfileWhere_sublist ..), fun c k s => ?_⟩
  rw [hmap.mem_unfileWhere, h.mem, entryAt_removeWhere]
  constructor
  · rintro ⟨⟨e, he, hkey⟩, hgone⟩
    refine ⟨e, ?_, hkey⟩
    rw [he, Option.filter_some]
    by_contra hg
    exact hgone e (mem_zipIdx_iff.2 he) (by simpa using hg) hkey
  · rintro ⟨e, he, hkey⟩
    obtain ⟨he, hg⟩ := Option.filter_eq_some_iff.1 he
    refine ⟨⟨e, he, hkey⟩, fun e' he' hg' _ => ?_⟩
    cases (mem_zipIdx_iff.1 he').symm.trans he
    simp [hg'] at hg

theorem Mirrors.unfileEntry (h : i.Mirrors (map i) key) (hmap : Unfiles map key)
    (he : i.entryAt seq = some e) (hj : ∀ s, j.entryAt s = if s = seq then none else i.entryAt s) :
    j.Mirrors (map (i.unfileEntry seq e)) key := by
  refine ⟨fun c k => (h.asc c k).sublist (hmap.sub ..), fun c k s => ?_⟩
  rw [hmap.mem, h.mem, hj]
  split
  next hs =>
    subst hs
    simp only [he, Option.some.injEq, true_and, exists_eq_left', reduceCtorEq, false_and,
      exists_false, and_not_self_iff]
  next hs => simp [hs]

theorem Mirrors.file (h : i.Mirrors found key) (hkey : key e = some k)
    (hlt : ∀ s e, i.entryAt s = some e → s < seq)
    (hj : ∀ s, j.entryAt s = if s = seq then some e else i.entryAt s) :
    j.Mirrors (found.file e.conversation k seq) key := by
  refine ⟨fun c k' => ?_, fun c k' s => ?_⟩
  · rw [Found.seqs_file]
    split
    next hc =>
      refine pairwise_append.2 ⟨h.asc .., pairwise_singleton .., fun s hs t ht => ?_⟩
      rw [mem_singleton.1 ht]
      obtain ⟨e', he', -⟩ := (h.mem ..).1 hs
      exact hlt s e' he'
    · exact h.asc ..
  · rw [Found.mem_seqs_file, h.mem, hj]
    split
    next hs =>
      subst hs
      have hnone : i.entryAt s = none := by
        cases hs : i.entryAt s with
        | none => rfl
        | some e' => exact absurd (hlt s e' hs) (Nat.lt_irrefl _)
      simp [hnone, hkey]
    next hs => simp [hs]

theorem Mirrors.skip (h : i.Mirrors found key) (hkey : key e = none)
    (hlt : ∀ s e, i.entryAt s = some e → s < seq)
    (hj : ∀ s, j.entryAt s = if s = seq then some e else i.entryAt s) : j.Mirrors found key := by
  refine ⟨h.asc, fun c k s => ?_⟩
  rw [h.mem, hj]
  split
  next hs =>
    subst hs
    have hnone : ∀ e', i.entryAt s ≠ some e' := fun e' he' => Nat.lt_irrefl _ (hlt s e' he')
    simp [hnone, hkey]
  · rfl

theorem Mirrors.renameAuthor (h : i.Mirrors found key)
    (hkey : ∀ e author, key { e with author } = key e) :
    (i.renameAuthor conversation old new).Mirrors found key := by
  refine ⟨h.asc, fun c k s => ?_⟩
  rw [h.mem, entryAt_renameAuthor]
  cases i.entryAt s with
  | none => simp
  | some e =>
    simp only [Option.some.injEq, exists_eq_left', Option.map_some]
    split
    · simp only [hkey]
    · rfl

end

theorem Filed.empty : Filed {} where
  byId := ⟨fun c k => .nil, fun c k s => by simp [Found.seqs, entryAt]⟩
  byOrigin := ⟨fun c k => .nil, fun c k s => by simp [Found.seqs, entryAt]⟩
  bound := Nat.zero_le _

theorem Filed.removeWhere (h : i.Filed) (gone : Entry → Bool) : (i.removeWhere gone).Filed where
  byId := h.byId.removeWhere unfiles_byId (fun _ _ _ => rfl) gone
  byOrigin := h.byOrigin.removeWhere unfiles_byOrigin (fun _ _ _ => rfl) gone
  bound := by
    have hle := (dropWhile_sublist (p := Option.isNone)
      (l := i.slots.map (Option.filter fun e => !gone e))).length_le
    rw [length_map] at hle
    exact Nat.le_trans hle h.bound

theorem Filed.renameAuthor (h : i.Filed) (conversation old new : String) :
    (i.renameAuthor conversation old new).Filed where
  byId := h.byId.renameAuthor fun _ _ => rfl
  byOrigin := h.byOrigin.renameAuthor fun _ _ => rfl
  bound := by
    unfold MessageIndex.renameAuthor
    rw [length_map]
    exact h.bound

theorem evict_first (h : i.slots.head?.join = some e) : i.evict.first = i.first + 1 := by
  unfold evict
  split
  next hslots => simp [hslots] at h
  · rfl
  · rfl

theorem length_evict : i.evict.slots.length = i.slots.length - 1 := by
  unfold evict
  split
  next h => simp [h]
  next h => simp [h]
  next h => simp [h]

theorem Filed.evict (h : i.Filed) : i.evict.Filed := by
  have hbound : i.evict.slots.length ≤ maxIndexed := by
    rw [length_evict]
    exact Nat.le_trans (Nat.sub_le ..) h.bound
  have hentry := entryAt_evict i
  unfold MessageIndex.evict at hentry ⊢
  split at hentry
  next => exact h
  next old rest hslots =>
    have hbound : rest.length ≤ maxIndexed := by rw [length_evict, hslots] at hbound; exact hbound
    have hold : i.entryAt i.first = some old := entryAt_eq_some.2 ⟨Nat.le_refl _, by simp [hslots]⟩
    exact ⟨h.byId.unfileEntry unfiles_byId hold hentry,
      h.byOrigin.unfileEntry unfiles_byOrigin hold hentry, hbound⟩
  next rest hslots =>
    have hbound : rest.length ≤ maxIndexed := by rw [length_evict, hslots] at hbound; exact hbound
    have hold : i.entryAt i.first = none := by simp [entryAt, hslots]
    have hsame : ∀ s, i.entryAt s = if s = i.first then none else i.entryAt s := by
      intro s
      split
      next hs => rw [hs, hold]
      · rfl
    refine ⟨⟨h.byId.asc, fun c k s => ?_⟩, ⟨h.byOrigin.asc, fun c k s => ?_⟩, hbound⟩
    · rw [hentry, ← hsame]
      exact h.byId.mem c k s
    · rw [hentry, ← hsame]
      exact h.byOrigin.mem c k s

theorem Filed.push (h : i.Filed) (hroom : i.slots.length < maxIndexed)
    (e : Entry) : (i.push e).Filed where
  byId := h.byId.file rfl (fun _ _ => lt_of_entryAt) (entryAt_push i e)
  byOrigin := by
    have hmirrors : (i.push e).Mirrors (match e.origin with
        | some origin => i.byOrigin.file e.conversation origin (i.first + i.slots.length)
        | none => i.byOrigin) (·.origin) := by
      split
      next origin ho => exact h.byOrigin.file ho (fun _ _ => lt_of_entryAt) (entryAt_push i e)
      next ho => exact h.byOrigin.skip ho (fun _ _ => lt_of_entryAt) (entryAt_push i e)
    exact hmirrors
  bound := by
    unfold MessageIndex.push
    rw [length_append]
    exact hroom

theorem Filed.evicts (h : i.Filed) (n : Nat) : (MessageIndex.evict^[n] i).Filed := by
  induction n generalizing i with
  | zero => exact h
  | succ n ih => exact ih h.evict

theorem length_evicts :
    (MessageIndex.evict^[n] i).slots.length = i.slots.length - n := by
  induction n generalizing i with
  | zero => rfl
  | succ n ih => rw [Function.iterate_succ_apply, ih, length_evict, Nat.sub_sub, Nat.add_comm 1]

theorem Filed.record (h : i.Filed) (e : Entry) : (i.record e).Filed := by
  unfold MessageIndex.record
  split
  · exact h
  · refine (h.evicts _).push ?_ e
    rw [length_evicts, maxIndexed]
    omega

/-! ## Newest first -/

def entries (i : MessageIndex) : List Entry := i.slots.filterMap id

theorem map_entryAt_range (i : MessageIndex) :
    (range' i.first i.slots.length).map i.entryAt = i.slots := by
  apply ext_getElem (by simp)
  intro n h _
  simp only [getElem_map, getElem_range', Nat.one_mul]
  have hn : n < i.slots.length := by simpa using h
  rw [entryAt, if_pos (Nat.le_add_right ..), Nat.add_sub_cancel_left, getElem?_eq_getElem hn]
  rfl

/-- What is found under an id is what a scan of the queue, newest first, would find. -/
theorem Mirrors.candidates_eq (h : i.Mirrors found key) : i.candidates found c k =
      (i.entries.filter fun e => e.conversation = c ∧ key e = some k).reverse := by
  have hseqs : found.seqs c k = (range' i.first i.slots.length).filter fun s =>
      (i.entryAt s).any fun e => e.conversation = c ∧ key e = some k := by
    refine (h.asc c k).eq_of_mem_iff ((pairwise_lt_range' 1).filter _) fun s => ?_
    rw [h.mem, mem_filter, mem_range'_1, Option.any_eq_true]
    constructor
    · rintro ⟨e, he, hkey⟩
      exact ⟨⟨(entryAt_eq_some.1 he).1, lt_of_entryAt he⟩, e, he, by simpa using hkey⟩
    · rintro ⟨-, e, he, hkey⟩
      exact ⟨e, he, by simpa using hkey⟩
  unfold candidates entries
  rw [filterMap_reverse, hseqs, filterMap_filter]
  conv_rhs => rw [← map_entryAt_range i, filterMap_map, filter_filterMap]
  congr 2
  funext s
  simp only [Function.comp_apply]
  cases i.entryAt s with
  | none => rfl
  | some e => rfl

theorem mem_entries : e ∈ i.entries ↔ ∃ seq, i.entryAt seq = some e := by
  unfold entries
  rw [mem_filterMap]
  constructor
  · rintro ⟨o, ho, rfl⟩
    obtain ⟨n, hn⟩ := mem_iff_getElem?.1 ho
    exact ⟨i.first + n, entryAt_eq_some.2 ⟨Nat.le_add_right .., by rwa [Nat.add_sub_cancel_left]⟩⟩
  · rintro ⟨seq, h⟩
    exact ⟨some e, mem_of_getElem? (entryAt_eq_some.1 h).2, rfl⟩

theorem entryAt_first (i : MessageIndex) : i.entryAt i.first = i.slots.head?.join := by
  rw [entryAt, if_pos (Nat.le_refl _), Nat.sub_self, head?_eq_getElem?]

theorem entries_removeWhere :
    (i.removeWhere gone).entries = i.entries.filter fun e => !gone e := by
  have hdrop : ∀ l : List (Option Entry),
      (l.dropWhile Option.isNone).filterMap id = l.filterMap id := by
    intro l
    induction l with
    | nil => rfl
    | cons o l ih =>
      cases o with
      | none => rw [dropWhile_cons_of_pos rfl, ih, filterMap_cons_none rfl]
      | some e => rw [dropWhile_cons_of_neg (by simp)]
  unfold removeWhere trimFront entries
  rw [hdrop, filterMap_map, filter_filterMap]
  rfl

theorem entries_renameAuthor :
    (i.renameAuthor conversation old new).entries = i.entries.map fun e =>
      if e.conversation = conversation ∧ e.author = old then { e with author := new } else e := by
  unfold renameAuthor entries
  rw [filterMap_map, map_filterMap]
  rfl

theorem entries_push : (i.push e).entries = i.entries ++ [e] := by
  unfold push entries
  rw [filterMap_append]
  rfl

/-- The oldest slot is dropped, and the entry in it. -/
theorem entries_evict (i : MessageIndex) :
    i.entries = i.slots.head?.join.toList ++ i.evict.entries := by
  unfold evict entries
  split
  next h => simp [h]
  next h => simp [h]
  next h => simp [h]

theorem entries_evicts_sublist (i : MessageIndex) (n : Nat) :
    (MessageIndex.evict^[n] i).entries.Sublist i.entries := by
  induction n generalizing i with
  | zero => exact .refl _
  | succ n ih =>
    refine (ih i.evict).trans ?_
    rw [entries_evict i]
    exact sublist_append_right ..

end MessageIndex

/-! ## Indexes whose maps mirror their queue -/

/-- An index, with its maps in order. -/
structure Index where
  queue : MessageIndex
  filed : queue.Filed

namespace Index
variable {i : Index}

def empty : Index := ⟨{}, .empty⟩

def entries (i : Index) : List Entry := i.queue.entries

def record (i : Index) (e : Entry) : Index := ⟨i.queue.record e, i.filed.record e⟩

def contains (i : Index) (conversation msgid : String) : Bool := i.queue.contains conversation msgid

def forCorrection (i : Index) (conversation origin author : String) : Option Entry :=
  i.queue.forCorrection conversation origin author

def forRetraction (i : Index) (conversation id author : String) : Option Entry :=
  i.queue.forRetraction conversation id author

def ours (i : Index) (conversation msgid : String) : Option Entry := i.queue.ours conversation msgid

def forgetAuthor (i : Index) (conversation author : String) : Index :=
  ⟨i.queue.forgetAuthor conversation author, i.filed.removeWhere _⟩

def forgetConversation (i : Index) (conversation : String) : Index :=
  ⟨i.queue.forgetConversation conversation, i.filed.removeWhere _⟩

def forgetConversations (i : Index) (start : String) : Index :=
  ⟨i.queue.forgetConversations start, i.filed.removeWhere _⟩

def renameAuthor (i : Index) (conversation old new : String) : Index :=
  ⟨i.queue.renameAuthor conversation old new, i.filed.renameAuthor ..⟩

def forget (i : Index) (conversation msgid : String) : Index :=
  ⟨i.queue.forget conversation msgid, i.filed.removeWhere _⟩

/-- The index remembers `e`. -/
instance : Membership Entry Index := ⟨fun i e => e ∈ i.entries⟩

theorem mem_iff : e ∈ i ↔ e ∈ i.entries := Iff.rfl

theorem not_mem_empty : e ∉ empty := not_mem_nil

theorem mem_removeWhere {i : MessageIndex} {gone : Entry → Bool} :
    e ∈ (i.removeWhere gone).entries ↔ e ∈ i.entries ∧ gone e = false := by
  rw [MessageIndex.entries_removeWhere, mem_filter, Bool.not_eq_true']

theorem mem_forgetAuthor : e ∈ i.forgetAuthor c a ↔ e ∈ i ∧ ¬(e.conversation = c ∧ e.author = a) :=
  mem_removeWhere.trans (and_congr_right fun _ => by simp)

theorem mem_forgetConversation : e ∈ i.forgetConversation c ↔ e ∈ i ∧ e.conversation ≠ c :=
  mem_removeWhere.trans (and_congr_right fun _ => by simp)

theorem mem_forgetConversations :
    e ∈ i.forgetConversations c ↔ e ∈ i ∧ Str.startsWithStr e.conversation c = false :=
  mem_removeWhere

theorem mem_forget : e ∈ i.forget c m ↔ e ∈ i ∧ ¬(e.conversation = c ∧ e.msgid = m) :=
  mem_removeWhere.trans (and_congr_right fun _ => by simp)

theorem mem_renameAuthor : e ∈ i.renameAuthor c old new ↔
    ∃ e' ∈ i, (if e'.conversation = c ∧ e'.author = old then { e' with author := new } else e') =
      e := by
  change e ∈ (i.queue.renameAuthor c old new).entries ↔ _
  rw [MessageIndex.entries_renameAuthor, mem_map]
  rfl

theorem mem_record (h : e ∈ i.record e') : e = e' ∨ e ∈ i := by
  change e ∈ (i.queue.record e').entries at h
  unfold MessageIndex.record at h
  split at h
  · exact .inr h
  · rw [MessageIndex.entries_push] at h
    rcases mem_append.1 h with h | h
    · exact .inr ((MessageIndex.entries_evicts_sublist ..).subset h)
    · exact .inl (mem_singleton.1 h)

/-- A correction finds a message of its author in its conversation. -/
theorem forCorrection_some (h : i.forCorrection c o a = some e) :
    e ∈ i ∧ e.conversation = c ∧ e.author = a ∧ e.origin = some o := by
  unfold forCorrection MessageIndex.forCorrection at h
  rw [i.filed.byOrigin.candidates_eq] at h
  have ha := find?_some h
  have hmem := mem_filter.1 (mem_reverse.1 (mem_of_find?_eq_some h))
  obtain ⟨hc, ho⟩ := of_decide_eq_true hmem.2
  exact ⟨hmem.1, hc, by simpa using ha, ho⟩

theorem forRetraction_some (h : i.forRetraction c m a = some e) :
    e ∈ i ∧ e.conversation = c ∧ e.author = a ∧ (e.msgid = m ∨ e.origin = some m) := by
  unfold forRetraction MessageIndex.forRetraction at h
  rw [i.filed.byId.candidates_eq, i.filed.byOrigin.candidates_eq] at h
  have ha : e.author = a := by simpa using find?_some h
  rcases mem_append.1 (mem_of_find?_eq_some h) with hmem | hmem
  · obtain ⟨hi, hmem⟩ := mem_filter.1 (mem_reverse.1 hmem)
    obtain ⟨hc, hm⟩ := of_decide_eq_true hmem
    exact ⟨hi, hc, ha, .inl (Option.some.inj hm)⟩
  · obtain ⟨hi, hmem⟩ := mem_filter.1 (mem_reverse.1 hmem)
    obtain ⟨hc, hm⟩ := of_decide_eq_true hmem
    exact ⟨hi, hc, ha, .inr hm⟩

end Index
end Ddirc.Xmpp
