import Ddirc.Lib.Container

/-! # What cleaning a file gives

`media/mod.rs`, the types that the cleaners of the four formats share. -/

namespace Ddirc.Media

inductive MediaKind where
  | jpeg
  | png
  | gif
  | webp
  deriving Repr, DecidableEq

def MediaKind.asStr : MediaKind → String
  | .jpeg => "JPEG"
  | .png => "PNG"
  | .gif => "GIF"
  | .webp => "WebP"

structure Removed where
  what : String
  /-- How much of the file it occupied, including its own framing. -/
  bytes : Nat
  deriving Repr, DecidableEq

structure Stripped where
  kind : MediaKind
  bytes : List UInt8
  /-- Everything removed, in the order it appeared. -/
  removed : List Removed
  deriving Repr, DecidableEq

inductive StripError where
  | empty
  | unsupported
  | malformed (kind detail : String)
  deriving Repr, DecidableEq

/-- The bytes of an ASCII literal. -/
def ascii (s : String) : List UInt8 := s.toList.map fun c => UInt8.ofNat c.toNat

/-- `usize::checked_add`, with 64 bits. -/
def checkedAdd (a b : Nat) : Option Nat := if a + b < 2 ^ 64 then some (a + b) else none

/-- The report of what follows the end of an image. -/
def afterEnd (tail : List UInt8) : List Removed :=
  if tail.isEmpty then []
  else [{ what := "data after the end of the image", bytes := tail.length }]

theorem sum_afterEnd : ((afterEnd tail).map (·.bytes)).sum = tail.length := by
  unfold afterEnd
  split
  next h => simp [List.isEmpty_iff.1 h]
  · simp

/-! ## Formats -/

/-- A grammar together with the rule for what in it is metadata. Elements that stay may be
rewritten; `slack` counts the bytes of an element that are neither kept nor reported. -/
structure Format (E : Type) extends Grammar E UInt8 where
  /-- What an element is called, if it is metadata. -/
  describe : E → Option String
  /-- How an element that stays is written. -/
  rewrite : E → E := id
  slack : E → Nat := fun _ => 0
  /-- Whether what follows the end is cut off. -/
  cuts : Bool
  /-- Whether a file without an element that closes it is refused. -/
  mustClose : Bool
  describe_closes : ∀ e, closes e = true → describe e = none
  closes_rewrite : ∀ e, closes (rewrite e) = closes e
  length_rewrite : ∀ e, (bytes (rewrite e)).length + slack e = (bytes e).length

namespace Format
variable {out : List UInt8} {removed : List Removed}

variable {E : Type} (f : Format E)

def kept (e : E) : Option E := if (f.describe e).isSome then none else some (f.rewrite e)

def report (e : E) : Option Removed :=
  (f.describe e).map fun what => { what, bytes := (f.bytes e).length - f.slack e }

/-- `out` is `input` with the metadata taken out: read in the format, it is the elements of `input`
that are not metadata, and `removed` names the others in order. -/
structure Cleans (input out : List UInt8) (removed : List Removed) (es : List E)
    (tail : List UInt8) : Prop where
  read : f.Reads input es tail
  closed : f.mustClose = true → ∃ e ∈ es, f.closes e = true
  written : f.Reads out (es.filterMap f.kept) (if f.cuts then [] else tail)
  reported : removed = es.filterMap f.report ++ if f.cuts then afterEnd tail else []
  length : out.length + (removed.map (·.bytes)).sum + (es.map f.slack).sum = input.length

variable {f}

theorem length_elements (es : List E) :
    ((es.filterMap f.kept).flatMap f.bytes).length + ((es.filterMap f.report).map (·.bytes)).sum +
      (es.map f.slack).sum = (es.flatMap f.bytes).length := by
  induction es with
  | nil => rfl
  | cons e es ih =>
    have hrewrite := f.length_rewrite e
    cases hd : f.describe e with
    | none =>
      have hkept : f.kept e = some (f.rewrite e) := by simp [kept, hd]
      have hreport : f.report e = none := by simp [report, hd]
      simp only [List.filterMap_cons_some hkept, List.filterMap_cons_none hreport,
        List.flatMap_cons, List.map_cons, List.sum_cons, List.length_append]
      omega
    | some what =>
      have hkept : f.kept e = none := by simp [kept, hd]
      have hreport : f.report e =
          some { what, bytes := (f.bytes e).length - f.slack e } := by simp [report, hd]
      simp only [List.filterMap_cons_none hkept, List.filterMap_cons_some hreport,
        List.flatMap_cons, List.map_cons, List.sum_cons, List.length_append]
      omega

/-- A loop that copies what it keeps and reports what it does not cleans its input. -/
theorem Cleans.of_reads (h : f.Reads input es tail)
    (hclosed : f.mustClose → ∃ e ∈ es, f.closes e)
    (hout : out = (es.filterMap f.kept).flatMap f.bytes ++ if f.cuts then [] else tail)
    (hremoved : removed = es.filterMap f.report ++ if f.cuts then afterEnd tail else []) :
    f.Cleans input out removed es tail := by
  have hclose (e : E) (he : f.closes e) :
      ∃ e', f.kept e = some e' ∧ f.closes e' :=
    ⟨f.rewrite e, by simp [kept, f.describe_closes e he], (f.closes_rewrite e).trans he⟩
  have hopen (e e' : E) (he : f.closes e = false) (hk : f.kept e = some e') :
      f.closes e' = false := by
    unfold kept at hk
    split at hk
    · cases hk
    · cases hk
      exact (f.closes_rewrite e).trans he
  refine ⟨h, hclosed, ?_, hremoved, ?_⟩
  · rw [hout]
    refine h.filterMap hclose hopen ?_
    split
    · exact .inl rfl
    · exact .inr rfl
  · have := length_elements (f := f) es
    rw [hout, hremoved, h.input_eq]
    simp only [List.length_append, List.map_append, List.sum_append]
    split
    · simp only [List.length_nil, sum_afterEnd]
      omega
    · simp only [List.map_nil, List.sum_nil]
      omega

variable (f) in
/-- What a loop over `rest` makes of its output and its report when it cleans `rest`. -/
def Copies (out : List UInt8) (removed : List Removed) (rest out' : List UInt8)
    (removed' : List Removed) : Prop :=
  ∃ es tail, f.Reads rest es tail ∧ (f.mustClose = true → ∃ e ∈ es, f.closes e = true) ∧
    out' = out ++ ((es.filterMap f.kept).flatMap f.bytes ++ if f.cuts then [] else tail) ∧
    removed' = removed ++ (es.filterMap f.report ++ if f.cuts then afterEnd tail else [])

theorem Copies.done (h : f.mustClose = false) : f.Copies out removed [] out removed := by
  refine ⟨[], [], .done, fun hclose => ?_, ?_, ?_⟩
  · rw [h] at hclose
    cases hclose
  all_goals split <;> simp [afterEnd]

/-- The loop stops at an element that closes the container. -/
theorem Copies.close (he : f.closes e)
    (hout : out' = out ++ (f.bytes (f.rewrite e) ++ if f.cuts then [] else tail))
    (hremoved : removed' = removed ++ if f.cuts then afterEnd tail else []) :
    f.Copies out removed (f.bytes e ++ tail) out' removed' := by
  have hd := f.describe_closes e he
  refine ⟨[e], tail, .close he, fun _ => ⟨e, List.mem_singleton_self e, he⟩, hout.trans ?_,
    hremoved.trans ?_⟩
  · simp [kept, hd]
  · simp [report, hd]

theorem Copies.keep (he : f.closes e = false) (hd : f.describe e = none)
    (h : f.Copies (out ++ f.bytes (f.rewrite e)) removed rest out' removed') :
    f.Copies out removed (f.bytes e ++ rest) out' removed' := by
  obtain ⟨es, tail, hreads, hclosed, rfl, rfl⟩ := h
  refine ⟨e :: es, tail, .next he hreads,
    fun h => (hclosed h).imp fun _ h => ⟨List.mem_cons_of_mem _ h.1, h.2⟩, ?_, ?_⟩
  · simp [kept, hd]
  · simp [report, hd]

theorem Copies.remove (hd : f.describe e = some what)
    (h : f.Copies out (removed ++ [{ what, bytes := (f.bytes e).length - f.slack e }]) rest out'
      removed') : f.Copies out removed (f.bytes e ++ rest) out' removed' := by
  have he : f.closes e = false := by
    by_contra he
    rw [f.describe_closes e (by simpa using he)] at hd
    cases hd
  obtain ⟨es, tail, hreads, hclosed, rfl, rfl⟩ := h
  refine ⟨e :: es, tail, .next he hreads,
    fun h => (hclosed h).imp fun _ h => ⟨List.mem_cons_of_mem _ h.1, h.2⟩, ?_, ?_⟩
  · simp [kept, hd]
  · simp [report, hd]

theorem Copies.exists_cleans (h : f.Copies out [] rest out' removed') :
    ∃ body es tail, out' = out ++ body ∧ f.Cleans rest body removed' es tail := by
  obtain ⟨es, tail, hreads, hclosed, hout, hremoved⟩ := h
  exact ⟨_, es, tail, hout, .of_reads hreads hclosed rfl hremoved⟩

end Format

end Ddirc.Media
