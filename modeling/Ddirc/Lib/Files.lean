import Mathlib.Logic.Function.Basic
import Mathlib.Data.Option.Basic

/-! # A directory of files

Names stand for files, and open files are handles that stay on their file when its name is moved or
taken away. Two names never stand for one file, so what is done through a handle is seen under one
name only (`Files.file_writeAt`). -/

namespace Ddirc
open Function

structure Files (β : Type u) where
  /-- The file a name stands for. -/
  names : String → Option Nat
  content : Nat → List β
  next : Nat
  unshared : ∀ a b i, names a = some i → names b = some i → a = b
  old : ∀ a i, names a = some i → i < next

namespace Files
variable {a name : String}

variable {β : Type u} (fs : Files β)

def file (name : String) : Option (List β) := (fs.names name).map fs.content

def setContent (i : Nat) (c : List β) : Files β := { fs with content := update fs.content i c }

/-- Create a file, or cut it to nothing if there is one; returns a handle on it. -/
def create (name : String) : Files β × Nat :=
  match h : fs.names name with
  | some i => (fs.setContent i [], i)
  | none =>
    ({ names := update fs.names name (some fs.next)
       content := update fs.content fs.next []
       next := fs.next + 1
       unshared := by
         intro a b i ha hb
         rw [update_apply] at ha hb
         split at ha <;> split at hb
         next ha' hb' => rw [ha', hb']
         next => cases ha; exact absurd (fs.old _ _ hb) (Nat.lt_irrefl _)
         next => cases hb; exact absurd (fs.old _ _ ha) (Nat.lt_irrefl _)
         next => exact fs.unshared a b i ha hb
       old := by
         intro a i ha
         rw [update_apply] at ha
         split at ha
         · cases ha; exact Nat.lt_succ_self _
         · exact Nat.lt_succ_of_lt (fs.old a i ha) }, fs.next)

/-- `set_len`: cut, or fill up. -/
def setLen (zero : β) (i n : Nat) : Files β :=
  fs.setContent i ((fs.content i).take n ++ List.replicate (n - (fs.content i).length) zero)

/-- Write at a position, over what is there; a gap before it is filled up. -/
def writeAt (zero : β) (i position : Nat) (data : List β) : Files β :=
  fs.setContent i ((fs.content i).take position ++
    List.replicate (position - (fs.content i).length) zero ++ data ++
    (fs.content i).drop (position + data.length))

def write (name : String) (data : List β) : Files β :=
  (fs.create name).1.setContent (fs.create name).2 data

def remove (name : String) : Files β where
  names := update fs.names name none
  content := fs.content
  next := fs.next
  unshared := by
    intro a b i ha hb
    rw [update_apply] at ha hb
    split at ha
    · cases ha
    split at hb
    · cases hb
    exact fs.unshared a b i ha hb
  old := by
    intro a i ha
    rw [update_apply] at ha
    split at ha
    · cases ha
    · exact fs.old a i ha

/-- Move a file to another name, over a file of that name; `none` if there is no such file. -/
def rename (a b : String) : Option (Files β) :=
  match h : fs.names a with
  | none => none
  | some i => some
    { names := update (fs.remove a).names b (some i)
      content := fs.content
      next := fs.next
      unshared := by
        have hnone (c : String) : (fs.remove a).names c ≠ some i := by
          intro hc
          have hc' := hc
          simp only [remove, update_apply] at hc'
          split at hc'
          · cases hc'
          next hne => exact hne (fs.unshared c a i hc' h)
        intro c d j hc hd
        rw [update_apply] at hc hd
        split at hc <;> split at hd
        next hc' hd' => rw [hc', hd']
        next => cases hc; exact absurd hd (hnone d)
        next => cases hd; exact absurd hc (hnone c)
        next => exact (fs.remove a).unshared c d j hc hd
      old := by
        intro c j hc
        rw [update_apply] at hc
        split at hc
        · cases hc; exact fs.old a _ h
        · exact (fs.remove a).old c j hc }

/-! ## What each operation leaves under each name -/

variable {fs}

theorem file_eq_some (h : fs.names name = some i) : fs.file name = some (fs.content i) := by
  rw [file, h, Option.map_some]

theorem file_setContent (h : fs.names name = some i) (c : List β) :
    (fs.setContent i c).file = update fs.file name (some c) := by
  funext a
  rw [file, update_apply]
  split
  next ha => simp [setContent, ha, h]
  next ha =>
    have hne : ∀ j ∈ fs.names a, j ≠ i := fun j hj hji => ha (fs.unshared a name i (hji ▸ hj) h)
    simp only [setContent, file]
    cases hj : fs.names a with
    | none => rfl
    | some j => simp [hne j hj]

theorem names_create (fs : Files β) (name : String) :
    (fs.create name).1.names name = some (fs.create name).2 := by
  unfold create
  split
  next h => exact h
  · simp

theorem names_create_ne (h : a ≠ name) : (fs.create name).1.names a = fs.names a := by
  unfold create
  split
  · rfl
  · simp [h]

theorem file_create (fs : Files β) (name : String) :
    (fs.create name).1.file = update fs.file name (some []) := by
  unfold create
  split
  next i h => exact file_setContent h []
  next h =>
    funext a
    simp only [file, update_apply]
    split
    · simp
    · cases hj : fs.names a with
      | none => rfl
      | some j => simp [Nat.ne_of_lt (fs.old a j hj)]

theorem file_setLen (zero : β) (h : fs.names name = some i) (n : Nat) :
    (fs.setLen zero i n).file = update fs.file name
      (some ((fs.content i).take n ++ List.replicate (n - (fs.content i).length) zero)) :=
  file_setContent h _

theorem file_writeAt (zero : β) (h : fs.names name = some i) (position : Nat) (data : List β) :
    (fs.writeAt zero i position data).file = update fs.file name
      (some ((fs.content i).take position ++
        List.replicate (position - (fs.content i).length) zero ++ data ++
        (fs.content i).drop (position + data.length))) :=
  file_setContent h _

theorem file_write (fs : Files β) (name : String) (data : List β) :
    (fs.write name data).file = update fs.file name (some data) := by
  rw [write, file_setContent (names_create fs name), file_create, update_idem]

theorem names_write_ne (h : a ≠ name) (data : List β) :
    (fs.write name data).names a = fs.names a := names_create_ne h

theorem file_remove (fs : Files β) (name : String) :
    (fs.remove name).file = update fs.file name none := by
  funext a
  simp only [file, remove, update_apply]
  split <;> rfl

theorem names_remove_ne (h : a ≠ name) : (fs.remove name).names a = fs.names a := by
  simp [remove, h]

theorem rename_eq_none : fs.rename a b = none ↔ fs.file a = none := by
  unfold rename
  split
  next h => simp [file, h]
  next h => simp [file, h]

theorem file_rename (h : fs.rename a b = some fs') :
    fs'.file = update (update fs.file a none) b (fs.file a) := by
  unfold rename at h
  split at h
  · cases h
  next i hi =>
    cases h
    funext c
    simp only [file, remove, update_apply]
    split
    · simp [hi]
    · split <;> rfl

theorem names_rename_ne (h : fs.rename a b = some fs') (ha : c ≠ a) (hb : c ≠ b) :
    fs'.names c = fs.names c := by
  unfold rename at h
  split at h
  · cases h
  next i hi =>
    cases h
    simp [remove, ha, hb]

end Files

end Ddirc
