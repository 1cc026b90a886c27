import Mathlib.Data.List.Basic

/-! # Base64

What users of a base64 codec rest on, and the codec with the standard alphabet and padding (RFC
4648, section 4) as an instance. -/

namespace Ddirc
open List

/-- Base64 with padding: four characters for every three bytes or what is left of them. -/
class Base64 where
  encode : List UInt8 → List Char
  decode : List Char → Option (List UInt8)
  length_encode : ∀ bytes, (encode bytes).length = (bytes.length + 2) / 3 * 4
  /-- Encoded text is ASCII, so its bytes are its characters. -/
  utf8Size_encode : ∀ bytes, ∀ c ∈ encode bytes, c.utf8Size = 1
  decode_encode : ∀ bytes, decode (encode bytes) = some bytes

namespace Base64

def alphabet : List Char :=
  "ABCDEFGHIJKLMNOPQRSTUVWXYZabcdefghijklmnopqrstuvwxyz0123456789+/".toList

def sextet (n : Nat) : Char := alphabet.getD n 'A'

def encodeAux : List UInt8 → List Char
  | a :: b :: c :: rest =>
    sextet (a.toNat / 4) :: sextet (a.toNat % 4 * 16 + b.toNat / 16) ::
      sextet (b.toNat % 16 * 4 + c.toNat / 64) :: sextet (c.toNat % 64) :: encodeAux rest
  | [a, b] =>
    [sextet (a.toNat / 4), sextet (a.toNat % 4 * 16 + b.toNat / 16), sextet (b.toNat % 16 * 4), '=']
  | [a] => [sextet (a.toNat / 4), sextet (a.toNat % 4 * 16), '=', '=']
  | [] => []

def value (c : Char) : Option Nat := alphabet.idxOf? c

def decodeAux : List Char → Option (List UInt8)
  | [] => some []
  | [x, y, '=', '='] => do
    let a ← value x
    let b ← value y
    return [.ofNat (a * 4 + b / 16)]
  | [x, y, z, '='] => do
    let a ← value x
    let b ← value y
    let c ← value z
    return [.ofNat (a * 4 + b / 16), .ofNat (b % 16 * 16 + c / 4)]
  | x :: y :: z :: w :: rest => do
    let a ← value x
    let b ← value y
    let c ← value z
    let d ← value w
    let bytes ← decodeAux rest
    return .ofNat (a * 4 + b / 16) :: .ofNat (b % 16 * 16 + c / 4) :: .ofNat (c % 4 * 64 + d) ::
      bytes
  | _ => none

theorem value_sextet (h : n < 64) : value (sextet n) = some n := by
  revert n
  decide +kernel

theorem sextet_ne_pad (h : n < 64) : sextet n ≠ '=' := by
  intro heq
  have hvalue := value_sextet h
  rw [heq] at hvalue
  cases hvalue

theorem utf8Size_sextet : (sextet n).utf8Size = 1 := by
  have hall : ('A' :: alphabet).all (·.utf8Size == 1) := by decide +kernel
  refine eq_of_beq (all_eq_true.1 hall _ ?_)
  rw [sextet, getD_eq_getElem?_getD]
  cases h : alphabet[n]? with
  | none => exact mem_cons_self
  | some c => exact mem_cons_of_mem _ (mem_of_getElem? h)

theorem utf8Size_encodeAux (bytes : List UInt8) : ∀ c ∈ encodeAux bytes, c.utf8Size = 1 := by
  have hpad : '='.utf8Size = 1 := by decide
  fun_induction encodeAux bytes with
  | case1 a b c rest ih => simpa [utf8Size_sextet] using ih
  | case2 | case3 => simp [utf8Size_sextet, hpad]
  | case4 => simp

theorem length_encodeAux (bytes : List UInt8) :
    (encodeAux bytes).length = (bytes.length + 2) / 3 * 4 := by
  fun_induction encodeAux bytes with
  | case1 a b c rest ih =>
    simp only [length_cons]
    omega
  | case2 | case3 | case4 => simp

theorem decodeAux_encodeAux (bytes : List UInt8) : decodeAux (encodeAux bytes) = some bytes := by
  have byte {a : UInt8} {n : Nat} (h : n = a.toNat) : UInt8.ofNat n = a := by simp [h]
  fun_induction encodeAux bytes with
  | case1 a b c rest ih =>
    have ha := a.toNat_lt
    have hb := b.toNat_lt
    have hc := c.toNat_lt
    rw [decodeAux, value_sextet (by omega), value_sextet (by omega), value_sextet (by omega),
      value_sextet (by omega), ih]
    · simp only [Option.bind_eq_bind, Option.bind_some, Option.pure_def]
      rw [byte (a := a) (by omega), byte (a := b) (by omega), byte (a := c) (by omega)]
    · exact fun _ h => absurd h (sextet_ne_pad (by omega))
    · exact fun h => absurd h (sextet_ne_pad (by omega))
  | case2 a b =>
    have ha := a.toNat_lt
    have hb := b.toNat_lt
    rw [decodeAux, value_sextet (by omega), value_sextet (by omega), value_sextet (by omega)]
    · simp only [Option.bind_eq_bind, Option.bind_some, Option.pure_def]
      rw [byte (a := a) (by omega), byte (a := b) (by omega)]
    · exact fun h => absurd h (sextet_ne_pad (by omega))
  | case3 a =>
    have ha := a.toNat_lt
    rw [decodeAux, value_sextet (by omega), value_sextet (by omega)]
    simp only [Option.bind_eq_bind, Option.bind_some, Option.pure_def]
    rw [byte (a := a) (by omega)]
  | case4 => rfl

instance : Base64 where
  encode := encodeAux
  decode := decodeAux
  length_encode := length_encodeAux
  utf8Size_encode := utf8Size_encodeAux
  decode_encode := decodeAux_encodeAux

end Base64
end Ddirc
