import DxlBroker.Lib.Bytes
import Mathlib.Tactic

/-!
# The base64 encoding

Three bytes are written as four characters of six bits each; at the end one byte is written as two
characters and two pads, and two bytes as three characters and a pad.
-/

namespace Base64

open Bytes

def alphabet : Bytes := lit "ABCDEFGHIJKLMNOPQRSTUVWXYZabcdefghijklmnopqrstuvwxyz0123456789+/"

def pad : UInt8 := 61

/-- The character of a number below 64. -/
def digit (sextet : UInt8) : UInt8 := alphabet.getD sextet.toNat pad

/-- The padded encoding. -/
def encode : Bytes → Bytes
  | [] => []
  | [a] => [digit (a >>> 2), digit ((a &&& 3) <<< 4), pad, pad]
  | [a, b] => [digit (a >>> 2), digit ((a &&& 3) <<< 4 ||| b >>> 4), digit ((b &&& 15) <<< 2), pad]
  | a :: b :: c :: l =>
      digit (a >>> 2) :: digit ((a &&& 3) <<< 4 ||| b >>> 4) ::
        digit ((b &&& 15) <<< 2 ||| c >>> 6) :: digit (c &&& 63) :: encode l

/-- A character that means something: one of the alphabet, or a pad. -/
def isChar (c : UInt8) : Bool := alphabet.contains c || c == pad

example : encode (lit "fooba") = lit "Zm9vYmE=" := by decide

/-! ### Bits -/

theorem eq_of_bits {x y : UInt8} (h : ∀ i : Fin 8, x.toBitVec[i.val] = y.toBitVec[i.val]) :
    x = y := by
  rw [← UInt8.toBitVec_inj]
  exact BitVec.eq_of_getElem_eq fun i hi => h ⟨i, hi⟩

/-- A number of six bits. -/
def IsSextet (x : UInt8) : Prop := x &&& 63 = x

theorem IsSextet.lt {x : UInt8} (h : IsSextet x) : x.toNat < 64 := by
  rw [← h, UInt8.toNat_and]
  exact Nat.lt_succ_of_le Nat.and_le_right

theorem isSextet_shiftRight (a : UInt8) : IsSextet (a >>> 2) := by
  refine eq_of_bits fun i => ?_
  fin_cases i <;> simp

theorem isSextet_second (a b : UInt8) : IsSextet ((a &&& 3) <<< 4 ||| b >>> 4) := by
  refine eq_of_bits fun i => ?_
  fin_cases i <;> simp

theorem isSextet_third (b c : UInt8) : IsSextet ((b &&& 15) <<< 2 ||| c >>> 6) := by
  refine eq_of_bits fun i => ?_
  fin_cases i <;> simp

theorem isSextet_and (c : UInt8) : IsSextet (c &&& 63) := by
  rw [IsSextet, UInt8.and_assoc, UInt8.and_self]

/-! ### Three bytes from four sextets -/

theorem first_byte (a b : UInt8) :
    (a >>> 2) <<< 2 ||| ((a &&& 3) <<< 4 ||| b >>> 4) >>> 4 = a := by
  refine eq_of_bits fun i => ?_
  fin_cases i <;> simp

theorem second_byte (a b c : UInt8) :
    ((a &&& 3) <<< 4 ||| b >>> 4) <<< 4 ||| ((b &&& 15) <<< 2 ||| c >>> 6) >>> 2 = b := by
  refine eq_of_bits fun i => ?_
  fin_cases i <;> simp

theorem third_byte (b c : UInt8) : ((b &&& 15) <<< 2 ||| c >>> 6) <<< 6 ||| (c &&& 63) = c := by
  refine eq_of_bits fun i => ?_
  fin_cases i <;> simp

end Base64
