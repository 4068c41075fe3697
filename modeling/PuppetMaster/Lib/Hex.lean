/-
  PuppetMaster.Lib.Hex — bytes, and fixed-width lowercase hexadecimal.

  What the numbers below a bound show of their bytes holds of the bytes (`of_byte_numbers`).
  `hexDigits w n` is `n` in `w` digits, highest first. A number below `16 ^ w` is known by
  its digits (`hexDigits_inj`), and every string of `w` digits is the digits of such a
  number (`exists_hexDigits`).
-/

import Mathlib.Algebra.Group.Nat.Defs
import Mathlib.Data.List.Basic

namespace PuppetMaster.Lib

theorem of_numbers_below {p : UInt8 → Prop} {bound : Nat} (h : ∀ n < bound, p (UInt8.ofNat n)) {byte : UInt8}
    (hlt : byte.toNat < bound) : p byte := by
  have hbyte := h byte.toNat hlt
  rwa [UInt8.ofNat_toNat] at hbyte

/-- What is decided of 256 numbers holds of every byte. -/
theorem of_byte_numbers {p : UInt8 → Prop} (h : ∀ n < 256, p (UInt8.ofNat n)) (byte : UInt8) : p byte :=
  of_numbers_below h byte.toNat_lt

def hexDigit (n : Nat) : UInt8 := if n < 10 then UInt8.ofNat (48 + n) else UInt8.ofNat (87 + n)

def hexDigits : Nat → Nat → List UInt8
  | 0, _ => []
  | w + 1, n => hexDigits w (n / 16) ++ [hexDigit (n % 16)]

def isHexDigit (byte : UInt8) : Bool := (48 ≤ byte && byte ≤ 57) || (97 ≤ byte && byte ≤ 102)

theorem hexDigit_inj : ∀ n < 16, ∀ m < 16, hexDigit n = hexDigit m → n = m := by decide

theorem isHexDigit_hexDigit : ∀ n < 16, isHexDigit (hexDigit n) = true := by decide

theorem exists_hexDigit (byte : UInt8) (h : isHexDigit byte = true) : ∃ n < 16, hexDigit n = byte := by
  have hall : ∀ byte, isHexDigit byte = true → ∃ n < 16, hexDigit n = byte := of_byte_numbers (by decide +kernel)
  exact hall byte h

@[simp] theorem length_hexDigits (w n : Nat) : (hexDigits w n).length = w := by
  induction w generalizing n with
  | zero => rfl
  | succ w ih => rw [hexDigits, List.length_append, ih, List.length_singleton]

theorem isHexDigit_hexDigits {w n : Nat} : ∀ byte ∈ hexDigits w n, isHexDigit byte = true := by
  induction w generalizing n with
  | zero =>
    intro byte h
    cases h
  | succ w ih =>
    intro byte h
    rcases List.mem_append.mp h with h | h
    · exact ih byte h
    · rw [List.mem_singleton.mp h]
      exact isHexDigit_hexDigit _ (Nat.mod_lt _ (by decide))

theorem hexDigits_inj {w n m : Nat} (hn : n < 16 ^ w) (hm : m < 16 ^ w) (h : hexDigits w n = hexDigits w m) : n = m := by
  induction w generalizing n m with
  | zero =>
    rw [Nat.pow_zero] at hn hm
    omega
  | succ w ih =>
    rw [Nat.pow_succ] at hn hm
    obtain ⟨hhigh, hlow⟩ := List.append_inj h (by rw [length_hexDigits, length_hexDigits])
    have hlow := hexDigit_inj _ (Nat.mod_lt _ (by decide)) _ (Nat.mod_lt _ (by decide)) (List.singleton_inj.mp hlow)
    have hhigh := ih (by omega) (by omega) hhigh
    omega

theorem exists_hexDigits {w : Nat} {bytes : List UInt8} (hlen : bytes.length = w)
    (hhex : ∀ byte ∈ bytes, isHexDigit byte = true) : ∃ n < 16 ^ w, hexDigits w n = bytes := by
  induction w generalizing bytes with
  | zero => exact ⟨0, Nat.one_pos, (List.length_eq_zero_iff.mp hlen).symm⟩
  | succ w ih =>
    have hne : bytes ≠ [] := by
      rintro rfl
      cases hlen
    obtain ⟨n, hn, hdigits⟩ := ih (show bytes.dropLast.length = w by rw [List.length_dropLast, hlen]; rfl)
      fun byte hbyte => hhex byte (List.dropLast_subset _ hbyte)
    obtain ⟨d, hd, hdigit⟩ := exists_hexDigit (bytes.getLast hne) (hhex _ (List.getLast_mem hne))
    refine ⟨16 * n + d, ?_, ?_⟩
    · rw [Nat.pow_succ]
      omega
    · rw [hexDigits, show (16 * n + d) / 16 = n by omega, show (16 * n + d) % 16 = d by omega, hdigits, hdigit,
        List.dropLast_append_getLast]

end PuppetMaster.Lib
