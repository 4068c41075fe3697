/-
  PuppetMaster.Lib.LittleEndian — fixed-width little-endian fields.

  `putLe w n` writes the low `w` bytes of `n`, lowest first; `getLe` reads bytes back.
  Reading what was written gives `n` up to the width (`getLe_putLe`), and `n` itself when
  it fits (`getLe_putLe_of_lt`); writing what was read gives the bytes back (`putLe_getLe`),
  and what was read fits their width (`getLe_lt`). `take_put` and `drop_put` step over a
  field at the front of a message; `put_getLe` writes that field again.
-/

import Mathlib.Data.Nat.ModEq

namespace PuppetMaster.Lib

def putLe : Nat → Nat → List UInt8
  | 0, _ => []
  | w + 1, n => UInt8.ofNat (n % 256) :: putLe w (n / 256)

def getLe : List UInt8 → Nat
  | [] => 0
  | b :: bs => b.toNat + 256 * getLe bs

@[simp] theorem length_putLe (w n : Nat) : (putLe w n).length = w := by
  induction w generalizing n with
  | zero => rfl
  | succ w ih => rw [putLe, List.length_cons, ih]

theorem getLe_putLe (w n : Nat) : getLe (putLe w n) = n % 256 ^ w := by
  induction w generalizing n with
  | zero => simp [putLe, getLe, Nat.mod_one]
  | succ w ih =>
    have hbyte : (UInt8.ofNat (n % 256)).toNat = n % 256 := by
      simp only [UInt8.toNat_ofNat']
      omega
    rw [putLe, getLe, ih, hbyte, Nat.pow_succ', Nat.mod_mul]

/-- A number that fits its field comes back. -/
theorem getLe_putLe_of_lt {w n : Nat} (h : n < 256 ^ w) : getLe (putLe w n) = n := by
  rw [getLe_putLe, Nat.mod_eq_of_lt h]

theorem getLe_lt (bytes : List UInt8) : getLe bytes < 256 ^ bytes.length := by
  induction bytes with
  | nil => exact Nat.one_pos
  | cons b bs ih =>
    have := b.toNat_lt
    rw [getLe, List.length_cons, Nat.pow_succ']
    omega

theorem putLe_getLe (bytes : List UInt8) : putLe bytes.length (getLe bytes) = bytes := by
  induction bytes with
  | nil => rfl
  | cons b bs ih =>
    have hlow : (b.toNat + 256 * getLe bs) % 256 = b.toNat := by
      have := b.toNat_lt
      omega
    have hhigh : (b.toNat + 256 * getLe bs) / 256 = getLe bs := by
      have := b.toNat_lt
      omega
    rw [getLe, List.length_cons, putLe, hlow, hhigh, ih, UInt8.ofNat_toNat]

theorem take_put (w n : Nat) (rest : List UInt8) : (putLe w n ++ rest).take w = putLe w n := by
  simp

theorem drop_put (w n : Nat) (rest : List UInt8) : (putLe w n ++ rest).drop w = rest := by
  simp

theorem getLe_take_lt (w : Nat) (bytes : List UInt8) : getLe (bytes.take w) < 256 ^ w :=
  Nat.lt_of_lt_of_le (getLe_lt _) (Nat.pow_le_pow_right (by omega) (List.length_take_le w bytes))

theorem put_getLe {w : Nat} {bytes : List UInt8} (h : w ≤ bytes.length) :
    putLe w (getLe (bytes.take w)) ++ bytes.drop w = bytes := by
  have htake : (bytes.take w).length = w := List.length_take_of_le h
  have hput := putLe_getLe (bytes.take w)
  rw [htake] at hput
  rw [hput, List.take_append_drop]

end PuppetMaster.Lib
