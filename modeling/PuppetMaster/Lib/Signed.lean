/-
  PuppetMaster.Lib.Signed — 64-bit signed arithmetic.

  A result that does not fit is undefined behaviour in the language, so here the operation
  has none. `signed_eq_some_iff` is what a proof needs: a computation has a result exactly
  when it fits, and then it is the mathematical one.

  Where a program keeps sums nobody checks, `wrapInt64` is what a machine holds of them; a theorem
  about them assumes that they fit (`wrapInt64_of_fits`).
-/

import Mathlib.Algebra.Group.Int.Defs
import Mathlib.Algebra.Group.Nat.Defs

namespace PuppetMaster.Lib

def maxInt64 : Int := 2 ^ 63 - 1

def minInt64 : Int := -(2 ^ 63)

def FitsInt64 (x : Int) : Prop := minInt64 ≤ x ∧ x ≤ maxInt64

instance (x : Int) : Decidable (FitsInt64 x) := inferInstanceAs (Decidable (_ ∧ _))

/-- The result of an operation, if it has one. -/
def signed (x : Int) : Option Int := if FitsInt64 x then some x else none

def addInt64 (x y : Int) : Option Int := signed (x + y)

def subInt64 (x y : Int) : Option Int := signed (x - y)

def mulInt64 (x y : Int) : Option Int := signed (x * y)

/-- Rounds towards zero. -/
def divInt64 (x y : Int) : Option Int := if y = 0 then none else signed (x.tdiv y)

/-- What 64 bits hold of a number, in two's complement. -/
def wrapInt64 (x : Int) : Int := x.bmod (2 ^ 64)

theorem fitsInt64_iff {x : Int} : FitsInt64 x ↔ -(2 ^ 63) ≤ x ∧ x < 2 ^ 63 := by
  unfold FitsInt64 minInt64 maxInt64
  omega

theorem signed_eq_some_iff {x y : Int} : signed x = some y ↔ FitsInt64 x ∧ x = y := by
  unfold signed
  split
  · rename_i h
    simp [h]
  · rename_i h
    simp [h]

theorem signed_eq_none_iff {x : Int} : signed x = none ↔ ¬ FitsInt64 x := by
  unfold signed
  split
  · rename_i h
    simp [h]
  · rename_i h
    simp [h]

theorem signed_of_fits {x : Int} (h : FitsInt64 x) : signed x = some x := signed_eq_some_iff.mpr ⟨h, rfl⟩

theorem wrapInt64_of_fits {x : Int} (h : FitsInt64 x) : wrapInt64 x = x := by
  rw [fitsInt64_iff] at h
  exact Int.bmod_eq_of_le (by omega) (by omega)

/-- A sum kept in 64 bits is the sum, kept in 64 bits. -/
@[simp] theorem wrapInt64_add (x y : Int) : wrapInt64 (wrapInt64 x + y) = wrapInt64 (x + y) := Int.bmod_add_bmod

/-- A quotient is no larger than the dividend. -/
theorem fitsInt64_tdiv {x y : Int} (h : FitsInt64 x) (hy : 0 < y) : FitsInt64 (x.tdiv y) := by
  rw [fitsInt64_iff] at h ⊢
  rcases Int.le_total 0 x with hx | hx
  · have hlow : 0 ≤ x / y := Int.ediv_nonneg hx (by omega)
    have hhigh : x / y ≤ x := Int.ediv_le_self y hx
    rw [Int.tdiv_eq_ediv_of_nonneg hx]
    omega
  · have hlow : 0 ≤ -x / y := Int.ediv_nonneg (by omega) (by omega)
    have hhigh : -x / y ≤ -x := Int.ediv_le_self y (by omega)
    have hneg : x.tdiv y = -(-x / y) := by
      rw [← Int.tdiv_eq_ediv_of_nonneg (by omega), Int.neg_tdiv, Int.neg_neg]
    rw [hneg]
    omega

/-- A quotient of numbers that are not negative lies between zero and the dividend. -/
theorem divInt64_of_nonneg {x y : Int} (hx : 0 ≤ x) (hfits : FitsInt64 x) (hy : 0 < y) :
    divInt64 x y = some (x / y) ∧ 0 ≤ x / y ∧ x / y ≤ x := by
  have hlow : 0 ≤ x / y := Int.ediv_nonneg hx (by omega)
  have hhigh : x / y ≤ x := Int.ediv_le_self y hx
  have htdiv : x.tdiv y = x / y := Int.tdiv_eq_ediv_of_nonneg hx
  refine ⟨?_, hlow, hhigh⟩
  unfold divInt64
  rw [if_neg (by omega), htdiv]
  refine signed_of_fits ?_
  rw [fitsInt64_iff] at hfits ⊢
  omega

end PuppetMaster.Lib
