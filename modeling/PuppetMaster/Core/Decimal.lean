/-
  PuppetMaster.Core.Decimal — decimal numbers as text (`std::to_string`), and their value.

  - `text_append`, `text_toString`: the bytes of a string that is put together.
  - `decimal_toText`, `toText_decimal`: a number is the value of its text, and digits without
    a leading zero are the text of their value.
-/

import Mathlib.Algebra.Group.Nat.Defs
import Mathlib.Data.List.Induction
import PuppetMaster.Core.Parameters

namespace PuppetMaster.Core

/-! ## Text -/

theorem toList_loop (bytes : ByteArray) (i : Nat) (before : List UInt8) :
    ByteArray.toList.loop bytes i before = before.reverse ++ bytes.data.toList.drop i := by
  rw [ByteArray.toList.loop]
  split
  · rename_i hlt
    have hlt' : i < bytes.data.toList.length := by simpa using hlt
    have hget : bytes.get! i = bytes.data.toList[i] := by
      simp [ByteArray.get!, getElem!_pos bytes.data i hlt]
    rw [toList_loop bytes (i + 1), List.reverse_cons, List.append_assoc, hget, List.drop_eq_getElem_cons hlt',
      List.singleton_append]
  · rename_i hge
    have hle : bytes.data.toList.length ≤ i := by simpa using hge
    rw [List.drop_of_length_le hle, List.append_nil]
termination_by bytes.size - i

theorem toList_eq (bytes : ByteArray) : bytes.toList = bytes.data.toList := by
  rw [ByteArray.toList, toList_loop]
  rfl

theorem text_append (a b : String) : text (a ++ b) = text a ++ text b := by
  unfold text
  rw [toList_eq, toList_eq, toList_eq]
  show (a.toByteArray ++ b.toByteArray).data.toList = _
  simp [String.toUTF8]

/-- `std::to_string` of an unsigned number. -/
def toText (n : Nat) : Bytes := (Nat.toDigits 10 n).map fun c => UInt8.ofNat c.toNat

/-- `std::to_string` of a signed number. -/
def signedText (value : Int) : Bytes := if value < 0 then text "-" ++ toText value.natAbs else toText value.natAbs

theorem text_minus : text "-" = [0x2d] := by decide +kernel

theorem utf8EncodeChar_digit {c : Char} (h : c.isDigit = true) : String.utf8EncodeChar c = [UInt8.ofNat c.toNat] := by
  have hle : c.val.toNat ≤ 127 := by
    have hnine : c.val ≤ '9'.val := ((Bool.and_eq_true _ _).mp h).2 |> of_decide_eq_true
    have : c.val.toNat ≤ 57 := UInt32.le_iff_toNat_le.mp hnine
    omega
  unfold String.utf8EncodeChar
  rw [if_pos hle]
  rfl

theorem text_toString (n : Nat) : text (toString n) = toText n := by
  have hdigits : ∀ l : List Char, (∀ c ∈ l, c.isDigit = true) →
      l.flatMap String.utf8EncodeChar = l.map fun c => UInt8.ofNat c.toNat := by
    intro l hl
    induction l with
    | nil => rfl
    | cons c l ih =>
      rw [List.flatMap_cons, List.map_cons, utf8EncodeChar_digit (hl c List.mem_cons_self),
        ih fun d hd => hl d (List.mem_cons_of_mem _ hd)]
      rfl
  have hencode : (Nat.toDigits 10 n).utf8Encode = ((Nat.toDigits 10 n).flatMap String.utf8EncodeChar).toByteArray := rfl
  show (String.ofList (Nat.toDigits 10 n)).toByteArray.toList = toText n
  rw [toList_eq, String.toByteArray_ofList, hencode, List.data_toByteArray, List.toList_toArray,
    hdigits _ fun c hc => Nat.isDigit_of_mem_toDigits (by decide) (by decide) hc]
  rfl

/-! ## Digits -/

def digitOf (n : Nat) : UInt8 := UInt8.ofNat (0x30 + n)

theorem toText_lt {n : Nat} (h : n < 10) : toText n = [digitOf n] := by
  have hall : ∀ m < 10, [UInt8.ofNat (Nat.digitChar m).toNat] = [digitOf m] := by decide
  rw [toText, Nat.toDigits_of_lt_base h]
  exact hall n h

theorem toText_ge {n : Nat} (h : 10 ≤ n) : toText n = toText (n / 10) ++ [digitOf (n % 10)] := by
  have hlast := toText_lt (Nat.mod_lt n (by decide : 0 < 10))
  rw [toText, Nat.toDigits_of_lt_base (Nat.mod_lt n (by decide))] at hlast
  rw [toText, Nat.toDigits_of_base_le (by decide) h, List.map_append, ← hlast]
  rfl

theorem toNat_digitOf {n : Nat} (h : n < 10) : (digitOf n).toNat = 0x30 + n := by
  rw [digitOf, UInt8.toNat_ofNat']
  omega

theorem isDigit_digitOf {n : Nat} (h : n < 10) : isDigit (digitOf n) = true := by
  have hall : ∀ m < 10, isDigit (digitOf m) = true := by decide
  exact hall n h

theorem isDigit_iff {byte : UInt8} : isDigit byte = true ↔ 0x30 ≤ byte.toNat ∧ byte.toNat ≤ 0x39 := by
  rw [isDigit, Bool.and_eq_true, decide_eq_true_eq, decide_eq_true_eq, UInt8.le_iff_toNat_le, UInt8.le_iff_toNat_le]
  rfl

theorem digitOf_sub {byte : UInt8} (h : isDigit byte = true) : digitOf (byte.toNat - 0x30) = byte := by
  obtain ⟨hlow, hhigh⟩ := isDigit_iff.mp h
  apply UInt8.toNat_inj.mp
  rw [toNat_digitOf (by omega)]
  omega

theorem decimal_snoc (digits : Bytes) (digit : UInt8) :
    decimal (digits ++ [digit]) = 10 * decimal digits + (digit.toNat - 0x30) := by
  rw [decimal, List.foldl_append]
  rfl

/-- A number has digits, and they are its value. -/
theorem toText_spec (n : Nat) : toText n ≠ [] ∧ (toText n).all isDigit = true ∧ decimal (toText n) = n := by
  induction n using Nat.strongRecOn with
  | ind n ih =>
    by_cases hn : n < 10
    · rw [toText_lt hn]
      refine ⟨List.cons_ne_nil _ _, by simp [isDigit_digitOf hn], ?_⟩
      rw [← List.nil_append [digitOf n], decimal_snoc, toNat_digitOf hn]
      show 10 * 0 + (0x30 + n - 0x30) = n
      omega
    · have hlast : n % 10 < 10 := Nat.mod_lt _ (by decide)
      obtain ⟨-, hall, hvalue⟩ := ih (n / 10) (by omega)
      rw [toText_ge (by omega)]
      refine ⟨List.append_ne_nil_of_right_ne_nil _ (List.cons_ne_nil _ _), ?_, ?_⟩
      · rw [List.all_append, hall, List.all_cons, isDigit_digitOf hlast]
        rfl
      · rw [decimal_snoc, hvalue, toNat_digitOf hlast]
        omega

@[simp] theorem decimal_toText (n : Nat) : decimal (toText n) = n := (toText_spec n).2.2

/-- Digits as they are written: nonempty, and without a leading zero but for zero itself. -/
def canonical (digits : Bytes) : Bool :=
  digits.all isDigit && !digits.isEmpty && (decide (digits.head? ≠ some 0x30) || decide (digits = [0x30]))

theorem head?_toText {n : Nat} (h : n ≠ 0) : (toText n).head? ≠ some 0x30 := by
  induction n using Nat.strongRecOn with
  | ind n ih =>
    by_cases hn : n < 10
    · have hall : ∀ m < 10, m ≠ 0 → digitOf m ≠ 0x30 := by decide
      rw [toText_lt hn]
      intro heq
      exact hall n hn h (Option.some.inj heq)
    · rw [toText_ge (by omega), List.head?_append_of_ne_nil _ (toText_spec _).1]
      exact ih (n / 10) (by omega) (by omega)

theorem canonical_toText (n : Nat) : canonical (toText n) = true := by
  obtain ⟨hne, hall, -⟩ := toText_spec n
  unfold canonical
  rw [hall, List.isEmpty_eq_false_iff.mpr hne]
  by_cases hn : n = 0
  · subst hn
    decide
  · simp [head?_toText hn]

/-- Digits without a leading zero are the text of their value. -/
theorem toText_decimal {digits : Bytes} (h : canonical digits = true) : toText (decimal digits) = digits := by
  simp only [canonical, Bool.and_eq_true, Bool.not_eq_true', Bool.or_eq_true, decide_eq_true_eq] at h
  obtain ⟨⟨hall, hne⟩, hlead⟩ := h
  rcases hlead with hlead | rfl
  · induction digits using List.reverseRecOn with
    | nil => cases hne
    | append_singleton digits digit ih =>
      rw [List.all_append, Bool.and_eq_true, List.all_cons, List.all_nil, Bool.and_true] at hall
      obtain ⟨hall, hdigit⟩ := hall
      obtain ⟨hlow, hhigh⟩ := isDigit_iff.mp hdigit
      rw [decimal_snoc]
      by_cases hnil : digits = []
      · subst hnil
        have hvalue : 10 * decimal [] + (digit.toNat - 0x30) = digit.toNat - 0x30 := Nat.zero_add _
        rw [hvalue, toText_lt (by omega), digitOf_sub hdigit]
        rfl
      · rw [List.head?_append_of_ne_nil _ hnil] at hlead
        have hfirst := ih hall (List.isEmpty_eq_false_iff.mpr hnil) hlead
        have hpos : decimal digits ≠ 0 := by
          intro hzero
          rw [hzero] at hfirst
          exact hlead (by rw [← hfirst]; rfl)
        rw [toText_ge (by omega)]
        have hdiv : (10 * decimal digits + (digit.toNat - 0x30)) / 10 = decimal digits := by omega
        have hmod : (10 * decimal digits + (digit.toNat - 0x30)) % 10 = digit.toNat - 0x30 := by omega
        rw [hdiv, hmod, hfirst, digitOf_sub hdigit]
  · decide

/-- A number has as many digits as its size says. -/
theorem length_toText_le {n k : Nat} (hk : 0 < k) : (toText n).length ≤ k ↔ n < 10 ^ k := by
  induction k generalizing n with
  | zero => exact absurd hk (by decide)
  | succ k ih =>
    by_cases hn : n < 10
    · have hpow : 10 ^ 1 ≤ 10 ^ (k + 1) := Nat.pow_le_pow_right (by decide) (by omega)
      rw [toText_lt hn, List.length_singleton]
      omega
    · rw [toText_ge (by omega), List.length_append, List.length_singleton]
      cases k with
      | zero =>
        have hne : 0 < (toText (n / 10)).length := List.length_pos_iff.mpr (toText_spec _).1
        omega
      | succ k => rw [Nat.add_le_add_iff_right, ih (by omega), Nat.div_lt_iff_lt_mul (by decide), ← Nat.pow_succ]

end PuppetMaster.Core
