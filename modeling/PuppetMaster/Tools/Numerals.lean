/-
  PuppetMaster.Tools.Numerals — what an integer's text is worth (`ParseInteger`).

  `numeral` is the number that a text denotes, without a limit. `ParseInteger` returns bits
  when the digits' number is in the type's range (`parseInteger_eq_some`), and their low
  bytes are the number's (`parseInteger_signed`, `parseInteger_unsigned`); the decimal text
  of a number in range gives its bits back (`parseInteger_toText`, `parseInteger_signedText`).
-/

import PuppetMaster.Tools.PortableFields

namespace PuppetMaster.Tools

open PuppetMaster.Core
open PuppetMaster.Portable (Width)
open PuppetMaster.Lib (putLe getLe length_putLe getLe_putLe putLe_getLe)

/-- The number that digits denote behind the number `before`. -/
def valueOf (base before : Nat) (digits : List Nat) : Nat := digits.foldl (fun n digit => n * base + digit) before

def numeral (text : Bytes) : Option Int :=
  let (negative, unsigned) := splitSign text
  let (base, digits) := splitBase unsigned
  if digits = [] then none
  else do
    let digits ← digits.mapM (digit base)
    let magnitude : Int := valueOf base 0 digits
    return if negative then -magnitude else magnitude

/-! ## Digits -/

theorem le_valueOf {base : Nat} (hbase : 0 < base) (before : Nat) (digits : List Nat) : before ≤ valueOf base before digits := by
  induction digits generalizing before with
  | nil => exact Nat.le_refl _
  | cons digit digits ih =>
    calc before ≤ before * base := Nat.le_mul_of_pos_right before hbase
      _ ≤ before * base + digit := Nat.le_add_right _ _
      _ ≤ valueOf base before (digit :: digits) := ih _

theorem digit_lt {base n : Nat} {byte : UInt8} (h : digit base byte = some n) : n < 2 ^ 64 := by
  have hbyte := byte.toNat_lt
  unfold digit at h
  split at h
  · cases h
    omega
  split at h
  · cases h
    omega
  split at h
  · cases h
    omega
  · cases h

/-- The loop ends with the digits' number exactly when that is below 2^64. -/
theorem foldlM_addDigit {base : Nat} (hbase : 0 < base) (bytes : Bytes) {before result : Nat} (hbefore : before < 2 ^ 64) :
    bytes.foldlM (addDigit base) before = some result ↔
      ∃ digits, bytes.mapM (digit base) = some digits ∧ valueOf base before digits = result ∧ result < 2 ^ 64 := by
  induction bytes generalizing before with
  | nil =>
    constructor
    · intro h
      cases h
      exact ⟨[], rfl, rfl, hbefore⟩
    · intro ⟨digits, hdigits, hvalue, _⟩
      cases hdigits
      exact congrArg some hvalue
  | cons byte bytes ih =>
    rw [List.foldlM_cons, List.mapM_cons, addDigit]
    cases hdigit : digit base byte with
    | none => exact ⟨fun h => (by cases h), fun ⟨_, h, _⟩ => (by cases h)⟩
    | some n =>
      have hn := digit_lt hdigit
      show ((if (2 ^ 64 - 1 - n) / base < before then none else some (before * base + n)) >>= _) = some result ↔ _
      have hguard : (2 ^ 64 - 1 - n) / base < before ↔ 2 ^ 64 ≤ before * base + n := by
        rw [Nat.div_lt_iff_lt_mul hbase]
        omega
      constructor
      · intro h
        split at h
        · cases h
        · next hroom =>
          obtain ⟨digits, hdigits, hvalue, hlt⟩ := (ih (by omega)).mp h
          exact ⟨n :: digits, by rw [hdigits]; rfl, hvalue, hlt⟩
      · intro ⟨digits, hdigits, hvalue, hlt⟩
        obtain ⟨first, hfirst, hdigits⟩ := Option.bind_eq_some_iff.mp hdigits
        obtain ⟨rest, hrest, hcons⟩ := Option.bind_eq_some_iff.mp hdigits
        cases hfirst
        cases hcons
        have hle := le_valueOf hbase (before * base + n) rest
        have hroom : ¬ 2 ^ 64 ≤ before * base + n := by
          have hwhole : valueOf base before (n :: rest) = valueOf base (before * base + n) rest := rfl
          omega
        rw [if_neg (mt hguard.mp hroom)]
        exact (ih (by omega)).mpr ⟨rest, hrest, hvalue, hlt⟩

theorem digit_ten (byte : UInt8) : digit 10 byte = if isDigit byte then some (byte.toNat - 0x30) else none := by
  have hten : ¬ (10 : Nat) = 16 := by decide
  simp only [digit, isDigit, Bool.and_eq_true, decide_eq_true_eq, hten, false_and, if_false]

theorem mapM_digits {base : Nat} {accepts : UInt8 → Bool} {value : UInt8 → Nat}
    (h : ∀ byte, digit base byte = if accepts byte then some (value byte) else none) (bytes : Bytes) :
    bytes.mapM (digit base) = if bytes.all accepts then some (bytes.map value) else none := by
  induction bytes with
  | nil => rfl
  | cons byte bytes ih =>
    rw [List.mapM_cons, h, ih, List.all_cons]
    cases accepts byte <;> cases bytes.all accepts <;> rfl

theorem valueOf_map (base : Nat) (value : UInt8 → Nat) (digits : Bytes) :
    valueOf base 0 (digits.map value) = digits.foldl (fun n digit => base * n + value digit) 0 := by
  unfold valueOf
  rw [List.foldl_map]
  congr 1
  funext n byte
  rw [Nat.mul_comm]

/-! ## What the code splits -/

theorem splitSign_digit {byte : UInt8} (h : isDigit byte = true) (rest : Bytes) :
    splitSign (byte :: rest) = (false, byte :: rest) := by
  unfold splitSign
  split
  · next heq =>
    cases heq
    exact absurd h (by decide)
  · next heq =>
    cases heq
    exact absurd h (by decide)
  · rfl

/-- A text that is not split is not one with a mark and a digit. -/
theorem splitBase_cases (text : Bytes) :
    splitBase text = (10, text) ∨ ∃ mark digits, (mark = 0x78 ∨ mark = 0x58) ∧ digits ≠ [] ∧ text = 0x30 :: mark :: digits := by
  unfold splitBase
  split
  · next h =>
    right
    obtain ⟨hlength, hzero, hmark⟩ := h
    match text, hlength, hzero, hmark with
    | zero :: mark :: digit :: digits, _, hzero, hmark =>
      cases hzero
      refine ⟨mark, digit :: digits, ?_, List.cons_ne_nil _ _, rfl⟩
      rcases hmark with hmark | hmark
      · exact .inl (Option.some.inj hmark)
      · exact .inr (Option.some.inj hmark)
  · exact .inl rfl

theorem splitBase_digits {digits : Bytes} (hall : digits.all isDigit = true) : splitBase digits = (10, digits) := by
  rcases splitBase_cases digits with h | ⟨mark, rest, hmark, -, rfl⟩
  · exact h
  · -- a mark is no digit
    simp only [List.all_cons, Bool.and_eq_true] at hall
    rcases hmark with rfl | rfl
    · exact absurd hall.2.1 (by decide)
    · exact absurd hall.2.1 (by decide)

theorem splitBase_pos (text : Bytes) : 0 < (splitBase text).1 := by
  unfold splitBase
  split
  · exact Nat.succ_pos 15
  · exact Nat.succ_pos 9

/-! ## Bits -/

theorem half_bits (w : Width) : 2 * 2 ^ (8 * w.bytes - 1) = 256 ^ w.bytes := by cases w <;> rfl

theorem all_bits (w : Width) : 2 ^ (8 * w.bytes) = 256 ^ w.bytes := by cases w <;> rfl

theorem bits_fit (w : Width) : w.bytes ≤ 8 ∧ 256 ^ w.bytes ≤ 2 ^ 64 := by cases w <;> decide

theorem putLe_mod (w n : Nat) : putLe w (n % 256 ^ w) = putLe w n := by
  have h := putLe_getLe (putLe w n)
  rwa [getLe_putLe, length_putLe] at h

/-- The two's complement in 64 bits and in fewer have the same low bytes. -/
theorem putLe_negated {w magnitude : Nat} (hw : w ≤ 8) (hle : magnitude ≤ 2 ^ 64) :
    putLe w ((2 ^ 64 - magnitude) % 2 ^ 64) = putLe w (-(magnitude : Int) % (256 ^ w : Nat)).toNat := by
  have hdvd : 256 ^ w ∣ 2 ^ 64 := by
    have h := Nat.pow_dvd_pow 256 hw
    exact h
  rw [← putLe_mod w ((2 ^ 64 - magnitude) % 2 ^ 64)]
  congr 1
  rw [Nat.mod_mod_of_dvd _ hdvd]
  have hpos : 0 < 256 ^ w := Nat.pow_pos (by decide)
  obtain ⟨k, hk⟩ := hdvd
  have hint : (((2 ^ 64 - magnitude) % 256 ^ w : Nat) : Int) = -(magnitude : Int) % (256 ^ w : Nat) := by
    rw [Int.natCast_mod, Int.natCast_sub hle, hk, Int.natCast_mul]
    have : ((256 ^ w : Nat) : Int) * k - magnitude = -(magnitude : Int) + (256 ^ w : Nat) * k := by omega
    rw [this, Int.add_mul_emod_self_left]
  rw [← hint, Int.toNat_natCast]

/-- The low bytes of what `ParseInteger` returns are those of the number. -/
theorem putLe_bits (w : Width) (negative : Bool) {n : Nat} (hlt : n < 2 ^ 64) :
    putLe w.bytes (if negative then (2 ^ 64 - n) % 2 ^ 64 else n) =
      putLe w.bytes ((if negative then -(n : Int) else n) % 256 ^ w.bytes).toNat := by
  have hpow : ((256 ^ w.bytes : Nat) : Int) = 256 ^ w.bytes := Int.natCast_pow 256 _
  cases negative with
  | true =>
    simp only [if_true]
    rw [putLe_negated (bits_fit w).1 (Nat.le_of_lt hlt), hpow]
  | false =>
    simp only [Bool.false_eq_true, if_false]
    rw [← hpow, ← Int.natCast_mod, Int.toNat_natCast, putLe_mod]

/-! ## The range of a type -/

def InRange (signed : Bool) (w : Width) (value : Int) : Prop :=
  if signed then -(2 ^ (8 * w.bytes - 1)) ≤ value ∧ value < 2 ^ (8 * w.bytes - 1)
  else 0 ≤ value ∧ value < 2 ^ (8 * w.bytes)

theorem inRange_signed {w : Width} {value : Int} :
    InRange true w value ↔ -(256 ^ w.bytes) ≤ 2 * value ∧ 2 * value < 256 ^ w.bytes := by
  have hhalf : ((2 ^ (8 * w.bytes - 1) : Nat) : Int) = 2 ^ (8 * w.bytes - 1) := Int.natCast_pow 2 _
  have hpow : ((256 ^ w.bytes : Nat) : Int) = 256 ^ w.bytes := Int.natCast_pow 256 _
  have hbits := half_bits w
  show -(2 ^ (8 * w.bytes - 1)) ≤ value ∧ value < 2 ^ (8 * w.bytes - 1) ↔ _
  rw [← hhalf, ← hpow]
  omega

theorem inRange_unsigned {w : Width} {n : Nat} : InRange false w (n : Int) ↔ n < 256 ^ w.bytes := by
  have hall : ((2 ^ (8 * w.bytes) : Nat) : Int) = 2 ^ (8 * w.bytes) := Int.natCast_pow 2 _
  have hbits := all_bits w
  show 0 ≤ (n : Int) ∧ (n : Int) < 2 ^ (8 * w.bytes) ↔ _
  rw [← hall]
  omega

/-- What stands behind the loop. -/
def rangeChecked (signed negative : Bool) (width magnitude : Nat) : Option Nat :=
  let bitWidth := 8 * width
  if signed then
    let limit := 2 ^ (bitWidth - 1)
    if if negative then limit < magnitude else limit ≤ magnitude then none
    else some (if negative then (2 ^ 64 - magnitude) % 2 ^ 64 else magnitude)
  else if bitWidth < 64 ∧ magnitude / 2 ^ bitWidth ≠ 0 then none
  else some magnitude

/-- Beyond 64 bits nothing is in range, so the loop may stop there. -/
theorem lt_of_inRange {w : Width} {signed negative : Bool} {n : Nat}
    (h : InRange signed w (if negative then -(n : Int) else n)) : n < 2 ^ 64 := by
  have hhalf := half_bits w
  have hall := all_bits w
  have hfits := (bits_fit w).2
  have hhalf' : ((2 ^ (8 * w.bytes - 1) : Nat) : Int) = 2 ^ (8 * w.bytes - 1) := Int.natCast_pow 2 _
  have hall' : ((2 ^ (8 * w.bytes) : Nat) : Int) = 2 ^ (8 * w.bytes) := Int.natCast_pow 2 _
  unfold InRange at h
  rw [← hhalf', ← hall'] at h
  cases signed <;> cases negative <;> simp only [Bool.false_eq_true, if_true, if_false] at h <;> omega

theorem rangeChecked_iff {w : Width} {signed negative : Bool} {n bits : Nat} (hlt : n < 2 ^ 64)
    (hsigned : negative = true → signed = true) :
    rangeChecked signed negative w.bytes n = some bits ↔
      InRange signed w (if negative then -(n : Int) else n) ∧ bits = if negative then (2 ^ 64 - n) % 2 ^ 64 else n := by
  have hhalf' : ((2 ^ (8 * w.bytes - 1) : Nat) : Int) = 2 ^ (8 * w.bytes - 1) := Int.natCast_pow 2 _
  have hall' : ((2 ^ (8 * w.bytes) : Nat) : Int) = 2 ^ (8 * w.bytes) := Int.natCast_pow 2 _
  have hpos : 0 < 2 ^ (8 * w.bytes - 1) := Nat.pow_pos (by decide)
  unfold rangeChecked InRange
  rw [← hhalf', ← hall']
  cases signed with
  | true =>
    cases negative with
    | true =>
      simp only [if_true]
      rw [Option.ite_none_left_eq_some, Option.some_inj]
      constructor
      · rintro ⟨hle, rfl⟩
        exact ⟨⟨by omega, by omega⟩, rfl⟩
      · rintro ⟨⟨hlow, -⟩, rfl⟩
        exact ⟨by omega, rfl⟩
    | false =>
      simp only [if_true, Bool.false_eq_true, if_false]
      rw [Option.ite_none_left_eq_some, Option.some_inj]
      constructor
      · rintro ⟨hle, rfl⟩
        exact ⟨⟨by omega, by omega⟩, rfl⟩
      · rintro ⟨⟨-, hhigh⟩, rfl⟩
        exact ⟨by omega, rfl⟩
  | false =>
    cases negative with
    | true => exact absurd (hsigned rfl) Bool.false_ne_true
    | false =>
      have hpos : 0 < 2 ^ (8 * w.bytes) := Nat.pow_pos (by decide)
      have hfits : ¬ (8 * w.bytes < 64 ∧ n / 2 ^ (8 * w.bytes) ≠ 0) ↔ n < 2 ^ (8 * w.bytes) := by
        rw [not_and, not_not, Nat.div_eq_zero_iff]
        constructor
        · intro h
          by_cases hwidth : 8 * w.bytes < 64
          · exact (h hwidth).resolve_left (Nat.ne_of_gt hpos)
          · have hwide : w = .eight := by cases w <;> first | rfl | exact absurd (by decide) hwidth
            subst hwide
            exact hlt
        · exact fun h _ => .inr h
      simp only [Bool.false_eq_true, if_false]
      rw [Option.ite_none_left_eq_some, Option.some_inj, hfits]
      constructor
      · rintro ⟨hle, rfl⟩
        exact ⟨⟨by omega, by omega⟩, rfl⟩
      · rintro ⟨⟨-, hhigh⟩, rfl⟩
        exact ⟨by omega, rfl⟩

/-! ## Integers -/

/-- What the loop goes through, and the number it should end with. -/
theorem parseInteger_eq_some {text : Bytes} {signed : Bool} {w : Width} {bits : Nat} :
    parseInteger text signed w.bytes = some bits ↔ ∃ n, ((splitBase (splitSign text).2).2 ≠ []
        ∧ ∃ values, (splitBase (splitSign text).2).2.mapM (digit (splitBase (splitSign text).2).1) = some values
          ∧ valueOf (splitBase (splitSign text).2).1 0 values = n)
      ∧ ((splitSign text).1 = true → signed = true)
      ∧ InRange signed w (if (splitSign text).1 then -(n : Int) else n)
      ∧ bits = if (splitSign text).1 then (2 ^ 64 - n) % 2 ^ 64 else n := by
  have hcode : parseInteger text signed w.bytes =
      if (splitSign text).1 = true ∧ ¬ signed = true ∨ (splitBase (splitSign text).2).2 = [] then none
      else ((splitBase (splitSign text).2).2.foldlM (addDigit (splitBase (splitSign text).2).1) 0).bind
        (rangeChecked signed (splitSign text).1 w.bytes) := rfl
  rw [hcode, Option.ite_none_left_eq_some, not_or, not_and, not_not, Option.bind_eq_some_iff]
  have hloop (n : Nat) :=
    @foldlM_addDigit _ (splitBase_pos (splitSign text).2) (splitBase (splitSign text).2).2 0 n (by decide)
  constructor
  · rintro ⟨⟨hsigned, hne⟩, n, hn, hbits⟩
    obtain ⟨values, hvalues, hvalue, hlt⟩ := (hloop n).mp hn
    obtain ⟨hrange, rfl⟩ := (rangeChecked_iff hlt hsigned).mp hbits
    exact ⟨n, ⟨hne, values, hvalues, hvalue⟩, hsigned, hrange, rfl⟩
  · rintro ⟨n, ⟨hne, values, hvalues, hvalue⟩, hsigned, hrange, rfl⟩
    have hlt := lt_of_inRange hrange
    exact ⟨⟨hsigned, hne⟩, n, (hloop n).mpr ⟨values, hvalues, hvalue, hlt⟩, (rangeChecked_iff hlt hsigned).mpr ⟨hrange, rfl⟩⟩

theorem numeral_of_values {text : Bytes} {values : List Nat} (hne : (splitBase (splitSign text).2).2 ≠ [])
    (hvalues : (splitBase (splitSign text).2).2.mapM (digit (splitBase (splitSign text).2).1) = some values) :
    numeral text = some (if (splitSign text).1 then -(valueOf (splitBase (splitSign text).2).1 0 values : Int)
      else valueOf (splitBase (splitSign text).2).1 0 values) := by
  unfold numeral
  dsimp only
  rw [if_neg hne, hvalues]
  rfl

theorem parseInteger_signed {w : Width} {text : Bytes} {bits : Nat} (h : parseInteger text true w.bytes = some bits) :
    ∃ n : Int, numeral text = some n ∧ (-(256 ^ w.bytes) ≤ 2 * n ∧ 2 * n < 256 ^ w.bytes)
      ∧ putLe w.bytes bits = putLe w.bytes (n % 256 ^ w.bytes).toNat := by
  obtain ⟨n, ⟨hne, values, hvalues, rfl⟩, -, hrange, rfl⟩ := parseInteger_eq_some.mp h
  exact ⟨_, numeral_of_values hne hvalues, inRange_signed.mp hrange, putLe_bits w _ (lt_of_inRange hrange)⟩

theorem parseInteger_unsigned {w : Width} {text : Bytes} {bits : Nat} (h : parseInteger text false w.bytes = some bits) :
    numeral text = some (bits : Int) ∧ bits < 256 ^ w.bytes := by
  obtain ⟨n, ⟨hne, values, hvalues, rfl⟩, hsigned, hrange, rfl⟩ := parseInteger_eq_some.mp h
  have hpositive : (splitSign text).1 = false := Bool.eq_false_iff.mpr fun hneg => Bool.false_ne_true (hsigned hneg)
  have hnumeral := numeral_of_values hne hvalues
  simp only [hpositive, Bool.false_eq_true, if_false] at hrange hnumeral ⊢
  exact ⟨hnumeral, inRange_unsigned.mp hrange⟩

/-! ## Texts of numbers -/

theorem mapM_digit {digits : Bytes} (h : digits.all isDigit = true) :
    digits.mapM (digit 10) = some (digits.map fun byte => byte.toNat - 0x30) :=
  (mapM_digits digit_ten digits).trans (if_pos h)

theorem valueOf_decimal (digits : Bytes) : valueOf 10 0 (digits.map fun byte => byte.toNat - 0x30) = decimal digits :=
  valueOf_map 10 _ digits

/-- A number's own text has no sign and no mark of a base. -/
theorem splitSign_toText (n : Nat) : splitSign (toText n) = (false, toText n) := by
  obtain ⟨hne, hall, -⟩ := toText_spec n
  obtain ⟨byte, digits, hdigits⟩ := List.exists_cons_of_ne_nil hne
  rw [hdigits, List.all_cons, Bool.and_eq_true] at hall
  rw [hdigits]
  exact splitSign_digit hall.1 digits

theorem splitBase_toText (n : Nat) : splitBase (toText n) = (10, toText n) := splitBase_digits (toText_spec n).2.1

theorem splitSign_signedText (n : Int) : splitSign (signedText n) = (decide (n < 0), toText n.natAbs) := by
  unfold signedText
  split
  · next hneg =>
    rw [text_minus, decide_eq_true hneg]
    rfl
  · next hpos => rw [splitSign_toText, decide_eq_false hpos]

/-- What `ParseInteger` makes of a sign and a number's own text. -/
theorem parseInteger_digits {text : Bytes} {signed negative : Bool} {w : Width} {n : Nat}
    (htext : splitSign text = (negative, toText n)) (hsigned : negative = true → signed = true)
    (hrange : InRange signed w (if negative then -(n : Int) else n)) :
    parseInteger text signed w.bytes = some (if negative then (2 ^ 64 - n) % 2 ^ 64 else n) := by
  obtain ⟨hne, hall, hvalue⟩ := toText_spec n
  rw [parseInteger_eq_some, htext, splitBase_toText]
  exact ⟨n, ⟨hne, _, mapM_digit hall, (valueOf_decimal _).trans hvalue⟩, hsigned, hrange, rfl⟩

theorem parseInteger_toText {w : Width} {n : Nat} (h : n < 256 ^ w.bytes) : parseInteger (toText n) false w.bytes = some n :=
  parseInteger_digits (splitSign_toText n) (fun hneg => absurd hneg Bool.false_ne_true) (inRange_unsigned.mpr h)

theorem parseInteger_signedText {w : Width} {n : Int} (hlow : -(256 ^ w.bytes) ≤ 2 * n) (hhigh : 2 * n < 256 ^ w.bytes) :
    ∃ bits, parseInteger (signedText n) true w.bytes = some bits
      ∧ putLe w.bytes bits = putLe w.bytes (n % 256 ^ w.bytes).toNat := by
  have hvalue : (if decide (n < 0) = true then -(n.natAbs : Int) else n.natAbs) = n := by
    simp only [decide_eq_true_eq]
    split <;> omega
  have hrange : InRange true w n := inRange_signed.mpr ⟨hlow, hhigh⟩
  rw [← hvalue] at hrange
  refine ⟨_, parseInteger_digits (splitSign_signedText n) (fun _ => rfl) hrange, ?_⟩
  rw [putLe_bits w _ (lt_of_inRange hrange), hvalue]

end PuppetMaster.Tools
