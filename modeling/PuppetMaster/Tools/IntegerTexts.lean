/-
  PuppetMaster.Tools.IntegerTexts — which texts `ParseInteger` accepts, and what their bits are.

  `IntegerText` is the grammar: a sign, then decimal digits, or hexadecimal ones behind
  their mark, with the number that they denote. `Machine.parseInteger` is the function on
  64-bit words that wrap; it computes the bits of `parseInteger` (`Machine.parseInteger_eq`),
  since the guard before each digit leaves nothing to wrap (`Machine.exactTurn`).

  `parse_integer_accepts`: it accepts the texts of the numbers that the type holds, and the
  low bits of its result are those of the number.
-/

import PuppetMaster.Tools.Numerals

namespace PuppetMaster.Tools

open PuppetMaster.Core
open PuppetMaster.Lib (of_byte_numbers)
open PuppetMaster.Portable (Width)

/-! ## The grammar -/

def isHexDigit (byte : UInt8) : Bool :=
  isDigit byte || (0x61 ≤ byte && byte ≤ 0x66) || (0x41 ≤ byte && byte ≤ 0x46)

def hexValue (byte : UInt8) : Nat :=
  if isDigit byte then byte.toNat - 0x30
  else if 0x61 ≤ byte then byte.toNat - 0x61 + 10
  else byte.toNat - 0x41 + 10

def hexadecimal (digits : Bytes) : Nat := digits.foldl (fun n digit => 16 * n + hexValue digit) 0

/-- One or more decimal digits, or `0x` or `0X` and one or more hexadecimal digits. -/
inductive Magnitude : Bytes → Nat → Prop
  | decimal {digits : Bytes} (hne : digits ≠ []) (hall : digits.all isDigit = true) :
    Magnitude digits (decimal digits)
  | hexadecimal {mark : UInt8} {digits : Bytes} (hmark : mark = 0x78 ∨ mark = 0x58) (hne : digits ≠ [])
    (hall : digits.all isHexDigit = true) : Magnitude (0x30 :: mark :: digits) (hexadecimal digits)

/-- A magnitude with an optional sign; a minus sign stands only before a signed number. -/
inductive IntegerText (signed : Bool) : Bytes → Int → Prop
  | plain {text : Bytes} {n : Nat} (h : Magnitude text n) : IntegerText signed text n
  | plus {text : Bytes} {n : Nat} (h : Magnitude text n) : IntegerText signed (0x2b :: text) n
  | minus {text : Bytes} {n : Nat} (hsigned : signed = true) (h : Magnitude text n) :
    IntegerText signed (0x2d :: text) (-(n : Int))

/-! ## Digits -/

theorem digit_sixteen (byte : UInt8) : digit 16 byte = if isHexDigit byte then some (hexValue byte) else none := by
  have hall : ∀ byte, digit 16 byte = if isHexDigit byte then some (hexValue byte) else none :=
    of_byte_numbers (by decide +kernel)
  exact hall byte

theorem valueOf_hexadecimal (digits : Bytes) : valueOf 16 0 (digits.map hexValue) = hexadecimal digits :=
  valueOf_map 16 hexValue digits

/-! ## What the code splits -/

theorem splitBase_hexadecimal {mark : UInt8} {digits : Bytes} (hmark : mark = 0x78 ∨ mark = 0x58) (hne : digits ≠ []) :
    splitBase (0x30 :: mark :: digits) = (16, digits) := by
  have hlength := List.length_pos_iff.mpr hne
  unfold splitBase
  rw [if_pos]
  · rfl
  · refine ⟨?_, rfl, ?_⟩
    · simp only [List.length_cons]
      omega
    · rcases hmark with rfl | rfl
      · exact .inl rfl
      · exact .inr rfl

/-- What the loop goes through, and the number it should end with. -/
theorem magnitude_iff {text : Bytes} {n : Nat} :
    Magnitude text n ↔ (splitBase text).2 ≠ [] ∧
      ∃ values, (splitBase text).2.mapM (digit (splitBase text).1) = some values
        ∧ valueOf (splitBase text).1 0 values = n := by
  constructor
  · intro h
    cases h with
    | decimal hne hall =>
      rw [splitBase_digits hall]
      exact ⟨hne, _, mapM_digit hall, valueOf_decimal _⟩
    | hexadecimal hmark hne hall =>
      rw [splitBase_hexadecimal hmark hne]
      exact ⟨hne, _, (mapM_digits digit_sixteen _).trans (if_pos hall), valueOf_hexadecimal _⟩
  · rintro ⟨hne, values, hvalues, rfl⟩
    rcases splitBase_cases text with h | ⟨mark, digits, hmark, hdigits, rfl⟩
    · rw [h] at hne hvalues ⊢
      dsimp only at hne hvalues ⊢
      rw [mapM_digits digit_ten] at hvalues
      split at hvalues
      · next hall =>
        cases hvalues
        rw [valueOf_decimal]
        exact .decimal hne hall
      · cases hvalues
    · rw [splitBase_hexadecimal hmark hdigits] at hvalues ⊢
      dsimp only at hvalues ⊢
      rw [mapM_digits digit_sixteen] at hvalues
      split at hvalues
      · next hall =>
        cases hvalues
        rw [valueOf_hexadecimal]
        exact .hexadecimal hmark hdigits hall
      · cases hvalues

theorem Magnitude.isDigit_head {text : Bytes} {n : Nat} (h : Magnitude text n) :
    ∃ byte rest, text = byte :: rest ∧ isDigit byte = true := by
  cases h with
  | decimal hne hall =>
    obtain ⟨byte, rest, rfl⟩ := List.exists_cons_of_ne_nil hne
    rw [List.all_cons, Bool.and_eq_true] at hall
    exact ⟨byte, rest, rfl, hall.1⟩
  | hexadecimal hmark hne hall => exact ⟨0x30, _, rfl, by decide⟩

theorem Magnitude.splitSign_eq {text : Bytes} {n : Nat} (h : Magnitude text n) : splitSign text = (false, text) := by
  obtain ⟨byte, rest, rfl, hdigit⟩ := h.isDigit_head
  exact splitSign_digit hdigit rest

theorem integerText_iff {signed : Bool} {text : Bytes} {value : Int} :
    IntegerText signed text value ↔ ∃ n, Magnitude (splitSign text).2 n ∧ ((splitSign text).1 = true → signed = true)
      ∧ value = if (splitSign text).1 then -(n : Int) else n := by
  constructor
  · intro h
    cases h with
    | plain h =>
      rw [h.splitSign_eq]
      exact ⟨_, h, fun hfalse => absurd hfalse Bool.false_ne_true, rfl⟩
    | plus h => exact ⟨_, h, fun hfalse => absurd hfalse Bool.false_ne_true, rfl⟩
    | minus hsigned h => exact ⟨_, h, fun _ => hsigned, rfl⟩
  · rintro ⟨n, hmagnitude, hsigned, rfl⟩
    unfold splitSign at hmagnitude hsigned ⊢
    split at hmagnitude
    · exact .minus (hsigned rfl) hmagnitude
    · exact .plus hmagnitude
    · exact .plain hmagnitude

theorem Magnitude.unique {text : Bytes} {n m : Nat} (h : Magnitude text n) (h' : Magnitude text m) : n = m := by
  obtain ⟨-, values, hvalues, rfl⟩ := magnitude_iff.mp h
  obtain ⟨-, values', hvalues', rfl⟩ := magnitude_iff.mp h'
  cases hvalues.symm.trans hvalues'
  rfl

theorem parseInteger_iff {text : Bytes} {signed : Bool} {w : Width} {bits : Nat} :
    parseInteger text signed w.bytes = some bits ↔ ∃ n, Magnitude (splitSign text).2 n
      ∧ ((splitSign text).1 = true → signed = true)
      ∧ InRange signed w (if (splitSign text).1 then -(n : Int) else n)
      ∧ bits = if (splitSign text).1 then (2 ^ 64 - n) % 2 ^ 64 else n := by
  simp only [magnitude_iff]
  exact parseInteger_eq_some

/-! ## In machine words -/

namespace Machine

def digit (base : UInt64) (byte : UInt8) : Option UInt64 :=
  if 0x30 ≤ byte ∧ byte ≤ 0x39 then some (byte.toUInt64 - 0x30)
  else if base = 16 ∧ 0x61 ≤ byte ∧ byte ≤ 0x66 then some (byte.toUInt64 - 0x61 + 10)
  else if base = 16 ∧ 0x41 ≤ byte ∧ byte ≤ 0x46 then some (byte.toUInt64 - 0x41 + 10)
  else none

/-- One turn of the digit loop. -/
def addDigit (base magnitude : UInt64) (byte : UInt8) : Option UInt64 := do
  let digit ← digit base byte
  if (0xffffffffffffffff - digit) / base < magnitude then none else some (magnitude * base + digit)

def parseInteger (text : Bytes) (signed : Bool) (width : UInt64) : Option UInt64 :=
  let (negative, unsigned) := splitSign text
  let (base, digits) := splitBase unsigned
  if negative ∧ ¬ signed ∨ digits = [] then none
  else do
    let magnitude ← digits.foldlM (addDigit (.ofNat base)) 0
    let bitWidth := 8 * width
    if signed then
      let limit := (1 : UInt64) <<< (bitWidth - 1)
      if if negative then limit < magnitude else limit ≤ magnitude then none
      else some (if negative then ~~~magnitude + 1 else magnitude)
    else if bitWidth < 64 ∧ magnitude >>> bitWidth ≠ 0 then none
    else some magnitude

/-- The two bases of the code. -/
def IsBase (base : UInt64) : Prop := base = 10 ∨ base = 16

theorem toNat_digit {base : UInt64} (byte : UInt8) : (digit base byte).map UInt64.toNat = Tools.digit base.toNat byte := by
  have hbyte := byte.toNat_lt
  have hsixteen : base = 16 ↔ base.toNat = 16 := UInt64.toNat_inj.symm
  have hword : byte.toUInt64.toNat = byte.toNat := UInt8.toNat_toUInt64 byte
  unfold digit Tools.digit
  simp only [hsixteen]
  split
  · next h =>
    have hlow : 0x30 ≤ byte.toNat := UInt8.le_iff_toNat_le.mp h.1
    rw [Option.map_some, UInt64.toNat_sub_of_le _ _ (UInt64.le_iff_toNat_le.mpr (hword ▸ hlow)), hword]
    rfl
  split
  · next h =>
    have hlow : 0x61 ≤ byte.toNat := UInt8.le_iff_toNat_le.mp h.2.1
    rw [Option.map_some, UInt64.toNat_add, UInt64.toNat_sub_of_le _ _ (UInt64.le_iff_toNat_le.mpr (hword ▸ hlow)), hword]
    show some ((byte.toNat - 0x61 + 10) % 2 ^ 64) = _
    rw [Nat.mod_eq_of_lt (by omega)]
  split
  · next h =>
    have hlow : 0x41 ≤ byte.toNat := UInt8.le_iff_toNat_le.mp h.2.1
    rw [Option.map_some, UInt64.toNat_add, UInt64.toNat_sub_of_le _ _ (UInt64.le_iff_toNat_le.mpr (hword ▸ hlow)), hword]
    show some ((byte.toNat - 0x41 + 10) % 2 ^ 64) = _
    rw [Nat.mod_eq_of_lt (by omega)]
  · rfl

/-- What one turn computes does not wrap: not the difference in the guard, not the product,
    not the sum. -/
def ExactTurn (base magnitude : UInt64) (byte : UInt8) : Prop :=
  ∀ d, digit base byte = some d → d.toNat < base.toNat
    ∧ (0xffffffffffffffff - d).toNat = 2 ^ 64 - 1 - d.toNat
    ∧ (addDigit base magnitude byte = none ↔ 2 ^ 64 ≤ magnitude.toNat * base.toNat + d.toNat)
    ∧ ∀ next, addDigit base magnitude byte = some next → (magnitude * base).toNat = magnitude.toNat * base.toNat
      ∧ next.toNat = magnitude.toNat * base.toNat + d.toNat

theorem digit_lt_base {base : Nat} {byte : UInt8} {d : Nat} (hbase : base = 10 ∨ base = 16)
    (h : Tools.digit base byte = some d) : d < base := by
  have hten : ∀ byte, (Tools.digit 10 byte).getD 0 < 10 := of_byte_numbers (by decide +kernel)
  have hsixteen : ∀ byte, (Tools.digit 16 byte).getD 0 < 16 := of_byte_numbers (by decide +kernel)
  rcases hbase with rfl | rfl
  · have hvalue := hten byte
    rwa [h] at hvalue
  · have hvalue := hsixteen byte
    rwa [h] at hvalue

theorem exactTurn {base : UInt64} (hbase : IsBase base) (magnitude : UInt64) (byte : UInt8) : ExactTurn base magnitude byte := by
  have hbase' : base.toNat = 10 ∨ base.toNat = 16 := hbase.imp (congrArg UInt64.toNat) (congrArg UInt64.toNat)
  intro d hd
  have hlt : d.toNat < base.toNat := by
    have hnat : Tools.digit base.toNat byte = some d.toNat := by
      rw [← toNat_digit, hd]
      rfl
    exact digit_lt_base hbase' hnat
  have hmax : (0xffffffffffffffff : UInt64).toNat = 2 ^ 64 - 1 := by decide
  have hroom : (0xffffffffffffffff - d).toNat = 2 ^ 64 - 1 - d.toNat := by
    rw [UInt64.toNat_sub_of_le _ _ (UInt64.le_iff_toNat_le.mpr (by rw [hmax]; omega)), hmax]
  have hguard : (0xffffffffffffffff - d) / base < magnitude ↔ 2 ^ 64 ≤ magnitude.toNat * base.toNat + d.toNat := by
    rw [UInt64.lt_iff_toNat_lt, UInt64.toNat_div, hroom, Nat.div_lt_iff_lt_mul (by omega)]
    omega
  have hcode : addDigit base magnitude byte =
      if (0xffffffffffffffff - d) / base < magnitude then none else some (magnitude * base + d) := by
    rw [addDigit, hd, Option.bind_eq_bind, Option.bind_some]
  refine ⟨hlt, hroom, ?_, ?_⟩
  · rw [hcode, ← hguard]
    split
    · next h => exact ⟨fun _ => h, fun _ => rfl⟩
    · next h => exact ⟨fun hsome => (by cases hsome), fun hwrap => absurd hwrap h⟩
  · intro next hnext
    rw [hcode] at hnext
    split at hnext
    · cases hnext
    · next h =>
      cases hnext
      have hfits := mt hguard.mpr h
      have hproduct : (magnitude * base).toNat = magnitude.toNat * base.toNat := by
        rw [UInt64.toNat_mul, Nat.mod_eq_of_lt (by omega)]
      refine ⟨hproduct, ?_⟩
      rw [UInt64.toNat_add, hproduct, Nat.mod_eq_of_lt (by omega)]

theorem toNat_addDigit {base : UInt64} (hbase : IsBase base) (magnitude : UInt64) (byte : UInt8) :
    (addDigit base magnitude byte).map UInt64.toNat = Tools.addDigit base.toNat magnitude.toNat byte := by
  have hpos : 0 < base.toNat := by
    rcases hbase with rfl | rfl
    · decide
    · decide
  rw [Tools.addDigit, ← toNat_digit]
  cases hd : digit base byte with
  | none =>
    rw [addDigit, hd]
    rfl
  | some d =>
    obtain ⟨hlt, -, hnone, hsome⟩ := exactTurn hbase magnitude byte d hd
    have hguard : (2 ^ 64 - 1 - d.toNat) / base.toNat < magnitude.toNat ↔ 2 ^ 64 ≤ magnitude.toNat * base.toNat + d.toNat := by
      have := d.toNat_lt
      rw [Nat.div_lt_iff_lt_mul hpos]
      omega
    show _ = if (2 ^ 64 - 1 - d.toNat) / base.toNat < magnitude.toNat then none
      else some (magnitude.toNat * base.toNat + d.toNat)
    cases hnext : addDigit base magnitude byte with
    | none => exact (if_pos (hguard.mpr (hnone.mp hnext))).symm
    | some next =>
      rw [if_neg, Option.map_some, (hsome next hnext).2]
      intro h
      rw [hnone.mpr (hguard.mp h)] at hnext
      cases hnext

theorem toNat_foldlM {base : UInt64} (hbase : IsBase base) (digits : Bytes) (magnitude : UInt64) :
    (digits.foldlM (addDigit base) magnitude).map UInt64.toNat =
      digits.foldlM (Tools.addDigit base.toNat) magnitude.toNat := by
  induction digits generalizing magnitude with
  | nil => rfl
  | cons byte digits ih =>
    rw [List.foldlM_cons, List.foldlM_cons, ← toNat_addDigit hbase]
    cases addDigit base magnitude byte with
    | none => rfl
    | some next => exact ih next

/-- What stands behind the loop. -/
def rangeChecked (signed negative : Bool) (width magnitude : UInt64) : Option UInt64 :=
  let bitWidth := 8 * width
  if signed then
    let limit := (1 : UInt64) <<< (bitWidth - 1)
    if if negative then limit < magnitude else limit ≤ magnitude then none
    else some (if negative then ~~~magnitude + 1 else magnitude)
  else if bitWidth < 64 ∧ magnitude >>> bitWidth ≠ 0 then none
  else some magnitude

/-- `~magnitude + 1` is the two's complement. -/
theorem toNat_negated (magnitude : UInt64) : (~~~magnitude + 1).toNat = (2 ^ 64 - magnitude.toNat) % 2 ^ 64 := by
  have hlt := magnitude.toNat_lt
  have hone : (1 : UInt64).toNat = 1 := rfl
  rw [UInt64.toNat_add, UInt64.toNat_not, hone]
  have hsize : UInt64.size = 2 ^ 64 := rfl
  rw [hsize]
  congr 1
  omega

theorem toNat_rangeChecked (signed negative : Bool) (w : Width) (magnitude : UInt64) :
    (rangeChecked signed negative (.ofNat w.bytes) magnitude).map UInt64.toNat =
      Tools.rangeChecked signed negative w.bytes magnitude.toNat := by
  have hlimit : ((1 : UInt64) <<< (8 * UInt64.ofNat w.bytes - 1)).toNat = 2 ^ (8 * w.bytes - 1) := by
    cases w <;> decide
  have hnarrow : 8 * UInt64.ofNat w.bytes < 64 ↔ 8 * w.bytes < 64 := by
    cases w <;> decide
  have hshift : 8 * w.bytes < 64 → (magnitude >>> (8 * UInt64.ofNat w.bytes) ≠ 0 ↔ magnitude.toNat / 2 ^ (8 * w.bytes) ≠ 0) := by
    intro hwidth
    have hbits : (8 * UInt64.ofNat w.bytes).toNat % 64 = 8 * w.bytes := by
      cases w <;> first | rfl | exact absurd hwidth (by decide)
    rw [ne_eq, ← UInt64.toNat_inj, UInt64.toNat_shiftRight, hbits, Nat.shiftRight_eq_div_pow]
    rfl
  unfold rangeChecked Tools.rangeChecked
  cases signed with
  | true =>
    cases negative with
    | true =>
      simp only [if_true, UInt64.lt_iff_toNat_lt, hlimit]
      split
      · rfl
      · exact congrArg some (toNat_negated magnitude)
    | false =>
      simp only [if_true, Bool.false_eq_true, if_false, UInt64.le_iff_toNat_le, hlimit]
      split
      · rfl
      · rfl
  | false =>
    have hchecks : (8 * UInt64.ofNat w.bytes < 64 ∧ magnitude >>> (8 * UInt64.ofNat w.bytes) ≠ 0) ↔
        8 * w.bytes < 64 ∧ magnitude.toNat / 2 ^ (8 * w.bytes) ≠ 0 := by
      rw [hnarrow]
      exact and_congr_right hshift
    simp only [Bool.false_eq_true, if_false]
    by_cases h : 8 * w.bytes < 64 ∧ magnitude.toNat / 2 ^ (8 * w.bytes) ≠ 0
    · rw [if_pos h, if_pos (hchecks.mpr h)]
      rfl
    · rw [if_neg h, if_neg (mt hchecks.mp h)]
      rfl

theorem isBase_splitBase (text : Bytes) : IsBase (.ofNat (splitBase text).1) := by
  rcases splitBase_cases text with h | ⟨mark, digits, hmark, hne, rfl⟩
  · rw [h]
    exact .inl rfl
  · rw [splitBase_hexadecimal hmark hne]
    exact .inr rfl

/-- On words the function computes the same bits. -/
theorem parseInteger_eq (text : Bytes) (signed : Bool) (w : Width) :
    (parseInteger text signed (.ofNat w.bytes)).map UInt64.toNat = Tools.parseInteger text signed w.bytes := by
  have hbase : (UInt64.ofNat (splitBase (splitSign text).2).1).toNat = (splitBase (splitSign text).2).1 := by
    rcases splitBase_cases (splitSign text).2 with h | ⟨mark, digits, hmark, hne, h⟩
    · rw [h]
      rfl
    · rw [h, splitBase_hexadecimal hmark hne]
      rfl
  have hloop := toNat_foldlM (isBase_splitBase (splitSign text).2) (splitBase (splitSign text).2).2 0
  rw [hbase] at hloop
  have hcode : parseInteger text signed (.ofNat w.bytes) =
      if (splitSign text).1 = true ∧ ¬ signed = true ∨ (splitBase (splitSign text).2).2 = [] then none
      else ((splitBase (splitSign text).2).2.foldlM (addDigit (.ofNat (splitBase (splitSign text).2).1)) 0).bind
        (rangeChecked signed (splitSign text).1 (.ofNat w.bytes)) := rfl
  have hcode' : Tools.parseInteger text signed w.bytes =
      if (splitSign text).1 = true ∧ ¬ signed = true ∨ (splitBase (splitSign text).2).2 = [] then none
      else ((splitBase (splitSign text).2).2.foldlM (Tools.addDigit (splitBase (splitSign text).2).1) 0).bind
        (Tools.rangeChecked signed (splitSign text).1 w.bytes) := rfl
  rw [hcode, hcode', show (0 : Nat) = (0 : UInt64).toNat from rfl, ← hloop]
  split
  · rfl
  · cases (splitBase (splitSign text).2).2.foldlM (addDigit (.ofNat (splitBase (splitSign text).2).1)) 0 with
    | none => rfl
    | some magnitude => exact toNat_rangeChecked signed _ w magnitude

end Machine

/-! ## The result -/

/-- Bits that are a number's in 64 bits are its bits in fewer. -/
theorem low_bits {w : Width} {bits : UInt64} {value : Int} (h : (bits.toNat : Int) = value % 2 ^ 64) :
    bits.toBitVec.setWidth (8 * w.bytes) = BitVec.ofInt (8 * w.bytes) value := by
  have hword : ((2 ^ 64 : Nat) : Int) = 2 ^ 64 := Int.natCast_pow 2 64
  have hdvd : ((2 ^ (8 * w.bytes) : Nat) : Int) ∣ 2 ^ 64 := by
    have hle : 8 * w.bytes ≤ 64 := by cases w <;> decide
    rw [← hword]
    exact Int.natCast_dvd_natCast.mpr (Nat.pow_dvd_pow 2 hle)
  apply BitVec.eq_of_toNat_eq
  rw [BitVec.toNat_setWidth, BitVec.toNat_ofInt, UInt64.toNat_toBitVec, ← Int.emod_emod_of_dvd value hdvd, ← h,
    ← Int.natCast_mod, Int.toNat_natCast]

theorem parse_integer_accepts (text : Bytes) (signed : Bool) (w : Width) :
    ((∃ bits, Machine.parseInteger text signed (.ofNat w.bytes) = some bits) ↔
        ∃ value, IntegerText signed text value ∧ InRange signed w value)
      ∧ (∀ bits value, Machine.parseInteger text signed (.ofNat w.bytes) = some bits → IntegerText signed text value →
        bits.toBitVec.setWidth (8 * w.bytes) = BitVec.ofInt (8 * w.bytes) value)
      ∧ ∀ base, Machine.IsBase base → ∀ magnitude byte, Machine.ExactTurn base magnitude byte := by
  have hwords := Machine.parseInteger_eq text signed w
  refine ⟨⟨?_, ?_⟩, ?_, fun base hbase => Machine.exactTurn hbase⟩
  · rintro ⟨bits, hbits⟩
    rw [hbits, Option.map_some] at hwords
    obtain ⟨n, hmagnitude, hsigned, hrange, -⟩ := parseInteger_iff.mp hwords.symm
    exact ⟨_, integerText_iff.mpr ⟨n, hmagnitude, hsigned, rfl⟩, hrange⟩
  · rintro ⟨value, htext, hrange⟩
    obtain ⟨n, hmagnitude, hsigned, rfl⟩ := integerText_iff.mp htext
    rw [parseInteger_iff.mpr ⟨n, hmagnitude, hsigned, hrange, rfl⟩, Option.map_eq_some_iff] at hwords
    obtain ⟨bits, hbits, -⟩ := hwords
    exact ⟨bits, hbits⟩
  · intro bits value hbits htext
    rw [hbits, Option.map_some] at hwords
    obtain ⟨n, hmagnitude, -, hrange, hvalue⟩ := parseInteger_iff.mp hwords.symm
    obtain ⟨n', hmagnitude', -, rfl⟩ := integerText_iff.mp htext
    obtain rfl := hmagnitude.unique hmagnitude'
    have hlt := lt_of_inRange hrange
    apply low_bits
    rw [hvalue]
    split
    · omega
    · omega

/-- The least number of a byte, and one below it. -/
example : (Machine.parseInteger (text "-0X80") true 1).map UInt64.toNat = some (2 ^ 64 - 128)
    ∧ Machine.parseInteger (text "-129") true 1 = none := by
  decide +kernel

end PuppetMaster.Tools
