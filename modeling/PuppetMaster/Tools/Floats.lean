/-
  PuppetMaster.Tools.Floats — `ParseFloat` and `FormatFloat` of portable_fields.cpp, and the
  conversions between `float` and `double`.

  A float or double is its bits (IEEE 754), as in `Portable`; the highest one is the sign.
  What the C library makes of a text and of a value are parameters.
-/

import PuppetMaster.Portable.Codec

namespace PuppetMaster.Tools

open PuppetMaster.Core PuppetMaster.Portable

abbrev FloatBits := Unsigned 4

abbrev DoubleBits := Unsigned 8

structure CLibrary where
  /-- `strtod`: the value, the bytes it was read from, and `errno == ERANGE`. -/
  strtod : Bytes → DoubleBits × Nat × Bool
  /-- `%.*g`, with its precision. -/
  printed : Nat → DoubleBits → Bytes
  /-- `floor(log10(fabs(value)))`. -/
  exponent : DoubleBits → Int

/-! ## Bits -/

def magnitude {w : Nat} (value : Unsigned w) : Nat := value.val % (256 ^ w / 2)

def isNegative {w : Nat} (value : Unsigned w) : Bool := 256 ^ w / 2 ≤ value.val

def kInfinity32 : Nat := 0x7f800000

def kInfinity64 : Nat := 0x7ff0000000000000

def isNan (value : DoubleBits) : Bool := kInfinity64 < magnitude value

def isInf (value : DoubleBits) : Bool := magnitude value = kInfinity64

def isFinite (value : DoubleBits) : Bool := magnitude value < kInfinity64

/-- `std::numeric_limits<float>::max()`, as a double. -/
def kMaxFloat : Nat := 0x47efffffe0000000

/-- `==` of two floats or doubles: zeros are the same, a NaN is not even itself. -/
def sameFloat {w : Nat} (infinity : Nat) (a b : Unsigned w) : Bool :=
  magnitude a ≤ infinity && magnitude b ≤ infinity && (a.val == b.val || magnitude a == 0 && magnitude b == 0)

/-- `mantissa / 2 ^ shift` rounded to the nearest, and to the even one half way. -/
def roundEven (mantissa shift : Nat) : Nat :=
  let quotient := mantissa / 2 ^ shift
  let rest := 2 * (mantissa % 2 ^ shift)
  if rest < 2 ^ shift ∨ rest = 2 ^ shift ∧ quotient % 2 = 0 then quotient else quotient + 1

/-- `static_cast<float>`. -/
def toFloat (value : DoubleBits) : FloatBits :=
  let exponent := magnitude value / 2 ^ 52
  let fraction := magnitude value % 2 ^ 52
  let bits :=
    if isNan value then 0x7fc00000 + fraction / 2 ^ 29 % 2 ^ 22
    else if 897 ≤ exponent then min kInfinity32 ((exponent - 897) * 2 ^ 23 + roundEven (2 ^ 52 + fraction) 29)
    -- below the least normal float, where a double may be normal or not
    else roundEven ((if exponent = 0 then 0 else 2 ^ 52) + fraction) (926 - max exponent 1)
  .ofBits 4 ((if isNegative value then 2 ^ 31 else 0) + bits)

/-- A float as the double of the same value. -/
def toDouble (value : FloatBits) : DoubleBits :=
  let exponent := magnitude value / 2 ^ 23
  let fraction := magnitude value % 2 ^ 23
  let bits :=
    if exponent = 0xff then if fraction = 0 then kInfinity64 else kInfinity64 + 2 ^ 51 + fraction % 2 ^ 22 * 2 ^ 29
    else if exponent ≠ 0 then (exponent + 896) * 2 ^ 52 + fraction * 2 ^ 29
    else if fraction = 0 then 0
    else (fraction.log2 + 874) * 2 ^ 52 + (fraction - 2 ^ fraction.log2) * 2 ^ (52 - fraction.log2)
  .ofBits 8 ((if isNegative value then 2 ^ 63 else 0) + bits)

-- 1, -2, the largest, the least normal and the least float, infinity, and one that is rounded up to even
example : [0x3ff0000000000000, 0xc000000000000000, 0x47efffffe0000000, 0x3810000000000000, 0x36a0000000000000,
      0x7ff0000000000000, 0x3ff0000030000000].map (fun bits => (toFloat (.ofBits 8 bits)).val)
    = [0x3f800000, 0xc0000000, 0x7f7fffff, 0x00800000, 0x00000001, 0x7f800000, 0x3f800002] := by decide

example : [0x3f800000, 0xc0000000, 0x7f7fffff, 0x00800000, 0x00000001, 0x7f800000].map
      (fun bits => (toDouble (.ofBits 4 bits)).val)
    = [0x3ff0000000000000, 0xc000000000000000, 0x47efffffe0000000, 0x3810000000000000, 0x36a0000000000000,
      0x7ff0000000000000] := by decide

/-! ## Texts -/

def isBlank (byte : UInt8) : Bool := byte == 0x20 || byte == 0x09

def CLibrary.parseFloat (lib : CLibrary) (text : Bytes) : Option DoubleBits :=
  if text = [] ∨ text.head?.any isBlank then none
  else
    -- a C string ends at its first zero byte
    let (value, taken, outOfRange) := lib.strtod (text.takeWhile (· != 0))
    if taken = text.length ∧ ¬ (outOfRange ∧ isInf value) then some value else none

/-- The shortest decimal that reads back as the same value. -/
def CLibrary.formatFloat (lib : CLibrary) (value : DoubleBits) (single : Bool) : Bytes :=
  if isNan value then text "nan"
  else if isInf value then text (if isNegative value then "-inf" else "inf")
  else
    let readsBack (precision : Nat) : Bool :=
      let back := (lib.strtod (lib.printed precision value)).1
      if single then sameFloat kInfinity32 (toFloat back) (toFloat value) else sameFloat kInfinity64 back value
    let precision := ((List.range' 1 16).find? readsBack).getD 17
    let exponent := if magnitude value = 0 then 0 else lib.exponent value
    let precision := if precision ≤ exponent ∧ exponent < 17 then (exponent + 1).toNat else precision
    lib.printed precision value

end PuppetMaster.Tools
