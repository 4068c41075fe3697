/-
  PuppetMaster.Core.Parameters — named settings as text (`runtime::ParameterMap`) and their
  conversion to unsigned integers (`runtime::GetParameter`).

  A conversion that succeeds gives the number that the digits stand for
  (`getParameter_eq_ok`).
-/

import PuppetMaster.Core.Check
import PuppetMaster.Lib.SortedMap

namespace PuppetMaster.Core

open PuppetMaster.Lib

abbrev ParameterMap := SortedMap Bytes Bytes

/-- `parameters.count(key) != 0`. -/
def ParameterMap.has (parameters : ParameterMap) (key : String) : Bool := (parameters.find? (text key)).isSome

/-- `std::isspace` in the C locale. -/
def isSpace (byte : UInt8) : Bool := byte = 0x20 || (0x09 ≤ byte && byte ≤ 0x0d)

def isDigit (byte : UInt8) : Bool := 0x30 ≤ byte && byte ≤ 0x39

def decimal (digits : Bytes) : Nat := digits.foldl (fun n digit => 10 * n + (digit.toNat - 0x30)) 0

/-- What `strtoull` reads behind an optional plus sign. -/
def unsigned (value : Bytes) : Bytes := if value.head? = some 0x2b then value.tail else value

/-- `ConvertParameter` for an unsigned type with the largest value `max`; a number that is out of
    range for `strtoull` is out of range for every such type. -/
def convertParameter (key : String) (max : Nat) (value : Bytes) : Result Nat := do
  let mustBe (expected : String) : Bytes :=
    text "parameter " ++ text key ++ text " must be " ++ text expected ++ text ", got \"" ++ value ++ text "\""
  refuse (value = [] ∨ value.head?.any isSpace) (mustBe "an integer")
  refuse (value.head? = some 0x2d) (mustBe "a non-negative integer")
  refuse (unsigned value = [] ∨ ¬ (unsigned value).all isDigit ∨ max < decimal (unsigned value))
    (mustBe "a non-negative integer in range")
  return decimal (unsigned value)

def getParameter (parameters : ParameterMap) (key : String) (max fallback : Nat) : Result Nat :=
  match parameters.find? (text key) with
  | none => .ok fallback
  | some value => convertParameter key max value

/-- The value of a setting, or `fallback` where it is not set. -/
def settingOr (fallback : Nat) (setting : Option Bytes) : Nat :=
  (setting.map fun value => decimal (unsigned value)).getD fallback

theorem getParameter_eq_ok {parameters : ParameterMap} {key : String} {max fallback n : Nat}
    (h : getParameter parameters key max fallback = .ok n) : n = settingOr fallback (parameters.find? (text key)) := by
  unfold getParameter at h
  split at h
  · next hnone =>
    cases h
    rw [hnone]
    rfl
  · next value hfound =>
    unfold convertParameter at h
    simp only [then_eq_ok] at h
    cases h.2.2.2
    rw [hfound]
    rfl

end PuppetMaster.Core
