/-
  PuppetMaster.Lib.Cursor — reading a list through an offset.

  `Ahead bytes offset front rest`: at the offset stands `front`, then `rest`, then nothing.
  What is left is their length (`left_eq`), `front` can be taken (`take_front`), and the
  offset moved past the first part of it (`first`, `next`; `append` for the way back).
-/

import Mathlib.Data.List.Basic

namespace PuppetMaster.Lib

universe u

variable {α : Type u}

structure Ahead (bytes : List α) (offset : Nat) (front rest : List α) : Prop where
  within : offset ≤ bytes.length
  ahead : bytes.drop offset = front ++ rest

namespace Ahead

variable {bytes front back rest : List α} {offset : Nat}

theorem start (bytes : List α) : Ahead bytes 0 bytes [] :=
  ⟨Nat.zero_le _, by rw [List.append_nil, List.drop_zero]⟩

theorem left_eq (h : Ahead bytes offset front rest) : bytes.length - offset = front.length + rest.length := by
  have hlen := congrArg List.length h.ahead
  rwa [List.length_drop, List.length_append] at hlen

theorem take_front (h : Ahead bytes offset front rest) : (bytes.drop offset).take front.length = front := by
  rw [h.ahead, List.take_left]

theorem first (h : Ahead bytes offset (front ++ back) rest) : Ahead bytes offset front (back ++ rest) :=
  ⟨h.within, by rw [h.ahead, List.append_assoc]⟩

theorem next (h : Ahead bytes offset (front ++ back) rest) : Ahead bytes (offset + front.length) back rest := by
  have hleft := h.left_eq
  have hwithin := h.within
  rw [List.length_append] at hleft
  refine ⟨by omega, ?_⟩
  rw [← List.drop_drop, h.ahead, List.append_assoc, List.drop_left]

theorem append {rest' : List α} (h : Ahead bytes offset front rest) (h' : Ahead bytes (offset + front.length) back rest') :
    Ahead bytes offset (front ++ back) rest' := by
  have hrest : rest = back ++ rest' := by
    have hdrop := h'.ahead
    rwa [← List.drop_drop, h.ahead, List.drop_left] at hdrop
  exact ⟨h.within, by rw [h.ahead, hrest, List.append_assoc]⟩

/-- What stands at the front of everything and is as long is everything. -/
theorem whole (h : Ahead bytes 0 front rest) (hlength : bytes.length = front.length) : front = bytes := by
  have hleft := h.left_eq
  have hrest : rest = [] := List.eq_nil_of_length_eq_zero (by omega)
  have hsplit : bytes = front ++ rest := h.ahead
  rw [hsplit, hrest, List.append_nil]

end Ahead

theorem length_taken {bytes : List α} {offset size : Nat} (h : size ≤ bytes.length - offset) :
    ((bytes.drop offset).take size).length = size := by
  rw [List.length_take, List.length_drop]
  exact Nat.min_eq_left h

end PuppetMaster.Lib
