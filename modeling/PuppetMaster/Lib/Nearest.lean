/-
  PuppetMaster.Lib.Nearest — the value of the longest key that a name starts with.

  `nearest` scans the entries for the longest key that is a non-empty beginning of the
  name. The order of the entries does not matter if no key is there twice, and one entry
  more decides exactly if it is longer than the others that match (`nearest_cons`).
-/

import Mathlib.Data.List.Induction
import Mathlib.Data.List.Nodup

namespace PuppetMaster.Lib

universe u v

variable {α : Type u} {ν : Type v} [DecidableEq α]

/-- The better of the best so far, with the length of its key, and the next entry. -/
def nearer (name : List α) (best : ν × Nat) (entry : List α × ν) : ν × Nat :=
  if best.2 < entry.1.length ∧ entry.1 <+: name then (entry.2, entry.1.length) else best

def nearest (name : List α) (fallback : ν) (entries : List (List α × ν)) : ν :=
  (entries.foldl (nearer name) (fallback, 0)).1

/-- The scan found nothing, or the value of a longest match. -/
def IsNearest (name : List α) (fallback : ν) (entries : List (List α × ν)) (best : ν × Nat) : Prop :=
  (best = (fallback, 0) ∧ ∀ entry ∈ entries, entry.1 <+: name → entry.1 = []) ∨
    ∃ entry ∈ entries, entry.1 ≠ [] ∧ entry.1 <+: name ∧ best = (entry.2, entry.1.length) ∧
      ∀ other ∈ entries, other.1 <+: name → other.1.length ≤ entry.1.length

theorem IsNearest.cons {name : List α} {fallback : ν} {entries : List (List α × ν)} {best : ν × Nat}
    (h : IsNearest name fallback entries best) (entry : List α × ν) :
    IsNearest name fallback (entry :: entries) (nearer name best entry) := by
  unfold nearer
  split
  · next hbetter =>
    obtain ⟨hlonger, hmatch⟩ := hbetter
    refine .inr ⟨entry, List.mem_cons_self, List.ne_nil_of_length_pos (by omega), hmatch, rfl, ?_⟩
    refine List.forall_mem_cons.mpr ⟨fun _ => Nat.le_refl _, fun other hother hmatch' => ?_⟩
    rcases h with ⟨-, hnone⟩ | ⟨best', -, -, -, rfl, hbest⟩
    · rw [hnone other hother hmatch']
      exact Nat.zero_le _
    · exact Nat.le_of_lt (Nat.lt_of_le_of_lt (hbest other hother hmatch') hlonger)
  · next hbetter =>
    rcases h with ⟨rfl, hnone⟩ | ⟨best', hmem, hne, hmatch, rfl, hbest⟩
    · refine .inl ⟨rfl, List.forall_mem_cons.mpr ⟨fun hmatch => ?_, hnone⟩⟩
      by_contra hne
      exact hbetter ⟨List.length_pos_of_ne_nil hne, hmatch⟩
    · refine .inr ⟨best', List.mem_cons_of_mem _ hmem, hne, hmatch, rfl, ?_⟩
      refine List.forall_mem_cons.mpr ⟨fun hmatch' => ?_, hbest⟩
      by_contra hlonger
      exact hbetter ⟨by omega, hmatch'⟩

omit [DecidableEq α] in
theorem IsNearest.perm {name : List α} {fallback : ν} {entries entries' : List (List α × ν)} {best : ν × Nat}
    (h : IsNearest name fallback entries best) (hperm : entries.Perm entries') :
    IsNearest name fallback entries' best := by
  rcases h with ⟨hbest, hnone⟩ | ⟨entry, hmem, hne, hmatch, hbest, hall⟩
  · exact .inl ⟨hbest, fun e he => hnone e (hperm.mem_iff.mpr he)⟩
  · exact .inr ⟨entry, hperm.mem_iff.mp hmem, hne, hmatch, hbest, fun e he => hall e (hperm.mem_iff.mpr he)⟩

theorem isNearest_foldl (name : List α) (fallback : ν) (entries : List (List α × ν)) :
    IsNearest name fallback entries (entries.foldl (nearer name) (fallback, 0)) := by
  induction entries using List.reverseRecOn with
  | nil => exact .inl ⟨rfl, fun _ h => absurd h List.not_mem_nil⟩
  | append_singleton entries entry ih =>
    rw [List.foldl_append, List.foldl_cons, List.foldl_nil]
    exact (ih.cons entry).perm (List.perm_append_singleton entry entries).symm

omit [DecidableEq α] in
/-- Of two longest matches the keys are the same. -/
theorem IsNearest.unique {name : List α} {fallback : ν} {entries : List (List α × ν)} {best best' : ν × Nat}
    (hkeys : (entries.map Prod.fst).Nodup) (h : IsNearest name fallback entries best)
    (h' : IsNearest name fallback entries best') : best = best' := by
  rcases h with ⟨rfl, hnone⟩ | ⟨entry, hmem, hne, hmatch, rfl, hall⟩
  · rcases h' with ⟨rfl, -⟩ | ⟨entry', hmem', hne', hmatch', -, -⟩
    · rfl
    · exact absurd (hnone entry' hmem' hmatch') hne'
  · rcases h' with ⟨-, hnone'⟩ | ⟨entry', hmem', hne', hmatch', rfl, hall'⟩
    · exact absurd (hnone' entry hmem hmatch) hne
    · have hlen : entry.1.length = entry'.1.length :=
        Nat.le_antisymm (hall' entry hmem hmatch) (hall entry' hmem' hmatch')
      have hkey : entry.1 = entry'.1 :=
        (List.prefix_of_prefix_length_le hmatch hmatch' (Nat.le_of_eq hlen)).eq_of_length hlen
      rw [List.inj_on_of_nodup_map hkeys hmem hmem' hkey]

/-- One entry more decides where it matches and is longer than all others that do. -/
theorem nearest_cons {name : List α} {fallback : ν} {entry : List α × ν} {entries entries' : List (List α × ν)}
    (hperm : entries'.Perm (entry :: entries)) (hkeys : (entries'.map Prod.fst).Nodup) (hne : entry.1 ≠ []) :
    nearest name fallback entries' =
      if entry.1 <+: name ∧ ∀ other ∈ entries, other.1 <+: name → other.1.length < entry.1.length then entry.2
      else nearest name fallback entries := by
  have hold := isNearest_foldl name fallback entries
  have hboth := (isNearest_foldl name fallback entries').unique hkeys ((hold.cons entry).perm hperm.symm)
  rw [nearest, hboth, nearer]
  split
  · next hbetter =>
    have hshorter : ∀ other ∈ entries, other.1 <+: name → other.1.length < entry.1.length := by
      intro other hother hmatch
      rcases hold with ⟨-, hnone⟩ | ⟨best, -, -, -, hbest, hall⟩
      · rw [hnone other hother hmatch]
        exact List.length_pos_of_ne_nil hne
      · rw [hbest] at hbetter
        exact Nat.lt_of_le_of_lt (hall other hother hmatch) hbetter.1
    rw [if_pos ⟨hbetter.2, hshorter⟩]
  · next hbetter =>
    rw [if_neg]
    · rfl
    · intro h
      obtain ⟨hmatch, hshorter⟩ := h
      refine hbetter ⟨?_, hmatch⟩
      rcases hold with ⟨hbest, -⟩ | ⟨best, hmem, -, hmatch', hbest, -⟩
      · rw [hbest]
        exact List.length_pos_of_ne_nil hne
      · rw [hbest]
        exact hshorter best hmem hmatch'

end PuppetMaster.Lib
