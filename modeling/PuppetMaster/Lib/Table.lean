/-
  PuppetMaster.Lib.Table — a table as one text: the words of a row with a separator between
  them, and another separator at the end of each row.

  Splitting the text at the separators gives a table back exactly when no word of it has a
  separator (`read_print_iff`).
-/

import Mathlib.Data.List.Basic

namespace PuppetMaster.Lib.Table

variable {α : Type} {between ending : α}

/-! ## Printing -/

variable (between ending) in
def print (table : List (List (List α))) : List α := table.flatMap fun row => [between].intercalate row ++ [ending]

variable (between ending) in
/-- A word with neither separator. -/
def Clean (word : List α) : Prop := between ∉ word ∧ ending ∉ word

theorem intercalate_cons (word : List α) (words : List (List α)) :
    [between].intercalate (word :: words) = word ++ words.flatMap fun word => between :: word := by
  induction words generalizing word with
  | nil => simp
  | cons next words ih => rw [List.intercalate_cons_cons, ih next]; simp

theorem not_mem_line {row : List (List α)} (hne : between ≠ ending) (hclean : ∀ word ∈ row, Clean between ending word) :
    ending ∉ [between].intercalate row := by
  cases row with
  | nil => exact List.not_mem_nil
  | cons word words =>
    rw [intercalate_cons]
    intro hmem
    rcases List.mem_append.mp hmem with hword | hwords
    · exact (hclean word List.mem_cons_self).2 hword
    · obtain ⟨next, hnext, hin⟩ := List.mem_flatMap.mp hwords
      rcases List.mem_cons.mp hin with heq | hin
      · exact hne heq.symm
      · exact (hclean next (List.mem_cons_of_mem _ hnext)).2 hin

/-! ## Splitting -/

variable [DecidableEq α]

theorem not_mem_piece {separator : α} {text piece : List α} (h : piece ∈ text.splitOn separator) : separator ∉ piece := by
  induction text generalizing piece with
  | nil =>
    rw [List.splitOn_nil] at h
    rw [List.mem_singleton.mp h]
    exact List.not_mem_nil
  | cons x text ih =>
    rw [List.splitOn_cons_eq_if_modifyHead] at h
    obtain ⟨first, rest, hsplit⟩ := List.exists_cons_of_ne_nil (List.splitOn_ne_nil separator text)
    by_cases hx : x = separator
    · rw [if_pos (beq_iff_eq.mpr hx)] at h
      rcases List.mem_cons.mp h with rfl | hmem
      · exact List.not_mem_nil
      · exact ih hmem
    · rw [if_neg (by simpa using hx), hsplit, List.modifyHead_cons] at h
      rcases List.mem_cons.mp h with rfl | hmem
      · have hfirst : separator ∉ first := ih (by rw [hsplit]; exact List.mem_cons_self)
        exact List.not_mem_cons_of_ne_of_not_mem (fun heq => hx heq.symm) hfirst
      · exact ih (by rw [hsplit]; exact List.mem_cons_of_mem _ hmem)

theorem mem_of_mem_piece {separator x : α} {text piece : List α} (h : piece ∈ text.splitOn separator) (hx : x ∈ piece) :
    x ∈ text := by
  induction text generalizing piece with
  | nil =>
    rw [List.splitOn_nil] at h
    rw [List.mem_singleton.mp h] at hx
    exact absurd hx List.not_mem_nil
  | cons y text ih =>
    rw [List.splitOn_cons_eq_if_modifyHead] at h
    obtain ⟨first, rest, hsplit⟩ := List.exists_cons_of_ne_nil (List.splitOn_ne_nil separator text)
    split at h
    · rcases List.mem_cons.mp h with rfl | hmem
      · exact absurd hx List.not_mem_nil
      · exact List.mem_cons_of_mem _ (ih hmem hx)
    · rw [hsplit, List.modifyHead_cons] at h
      rcases List.mem_cons.mp h with rfl | hmem
      · rcases List.mem_cons.mp hx with rfl | hx
        · exact List.mem_cons_self
        · exact List.mem_cons_of_mem _ (ih (by rw [hsplit]; exact List.mem_cons_self) hx)
      · exact List.mem_cons_of_mem _ (ih (by rw [hsplit]; exact List.mem_cons_of_mem _ hmem) hx)

/-! ## Reading -/

variable (between ending) in
/-- What stands behind the last end of a row is not a row. -/
def read (text : List α) : List (List (List α)) := (text.splitOn ending).dropLast.map fun line => line.splitOn between

theorem print_splitOn {table : List (List (List α))} (hne : between ≠ ending)
    (hclean : ∀ row ∈ table, ∀ word ∈ row, Clean between ending word) :
    (print between ending table).splitOn ending = table.map (fun row => [between].intercalate row) ++ [[]] := by
  induction table with
  | nil => rfl
  | cons row table ih =>
    have hline := not_mem_line hne (hclean row List.mem_cons_self)
    have hrest := ih fun next hnext => hclean next (List.mem_cons_of_mem _ hnext)
    have hprint : print between ending (row :: table)
        = [between].intercalate row ++ ending :: print between ending table := by
      simp [print]
    rw [hprint, List.splitOn_append_cons_self_of_not_mem hline, hrest]
    rfl

theorem read_print {table : List (List (List α))} (hne : between ≠ ending) (hrows : ∀ row ∈ table, row ≠ [])
    (hclean : ∀ row ∈ table, ∀ word ∈ row, Clean between ending word) :
    read between ending (print between ending table) = table := by
  have hsplit : ∀ row ∈ table, ([between].intercalate row).splitOn between = row := fun row hrow =>
    List.splitOn_intercalate between (fun word hword => (hclean row hrow word hword).1) (hrows row hrow)
  rw [read, print_splitOn hne hclean, List.dropLast_concat, List.map_map]
  calc table.map (fun row => ([between].intercalate row).splitOn between)
      = table.map id := List.map_congr_left hsplit
    _ = table := List.map_id table

theorem clean_of_read {text : List α} {row : List (List α)} {word : List α} (hrow : row ∈ read between ending text)
    (hword : word ∈ row) : Clean between ending word := by
  obtain ⟨line, hline, rfl⟩ := List.mem_map.mp hrow
  have hending : ending ∉ line := not_mem_piece (List.dropLast_subset _ hline)
  exact ⟨not_mem_piece hword, fun hin => hending (mem_of_mem_piece hword hin)⟩

theorem read_print_iff {table : List (List (List α))} (hne : between ≠ ending) (hrows : ∀ row ∈ table, row ≠ []) :
    read between ending (print between ending table) = table
      ↔ ∀ row ∈ table, ∀ word ∈ row, Clean between ending word := by
  constructor
  · intro hread row hrow word hword
    rw [← hread] at hrow
    exact clean_of_read hrow hword
  · exact read_print hne hrows

end PuppetMaster.Lib.Table
