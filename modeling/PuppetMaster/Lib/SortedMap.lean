/-
  PuppetMaster.Lib.SortedMap — an ordered map as the list of its entries.

  The keys of a `SortedMap` strictly increase. `insert` puts a key at its place, or
  replaces the value of a key that is there. Inserting the entries of a map into the empty
  one, front to back, builds the map again (`foldl_insert_entries`). `modify` changes the
  value of a key in place; after a run of changes each key has the changes of its own
  (`find?_foldl_modify`).
-/

import Mathlib.Data.List.Basic

namespace PuppetMaster.Lib

universe u v w

variable {κ : Type u} {ν : Type v} [LT κ]

structure SortedMap (κ : Type u) (ν : Type v) [LT κ] where
  entries : List (κ × ν)
  sorted : entries.Pairwise (fun a b => a.1 < b.1)

@[ext] theorem SortedMap.ext {m m' : SortedMap κ ν} (h : m.entries = m'.entries) : m = m' := by
  cases m
  cases m'
  cases h
  rfl

def SortedMap.empty : SortedMap κ ν := ⟨[], .nil⟩

def SortedMap.find? [DecidableEq κ] (m : SortedMap κ ν) (key : κ) : Option ν :=
  (m.entries.find? fun entry => entry.1 = key).map Prod.snd

theorem SortedMap.find?_eq_none [DecidableEq κ] {m : SortedMap κ ν} {key : κ} :
    m.find? key = none ↔ ∀ e ∈ m.entries, e.1 ≠ key := by
  rw [find?, Option.map_eq_none_iff, List.find?_eq_none]
  simp only [decide_eq_true_eq, ne_eq]

/-- Every entry is found under its key. -/
theorem SortedMap.find?_of_mem [DecidableEq κ] [Std.Irrefl (α := κ) (· < ·)] {m : SortedMap κ ν} {e : κ × ν}
    (h : e ∈ m.entries) : m.find? e.1 = some e.2 := by
  obtain ⟨es, hsorted⟩ := m
  unfold find?
  simp only at h ⊢
  induction es with
  | nil => cases h
  | cons a es ih =>
    obtain ⟨hfirst, hrest⟩ := List.pairwise_cons.mp hsorted
    rcases List.mem_cons.mp h with rfl | h
    · rw [List.find?_cons_of_pos (by simp)]
      rfl
    · have hne : ¬ a.1 = e.1 := fun heq => Std.Irrefl.irrefl _ (heq ▸ hfirst e h)
      rw [List.find?_cons_of_neg (by simpa using hne)]
      exact ih hrest h

def SortedMap.keys (m : SortedMap κ ν) : List κ := m.entries.map Prod.fst

/-- No key is there twice. -/
theorem SortedMap.keys_nodup [Std.Irrefl (α := κ) (· < ·)] (m : SortedMap κ ν) : (m.entries.map Prod.fst).Nodup := by
  rw [List.Nodup, List.pairwise_map]
  refine m.sorted.imp ?_
  intro a b hlt heq
  exact Std.Irrefl.irrefl _ (heq ▸ hlt)

variable [DecidableLT κ]

def insertEntry (key : κ) (value : ν) : List (κ × ν) → List (κ × ν)
  | [] => [(key, value)]
  | e :: es =>
    if key < e.1 then (key, value) :: e :: es
    else if e.1 < key then e :: insertEntry key value es
    else (e.1, value) :: es

/-- An inserted key is the new one or was there. -/
theorem key_of_mem_insertEntry {key : κ} {value : ν} {es : List (κ × ν)} {e : κ × ν}
    (h : e ∈ insertEntry key value es) : e.1 = key ∨ ∃ e' ∈ es, e'.1 = e.1 := by
  induction es with
  | nil =>
    cases List.mem_singleton.mp h
    exact .inl rfl
  | cons a es ih =>
    unfold insertEntry at h
    split at h
    · rcases List.mem_cons.mp h with rfl | h
      · exact .inl rfl
      · exact .inr ⟨e, h, rfl⟩
    · split at h
      · rcases List.mem_cons.mp h with rfl | h
        · exact .inr ⟨e, List.mem_cons_self, rfl⟩
        · rcases ih h with hkey | ⟨e', he', hkey⟩
          · exact .inl hkey
          · exact .inr ⟨e', List.mem_cons_of_mem _ he', hkey⟩
      · rcases List.mem_cons.mp h with rfl | h
        · exact .inr ⟨a, List.mem_cons_self, rfl⟩
        · exact .inr ⟨e, List.mem_cons_of_mem _ h, rfl⟩

/-- A key above all others goes to the end. -/
theorem insertEntry_last [Std.Asymm (α := κ) (· < ·)] {key : κ} (value : ν) {es : List (κ × ν)}
    (h : ∀ e ∈ es, e.1 < key) : insertEntry key value es = es ++ [(key, value)] := by
  induction es with
  | nil => rfl
  | cons e es ih =>
    have he : e.1 < key := h e List.mem_cons_self
    rw [insertEntry, if_neg (Std.Asymm.asymm _ _ he), if_pos he, ih fun e' he' => h e' (List.mem_cons_of_mem _ he')]
    rfl

theorem insertEntry_sorted [Trans (α := κ) (· < ·) (· < ·) (· < ·)] {key : κ} (value : ν) {es : List (κ × ν)}
    (h : es.Pairwise (fun a b => a.1 < b.1)) : (insertEntry key value es).Pairwise (fun a b => a.1 < b.1) := by
  induction es with
  | nil => exact List.pairwise_singleton _ _
  | cons e es ih =>
    obtain ⟨hfirst, hrest⟩ := List.pairwise_cons.mp h
    unfold insertEntry
    split
    case isTrue hlt =>
      refine List.pairwise_cons.mpr ⟨fun e' he' => ?_, h⟩
      rcases List.mem_cons.mp he' with rfl | he'
      · exact hlt
      · exact Std.lt_trans hlt (hfirst e' he')
    case isFalse =>
      split
      case isTrue hlt =>
        refine List.pairwise_cons.mpr ⟨fun e' he' => ?_, ih hrest⟩
        rcases key_of_mem_insertEntry he' with hkey | ⟨e'', he'', hkey⟩
        · exact hkey ▸ hlt
        · exact hkey ▸ hfirst e'' he''
      case isFalse => exact List.pairwise_cons.mpr ⟨hfirst, hrest⟩

namespace SortedMap

variable [Trans (α := κ) (· < ·) (· < ·) (· < ·)]

def insert (m : SortedMap κ ν) (key : κ) (value : ν) : SortedMap κ ν :=
  ⟨insertEntry key value m.entries, insertEntry_sorted value m.sorted⟩

/-- Entries above those that are there are appended. -/
theorem foldl_insert [Std.Asymm (α := κ) (· < ·)] (m : SortedMap κ ν) (es : List (κ × ν))
    (h : (m.entries ++ es).Pairwise (fun a b => a.1 < b.1)) :
    (es.foldl (fun m e => m.insert e.1 e.2) m).entries = m.entries ++ es := by
  induction es generalizing m with
  | nil => simp
  | cons e es ih =>
    have hbelow : ∀ e' ∈ m.entries, e'.1 < e.1 := fun e' he' =>
      (List.pairwise_append.mp h).2.2 e' he' e List.mem_cons_self
    have hentries : (m.insert e.1 e.2).entries = m.entries ++ [e] := insertEntry_last e.2 hbelow
    rw [List.foldl_cons, ih]
    · rw [hentries, List.append_assoc, List.singleton_append]
    · rwa [hentries, List.append_assoc, List.singleton_append]

omit [Trans (α := κ) (· < ·) (· < ·) (· < ·)] in
/-- A key that is not there is added to the entries. -/
theorem insertEntry_perm [Std.Trichotomous (α := κ) (· < ·)] {key : κ} (value : ν) {es : List (κ × ν)}
    (h : ∀ e ∈ es, e.1 ≠ key) : (insertEntry key value es).Perm ((key, value) :: es) := by
  induction es with
  | nil => exact .refl _
  | cons e es ih =>
    unfold insertEntry
    split
    · exact .refl _
    · split
      · exact ((ih fun e' he' => h e' (List.mem_cons_of_mem _ he')).cons e).trans (.swap _ _ _)
      · next hless hgreater =>
        exact absurd (Std.Trichotomous.trichotomous _ _ hgreater hless) (h e List.mem_cons_self)

/-- Keys that are new and distinct stay new while one of them is inserted. -/
theorem fresh_insert {m : SortedMap κ ν} {e : κ × ν} {es : List (κ × ν)} (hkeys : ((e :: es).map Prod.fst).Nodup)
    (hfresh : ∀ e' ∈ e :: es, ∀ e'' ∈ m.entries, e''.1 ≠ e'.1) :
    ∀ e' ∈ es, ∀ e'' ∈ (m.insert e.1 e.2).entries, e''.1 ≠ e'.1 := by
  intro e' he' e'' he'' heq
  rcases key_of_mem_insertEntry he'' with hkey | ⟨old, hold, hkey⟩
  · exact (List.nodup_cons.mp hkeys).1 (List.mem_map.mpr ⟨e', he', by rw [← heq, hkey]⟩)
  · exact hfresh e' (List.mem_cons_of_mem _ he') old hold (hkey.trans heq)

/-- Entries with new keys are all added. -/
theorem foldl_insert_perm [Std.Trichotomous (α := κ) (· < ·)] (m : SortedMap κ ν) {es : List (κ × ν)}
    (hkeys : (es.map Prod.fst).Nodup) (hfresh : ∀ e ∈ es, ∀ e' ∈ m.entries, e'.1 ≠ e.1) :
    (es.foldl (fun m e => m.insert e.1 e.2) m).entries.Perm (es ++ m.entries) := by
  induction es generalizing m with
  | nil => exact .refl _
  | cons e es ih =>
    have hperm : (m.insert e.1 e.2).entries.Perm (e :: m.entries) := insertEntry_perm e.2 (hfresh e List.mem_cons_self)
    rw [List.foldl_cons]
    exact (ih _ (List.nodup_cons.mp hkeys).2 (fresh_insert hkeys hfresh)).trans
      ((hperm.append_left es).trans List.perm_middle)

theorem foldl_insert_entries [Std.Asymm (α := κ) (· < ·)] (m : SortedMap κ ν) :
    m.entries.foldl (fun m e => m.insert e.1 e.2) empty = m := by
  apply SortedMap.ext
  exact foldl_insert empty m.entries m.sorted

/-! ## Changes in place -/

omit [Trans (α := κ) (· < ·) (· < ·) (· < ·)] in
theorem find?_insertEntry [DecidableEq κ] [Std.Irrefl (α := κ) (· < ·)] [Std.Trichotomous (α := κ) (· < ·)]
    (key : κ) (value : ν) (es : List (κ × ν)) (key' : κ) :
    ((insertEntry key value es).find? fun e => e.1 = key').map Prod.snd =
      if key' = key then some value else (es.find? fun e => e.1 = key').map Prod.snd := by
  induction es with
  | nil =>
    by_cases h : key' = key
    · simp [insertEntry, h]
    · simp [insertEntry, h, Ne.symm h]
  | cons e es ih =>
    unfold insertEntry
    split
    · by_cases h : key' = key
      · simp [h]
      · simp [h, Ne.symm h]
    · split
      · next hless hgreater =>
        have hne : e.1 ≠ key := fun heq => Std.Irrefl.irrefl key (heq ▸ hgreater)
        by_cases he : e.1 = key'
        · have h : key' ≠ key := he ▸ hne
          simp [he, h]
        · rw [List.find?_cons_of_neg (by simpa using he), List.find?_cons_of_neg (by simpa using he), ih]
      · next hless hgreater =>
        -- neither key is below the other: they are one
        have hkey : e.1 = key := Std.Trichotomous.trichotomous _ _ hgreater hless
        by_cases h : key' = key
        · simp [hkey, h]
        · simp [hkey, h, Ne.symm h]

theorem find?_insert [DecidableEq κ] [Std.Irrefl (α := κ) (· < ·)] [Std.Trichotomous (α := κ) (· < ·)]
    (m : SortedMap κ ν) (key : κ) (value : ν) (key' : κ) :
    (m.insert key value).find? key' = if key' = key then some value else m.find? key' :=
  find?_insertEntry key value m.entries key'

theorem find?_foldl_insert [DecidableEq κ] [Std.Irrefl (α := κ) (· < ·)] [Std.Trichotomous (α := κ) (· < ·)]
    (keys : List κ) (value : ν) (m : SortedMap κ ν) (key : κ) :
    (keys.foldl (fun m key => m.insert key value) m).find? key = if key ∈ keys then some value else m.find? key := by
  induction keys generalizing m with
  | nil => simp
  | cons first keys ih =>
    rw [List.foldl_cons, ih, find?_insert]
    by_cases h : key ∈ keys
    · rw [if_pos h, if_pos (List.mem_cons_of_mem _ h)]
    · simp [h]

/-- `map[key]`, changed in place; a key that is not there starts as `init`. -/
def modify [DecidableEq κ] (m : SortedMap κ ν) (key : κ) (init : ν) (change : ν → ν) : SortedMap κ ν :=
  m.insert key (change ((m.find? key).getD init))

/-- Each key gets, in their order, the changes that are its own. -/
theorem find?_foldl_modify [DecidableEq κ] [Std.Irrefl (α := κ) (· < ·)] [Std.Trichotomous (α := κ) (· < ·)]
    {α : Type w} (keyOf : α → κ) (init : ν) (change : ν → α → ν) (key : κ) (as : List α) (m : SortedMap κ ν) :
    ((as.foldl (fun m a => m.modify (keyOf a) init (change · a)) m).find? key).getD init =
      (as.filter fun a => keyOf a = key).foldl change ((m.find? key).getD init) := by
  induction as generalizing m with
  | nil => rfl
  | cons a as ih =>
    rw [List.foldl_cons, ih, modify, find?_insert]
    by_cases h : key = keyOf a
    · rw [if_pos h, List.filter_cons_of_pos (by simpa using h.symm), List.foldl_cons, ← h]
      rfl
    · rw [if_neg h, List.filter_cons_of_neg (by simpa using fun heq => h heq.symm)]

omit [DecidableLT κ] [Trans (α := κ) (· < ·) (· < ·) (· < ·)] in
theorem mem_entries_of_find? [DecidableEq κ] {m : SortedMap κ ν} {key : κ} {value : ν}
    (h : m.find? key = some value) : (key, value) ∈ m.entries := by
  obtain ⟨e, he, rfl⟩ := Option.map_eq_some_iff.mp h
  have hkey : e.1 = key := by simpa using List.find?_some he
  exact hkey ▸ List.mem_of_find?_eq_some he

omit [DecidableLT κ] [Trans (α := κ) (· < ·) (· < ·) (· < ·)] in
theorem mem_keys [DecidableEq κ] {m : SortedMap κ ν} {key : κ} : key ∈ m.keys ↔ m.find? key ≠ none := by
  rw [ne_eq, find?_eq_none, keys, List.mem_map]
  push Not
  exact Iff.rfl

theorem mem_keys_insert [DecidableEq κ] [Std.Irrefl (α := κ) (· < ·)] [Std.Trichotomous (α := κ) (· < ·)]
    {m : SortedMap κ ν} {key key' : κ} {value : ν} : key' ∈ (m.insert key value).keys ↔ key' = key ∨ key' ∈ m.keys := by
  rw [mem_keys, mem_keys, find?_insert]
  by_cases h : key' = key
  · simp [h]
  · simp [h]

/-- The keys after a run of changes: those that were there, and those that were changed. -/
theorem mem_keys_foldl_modify [DecidableEq κ] [Std.Irrefl (α := κ) (· < ·)] [Std.Trichotomous (α := κ) (· < ·)]
    {α : Type w} (keyOf : α → κ) (init : ν) (change : ν → α → ν) (key : κ) (as : List α) (m : SortedMap κ ν) :
    key ∈ (as.foldl (fun m a => m.modify (keyOf a) init (change · a)) m).keys ↔ (∃ a ∈ as, keyOf a = key) ∨ key ∈ m.keys := by
  induction as generalizing m with
  | nil => simp
  | cons a as ih =>
    rw [List.foldl_cons, ih, modify, mem_keys_insert]
    simp only [List.mem_cons, exists_eq_or_imp, eq_comm (a := key), or_assoc, or_left_comm]

/-- In a map that a run of changes made, each key has what its own changes make. -/
theorem value_of_foldl_modify [DecidableEq κ] [Std.Irrefl (α := κ) (· < ·)] [Std.Trichotomous (α := κ) (· < ·)]
    {α : Type w} {keyOf : α → κ} {init : ν} {change : ν → α → ν} {as : List α} {e : κ × ν}
    (h : e ∈ (as.foldl (fun m a => m.modify (keyOf a) init (change · a)) empty).entries) :
    e.2 = (as.filter fun a => keyOf a = e.1).foldl change init := by
  have hown := find?_foldl_modify keyOf init change e.1 as empty
  rw [find?_of_mem h, Option.getD_some] at hown
  exact hown

/-! ## Entries that are there -/

omit [DecidableLT κ] [Trans (α := κ) (· < ·) (· < ·) (· < ·)] in
theorem pairwise_keys {es : List (κ × ν)} : es.Pairwise (fun a b => a.1 < b.1) ↔ (es.map Prod.fst).Pairwise (· < ·) :=
  List.pairwise_map.symm

/-- The value of a key that is there, changed in place; without the key, nothing. -/
def assign [DecidableEq κ] (m : SortedMap κ ν) (key : κ) (value : ν) : SortedMap κ ν where
  entries := m.entries.map fun e => if e.1 = key then (e.1, value) else e
  sorted := by
    rw [pairwise_keys, List.map_map]
    have hkeys : Prod.fst ∘ (fun e : κ × ν => if e.1 = key then (e.1, value) else e) = Prod.fst := by
      funext e
      by_cases h : e.1 = key <;> simp [h]
    rw [hkeys]
    exact pairwise_keys.mp m.sorted

def erase [DecidableEq κ] (m : SortedMap κ ν) (key : κ) : SortedMap κ ν where
  entries := m.entries.filter fun e => e.1 ≠ key
  sorted := m.sorted.filter _

omit [DecidableLT κ] [Trans (α := κ) (· < ·) (· < ·) (· < ·)] in
theorem find?_assign [DecidableEq κ] (m : SortedMap κ ν) (key : κ) (value : ν) (key' : κ) :
    (m.assign key value).find? key' = if key' = key then (m.find? key').map fun _ => value else m.find? key' := by
  obtain ⟨es, hsorted⟩ := m
  unfold find? assign
  simp only
  clear hsorted
  induction es with
  | nil => simp
  | cons e es ih =>
    by_cases hkey : e.1 = key'
    · by_cases h : key' = key
      · simp [hkey, h]
      · simp [hkey, h]
    · have hsame : (if e.1 = key then (e.1, value) else e).1 = e.1 := by split <;> rfl
      rw [List.map_cons, List.find?_cons_of_neg (by simpa [hsame] using hkey), ih, List.find?_cons_of_neg (by simpa using hkey)]

omit [DecidableLT κ] [Trans (α := κ) (· < ·) (· < ·) (· < ·)] in
theorem find?_erase [DecidableEq κ] (m : SortedMap κ ν) (key key' : κ) :
    (m.erase key).find? key' = if key' = key then none else m.find? key' := by
  unfold find? erase
  simp only
  by_cases h : key' = key
  · rw [if_pos h, Option.map_eq_none_iff, List.find?_eq_none]
    intro e he
    have hne := (List.mem_filter.mp he).2
    simp_all
  · rw [if_neg h, List.find?_filter]
    congr 2
    funext e
    by_cases he : e.1 = key'
    · simp [he, h]
    · simp [he]

end SortedMap

end PuppetMaster.Lib
