/-
  PuppetMaster.Lib.Lists — a list of threads, each of which may hold something.

  `filterMap f` collects what the threads of a pool hold. Replacing the thread at one
  index exchanges its old holding for its new one (`filterMap_set_perm`); if both hold the
  same, the collection stays as it is (`filterMap_set_eq`; `map_set_eq` for what every
  thread has; `filterMap_set_congr` where the others' holdings look the same). Where one thread holds something,
  it is what that one holds
  (`filterMap_only`). The other threads are still there (`mem_set_other`). A count of
  threads, or a sum over them, changes by the one that is replaced (`countP_set_exchange`,
  `sum_set_exchange`). An element taken out of a queue at an index is the rest's
  complement (`perm_cons_eraseIdx`). What stands in a list that was added to stood there
  before, or is the new element (`getElem?_concat_cases`, `getElem?_set_cases`).

  Of two lists that are related element by element, each element of one has its partner in
  the other (`forall₂_mem_left`, `forall₂_mem_right`, `forall₂_getElem?`).

  A list without duplicates is longer than one exactly when two of its elements differ
  (`exists_ne_of_nodup`, `length_gt_one_of_ne`).
-/

import Mathlib.Algebra.GroupWithZero.Nat
import Mathlib.Data.List.Basic
import Mathlib.Data.List.Forall2
import Mathlib.Data.List.Perm.Basic

namespace PuppetMaster.Lib

universe u v

variable {α : Type u} {β : Type v} {f : α → Option β}

theorem filterMap_cons_append (a : α) (l : List α) : (a :: l).filterMap f = (f a).toList ++ l.filterMap f := by
  cases e : f a with
  | none => simp [e]
  | some b => simp [e]

/-- The new thread's holding takes the place of the old one's. -/
theorem filterMap_set_perm {l : List α} {i : Nat} {old : α} (new : α) (h : l[i]? = some old) :
    ((f old).toList ++ (l.set i new).filterMap f).Perm ((f new).toList ++ l.filterMap f) := by
  induction l generalizing i with
  | nil => cases h
  | cons a l ih =>
    cases i with
    | zero =>
      cases h
      simp only [List.set_cons_zero, filterMap_cons_append]
      exact List.perm_append_comm_assoc _ _ _
    | succ i =>
      simp only [List.set_cons_succ, filterMap_cons_append]
      have hrest := (ih h).append_left (f a).toList
      exact (List.perm_append_comm_assoc _ _ _).trans (hrest.trans (List.perm_append_comm_assoc _ _ _))

theorem filterMap_set_eq {l : List α} {i : Nat} {old new : α} (h : l[i]? = some old) (hf : f new = f old) :
    (l.set i new).filterMap f = l.filterMap f := by
  induction l generalizing i with
  | nil => cases h
  | cons a l ih =>
    cases i with
    | zero =>
      cases h
      simp only [List.set_cons_zero, filterMap_cons_append, hf]
    | succ i => simp only [List.set_cons_succ, filterMap_cons_append, ih h]

/-- The same where the holdings are looked at in another way afterwards. -/
theorem filterMap_set_congr {g : α → Option β} {l : List α} {i : Nat} {old new : α} (h : l[i]? = some old) (hnew : f new = g old)
    (hother : ∀ j a, l[j]? = some a → j ≠ i → f a = g a) : (l.set i new).filterMap f = l.filterMap g := by
  induction l generalizing i with
  | nil => cases h
  | cons a l ih =>
    cases i with
    | zero =>
      cases h
      have hrest : l.filterMap f = l.filterMap g := by
        refine List.filterMap_congr fun b hb => ?_
        obtain ⟨j, hj⟩ := List.mem_iff_getElem?.mp hb
        exact hother (j + 1) b hj (Nat.succ_ne_zero j)
      rw [List.set_cons_zero, filterMap_cons_append, filterMap_cons_append, hnew, hrest]
    | succ i =>
      have hrest := ih h fun j b hj hne => hother (j + 1) b hj fun heq => hne (Nat.succ.inj heq)
      rw [List.set_cons_succ, filterMap_cons_append, filterMap_cons_append, hother 0 a rfl (Nat.succ_ne_zero i).symm, hrest]

/-- Where one thread at most holds something. -/
theorem filterMap_only {l : List α} {i : Nat} {a : α} (hi : l[i]? = some a)
    (honly : ∀ j b, l[j]? = some b → j ≠ i → f b = none) : l.filterMap f = (f a).toList := by
  induction l generalizing i with
  | nil => cases hi
  | cons b l ih =>
    rw [filterMap_cons_append]
    cases i with
    | zero =>
      cases hi
      have hrest : l.filterMap f = [] := by
        refine List.filterMap_eq_nil_iff.mpr fun c hc => ?_
        obtain ⟨j, hj⟩ := List.mem_iff_getElem?.mp hc
        exact honly (j + 1) c hj (Nat.succ_ne_zero j)
      rw [hrest, List.append_nil]
    | succ i =>
      rw [honly 0 b rfl (Nat.succ_ne_zero i).symm]
      exact ih hi fun j c hj hne => honly (j + 1) c hj fun h => hne (Nat.succ.inj h)

theorem map_set_eq {γ : Type v} {g : α → γ} {l : List α} {i : Nat} {old new : α} (h : l[i]? = some old)
    (hg : g new = g old) : (l.set i new).map g = l.map g := by
  induction l generalizing i with
  | nil => cases h
  | cons a l ih =>
    cases i with
    | zero =>
      cases h
      simp only [List.set_cons_zero, List.map_cons, hg]
    | succ i => simp only [List.set_cons_succ, List.map_cons, ih h]

/-- The same where a thread holds several things. -/
theorem flatMap_set_perm {γ : Type v} {g : α → List γ} {l : List α} {i : Nat} {old : α} (new : α) (h : l[i]? = some old) :
    (g old ++ (l.set i new).flatMap g).Perm (g new ++ l.flatMap g) := by
  induction l generalizing i with
  | nil => cases h
  | cons a l ih =>
    cases i with
    | zero =>
      cases h
      simp only [List.set_cons_zero, List.flatMap_cons]
      exact List.perm_append_comm_assoc _ _ _
    | succ i =>
      simp only [List.set_cons_succ, List.flatMap_cons]
      have hrest := (ih h).append_left (g a)
      exact (List.perm_append_comm_assoc _ _ _).trans (hrest.trans (List.perm_append_comm_assoc _ _ _))

theorem flatMap_set_more {γ : Type v} {g : α → List γ} {l : List α} {i : Nat} {old new : α} {extra : List γ}
    (h : l[i]? = some old) (hnew : g new = extra ++ g old) : ((l.set i new).flatMap g).Perm (extra ++ l.flatMap g) := by
  have hset := flatMap_set_perm (g := g) new h
  rw [hnew, List.append_assoc] at hset
  exact (List.perm_append_left_iff (g old)).mp (hset.trans (List.perm_append_comm_assoc _ _ _))

theorem flatMap_set_less {γ : Type v} {g : α → List γ} {l : List α} {i : Nat} {old new : α} {extra : List γ}
    (h : l[i]? = some old) (hold : g old = extra ++ g new) : (extra ++ (l.set i new).flatMap g).Perm (l.flatMap g) := by
  have hset := flatMap_set_perm (g := g) new h
  rw [hold, List.append_assoc] at hset
  exact (List.perm_append_left_iff (g new)).mp ((List.perm_append_comm_assoc _ _ _).trans hset)

theorem mem_set_other {l : List α} {i : Nat} {old w : α} (new : α) (h : l[i]? = some old) (hw : w ∈ l)
    (hne : w ≠ old) : w ∈ l.set i new := by
  obtain ⟨j, hj⟩ := List.mem_iff_getElem?.mp hw
  refine List.mem_iff_getElem?.mpr ⟨j, ?_⟩
  have hij : i ≠ j := by
    rintro rfl
    exact hne (Option.some.inj (hj.symm.trans h))
  rw [List.getElem?_set_ne hij, hj]

theorem mem_set_new {l : List α} {i : Nat} {old : α} (new : α) (h : l[i]? = some old) : new ∈ l.set i new := by
  obtain ⟨hlt, -⟩ := List.getElem?_eq_some_iff.mp h
  exact List.mem_set hlt new

theorem countP_set_exchange {p : α → Bool} {l : List α} {i : Nat} {old : α} (new : α) (h : l[i]? = some old) :
    (l.set i new).countP p + (p old).toNat = l.countP p + (p new).toNat := by
  induction l generalizing i with
  | nil => cases h
  | cons a l ih =>
    cases i with
    | zero =>
      cases h
      simp only [List.set_cons_zero, List.countP_cons]
      cases p old <;> cases p new <;> simp
    | succ i =>
      have := ih h
      simp only [List.set_cons_succ, List.countP_cons]
      omega

theorem sum_set_exchange {w : α → Nat} {l : List α} {i : Nat} {old : α} (new : α) (h : l[i]? = some old) :
    ((l.set i new).map w).sum + w old = (l.map w).sum + w new := by
  induction l generalizing i with
  | nil => cases h
  | cons a l ih =>
    cases i with
    | zero =>
      cases h
      simp only [List.set_cons_zero, List.map_cons, List.sum_cons]
      omega
    | succ i =>
      have := ih h
      simp only [List.set_cons_succ, List.map_cons, List.sum_cons]
      omega

theorem perm_cons_eraseIdx {l : List α} {i : Nat} {a : α} (h : l[i]? = some a) : l.Perm (a :: l.eraseIdx i) := by
  obtain ⟨hlt, rfl⟩ := List.getElem?_eq_some_iff.mp h
  exact (List.getElem_cons_eraseIdx_perm hlt).symm

theorem forall₂_mem_left {R : α → β → Prop} {as : List α} {bs : List β} (h : List.Forall₂ R as bs) {a : α}
    (ha : a ∈ as) : ∃ b ∈ bs, R a b := by
  induction h with
  | nil => cases ha
  | cons hr _ ih =>
    rcases List.mem_cons.mp ha with rfl | ha
    · exact ⟨_, List.mem_cons_self, hr⟩
    · obtain ⟨b, hb, hr⟩ := ih ha
      exact ⟨b, List.mem_cons_of_mem _ hb, hr⟩

theorem forall₂_mem_right {R : α → β → Prop} {as : List α} {bs : List β} (h : List.Forall₂ R as bs) {b : β}
    (hb : b ∈ bs) : ∃ a ∈ as, R a b := forall₂_mem_left h.flip hb

theorem exists_forall₂ {R : α → β → Prop} {as : List α} (h : ∀ a ∈ as, ∃ b, R a b) : ∃ bs, List.Forall₂ R as bs := by
  induction as with
  | nil => exact ⟨[], .nil⟩
  | cons a as ih =>
    obtain ⟨b, hb⟩ := h a List.mem_cons_self
    obtain ⟨bs, hbs⟩ := ih fun a' ha' => h a' (List.mem_cons_of_mem _ ha')
    exact ⟨b :: bs, .cons hb hbs⟩

theorem forall₂_getElem? {R : α → β → Prop} {as : List α} {bs : List β} (h : List.Forall₂ R as bs) (i : Nat) :
    (as[i]? = none ∧ bs[i]? = none) ∨ ∃ a b, as[i]? = some a ∧ bs[i]? = some b ∧ R a b := by
  induction h generalizing i with
  | nil => exact .inl ⟨rfl, rfl⟩
  | cons hr _ ih =>
    cases i with
    | zero => exact .inr ⟨_, _, rfl, rfl, hr⟩
    | succ i => exact ih i

theorem forall₂_set {R : α → β → Prop} {as : List α} {bs : List β} (h : List.Forall₂ R as bs) (i : Nat) {a : α} {b : β}
    (hr : R a b) : List.Forall₂ R (as.set i a) (bs.set i b) := by
  induction h generalizing i with
  | nil => exact .nil
  | cons hfirst hrest ih =>
    cases i with
    | zero => exact .cons hr hrest
    | succ i => exact .cons hfirst (ih i)

theorem getElem?_concat_cases {l : List α} {a b : α} {j : Nat} (h : (l ++ [a])[j]? = some b) :
    l[j]? = some b ∨ j = l.length ∧ b = a := by
  rcases Nat.lt_trichotomy j l.length with hlt | heq | hgt
  · rw [List.getElem?_append_left hlt] at h
    exact .inl h
  · subst heq
    rw [List.getElem?_concat_length] at h
    exact .inr ⟨rfl, (Option.some.inj h).symm⟩
  · rw [List.getElem?_eq_none (by simp; omega)] at h
    cases h

theorem getElem?_set_cases {l : List α} {i j : Nat} {old new : α} (hi : l[i]? = some old) :
    (l.set i new)[j]? = if j = i then some new else l[j]? := by
  obtain ⟨hlt, -⟩ := List.getElem?_eq_some_iff.mp hi
  by_cases hj : j = i
  · subst hj
    rw [if_pos rfl, List.getElem?_set_self hlt]
  · rw [if_neg hj, List.getElem?_set_ne fun h => hj h.symm]

theorem exists_ne_of_nodup {l : List α} (h : l.Nodup) (hlong : 1 < l.length) : ∃ a ∈ l, ∃ b ∈ l, a ≠ b := by
  obtain ⟨a, b, rest, rfl⟩ : ∃ a b rest, l = a :: b :: rest := by
    match l, hlong with
    | a :: b :: rest, _ => exact ⟨a, b, rest, rfl⟩
  refine ⟨a, List.mem_cons_self, b, by simp, ?_⟩
  rintro rfl
  simp at h

theorem length_gt_one_of_ne {l : List α} {a b : α} (ha : a ∈ l) (hb : b ∈ l) (hne : a ≠ b) :
    1 < l.length := by
  by_contra hshort
  match l, hshort with
  | [], _ => cases ha
  | [c], _ => exact hne ((List.mem_singleton.mp ha).trans (List.mem_singleton.mp hb).symm)
  | _ :: _ :: _, hshort => exact hshort (by simp)

end PuppetMaster.Lib
