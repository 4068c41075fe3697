/-
  PuppetMaster.Lib.TopologicalSort — counting the nodes a topological sort can visit.

  Every node has the number of edges into it that come from nodes not visited yet. A queue
  holds the nodes whose number is 0; visiting one lowers the numbers of its targets and
  queues those that reach 0. `sort` is the loop, with a bound on its iterations, and its
  result is the number of visited nodes.

  `Sorted` is what holds between two visits (`sorted_step`, `sorted_run`). The sort visits
  all nodes exactly when they can be ranked such that every edge goes up (`sort_eq_length_iff`),
  and there is such a ranking exactly when no path returns to its start (`exists_rank_iff`):
  the number of nodes with a path to a node is one.
-/

import Mathlib.Data.Finset.Card
import Mathlib.Data.List.Perm.Subperm
import Mathlib.Logic.Relation

namespace PuppetMaster.Lib

universe u

variable {α : Type u} [DecidableEq α]

/-- The number of `node` lowered by one, and what is left of it. -/
def lower (degrees : List (α × Nat)) (node : α) : List (α × Nat) × Nat :=
  let next := degrees.map fun entry => if entry.1 = node then (entry.1, entry.2 - 1) else entry
  (next, ((next.find? fun entry => entry.1 = node).map Prod.snd).getD 0)

def release : List α → List (α × Nat) → List α → List (α × Nat) × List α
  | [], degrees, ready => (degrees, ready)
  | target :: targets, degrees, ready =>
    let (next, left) := lower degrees target
    release targets next (if left = 0 then ready ++ [target] else ready)

/-- Where the edges from `node` go, in order. -/
def targetsOf (edges : List (α × α)) (node : α) : List α := (edges.filter fun edge => edge.1 = node).map Prod.snd

/-- The queue loop; the result is the number of visited nodes. -/
def sort (edges : List (α × α)) : Nat → List (α × Nat) → List α → Nat → Nat
  | 0, _, _, visited => visited
  | _ + 1, _, [], visited => visited
  | fuel + 1, degrees, node :: rest, visited =>
    let (next, ready) := release (targetsOf edges node) degrees rest
    sort edges fuel next ready (visited + 1)

def degreesOf (nodes : List α) (edges : List (α × α)) : List (α × Nat) :=
  nodes.map fun node => (node, edges.countP fun edge => edge.2 = node)

/-- The nodes without an edge into them. -/
def sources (degrees : List (α × Nat)) : List α := (degrees.filter fun entry => entry.2 = 0).map Prod.fst

/-! ## One visit -/

variable {nodes : List α}

theorem lower_map {node : α} (hnode : node ∈ nodes) (f : α → Nat) :
    lower (nodes.map fun n => (n, f n)) node =
      (nodes.map fun n => (n, if n = node then f n - 1 else f n), f node - 1) := by
  have hnext : (nodes.map fun n => (n, f n)).map (fun entry => if entry.1 = node then (entry.1, entry.2 - 1) else entry) =
      nodes.map fun n => (n, if n = node then f n - 1 else f n) := by
    rw [List.map_map]
    apply List.map_congr_left
    intro n _
    simp only [Function.comp_apply]
    split <;> rfl
  have hfind : ((nodes.map fun n => (n, if n = node then f n - 1 else f n)).find? fun entry => entry.1 = node) =
      some (node, f node - 1) := by
    clear hnext
    induction nodes with
    | nil => cases hnode
    | cons n nodes ih =>
      rw [List.map_cons]
      by_cases h : n = node
      · rw [List.find?_cons_of_pos (by simpa using h)]
        simp only [h, if_true]
      · rw [List.find?_cons_of_neg (by simpa using h)]
        exact ih ((List.mem_cons.mp hnode).resolve_left fun e => h e.symm)
  simp only [lower, hnext, hfind, Option.map_some, Option.getD_some]

/-- A node is queued when its number reaches 0, at the last edge into it. -/
theorem release_map {targets : List α} (htargets : ∀ t ∈ targets, t ∈ nodes) (f : α → Nat)
    (hf : ∀ n, targets.count n ≤ f n) (ready : List α) :
    ∃ queued, release targets (nodes.map fun n => (n, f n)) ready =
        (nodes.map fun n => (n, f n - targets.count n), ready ++ queued) ∧
      queued.Nodup ∧ ∀ n, n ∈ queued ↔ n ∈ targets ∧ f n = targets.count n := by
  induction targets generalizing f ready with
  | nil => exact ⟨[], by simp [release], List.nodup_nil, by simp⟩
  | cons t targets ih =>
    have ht : targets.count t + 1 ≤ f t := by
      have := hf t
      rwa [List.count_cons_self] at this
    have hother : ∀ n, n ≠ t → (t :: targets).count n = targets.count n := fun n hn =>
      List.count_cons_of_ne fun e => hn e.symm
    have hlower : ∀ n, targets.count n ≤ if n = t then f n - 1 else f n := by
      intro n
      split
      · next h =>
        subst h
        omega
      · next h =>
        have := hf n
        rwa [hother n h] at this
    have hleft : ∀ n, (if n = t then f n - 1 else f n) - targets.count n = f n - (t :: targets).count n := by
      intro n
      split
      · next h =>
        rw [h, List.count_cons_self]
        omega
      · next h => rw [hother n h]
    obtain ⟨queued, hrelease, hnodup, hmem⟩ := ih (fun t' h => htargets t' (List.mem_cons_of_mem _ h)) _ hlower
      (if f t - 1 = 0 then ready ++ [t] else ready)
    simp only [hleft] at hrelease
    rw [release, lower_map (htargets t List.mem_cons_self)]
    simp only [hrelease]
    by_cases hzero : f t - 1 = 0
    · have hnot : t ∉ targets := List.count_eq_zero.mp (by omega)
      refine ⟨t :: queued, by simp [hzero], List.nodup_cons.mpr ⟨fun h => hnot ((hmem t).mp h).1, hnodup⟩, fun n => ?_⟩
      by_cases hn : n = t
      · subst hn
        rw [List.count_cons_self, List.count_eq_zero.mpr hnot]
        simp
        omega
      · rw [List.mem_cons, List.mem_cons, hmem n, hother n hn, if_neg hn]
        simp [hn]
    · refine ⟨queued, by simp [hzero], hnodup, fun n => ?_⟩
      rw [hmem n]
      by_cases hn : n = t
      · subst hn
        rw [if_pos rfl, List.count_cons_self]
        have hcount : n ∈ targets ↔ 0 < targets.count n := List.count_pos_iff.symm
        rw [hcount, List.mem_cons]
        simp only [true_or, true_and]
        omega
      · rw [List.mem_cons, hother n hn, if_neg hn]
        simp [hn]

/-- The edges into `node` from nodes that are not visited yet. -/
def remaining (edges : List (α × α)) (visited : List α) (node : α) : Nat :=
  edges.countP fun edge => edge.2 = node ∧ edge.1 ∉ visited

theorem remaining_nil (edges : List (α × α)) (node : α) :
    remaining edges [] node = edges.countP fun edge => edge.2 = node := by
  unfold remaining
  apply List.countP_congr
  intro edge _
  simp

theorem remaining_snoc (edges : List (α × α)) {visited : List α} {source : α} (h : source ∉ visited) (node : α) :
    remaining edges visited node = remaining edges (visited ++ [source]) node + (targetsOf edges source).count node := by
  induction edges with
  | nil => rfl
  | cons edge edges ih =>
    unfold remaining targetsOf at ih ⊢
    rw [List.countP_cons, List.countP_cons, ih]
    by_cases hsource : edge.1 = source
    · rw [List.filter_cons_of_pos (by simpa using hsource), List.map_cons]
      by_cases hnode : edge.2 = node
      · rw [hnode, List.count_cons_self]
        simp [hsource, h]
        omega
      · rw [List.count_cons_of_ne hnode]
        simp [hnode]
    · rw [List.filter_cons_of_neg (by simpa using hsource)]
      by_cases hnode : edge.2 = node <;> simp [hnode, hsource]
      omega

theorem remaining_eq_zero {edges : List (α × α)} {visited : List α} {node : α} :
    remaining edges visited node = 0 ↔ ∀ edge ∈ edges, edge.2 = node → edge.1 ∈ visited := by
  unfold remaining
  rw [List.countP_eq_zero]
  constructor
  · intro h edge hedge hnode
    have := h edge hedge
    simp only [hnode, true_and, decide_eq_true_eq, not_not] at this
    exact this
  · intro h edge hedge
    simp only [decide_eq_true_eq, not_and, not_not]
    exact h edge hedge

/-- Between two visits: the numbers are those of the edges that remain, the queue holds the
    nodes at 0 that are not visited, and every edge into a visited node comes from one
    visited before. -/
structure Sorted (nodes : List α) (edges : List (α × α)) (visited : List α) (degrees : List (α × Nat))
    (ready : List α) : Prop where
  degrees : degrees = nodes.map fun n => (n, remaining edges visited n)
  nodup : (visited ++ ready).Nodup
  mem : ∀ n, n ∈ visited ++ ready ↔ n ∈ nodes ∧ remaining edges visited n = 0
  order : ∀ edge ∈ edges, edge.2 ∈ visited → edge.1 ∈ visited ∧ visited.idxOf edge.1 < visited.idxOf edge.2

variable {edges : List (α × α)} {visited ready : List α} {degrees : List (α × Nat)}

theorem sorted_start (hnodes : nodes.Nodup) :
    Sorted nodes edges [] (degreesOf nodes edges) (sources (degreesOf nodes edges)) := by
  have hsources : sources (degreesOf nodes edges) = nodes.filter fun n => remaining edges [] n = 0 := by
    unfold sources degreesOf
    rw [List.filter_map, List.map_map]
    simp only [remaining_nil]
    exact List.map_id _
  refine ⟨?_, ?_, fun n => ?_, fun edge _ h => absurd h List.not_mem_nil⟩
  · simp only [degreesOf, remaining_nil]
  · rw [hsources]
    exact hnodes.filter _
  · rw [hsources, List.nil_append, List.mem_filter, decide_eq_true_eq]

theorem sorted_step (hedges : ∀ edge ∈ edges, edge.2 ∈ nodes) {node : α}
    (h : Sorted nodes edges visited degrees (node :: ready)) :
    Sorted nodes edges (visited ++ [node]) (release (targetsOf edges node) degrees ready).1
      (release (targetsOf edges node) degrees ready).2 := by
  have hdisjoint := (List.nodup_append.mp h.nodup).2.2
  have hfresh : node ∉ visited := fun hv => hdisjoint node hv node List.mem_cons_self rfl
  have hremaining := remaining_snoc edges hfresh
  have htargets : ∀ t ∈ targetsOf edges node, t ∈ nodes := by
    intro t ht
    obtain ⟨edge, hedge, rfl⟩ := List.mem_map.mp ht
    exact hedges edge (List.mem_filter.mp hedge).1
  obtain ⟨queued, hrelease, hqueued, hmem⟩ := release_map htargets (remaining edges visited)
    (fun n => by have := hremaining n; omega) ready
  rw [h.degrees, hrelease]
  have hold : ∀ n ∈ queued, n ∉ visited ++ node :: ready := by
    intro n hn hin
    have hzero := ((h.mem n).mp hin).2
    obtain ⟨ht, hcount⟩ := (hmem n).mp hn
    have := List.count_pos_iff.mpr ht
    omega
  refine ⟨?_, ?_, fun n => ?_, fun edge hedge hin => ?_⟩
  · apply List.map_congr_left
    intro n _
    have := hremaining n
    simp only [Prod.mk.injEq, true_and]
    omega
  · rw [List.append_assoc, List.singleton_append, ← List.cons_append, ← List.append_assoc]
    exact List.nodup_append.mpr ⟨h.nodup, hqueued, fun a ha b hb e => hold b hb (e ▸ ha)⟩
  · rw [List.append_assoc, List.singleton_append, ← List.cons_append, ← List.append_assoc, List.mem_append, h.mem, hmem]
    have := hremaining n
    constructor
    · intro h
      rcases h with ⟨hn, hzero⟩ | ⟨ht, hcount⟩
      · exact ⟨hn, by omega⟩
      · exact ⟨htargets n ht, by omega⟩
    · intro h
      obtain ⟨hn, hzero⟩ := h
      by_cases ht : n ∈ targetsOf edges node
      · exact .inr ⟨ht, by omega⟩
      · have := List.count_eq_zero.mpr ht
        exact .inl ⟨hn, by omega⟩
  · rcases List.mem_append.mp hin with hin | hin
    · obtain ⟨hsource, hlt⟩ := h.order edge hedge hin
      refine ⟨List.mem_append_left _ hsource, ?_⟩
      rwa [List.idxOf_append_of_mem hsource, List.idxOf_append_of_mem hin]
    · have hnode : edge.2 = node := List.mem_singleton.mp hin
      have hzero := ((h.mem node).mp (List.mem_append_right _ List.mem_cons_self)).2
      have hsource := remaining_eq_zero.mp hzero edge hedge hnode
      refine ⟨List.mem_append_left _ hsource, ?_⟩
      rw [hnode, List.idxOf_append_of_mem hsource, List.idxOf_append_of_notMem hfresh]
      have := List.idxOf_lt_length_of_mem hsource
      omega

/-- A run ends with an empty queue after as many visits as it counts. -/
theorem sorted_run (hedges : ∀ edge ∈ edges, edge.2 ∈ nodes) (fuel : Nat)
    (h : Sorted nodes edges visited degrees ready) (hfuel : nodes.length ≤ fuel + visited.length) :
    ∃ visited' degrees', Sorted nodes edges visited' degrees' [] ∧
      sort edges fuel degrees ready visited.length = visited'.length := by
  have hbound : visited.length + ready.length ≤ nodes.length := by
    have hsub : visited ++ ready ⊆ nodes := fun n hn => ((h.mem n).mp hn).1
    have := (List.subperm_of_subset h.nodup hsub).length_le
    rwa [List.length_append] at this
  induction fuel generalizing visited degrees ready with
  | zero =>
    have hempty : ready = [] := List.length_eq_zero_iff.mp (by omega)
    subst hempty
    exact ⟨visited, degrees, h, rfl⟩
  | succ fuel ih =>
    cases ready with
    | nil => exact ⟨visited, degrees, h, rfl⟩
    | cons node ready =>
      have hnext := sorted_step hedges h
      have hlen : (visited ++ [node]).length = visited.length + 1 := by
        rw [List.length_append, List.length_singleton]
      have hbound' : (visited ++ [node]).length + (release (targetsOf edges node) degrees ready).2.length ≤ nodes.length := by
        have hsub : (visited ++ [node]) ++ (release (targetsOf edges node) degrees ready).2 ⊆ nodes :=
          fun n hn => ((hnext.mem n).mp hn).1
        have := (List.subperm_of_subset hnext.nodup hsub).length_le
        rwa [List.length_append] at this
      have hrun := ih hnext (by omega) hbound'
      rw [hlen] at hrun
      exact hrun

/-- The sort visits all nodes exactly when a ranking lets every edge go up. -/
theorem sort_eq_length_iff (hnodes : nodes.Nodup) (hedges : ∀ edge ∈ edges, edge.1 ∈ nodes ∧ edge.2 ∈ nodes) {fuel : Nat}
    (hfuel : nodes.length ≤ fuel) :
    sort edges fuel (degreesOf nodes edges) (sources (degreesOf nodes edges)) 0 = nodes.length ↔
      ∃ rank : α → Nat, ∀ edge ∈ edges, rank edge.1 < rank edge.2 := by
  obtain ⟨visited, degrees, h, hsort⟩ := sorted_run (fun edge he => (hedges edge he).2) fuel (sorted_start hnodes)
    (by simpa using hfuel)
  rw [List.length_nil] at hsort
  rw [hsort]
  have hnodup : visited.Nodup := by simpa using h.nodup
  have hmem : ∀ n, n ∈ visited ↔ n ∈ nodes ∧ remaining edges visited n = 0 := by simpa using h.mem
  have hsub : visited.Subperm nodes := List.subperm_of_subset hnodup fun n hn => ((hmem n).mp hn).1
  constructor
  · intro hlen
    have hall : visited.Perm nodes := hsub.perm_of_length_le (Nat.le_of_eq hlen.symm)
    refine ⟨visited.idxOf, fun edge hedge => (h.order edge hedge ?_).2⟩
    exact hall.symm.subset (hedges edge hedge).2
  · intro h
    obtain ⟨rank, hrank⟩ := h
    -- the lowest node that is not visited would have an edge from a lower one
    have hall : ∀ k n, rank n = k → n ∈ nodes → n ∈ visited := by
      intro k
      induction k using Nat.strongRecOn with
      | ind k ih =>
        intro n hk hn
        refine (hmem n).mpr ⟨hn, remaining_eq_zero.mpr fun edge hedge hnode => ?_⟩
        have hlt := hrank edge hedge
        rw [hnode, hk] at hlt
        exact ih _ hlt edge.1 rfl (hedges edge hedge).1
    have hsuper : nodes.Subperm visited := List.subperm_of_subset hnodes fun n hn => hall _ n rfl hn
    exact Nat.le_antisymm hsub.length_le hsuper.length_le

/-! ## Cycles -/

/-- There is a path of one edge or more. -/
def Precedes {α : Type u} (edges : List (α × α)) : α → α → Prop := Relation.TransGen fun a b => (a, b) ∈ edges

def Acyclic {α : Type u} (edges : List (α × α)) : Prop := ∀ node, ¬ Precedes edges node node

theorem Precedes.rank_lt {α : Type u} {edges : List (α × α)} {rank : α → Nat} {a b : α}
    (hrank : ∀ edge ∈ edges, rank edge.1 < rank edge.2) (h : Precedes edges a b) : rank a < rank b := by
  induction h with
  | single hedge => exact hrank _ hedge
  | tail _ hedge ih => exact Nat.lt_trans ih (hrank _ hedge)

open Classical in
theorem exists_rank_iff {α : Type u} {edges : List (α × α)} :
    (∃ rank : α → Nat, ∀ edge ∈ edges, rank edge.1 < rank edge.2) ↔ Acyclic edges := by
  constructor
  · intro h node hcycle
    obtain ⟨rank, hrank⟩ := h
    exact Nat.lt_irrefl _ (hcycle.rank_lt hrank)
  · intro h
    let before (node : α) : Finset α := (edges.map Prod.fst).toFinset.filter fun a => Precedes edges a node
    refine ⟨fun node => (before node).card, ?_⟩
    intro edge hedge
    apply Finset.card_lt_card
    rw [Finset.ssubset_iff_of_subset]
    · -- the source is before the target, and not before itself
      refine ⟨edge.1, ?_, ?_⟩
      · rw [Finset.mem_filter, List.mem_toFinset]
        exact ⟨List.mem_map_of_mem hedge, .single hedge⟩
      · rw [Finset.mem_filter]
        intro hmem
        exact h edge.1 hmem.2
    · intro a ha
      obtain ⟨hin, hpath⟩ := Finset.mem_filter.mp ha
      exact Finset.mem_filter.mpr ⟨hin, hpath.tail hedge⟩

end PuppetMaster.Lib
