/-
  PuppetMaster.Lib.DepthFirst — depth-first search with a chain and a set of loaded nodes.

  A graph is `next`, the successors of a node in order. The search keeps the nodes it is in
  (the chain), those it has entered (`loaded`) and those it has left (`order`). It stops at a
  successor that is on the chain, passes over one that is loaded, and enters any other.
  `Visits` is the search from a list of nodes, step by step, with its outcome; `Search` is
  the search from a root.

  `Walk` is the specification: the post-order of all paths, in which a node stands as often
  as paths lead to it. `firsts` keeps the first of equal nodes.

  - `exists_search`: over finitely many nodes the search ends.
  - `search_cycle_iff`: it stops early exactly when a cycle is reachable.
  - `search_done`: else it has left each reachable node once, in the post-order of first visit.
-/

import Mathlib.Data.Finset.Card
import Mathlib.Logic.Relation

namespace PuppetMaster.Lib.DepthFirst

open Relation

universe u

variable {κ : Type u}

/-! ## The search -/

structure Visited (κ : Type u) where
  loaded : List κ
  order : List κ

/-- How a search stopped: at a node of its own chain, or at the end. -/
inductive Outcome (κ : Type u) where
  | cycle (node : κ) (order : List κ)
  | done (visited : Visited κ)

namespace Outcome

/-- The nodes that were left before the search stopped. -/
def order : Outcome κ → List κ
  | .cycle _ order => order
  | .done visited => visited.order

/-- The node is left too. -/
def close (node : κ) : Outcome κ → Outcome κ
  | .cycle at' order => .cycle at' order
  | .done visited => .done ⟨visited.loaded, visited.order ++ [node]⟩

end Outcome

def Visited.enter (visited : Visited κ) (node : κ) : Visited κ := ⟨node :: visited.loaded, visited.order⟩

def Visited.leave (visited : Visited κ) (node : κ) : Visited κ := ⟨visited.loaded, visited.order ++ [node]⟩

inductive Visits (next : κ → List κ) : List κ → Visited κ → List κ → Outcome κ → Prop
  | nil {chain : List κ} {visited : Visited κ} : Visits next chain visited [] (.done visited)
  | cycle {chain : List κ} {visited : Visited κ} {node : κ} {nodes : List κ} (onChain : node ∈ chain) :
      Visits next chain visited (node :: nodes) (.cycle node visited.order)
  | skip {chain : List κ} {visited : Visited κ} {node : κ} {nodes : List κ} {outcome : Outcome κ} (offChain : node ∉ chain)
      (loaded : node ∈ visited.loaded) (rest : Visits next chain visited nodes outcome) :
      Visits next chain visited (node :: nodes) outcome
  | stop {chain : List κ} {visited : Visited κ} {node closing : κ} {nodes order : List κ} (offChain : node ∉ chain)
      (fresh : node ∉ visited.loaded)
      (inner : Visits next (chain ++ [node]) (visited.enter node) (next node) (.cycle closing order)) :
      Visits next chain visited (node :: nodes) (.cycle closing order)
  | step {chain : List κ} {visited inside : Visited κ} {node : κ} {nodes : List κ} {outcome : Outcome κ}
      (offChain : node ∉ chain) (fresh : node ∉ visited.loaded)
      (inner : Visits next (chain ++ [node]) (visited.enter node) (next node) (.done inside))
      (rest : Visits next chain (inside.leave node) nodes outcome) : Visits next chain visited (node :: nodes) outcome

/-- The search from a root. -/
def Search (next : κ → List κ) (root : κ) (outcome : Outcome κ) : Prop :=
  ∃ inner, Visits next [root] ⟨[root], []⟩ (next root) inner ∧ outcome = inner.close root

variable {next : κ → List κ} {chain nodes : List κ} {visited : Visited κ} {outcome : Outcome κ} {root : κ}

/-! ## It ends -/

theorem Visits.loaded_subset (h : Visits next chain visited nodes outcome) {after : Visited κ} (hdone : outcome = .done after) :
    ∀ node ∈ visited.loaded, node ∈ after.loaded := by
  induction h generalizing after with
  | nil =>
    cases hdone
    exact fun _ h => h
  | cycle _ => cases hdone
  | skip _ _ _ ih => exact ih hdone
  | stop _ _ _ _ => cases hdone
  | step _ _ _ _ ihInner ihRest => exact fun node h => ihRest hdone node (ihInner rfl node (List.mem_cons_of_mem _ h))

/-- What has been left stays, in its place. -/
theorem Visits.order_grows (h : Visits next chain visited nodes outcome) : visited.order <+: outcome.order := by
  induction h with
  | nil => exact List.prefix_refl _
  | cycle _ => exact List.prefix_refl _
  | skip _ _ _ ih => exact ih
  | stop _ _ _ ih => exact ih
  | step _ _ _ _ ihInner ihRest => exact ihInner.trans ((List.prefix_append _ _).trans ihRest)

theorem exists_visits [DecidableEq κ] {all : Finset κ} (hclosed : ∀ node ∈ all, ∀ target ∈ next node, target ∈ all) (n : Nat)
    (chain nodes : List κ) (visited : Visited κ) (hn : (all \ visited.loaded.toFinset).card ≤ n)
    (hnodes : ∀ node ∈ nodes, node ∈ all) : ∃ outcome, Visits next chain visited nodes outcome := by
  induction n generalizing chain nodes visited with
  | zero =>
    induction nodes with
    | nil => exact ⟨_, .nil⟩
    | cons node nodes ih =>
      by_cases hchain : node ∈ chain
      · exact ⟨_, .cycle hchain⟩
      · have hloaded : node ∈ visited.loaded := by
          by_contra hfresh
          have hempty := Finset.card_eq_zero.mp (Nat.le_zero.mp hn)
          have hmem : node ∈ all \ visited.loaded.toFinset :=
            Finset.mem_sdiff.mpr ⟨hnodes node List.mem_cons_self, fun h => hfresh (List.mem_toFinset.mp h)⟩
          rw [hempty] at hmem
          exact absurd hmem (Finset.notMem_empty _)
        obtain ⟨outcome, hrest⟩ := ih fun other hother => hnodes other (List.mem_cons_of_mem _ hother)
        exact ⟨outcome, .skip hchain hloaded hrest⟩
  | succ n ih =>
    induction nodes generalizing visited with
    | nil => exact ⟨_, .nil⟩
    | cons node nodes ihNodes =>
      have htail : ∀ other ∈ nodes, other ∈ all := fun other hother => hnodes other (List.mem_cons_of_mem _ hother)
      have hnode := hnodes node List.mem_cons_self
      by_cases hchain : node ∈ chain
      · exact ⟨_, .cycle hchain⟩
      by_cases hloaded : node ∈ visited.loaded
      · obtain ⟨outcome, hrest⟩ := ihNodes visited hn htail
        exact ⟨outcome, .skip hchain hloaded hrest⟩
      -- one node less is left to enter
      have hless : (all \ (visited.enter node).loaded.toFinset).card ≤ n := by
        refine Nat.le_of_lt_succ (Nat.lt_of_lt_of_le (Finset.card_lt_card ?_) hn)
        refine (Finset.ssubset_iff_of_subset ?_).mpr ⟨node, ?_, ?_⟩
        · exact Finset.sdiff_subset_sdiff (Finset.Subset.refl _) fun x hx =>
            List.mem_toFinset.mpr (List.mem_cons_of_mem _ (List.mem_toFinset.mp hx))
        · exact Finset.mem_sdiff.mpr ⟨hnode, fun h => hloaded (List.mem_toFinset.mp h)⟩
        · exact fun h => (Finset.mem_sdiff.mp h).2 (List.mem_toFinset.mpr List.mem_cons_self)
      obtain ⟨inner, hinner⟩ := ih (chain ++ [node]) (next node) (visited.enter node) hless (hclosed node hnode)
      cases inner with
      | cycle closing order => exact ⟨_, .stop hchain hloaded hinner⟩
      | done inside =>
        have hkept := hinner.loaded_subset rfl
        have hleft : (all \ (inside.leave node).loaded.toFinset).card ≤ n + 1 := by
          refine Nat.le_trans (Finset.card_le_card ?_) (Nat.le_succ_of_le hless)
          exact Finset.sdiff_subset_sdiff (Finset.Subset.refl _) fun x hx =>
            List.mem_toFinset.mpr (hkept x (List.mem_toFinset.mp hx))
        obtain ⟨outcome, hrest⟩ := ihNodes (inside.leave node) hleft htail
        exact ⟨outcome, .step hchain hloaded hinner hrest⟩

theorem exists_search [DecidableEq κ] {all : Finset κ} (hclosed : ∀ node ∈ all, ∀ target ∈ next node, target ∈ all)
    (hroot : root ∈ all) : ∃ outcome, Search next root outcome := by
  obtain ⟨inner, hinner⟩ := exists_visits hclosed _ [root] (next root) ⟨[root], []⟩ (Nat.le_refl _) (hclosed root hroot)
  exact ⟨_, inner, hinner, rfl⟩

/-! ## The post-order of all paths -/

def Edge (next : κ → List κ) (a b : κ) : Prop := b ∈ next a

/-- A node from which a path leads back to it can be reached. -/
def CycleReachable (next : κ → List κ) (root : κ) : Prop :=
  ∃ node, ReflTransGen (Edge next) root node ∧ TransGen (Edge next) node node

inductive Walk (next : κ → List κ) : List κ → List κ → Prop
  | nil : Walk next [] []
  | cons {node : κ} {nodes inner rest : List κ} (below : Walk next (next node) inner) (behind : Walk next nodes rest) :
      Walk next (node :: nodes) (inner ++ node :: rest)

theorem walk_nil {l : List κ} (h : Walk next [] l) : l = [] := by
  cases h
  rfl

theorem walk_cons {node : κ} {l : List κ} (h : Walk next (node :: nodes) l) :
    ∃ inner rest, Walk next (next node) inner ∧ Walk next nodes rest ∧ l = inner ++ node :: rest := by
  cases h with
  | cons below behind => exact ⟨_, _, below, behind, rfl⟩

theorem walk_single {node : κ} {l : List κ} (h : Walk next [node] l) :
    ∃ inner, Walk next (next node) inner ∧ l = inner ++ [node] := by
  obtain ⟨inner, rest, hbelow, hbehind, rfl⟩ := walk_cons h
  rw [walk_nil hbehind]
  exact ⟨inner, hbelow, rfl⟩

theorem Walk.unique {l l' : List κ} (h : Walk next nodes l) (h' : Walk next nodes l') : l = l' := by
  induction h generalizing l' with
  | nil => exact (walk_nil h').symm
  | cons _ _ ihBelow ihBehind =>
    obtain ⟨inner, rest, hbelow, hbehind, rfl⟩ := walk_cons h'
    rw [ihBelow hbelow, ihBehind hbehind]

theorem Walk.of_mem {l : List κ} (h : Walk next nodes l) {node : κ} (hnode : node ∈ nodes) :
    ∃ l', Walk next [node] l' ∧ l'.length ≤ l.length := by
  induction h with
  | nil => cases hnode
  | cons below _ _ ihBehind =>
    rcases List.mem_cons.mp hnode with rfl | hnode
    · exact ⟨_, .cons below .nil, by simp⟩
    · obtain ⟨l', hl', hle⟩ := ihBehind hnode
      refine ⟨l', hl', Nat.le_trans hle ?_⟩
      rw [List.length_append, List.length_cons]
      omega

theorem Walk.of_edge {a b : κ} {l : List κ} (h : Walk next [a] l) (hedge : Edge next a b) :
    ∃ l', Walk next [b] l' ∧ l'.length < l.length := by
  obtain ⟨inner, hbelow, rfl⟩ := walk_single h
  obtain ⟨l', hl', hle⟩ := hbelow.of_mem hedge
  refine ⟨l', hl', ?_⟩
  rw [List.length_append, List.length_singleton]
  omega

theorem Walk.of_path {a b : κ} {l : List κ} (h : Walk next [a] l) (hpath : TransGen (Edge next) a b) :
    ∃ l', Walk next [b] l' ∧ l'.length < l.length := by
  induction hpath with
  | single hedge => exact h.of_edge hedge
  | tail _ hedge ih =>
    obtain ⟨middle, hmiddle, hlt⟩ := ih
    obtain ⟨l', hl', hlt'⟩ := hmiddle.of_edge hedge
    exact ⟨l', hl', Nat.lt_trans hlt' hlt⟩

/-- The paths from a node on a cycle have no end. -/
theorem Walk.acyclic {l : List κ} (h : Walk next [root] l) : ¬ CycleReachable next root := by
  rintro ⟨node, hreach, hcycle⟩
  obtain ⟨first, hfirst⟩ : ∃ first, Walk next [node] first := by
    rcases reflTransGen_iff_eq_or_transGen.mp hreach with rfl | hpath
    · exact ⟨l, h⟩
    · obtain ⟨l', hl', -⟩ := h.of_path hpath
      exact ⟨l', hl'⟩
  obtain ⟨again, hagain, hlt⟩ := hfirst.of_path hcycle
  rw [hfirst.unique hagain] at hlt
  exact Nat.lt_irrefl _ hlt

/-- Every node of the post-order is reachable, and the other way round. -/
theorem Walk.mem_iff {l : List κ} (h : Walk next nodes l) {b : κ} :
    b ∈ l ↔ ∃ a ∈ nodes, ReflTransGen (Edge next) a b := by
  induction h with
  | nil => simp
  | @cons node nodes inner rest _ _ ihBelow ihBehind =>
    rw [List.mem_append, List.mem_cons, ihBelow, ihBehind]
    constructor
    · rintro (⟨a, ha, hab⟩ | rfl | ⟨a, ha, hab⟩)
      · exact ⟨node, List.mem_cons_self, .head ha hab⟩
      · exact ⟨b, List.mem_cons_self, .refl⟩
      · exact ⟨a, List.mem_cons_of_mem _ ha, hab⟩
    · rintro ⟨a, ha, hab⟩
      rcases List.mem_cons.mp ha with rfl | ha
      · rcases ReflTransGen.cases_head hab with rfl | ⟨c, hc, hcb⟩
        · exact .inr (.inl rfl)
        · exact .inl ⟨c, hc, hcb⟩
      · exact .inr (.inr ⟨a, ha, hab⟩)

/-! ## The first of equal nodes -/

/-- The elements of `l` that are new, behind `before`. -/
def extend [DecidableEq κ] (before l : List κ) : List κ :=
  l.foldl (fun kept x => if x ∈ kept then kept else kept ++ [x]) before

def firsts [DecidableEq κ] (l : List κ) : List κ := extend [] l

variable [DecidableEq κ]

theorem extend_append (before l l' : List κ) : extend before (l ++ l') = extend (extend before l) l' := List.foldl_append

theorem extend_of_subset {before l : List κ} (h : ∀ x ∈ l, x ∈ before) : extend before l = before := by
  induction l with
  | nil => rfl
  | cons x l ih =>
    rw [extend, List.foldl_cons, if_pos (h x List.mem_cons_self)]
    exact ih fun y hy => h y (List.mem_cons_of_mem _ hy)

theorem extend_new {before : List κ} {x : κ} (h : x ∉ before) : extend before [x] = before ++ [x] := by
  rw [extend, List.foldl_cons, if_neg h, List.foldl_nil]

theorem mem_extend {before l : List κ} {x : κ} : x ∈ extend before l ↔ x ∈ before ∨ x ∈ l := by
  induction l generalizing before with
  | nil => simp [extend]
  | cons y l ih =>
    rw [extend, List.foldl_cons]
    change x ∈ extend _ l ↔ _
    rw [ih, List.mem_cons]
    by_cases hy : y ∈ before
    · rw [if_pos hy]
      constructor
      · rintro (h | h)
        · exact .inl h
        · exact .inr (.inr h)
      · rintro (h | rfl | h)
        · exact .inl h
        · exact .inl hy
        · exact .inr h
    · rw [if_neg hy, List.mem_append, List.mem_singleton]
      tauto

theorem mem_firsts {l : List κ} {x : κ} : x ∈ firsts l ↔ x ∈ l := by
  rw [firsts, mem_extend]
  simp

/-! ## What the search finds -/

/-- A node is loaded while it is on the chain or once it has been left; what is below a node that was left was left. -/
structure Good (next : κ → List κ) (chain : List κ) (visited : Visited κ) : Prop where
  loaded : ∀ x, x ∈ visited.loaded ↔ x ∈ chain ∨ x ∈ visited.order
  apart : ∀ x ∈ chain, x ∉ visited.order
  walks : ∀ x ∈ visited.order, ∃ l, Walk next [x] l ∧ ∀ y ∈ l, y ∈ visited.order

omit [DecidableEq κ] in
theorem Good.enter {node : κ} (h : Good next chain visited) (hfresh : node ∉ visited.loaded) :
    Good next (chain ++ [node]) (visited.enter node) := by
  refine ⟨fun x => ?_, fun x hx => ?_, h.walks⟩
  · show x ∈ node :: visited.loaded ↔ _ ∨ x ∈ visited.order
    rw [List.mem_cons, h.loaded x, List.mem_append, List.mem_singleton]
    tauto
  · rcases List.mem_append.mp hx with hx | hx
    · exact h.apart x hx
    · rw [List.mem_singleton.mp hx]
      exact fun horder => hfresh ((h.loaded node).mpr (.inr horder))

omit [DecidableEq κ] in
theorem Good.leave {node : κ} {inner : List κ} (h : Good next (chain ++ [node]) visited) (hchain : node ∉ chain)
    (hbelow : Walk next (next node) inner) (hleft : ∀ x ∈ inner, x ∈ visited.order) :
    Good next chain (visited.leave node) := by
  refine ⟨fun x => ?_, fun x hx hleave => ?_, fun x hx => ?_⟩
  · show x ∈ visited.loaded ↔ x ∈ chain ∨ x ∈ visited.order ++ [node]
    rw [h.loaded x, List.mem_append, List.mem_append, List.mem_singleton]
    tauto
  · rcases List.mem_append.mp hleave with horder | hnode
    · exact h.apart x (List.mem_append_left _ hx) horder
    · exact hchain (List.mem_singleton.mp hnode ▸ hx)
  · rcases List.mem_append.mp hx with hx | hx
    · obtain ⟨l, hl, hsub⟩ := h.walks x hx
      exact ⟨l, hl, fun y hy => List.mem_append_left _ (hsub y hy)⟩
    · rw [List.mem_singleton.mp hx]
      refine ⟨inner ++ [node], .cons hbelow .nil, fun y hy => ?_⟩
      rcases List.mem_append.mp hy with hy | hy
      · exact List.mem_append_left _ (hleft y hy)
      · exact List.mem_append_right _ hy

/-- A search that came to its end has left what is new on all paths, in their post-order. -/
theorem Visits.done_spec (h : Visits next chain visited nodes outcome) (hgood : Good next chain visited) {after : Visited κ}
    (hdone : outcome = .done after) :
    Good next chain after ∧ ∃ l, Walk next nodes l ∧ after.order = extend visited.order l := by
  induction h generalizing after with
  | nil =>
    cases hdone
    exact ⟨hgood, [], .nil, rfl⟩
  | cycle _ => cases hdone
  | @skip chain visited node nodes outcome hchain hloaded _ ih =>
    obtain ⟨hafter, rest, hrest, horder⟩ := ih hgood hdone
    have hleft : node ∈ visited.order := ((hgood.loaded node).mp hloaded).resolve_left hchain
    obtain ⟨l, hl, hsub⟩ := hgood.walks node hleft
    obtain ⟨inner, hbelow, rfl⟩ := walk_single hl
    refine ⟨hafter, _, .cons hbelow hrest, ?_⟩
    rw [horder, ← List.singleton_append, ← List.append_assoc, extend_append _ (inner ++ [node]), extend_of_subset hsub]
  | stop _ _ _ _ => cases hdone
  | @step chain visited inside node nodes outcome hchain hfresh _ _ ihInner ihRest =>
    obtain ⟨hinside, inner, hbelow, hinner⟩ := ihInner (hgood.enter hfresh) rfl
    have hsub : ∀ x ∈ inner, x ∈ inside.order := fun x hx => by
      rw [hinner]
      exact mem_extend.mpr (.inr hx)
    obtain ⟨hafter, rest, hrest, horder⟩ := ihRest (hinside.leave hchain hbelow hsub) hdone
    refine ⟨hafter, _, .cons hbelow hrest, ?_⟩
    have hnode : node ∉ inside.order := hinside.apart node (List.mem_append_right _ (List.mem_singleton_self _))
    have hentered : (visited.enter node).order = visited.order := rfl
    rw [hentered] at hinner
    rw [horder, ← List.singleton_append, ← List.append_assoc, extend_append _ (inner ++ [node]), extend_append, ← hinner,
      extend_new hnode]
    rfl

omit [DecidableEq κ] in
/-- A search that stopped early did so at a cycle. -/
theorem Visits.cycle_spec (h : Visits next chain visited nodes outcome)
    (hbelow : ∀ c ∈ chain, ∀ node ∈ nodes, TransGen (Edge next) c node) {closing : κ} {order : List κ}
    (hcycle : outcome = .cycle closing order) :
    TransGen (Edge next) closing closing ∧ ∃ node ∈ nodes, ReflTransGen (Edge next) node closing := by
  induction h generalizing closing order with
  | nil => cases hcycle
  | @cycle chain visited node nodes hchain =>
    cases hcycle
    exact ⟨hbelow node hchain node List.mem_cons_self, node, List.mem_cons_self, .refl⟩
  | @skip chain visited node nodes outcome _ _ _ ih =>
    obtain ⟨hloop, other, hother, hreach⟩ := ih (fun c hc n hn => hbelow c hc n (List.mem_cons_of_mem _ hn)) hcycle
    exact ⟨hloop, other, List.mem_cons_of_mem _ hother, hreach⟩
  | @stop chain visited node closing' nodes order' _ _ _ ih =>
    cases hcycle
    have hdeeper : ∀ c ∈ chain ++ [node], ∀ target ∈ next node, TransGen (Edge next) c target := by
      intro c hc target htarget
      rcases List.mem_append.mp hc with hc | hc
      · exact (hbelow c hc node List.mem_cons_self).tail htarget
      · rw [List.mem_singleton.mp hc]
        exact .single htarget
    obtain ⟨hloop, other, hother, hreach⟩ := ih hdeeper rfl
    exact ⟨hloop, node, List.mem_cons_self, .head hother hreach⟩
  | @step chain visited inside node nodes outcome _ _ _ _ _ ihRest =>
    obtain ⟨hloop, other, hother, hreach⟩ := ihRest (fun c hc n hn => hbelow c hc n (List.mem_cons_of_mem _ hn)) hcycle
    exact ⟨hloop, other, List.mem_cons_of_mem _ hother, hreach⟩

/-! ## From a root -/

omit [DecidableEq κ] in
theorem good_root : Good next [root] ⟨[root], []⟩ :=
  ⟨fun x => by simp, fun _ _ => List.not_mem_nil, fun _ h => absurd h List.not_mem_nil⟩

/-- The root is left last. -/
theorem search_done {after : Visited κ} (h : Search next root (.done after)) :
    ∃ l, Walk next [root] l ∧ after.order = firsts l := by
  obtain ⟨inner, hinner, hclose⟩ := h
  cases inner with
  | cycle closing order => cases hclose
  | done inside =>
    cases hclose
    obtain ⟨hgood, l, hl, horder⟩ := hinner.done_spec good_root rfl
    refine ⟨l ++ [root], .cons hl .nil, ?_⟩
    have hroot : root ∉ inside.order := hgood.apart root (List.mem_singleton_self _)
    rw [firsts, extend_append, ← horder, extend_new hroot]

/-- What a search left, it left once. -/
theorem Visits.order_nodup (h : Visits next chain visited nodes outcome) (hgood : Good next chain visited)
    (hnodup : visited.order.Nodup) : outcome.order.Nodup := by
  induction h with
  | nil => exact hnodup
  | cycle _ => exact hnodup
  | skip _ _ _ ih => exact ih hgood hnodup
  | stop _ hfresh _ ih => exact ih (hgood.enter hfresh) hnodup
  | @step chain visited inside node nodes outcome hchain hfresh hinner _ ihInner ihRest =>
    obtain ⟨hinside, inner, hbelow, horder⟩ := hinner.done_spec (hgood.enter hfresh) rfl
    have hsub : ∀ x ∈ inner, x ∈ inside.order := fun x hx => by
      rw [horder]
      exact mem_extend.mpr (.inr hx)
    have hnode : node ∉ inside.order := hinside.apart node (List.mem_append_right _ (List.mem_singleton_self _))
    refine ihRest (hinside.leave hchain hbelow hsub) ?_
    exact List.nodup_append.mpr ⟨ihInner (hgood.enter hfresh) hnodup, List.nodup_singleton _, fun a ha b hb heq =>
      hnode (List.mem_singleton.mp hb ▸ heq ▸ ha)⟩

omit [DecidableEq κ] in
theorem Visits.order_subset (h : Visits next chain visited nodes outcome) {all : κ → Prop}
    (hclosed : ∀ node, all node → ∀ target ∈ next node, all target) (hnodes : ∀ node ∈ nodes, all node)
    (horder : ∀ node ∈ visited.order, all node) : ∀ node ∈ outcome.order, all node := by
  induction h with
  | nil => exact horder
  | cycle _ => exact horder
  | skip _ _ _ ih => exact ih (fun n hn => hnodes n (List.mem_cons_of_mem _ hn)) horder
  | stop _ _ _ ih => exact ih (hclosed _ (hnodes _ List.mem_cons_self)) horder
  | @step chain visited inside node nodes outcome _ _ _ _ ihInner ihRest =>
    have hnode := hnodes node List.mem_cons_self
    refine ihRest (fun n hn => hnodes n (List.mem_cons_of_mem _ hn)) fun x hx => ?_
    rcases List.mem_append.mp hx with hx | hx
    · exact ihInner (hclosed node hnode) horder x hx
    · exact List.mem_singleton.mp hx ▸ hnode

theorem search_order_nodup (h : Search next root outcome) : outcome.order.Nodup := by
  obtain ⟨inner, hinner, rfl⟩ := h
  have hnodup := hinner.order_nodup good_root List.nodup_nil
  cases inner with
  | cycle closing order => exact hnodup
  | done inside =>
    obtain ⟨hgood, -⟩ := hinner.done_spec good_root rfl
    exact List.nodup_append.mpr ⟨hnodup, List.nodup_singleton _, fun a ha b hb heq =>
      hgood.apart root (List.mem_singleton_self _) (List.mem_singleton.mp hb ▸ heq ▸ ha)⟩

omit [DecidableEq κ] in
theorem search_order_subset (h : Search next root outcome) {all : κ → Prop}
    (hclosed : ∀ node, all node → ∀ target ∈ next node, all target) (hroot : all root) : ∀ node ∈ outcome.order, all node := by
  obtain ⟨inner, hinner, rfl⟩ := h
  have hsub := hinner.order_subset hclosed (hclosed root hroot) fun _ h => absurd h List.not_mem_nil
  cases inner with
  | cycle closing order => exact hsub
  | done inside =>
    intro node hnode
    rcases List.mem_append.mp hnode with hnode | hnode
    · exact hsub node hnode
    · exact List.mem_singleton.mp hnode ▸ hroot

omit [DecidableEq κ] in
theorem search_last {after : Visited κ} (h : Search next root (.done after)) : after.order.getLast? = some root := by
  obtain ⟨inner, -, hclose⟩ := h
  cases inner with
  | cycle closing order => cases hclose
  | done inside =>
    cases hclose
    exact List.getLast?_concat

theorem search_cycle_iff (h : Search next root outcome) :
    (∃ closing order, outcome = .cycle closing order) ↔ CycleReachable next root := by
  constructor
  · rintro ⟨closing, order, rfl⟩
    obtain ⟨inner, hinner, hclose⟩ := h
    cases inner with
    | cycle closing' order' =>
      cases hclose
      have hbelow : ∀ c ∈ [root], ∀ node ∈ next root, TransGen (Edge next) c node := by
        intro c hc node hnode
        rw [List.mem_singleton.mp hc]
        exact .single hnode
      obtain ⟨hloop, node, hnode, hreach⟩ := hinner.cycle_spec hbelow rfl
      exact ⟨closing, .head hnode hreach, hloop⟩
    | done inside => cases hclose
  · intro hcycle
    cases outcome with
    | cycle closing order => exact ⟨closing, order, rfl⟩
    | done after =>
      obtain ⟨l, hl, -⟩ := search_done h
      exact absurd hcycle hl.acyclic

end PuppetMaster.Lib.DepthFirst
