/-
  PuppetMaster.Configuration.SupervisorProofs — what holds at every point of `Run`.

  `waits` are the waits of the restarts since the last stable run, read off a node's history;
  `backoff` is the wait the k-th of them should have.

  - `NodeOk`: child and phase, the restart count, the delays. `ended_ok` is the restart
    policy's own lemma; the rest of `Run` only moves nodes between phases.
  - `Good`: the nodes are so, and every process started is held by a node or was reaped.
  - `StopsInOrder`: where `StopAll` stands says which nodes it has asked.
  - `supervisor_invariant`: all of it, in every run.
-/

import Mathlib.Algebra.Order.Group.Unbundled.Int
import Mathlib.Algebra.Order.Ring.Int
import PuppetMaster.Configuration.Supervisor
import PuppetMaster.Lib.Lists
import PuppetMaster.Lib.Run

namespace PuppetMaster.Configuration.Supervisor

open PuppetMaster.Core PuppetMaster.Lib

/-! ## The restart policy -/

/-- The waits since the last stable run, the first one first. -/
def waits (stableRun : Int) : List Ending → List Int
  | [] => []
  | ending :: older =>
    (if stableRun ≤ ending.endedAt - ending.startedAt then [] else waits stableRun older) ++ ending.wait.toList

def backoff (options : SupervisorOptions) (spec : NodeManifest) (k : Nat) : Int :=
  min (spec.restartDelay * 2 ^ k) (max options.maxRestartDelay spec.restartDelay)

variable {options : SupervisorOptions} {spec : NodeManifest}

theorem backoff_zero : backoff options spec 0 = spec.restartDelay := by
  unfold backoff
  omega

/-- Doubling the capped delay is capping the doubled one: a delay over the cap is positive, and so is the cap. -/
theorem backoff_succ (k : Nat) :
    min (backoff options spec k * 2) (max options.maxRestartDelay spec.restartDelay) = backoff options spec (k + 1) := by
  unfold backoff
  rw [pow_succ, ← mul_assoc]
  have hgrows : spec.restartDelay ≤ 0 → spec.restartDelay * 2 ^ k ≤ spec.restartDelay := by
    intro hneg
    have hone : (1 : Int) ≤ 2 ^ k := one_le_pow₀ (by decide)
    calc spec.restartDelay * 2 ^ k ≤ spec.restartDelay * 1 := Int.mul_le_mul_of_nonpos_left hneg hone
      _ = spec.restartDelay := mul_one _
  generalize spec.restartDelay * 2 ^ k = x at hgrows
  omega

/-- A node's restart count and delay, against the waits `ws` since the last stable run. -/
structure Counted (options : SupervisorOptions) (spec : NodeManifest) (restarts : UInt32) (delay : Int)
    (ws : List Int) : Prop where
  restarts : restarts.toNat = ws.length % 2 ^ 32
  delay : delay = backoff options spec ws.length
  waited : ∀ k wait, ws[k]? = some wait → wait = backoff options spec k
  budget : spec.maxRestarts ≠ 0 → ws.length ≤ spec.maxRestarts.toNat

theorem Counted.fresh : Counted options spec 0 spec.restartDelay [] :=
  ⟨rfl, backoff_zero.symm, fun k wait h => by simp at h, fun _ => Nat.zero_le _⟩

/-- One more restart, when the policy allows it. -/
theorem Counted.restart {restarts : UInt32} {delay : Int} {ws : List Int} (h : Counted options spec restarts delay ws)
    (hallowed : spec.maxRestarts = 0 ∨ restarts < spec.maxRestarts) :
    Counted options spec (restarts + 1) (min (delay * 2) (max options.maxRestartDelay spec.restartDelay))
      (ws ++ [delay]) := by
  refine ⟨?_, ?_, fun k wait hk => ?_, fun hne => ?_⟩
  · have hcount := h.restarts
    rw [List.length_append, List.length_singleton, UInt32.toNat_add, hcount]
    exact Nat.mod_add_mod ..
  · rw [h.delay, List.length_append, List.length_singleton]
    exact backoff_succ _
  · rcases Nat.lt_trichotomy k ws.length with hlt | rfl | hgt
    · rw [List.getElem?_append_left hlt] at hk
      exact h.waited k wait hk
    · rw [List.getElem?_concat_length] at hk
      rw [← Option.some.inj hk]
      exact h.delay
    · rw [List.getElem?_eq_none (by simp; omega)] at hk
      cases hk
  · have hlt : restarts.toNat < spec.maxRestarts.toNat :=
      UInt32.lt_iff_toNat_lt.mp (hallowed.resolve_left hne)
    -- The count has not wrapped: it is at most the budget, a 32-bit number.
    have hsmall : ws.length < 2 ^ 32 := Nat.lt_of_le_of_lt (h.budget hne) spec.maxRestarts.toNat_lt
    rw [h.restarts, Nat.mod_eq_of_lt hsmall] at hlt
    rw [List.length_append, List.length_singleton]
    omega

/-- `startedAt` is no earlier than the last ending and its wait. -/
def WaitedOut (history : List Ending) (startedAt : Int) : Prop :=
  ∀ last ∈ history.head?, ∀ wait ∈ last.wait, last.endedAt + wait ≤ startedAt

structure NodeOk (options : SupervisorOptions) (node : Node) : Prop where
  child : node.child.isSome = true ↔ node.phase = .running
  counted : Counted options node.manifest node.restarts node.delay (waits options.stableRun node.history)
  chain : List.IsChain (fun newer older => ∀ wait ∈ older.wait, older.endedAt + wait ≤ newer.startedAt) node.history
  pending : node.phase = .pending → node.history = []
  running : node.phase = .running → WaitedOut node.history node.startedAt
  backoff : node.phase = .backoff → ∃ last ∈ node.history.head?, ∃ wait ∈ last.wait, node.restartAt = last.endedAt + wait

theorem fresh_ok (spec : NodeManifest) : NodeOk options (.fresh spec) where
  child := by simp [Node.fresh]
  counted := .fresh
  chain := .nil
  pending _ := rfl
  running h := by cases h
  backoff h := by cases h

variable {node : Node} {startedAt now : Int} {success : Bool}

/-- `Ended` up to the policy: a stable run starts the count anew. -/
theorem rested_counted (h : NodeOk options node) (startedAt now : Int) :
    Counted options node.manifest (node.rested options startedAt now).restarts (node.rested options startedAt now).delay
      (if options.stableRun ≤ now - startedAt then [] else waits options.stableRun node.history) := by
  unfold Node.rested
  dsimp only
  split
  · exact .fresh
  · exact h.counted

theorem rested_manifest : (node.rested options startedAt now).manifest = node.manifest := by
  unfold Node.rested
  dsimp only
  split <;> rfl

theorem rested_history : (node.rested options startedAt now).history = node.history := by
  unfold Node.rested
  dsimp only
  split <;> rfl

theorem rested_child : (node.rested options startedAt now).child = none := by
  unfold Node.rested
  dsimp only
  split <;> rfl

theorem chain_cons {history : List Ending} {wait : Option Int}
    (h : List.IsChain (fun newer older => ∀ wait ∈ older.wait, older.endedAt + wait ≤ newer.startedAt) history)
    (hwaited : WaitedOut history startedAt) :
    List.IsChain (fun newer older => ∀ wait ∈ older.wait, older.endedAt + wait ≤ newer.startedAt)
      (⟨startedAt, now, wait⟩ :: history) := by
  cases history with
  | nil => exact .singleton _
  | cons last older => exact .cons_cons (hwaited last rfl) h

theorem restartsAfter_allowed (h : node.restartsAfter options success startedAt now = true) :
    node.manifest.maxRestarts = 0 ∨ (node.rested options startedAt now).restarts < node.manifest.maxRestarts := by
  simp only [Node.restartsAfter, Node.allowed, rested_manifest, Bool.and_eq_true, Bool.or_eq_true,
    decide_eq_true_eq] at h
  exact h.2

/-- The restart policy. -/
theorem ended_ok (h : NodeOk options node) (hwaited : WaitedOut node.history startedAt) :
    NodeOk options (node.ended options success startedAt now) := by
  have hcounted := rested_counted h startedAt now
  have hchain : ∀ wait, List.IsChain _ (⟨startedAt, now, wait⟩ :: node.history) := fun wait => chain_cons h.chain hwaited
  unfold Node.ended
  split
  · rename_i hrestarts
    unfold Node.backsOff
    refine ⟨?_, ?_, ?_, nofun, nofun, fun _ => ⟨_, rfl, _, rfl, rfl⟩⟩
    · simp [rested_child]
    · simp only [rested_manifest, rested_history]
      exact hcounted.restart (restartsAfter_allowed hrestarts)
    · simp only [rested_history]
      exact hchain _
  · unfold Node.finishes
    refine ⟨?_, ?_, ?_, nofun, nofun, nofun⟩
    · simp [rested_child]
    · simp only [rested_manifest, rested_history, waits, Option.toList_none, List.append_nil]
      exact hcounted
    · simp only [rested_history]
      exact hchain _

theorem ended_child : (node.ended options success startedAt now).child = none := by
  unfold Node.ended Node.backsOff Node.finishes
  split <;> exact rested_child

theorem ended_phase :
    (node.ended options success startedAt now).phase
      = if node.restartsAfter options success startedAt now then .backoff else .done := by
  unfold Node.ended
  split <;> rfl

theorem launched_ok {child : Child} (h : NodeOk options node) (hwaited : WaitedOut node.history now) :
    NodeOk options { node with child := some child, phase := .running, startedAt := now } :=
  ⟨by simp, h.counted, h.chain, nofun, fun _ => hwaited, nofun⟩

theorem polled_ok {child : Child} (h : NodeOk options node) (hphase : node.phase = .running) :
    NodeOk options { node with child := some child } :=
  ⟨by simp [hphase], h.counted, h.chain, h.pending, h.running, h.backoff⟩

theorem stopped_ok (h : NodeOk options node) : NodeOk options { node with child := none, phase := .done } :=
  ⟨by simp, h.counted, h.chain, nofun, nofun, nofun⟩

theorem NodeOk.child_none (h : NodeOk options node) (hphase : node.phase ≠ .running) : node.child = none := by
  by_contra hne
  exact hphase (h.child.mp (Option.isSome_iff_ne_none.mpr hne))

theorem NodeOk.notRunning_done (h : NodeOk options node) (hphase : node.phase ≠ .running) :
    NodeOk options { node with phase := .done } :=
  ⟨by simp [h.child_none hphase], h.counted, h.chain, nofun, nofun, nofun⟩

/-- A node that is not running is ready to be started when its wait is over. -/
theorem NodeOk.waitedOut (h : NodeOk options node)
    (hphase : node.phase = .pending ∨ node.phase = .backoff ∧ node.restartAt ≤ now) :
    WaitedOut node.history now := by
  rcases hphase with hpending | ⟨hbackoff, hle⟩
  · intro last hlast
    rw [h.pending hpending] at hlast
    cases hlast
  · obtain ⟨last, hlast, wait, hwait, hat⟩ := h.backoff hbackoff
    intro last' hlast' wait' hwait'
    cases Option.some.inj ((Option.mem_def.mp hlast).symm.trans (Option.mem_def.mp hlast'))
    cases Option.some.inj ((Option.mem_def.mp hwait).symm.trans (Option.mem_def.mp hwait'))
    rw [← hat]
    exact hle

/-! ## Processes -/

/-- The process of a node that has not been waited for. -/
def holds (node : Node) : Option Nat := node.child.bind fun child => if child.exit.isNone then some child.process else none

theorem destroy_eq (node : Node) : Child.destroy node.child = (holds node).toList := by
  unfold Child.destroy holds
  cases node.child with
  | none => rfl
  | some child =>
    simp only [Option.bind_some]
    split <;> rfl

structure Good (options : SupervisorOptions) (s : State) : Prop where
  nodes : ∀ node ∈ s.nodes, NodeOk options node
  reaped : (s.nodes.filterMap holds ++ s.reaped).Perm (List.range s.started)

variable {s t : State} {index : Nat}

theorem Good.of_mem (h : Good options s) (hi : s.nodes[index]? = some node) : NodeOk options node :=
  h.nodes node (List.mem_of_getElem? hi)

/-- A node is replaced, and what it held and holds no more is reaped. -/
theorem Good.set {new : Node} {more : List Nat} (h : Good options s) (hi : s.nodes[index]? = some node)
    (hnew : NodeOk options new) (hholds : (holds node).toList = (holds new).toList ++ more)
    (hnodes : t.nodes = s.nodes.set index new) (hreaped : t.reaped = s.reaped ++ more) (hstarted : t.started = s.started) :
    Good options t := by
  refine ⟨fun other ho => ?_, ?_⟩
  · rw [hnodes] at ho
    rcases List.mem_or_eq_of_mem_set ho with ho | rfl
    · exact h.nodes other ho
    · exact hnew
  · have hperm := filterMap_set_perm (f := holds) new hi
    rw [hholds, List.append_assoc, List.perm_append_left_iff] at hperm
    rw [hnodes, hreaped, hstarted]
    have hsame : ((s.nodes.set index new).filterMap holds ++ (s.reaped ++ more)).Perm
        ((more ++ (s.nodes.set index new).filterMap holds) ++ s.reaped) := by
      rw [← List.append_assoc, List.append_assoc more]
      exact List.perm_append_comm
    exact hsame.trans ((hperm.append_right s.reaped).trans h.reaped)

/-- What `Ended` changes beside the events. -/
structure EndedAs (options : SupervisorOptions) (s : State) (index : Nat) (node : Node) (success : Bool)
    (startedAt now : Int) (t : State) : Prop where
  nodes : t.nodes = s.nodes.set index (node.ended options success startedAt now)
  reaped : t.reaped = s.reaped ++ (holds node).toList
  started : t.started = s.started
  asked : t.asked = s.asked
  snapshot : t.snapshot = s.snapshot
  stopRequested : t.stopRequested = s.stopRequested
  ending : t.ending =
    if !node.restartsAfter options success startedAt now && node.manifest.required && s.ending.isNone then
      some (State.requiredReason node.manifest success) else s.ending

theorem ended_as (options : SupervisorOptions) (s : State) (index : Nat) (node : Node) (success : Bool) (startedAt now : Int) :
    EndedAs options s index node success startedAt now (s.ended options index node success startedAt now) := by
  have hdestroy := destroy_eq node
  unfold State.ended
  dsimp only
  split
  · rename_i hrestarts
    exact ⟨rfl, by rw [← hdestroy]; rfl, rfl, rfl, rfl, rfl, by simp [hrestarts, State.emit]⟩
  · rename_i hrestarts
    split <;> split <;> rename_i hrequired <;>
      exact ⟨rfl, by simp [State.emit, hdestroy], rfl, rfl, rfl, rfl, by simp_all [State.emit]⟩

theorem Good.ended (h : Good options s) (hi : s.nodes[index]? = some node) (hwaited : WaitedOut node.history startedAt) :
    Good options (s.ended options index node success startedAt now) := by
  have has := ended_as options s index node success startedAt now
  refine h.set hi (ended_ok (h.of_mem hi) hwaited) ?_ has.nodes has.reaped has.started
  have hnone : holds (node.ended options success startedAt now) = none := by rw [holds, ended_child]; rfl
  rw [hnone]
  rfl

theorem Good.start {launched : Result Int} (h : Good options s) (hi : s.nodes[index]? = some node)
    (hphase : node.phase ≠ .running) (hwaited : WaitedOut node.history now) :
    Good options (s.start options index node now launched) := by
  cases launched with
  | error status =>
    have hemit : Good options (s.emit .startFailed node status.message) := ⟨h.nodes, h.reaped⟩
    exact hemit.ended hi hwaited
  | ok id =>
    have hok := h.of_mem hi
    have hold : holds node = none := by rw [holds, hok.child_none hphase]; rfl
    refine ⟨fun other ho => ?_, ?_⟩
    · rcases List.mem_or_eq_of_mem_set ho with ho | rfl
      · exact h.nodes other ho
      · exact launched_ok hok hwaited
    · have hperm := filterMap_set_perm (f := holds)
        { node with child := some ⟨s.started, id, none⟩, phase := .running, startedAt := now } hi
      rw [hold] at hperm
      have hnew : List.range (s.started + 1) = List.range s.started ++ [s.started] := List.range_succ
      refine ((hperm.append_right s.reaped).trans ?_).trans (List.Perm.of_eq hnew.symm)
      refine List.Perm.trans ?_ (h.reaped.append_right [s.started])
      change ([s.started] ++ s.nodes.filterMap holds ++ s.reaped).Perm _
      rw [List.append_assoc]
      exact List.perm_append_comm

theorem Good.poll {child : Child} (polled : Option ProcessExit) (h : Good options s) (hi : s.nodes[index]? = some node)
    (hphase : node.phase = .running) (hchild : node.child = some child) :
    Good options { s with
      nodes := s.nodes.set index { node with child := some (child.poll polled).1 }
      reaped := s.reaped ++ (child.poll polled).2 } := by
  refine h.set hi (polled_ok (h.of_mem hi) hphase) ?_ rfl rfl rfl
  unfold holds Child.poll
  rw [hchild]
  cases hexit : child.exit with
  | none => cases polled <;> simp [hexit]
  | some exit => simp [hexit]

theorem set_getElem? {nodes : List Node} {new : Node} (hi : nodes[index]? = some node) :
    (nodes.set index new)[index]? = some new := by
  obtain ⟨hlt, -⟩ := List.getElem?_eq_some_iff.mp hi
  exact List.getElem?_set_self hlt

theorem Good.visit {answer : Answer} (h : Good options s) (hi : s.nodes[index]? = some node)
    (hs : s.visit options index node answer = some t) : Good options t := by
  have hok := h.of_mem hi
  unfold State.visit at hs
  split at hs
  · rename_i hphase
    split at hs
    · cases hs
    · rename_i child hchild
      have hpoll := h.poll answer.polled hi hphase hchild
      dsimp only at hs
      split at hs
      · cases hs
        exact hpoll
      · cases hs
        exact Good.ended ⟨hpoll.nodes, hpoll.reaped⟩ (set_getElem? hi) (hok.running hphase)
  · rename_i hphase
    split at hs
    · rename_i hle
      cases hs
      exact h.start hi (by rw [hphase]; decide) (hok.waitedOut (.inr ⟨hphase, hle⟩))
    · cases hs
      exact h
  · cases hs
    exact h
  · cases hs
    exact h

/-! ## One node at a time -/

/-- A step that is about the node at `index`. -/
structure OnlyAt (s : State) (index : Nat) (t : State) : Prop where
  length : t.nodes.length = s.nodes.length
  other : ∀ j, j ≠ index → t.nodes[j]? = s.nodes[j]?
  asked : t.asked = s.asked
  snapshot : t.snapshot = s.snapshot

theorem OnlyAt.refl (s : State) (index : Nat) : OnlyAt s index s := ⟨rfl, fun _ _ => rfl, rfl, rfl⟩

theorem OnlyAt.trans {u : State} (h : OnlyAt s index t) (h' : OnlyAt t index u) : OnlyAt s index u :=
  ⟨h'.length.trans h.length, fun j hj => (h'.other j hj).trans (h.other j hj), h'.asked.trans h.asked,
    h'.snapshot.trans h.snapshot⟩

theorem onlyAt_set {new : Node} (hnodes : t.nodes = s.nodes.set index new) (hasked : t.asked = s.asked)
    (hsnapshot : t.snapshot = s.snapshot) : OnlyAt s index t :=
  ⟨by rw [hnodes, List.length_set], fun j hj => by rw [hnodes, List.getElem?_set_ne hj.symm], hasked, hsnapshot⟩

theorem onlyAt_ended : OnlyAt s index (s.ended options index node success startedAt now) := by
  have has := ended_as options s index node success startedAt now
  exact onlyAt_set has.nodes has.asked has.snapshot

theorem onlyAt_start {launched : Result Int} : OnlyAt s index (s.start options index node now launched) := by
  cases launched with
  | error status =>
    have hemit : OnlyAt s index (s.emit .startFailed node status.message) := ⟨rfl, fun _ _ => rfl, rfl, rfl⟩
    exact hemit.trans onlyAt_ended
  | ok id => exact onlyAt_set rfl rfl rfl

theorem onlyAt_visit {answer : Answer} (hs : s.visit options index node answer = some t) :
    OnlyAt s index t ∧ (node.phase = .pending → t = s) := by
  unfold State.visit at hs
  split at hs
  · rename_i hphase
    refine ⟨?_, fun hpending => by rw [hphase] at hpending; cases hpending⟩
    split at hs
    · cases hs
    · dsimp only at hs
      split at hs
      · cases hs
        exact onlyAt_set rfl rfl rfl
      · cases hs
        refine OnlyAt.trans ?_ onlyAt_ended
        exact onlyAt_set rfl rfl rfl
  · rename_i hphase
    refine ⟨?_, fun hpending => by rw [hphase] at hpending; cases hpending⟩
    split at hs
    · cases hs
      exact onlyAt_start
    · cases hs
      exact .refl s index
  · cases hs
    exact ⟨.refl s index, fun _ => rfl⟩
  · cases hs
    exact ⟨.refl s index, fun _ => rfl⟩

/-! ## The order of stopping -/

/-- The running nodes among the first `n`. -/
def runningBelow (nodes : List Node) (n : Nat) : List Nat :=
  (List.range n).filter fun i => nodes[i]?.any fun node => decide (node.phase = .running)

theorem runningBelow_congr {nodes nodes' : List Node} {n : Nat} (h : ∀ j < n, nodes'[j]? = nodes[j]?) :
    runningBelow nodes' n = runningBelow nodes n := by
  refine List.filter_congr fun j hj => ?_
  rw [h j (List.mem_range.mp hj)]

theorem runningBelow_succ {nodes : List Node} (hi : nodes[index]? = some node) :
    runningBelow nodes (index + 1) = runningBelow nodes index ++ if node.phase = .running then [index] else [] := by
  unfold runningBelow
  rw [List.range_succ, List.filter_append]
  congr 1
  by_cases hphase : node.phase = .running
  · simp [hi, hphase]
  · simp [hi, hphase]

def DoneFrom (nodes : List Node) (left : Nat) : Prop :=
  ∀ j node, left ≤ j → nodes[j]? = some node → node.phase = .done

/-- `asked` so far, and the running nodes below `index` still to come. -/
def Asking (s : State) (index : Nat) : Prop :=
  ∃ nodes, s.snapshot = some nodes
    ∧ (runningBelow nodes nodes.length).reverse = s.asked ++ (runningBelow s.nodes index).reverse

def StopsInOrder (s : State) : Prop :=
  match s.pc with
  | .stopping _ left => left ≤ s.nodes.length ∧ DoneFrom s.nodes left ∧ Asking s left
  | .waiting _ left _ _ | .killing _ left =>
    ∃ index node, left = index + 1 ∧ s.nodes[index]? = some node ∧ node.phase = .running ∧ DoneFrom s.nodes left
      ∧ Asking s index
  | .returned _ =>
    (∀ node ∈ s.nodes, node.phase ≠ .running)
      ∧ ∀ nodes, s.snapshot = some nodes → s.asked = (runningBelow nodes nodes.length).reverse
  | _ => s.asked = [] ∧ s.snapshot = none

theorem Asking.congr {n : Nat} (h : Asking s n) (hnodes : ∀ j < n, t.nodes[j]? = s.nodes[j]?) (hasked : t.asked = s.asked)
    (hsnapshot : t.snapshot = s.snapshot) : Asking t n := by
  obtain ⟨nodes, hsnap, horder⟩ := h
  exact ⟨nodes, hsnapshot.trans hsnap, by rw [hasked, runningBelow_congr hnodes]; exact horder⟩

/-- The nodes that the loop over the manifest has not reached. -/
def next? : Pc → Option Nat
  | .creatingLogs => some 0
  | .starting index | .launching index => some index
  | .supervising next (some _) | .visiting next (some _) _ | .resting next (some _) => some next
  | _ => none

def Untouched (s : State) : Prop :=
  ∀ first, next? s.pc = some first → ∀ j node, first ≤ j → s.nodes[j]? = some node → node.phase = .pending

/-- Within `SuperviseUntil`: with a deadline, the nodes from `next` on have not been started. -/
def Rest (nodes : List Node) (next : Nat) (deadline : Option Int) : Prop :=
  ∀ d, deadline = some d → ∀ j node, next ≤ j → nodes[j]? = some node → node.phase = .pending

theorem untouched_iff {next : Nat} {deadline : Option Int} (hpc : next? s.pc = deadline.map fun _ => next) :
    Untouched s ↔ Rest s.nodes next deadline := by
  unfold Untouched Rest
  rw [hpc]
  cases deadline with
  | none => exact ⟨fun _ => nofun, fun _ => nofun⟩
  | some d => exact ⟨fun h _ _ => h next rfl, fun h first hfirst => by cases hfirst; exact h d rfl⟩

theorem next_supervising {next : Nat} {deadline : Option Int} :
    next? (.supervising next deadline) = deadline.map fun _ => next := by cases deadline <;> rfl

theorem next_visiting {next i : Nat} {deadline : Option Int} :
    next? (.visiting next deadline i) = deadline.map fun _ => next := by cases deadline <;> rfl

theorem next_resting {next : Nat} {deadline : Option Int} :
    next? (.resting next deadline) = deadline.map fun _ => next := by cases deadline <;> rfl

structure Supervised (options : SupervisorOptions) (s : State) : Prop where
  good : Good options s
  untouched : Untouched s
  stops : StopsInOrder s

variable {system : System} {answer : Answer}

theorem Good.goto (h : Good options s) (pc : Pc) : Good options (s.goto pc) := ⟨h.nodes, h.reaped⟩

theorem supervised_leave {next : Nat} {deadline : Option Int} (hgood : Good options s) (hrest : Rest s.nodes next deadline)
    (hstops : s.asked = [] ∧ s.snapshot = none) : Supervised options (s.leave next deadline) := by
  unfold State.leave
  cases deadline with
  | some d =>
    refine ⟨hgood.goto _, fun first hfirst => ?_, hstops⟩
    cases hfirst
    exact hrest d rfl
  | none =>
    refine ⟨⟨hgood.nodes, hgood.reaped⟩, nofun, Nat.le_refl _, fun j node hj hnode => ?_, s.nodes, rfl, ?_⟩
    · rw [List.getElem?_eq_none hj] at hnode
      cases hnode
    · rw [hstops.1]
      rfl

/-- `Supervise` leaves a node that has not been started alone. -/
theorem rest_visit {next : Nat} {deadline : Option Int} (hi : s.nodes[index]? = some node)
    (hs : s.visit options index node answer = some t) (hrest : Rest s.nodes next deadline) :
    Rest t.nodes next deadline := by
  obtain ⟨honly, hpending⟩ := onlyAt_visit hs
  intro d hd j other hj hother
  by_cases hji : j = index
  · subst hji
    rw [hpending (hrest d hd j node hj hi)] at hother
    exact hrest d hd j other hj hother
  · rw [honly.other j hji] at hother
    exact hrest d hd j other hj hother

theorem roundEnds_good (h : Good options s) : Good options s.roundEnds := by
  unfold State.roundEnds
  split
  · exact ⟨h.nodes, h.reaped⟩
  · exact h

theorem roundEnds_fields : s.roundEnds.nodes = s.nodes ∧ s.roundEnds.asked = s.asked ∧ s.roundEnds.snapshot = s.snapshot := by
  unfold State.roundEnds
  split <;> exact ⟨rfl, rfl, rfl⟩

theorem Good.stopped (h : Good options s) (hi : s.nodes[index]? = some node) (exit : Option ProcessExit) :
    Good options (s.stopped index node exit) := by
  refine h.set hi (stopped_ok (h.of_mem hi)) ?_ rfl rfl rfl
  rw [destroy_eq]
  rfl

/-- A node is done: the ones from it on are. -/
theorem DoneFrom.set {new : Node} (h : DoneFrom s.nodes (index + 1)) (hnew : new.phase = .done) :
    DoneFrom (s.nodes.set index new) index := by
  intro j node hj hnode
  by_cases hji : j = index
  · subst hji
    obtain ⟨hlt, -⟩ := List.getElem?_eq_some_iff.mp hnode
    rw [List.getElem?_set_self (by simpa using hlt)] at hnode
    cases hnode
    exact hnew
  · rw [List.getElem?_set_ne (Ne.symm hji)] at hnode
    exact h j node (by omega) hnode

theorem supervised_wait {result : SupervisorResult} {killed : Bool} {deadline : Int} (hgood : Good options s)
    (hi : s.nodes[index]? = some node) (hphase : node.phase = .running) (hdone : DoneFrom s.nodes (index + 1))
    (hasking : Asking s index) (hpc : s.pc = .waiting result (index + 1) killed deadline)
    (hs : s.waitForExit result index node killed deadline answer = some t) : Supervised options t := by
  unfold State.waitForExit at hs
  split at hs
  · cases hs
  · rename_i child hchild
    have hpoll := hgood.poll answer.polled hi hphase hchild
    have hdone' : ∀ new, DoneFrom (s.nodes.set index new) (index + 1) := by
      intro new j other hj hother
      rw [List.getElem?_set_ne (by omega)] at hother
      exact hdone j other hj hother
    have hbelow : ∀ new : Node, ∀ j < index, (s.nodes.set index new)[j]? = s.nodes[j]? :=
      fun new j hj => List.getElem?_set_ne (by omega)
    dsimp only at hs
    split at hs
    · split at hs
      · cases hs
        refine ⟨hpoll.goto _, nofun, index, _, rfl, set_getElem? hi, hphase, hdone' _, ?_⟩
        exact hasking.congr (hbelow _) rfl rfl
      · cases hs
        have hlt : index < s.nodes.length := (List.getElem?_eq_some_iff.mp hi).1
        refine ⟨(hpoll.stopped (set_getElem? hi) _).goto _, nofun, ?_, ?_, ?_⟩
        · simp only [State.goto, State.stopped, State.emit, List.length_set]
          exact Nat.le_of_lt hlt
        · exact DoneFrom.set (s := { s with nodes := _ }) (hdone' _) rfl
        · refine hasking.congr (fun j hj => ?_) rfl rfl
          simp only [State.goto, State.stopped, State.emit]
          rw [List.getElem?_set_ne (by omega), List.getElem?_set_ne (by omega)]
    · cases hs
      refine ⟨hpoll, fun first hfirst => ?_, ?_⟩
      · simp only [hpc, next?] at hfirst
        cases hfirst
      · simp only [StopsInOrder, hpc]
        exact ⟨index, _, rfl, set_getElem? hi, hphase, hdone' _, hasking.congr (hbelow _) rfl rfl⟩

theorem supervised_launch (hgood : Good options s) (hi : s.nodes[index]? = some node)
    (hpending : ∀ j node, index ≤ j → s.nodes[j]? = some node → node.phase = .pending)
    (hstops : s.asked = [] ∧ s.snapshot = none) (deadline : Int) (launched : Result Int) :
    Supervised options ((s.start options index node now launched).goto (.supervising (index + 1) (some deadline))) := by
  have hphase := hpending index node (Nat.le_refl _) hi
  have honly : OnlyAt s index (s.start options index node now launched) := onlyAt_start
  refine ⟨(hgood.start hi ?_ ((hgood.of_mem hi).waitedOut (.inl hphase))).goto _, ?_, honly.asked.trans hstops.1,
    honly.snapshot.trans hstops.2⟩
  · rw [hphase]
    decide
  · refine (untouched_iff next_supervising).mpr fun d _ j other hj hother => ?_
    have hsame := honly.other j (by omega)
    exact hpending j other (by omega) (hsame.symm.trans hother)

theorem supervised_stopping (result : SupervisorResult) (hgood : Good options s) (hi : s.nodes[index]? = some node)
    (hdone : DoneFrom s.nodes (index + 1)) (hasking : Asking s (index + 1)) (deadline : Int) :
    Supervised options (if node.phase = .running then
      { (s.emit .stopping node (State.pidText node)).goto (.waiting result (index + 1) false deadline) with
        asked := s.asked ++ [index] }
    else { s.goto (.stopping result index) with nodes := s.nodes.set index { node with phase := .done } }) := by
  obtain ⟨nodes, hsnap, horder⟩ := hasking
  rw [runningBelow_succ hi] at horder
  split
  · rename_i hphase
    rw [if_pos hphase, List.reverse_append, ← List.append_assoc] at horder
    exact ⟨⟨hgood.nodes, hgood.reaped⟩, nofun, index, node, rfl, hi, hphase, hdone, nodes, hsnap, horder⟩
  · rename_i hphase
    rw [if_neg hphase, List.append_nil] at horder
    have hset : Good options { s with nodes := s.nodes.set index { node with phase := .done } } :=
      hgood.set hi ((hgood.of_mem hi).notRunning_done hphase) (List.append_nil _).symm rfl (List.append_nil _).symm rfl
    have hbelow : runningBelow (s.nodes.set index { node with phase := .done }) index = runningBelow s.nodes index :=
      runningBelow_congr fun j hj => List.getElem?_set_ne (by omega)
    have hlt : index < s.nodes.length := (List.getElem?_eq_some_iff.mp hi).1
    refine ⟨⟨hset.nodes, hset.reaped⟩, nofun, ?_, DoneFrom.set hdone rfl, nodes, hsnap, ?_⟩
    · simp only [List.length_set]
      omega
    · exact horder.trans (by rw [← hbelow]; rfl)

/-! ## Every run -/

theorem supervised_run (h : Supervised system.options s) (hs : s.runStep system answer = some t) :
    Supervised system.options t := by
  obtain ⟨hgood, huntouched, hstops⟩ := h
  unfold State.runStep at hs
  unfold StopsInOrder at hstops
  cases hpc : s.pc with
  | creatingLogs =>
    simp only [hpc] at hs hstops
    have hpending := huntouched 0 (by rw [hpc]; rfl)
    have hstart : Supervised system.options (s.goto (.starting 0)) :=
      ⟨hgood.goto _, fun first hfirst => by cases hfirst; exact hpending, hstops⟩
    split at hs
    · cases hs
      exact hstart
    · split at hs
      · cases hs
        exact hstart
      · cases hs
        refine ⟨hgood.goto _, nofun, fun node hnode => ?_, fun nodes hnodes => ?_⟩
        · obtain ⟨j, hj⟩ := List.mem_iff_getElem?.mp hnode
          rw [hpending j node (Nat.zero_le _) hj]
          decide
        · have hnone : s.snapshot = none := hstops.2
          cases hnone.symm.trans hnodes
  | starting index =>
    simp only [hpc] at hs hstops
    have hpending := huntouched index (by rw [hpc]; rfl)
    split at hs
    · cases hs
      exact ⟨hgood.goto _, nofun, hstops⟩
    · cases hs
      exact ⟨hgood.goto _, fun first hfirst => by cases hfirst; exact hpending, hstops⟩
  | launching index =>
    simp only [hpc] at hs hstops
    split at hs
    · cases hs
    · rename_i node hi
      cases hs
      exact supervised_launch hgood hi (huntouched index (by rw [hpc]; rfl)) hstops _ _
  | supervising next deadline =>
    simp only [hpc] at hs hstops
    have hrest := (untouched_iff (by rw [hpc]; exact next_supervising)).mp huntouched
    split at hs
    · cases hs
      exact supervised_leave hgood hrest hstops
    · cases hs
      exact ⟨hgood.goto _, (untouched_iff next_visiting).mpr hrest, hstops⟩
  | visiting next deadline index =>
    simp only [hpc] at hs hstops
    have hrest := (untouched_iff (by rw [hpc]; exact next_visiting)).mp huntouched
    split at hs
    · cases hs
      obtain ⟨hnodes, hasked, hsnapshot⟩ := roundEnds_fields (s := s)
      refine ⟨(roundEnds_good hgood).goto _, (untouched_iff next_resting).mpr ?_, hasked.trans hstops.1,
        hsnapshot.trans hstops.2⟩
      rw [State.goto, hnodes]
      exact hrest
    · rename_i node hi
      obtain ⟨u, hu, rfl⟩ := Option.map_eq_some_iff.mp hs
      obtain ⟨honly, -⟩ := onlyAt_visit hu
      have hvisited := rest_visit hi hu hrest
      exact ⟨(hgood.visit hi hu).goto _, (untouched_iff next_visiting).mpr hvisited, honly.asked.trans hstops.1,
        honly.snapshot.trans hstops.2⟩
  | resting next deadline =>
    simp only [hpc] at hs hstops
    have hrest := (untouched_iff (by rw [hpc]; exact next_resting)).mp huntouched
    split at hs
    · cases hs
      exact supervised_leave hgood hrest hstops
    · cases hs
      exact ⟨hgood.goto _, (untouched_iff next_supervising).mpr hrest, hstops⟩
  | stopping result left =>
    simp only [hpc] at hs hstops
    obtain ⟨hle, hdone, hasking⟩ := hstops
    split at hs
    · cases hs
      obtain ⟨nodes, hsnap, horder⟩ := hasking
      refine ⟨hgood.goto _, nofun, fun node hnode => ?_, fun nodes' hnodes' => ?_⟩
      · obtain ⟨j, hj⟩ := List.mem_iff_getElem?.mp hnode
        rw [hdone j node (Nat.zero_le _) hj]
        decide
      · cases Option.some.inj (hsnap.symm.trans hnodes')
        rw [horder]
        exact (List.append_nil s.asked).symm
    · rename_i index
      split at hs
      · cases hs
      · rename_i node hi
        have hnext := supervised_stopping result hgood hi hdone hasking (answer.now + node.manifest.stopTimeout)
        split at hs <;> cases hs
        · rename_i hphase
          rwa [if_pos hphase] at hnext
        · rename_i hphase
          rwa [if_neg hphase] at hnext
  | waiting result left killed deadline =>
    simp only [hpc] at hs hstops
    obtain ⟨index, node, rfl, hi, hphase, hdone, hasking⟩ := hstops
    simp only [hi] at hs
    exact supervised_wait hgood hi hphase hdone hasking hpc hs
  | killing result left =>
    simp only [hpc] at hs hstops
    obtain ⟨index, node, rfl, hi, hphase, hdone, hasking⟩ := hstops
    simp only [hi, Option.some.injEq] at hs
    subst hs
    exact ⟨⟨hgood.nodes, hgood.reaped⟩, nofun, index, node, rfl, hi, hphase, hdone, hasking⟩
  | returned result =>
    simp only [hpc] at hs
    cases hs

theorem supervised_initial : Supervised system.options (initial system) := by
  refine ⟨⟨fun node hnode => ?_, ?_⟩, fun first _ j node _ hnode => ?_, rfl, rfl⟩
  · obtain ⟨spec, -, rfl⟩ := List.mem_map.mp hnode
    exact fresh_ok spec
  · have hnone : (initial system).nodes.filterMap holds = [] := by
      refine List.filterMap_eq_nil_iff.mpr fun node hnode => ?_
      obtain ⟨spec, -, rfl⟩ := List.mem_map.mp hnode
      rfl
    rw [hnone]
    exact List.Perm.nil
  · obtain ⟨spec, -, rfl⟩ := List.mem_map.mp (List.mem_of_getElem? hnode)
    rfl

theorem supervised_of_reach {ok : State → Move → Prop} (h : Reach (step system) ok (· = initial system) s) :
    Supervised system.options s := by
  refine h.invariant (fun _ hi => hi ▸ supervised_initial) fun s move t hsup _ hs => ?_
  cases move with
  | run answer => exact supervised_run hsup hs
  | requestStop =>
    cases hs
    exact ⟨⟨hsup.good.nodes, hsup.good.reaped⟩, hsup.untouched, hsup.stops⟩

/--
At every point of `Run`: a node has a child exactly when it runs; since its last stable run it
has been restarted no more often than its manifest allows; the k-th of these restarts waits
for the doubled, capped delay and is not made before its wait is over. When `Run` has returned,
each process was reaped once, and the nodes that ran were asked to stop from the last to the
first.
-/
theorem supervisor_invariant (h : Reach (step system) anyMove (· = initial system) s) :
    (∀ node ∈ s.nodes,
      (node.child.isSome = true ↔ node.phase = .running)
        ∧ (node.manifest.maxRestarts ≠ 0 →
          (waits system.options.stableRun node.history).length ≤ node.manifest.maxRestarts.toNat)
        ∧ (∀ k wait, (waits system.options.stableRun node.history)[k]? = some wait →
          wait = min (node.manifest.restartDelay * 2 ^ k)
            (max system.options.maxRestartDelay node.manifest.restartDelay))
        ∧ List.IsChain (fun newer older => ∀ wait ∈ older.wait, older.endedAt + wait ≤ newer.startedAt) node.history
        ∧ (node.phase = .running → WaitedOut node.history node.startedAt)
        ∧ (node.phase = .backoff → ∃ last ∈ node.history.head?, ∃ wait ∈ last.wait, node.restartAt = last.endedAt + wait))
      ∧ ∀ result, s.pc = .returned result →
        s.reaped.Perm (List.range s.started)
          ∧ ∀ nodes, s.snapshot = some nodes → s.asked = (runningBelow nodes nodes.length).reverse := by
  obtain ⟨hgood, -, hstops⟩ := supervised_of_reach h
  refine ⟨fun node hnode => ?_, fun result hpc => ?_⟩
  · have hok := hgood.nodes node hnode
    exact ⟨hok.child, hok.counted.budget, hok.counted.waited, hok.chain, hok.running, hok.backoff⟩
  · simp only [StopsInOrder, hpc] at hstops
    refine ⟨?_, hstops.2⟩
    have hnone : s.nodes.filterMap holds = [] := by
      refine List.filterMap_eq_nil_iff.mpr fun node hnode => ?_
      rw [holds, (hgood.nodes node hnode).child_none (hstops.1 node hnode)]
      rfl
    have hperm := hgood.reaped
    rwa [hnone, List.nil_append] at hperm

/-- A node that is restarted once, and a second one. -/
def twoNodes : System where
  nodes := [{ name := [97], restart := .onFailure, maxRestarts := 1, required := false }, { name := [98] }]

def exited (code : Int) : Option ProcessExit := some ⟨code, false⟩

/-- The first node fails and is restarted; a stop request; it does not end in time and is killed. -/
def restartedOnce : List Move :=
  [.run {}, .run {}, .run {}, .run {}, .run { now := 1, polled := exited 1 }, .run {}, .run {}, .run {},
    .run {}, .run {}, .run {}, .run { now := 501 }, .run {}, .run {}, .run {}, .run {}, .requestStop, .run {},
    .run {}, .run { polled := exited 0 }, .run {}, .run { now := 5000 }, .run {}, .run { now := 5000 }, .run {}]

theorem a_restarted_node_is_reaped_twice :
    ∃ s, Reach (step twoNodes) anyMove (· = initial twoNodes) s ∧ s.started = 3 ∧ s.reaped.Perm [0, 1, 2]
      ∧ s.asked = [1, 0] := by
  have hrun : ∃ s, Reach (step twoNodes) anyMove (· = initial twoNodes) s
      ∧ decide (s.pc = .returned State.stopReason ∧ s.started = 3
        ∧ s.snapshot.map (fun nodes => runningBelow nodes nodes.length) = some [0, 1]) = true :=
    reach_of_run restartedOnce _ rfl (by decide +kernel)
  obtain ⟨s, hreach, hs⟩ := hrun
  obtain ⟨hpc, hstarted, hsnapshot⟩ := of_decide_eq_true hs
  obtain ⟨nodes, hnodes, hrunning⟩ := Option.map_eq_some_iff.mp hsnapshot
  obtain ⟨hreaped, hasked⟩ := (supervisor_invariant hreach).2 _ hpc
  rw [hstarted] at hreaped
  exact ⟨s, hreach, hstarted, hreaped, by rw [hasked nodes hnodes, hrunning]; rfl⟩

end PuppetMaster.Configuration.Supervisor
