/-
  PuppetMaster.Configuration.SupervisorEnding — what `Run` starts once it has a reason to end.

  `Run` asks for the reason before it starts a node, and `SuperviseUntil` before a round. A
  round that finds the reason goes on over its remaining nodes, and starts those whose
  restart delay has run out.

  - `launches_step`: once there is a reason, a step launches exactly when it visits such a
    node (`restartsWhileEnding`).
  - `starts_nothing_once_ending_iff`: a run starts nothing once it is ending exactly when none
    of its steps does.
  - `a_round_restarts_while_ending`: the round goes on.
-/

import PuppetMaster.Configuration.SupervisorProofs

namespace PuppetMaster.Configuration.Supervisor

open PuppetMaster.Core PuppetMaster.Lib

/-- How often the launcher was asked to start a process: `Start` says so each time. -/
def State.launches (s : State) : Nat :=
  s.events.countP fun event => decide (event.kind = .started) || decide (event.kind = .startFailed)

/-- After every part of the run, once there is a reason to end, nothing is launched. -/
def StartsNothingOnceEnding (system : System) (s₀ : State) (moves : List Move) : Prop :=
  ∀ before after rest s t, moves = before ++ (after ++ rest) → run (step system) s₀ before = some s →
    s.ending.isSome = true → run (step system) s after = some t → t.launches = s.launches

/-- The step visits a node whose restart delay has run out, with a reason to end. -/
def restartsWhileEnding (s : State) : Move → Bool
  | .requestStop => false
  | .run answer =>
    match s.pc with
    | .visiting _ _ index =>
      s.ending.isSome && (s.nodes[index]?).any fun node =>
        decide (node.phase = .backoff) && decide (node.restartAt ≤ answer.now)
    | _ => false

/-! ## One step -/

variable {system : System} {options : SupervisorOptions} {s t : State} {index : Nat} {node : Node} {answer : Answer}

theorem launches_emit (s : State) (kind : EventKind) (node : Node) (detail : Bytes) :
    (s.emit kind node detail).launches =
      s.launches + if kind = .started ∨ kind = .startFailed then 1 else 0 := by
  unfold State.launches State.emit
  rw [List.countP_append, List.countP_singleton]
  simp only [Bool.or_eq_true, decide_eq_true_eq]

theorem launches_ended (s : State) (success : Bool) (startedAt now : Int) :
    (s.ended options index node success startedAt now).launches = s.launches := by
  unfold State.ended
  dsimp only
  split
  · exact launches_emit _ .restarting _ _
  · split
    · split
      · exact launches_emit _ .gaveUp _ _
      · exact launches_emit _ .gaveUp _ _
    · split <;> rfl

theorem launches_start (s : State) (now : Int) (launched : Result Int) :
    (s.start options index node now launched).launches = s.launches + 1 := by
  cases launched with
  | error status =>
    exact (launches_ended (s.emit .startFailed node status.message) false now now).trans
      (launches_emit s .startFailed node status.message)
  | ok id => exact launches_emit _ .started _ _

theorem launches_visit (hs : s.visit options index node answer = some t) :
    t.launches = s.launches + if node.phase = .backoff ∧ node.restartAt ≤ answer.now then 1 else 0 := by
  unfold State.visit at hs
  split at hs
  · rename_i hphase
    split at hs
    · cases hs
    · dsimp only at hs
      split at hs
      · cases hs
        simp [hphase, State.launches]
      · cases hs
        rw [launches_ended, launches_emit]
        simp [hphase, State.launches]
  · rename_i hphase
    split at hs
    · rename_i hdue
      cases hs
      simp [hphase, hdue, launches_start]
    · rename_i hdue
      cases hs
      simp [hdue]
  · rename_i hphase
    cases hs
    simp [hphase]
  · rename_i hphase
    cases hs
    simp [hphase]

theorem ending_ended (success : Bool) (startedAt now : Int) (h : s.ending.isSome = true) :
    (s.ended options index node success startedAt now).ending = s.ending := by
  rw [(ended_as options s index node success startedAt now).ending, if_neg]
  simp [Option.isNone_eq_false_iff.mpr h]

theorem ending_start (now : Int) (launched : Result Int) (h : s.ending.isSome = true) :
    (s.start options index node now launched).ending = s.ending := by
  cases launched with
  | error status => exact ending_ended (s := s.emit .startFailed node status.message) false now now h
  | ok id => rfl

theorem ending_visit (hs : s.visit options index node answer = some t) (h : s.ending.isSome = true) :
    t.ending = s.ending := by
  unfold State.visit at hs
  split at hs
  · split at hs
    · cases hs
    · dsimp only at hs
      split at hs
      · cases hs
        rfl
      · cases hs
        exact ending_ended _ _ _ h
  · split at hs
    · cases hs
      exact ending_start _ _ h
    · cases hs
      rfl
  · cases hs
    rfl
  · cases hs
    rfl

/-- `Run` does not start a node once there is a reason to end. -/
def ChecksFirst (s : State) : Prop := ∀ index, s.pc = .launching index → s.ending = none

/-- What a step keeps of a reason to end, and launches in spite of it. -/
structure StepsOn (s t : State) (launches : Bool) : Prop where
  checksFirst : ChecksFirst t
  ending : s.ending.isSome = true → t.ending = s.ending
  launches : s.ending.isSome = true → t.launches = s.launches + if launches then 1 else 0

theorem StepsOn.goto {pc : Pc} (hpc : ∀ index, pc ≠ .launching index) (hending : s.ending.isSome = true → t.ending = s.ending)
    (hlaunches : s.ending.isSome = true → t.launches = s.launches) : StepsOn s (t.goto pc) false := by
  refine ⟨fun index h => absurd h (hpc index), hending, fun h => ?_⟩
  exact hlaunches h

theorem stepsOn_leave (next : Nat) (deadline : Option Int) : StepsOn s (s.leave next deadline) false := by
  cases deadline with
  | none => exact ⟨fun index h => Pc.noConfusion h, fun _ => rfl, fun _ => rfl⟩
  | some d => exact .goto (fun _ => Pc.noConfusion) (fun _ => rfl) fun _ => rfl

theorem stepsOn_waitForExit {result : SupervisorResult} {killed : Bool} {deadline : Int}
    (hpc : ∀ i, s.pc ≠ .launching i) (hs : s.waitForExit result index node killed deadline answer = some t) :
    StepsOn s t false := by
  unfold State.waitForExit at hs
  split at hs
  · cases hs
  · dsimp only at hs
    split at hs
    · split at hs
      · cases hs
        exact .goto (fun _ => Pc.noConfusion) (fun _ => rfl) fun _ => rfl
      · cases hs
        refine .goto (fun _ => Pc.noConfusion) (fun _ => rfl) fun _ => ?_
        exact launches_emit _ .stopped _ _
    · cases hs
      exact ⟨fun i h => absurd h (hpc i), fun _ => rfl, fun _ => rfl⟩

theorem stepsOn_run (h : ChecksFirst s) (hs : s.runStep system answer = some t) :
    StepsOn s t (restartsWhileEnding s (.run answer)) := by
  unfold State.runStep at hs
  unfold restartsWhileEnding
  dsimp only
  split at hs
  · rename_i hpc
    rw [hpc]
    split at hs
    · cases hs
      exact .goto (fun _ => Pc.noConfusion) (fun _ => rfl) fun _ => rfl
    · split at hs
      · cases hs
        exact .goto (fun _ => Pc.noConfusion) (fun _ => rfl) fun _ => rfl
      · cases hs
        exact .goto (fun _ => Pc.noConfusion) (fun _ => rfl) fun _ => rfl
  · rename_i index hpc
    rw [hpc]
    split at hs
    · cases hs
      exact .goto (fun _ => Pc.noConfusion) (fun _ => rfl) fun _ => rfl
    · rename_i hgo
      cases hs
      have hopen : s.ending = none := by
        cases hending : s.ending with
        | none => rfl
        | some reason => exact absurd (by simp [hending]) hgo
      exact ⟨fun _ _ => hopen, fun _ => rfl, fun _ => rfl⟩
  · rename_i index hpc
    split at hs
    · cases hs
    · cases hs
      have hopen := h index hpc
      refine ⟨fun _ h => Pc.noConfusion h, fun hsome => ?_, fun hsome => ?_⟩
      all_goals
        rw [hopen] at hsome
        cases hsome
  · rename_i next deadline hpc
    rw [hpc]
    split at hs
    · cases hs
      exact stepsOn_leave next deadline
    · cases hs
      exact .goto (fun _ => Pc.noConfusion) (fun _ => rfl) fun _ => rfl
  · rename_i next deadline index hpc
    rw [hpc]
    dsimp only
    split at hs
    · rename_i hnone
      cases hs
      rw [hnone, Option.any_none, Bool.and_false]
      refine .goto (fun _ => Pc.noConfusion) (fun hsome => ?_) fun hsome => ?_
      · rw [State.roundEnds, if_neg]
        simp [Option.isNone_eq_false_iff.mpr hsome]
      · rw [State.roundEnds, if_neg]
        simp [Option.isNone_eq_false_iff.mpr hsome]
    · rename_i node hnode
      obtain ⟨visited, hvisit, hgoto⟩ := Option.map_eq_some_iff.mp hs
      subst hgoto
      refine ⟨fun _ h => Pc.noConfusion h, fun hsome => ?_, fun hsome => ?_⟩
      · exact (ending_visit hvisit hsome : visited.ending = s.ending)
      rw [hnode, hsome, Option.any_some, Bool.true_and]
      show visited.launches = _
      rw [launches_visit hvisit]
      simp only [Bool.and_eq_true, decide_eq_true_eq]
  · rename_i next deadline hpc
    rw [hpc]
    split at hs
    · cases hs
      exact stepsOn_leave next deadline
    · cases hs
      exact .goto (fun _ => Pc.noConfusion) (fun _ => rfl) fun _ => rfl
  · rename_i result left hpc
    rw [hpc]
    split at hs
    · cases hs
      exact .goto (fun _ => Pc.noConfusion) (fun _ => rfl) fun _ => rfl
    · split at hs
      · cases hs
      · split at hs
        · cases hs
          refine ⟨fun _ h => Pc.noConfusion h, fun _ => rfl, fun _ => ?_⟩
          exact launches_emit _ .stopping _ _
        · cases hs
          exact ⟨fun _ h => Pc.noConfusion h, fun _ => rfl, fun _ => rfl⟩
  · rename_i result left killed deadline hpc
    have hnot (i : Nat) : s.pc ≠ .launching i := by
      rw [hpc]
      exact Pc.noConfusion
    rw [hpc]
    split at hs
    · cases hs
    · split at hs
      · cases hs
      · exact stepsOn_waitForExit hnot hs
  · rename_i result left hpc
    rw [hpc]
    split at hs
    · cases hs
    · split at hs
      · cases hs
      · cases hs
        refine .goto (fun _ => Pc.noConfusion) (fun _ => rfl) fun _ => ?_
        exact launches_emit _ .killed _ _
  · cases hs

theorem stepsOn (h : ChecksFirst s) {move : Move} (hs : step system s move = some t) :
    StepsOn s t (restartsWhileEnding s move) := by
  cases move with
  | run answer => exact stepsOn_run h hs
  | requestStop =>
    cases hs
    exact ⟨h, fun _ => rfl, fun _ => rfl⟩

/-- A restart while ending is a step of the run. -/
theorem enabled_of_restarts {move : Move} (h : restartsWhileEnding s move = true) : ∃ t, step system s move = some t := by
  cases move with
  | requestStop => cases h
  | run answer =>
    unfold restartsWhileEnding at h
    dsimp only at h
    split at h
    · rename_i next deadline index hpc
      rw [Bool.and_eq_true, Option.any_eq_true] at h
      obtain ⟨-, node, hnode, hdue⟩ := h
      obtain ⟨hphase, hdue⟩ : node.phase = .backoff ∧ node.restartAt ≤ answer.now := by simpa using hdue
      simp [step, State.runStep, hpc, hnode, State.visit, hphase, hdue]
    · cases h

/-! ## Every run -/

/-- Once there is a reason, a run that restarts nothing launches nothing. -/
theorem launches_run {moves : List Move} (h : ChecksFirst s) (hending : s.ending.isSome = true)
    (hquiet : RunOk (step system) (fun s move => restartsWhileEnding s move = false) s moves)
    (hrun : run (step system) s moves = some t) : t.launches = s.launches := by
  induction moves generalizing s with
  | nil =>
    cases hrun
    rfl
  | cons move moves ih =>
    obtain ⟨u, hu, hrest⟩ := run_cons hrun
    have hsteps := stepsOn h hu
    have hlaunches := hsteps.launches hending
    rw [hquiet.1] at hlaunches
    rw [ih hsteps.checksFirst (by rw [hsteps.ending hending]; exact hending) (hquiet.2 u hu) hrest, hlaunches]
    rfl

theorem runOk_append_left {ok : State → Move → Prop} {before after : List Move}
    (h : RunOk (step system) ok s (before ++ after)) : RunOk (step system) ok s before := by
  induction before generalizing s with
  | nil => trivial
  | cons move before ih => exact ⟨h.1, fun u hu => ih (h.2 u hu)⟩

theorem startsNothing_iff (moves : List Move) (h : ChecksFirst s) :
    StartsNothingOnceEnding system s moves ↔
      RunOk (step system) (fun s move => restartsWhileEnding s move = false) s moves := by
  induction moves generalizing s with
  | nil =>
    refine ⟨fun _ => trivial, fun _ before after rest u t hsplit hbefore _ hafter => ?_⟩
    obtain ⟨rfl, hrest⟩ := List.append_eq_nil_iff.mp hsplit.symm
    obtain ⟨rfl, rfl⟩ := List.append_eq_nil_iff.mp hrest
    cases hbefore
    cases hafter
    rfl
  | cons move moves ih =>
    constructor
    · intro hnothing
      refine ⟨?_, fun u hu => (ih (stepsOn h hu).checksFirst).mp ?_⟩
      · cases hrestarts : restartsWhileEnding s move with
        | false => exact hrestarts
        | true =>
          obtain ⟨u, hu⟩ : ∃ u, step system s move = some u := enabled_of_restarts hrestarts
          have hending : s.ending.isSome = true := by
            unfold restartsWhileEnding at hrestarts
            split at hrestarts
            · cases hrestarts
            · split at hrestarts
              · exact (Bool.and_eq_true _ _ ▸ hrestarts).1
              · cases hrestarts
          have hone := (stepsOn h hu).launches hending
          have hnone := hnothing [] [move] moves s u rfl rfl hending (by simp [run, hu])
          rw [hrestarts, if_pos rfl] at hone
          omega
      · intro before after rest v t hsplit hbefore
        refine hnothing (move :: before) after rest v t (by rw [hsplit]; rfl) ?_
        rw [run, hu, Option.bind_some]
        exact hbefore
    · intro hquiet before after rest v t hsplit hbefore hending hafter
      cases before with
      | nil =>
        cases hbefore
        rw [List.nil_append] at hsplit
        rw [hsplit] at hquiet
        exact launches_run h hending (runOk_append_left hquiet) hafter
      | cons first before =>
        rw [List.cons_append] at hsplit
        injection hsplit with hfirst hsplit
        subst hfirst
        obtain ⟨u, hu, hbefore⟩ := run_cons hbefore
        exact (ih (stepsOn h hu).checksFirst).mpr (hquiet.2 u hu) before after rest v t hsplit hbefore hending hafter

/-- Exactly when no step of the run visits a node whose restart delay has run out, with a reason to end. -/
theorem starts_nothing_once_ending_iff (system : System) (moves : List Move) :
    StartsNothingOnceEnding system (initial system) moves ↔
      RunOk (step system) (fun s move => restartsWhileEnding s move = false) (initial system) moves :=
  startsNothing_iff moves fun _ h => Pc.noConfusion h

/-! ## The round that goes on -/

/-- A required node, and a second one that is restarted after a failure. -/
def requiredThenRestarted : System where
  nodes := [{ name := [97] }, { name := [98], restart := .onFailure, required := false }]

/-- The second node fails; when its delay has run out, the first one ends. -/
def endsAsTheDelayRunsOut : List Move :=
  [.run {}, .run {}, .run {}, .run {}, .run {}, .run {}, .run {}, .run {}, .run {}, .run {}, .run {}, .run {},
    .run { polled := exited 1 }, .run {}, .run {}, .run {}, .run {}, .run { now := 600, polled := exited 0 }]

theorem a_round_restarts_while_ending :
    ¬ ∀ system moves, StartsNothingOnceEnding system (initial system) moves := by
  intro h
  have hround : ((run (step requiredThenRestarted) (initial requiredThenRestarted) endsAsTheDelayRunsOut).bind fun s =>
      (run (step requiredThenRestarted) s [.run { now := 600 }]).map fun t =>
        s.ending.isSome && decide (t.launches ≠ s.launches)) = some true := by
    decide +kernel
  obtain ⟨s, hbefore, hafter⟩ := Option.bind_eq_some_iff.mp hround
  obtain ⟨t, ht, hlaunches⟩ := Option.map_eq_some_iff.mp hafter
  obtain ⟨hending, hmore⟩ := (Bool.and_eq_true _ _).mp hlaunches
  exact of_decide_eq_true hmore (h requiredThenRestarted _ endsAsTheDelayRunsOut _ [] s t rfl hbefore hending ht)

end PuppetMaster.Configuration.Supervisor
