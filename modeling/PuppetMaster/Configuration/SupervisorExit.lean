/-
  PuppetMaster.Configuration.SupervisorExit — the exit code of `Run`.

  The code should be 1 when a required node ended with a failure, or when every node ended
  and one of them failed (`verdict`), or without a log directory. `Run` keeps the first
  reason to end it sees, and asks no more: a required node that ends successfully hides a
  failure that comes later in its round, and one of an optional node that came before it; and
  a stop request ends `Run` before the round that would have found every node done.

  - `launch_decides`, `visit_decides`: what a step does to the nodes, when a run ends in it
    (`ends?`) and when none does.
  - `Accounted.decides`, `Accounted.undecided`: the reason so far against the verdict.
  - `exit_code_is_the_verdict`: `Run` returns at once exactly when the creation of the log
    directory fails, and says so; else, where no failure is lost in these ways
    (`noFailureLost`), the exit code says what it should.
  - `a_success_hides_a_failure`: two required nodes end in one round.
-/

import PuppetMaster.Configuration.SupervisorProofs

namespace PuppetMaster.Configuration.Supervisor

open PuppetMaster.Core PuppetMaster.Lib
open State (allDone anyFailed)

/-! ## The verdict -/

def requiredFailed (nodes : List Node) : Bool :=
  nodes.any fun node => node.manifest.required && decide (node.phase = .done) && node.failed

def verdict (nodes : List Node) : Bool := requiredFailed nodes || (allDone nodes && anyFailed nodes)

/-- The end of a run of a node, or a failed start of it. -/
structure RunEnd where
  index : Nat
  node : Node
  success : Bool
  startedAt : Int

/-- What `Ended` is called with in the next step. -/
def ends? (s : State) (answer : Answer) : Option RunEnd :=
  match s.pc with
  | .launching index =>
    match s.nodes[index]?, answer.launched with
    | some node, .error _ => some ⟨index, node, false, answer.now⟩
    | _, _ => none
  | .visiting _ _ index =>
    match s.nodes[index]? with
    | none => none
    | some node =>
      match node.phase with
      | .running =>
        node.child.bind fun child =>
          (child.poll answer.polled).1.exit.map fun exit => ⟨index, node, exit.success, node.startedAt⟩
      | .backoff =>
        if node.restartAt ≤ answer.now then
          match answer.launched with
          | .error _ => some ⟨index, node, false, answer.now⟩
          | .ok _ => none
        else none
      | .pending | .done => none
  | _ => none

/-- The policy allows no restart after it. -/
def RunEnd.final (options : SupervisorOptions) (runEnd : RunEnd) (now : Int) : Bool :=
  !runEnd.node.restartsAfter options runEnd.success runEnd.startedAt now

/--
The end of a node for good hides no failure. When its success becomes the reason to end, the
others have not all ended with a failure among them. After a success that was the reason, it
is no failure of a required node, and does not complete the ended nodes with a failure among
them.
-/
def RunEnd.HidesNothing (s : State) (runEnd : RunEnd) : Prop :=
  (s.ending = none → runEnd.node.manifest.required = true → runEnd.success = true →
      ¬ (allDone (s.nodes.eraseIdx runEnd.index) = true ∧ anyFailed (s.nodes.eraseIdx runEnd.index) = true))
    ∧ ∀ reason, s.ending = some reason → reason.exitCode = 0 →
      ¬ (runEnd.node.manifest.required = true ∧ runEnd.success = false)
        ∧ ¬ (allDone (s.nodes.eraseIdx runEnd.index) = true
          ∧ (runEnd.success = false ∨ anyFailed (s.nodes.eraseIdx runEnd.index) = true))

/-- No end hides a failure, and no stop request comes between the last end, with one failed, and the end of its round. -/
def noFailureLost (system : System) (s : State) (move : Move) : Prop :=
  ∀ answer, move = .run answer →
    (∀ runEnd, ends? s answer = some runEnd → runEnd.final system.options answer.now = true → runEnd.HidesNothing s)
      ∧ ∀ next, s.pc = .supervising next none → s.ending = none → s.stopRequested = true →
        ¬ (allDone s.nodes = true ∧ anyFailed s.nodes = true)

/-! ## A node and the others -/

variable {options : SupervisorOptions} {node new : Node} {nodes : List Node} {index : Nat}

theorem verdict_perm {nodes' : List Node} (h : nodes.Perm nodes') : verdict nodes = verdict nodes' := by
  unfold verdict requiredFailed allDone anyFailed
  rw [h.any_eq, h.all_eq, h.any_eq]

theorem requiredFailed_perm {nodes' : List Node} (h : nodes.Perm nodes') :
    requiredFailed nodes = requiredFailed nodes' := h.any_eq

theorem perm_set (hi : nodes[index]? = some node) (new : Node) :
    (nodes.set index new).Perm (new :: nodes.eraseIdx index) := by
  have hnew : (nodes.set index new)[index]? = some new := set_getElem? hi
  have hperm := perm_cons_eraseIdx hnew
  rwa [List.eraseIdx_set_eq] at hperm

theorem requiredFailed_cons (node : Node) (others : List Node) :
    requiredFailed (node :: others) = ((node.manifest.required && decide (node.phase = .done) && node.failed)
      || requiredFailed others) := rfl

/-- As long as a node has not ended, only a required one can decide. -/
theorem verdict_open (others : List Node) (h : node.phase ≠ .done) :
    verdict (node :: others) = requiredFailed (node :: others) ∧ requiredFailed (node :: others) = requiredFailed others := by
  simp [verdict, requiredFailed_cons, allDone, h]

/-! ## What a step decides -/

variable {s t : State} {answer : Answer}

/-- No run ends: nothing is decided. -/
structure Undecided (s t : State) : Prop where
  verdict : verdict t.nodes = verdict s.nodes
  requiredFailed : requiredFailed t.nodes = requiredFailed s.nodes
  ending : t.ending = s.ending

theorem Undecided.refl (s : State) : Undecided s s := ⟨rfl, rfl, rfl⟩

/-- A node that has not ended goes on. -/
theorem undecided_set (hi : s.nodes[index]? = some node) (hphase : node.phase ≠ .done) (hnew : new.phase ≠ .done)
    (hnodes : t.nodes = s.nodes.set index new) (hending : t.ending = s.ending) : Undecided s t := by
  have hold := perm_cons_eraseIdx hi
  have hset := perm_set hi new
  rw [← hnodes] at hset
  obtain ⟨hverdict, hrequired⟩ := verdict_open (s.nodes.eraseIdx index) hphase
  obtain ⟨hverdict', hrequired'⟩ := verdict_open (s.nodes.eraseIdx index) hnew
  refine ⟨?_, ?_, hending⟩
  · rw [verdict_perm hset, verdict_perm hold, hverdict, hverdict', hrequired, hrequired']
  · rw [requiredFailed_perm hset, requiredFailed_perm hold, hrequired, hrequired']

theorem undecided_polled {child : Option Child} {reaped : List Nat} (hi : s.nodes[index]? = some node)
    (hphase : node.phase ≠ .done) :
    Undecided s { s with nodes := s.nodes.set index { node with child := child }, reaped := reaped } :=
  undecided_set hi hphase (show ({ node with child := child } : Node).phase ≠ .done from hphase) rfl rfl

/-- `Ended` is called for `runEnd`. -/
structure Decides (options : SupervisorOptions) (s : State) (runEnd : RunEnd) (now : Int) (t : State) : Prop where
  node : s.nodes[runEnd.index]? = some runEnd.node
  notDone : runEnd.node.phase ≠ .done
  nodes : t.nodes = s.nodes.set runEnd.index (runEnd.node.ended options runEnd.success runEnd.startedAt now)
  ending : t.ending =
    if runEnd.final options now && runEnd.node.manifest.required && s.ending.isNone then
      some (State.requiredReason runEnd.node.manifest runEnd.success) else s.ending

theorem start_error_decides {now : Int} {launched : Result Int} {status : Status} (hi : s.nodes[index]? = some node)
    (hphase : node.phase ≠ .done) (hlaunched : launched = .error status) :
    Decides options s ⟨index, node, false, now⟩ now (s.start options index node now launched) := by
  subst hlaunched
  have has := ended_as options (s.emit .startFailed node status.message) index node false now now
  exact ⟨hi, hphase, has.nodes, has.ending⟩

theorem start_ok_undecided {now id : Int} {launched : Result Int} (hi : s.nodes[index]? = some node)
    (hphase : node.phase ≠ .done) (hlaunched : launched = .ok id) :
    Undecided s (s.start options index node now launched) := by
  subst hlaunched
  exact undecided_set hi hphase (fun h => by cases h) rfl rfl

/-- The child that was polled goes with the run that ended. -/
theorem polled_decides {polled : State} {child : Child} {success : Bool} {now : Int} (hi : s.nodes[index]? = some node)
    (hphase : node.phase = .running) (hnodes : polled.nodes = s.nodes.set index { node with child := some child })
    (hending : polled.ending = s.ending) :
    Decides options s ⟨index, node, success, node.startedAt⟩ now
      (polled.ended options index { node with child := some child } success node.startedAt now) := by
  have has := ended_as options polled index { node with child := some child } success node.startedAt now
  refine ⟨hi, by rw [hphase]; decide, ?_, ?_⟩
  · rw [has.nodes, hnodes, List.set_set]
    rfl
  · rw [has.ending, hending]
    rfl

/-- A step in which a run ends, or none does, and what it does to the nodes. -/
theorem decides_some {runEnd : RunEnd} (hsome : ends? s answer = some runEnd)
    (h : Decides options s runEnd answer.now t) :
    (∀ runEnd, ends? s answer = some runEnd → Decides options s runEnd answer.now t)
      ∧ (ends? s answer = none → Undecided s t) := by
  refine ⟨fun other hend => ?_, fun hend => ?_⟩
  · cases Option.some.inj (hsome.symm.trans hend)
    exact h
  · rw [hsome] at hend
    cases hend

theorem decides_none (hnone : ends? s answer = none) (h : Undecided s t) :
    (∀ runEnd, ends? s answer = some runEnd → Decides options s runEnd answer.now t)
      ∧ (ends? s answer = none → Undecided s t) := by
  refine ⟨fun runEnd hend => ?_, fun _ => h⟩
  rw [hnone] at hend
  cases hend

/-- Starting a process ends a run only when it fails. -/
theorem start_decides (hi : s.nodes[index]? = some node) (hopen : node.phase ≠ .done)
    (hends : ∀ status, answer.launched = .error status → ends? s answer = some ⟨index, node, false, answer.now⟩)
    (hnone : ∀ id, answer.launched = .ok id → ends? s answer = none) :
    (∀ runEnd, ends? s answer = some runEnd →
        Decides options s runEnd answer.now (s.start options index node answer.now answer.launched))
      ∧ (ends? s answer = none → Undecided s (s.start options index node answer.now answer.launched)) := by
  cases hlaunched : answer.launched with
  | error status => exact decides_some (hends status hlaunched) (start_error_decides hi hopen rfl)
  | ok id => exact decides_none (hnone id hlaunched) (start_ok_undecided hi hopen rfl)

theorem visit_decides (hi : s.nodes[index]? = some node) {next : Nat} {deadline : Option Int}
    (hpc : s.pc = .visiting next deadline index) (hs : s.visit options index node answer = some t) :
    (∀ runEnd, ends? s answer = some runEnd → Decides options s runEnd answer.now t)
      ∧ (ends? s answer = none → Undecided s t) := by
  unfold State.visit at hs
  split at hs
  · rename_i hphase
    have hopen : node.phase ≠ .done := by rw [hphase]; decide
    split at hs
    · cases hs
    · rename_i child hchild
      dsimp only at hs
      split at hs
      · rename_i hexit
        cases hs
        exact decides_none (by simp [ends?, hpc, hi, hphase, hchild, hexit]) (undecided_polled hi hopen)
      · rename_i exit hexit
        cases hs
        have hends : ends? s answer = some ⟨index, node, exit.success, node.startedAt⟩ := by
          simp [ends?, hpc, hi, hphase, hchild, hexit]
        exact decides_some hends (polled_decides hi hphase rfl rfl)
  · rename_i hphase
    have hopen : node.phase ≠ .done := by rw [hphase]; decide
    split at hs
    · rename_i hle
      cases hs
      refine start_decides hi hopen (fun status hlaunched => ?_) fun id hlaunched => ?_
      · simp [ends?, hpc, hi, hphase, hle, hlaunched]
      · simp [ends?, hpc, hi, hphase, hlaunched]
    · rename_i hle
      cases hs
      exact decides_none (by simp [ends?, hpc, hi, hphase, hle]) (.refl s)
  · rename_i hphase
    cases hs
    exact decides_none (by simp [ends?, hpc, hi, hphase]) (.refl s)
  · rename_i hphase
    cases hs
    exact decides_none (by simp [ends?, hpc, hi, hphase]) (.refl s)

theorem launch_decides (options : SupervisorOptions) (answer : Answer) (hi : s.nodes[index]? = some node)
    (hpc : s.pc = .launching index) (hphase : node.phase = .pending) :
    (∀ runEnd, ends? s answer = some runEnd →
        Decides options s runEnd answer.now (s.start options index node answer.now answer.launched))
      ∧ (ends? s answer = none → Undecided s (s.start options index node answer.now answer.launched)) := by
  refine start_decides hi (by rw [hphase]; decide) (fun status hlaunched => ?_) fun id hlaunched => ?_
  · simp [ends?, hpc, hi, hlaunched]
  · simp [ends?, hpc, hi, hlaunched]

/-! ## The reason so far -/

/-- The reason to end, against the verdict on the nodes. -/
structure Accounted (s : State) : Prop where
  code : ∀ reason, s.ending = some reason → reason.exitCode = if verdict s.nodes then 1 else 0
  required : s.ending = none → requiredFailed s.nodes = false

theorem Accounted.undecided (h : Accounted s) (hu : Undecided s t) : Accounted t := by
  refine ⟨fun reason hreason => ?_, fun hnone => ?_⟩
  · rw [hu.verdict]
    exact h.code reason (hu.ending.symm.trans hreason)
  · rw [hu.requiredFailed]
    exact h.required (hu.ending.symm.trans hnone)

theorem ended_manifest {success : Bool} {startedAt now : Int} :
    (node.ended options success startedAt now).manifest = node.manifest := by
  unfold Node.ended
  split <;> exact rested_manifest

/-- The verdict after a node has ended for good. -/
theorem verdict_ended {success : Bool} {others : List Node} {startedAt now : Int}
    (hfinal : node.restartsAfter options success startedAt now = false) :
    verdict (node.ended options success startedAt now :: others)
      = ((node.manifest.required && !success || requiredFailed others)
        || (allDone others && (!success || anyFailed others))) := by
  have hphase : (node.ended options success startedAt now).phase = .done := by rw [ended_phase, hfinal]; rfl
  have hfailed : (node.ended options success startedAt now).failed = !success := by
    unfold Node.ended
    rw [hfinal]
    rfl
  simp only [verdict, requiredFailed_cons, hphase, hfailed, ended_manifest, allDone, anyFailed, List.all_cons, List.any_cons]
  simp

/-- The other nodes say whether a required one has failed, while this one has not ended. -/
theorem Decides.before {runEnd : RunEnd} {now : Int} (hd : Decides options s runEnd now t) :
    verdict s.nodes = requiredFailed (s.nodes.eraseIdx runEnd.index)
      ∧ requiredFailed s.nodes = requiredFailed (s.nodes.eraseIdx runEnd.index) := by
  have hold := perm_cons_eraseIdx hd.node
  obtain ⟨hverdict, hrequired⟩ := verdict_open (s.nodes.eraseIdx runEnd.index) hd.notDone
  exact ⟨(verdict_perm hold).trans (hverdict.trans hrequired), (requiredFailed_perm hold).trans hrequired⟩

theorem Accounted.final {runEnd : RunEnd} {now : Int} (h : Accounted s) (hd : Decides options s runEnd now t)
    (hfinal : runEnd.final options now = true) (hhides : runEnd.HidesNothing s) : Accounted t := by
  have hrestarts : runEnd.node.restartsAfter options runEnd.success runEnd.startedAt now = false := by
    simpa [RunEnd.final] using hfinal
  obtain ⟨hverdict, hrequired⟩ := hd.before
  have hset := perm_set hd.node (runEnd.node.ended options runEnd.success runEnd.startedAt now)
  rw [← hd.nodes] at hset
  have hafter := (verdict_perm hset).trans (verdict_ended hrestarts)
  have hending := hd.ending
  rw [hfinal, Bool.true_and] at hending
  cases hs : s.ending with
  | some reason =>
    simp only [hs, Option.isNone_some, Bool.and_false, Bool.false_eq_true, if_false] at hending
    have hcode := h.code reason hs
    rw [hverdict] at hcode
    refine ⟨fun reason' hreason' => ?_, fun hnone => ?_⟩
    · cases Option.some.inj (hending.symm.trans hreason')
      cases hothers : requiredFailed (s.nodes.eraseIdx runEnd.index) with
      | true =>
        rw [hothers] at hcode hafter
        simpa [hafter] using hcode
      | false =>
        rw [hothers] at hcode hafter
        obtain ⟨hown, hall⟩ := hhides.2 reason hs (by simpa using hcode)
        have hnot : verdict t.nodes = false := by
          rw [hafter]
          revert hown hall
          cases runEnd.node.manifest.required <;> cases runEnd.success <;> simp
        simpa [hnot] using hcode
    · rw [hending] at hnone
      cases hnone
  | none =>
    have hothers := hrequired.symm.trans (h.required hs)
    rw [hothers] at hafter
    cases hreq : runEnd.node.manifest.required with
    | true =>
      simp only [hs, hreq, Option.isNone_none, Bool.and_self, if_true] at hending
      refine ⟨fun reason hreason => ?_, fun hnone => ?_⟩
      · cases Option.some.inj (hending.symm.trans hreason)
        cases hsuccess : runEnd.success with
        | true =>
          have hall := hhides.1 hs hreq hsuccess
          have hnot : verdict t.nodes = false := by
            rw [hafter, hsuccess]
            simpa using hall
          simp [State.requiredReason, hnot]
        | false => simp [State.requiredReason, hafter, hreq, hsuccess]
      · rw [hending] at hnone
        cases hnone
    | false =>
      simp only [hs, hreq, Bool.false_and, Bool.false_eq_true, if_false] at hending
      refine ⟨fun reason hreason => ?_, fun _ => ?_⟩
      · cases hending.symm.trans hreason
      · rw [requiredFailed_perm hset, requiredFailed_cons, hothers]
        rw [ended_manifest, hreq]
        rfl

theorem Accounted.decides {runEnd : RunEnd} {now : Int} (h : Accounted s) (hd : Decides options s runEnd now t)
    (hhides : runEnd.final options now = true → runEnd.HidesNothing s) : Accounted t := by
  cases hfinal : runEnd.final options now with
  | true => exact h.final hd hfinal (hhides hfinal)
  | false =>
    have hrestarts : runEnd.node.restartsAfter options runEnd.success runEnd.startedAt now = true := by
      simpa [RunEnd.final] using hfinal
    have hending := hd.ending
    rw [hfinal] at hending
    refine h.undecided (undecided_set hd.node hd.notDone ?_ hd.nodes hending)
    rw [ended_phase, hrestarts]
    decide

theorem Accounted.roundEnds (h : Accounted s) : Accounted s.roundEnds := by
  unfold State.roundEnds
  split
  · rename_i hround
    simp only [Bool.and_eq_true, Option.isNone_iff_eq_none] at hround
    refine ⟨fun reason hreason => ?_, fun hnone => by cases hnone⟩
    cases hreason
    simp [verdict, h.required hround.1, hround.2]
  · exact h

/-! ## Every run -/

variable {system : System}

def ExitRight (result : SupervisorResult) (nodes : List Node) : Prop :=
  result.exitCode = if verdict nodes then 1 else 0

/-- The answer to the creation of the log directory: that of the first step of `Run`. -/
def created : List Move → Result Unit
  | [] => .ok ()
  | .run answer :: _ => answer.created
  | .requestStop :: moves => created moves

/-- What `Run` returns without a log directory. -/
def noLogs (system : System) (status : Status) : SupervisorResult :=
  ⟨text "creating " ++ system.options.logDirectory ++ text ": " ++ status.message, 1⟩

/-- Once `Run` goes on: before `StopAll` the reason so far, from then on the result. -/
def ExitAccounted (s : State) : Prop :=
  match s.pc with
  | .stopping result _ | .waiting result _ _ _ | .killing result _ | .returned result =>
    ∃ nodes, s.snapshot = some nodes ∧ ExitRight result nodes
  | _ => Accounted s

theorem Accounted.goto (h : Accounted s) (pc : Pc) : Accounted (s.goto pc) := ⟨h.code, h.required⟩

/-- The result that `Run` settles on. -/
theorem accounted_leave {next : Nat} {deadline : Option Int} (h : Accounted s)
    (hstop : deadline = none → s.ending = none → ¬ (allDone s.nodes = true ∧ anyFailed s.nodes = true)) :
    ExitAccounted (s.leave next deadline) := by
  unfold State.leave
  cases deadline with
  | some d => exact h.goto _
  | none =>
    refine ⟨s.nodes, rfl, ?_⟩
    cases hending : s.ending with
    | some reason => exact h.code reason hending
    | none =>
      have hnot : verdict s.nodes = false := by
        have hall := hstop rfl hending
        rw [verdict, h.required hending]
        simpa using hall
      simp [ExitRight, hnot, State.stopReason]

theorem accounted_wait {result : SupervisorResult} {killed : Bool} {deadline : Int}
    (h : ∃ nodes, s.snapshot = some nodes ∧ ExitRight result nodes)
    (hpc : s.pc = .waiting result (index + 1) killed deadline)
    (hs : s.waitForExit result index node killed deadline answer = some t) : ExitAccounted t := by
  unfold State.waitForExit at hs
  split at hs
  · cases hs
  · dsimp only at hs
    split at hs
    · split at hs
      · cases hs
        exact h
      · cases hs
        exact h
    · cases hs
      simp only [ExitAccounted, hpc]
      exact h

theorem accounted_run (hsup : Supervised system.options s) (h : ExitAccounted s)
    (hbegun : s.pc ≠ .creatingLogs) (hkept : noFailureLost system s (.run answer))
    (hs : s.runStep system answer = some t) : ExitAccounted t := by
  obtain ⟨hends, hstop⟩ := hkept answer rfl
  unfold State.runStep at hs
  unfold ExitAccounted at h
  cases hpc : s.pc with
  | creatingLogs => exact absurd hpc hbegun
  | starting index =>
    simp only [hpc] at hs h
    split at hs <;> cases hs <;> exact h.goto _
  | launching index =>
    simp only [hpc] at hs h
    split at hs
    · cases hs
    · rename_i node hi
      cases hs
      have hphase := hsup.untouched index (by rw [hpc]; rfl) index node (Nat.le_refl _) hi
      obtain ⟨hdecides, hquiet⟩ := launch_decides system.options answer hi hpc hphase
      cases hend : ends? s answer with
      | some runEnd => exact (h.decides (hdecides runEnd hend) (hends runEnd hend)).goto _
      | none => exact (h.undecided (hquiet hend)).goto _
  | supervising next deadline =>
    simp only [hpc] at hs h
    split at hs
    · rename_i hleave
      cases hs
      refine accounted_leave h fun hdeadline hending => ?_
      subst hdeadline
      exact hstop next hpc hending (by simpa [hending] using hleave)
    · cases hs
      exact h.goto _
  | visiting next deadline index =>
    simp only [hpc] at hs h
    split at hs
    · cases hs
      exact h.roundEnds.goto _
    · rename_i node hi
      obtain ⟨u, hu, rfl⟩ := Option.map_eq_some_iff.mp hs
      obtain ⟨hdecides, hquiet⟩ := visit_decides hi hpc hu
      cases hend : ends? s answer with
      | some runEnd => exact (h.decides (hdecides runEnd hend) (hends runEnd hend)).goto _
      | none => exact (h.undecided (hquiet hend)).goto _
  | resting next deadline =>
    simp only [hpc] at hs h
    split at hs
    · rename_i hleave
      cases hs
      refine accounted_leave h fun hdeadline hending => ?_
      subst hdeadline
      simp [hending] at hleave
    · cases hs
      exact h.goto _
  | stopping result left =>
    simp only [hpc] at hs h
    split at hs
    · cases hs
      exact h
    · split at hs
      · cases hs
      · split at hs <;> cases hs <;> exact h
  | waiting result left killed deadline =>
    simp only [hpc] at hs h
    split at hs
    · cases hs
    · split at hs
      · cases hs
      · exact accounted_wait h hpc hs
  | killing result left =>
    simp only [hpc] at hs h
    split at hs
    · cases hs
    · split at hs
      · cases hs
      · cases hs
        exact h
  | returned result =>
    simp only [hpc] at hs
    cases hs

/-- `Run` does not come back to its first step. -/
theorem runStep_begun (hbegun : s.pc ≠ .creatingLogs) (hs : s.runStep system answer = some t) : t.pc ≠ .creatingLogs := by
  unfold State.runStep at hs
  cases hpc : s.pc with
  | creatingLogs => exact absurd hpc hbegun
  | starting index =>
    simp only [hpc] at hs
    split at hs <;> cases hs <;> simp [State.goto]
  | launching index =>
    simp only [hpc] at hs
    split at hs <;> cases hs
    simp [State.goto]
  | supervising next deadline =>
    simp only [hpc] at hs
    split at hs <;> cases hs
    · cases deadline <;> simp [State.leave, State.goto]
    · simp [State.goto]
  | visiting next deadline index =>
    simp only [hpc] at hs
    split at hs
    · cases hs
      simp [State.goto]
    · obtain ⟨u, -, rfl⟩ := Option.map_eq_some_iff.mp hs
      simp [State.goto]
  | resting next deadline =>
    simp only [hpc] at hs
    split at hs <;> cases hs
    · cases deadline <;> simp [State.leave, State.goto]
    · simp [State.goto]
  | stopping result left =>
    simp only [hpc] at hs
    split at hs
    · cases hs
      simp [State.goto]
    · split at hs
      · cases hs
      · split at hs <;> cases hs <;> simp [State.goto]
  | waiting result left killed deadline =>
    simp only [hpc] at hs
    split at hs
    · cases hs
    · split at hs
      · cases hs
      · unfold State.waitForExit at hs
        split at hs
        · cases hs
        · dsimp only at hs
          split at hs
          · split at hs <;> cases hs <;> simp [State.goto]
          · cases hs
            simp [hpc]
  | killing result left =>
    simp only [hpc] at hs
    split at hs
    · cases hs
    · split at hs
      · cases hs
      · cases hs
        simp [State.goto]
  | returned result =>
    simp only [hpc] at hs
    cases hs

theorem accounted_initial : Accounted (initial system) := by
  refine ⟨nofun, fun _ => ?_⟩
  refine List.any_eq_false.mpr fun node hnode => ?_
  obtain ⟨spec, -, rfl⟩ := List.mem_map.mp hnode
  simp [Node.fresh]

theorem ExitAccounted.requestStop (h : ExitAccounted s) : ExitAccounted { s with stopRequested := true } := by
  unfold ExitAccounted at h ⊢
  dsimp only
  cases hpc : s.pc with
  | creatingLogs | starting _ | launching _ | supervising _ _ | visiting _ _ _ | resting _ _ =>
    rw [hpc] at h
    exact ⟨h.code, h.required⟩
  | stopping _ _ | waiting _ _ _ _ | killing _ _ | returned _ =>
    rw [hpc] at h
    exact h

/-- From where `Run` goes on, to its end. -/
theorem accounted_of_run {moves : List Move} (h : Reach (step system) (noFailureLost system) (· = initial system) s)
    (hbegun : s.pc ≠ .creatingLogs) (hacc : ExitAccounted s) (hok : RunOk (step system) (noFailureLost system) s moves)
    (hrun : run (step system) s moves = some t) : ExitAccounted t := by
  induction moves generalizing s with
  | nil =>
    cases hrun
    exact hacc
  | cons move moves ih =>
    obtain ⟨u, hu, hrest⟩ := run_cons hrun
    have hreach : Reach (step system) (noFailureLost system) (· = initial system) u := .step move h hok.1 hu
    cases move with
    | run answer =>
      have hnext := accounted_run (supervised_of_reach h) hacc hbegun hok.1 hu
      exact ih hreach (runStep_begun hbegun hu) hnext (hok.2 u hu) hrest
    | requestStop =>
      cases hu
      exact ih hreach hbegun hacc.requestStop (hok.2 _ rfl) hrest

/-- `Run` has returned: only stop requests can follow. -/
theorem returned_of_run {moves : List Move} {result : SupervisorResult} (hpc : s.pc = .returned result)
    (hrun : run (step system) s moves = some t) : ∃ requested, t = { s with stopRequested := requested } := by
  induction moves generalizing s with
  | nil =>
    cases hrun
    exact ⟨_, rfl⟩
  | cons move moves ih =>
    obtain ⟨u, hu, hrest⟩ := run_cons hrun
    cases move with
    | run answer =>
      rw [step, State.runStep, hpc] at hu
      cases hu
    | requestStop =>
      cases hu
      obtain ⟨requested, rfl⟩ := ih (s := { s with stopRequested := true }) hpc hrest
      exact ⟨requested, rfl⟩

/-- The first step of `Run`, after any stop requests, decides whether it goes on. -/
theorem begins_of_run {moves : List Move} {result : SupervisorResult} {requested : Bool}
    (hs : s = { initial system with stopRequested := requested })
    (h : Reach (step system) (noFailureLost system) (· = initial system) s)
    (hok : RunOk (step system) (noFailureLost system) s moves) (hrun : run (step system) s moves = some t)
    (hpc : t.pc = .returned result) :
    (∃ status, system.options.logDirectory ≠ [] ∧ created moves = .error status ∧ t.snapshot = none ∧ t.started = 0
        ∧ result = noLogs system status)
      ∨ (system.options.logDirectory = [] ∨ created moves = .ok ()) ∧ ExitAccounted t := by
  induction moves generalizing s requested with
  | nil =>
    cases hrun
    rw [hs] at hpc
    cases hpc
  | cons move moves ih =>
    obtain ⟨u, hu, hrest⟩ := run_cons hrun
    have hreach : Reach (step system) (noFailureLost system) (· = initial system) u := .step move h hok.1 hu
    cases move with
    | requestStop =>
      cases hu
      have hnext : { s with stopRequested := true } = { initial system with stopRequested := true } := by rw [hs]
      exact ih hnext hreach (hok.2 _ rfl) hrest
    | run answer =>
      have hfirst := hu
      rw [step, State.runStep, hs] at hfirst
      have hgoes (hv : ({ initial system with stopRequested := requested }).goto (.starting 0) = u) : ExitAccounted t := by
        have hacc : Accounted { initial system with stopRequested := requested } :=
          ⟨accounted_initial.code, accounted_initial.required⟩
        subst hv
        exact accounted_of_run hreach (fun heq => by cases heq) (hacc.goto _) (hok.2 _ hu) hrest
      simp only [initial] at hfirst
      split at hfirst
      · rename_i hdirectory
        exact .inr ⟨.inl hdirectory, hgoes (Option.some.inj hfirst)⟩
      · rename_i hdirectory
        cases hcreated : answer.created with
        | ok there =>
          rw [hcreated] at hfirst
          exact .inr ⟨.inr hcreated, hgoes (Option.some.inj hfirst)⟩
        | error status =>
          rw [hcreated] at hfirst
          cases hfirst
          have hreturned : (({ initial system with stopRequested := requested } : State).goto
              (.returned (noLogs system status))).pc = .returned (noLogs system status) := rfl
          obtain ⟨requested', rfl⟩ := returned_of_run hreturned hrest
          cases hpc
          exact .inl ⟨status, hdirectory, hcreated, rfl, rfl, rfl⟩

/--
Either the log directory could not be created, and `Run` has said so at once, with 1 and no node started; or it is there
(or none is asked for), and the code is the verdict on the nodes as they were before `StopAll`.
-/
theorem exit_code_is_the_verdict {moves : List Move}
    (hok : RunOk (step system) (noFailureLost system) (initial system) moves)
    (hrun : run (step system) (initial system) moves = some s) {result : SupervisorResult}
    (hpc : s.pc = .returned result) :
    (∃ status, system.options.logDirectory ≠ [] ∧ created moves = .error status ∧ s.snapshot = none ∧ s.started = 0
        ∧ result = noLogs system status)
      ∨ (system.options.logDirectory = [] ∨ created moves = .ok ())
        ∧ ∃ nodes, s.snapshot = some nodes ∧ result.exitCode = if verdict nodes then 1 else 0 := by
  refine (begins_of_run rfl (.init rfl) hok hrun hpc).imp_right fun h => ⟨h.1, ?_⟩
  have hacc := h.2
  unfold ExitAccounted at hacc
  rwa [hpc] at hacc

/-- Two required nodes. -/
def requiredPair : System where
  nodes := [{ name := [97] }, { name := [98] }]

/-- The same, with a log directory. -/
def loggedPair : System where
  options := { logDirectory := text "logs" }
  nodes := requiredPair.nodes

def failuresOnly (s : State) : Move → Bool
  | .run answer => !s.stopRequested && (ends? s answer).all fun runEnd => s.ending.isNone && !runEnd.success
  | .requestStop => false

theorem failuresOnly_sound (system : System) (s : State) (move : Move) (h : failuresOnly s move = true) :
    noFailureLost system s move := by
  rintro answer rfl
  simp only [failuresOnly, Bool.and_eq_true, Bool.not_eq_true'] at h
  refine ⟨fun runEnd hend _ => ?_, fun next _ _ hstop => ?_⟩
  · rw [hend] at h
    simp only [Option.all_some, Bool.and_eq_true, Option.isNone_iff_eq_none, Bool.not_eq_true'] at h
    obtain ⟨-, hnone, hfailed⟩ := h
    refine ⟨fun _ _ hsuccess => ?_, fun reason hreason => ?_⟩
    · rw [hfailed] at hsuccess
      cases hsuccess
    · rw [hnone] at hreason
      cases hreason
  · rw [h.1] at hstop
    cases hstop

def noSpace : Status := .error .internal (text "No space left on device")

/-- The directory is there, and the first node fails. -/
def failingRun : List Move :=
  [Move.run {}, .run {}, .run {}, .run {}, .run { polled := exited 1 }] ++ List.replicate 8 (Move.run {})

/-- With a log directory: a node fails; and the directory cannot be created. -/
theorem a_failed_node_is_reported :
    (∃ s result, run (step loggedPair) (initial loggedPair) failingRun = some s ∧ s.pc = .returned result
        ∧ created failingRun = .ok () ∧ ∃ nodes, s.snapshot = some nodes ∧ verdict nodes = true ∧ result.exitCode = 1)
      ∧ ∃ s result, run (step loggedPair) (initial loggedPair) [.run { created := .error noSpace }] = some s
        ∧ s.pc = .returned result ∧ s.snapshot = none ∧ s.started = 0 ∧ result = noLogs loggedPair noSpace := by
  constructor
  · have hends : (run (step loggedPair) (initial loggedPair) failingRun).map (fun s => (s.pc, s.snapshot.map verdict))
        = some (.returned ⟨text "required node a failed", 1⟩, some true) := by decide +kernel
    have hkept : RunOk (step loggedPair) (noFailureLost loggedPair) (initial loggedPair) failingRun :=
      runOk_of_check (failuresOnly_sound loggedPair) (by decide +kernel)
    obtain ⟨s, hrun, hs⟩ := Option.map_eq_some_iff.mp hends
    obtain ⟨hpc, hsnapshot⟩ := Prod.mk.inj hs
    obtain ⟨nodes, hnodes, hverdict⟩ := Option.map_eq_some_iff.mp hsnapshot
    obtain ⟨status, -, hcreated, -⟩ | ⟨-, nodes', hnodes', hcode⟩ := exit_code_is_the_verdict hkept hrun hpc
    · cases hcreated
    · cases Option.some.inj (hnodes.symm.trans hnodes')
      exact ⟨s, _, hrun, hpc, rfl, nodes, hnodes, hverdict, by rw [hcode, hverdict]; rfl⟩
  · let moves : List Move := [.run { created := .error noSpace }]
    have hends : (run (step loggedPair) (initial loggedPair) moves).map State.pc
        = some (.returned (noLogs loggedPair noSpace)) := by decide +kernel
    have hkept : RunOk (step loggedPair) (noFailureLost loggedPair) (initial loggedPair) moves :=
      runOk_of_check (failuresOnly_sound loggedPair) (by decide +kernel)
    obtain ⟨s, hrun, hpc⟩ := Option.map_eq_some_iff.mp hends
    obtain ⟨status, -, hcreated, hsnapshot, hstarted, hresult⟩ | ⟨hthere, -⟩ := exit_code_is_the_verdict hkept hrun hpc
    · cases hcreated
      exact ⟨s, _, hrun, hpc, hsnapshot, hstarted, hresult⟩
    · rcases hthere with hnone | hok
      · exact absurd hnone (by decide +kernel)
      · cases hok

/-- Both end in one round, the first one with success. -/
def successFirst : List Move :=
  List.replicate 11 (Move.run {}) ++ [Move.run { polled := exited 0 }, .run { polled := exited 1 }]
    ++ List.replicate 7 (Move.run {})

theorem a_success_hides_a_failure :
    ∃ s nodes, Reach (step requiredPair) anyMove (· = initial requiredPair) s
      ∧ s.pc = .returned ⟨text "required node a ended", 0⟩ ∧ s.snapshot = some nodes
      ∧ requiredFailed nodes = true ∧ allDone nodes = true ∧ anyFailed nodes = true := by
  have hrun : ∃ s, Reach (step requiredPair) anyMove (· = initial requiredPair) s
      ∧ decide (s.pc = .returned ⟨text "required node a ended", 0⟩
        ∧ s.snapshot.map (fun nodes => requiredFailed nodes && (allDone nodes && anyFailed nodes)) = some true) = true :=
    reach_of_run successFirst _ rfl (by decide +kernel)
  obtain ⟨s, hreach, hs⟩ := hrun
  obtain ⟨hpc, hsnapshot⟩ := of_decide_eq_true hs
  obtain ⟨nodes, hnodes, hall⟩ := Option.map_eq_some_iff.mp hsnapshot
  simp only [Bool.and_eq_true] at hall
  exact ⟨s, nodes, hreach, hpc, hnodes, hall⟩

end PuppetMaster.Configuration.Supervisor
