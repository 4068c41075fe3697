/-
  PuppetMaster.Configuration.LifecycleTrace — the order of the lifecycle callbacks.

  - `lifecycle_trace`: where `Stop` is not called while `Start` is under way, the callbacks
    of a `Start` that fails, and of a `Start`, a run and a `Stop`; the status `Stop` gives
    back; and a second `Stop`.
-/

import PuppetMaster.Configuration.ApplicationLife

namespace PuppetMaster.Configuration.Application

open PuppetMaster.Core PuppetMaster.Lib PuppetMaster.Scheduler
open PuppetMaster.Runtime (RuntimeContext Call ComponentState)

variable {app : Application} {s t : State} {answer : Status}

/-! ## The phase once Stop has been called -/

def StartPc.underWay : StartPc → Bool
  | .idle | .returned _ => false
  | _ => true

/-- `Stop` is called before `Start`, or after it has returned. -/
def stopOutsideStart (s : State) (move : Move) : Prop := ∀ answer, move = .stop answer → s.start.underWay = false

/-- When `Start` is about to write the phase `kRunning`, no `Stop` has written `kStopped`. -/
def lastWriteFindsCreated (s : State) (move : Move) : Prop :=
  ∀ answer, move = .start answer → s.start = .succeeding → s.phase = .created

theorem startStep_stop (hs : startStep app s answer = some t) : t.stop = s.stop := by
  unfold startStep at hs
  repeat' split at hs
  all_goals cases hs
  all_goals rfl

theorem stopStep_start (hs : stopStep app s answer = some t) : t.start = s.start := by
  unfold stopStep stopEnters at hs
  repeat' split at hs
  all_goals cases hs
  all_goals rfl

theorem startStep_phase (hs : startStep app s answer = some t) :
    t.phase = s.phase ∨ t.phase = .stopped ∧ t.start.underWay = false ∨ s.start = .succeeding := by
  unfold startStep at hs
  repeat' split at hs
  all_goals cases hs
  all_goals first
    | exact .inl rfl
    | exact .inr (.inl ⟨rfl, rfl⟩)
    | exact .inr (.inr (by assumption))

/-- `Start` goes to work only in the phase `kCreated`. -/
theorem startStep_underWay (hs : startStep app s answer = some t) (ht : t.start.underWay = true) :
    s.start.underWay = true ∨ s.phase = .created := by
  cases hstart : s.start with
  | idle =>
    unfold startStep at hs
    rw [hstart] at hs
    dsimp only at hs
    split at hs
    · cases hs
      cases ht
    · cases hs
      cases ht
    · rename_i hphase
      exact .inr hphase
  | returned status =>
    unfold startStep at hs
    rw [hstart] at hs
    cases hs
  | calling _ _ | inCallback _ _ | schedulerStarting | tearingDown _ _ | failing _ | succeeding => exact .inl rfl

theorem stopStep_phase (hs : stopStep app s answer = some t) : t.phase = .stopped ∨ s.stop ≠ .idle ∧ t.phase = s.phase := by
  unfold stopStep stopEnters at hs
  repeat' split at hs
  all_goals cases hs
  all_goals first
    | exact .inl rfl
    | exact .inr ⟨by simp_all, rfl⟩

/-- A worker of the scheduler changes the runtime only. -/
theorem step_worker {move : Move} (hs : step app s move = some t) :
    (∃ answer, move = .start answer) ∨ (∃ answer, move = .stop answer)
      ∨ t.phase = s.phase ∧ t.start = s.start ∧ t.stop = s.stop ∧ t.scheduler = s.scheduler := by
  cases move with
  | start answer => exact .inl ⟨answer, rfl⟩
  | stop answer => exact .inr (.inl ⟨answer, rfl⟩)
  | execute name | executed name answer =>
    refine .inr (.inr ?_)
    simp only [step] at hs
    repeat' split at hs
    all_goals cases hs
    all_goals exact ⟨rfl, rfl, rfl, rfl⟩

theorem stopped_of_stop (h : Reach (step app) lastWriteFindsCreated (· = initial app) s) (hstop : s.stop ≠ .idle) :
    s.phase = .stopped := by
  refine h.invariant (I := fun s => s.stop ≠ .idle → s.phase = .stopped) ?_ ?_ hstop
  · rintro s rfl hstop
    exact absurd rfl hstop
  · intro s move t hinv hok hs hstop
    rcases step_worker hs with ⟨answer, rfl⟩ | ⟨answer, rfl⟩ | ⟨hphase, -, hsame, -⟩
    · have hstopped := hinv (startStep_stop hs ▸ hstop)
      rcases startStep_phase hs with hphase | ⟨hphase, -⟩ | hlast
      · exact hphase.trans hstopped
      · exact hphase
      · have hcreated := hok answer rfl hlast
        rw [hstopped] at hcreated
        cases hcreated
    · rcases stopStep_phase hs with hphase | ⟨hne, hphase⟩
      · exact hphase
      · exact hphase.trans (hinv hne)
    · exact hphase.trans (hinv (hsame ▸ hstop))

/-- A `Stop` outside `Start` cannot change the phase before the last write. -/
theorem reach_outside (h : Reach (step app) stopOutsideStart (· = initial app) s) :
    Reach (step app) lastWriteFindsCreated (· = initial app) s := by
  refine h.strengthen (I := fun s => s.start.underWay = true → s.phase = .created) ?_ ?_ ?_
  · rintro s rfl hway
    cases hway
  · intro s move t hinv hok hs hway
    rcases step_worker hs with ⟨answer, rfl⟩ | ⟨answer, rfl⟩ | ⟨hphase, hsame, -⟩
    · have hcreated : s.phase = .created := (startStep_underWay hs hway).elim hinv id
      rcases startStep_phase hs with hphase | ⟨-, hdone⟩ | hlast
      · exact hphase.trans hcreated
      · rw [hway] at hdone
        cases hdone
      · unfold step startStep at hs
        simp only [hlast, Option.some.injEq] at hs
        subst hs
        cases hway
    · rw [stopStep_start hs, hok answer rfl] at hway
      cases hway
    · exact hphase.trans (hinv (hsame ▸ hway))
  · intro s move hinv _ answer _ hlast
    exact hinv (by rw [hlast]; rfl)

/-! ## The trace of a whole life -/

variable {outcomes : List Outcome}

theorem failed_start_trace (h : Life app s outcomes) {failure : Status} (hstart : s.start = .returned failure)
    (hfail : failure.isOk = false) :
    failure = alreadyStopped ∧ s.stop ≠ .idle ∧ lifecycle s.runtime = [] ∧ outcomes = []
      ∨ ∃ count up down ups downs, FailsAfter app failure count up ups ∧ lifecycle s.runtime = up ++ down
        ∧ outcomes = ups ++ downs ∧ TornDown (app.components.take count).reverse down
        ∧ made downs = down.map askedOf := by
  unfold Life at h
  rw [hstart] at h
  dsimp only at h
  rw [if_neg (by simp [hfail])] at h
  obtain ⟨-, -, ⟨hstatus, hstop, hnone, hall, -⟩ | ⟨count, up, ups, downs, hafter, hall, ⟨down, hcalls, hdown, hmade⟩, -⟩⟩ := h
  · exact .inl ⟨hstatus, hstop, hnone, hall⟩
  · exact .inr ⟨count, up, down, ups, downs, hafter, hcalls, hall, hdown, hmade⟩

theorem Life.stopLife (h : Life app s outcomes) {status : Status} (hstart : s.start = .returned status)
    (hok : status.isOk = true) : StopLife app s outcomes := by
  unfold Life at h
  rw [hstart] at h
  dsimp only at h
  rwa [if_pos hok] at h

/-- `Stop` is at work only once `Start` has brought everything up. -/
theorem Life.stopLife_of_busy (h : Life app s outcomes) (hbusy : ¬ AtRest s.stop) :
    StopLife app s outcomes ∧ ∃ status, s.start = .returned status := by
  unfold Life at h
  split at h
  case h_4 | h_7 => exact absurd h.2.2.1 hbusy
  case h_8 status hstart =>
    split at h
    · exact ⟨h, status, hstart⟩
    · exact absurd h.1.2.2 hbusy
  all_goals exact absurd h.1.2.2 hbusy

theorem stopped_trace (h : StopLife app s outcomes) {result : Status} {failures : List Status}
    (hstop : s.stop = .returned result failures) (hphase : s.phase = .stopped) :
    ∃ down risen answer downs closed, lifecycle s.runtime = broughtUp app.components ++ down
      ∧ TornDown app.components.reverse down ∧ Risen app risen
      ∧ outcomes = risen ++ ⟨.schedulerStop, answer⟩ :: downs ++ [⟨.close, closed⟩] ∧ made downs = down.map askedOf := by
  unfold StopLife at h
  rw [hstop] at h
  obtain ⟨-, ⟨hrunning, -⟩ | ⟨-, risen, answer, downs, closed, hrisen, hall, ⟨down, hcalls, hdown, hmade⟩, -⟩⟩ := h
  · rw [hphase] at hrunning
    cases hrunning
  · rw [List.take_length] at hdown
    exact ⟨down, risen, answer, downs, closed, hcalls, hdown, hrisen, hall, hmade⟩

/-- `Stop` returns the first error among the answers it got. -/
theorem stop_returns (h : StopLife app s outcomes) {first : Status} {failures : List Status} (answer : Status)
    (hstop : s.stop = .closing first failures) (hs : stopStep app s answer = some t) :
    ∃ risen stopped downs errors, Risen app risen ∧ outcomes = risen ++ ⟨.schedulerStop, stopped⟩ :: downs
      ∧ errors = errorsOf (⟨.schedulerStop, stopped⟩ :: downs ++ [⟨.close, answer⟩])
      ∧ t.stop = .returned (errors.headD .ok) errors := by
  unfold StopLife at h
  rw [hstop] at h
  obtain ⟨-, hfirst, risen, stopped, downs, hrisen, hall, hfailures, -⟩ := h
  refine ⟨risen, stopped, downs, _, hrisen, hall, rfl, ?_⟩
  unfold stopStep at hs
  simp only [hstop] at hs
  rw [errorsOf_append, ← hfailures]
  cases hok : answer.isOk with
  | true =>
    simp only [hok, if_true, Option.some.injEq] at hs
    subst hs
    have hnone : errorsOf [⟨.close, answer⟩] = [] := by simp [errorsOf, hok]
    rw [hnone, List.append_nil]
    exact congrArg (StopPc.returned · failures) hfirst.1
  | false =>
    simp only [hok, Bool.false_eq_true, if_false, Option.some.injEq] at hs
    subst hs
    have hone : errorsOf [⟨.close, answer⟩]
        = [.error answer.code (text "closing transports failed: " ++ answer.message)] := by
      simp [errorsOf, hok, Outcome.error]
    rw [hone]
    exact congrArg (StopPc.returned · _) (hfirst.append (.one (error_not_ok hok))).1

/-- A teardown in `Start` is never stuck, and nears its end with every step. -/
theorem start_tears_down (h : Life app s outcomes) {failure : Status} {tear : TearDown} (answer : Status)
    (hstart : s.start = .tearingDown failure tear) :
    ∃ t, startStep app s answer = some t
      ∧ (t.start = .failing failure ∨ ∃ tear', t.start = .tearingDown failure tear' ∧ tear'.left < tear.left) := by
  unfold Life at h
  rw [hstart] at h
  obtain ⟨-, count, up, ups, downs, -, -, htear⟩ := h
  unfold startStep
  rw [hstart]
  dsimp only
  split
  · exact ⟨_, rfl, .inl rfl⟩
  · rename_i k hk
    obtain ⟨name, hname⟩ := htear.component hk
    rw [hname]
    exact ⟨_, rfl, .inr ⟨_, rfl, tearDown_left hk ..⟩⟩

theorem stop_tears_down (h : StopLife app s outcomes) {first : Status} {failures : List Status} {tear : TearDown}
    (answer : Status) (hstop : s.stop = .tearingDown first failures tear) :
    ∃ t, stopStep app s answer = some t
      ∧ ((∃ result met, t.stop = .closing result met)
        ∨ ∃ tear', t.stop = .tearingDown first failures tear' ∧ tear'.left < tear.left) := by
  unfold StopLife at h
  rw [hstop] at h
  obtain ⟨-, -, risen, stopped, downs, -, -, -, htear⟩ := h
  unfold stopStep
  rw [hstop]
  dsimp only
  split
  · exact ⟨_, rfl, .inl ⟨_, _, rfl⟩⟩
  · rename_i k hk
    obtain ⟨name, hname⟩ := htear.component hk
    rw [hname]
    exact ⟨_, rfl, .inr ⟨_, rfl, tearDown_left hk ..⟩⟩

/--
`Start` fails: every callback up to the last answers Ok, and that one fails (or the scheduler does), which is the error
returned; and down again from there; no callback after a `Stop`. `Start` returns Ok: every callback has answered Ok, all
the way up. `Stop`: down again, each callback with its answer, between `Scheduler::Stop` and `Close`; it returns the first
error among these answers. A second `Stop` makes no callback. A teardown is never stuck, and nears its end with every step.
-/
theorem lifecycle_trace {moves : List Move} (hok : RunOk (step app) stopOutsideStart (initial app) moves)
    (hrun : run (step app) (initial app) moves = some s) :
    (∀ failure, s.start = .returned failure → failure.isOk = false →
        failure = alreadyStopped ∧ s.stop ≠ .idle ∧ lifecycle s.runtime = [] ∧ answersOf app moves = []
          ∨ ∃ count up down ups downs, FailsAfter app failure count up ups ∧ lifecycle s.runtime = up ++ down
            ∧ answersOf app moves = ups ++ downs ∧ TornDown (app.components.take count).reverse down
            ∧ made downs = down.map askedOf)
      ∧ (∀ status, s.start = .returned status → status.isOk = true → s.stop = .idle →
        lifecycle s.runtime = broughtUp app.components ∧ Risen app (answersOf app moves))
      ∧ (∀ status result failures, s.start = .returned status → status.isOk = true → s.stop = .returned result failures →
        ∃ down risen answer downs closed, lifecycle s.runtime = broughtUp app.components ++ down
          ∧ TornDown app.components.reverse down ∧ Risen app risen
          ∧ answersOf app moves = risen ++ ⟨.schedulerStop, answer⟩ :: downs ++ [⟨.close, closed⟩]
          ∧ made downs = down.map askedOf)
      ∧ (∀ first failures answer t, s.stop = .closing first failures → step app s (.stop answer) = some t →
        ∃ risen stopped downs errors, Risen app risen
          ∧ answersOf app moves = risen ++ ⟨.schedulerStop, stopped⟩ :: downs
          ∧ errors = errorsOf (⟨.schedulerStop, stopped⟩ :: downs ++ [⟨.close, answer⟩])
          ∧ t.stop = .returned (errors.headD .ok) errors)
      ∧ (∀ result failures answer t, s.stop = .returned result failures → step app s (.stop answer) = some t →
        t.runtime = s.runtime ∧ t.stop = .returned .ok [])
      ∧ (∀ failure tear answer, s.start = .tearingDown failure tear → ∃ t, step app s (.start answer) = some t
        ∧ (t.start = .failing failure ∨ ∃ tear', t.start = .tearingDown failure tear' ∧ tear'.left < tear.left))
      ∧ ∀ first failures tear answer, s.stop = .tearingDown first failures tear → ∃ t, step app s (.stop answer) = some t
        ∧ ((∃ result met, t.stop = .closing result met)
          ∨ ∃ tear', t.stop = .tearingDown first failures tear' ∧ tear'.left < tear.left) := by
  have hlife := life_of_run hok hrun
  have hstopped : s.stop ≠ .idle → s.phase = .stopped :=
    stopped_of_stop (reach_outside (reach_run (.init rfl) hok hrun))
  refine ⟨fun failure => failed_start_trace hlife, fun status hstart hok hstop => ?_,
    fun status result failures hstart hok hstop => ?_, fun first failures answer t hstop hs => ?_,
    fun result failures answer t hstop hs => ?_, fun failure tear answer => start_tears_down hlife answer,
    fun first failures tear answer hstop => ?_⟩
  · have hstopLife := hlife.stopLife hstart hok
    unfold StopLife at hstopLife
    rw [hstop] at hstopLife
    exact ⟨hstopLife.2.2.1.calls, hstopLife.2.2.2⟩
  · exact stopped_trace (hlife.stopLife hstart hok) hstop (hstopped (by rw [hstop]; nofun))
  · exact stop_returns (hlife.stopLife_of_busy (by rw [hstop]; rintro (h | h) <;> cases h)).1 answer hstop hs
  · have hphase : s.phase ≠ .running := by
      rw [hstopped (by rw [hstop]; nofun)]
      decide
    unfold step stopStep at hs
    simp only [hstop, Option.some.injEq] at hs
    rw [← hs, stopEnters_notRunning hphase]
    exact ⟨rfl, rfl⟩
  · exact stop_tears_down (hlife.stopLife_of_busy (by rw [hstop]; rintro (h | h) <;> cases h)).1 answer hstop

/-- A sensor and a filter that reads nothing. -/
def pairProject : ProjectConfig where
  components := [{ name := [115] }, { name := [102] }]

def pair : Application := ⟨pairProject, by decide +kernel⟩

def failed : Status := .error .internal (text "failed")

/-- The filter's `Execute` fails, `Scheduler::Stop` refuses, and the sensor's `Stop` fails; `Close` is next. -/
def refusedStop : List Move :=
  List.replicate 16 (Move.start .ok) ++ [Move.execute [102], .executed [102] failed, .stop .ok, .stop failed]
    ++ List.replicate 5 (Move.stop .ok) ++ [Move.stop failed] ++ List.replicate 4 (Move.stop .ok)

def stopOutsideStartCheck (s : State) : Move → Bool
  | .stop _ => !s.start.underWay
  | _ => true

theorem stopOutsideStartCheck_sound (s : State) (move : Move) (h : stopOutsideStartCheck s move = true) :
    stopOutsideStart s move := by
  rintro answer rfl
  simpa [stopOutsideStartCheck] using h

/-- The errors that a `Stop` which has returned met. -/
def metErrors (s : State) : Option (List Status) :=
  match s.stop with
  | .returned _ failures => some failures
  | _ => none

def StopPc.isClosing : StopPc → Bool
  | .closing _ _ => true
  | _ => false

theorem closing_of_isClosing {stop : StopPc} (h : stop.isClosing = true) :
    ∃ first failures, stop = .closing first failures := by
  cases stop with
  | closing first failures => exact ⟨first, failures, rfl⟩
  | _ => cases h

/-- The filter is in the error state when it is reached, so it is shut down without `Stop`; both failures are met. -/
theorem a_refused_stop_tears_down :
    ∃ s t errors, run (step pair) (initial pair) refusedStop = some s ∧ step pair s (.stop .ok) = some t
      ∧ t.stop = .returned (errors.headD .ok) errors ∧ errors.length = 2
      ∧ ∃ risen stopped downs, Risen pair risen ∧ answersOf pair refusedStop = risen ++ ⟨.schedulerStop, stopped⟩ :: downs
        ∧ errors = errorsOf (⟨.schedulerStop, stopped⟩ :: downs ++ [⟨.close, .ok⟩]) := by
  have hends : (run (step pair) (initial pair) refusedStop).map (fun s => (s.stop.isClosing,
      ((step pair s (.stop .ok)).bind metErrors).map List.length)) = some (true, some 2) := by decide +kernel
  have hok : RunOk (step pair) stopOutsideStart (initial pair) refusedStop :=
    runOk_of_check stopOutsideStartCheck_sound (by decide +kernel)
  obtain ⟨s, hrun, hs⟩ := Option.map_eq_some_iff.mp hends
  obtain ⟨hclosing, hlength⟩ := Prod.mk.inj hs
  obtain ⟨first, failures, hstop⟩ := closing_of_isClosing hclosing
  obtain ⟨errors', hmet, hlength⟩ := Option.map_eq_some_iff.mp hlength
  obtain ⟨t, ht, hmet⟩ := Option.bind_eq_some_iff.mp hmet
  obtain ⟨risen, stopped, downs, errors, hrisen, hall, herrors, hreturned⟩ :=
    (lifecycle_trace hok hrun).2.2.2.1 first failures .ok t hstop ht
  rw [metErrors, hreturned] at hmet
  cases hmet
  exact ⟨s, t, errors', hrun, ht, hreturned, hlength, risen, stopped, downs, hrisen, hall, herrors⟩

end PuppetMaster.Configuration.Application
