/-
  PuppetMaster.Configuration.ApplicationLife — the callbacks that have been made, by where
  `Start` and `Stop` stand.

  `broughtUp` is the trace of bringing components up, `TornDown` that of taking them down:
  a component that is started when it is reached is stopped and shut down, any other one is
  shut down only. `answersOf` is what a run's callbacks answered, and `Scheduler::Start`,
  `Scheduler::Stop` and `Close` with them, in their order; it is read off the moves.

  - `tearing_step`, `Tearing.interferes`: what a step of the teardown and what the workers
    of the scheduler keep; with the workers still running (`Scheduler::Stop` refused) an
    `Execute` may fail between any two steps.
  - `life_start`, `life_stop`, `life_interferes`: a step of each thread keeps `Life`.
  - `life_of_run`: so it holds in every interleaving of the threads, with all its answers.
-/

import Mathlib.Data.List.TakeDrop
import PuppetMaster.Configuration.Application
import PuppetMaster.Lib.Run

namespace PuppetMaster.Configuration.Application

open PuppetMaster.Core PuppetMaster.Lib PuppetMaster.Scheduler
open PuppetMaster.Runtime (RuntimeContext Call ComponentState)

/-! ## The trace -/

/-- The callbacks other than `Execute`. -/
def lifecycle (runtime : RuntimeContext) : List Call := runtime.calls.filter fun call => call.callback != .execute

def BringUp.callback : BringUp → Runtime.Callback
  | .configure => .configure
  | .init => .init
  | .start => .start

/-- The state a component is in before the step. -/
def BringUp.before : BringUp → ComponentState
  | .configure => .created
  | .init => .configured
  | .start => .initialized

def BringUp.after : BringUp → ComponentState
  | .configure => .configured
  | .init => .initialized
  | .start => .started

def BringUp.callOf (step : BringUp) (name : Name) : Call := ⟨step.callback, name, step.before⟩

/-- The calls to one component before `step`. -/
def BringUp.callsBefore (step : BringUp) (name : Name) : List Call :=
  match step with
  | .configure => []
  | .init => [BringUp.configure.callOf name]
  | .start => [BringUp.configure.callOf name, BringUp.init.callOf name]

/-- The calls to one component up to `step`. -/
def BringUp.callsThrough (step : BringUp) (name : Name) : List Call := step.callsBefore name ++ [step.callOf name]

def broughtUp (names : List Name) : List Call := names.flatMap BringUp.start.callsThrough

/-- Started: `Stop` and `Shutdown`. Not started: `Shutdown`. -/
def ComponentDown (name : Name) (calls : List Call) : Prop :=
  ∃ state, state ≠ .started
    ∧ (calls = [⟨.shutdown, name, state⟩] ∨ calls = [⟨.stop, name, .started⟩, ⟨.shutdown, name, state⟩])

def TornDown (names : List Name) (calls : List Call) : Prop :=
  ∃ parts, List.Forall₂ ComponentDown names parts ∧ calls = parts.flatten

theorem TornDown.nil : TornDown [] [] := ⟨[], .nil, rfl⟩

theorem TornDown.snoc {names : List Name} {name : Name} {calls part : List Call} (h : TornDown names calls)
    (hpart : ComponentDown name part) : TornDown (names ++ [name]) (calls ++ part) := by
  obtain ⟨parts, hparts, rfl⟩ := h
  refine ⟨parts ++ [part], ?_, by simp⟩
  exact List.rel_append (R := ComponentDown) hparts (.cons hpart .nil)

/-! ## The answers -/

/-- What `Start` and `Stop` ask. `refused`: an operation on a component that makes no callback. -/
inductive Asked where
  | callback (callback : Runtime.Callback) (component : Name)
  | refused (callback : Runtime.Callback) (component : Name)
  | schedulerStart
  | schedulerStop
  | close
  deriving DecidableEq

structure Outcome where
  asked : Asked
  answer : Status
  deriving DecidableEq

def callbackLabel : Runtime.Callback → String
  | .configure => "configure"
  | .init => "initialize"
  | .start => "start"
  | .execute => "execute"
  | .stop => "stop"
  | .shutdown => "shutdown"

/-- The error that is reported for an answer. -/
def Outcome.error (outcome : Outcome) : Status :=
  match outcome.asked with
  | .callback callback name | .refused callback name => componentError name (callbackLabel callback) outcome.answer
  | .schedulerStart => .error outcome.answer.code (text "scheduler start failed: " ++ outcome.answer.message)
  | .schedulerStop => .error outcome.answer.code (text "scheduler stop failed: " ++ outcome.answer.message)
  | .close => .error outcome.answer.code (text "closing transports failed: " ++ outcome.answer.message)

def Outcome.callback? (outcome : Outcome) : Option Asked :=
  match outcome.asked with
  | .callback callback name => some (.callback callback name)
  | _ => none

/-- The callbacks that have answered. -/
def made (outcomes : List Outcome) : List Asked := outcomes.filterMap Outcome.callback?

/-- The errors among the answers, as they are reported. -/
def errorsOf (outcomes : List Outcome) : List Status :=
  (outcomes.filter fun outcome => !outcome.answer.isOk).map Outcome.error

def askedOf (call : Call) : Asked := .callback call.callback call.component

theorem made_append (first rest : List Outcome) : made (first ++ rest) = made first ++ made rest :=
  List.filterMap_append

theorem errorsOf_append (first rest : List Outcome) : errorsOf (first ++ rest) = errorsOf first ++ errorsOf rest := by
  rw [errorsOf, List.filter_append, List.map_append]
  rfl

def refusals {α : Type} (asked : Asked) (result : Result α) : List Outcome :=
  match result with
  | .ok _ => []
  | .error status => [⟨asked, status⟩]

/-- What the next step of a teardown is answered. -/
def TearDown.answered (t : TearDown) (runtime : RuntimeContext) (name : Name) (answer : Status) : List Outcome :=
  match t.pc with
  | .looking => refusals (.refused .stop name) (runtime.getComponentState name)
  | .stopping => refusals (.refused .stop name) (runtime.stopComponent name)
  | .inStop => [⟨.callback .stop name, answer⟩]
  | .lookingAgain => []
  | .shuttingDown => refusals (.refused .shutdown name) (runtime.shutdownComponent name)
  | .inShutdown => [⟨.callback .shutdown name, answer⟩]

def tearAnswered (app : Application) (t : TearDown) (runtime : RuntimeContext) (answer : Status) : List Outcome :=
  match t.index with
  | 0 => []
  | k + 1 => (app.components[k]?.map fun name => t.answered runtime name answer).getD []

theorem tearAnswered_done {app : Application} {t : TearDown} {runtime : RuntimeContext} {answer : Status} (h : t.index = 0) :
    tearAnswered app t runtime answer = [] := by
  rw [tearAnswered, h]

theorem tearAnswered_at {app : Application} {t : TearDown} {runtime : RuntimeContext} {answer : Status} {k : Nat} {name : Name}
    (h : t.index = k + 1) (hname : app.components[k]? = some name) :
    tearAnswered app t runtime answer = t.answered runtime name answer := by
  rw [tearAnswered, h]
  dsimp only
  rw [hname]
  rfl

def startAnswered (app : Application) (s : State) (answer : Status) : List Outcome :=
  match s.start with
  | .calling index step =>
    (app.components[index]?.map fun name => refusals (.refused step.callback name) (step.call s.runtime name)).getD []
  | .inCallback index step =>
    (app.components[index]?.map fun name => (⟨.callback step.callback name, answer⟩ : Outcome)).toList
  | .schedulerStarting => [⟨.schedulerStart, answer⟩]
  | .tearingDown _ t => tearAnswered app t s.runtime answer
  | .idle | .failing _ | .succeeding | .returned _ => []

def stopAnswered (app : Application) (s : State) (answer : Status) : List Outcome :=
  match s.stop with
  | .stoppingScheduler => [⟨.schedulerStop, answer⟩]
  | .tearingDown _ _ t => tearAnswered app t s.runtime answer
  | .closing _ _ => [⟨.close, answer⟩]
  | .idle | .draining | .returned _ _ => []

/-- What a move of `Start` or `Stop` is answered, before it goes on from there. -/
def answered (app : Application) (s : State) : Move → List Outcome
  | .start answer => startAnswered app s answer
  | .stop answer => stopAnswered app s answer
  | .execute _ | .executed _ _ => []

/-- The answers of a run, in their order. -/
def answersOf (app : Application) (moves : List Move) : List Outcome :=
  collect (step app) (answered app) (initial app) moves

/-! ## Interference -/

/-- What an `Execute` may do beside the threads of `Start` and `Stop`. -/
structure Interferes (before after : RuntimeContext) : Prop where
  lifecycle : lifecycle after = lifecycle before
  states : ∀ name, after.states name = before.states name
    ∨ (before.states name).isSome = true ∧ after.states name = some .error

def Alive (runtime : RuntimeContext) (name : Name) : Prop :=
  ∃ state, runtime.states name = some state ∧ state ≠ .shutdown

def NotStarted (runtime : RuntimeContext) (name : Name) : Prop := runtime.states name ≠ some .started

theorem Alive.interferes {before after : RuntimeContext} {name : Name} (h : Alive before name)
    (hi : Interferes before after) : Alive after name := by
  obtain ⟨state, hstate, hne⟩ := h
  rcases hi.states name with hsame | ⟨-, herror⟩
  · exact ⟨state, hsame.trans hstate, hne⟩
  · exact ⟨.error, herror, by decide⟩

theorem NotStarted.interferes {before after : RuntimeContext} {name : Name} (h : NotStarted before name)
    (hi : Interferes before after) : NotStarted after name := by
  unfold NotStarted at h ⊢
  rcases hi.states name with hsame | ⟨-, herror⟩
  · rwa [hsame]
  · rw [herror]
    decide

theorem executeComponent_interferes {runtime runtime' : RuntimeContext} {name : Name}
    (h : runtime.executeComponent name = .ok runtime') : Interferes runtime runtime' := by
  unfold RuntimeContext.executeComponent at h
  cases hbegin : RuntimeContext.begin "execute" .execute [.started] runtime name with
  | error status => rw [hbegin] at h; cases h
  | ok begun =>
    rw [hbegin] at h
    obtain ⟨state, -, -, rfl⟩ := RuntimeContext.begin_ok hbegin
    cases h
    exact ⟨by simp [lifecycle], fun _ => .inl rfl⟩

theorem componentExecuted_interferes (runtime : RuntimeContext) (name : Name) (answer : Status) :
    Interferes runtime (runtime.componentExecuted name answer) := by
  unfold RuntimeContext.componentExecuted
  dsimp only
  split
  · exact ⟨rfl, fun _ => .inl rfl⟩
  · refine ⟨by simp [lifecycle], fun other => ?_⟩
    rcases RuntimeContext.setComponentState_cases with hsame | ⟨-, hsome, hset⟩
    · exact .inl hsame
    · exact .inr ⟨hsome, hset⟩

/-! ## Teardown -/

/-- The calls of the component being torn down that have been made so far. -/
def PartDown (runtime : RuntimeContext) (name : Name) : TearPc → List Call → Prop
  | .looking, part | .stopping, part => part = []
  | .inStop, part => part = [⟨.stop, name, .started⟩]
  | .lookingAgain, part | .shuttingDown, part =>
    NotStarted runtime name ∧ (part = [] ∨ part = [⟨.stop, name, .started⟩])
  | .inShutdown, part => ComponentDown name part

/-- The callback that has not answered yet. -/
def TearPc.asking (name : Name) : TearPc → List Asked
  | .inStop => [.callback .stop name]
  | .inShutdown => [.callback .shutdown name]
  | .looking | .stopping | .lookingAgain | .shuttingDown => []

/-- `first` is the first of the errors met. -/
def KeepsFirst (first : Status) (failures : List Status) : Prop :=
  first = failures.headD .ok ∧ ∀ failure ∈ failures, failure.isOk = false

theorem error_not_ok {status : Status} {message : Bytes} (h : status.isOk = false) :
    (Status.error status.code message).isOk = false := by
  have hcode : status.code ≠ .ok := by simpa [Status.isOk] using h
  simp [Status.error, hcode, Status.isOk]

theorem KeepsFirst.isOk {first : Status} {failures : List Status} (h : KeepsFirst first failures) :
    first.isOk = failures.isEmpty := by
  obtain ⟨rfl, hfail⟩ := h
  cases failures with
  | nil => rfl
  | cons failure rest => exact hfail failure (List.mem_cons_self ..)

/-- The error that is kept when more errors follow. -/
theorem KeepsFirst.append {first later : Status} {failures more : List Status} (h : KeepsFirst first failures)
    (hmore : KeepsFirst later more) : KeepsFirst (if first.isOk then later else first) (failures ++ more) := by
  rw [h.isOk]
  refine ⟨?_, fun failure hf => (List.mem_append.mp hf).elim (h.2 failure) (hmore.2 failure)⟩
  cases failures with
  | nil => exact hmore.1
  | cons failure rest => exact h.1

theorem KeepsFirst.one {failure : Status} (h : failure.isOk = false) : KeepsFirst failure [failure] :=
  ⟨rfl, by simpa using h⟩

/-- `count` components were reached by the calls `up`, and are being torn down; `downs` are the answers since. -/
structure Tearing (app : Application) (count : Nat) (up : List Call) (runtime : RuntimeContext) (t : TearDown)
    (downs : List Outcome) : Prop where
  bound : t.index ≤ count
  known : count ≤ app.components.length
  alive : ∀ name ∈ app.components.take t.index, Alive runtime name
  down : ∀ name ∈ app.components.drop t.index, NotStarted runtime name
  trace : ∃ done part, TornDown ((app.components.take count).drop t.index).reverse done
    ∧ (t.index = 0 → part = [] ∧ made downs = done.map askedOf)
    ∧ (∀ k name, t.index = k + 1 → app.components[k]? = some name →
      PartDown runtime name t.pc part ∧ made downs ++ t.pc.asking name = (done ++ part).map askedOf)
    ∧ lifecycle runtime = up ++ done ++ part
  first : KeepsFirst t.first t.failures
  failures : t.failures = errorsOf downs

variable {app : Application} {count : Nat} {up : List Call} {runtime : RuntimeContext} {t : TearDown}
  {downs said : List Outcome}

theorem Tearing.interferes {after : RuntimeContext} (h : Tearing app count up runtime t downs)
    (hi : Interferes runtime after) : Tearing app count up after t downs := by
  obtain ⟨done, part, hdone, hzero, hpart, hcalls⟩ := h.trace
  refine ⟨h.bound, h.known, fun name hn => (h.alive name hn).interferes hi,
    fun name hn => (h.down name hn).interferes hi, ⟨done, part, hdone, hzero, fun k name hk hname => ?_, ?_⟩, h.first,
    h.failures⟩
  · obtain ⟨hp, hmade⟩ := hpart k name hk hname
    refine ⟨?_, hmade⟩
    cases hpc : t.pc with
    | lookingAgain | shuttingDown =>
      rw [hpc] at hp
      exact ⟨hp.1.interferes hi, hp.2⟩
    | looking | stopping | inStop | inShutdown => rwa [hpc] at hp
  · exact hi.lifecycle.trans hcalls

theorem tearing_entry (hknown : count ≤ app.components.length)
    (halive : ∀ name ∈ app.components.take count, Alive runtime name)
    (hdown : ∀ name ∈ app.components.drop count, NotStarted runtime name) (hcalls : lifecycle runtime = up) :
    Tearing app count up runtime (.entry count) [] := by
  refine ⟨Nat.le_refl _, hknown, halive, hdown,
    ⟨[], [], ?_, fun _ => ⟨rfl, rfl⟩, fun _ _ _ _ => ⟨rfl, rfl⟩, by simpa using hcalls⟩, ⟨rfl, by simp [TearDown.entry]⟩, rfl⟩
  have hempty : (app.components.take count).drop count = [] := by simp
  simp only [TearDown.entry, hempty]
  exact TornDown.nil

theorem record_index (t : TearDown) (name : Name) (step : String) (status : Status) :
    (t.record name step status).index = t.index := by
  unfold TearDown.record
  split <;> rfl

theorem record_first (h : KeepsFirst t.first t.failures) (name : Name) (step : String) (status : Status) :
    KeepsFirst (t.record name step status).first (t.record name step status).failures := by
  unfold TearDown.record
  split
  · exact h
  · rename_i hstatus
    exact h.append (.one (error_not_ok (by simpa using hstatus)))

/-- The error that is recorded is the one of the answer. -/
theorem record_failures (h : t.failures = errorsOf downs) (asked : Asked) {name : Name} {label : String} {status : Status}
    (hasked : (⟨asked, status⟩ : Outcome).error = componentError name label status) :
    (t.record name label status).failures = errorsOf (downs ++ [⟨asked, status⟩]) := by
  rw [errorsOf_append, ← h]
  unfold TearDown.record
  cases hok : status.isOk with
  | true => simp [errorsOf, hok]
  | false => simp [errorsOf, hok, hasked]

section Step

variable {k : Nat} {name : Name} {after : RuntimeContext} {t' : TearDown}

/-- A step that stays at the component. -/
theorem Tearing.stay (h : Tearing app count up runtime t downs) (hk : t.index = k + 1)
    (hname : app.components[k]? = some name) (hindex : t'.index = t.index) (hfirst : KeepsFirst t'.first t'.failures)
    (hfailures : t'.failures = errorsOf (downs ++ said))
    (halive : ∀ other, Alive runtime other → Alive after other)
    (hdown : ∀ other, NotStarted runtime other → NotStarted after other)
    (hpart : ∀ part, PartDown runtime name t.pc part →
      ∃ new, PartDown after name t'.pc (part ++ new) ∧ lifecycle after = lifecycle runtime ++ new
        ∧ made said ++ t'.pc.asking name = t.pc.asking name ++ new.map askedOf) :
    Tearing app count up after t' (downs ++ said) := by
  obtain ⟨done, part, hdone, -, hcurrent, hcalls⟩ := h.trace
  obtain ⟨hsofar, hmade⟩ := hcurrent k name hk hname
  obtain ⟨new, hnew, hmore, hsaid⟩ := hpart part hsofar
  refine ⟨hindex ▸ h.bound, h.known, fun other ho => halive other (h.alive other (hindex ▸ ho)),
    fun other ho => hdown other (h.down other (hindex ▸ ho)),
    ⟨done, part ++ new, by rw [hindex]; exact hdone, fun hzero => by omega, fun k' name' hk' hname' => ?_, ?_⟩, hfirst,
    hfailures⟩
  · obtain rfl : k' = k := by omega
    obtain rfl : name' = name := Option.some.inj (hname'.symm.trans hname)
    refine ⟨hnew, ?_⟩
    rw [made_append, List.append_assoc, hsaid, ← List.append_assoc, hmade, ← List.map_append, List.append_assoc]
  · rw [hmore, hcalls, List.append_assoc _ part new]

/-- A step that makes no callback and writes no state. -/
theorem Tearing.move (h : Tearing app count up runtime t downs) (hk : t.index = k + 1)
    (hname : app.components[k]? = some name) (hindex : t'.index = t.index) (hfirst : KeepsFirst t'.first t'.failures)
    (hfailures : t'.failures = errorsOf (downs ++ said))
    (hsaid : made said ++ t'.pc.asking name = t.pc.asking name)
    (hpart : ∀ part, PartDown runtime name t.pc part → PartDown runtime name t'.pc part) :
    Tearing app count up runtime t' (downs ++ said) := by
  refine h.stay hk hname hindex hfirst hfailures (fun _ => id) (fun _ => id) fun part hp => ⟨[], ?_, ?_, ?_⟩
  · rw [List.append_nil]
    exact hpart part hp
  · rw [List.append_nil]
  · rw [hsaid, List.map_nil, List.append_nil]

/-- A callback that is made. -/
theorem Tearing.called {callback : Runtime.Callback} {state : ComponentState} (h : Tearing app count up runtime t downs)
    (hk : t.index = k + 1) (hname : app.components[k]? = some name) (hcallback : callback ≠ .execute) {pc : TearPc}
    (hasking : pc.asking name = t.pc.asking name ++ [.callback callback name])
    (hpart : ∀ part, PartDown runtime name t.pc part → PartDown runtime name pc (part ++ [⟨callback, name, state⟩])) :
    Tearing app count up { runtime with calls := runtime.calls ++ [⟨callback, name, state⟩] } (t.goto pc) (downs ++ []) := by
  refine h.stay hk hname rfl h.first ?_ (fun _ => id) (fun _ => id) fun part hp => ⟨[⟨callback, name, state⟩], ?_, ?_, hasking⟩
  · rw [List.append_nil]
    exact h.failures
  · have hnew := hpart part hp
    cases pc <;> exact hnew
  · simp [lifecycle, hcallback]

/-- A step that is the component's last. -/
theorem Tearing.leave (h : Tearing app count up runtime t downs) (hk : t.index = k + 1)
    (hname : app.components[k]? = some name) (hindex : t'.index = k) (hpc : t'.pc = .looking)
    (hfirst : KeepsFirst t'.first t'.failures) (hfailures : t'.failures = errorsOf (downs ++ said))
    (hsaid : made said = t.pc.asking name)
    (halive : ∀ other, other ≠ name → Alive runtime other → Alive after other)
    (hdown : ∀ other, NotStarted runtime other → NotStarted after other) (hgone : NotStarted after name)
    (hpart : ∀ part, PartDown runtime name t.pc part → ComponentDown name part)
    (hcalls : lifecycle after = lifecycle runtime) : Tearing app count up after t' (downs ++ said) := by
  obtain ⟨done, part, hdone, -, hcurrent, hsofar⟩ := h.trace
  obtain ⟨hcomplete, hmade⟩ := hcurrent k name hk hname
  rw [← hsaid, ← made_append] at hmade
  have hlt : k < count := by have := h.bound; omega
  obtain ⟨hlen, hget⟩ := List.getElem?_eq_some_iff.mp hname
  have hdropAll : app.components.drop k = name :: app.components.drop (k + 1) := by
    rw [List.drop_eq_getElem_cons hlen, hget]
  have hdrop : (app.components.take count).drop k = name :: (app.components.take count).drop (k + 1) := by
    have htake : k < (app.components.take count).length := by
      rw [List.length_take]
      omega
    rw [List.drop_eq_getElem_cons htake, List.getElem_take, hget]
  rw [hk] at hdone
  have hfresh : ∀ other ∈ app.components.take k, other ≠ name := by
    rintro other ho rfl
    have hnodup := app.components_nodup
    rw [← List.take_append_drop k app.components, hdropAll, List.nodup_append] at hnodup
    exact hnodup.2.2 other ho other (List.mem_cons_self ..) rfl
  refine ⟨by omega, h.known, fun other ho => ?_, fun other ho => ?_,
    ⟨done ++ part, [], ?_, fun _ => ⟨rfl, hmade⟩, fun _ _ _ _ => ⟨by rw [hpc]; rfl, ?_⟩, ?_⟩, hfirst, hfailures⟩
  · rw [hindex] at ho
    refine halive other (hfresh other ho) (h.alive other ?_)
    rw [hk]
    exact List.mem_of_mem_take (i := k) (by rwa [List.take_take, Nat.min_eq_left (Nat.le_succ k)])
  · rw [hindex, hdropAll] at ho
    rcases List.mem_cons.mp ho with rfl | ho
    · exact hgone
    · exact hdown other (h.down other (by rwa [hk]))
  · rw [hindex, hdrop, List.reverse_cons]
    exact hdone.snoc (hpart part hcomplete)
  · rw [hpc, List.append_nil]
    exact (List.append_nil _).trans hmade
  · rw [hcalls, hsofar, List.append_assoc, List.append_assoc, List.append_nil]

theorem getComponentState_some {state : ComponentState} (h : runtime.states name = some state) :
    runtime.getComponentState name = .ok state := by
  unfold RuntimeContext.getComponentState
  rw [h]

section Finish

variable {next : ComponentState} {answer : Status}

theorem finish_lifecycle : lifecycle (RuntimeContext.finish next runtime name answer) = lifecycle runtime := by
  unfold lifecycle RuntimeContext.finish
  rw [RuntimeContext.setComponentState_calls]

theorem finish_other {other : Name} (h : other ≠ name) :
    (RuntimeContext.finish next runtime name answer).states other = runtime.states other :=
  RuntimeContext.setComponentState_other h

theorem finish_alive_other {other : Name} (hne : other ≠ name) (h : Alive runtime other) :
    Alive (RuntimeContext.finish next runtime name answer) other := by
  obtain ⟨state, hstate, hshut⟩ := h
  exact ⟨state, (finish_other hne).trans hstate, hshut⟩

theorem finish_alive {other : Name} (hnext : next ≠ .shutdown) (h : Alive runtime other) :
    Alive (RuntimeContext.finish next runtime name answer) other := by
  by_cases hne : other = name
  · subst hne
    obtain ⟨state, hstate, -⟩ := h
    refine ⟨_, RuntimeContext.setComponentState_self (by rw [hstate]; rfl), ?_⟩
    split
    · exact hnext
    · decide
  · exact finish_alive_other hne h

/-- The answer to a callback other than `Start` leaves the component in another state. -/
theorem finish_notStarted (hnext : next ≠ .started) (h : (runtime.states name).isSome = true) :
    NotStarted (RuntimeContext.finish next runtime name answer) name := by
  unfold NotStarted RuntimeContext.finish
  rw [RuntimeContext.setComponentState_self h]
  split
  · exact fun heq => hnext (Option.some.inj heq)
  · decide

theorem finish_notStarted_other {other : Name} (hnext : next ≠ .started) (h : NotStarted runtime other) :
    NotStarted (RuntimeContext.finish next runtime name answer) other := by
  by_cases hne : other = name
  · subst hne
    by_cases hsome : (runtime.states other).isSome = true
    · exact finish_notStarted hnext hsome
    · unfold RuntimeContext.finish RuntimeContext.setComponentState
      rwa [if_neg hsome]
  · unfold NotStarted
    rwa [finish_other hne]

end Finish

theorem shutdownComponent_of_alive {state : ComponentState} (hstate : runtime.states name = some state)
    (hshut : state ≠ .shutdown) (hstarted : state ≠ .started) :
    runtime.shutdownComponent name = .ok { runtime with calls := runtime.calls ++ [⟨.shutdown, name, state⟩] } := by
  refine RuntimeContext.begin_of_allowed hstate ?_
  cases state <;> simp at hshut hstarted ⊢

/-- The loop stays at a component until it has been shut down, once. -/
theorem tearing_step (h : Tearing app count up runtime t downs) (hk : t.index = k + 1)
    (hname : app.components[k]? = some name) (answer : Status) :
    Tearing app count up (t.step runtime name answer).1 (t.step runtime name answer).2
      (downs ++ t.answered runtime name answer) := by
  have hmem : name ∈ app.components.take t.index := by
    rw [hk, List.take_add_one, hname]
    simp
  obtain ⟨state, hstate, hshut⟩ := h.alive name hmem
  have hsome : (runtime.states name).isSome = true := by rw [hstate]; rfl
  have hsame : t.failures = errorsOf (downs ++ []) := by
    rw [List.append_nil]
    exact h.failures
  unfold TearDown.step TearDown.answered
  cases hpc : t.pc with
  | looking =>
    rw [getComponentState_some hstate]
    by_cases hstarted : state = .started
    · subst hstarted
      exact h.move hk hname rfl h.first hsame (by rw [hpc]; rfl) fun part hpart => by rwa [hpc] at hpart
    · have hgoto : Tearing app count up runtime (t.goto .shuttingDown) (downs ++ []) := by
        refine h.move hk hname rfl h.first hsame (by rw [hpc]; rfl) fun part hpart => ?_
        rw [hpc] at hpart
        exact ⟨fun heq => hstarted (Option.some.inj (hstate.symm.trans heq)), .inl hpart⟩
      cases state with
      | started => exact absurd rfl hstarted
      | shutdown => exact absurd rfl hshut
      | created | configured | initialized | stopped | error => exact hgoto
  | stopping =>
    by_cases hstarted : state = .started
    · subst hstarted
      have hcall : runtime.stopComponent name = .ok _ := RuntimeContext.begin_of_allowed hstate (by decide)
      simp only [hcall]
      refine h.called hk hname (by decide) (by rw [hpc]; rfl) fun part hpart => ?_
      rw [hpc] at hpart
      rw [show part = [] from hpart]
      rfl
    · have hrefused : runtime.stopComponent name = .error (Runtime.invalidTransition name "stop" state) := by
        unfold RuntimeContext.stopComponent RuntimeContext.begin
        simp only [hstate, List.mem_singleton, if_neg hstarted]
      simp only [hrefused]
      refine h.move hk hname (record_index ..) (record_first h.first ..)
        (record_failures h.failures (.refused .stop name) rfl) (by rw [hpc]; rfl) fun part hpart => ?_
      rw [hpc] at hpart
      exact ⟨fun heq => hstarted (Option.some.inj (hstate.symm.trans heq)), .inl hpart⟩
  | inStop =>
    refine h.stay hk hname (record_index ..) (record_first h.first ..)
      (record_failures h.failures (.callback .stop name) rfl) (fun _ => finish_alive (by decide))
      (fun _ => finish_notStarted_other (by decide)) fun part hpart => ⟨[], ?_, ?_, ?_⟩
    · rw [hpc] at hpart
      rw [List.append_nil]
      exact ⟨finish_notStarted (by decide) hsome, .inr hpart⟩
    · rw [List.append_nil]
      exact finish_lifecycle
    · rw [hpc]
      rfl
  | lookingAgain =>
    rw [getComponentState_some hstate]
    have hgoto : Tearing app count up runtime (t.goto .shuttingDown) (downs ++ []) :=
      h.move hk hname rfl h.first hsame (by rw [hpc]; rfl) fun part hpart => by rwa [hpc] at hpart
    cases state with
    | shutdown => exact absurd rfl hshut
    | created | configured | initialized | started | stopped | error => exact hgoto
  | shuttingDown =>
    have hstarted : state ≠ .started := by
      obtain ⟨done, part, -, -, hcurrent, -⟩ := h.trace
      have hpart := (hcurrent k name hk hname).1
      rw [hpc] at hpart
      rintro rfl
      exact hpart.1 hstate
    simp only [shutdownComponent_of_alive hstate hshut hstarted]
    refine h.called hk hname (by decide) (by rw [hpc]; rfl) fun part hpart => ⟨state, hstarted, ?_⟩
    rw [hpc] at hpart
    rcases hpart.2 with rfl | rfl
    · exact .inl rfl
    · exact .inr rfl
  | inShutdown =>
    refine h.leave hk hname ?_ rfl (record_first h.first ..)
      (record_failures h.failures (.callback .shutdown name) rfl) (by rw [hpc]; rfl) (fun _ => finish_alive_other)
      (fun _ => finish_notStarted_other (by decide)) (finish_notStarted (by decide) hsome)
      (fun part hpart => ?_) finish_lifecycle
    · simp only [TearDown.next, record_index, hk, Nat.add_sub_cancel]
    · rwa [hpc] at hpart

/-- The steps a teardown has still to make, at most. -/
def TearDown.left (t : TearDown) : Nat :=
  6 * t.index + match t.pc with
    | .looking => 5
    | .stopping => 4
    | .inStop => 3
    | .lookingAgain => 2
    | .shuttingDown => 1
    | .inShutdown => 0

theorem tearDown_left (hk : t.index = k + 1) (runtime : RuntimeContext) (name : Name) (answer : Status) :
    (t.step runtime name answer).2.left < t.left := by
  have hnext : ∀ t' : TearDown, t'.index = k + 1 → t'.next.left < 6 * (k + 1) := by
    intro t' ht'
    simp only [TearDown.left, TearDown.next, ht', Nat.add_sub_cancel]
    omega
  have hrecord := fun step status => (record_index t name step status).trans hk
  have hleft : 6 * (k + 1) ≤ t.left := by
    rw [TearDown.left, hk]
    exact Nat.le_add_right ..
  cases hpc : t.pc with
  | looking =>
    simp only [TearDown.step, hpc]
    split
    · exact Nat.lt_of_lt_of_le (hnext _ (hrecord ..)) hleft
    · simp [TearDown.left, TearDown.goto, hpc]
    · exact Nat.lt_of_lt_of_le (hnext _ hk) hleft
    · simp [TearDown.left, TearDown.goto, hpc]
  | stopping =>
    simp only [TearDown.step, hpc]
    split <;> simp [TearDown.left, TearDown.goto, hpc, record_index]
  | inStop => simp [TearDown.step, hpc, TearDown.left, TearDown.goto, record_index]
  | lookingAgain =>
    simp only [TearDown.step, hpc]
    split
    · exact Nat.lt_of_lt_of_le (hnext _ hk) hleft
    · exact Nat.lt_of_lt_of_le (hnext _ hk) hleft
    · simp [TearDown.left, TearDown.goto, hpc]
  | shuttingDown =>
    simp only [TearDown.step, hpc]
    split
    · exact Nat.lt_of_lt_of_le (hnext _ (hrecord ..)) hleft
    · simp [TearDown.left, TearDown.goto, hpc]
  | inShutdown =>
    simp only [TearDown.step, hpc]
    exact Nat.lt_of_lt_of_le (hnext _ (hrecord ..)) hleft

theorem Tearing.component (h : Tearing app count up runtime t downs) (hk : t.index = k + 1) :
    ∃ name, app.components[k]? = some name := by
  have := h.bound
  have := h.known
  exact ⟨_, List.getElem?_eq_getElem (by omega)⟩

end Step

/-! ## Where the threads stand -/

structure Bringing (app : Application) (index : Nat) (step : BringUp) (runtime : RuntimeContext) : Prop where
  started : ∀ name ∈ app.components.take index, runtime.states name = some .started
  current : ∀ name, app.components[index]? = some name → runtime.states name = some step.before
  waiting : ∀ name ∈ app.components.drop (index + 1), runtime.states name = some .created
  quiet : runtime.executing = []

structure Up (app : Application) (runtime : RuntimeContext) : Prop where
  calls : lifecycle runtime = broughtUp app.components
  alive : ∀ name ∈ app.components, Alive runtime name

/-- All that was asked answered Ok, and these are the callbacks of `up`. -/
structure Succeeded (up : List Call) (outcomes : List Outcome) : Prop where
  callbacks : made outcomes = up.map askedOf
  ok : ∀ outcome ∈ outcomes, outcome.answer.isOk = true

/-- `Start` has asked all that it asks, and every answer was Ok. -/
def Risen (app : Application) (outcomes : List Outcome) : Prop :=
  ∃ ups answer, outcomes = ups ++ [⟨.schedulerStart, answer⟩] ∧ Succeeded (broughtUp app.components) outcomes

/-- `count` components were reached by the calls `up`, and have been torn down; `downs` are the answers since. -/
def Down (app : Application) (count : Nat) (up : List Call) (runtime : RuntimeContext) (downs : List Outcome) : Prop :=
  (∃ down, lifecycle runtime = up ++ down ∧ TornDown (app.components.take count).reverse down
      ∧ made downs = down.map askedOf)
    ∧ ∀ name ∈ app.components, NotStarted runtime name

/--
How far a `Start` that fails gets: every callback before the last of `up` answers Ok, and the last one fails; or all
answer Ok, and the scheduler fails. `ups` are these answers, and `failure` reports the last one.
-/
def FailsAfter (app : Application) (failure : Status) (count : Nat) (up : List Call) (ups : List Outcome) : Prop :=
  ∃ met last, ups = met ++ [last] ∧ (∀ outcome ∈ met, outcome.answer.isOk = true) ∧ last.answer.isOk = false
    ∧ failure = last.error ∧ made ups = up.map askedOf
    ∧ ((∃ index name step, app.components[index]? = some name ∧ last.asked = .callback (BringUp.callback step) name
        ∧ count = index + 1 ∧ up = broughtUp (app.components.take index) ++ BringUp.callsThrough step name)
      ∨ last.asked = .schedulerStart ∧ count = app.components.length ∧ up = broughtUp app.components)

theorem FailsAfter.isOk {failure : Status} {ups : List Outcome} (h : FailsAfter app failure count up ups) :
    failure.isOk = false := by
  obtain ⟨met, last, -, -, hfail, rfl, -⟩ := h
  unfold Outcome.error
  split <;> exact error_not_ok hfail

/-- `Stop` has not found the application running. -/
def AtRest (stop : StopPc) : Prop := stop = .idle ∨ stop = .returned .ok []

/-- `Start` has brought everything up and returned. -/
def StopLife (app : Application) (s : State) (outcomes : List Outcome) : Prop :=
  match s.stop with
  | .idle => s.phase = .running ∧ s.scheduler = .running ∧ Up app s.runtime ∧ Risen app outcomes
  | .stoppingScheduler => s.phase = .stopped ∧ s.scheduler = .running ∧ Up app s.runtime ∧ Risen app outcomes
  | .draining =>
    s.phase = .stopped ∧ s.scheduler = .draining ∧ Up app s.runtime
      ∧ ∃ risen answer, Risen app risen ∧ answer.isOk = true ∧ outcomes = risen ++ [⟨.schedulerStop, answer⟩]
  | .tearingDown first failures t =>
    s.phase = .stopped ∧ KeepsFirst first failures
      ∧ ∃ risen answer downs, Risen app risen ∧ outcomes = risen ++ ⟨.schedulerStop, answer⟩ :: downs
        ∧ failures = errorsOf [⟨.schedulerStop, answer⟩]
        ∧ Tearing app app.components.length (broughtUp app.components) s.runtime t downs
  | .closing first failures =>
    s.phase = .stopped ∧ KeepsFirst first failures
      ∧ ∃ risen answer downs, Risen app risen ∧ outcomes = risen ++ ⟨.schedulerStop, answer⟩ :: downs
        ∧ failures = errorsOf (⟨.schedulerStop, answer⟩ :: downs)
        ∧ Down app app.components.length (broughtUp app.components) s.runtime downs
  | .returned status failures =>
    KeepsFirst status failures
      ∧ (s.phase = .running ∧ s.scheduler = .running ∧ Up app s.runtime ∧ Risen app outcomes
        ∨ s.phase = .stopped ∧ ∃ risen answer downs closed, Risen app risen
          ∧ outcomes = risen ++ ⟨.schedulerStop, answer⟩ :: downs ++ [⟨.close, closed⟩]
          ∧ Down app app.components.length (broughtUp app.components) s.runtime downs)

/-- Nothing runs: `Start` has not reached the scheduler, or has failed. -/
def Idle (s : State) : Prop := s.scheduler = .idle ∧ s.phase ≠ .running ∧ AtRest s.stop

def Life (app : Application) (s : State) (outcomes : List Outcome) : Prop :=
  match s.start with
  | .idle =>
    Idle s ∧ (s.phase = .stopped → s.stop ≠ .idle) ∧ s.runtime = .registered app.components ∧ outcomes = []
  | .calling index step =>
    Idle s ∧ Bringing app index step s.runtime
      ∧ lifecycle s.runtime
        = broughtUp (app.components.take index) ++ app.components[index]?.toList.flatMap step.callsBefore
      ∧ Succeeded (lifecycle s.runtime) outcomes
  | .inCallback index step =>
    Idle s ∧ Bringing app index step s.runtime
      ∧ ∃ name, app.components[index]? = some name
        ∧ lifecycle s.runtime = broughtUp (app.components.take index) ++ step.callsThrough name
        ∧ Succeeded (broughtUp (app.components.take index) ++ step.callsBefore name) outcomes
  | .schedulerStarting =>
    s.scheduler = .starting ∧ s.phase ≠ .running ∧ AtRest s.stop ∧ Up app s.runtime
      ∧ Succeeded (broughtUp app.components) outcomes
  | .tearingDown failure t =>
    Idle s ∧ ∃ count up ups downs, FailsAfter app failure count up ups ∧ outcomes = ups ++ downs
      ∧ Tearing app count up s.runtime t downs
  | .failing failure =>
    Idle s ∧ ∃ count up ups downs, FailsAfter app failure count up ups ∧ outcomes = ups ++ downs
      ∧ Down app count up s.runtime downs
  | .succeeding => s.scheduler = .running ∧ s.phase ≠ .running ∧ AtRest s.stop ∧ Up app s.runtime ∧ Risen app outcomes
  | .returned status =>
    if status.isOk then StopLife app s outcomes
    else
      Idle s ∧ s.phase = .stopped
        ∧ (status = alreadyStopped ∧ s.stop ≠ .idle ∧ lifecycle s.runtime = [] ∧ outcomes = []
            ∧ (∀ name ∈ app.components, NotStarted s.runtime name)
          ∨ ∃ count up ups downs, FailsAfter app status count up ups ∧ outcomes = ups ++ downs
            ∧ Down app count up s.runtime downs)

theorem Tearing.done (h : Tearing app count up runtime t downs) (hzero : t.index = 0) :
    Down app count up runtime downs := by
  obtain ⟨done, part, hdone, hpart, -, hcalls⟩ := h.trace
  obtain ⟨hempty, hmade⟩ := hpart hzero
  rw [hzero, List.drop_zero] at hdone
  rw [hempty, List.append_nil] at hcalls
  exact ⟨⟨done, hcalls, hdone, hmade⟩, fun name hn => h.down name (by rwa [hzero, List.drop_zero])⟩

theorem Up.tearing (h : Up app runtime) :
    Tearing app app.components.length (broughtUp app.components) runtime (.entry app.components.length) [] :=
  tearing_entry (Nat.le_refl _) (fun name hn => h.alive name (List.mem_of_mem_take hn))
    (fun name hn => by simp at hn) h.calls

theorem Up.interferes {after : RuntimeContext} (h : Up app runtime) (hi : Interferes runtime after) : Up app after :=
  ⟨hi.lifecycle.trans h.calls, fun name hn => (h.alive name hn).interferes hi⟩

theorem Down.interferes {after : RuntimeContext} (h : Down app count up runtime downs) (hi : Interferes runtime after) :
    Down app count up after downs := by
  obtain ⟨⟨down, hcalls, hdown, hmade⟩, hnone⟩ := h
  exact ⟨⟨down, hi.lifecycle.trans hcalls, hdown, hmade⟩, fun name hn => (hnone name hn).interferes hi⟩

/-! ## The workers of the scheduler -/

variable {s : State} {outcomes : List Outcome}

theorem stopLife_interferes {after : RuntimeContext} (h : StopLife app s outcomes) (hi : Interferes s.runtime after) :
    StopLife app { s with runtime := after } outcomes := by
  unfold StopLife at h ⊢
  dsimp only
  cases hstop : s.stop with
  | idle | stoppingScheduler | draining =>
    rw [hstop] at h
    exact ⟨h.1, h.2.1, h.2.2.1.interferes hi, h.2.2.2⟩
  | tearingDown first failures t =>
    rw [hstop] at h
    obtain ⟨hphase, hfirst, risen, answer, downs, hrisen, hall, hfailures, htear⟩ := h
    exact ⟨hphase, hfirst, risen, answer, downs, hrisen, hall, hfailures, htear.interferes hi⟩
  | closing first failures =>
    rw [hstop] at h
    obtain ⟨hphase, hfirst, risen, answer, downs, hrisen, hall, hfailures, hdown⟩ := h
    exact ⟨hphase, hfirst, risen, answer, downs, hrisen, hall, hfailures, hdown.interferes hi⟩
  | returned status failures =>
    rw [hstop] at h
    obtain ⟨hfirst, ⟨hphase, hsched, hup, hrisen⟩ | ⟨hphase, risen, answer, downs, closed, hrisen, hall, hdown⟩⟩ := h
    · exact ⟨hfirst, .inl ⟨hphase, hsched, hup.interferes hi, hrisen⟩⟩
    · exact ⟨hfirst, .inr ⟨hphase, risen, answer, downs, closed, hrisen, hall, hdown.interferes hi⟩⟩

theorem life_interferes {after : RuntimeContext} (h : Life app s outcomes) (hi : Interferes s.runtime after)
    (hbusy : s.scheduler ≠ .idle ∨ s.runtime.executing ≠ []) : Life app { s with runtime := after } outcomes := by
  unfold Life at h ⊢
  dsimp only
  cases hstart : s.start with
  | idle =>
    rw [hstart] at h
    have hquiet : s.runtime.executing = [] := by rw [h.2.2.1]; rfl
    exact hbusy.elim (absurd h.1.1) (absurd hquiet)
  | calling index step =>
    rw [hstart] at h
    exact hbusy.elim (absurd h.1.1) (absurd h.2.1.quiet)
  | inCallback index step =>
    rw [hstart] at h
    exact hbusy.elim (absurd h.1.1) (absurd h.2.1.quiet)
  | schedulerStarting | succeeding =>
    rw [hstart] at h
    exact ⟨h.1, h.2.1, h.2.2.1, h.2.2.2.1.interferes hi, h.2.2.2.2⟩
  | tearingDown failure t =>
    rw [hstart] at h
    obtain ⟨hidle, count, up, ups, downs, hafter, hall, htear⟩ := h
    exact ⟨hidle, count, up, ups, downs, hafter, hall, htear.interferes hi⟩
  | failing failure =>
    rw [hstart] at h
    obtain ⟨hidle, count, up, ups, downs, hafter, hall, hdown⟩ := h
    exact ⟨hidle, count, up, ups, downs, hafter, hall, hdown.interferes hi⟩
  | returned status =>
    rw [hstart] at h
    dsimp only at h ⊢
    split at h
    · rename_i hok
      rw [if_pos hok]
      exact stopLife_interferes h hi
    · rename_i hok
      rw [if_neg hok]
      obtain ⟨hidle, hphase, ⟨hstatus, hstop, hnone, hall, hstates⟩ | ⟨count, up, ups, downs, hafter, hall, hdown⟩⟩ := h
      · have hstill := fun name hn => (hstates name hn).interferes hi
        exact ⟨hidle, hphase, .inl ⟨hstatus, hstop, hi.lifecycle.trans hnone, hall, hstill⟩⟩
      · exact ⟨hidle, hphase, .inr ⟨count, up, ups, downs, hafter, hall, hdown.interferes hi⟩⟩

/-! ## Start -/

section Start

variable {index : Nat} {step : BringUp} {name : Name} {answer : Status}

theorem bringing_registered : Bringing app 0 .configure (.registered app.components) := by
  have hcreated : ∀ name ∈ app.components,
      (RuntimeContext.registered app.components).states name = some .created := fun name hn => if_pos hn
  exact
    { started := fun name hn => by simp at hn
      current := fun name hn => hcreated name (List.mem_of_getElem? hn)
      waiting := fun name hn => hcreated name (List.mem_of_mem_drop hn)
      quiet := rfl }

theorem BringUp.callback_ne_execute : ∀ step : BringUp, step.callback ≠ .execute
  | .configure | .init | .start => by decide

theorem BringUp.call_ok (h : runtime.states name = some step.before) :
    step.call runtime name = .ok { runtime with calls := runtime.calls ++ [step.callOf name] } := by
  cases step with
  | configure | init | start => exact RuntimeContext.begin_of_allowed h List.mem_cons_self

theorem BringUp.finish_eq : step.finish runtime name answer = RuntimeContext.finish step.after runtime name answer := by
  cases step with
  | configure | init | start => rfl

theorem finish_self (next : ComponentState) (answer : Status) (h : (runtime.states name).isSome = true) :
    (RuntimeContext.finish next runtime name answer).states name = some (if answer.isOk then next else .error) :=
  RuntimeContext.setComponentState_self h

/-- The components before and after the one at `index` are others. -/
theorem ne_of_take_drop (hname : app.components[index]? = some name) :
    (∀ other ∈ app.components.take index, other ≠ name) ∧ ∀ other ∈ app.components.drop (index + 1), other ≠ name := by
  obtain ⟨hlen, hget⟩ := List.getElem?_eq_some_iff.mp hname
  have hnodup := app.components_nodup
  rw [← List.take_append_drop index app.components, List.drop_eq_getElem_cons hlen, hget, List.nodup_append,
    List.nodup_cons] at hnodup
  refine ⟨?_, ?_⟩
  · rintro other ho rfl
    exact hnodup.2.2 other ho other (List.mem_cons_self ..) rfl
  · rintro other ho rfl
    exact hnodup.2.1.1 ho

theorem Bringing.called {calls : List Call} (h : Bringing app index step runtime) :
    Bringing app index step { runtime with calls := calls } := ⟨h.started, h.current, h.waiting, h.quiet⟩

/-- The callback has succeeded. -/
theorem Bringing.next (h : Bringing app index step runtime) (hname : app.components[index]? = some name)
    (hok : answer.isOk = true) :
    Bringing app (step.next index).1 (step.next index).2 (step.finish runtime name answer) := by
  obtain ⟨hbefore, hafter⟩ := ne_of_take_drop hname
  have hself := finish_self step.after answer (by rw [h.current name hname]; rfl)
  rw [if_pos hok, ← BringUp.finish_eq] at hself
  have hstarted : ∀ other ∈ app.components.take index, (step.finish runtime name answer).states other = some .started := by
    intro other ho
    rw [BringUp.finish_eq, finish_other (hbefore other ho)]
    exact h.started other ho
  have hwaiting : ∀ other ∈ app.components.drop (index + 1),
      (step.finish runtime name answer).states other = some .created := by
    intro other ho
    rw [BringUp.finish_eq, finish_other (hafter other ho)]
    exact h.waiting other ho
  have hquiet : (step.finish runtime name answer).executing = [] := by
    rw [BringUp.finish_eq]
    exact RuntimeContext.setComponentState_executing.trans h.quiet
  have hcurrent : ∀ other, app.components[index]? = some other → other = name :=
    fun other ho => Option.some.inj (ho.symm.trans hname)
  cases step with
  | configure | init =>
    exact ⟨hstarted, fun other ho => by rw [hcurrent other ho]; exact hself, hwaiting, hquiet⟩
  | start =>
    refine ⟨fun other ho => ?_, fun other ho => ?_, fun other ho => ?_, hquiet⟩
    · rw [BringUp.next, List.take_add_one, hname] at ho
      rcases List.mem_append.mp ho with ho | ho
      · exact hstarted other ho
      · obtain rfl : other = name := by simpa using ho
        exact hself
    · have hdrop : (app.components.drop (index + 1))[0]? = some other := by
        rw [List.getElem?_drop]
        exact ho
      exact hwaiting other (List.mem_of_getElem? hdrop)
    · exact hwaiting other (List.mem_of_mem_drop (by rwa [BringUp.next, ← List.drop_drop] at ho))

theorem callsThrough_next (hname : app.components[index]? = some name) :
    broughtUp (app.components.take index) ++ step.callsThrough name
      = broughtUp (app.components.take (step.next index).1)
        ++ app.components[(step.next index).1]?.toList.flatMap (step.next index).2.callsBefore := by
  cases step with
  | configure | init =>
    simp only [BringUp.next, hname]
    rfl
  | start =>
    have hnone : ∀ names : List Name, names.flatMap BringUp.configure.callsBefore = [] := by
      intro names
      simp [BringUp.callsBefore]
    simp only [BringUp.next, hnone, List.take_add_one, hname, broughtUp]
    simp

/-- The callback has failed. -/
theorem Bringing.fails (h : Bringing app index step runtime) (hname : app.components[index]? = some name)
    (hfail : answer.isOk = false) :
    Tearing app (index + 1) (lifecycle runtime) (step.finish runtime name answer) (.entry (index + 1)) [] := by
  obtain ⟨hbefore, hafter⟩ := ne_of_take_drop hname
  obtain ⟨hlen, -⟩ := List.getElem?_eq_some_iff.mp hname
  have hself := finish_self step.after answer (by rw [h.current name hname]; rfl)
  rw [BringUp.finish_eq]
  refine tearing_entry hlen (fun other ho => ?_) (fun other ho => ?_) finish_lifecycle
  · rw [List.take_add_one, hname] at ho
    rcases List.mem_append.mp ho with ho | ho
    · exact finish_alive_other (hbefore other ho) ⟨.started, h.started other ho, by decide⟩
    · obtain rfl : other = name := by simpa using ho
      rw [hfail] at hself
      exact ⟨.error, hself, by decide⟩
  · unfold NotStarted
    rw [finish_other (hafter other ho), h.waiting other ho]
    decide

/-- One more callback, answered Ok. -/
theorem Succeeded.next {calls : List Call} (h : Succeeded calls outcomes) (call : Call) (hok : answer.isOk = true) :
    Succeeded (calls ++ [call]) (outcomes ++ [⟨askedOf call, answer⟩]) := by
  refine ⟨?_, fun outcome hmem => ?_⟩
  · rw [made_append, h.callbacks, List.map_append]
    rfl
  · rcases List.mem_append.mp hmem with hmem | hmem
    · exact h.ok outcome hmem
    · cases List.mem_singleton.mp hmem
      exact hok

/-- One more callback, which fails. -/
theorem Succeeded.fails {calls : List Call} (h : Succeeded calls outcomes) (hname : app.components[index]? = some name)
    (hcalls : calls = broughtUp (app.components.take index) ++ step.callsBefore name) (hfail : answer.isOk = false) :
    FailsAfter app (componentError name step.label answer) (index + 1)
      (broughtUp (app.components.take index) ++ step.callsThrough name)
      (outcomes ++ [⟨.callback step.callback name, answer⟩]) := by
  refine ⟨outcomes, _, rfl, h.ok, hfail, ?_, ?_, .inl ⟨index, name, step, hname, rfl, rfl, rfl⟩⟩
  · cases step with
    | configure | init | start => rfl
  · have hlast : made [⟨.callback step.callback name, answer⟩] = [step.callOf name].map askedOf := rfl
    rw [made_append, h.callbacks, hlast, hcalls, BringUp.callsThrough, ← List.append_assoc, ← List.map_append]

/-- The scheduler comes up as well. -/
theorem Succeeded.risen (h : Succeeded (broughtUp app.components) outcomes) (hok : answer.isOk = true) :
    Risen app (outcomes ++ [⟨.schedulerStart, answer⟩]) := by
  refine ⟨outcomes, answer, rfl, ?_, fun outcome hmem => ?_⟩
  · rw [made_append, h.callbacks]
    exact List.append_nil _
  · rcases List.mem_append.mp hmem with hmem | hmem
    · exact h.ok outcome hmem
    · cases List.mem_singleton.mp hmem
      exact hok

theorem Succeeded.schedulerFails (h : Succeeded (broughtUp app.components) outcomes) (hfail : answer.isOk = false) :
    FailsAfter app (.error answer.code (text "scheduler start failed: " ++ answer.message)) app.components.length
      (broughtUp app.components) (outcomes ++ [⟨.schedulerStart, answer⟩]) := by
  refine ⟨outcomes, _, rfl, h.ok, hfail, rfl, ?_, .inr ⟨rfl, rfl, rfl⟩⟩
  rw [made_append, h.callbacks]
  exact List.append_nil _

variable {t : State}

theorem life_idle (h : Life app s outcomes) (hs : startStep app s answer = some t)
    (hstart : s.start = .idle) : Life app t (outcomes ++ startAnswered app s answer) := by
  unfold Life at h
  unfold startStep at hs
  unfold startAnswered
  simp only [hstart] at h hs ⊢
  obtain ⟨hidle, hstop, hruntime, hnone⟩ := h
  rw [hnone]
  split at hs
  · rename_i hphase
    exact absurd hphase hidle.2.1
  · rename_i hphase
    cases hs
    refine ⟨hidle, hphase, .inl ⟨rfl, hstop hphase, by rw [hruntime]; rfl, rfl, fun name hn => ?_⟩⟩
    unfold NotStarted
    rw [hruntime, RuntimeContext.registered]
    simp only [if_pos hn]
    decide
  · cases hs
    have hcalls : lifecycle s.runtime = [] := by
      rw [hruntime]
      rfl
    refine ⟨hidle, ?_, ?_, ?_⟩
    · rw [hruntime]
      exact bringing_registered
    · rw [hcalls]
      simp [broughtUp, BringUp.callsBefore]
    · rw [hcalls]
      exact ⟨rfl, by simp⟩

theorem life_calling {index : Nat} {step : BringUp} (h : Life app s outcomes) (hs : startStep app s answer = some t)
    (hstart : s.start = .calling index step) : Life app t (outcomes ++ startAnswered app s answer) := by
  unfold Life at h
  unfold startStep at hs
  unfold startAnswered
  simp only [hstart] at h hs ⊢
  obtain ⟨hidle, hbringing, hcalls, hdone⟩ := h
  cases hname : app.components[index]? with
  | none =>
    simp only [hname, Option.some.injEq] at hs
    subst hs
    have hall : app.components.take index = app.components := List.take_of_length_le (by simpa using hname)
    have hcalls : lifecycle s.runtime = broughtUp app.components := by
      rw [hcalls, hname, hall]
      simp
    rw [hcalls] at hdone
    refine ⟨rfl, hidle.2.1, hidle.2.2, ⟨hcalls, fun name hn => ?_⟩, by simpa [hname] using hdone⟩
    exact ⟨.started, hbringing.started name (by rwa [hall]), by decide⟩
  | some name =>
    simp only [hname, BringUp.call_ok (hbringing.current name hname), Option.some.injEq] at hs
    subst hs
    rw [hname] at hcalls
    have hcallback : (step.callOf name).callback ≠ .execute := step.callback_ne_execute
    have hbefore : lifecycle s.runtime = broughtUp (app.components.take index) ++ step.callsBefore name := by
      rw [hcalls]
      simp
    refine ⟨hidle, hbringing.called, name, hname, ?_, ?_⟩
    · simp only [lifecycle, List.filter_append] at hbefore ⊢
      rw [hbefore]
      simp [hcallback, BringUp.callsThrough]
    · rw [← hbefore]
      simpa [hname, BringUp.call_ok (hbringing.current name hname), refusals] using hdone

theorem life_inCallback {index : Nat} {step : BringUp} (h : Life app s outcomes) (hs : startStep app s answer = some t)
    (hstart : s.start = .inCallback index step) : Life app t (outcomes ++ startAnswered app s answer) := by
  unfold Life at h
  unfold startStep at hs
  unfold startAnswered
  simp only [hstart] at h hs ⊢
  obtain ⟨hidle, hbringing, name, hname, hcalls, hdone⟩ := h
  simp only [hname] at hs ⊢
  cases hok : answer.isOk with
  | true =>
    simp only [hok, if_true, Option.some.injEq] at hs
    subst hs
    have hthrough : lifecycle (step.finish s.runtime name answer)
        = broughtUp (app.components.take index) ++ step.callsThrough name := by
      rw [BringUp.finish_eq, finish_lifecycle, hcalls]
    refine ⟨hidle, hbringing.next hname hok, hthrough.trans (callsThrough_next hname), ?_⟩
    rw [hthrough, BringUp.callsThrough, ← List.append_assoc]
    exact hdone.next (step.callOf name) hok
  | false =>
    simp only [hok, Bool.false_eq_true, if_false, Option.some.injEq] at hs
    subst hs
    have htear := hbringing.fails hname hok
    rw [hcalls] at htear
    exact ⟨hidle, index + 1, _, _, [], hdone.fails hname rfl hok, (List.append_nil _).symm, htear⟩

theorem life_schedulerStarting (h : Life app s outcomes) (hs : startStep app s answer = some t)
    (hstart : s.start = .schedulerStarting) : Life app t (outcomes ++ startAnswered app s answer) := by
  unfold Life at h
  unfold startStep at hs
  unfold startAnswered
  simp only [hstart] at h hs ⊢
  obtain ⟨hsched, hphase, hrest, hup, hdone⟩ := h
  cases hok : answer.isOk with
  | true =>
    simp only [hok, if_true, Option.some.injEq] at hs
    subst hs
    exact ⟨rfl, hphase, hrest, hup, hdone.risen hok⟩
  | false =>
    simp only [hok, Bool.false_eq_true, if_false] at hs
    split at hs
    · cases hs
      exact ⟨⟨rfl, hphase, hrest⟩, _, _, _, [], hdone.schedulerFails hok, (List.append_nil _).symm, hup.tearing⟩
    · cases hs

theorem life_tearingDown {failure : Status} {tear : TearDown} (h : Life app s outcomes) (hs : startStep app s answer = some t)
    (hstart : s.start = .tearingDown failure tear) : Life app t (outcomes ++ startAnswered app s answer) := by
  unfold Life at h
  unfold startStep at hs
  unfold startAnswered
  simp only [hstart] at h hs ⊢
  obtain ⟨hidle, count, up, ups, downs, hafter, hall, htear⟩ := h
  split at hs
  · rename_i hzero
    cases hs
    refine ⟨hidle, count, up, ups, downs, hafter, ?_, htear.done hzero⟩
    rw [tearAnswered_done hzero, hall]
    exact List.append_nil _
  · rename_i k hk
    split at hs
    · cases hs
    · rename_i name hname
      cases hs
      refine ⟨hidle, count, up, ups, _, hafter, ?_, tearing_step htear hk hname answer⟩
      rw [tearAnswered_at hk hname, hall, List.append_assoc]

theorem life_failing {failure : Status} (h : Life app s outcomes) (hs : startStep app s answer = some t)
    (hstart : s.start = .failing failure) : Life app t (outcomes ++ startAnswered app s answer) := by
  unfold Life at h
  unfold startStep at hs
  unfold startAnswered
  simp only [hstart] at h hs ⊢
  simp only [Option.some.injEq] at hs
  obtain ⟨hidle, count, up, ups, downs, hafter, hall, hdown⟩ := h
  subst hs
  unfold Life
  dsimp only
  rw [if_neg (by simp [hafter.isOk]), List.append_nil]
  exact ⟨⟨hidle.1, nofun, hidle.2.2⟩, rfl, .inr ⟨count, up, ups, downs, hafter, hall, hdown⟩⟩

theorem life_succeeding (h : Life app s outcomes) (hs : startStep app s answer = some t)
    (hstart : s.start = .succeeding) : Life app t (outcomes ++ startAnswered app s answer) := by
  unfold Life at h
  unfold startStep at hs
  unfold startAnswered
  simp only [hstart] at h hs ⊢
  simp only [Option.some.injEq] at hs
  obtain ⟨hsched, -, hrest, hup, hrisen⟩ := h
  subst hs
  unfold Life StopLife
  dsimp only
  rw [if_pos (by rfl), List.append_nil]
  rcases hrest with hrest | hrest
  · rw [hrest]
    exact ⟨rfl, hsched, hup, hrisen⟩
  · rw [hrest]
    exact ⟨⟨rfl, by simp⟩, .inl ⟨rfl, hsched, hup, hrisen⟩⟩

theorem life_start (h : Life app s outcomes) (hs : startStep app s answer = some t) :
    Life app t (outcomes ++ startAnswered app s answer) := by
  cases hstart : s.start with
  | idle => exact life_idle h hs hstart
  | calling index step => exact life_calling h hs hstart
  | inCallback index step => exact life_inCallback h hs hstart
  | schedulerStarting => exact life_schedulerStarting h hs hstart
  | tearingDown failure tear => exact life_tearingDown h hs hstart
  | failing failure => exact life_failing h hs hstart
  | succeeding => exact life_succeeding h hs hstart
  | returned status =>
    unfold startStep at hs
    simp only [hstart] at hs
    cases hs

end Start

/-! ## Stop -/

section Stop

variable {answer : Status} {t : State}

theorem stopEnters_notRunning (h : s.phase ≠ .running) :
    stopEnters s = { s with phase := .stopped, stop := .returned .ok [] } := by
  unfold stopEnters
  split
  · rename_i hphase
    exact absurd hphase h
  · rfl
  · rfl

theorem stopEnters_running (h : s.phase = .running) :
    stopEnters s = { s with phase := .stopped, stop := .stoppingScheduler } := by
  unfold stopEnters
  rw [h]

/-- A `Stop` that does not find the application running only writes the phase. -/
theorem stopStep_atRest (hrest : AtRest s.stop) (hphase : s.phase ≠ .running) (hs : stopStep app s answer = some t) :
    t = { s with phase := .stopped, stop := .returned .ok [] } := by
  unfold stopStep at hs
  rcases hrest with hrest | hrest <;> simp only [hrest, Option.some.injEq] at hs <;>
    exact hs.symm.trans (stopEnters_notRunning hphase)

theorem stopAnswered_atRest (hrest : AtRest s.stop) : stopAnswered app s answer = [] := by
  unfold stopAnswered
  rcases hrest with hrest | hrest <;> rw [hrest]

theorem idle_stop (h : Idle s) (hs : stopStep app s answer = some t) :
    t = { s with phase := .stopped, stop := .returned .ok [] } ∧ Idle t ∧ stopAnswered app s answer = [] := by
  have heq := stopStep_atRest h.2.2 h.2.1 hs
  subst heq
  exact ⟨rfl, ⟨h.1, nofun, .inr rfl⟩, stopAnswered_atRest h.2.2⟩

theorem stopLife_stop (h : StopLife app s outcomes) (hs : stopStep app s answer = some t) :
    StopLife app t (outcomes ++ stopAnswered app s answer) ∧ t.start = s.start := by
  unfold StopLife at h
  unfold stopStep at hs
  unfold stopAnswered
  cases hstop : s.stop with
  | idle =>
    simp only [hstop] at h hs
    obtain ⟨hphase, hsched, hup, hrisen⟩ := h
    cases hs
    rw [stopEnters_running hphase, List.append_nil]
    exact ⟨⟨rfl, hsched, hup, hrisen⟩, rfl⟩
  | returned status failures =>
    simp only [hstop] at h hs
    cases hs
    rw [List.append_nil]
    obtain ⟨hphase, hsched, hup, hrisen⟩ | ⟨hphase, hdown⟩ := h.2
    · rw [stopEnters_running hphase]
      exact ⟨⟨rfl, hsched, hup, hrisen⟩, rfl⟩
    · rw [stopEnters_notRunning (by rw [hphase]; decide)]
      exact ⟨⟨⟨rfl, by simp⟩, .inr ⟨rfl, hdown⟩⟩, rfl⟩
  | stoppingScheduler =>
    simp only [hstop] at h hs
    obtain ⟨hphase, hsched, hup, hrisen⟩ := h
    cases hok : answer.isOk with
    | true =>
      simp only [hok, if_true, hsched, Option.some.injEq] at hs
      subst hs
      exact ⟨⟨hphase, rfl, hup, outcomes, answer, hrisen, hok, rfl⟩, rfl⟩
    | false =>
      simp only [hok, Bool.false_eq_true, if_false, Option.some.injEq] at hs
      subst hs
      refine ⟨⟨hphase, .one (error_not_ok hok), outcomes, answer, [], hrisen, rfl, ?_, hup.tearing⟩, rfl⟩
      simp [errorsOf, hok, Outcome.error]
  | draining =>
    simp only [hstop] at h hs
    obtain ⟨hphase, hsched, hup, risen, drained, hrisen, hok, hall⟩ := h
    split at hs
    · cases hs
      refine ⟨⟨hphase, ⟨rfl, by simp⟩, risen, drained, [], hrisen, ?_, ?_, hup.tearing⟩, rfl⟩
      · rw [List.append_nil, hall]
      · simp [errorsOf, hok]
    · cases hs
  | tearingDown first failures tear =>
    simp only [hstop] at h hs
    obtain ⟨hphase, hfirst, risen, answer', downs, hrisen, hall, hfailures, htear⟩ := h
    dsimp only
    split at hs
    · rename_i hzero
      cases hs
      refine ⟨⟨hphase, hfirst.append htear.first, risen, answer', downs, hrisen, ?_, ?_, htear.done hzero⟩, rfl⟩
      · rw [tearAnswered_done hzero, hall]
        exact List.append_nil _
      · rw [hfailures, htear.failures, ← errorsOf_append]
        rfl
    · rename_i k hk
      split at hs
      · cases hs
      · rename_i name hname
        cases hs
        refine ⟨⟨hphase, hfirst, risen, answer', _, hrisen, ?_, hfailures, tearing_step htear hk hname answer⟩, rfl⟩
        rw [tearAnswered_at hk hname, hall, List.append_assoc, List.cons_append]
  | closing first failures =>
    simp only [hstop] at h hs
    obtain ⟨hphase, hfirst, risen, answer', downs, hrisen, hall, hfailures, hdown⟩ := h
    have hclosed : outcomes ++ [⟨.close, answer⟩] = risen ++ ⟨.schedulerStop, answer'⟩ :: downs ++ [⟨.close, answer⟩] := by
      rw [hall]
    cases hok : answer.isOk with
    | true =>
      simp only [hok, if_true, Option.some.injEq] at hs
      subst hs
      exact ⟨⟨hfirst, .inr ⟨hphase, risen, answer', downs, answer, hrisen, hclosed, hdown⟩⟩, rfl⟩
    | false =>
      simp only [hok, Bool.false_eq_true, if_false, Option.some.injEq] at hs
      subst hs
      exact ⟨⟨hfirst.append (.one (error_not_ok hok)), .inr ⟨hphase, risen, answer', downs, answer, hrisen, hclosed, hdown⟩⟩, rfl⟩

theorem life_stop (h : Life app s outcomes) (hs : stopStep app s answer = some t) :
    Life app t (outcomes ++ stopAnswered app s answer) := by
  unfold Life at h
  cases hstart : s.start with
  | idle =>
    rw [hstart] at h
    obtain ⟨rfl, hidle, hnone⟩ := idle_stop h.1 hs
    rw [hnone, List.append_nil]
    simp only [Life, hstart]
    exact ⟨hidle, nofun, h.2.2⟩
  | calling _ _ | inCallback _ _ | tearingDown _ _ | failing _ =>
    rw [hstart] at h
    obtain ⟨rfl, hidle, hnone⟩ := idle_stop h.1 hs
    rw [hnone, List.append_nil]
    simp only [Life, hstart]
    exact ⟨hidle, h.2⟩
  | schedulerStarting | succeeding =>
    rw [hstart] at h
    obtain ⟨hsched, hphase, hrest, hup⟩ := h
    rw [stopAnswered_atRest hrest, List.append_nil]
    obtain rfl := stopStep_atRest hrest hphase hs
    simp only [Life, hstart]
    exact ⟨hsched, nofun, .inr rfl, hup⟩
  | returned status =>
    simp only [hstart] at h
    split at h
    · rename_i hok
      obtain ⟨hlife, hsame⟩ := stopLife_stop h hs
      simp only [Life, hsame.trans hstart, hok, if_true]
      exact hlife
    · rename_i hok
      obtain ⟨rfl, hidle, hnone⟩ := idle_stop h.1 hs
      rw [hnone, List.append_nil]
      unfold Life
      dsimp only
      rw [hstart]
      dsimp only
      rw [if_neg hok]
      refine ⟨hidle, rfl, h.2.2.imp ?_ id⟩
      intro h
      obtain ⟨hstatus, -, hrest⟩ := h
      exact ⟨hstatus, nofun, hrest⟩

end Stop

/-! ## Every run -/

theorem life_initial : Life app (initial app) [] := ⟨⟨rfl, nofun, .inl rfl⟩, nofun, rfl, rfl⟩

theorem life_step {t : State} {move : Move} (h : Life app s outcomes) (hs : step app s move = some t) :
    Life app t (outcomes ++ answered app s move) := by
  cases move with
  | start answer => exact life_start h hs
  | stop answer => exact life_stop h hs
  | execute name =>
    rw [answered, List.append_nil]
    simp only [step] at hs
    split at hs
    · cases hs
    · rename_i hbusy
      split at hs
      · rename_i runtime hexecute
        cases hs
        exact life_interferes h (executeComponent_interferes hexecute) (.inl hbusy)
      · cases hs
        exact h
  | executed name answer =>
    rw [answered, List.append_nil]
    simp only [step] at hs
    split at hs
    · rename_i hmem
      cases hs
      exact life_interferes h (componentExecuted_interferes ..) (.inr (List.ne_nil_of_mem hmem))
    · cases hs

/-- Every interleaving of the threads, with all its answers. -/
theorem life_of_run {ok : State → Move → Prop} {moves : List Move} (hok : RunOk (step app) ok (initial app) moves)
    (hrun : run (step app) (initial app) moves = some s) : Life app s (answersOf app moves) :=
  collect_invariant (fun _ _ _ _ hlife _ hs => life_step hlife hs) life_initial hok hrun

theorem life_of_reach {ok : State → Move → Prop} (h : Reach (step app) ok (· = initial app) s) :
    ∃ outcomes, Life app s outcomes := by
  refine h.invariant (I := fun s => ∃ outcomes, Life app s outcomes) ?_ fun _ _ _ hlife _ hs => ?_
  · rintro s rfl
    exact ⟨[], life_initial⟩
  · obtain ⟨outcomes, hlife⟩ := hlife
    exact ⟨_, life_step hlife hs⟩

end PuppetMaster.Configuration.Application
