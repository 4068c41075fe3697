/-
  PuppetMaster.Runtime.ConcurrentLifecycle — lifecycle calls that several threads make on one
  `RuntimeContext` at the same time.

  A call is a read of the component's state, the callback without any lock, and a write of
  the state that the callback's answer leads to; `Execute` writes only after a failure. Each
  of the three is a step, and any thread may step between them. A callback that throws ends
  the call without a write. (Calls from inside a callback are those of another thread here.)

  No operation is allowed in state `shutdown`, so a component that has it is refused whatever
  comes later. That is not enough: a call that read the state before goes on.
  - `a_late_start_runs_after_shutdown`: `Configure` has read `created` when `Shutdown` runs
    through; its callback starts afterwards, and its write takes the component out of
    `shutdown`.
  - `shutdown_is_final`: where no call straddles a `Shutdown` in this way (`Apart`), no callback
    starts after a successful `Shutdown` callback, and the state stays. Calls of one thread are
    always apart (`one_thread_is_apart`).

  A call that nothing interrupts does what `RuntimeContext.begin` and `finish` do (`begin_agrees`,
  `finish_agrees`).

  History, the latest first: callbacks with their beginning and end, writes, and what the
  calls return.
-/

import PuppetMaster.Lib.Run
import PuppetMaster.Runtime.Lifecycle

namespace PuppetMaster.Runtime.Concurrent

open PuppetMaster.Core PuppetMaster.Lib PuppetMaster.Scheduler

/-! ## The operations -/

inductive Operation where
  | configure
  | init
  | start
  | execute
  | stop
  | shutdown
  deriving DecidableEq, Repr

namespace Operation

/-- Its name in the status of a refused call. -/
def toString : Operation → String
  | .configure => "configure"
  | .init => "initialize"
  | .start => "start"
  | .execute => "execute"
  | .stop => "stop"
  | .shutdown => "shutdown"

def callback : Operation → Callback
  | .configure => .configure
  | .init => .init
  | .start => .start
  | .execute => .execute
  | .stop => .stop
  | .shutdown => .shutdown

def allowed : Operation → List ComponentState
  | .configure => [.created, .stopped]
  | .init => [.configured]
  | .start => [.initialized, .stopped]
  | .execute => [.started]
  | .stop => [.started]
  | .shutdown => [.created, .configured, .initialized, .stopped, .error]

/-- The state that success leads to. -/
def next : Operation → Option ComponentState
  | .configure => some .configured
  | .init => some .initialized
  | .start => some .started
  | .execute => none
  | .stop => some .stopped
  | .shutdown => some .shutdown

/-- The state that is written after the callback's answer, if any. -/
def writes (operation : Operation) (answer : Status) : Option ComponentState :=
  if answer.isOk then operation.next else some .error

end Operation

/-! ## The machine -/

/-- Where a thread is: before the read of the state, past the check, in the callback, before the write. -/
inductive Pc where
  | idle
  | reading (operation : Operation) (name : Name)
  | entering (operation : Operation) (name : Name)
  | running (operation : Operation) (name : Name)
  | writing (operation : Operation) (name : Name) (state : ComponentState) (answer : Status)
  deriving DecidableEq

/-- An end without an answer is an exception. -/
inductive Event where
  | began (callback : Callback) (name : Name)
  | ended (callback : Callback) (name : Name) (answer : Option Status)
  | wrote (name : Name) (state : ComponentState)
  | returned (thread : Nat) (status : Status)
  deriving DecidableEq

structure State where
  states : Name → Option ComponentState
  threads : Nat → Pc
  history : List Event

/-- The context after `RegisterComponentInstance` of every one of `names`. -/
def initial (names : List Name) : State where
  states := (RuntimeContext.registered names).states
  threads _ := .idle
  history := []

def IsInitial (s : State) : Prop := ∃ names, s = initial names

def goto (s : State) (t : Nat) (pc : Pc) : State := { s with threads := Function.update s.threads t pc }

def note (s : State) (event : Event) : State := { s with history := event :: s.history }

/-- A call returns. -/
def leave (s : State) (t : Nat) (status : Status) : State := note (goto s t .idle) (.returned t status)

/-- `SetComponentState`. -/
def setState (s : State) (name : Name) (state : ComponentState) : State :=
  if (s.states name).isSome then note { s with states := Function.update s.states name (some state) } (.wrote name state)
  else s

inductive Move where
  | call (t : Nat) (operation : Operation) (name : Name)
  | read (t : Nat)
  | enter (t : Nat)
  | answer (t : Nat) (status : Status)
  | throw (t : Nat)
  | write (t : Nat)
  deriving DecidableEq

def instanceMissing (name : Name) : Status :=
  .error .notFound (text "component instance is not registered: " ++ name)

def stateMissing (name : Name) : Status :=
  .error .notFound (text "component state is not registered: " ++ name)

def step (s : State) : Move → Option State
  | .call t operation name =>
    match s.threads t with
    | .idle => some (if (s.states name).isSome then goto s t (.reading operation name) else leave s t (instanceMissing name))
    | _ => none
  | .read t =>
    match s.threads t with
    | .reading operation name =>
      match s.states name with
      | none => some (leave s t (stateMissing name))
      | some state =>
        if state ∈ operation.allowed then some (goto s t (.entering operation name))
        else some (leave s t (invalidTransition name operation.toString state))
    | _ => none
  | .enter t =>
    match s.threads t with
    | .entering operation name => some (note (goto s t (.running operation name)) (.began operation.callback name))
    | _ => none
  | .answer t status =>
    match s.threads t with
    | .running operation name =>
      let ended := note s (.ended operation.callback name (some status))
      match operation.writes status with
      | some state => some (goto ended t (.writing operation name state status))
      | none => some (leave ended t status)
    | _ => none
  | .throw t =>
    match s.threads t with
    | .running operation name => some (note (goto s t .idle) (.ended operation.callback name none))
    | _ => none
  | .write t =>
    match s.threads t with
    | .writing _ name state status => some (leave (setState s name state) t status)
    | _ => none

/-- The moves as a relation, one case for each way a move can go. -/
inductive Transition (s : State) : Move → State → Prop
  | call {t : Nat} {operation : Operation} {name : Name} (pc : s.threads t = .idle)
      (registered : (s.states name).isSome = true) :
      Transition s (.call t operation name) (goto s t (.reading operation name))
  | missing {t : Nat} {operation : Operation} {name : Name} (pc : s.threads t = .idle) :
      Transition s (.call t operation name) (leave s t (instanceMissing name))
  | read {t : Nat} {operation : Operation} {name : Name} {state : ComponentState} (pc : s.threads t = .reading operation name)
      (found : s.states name = some state) (allowed : state ∈ operation.allowed) :
      Transition s (.read t) (goto s t (.entering operation name))
  | refuse {t : Nat} {operation : Operation} {name : Name} (status : Status) (pc : s.threads t = .reading operation name) :
      Transition s (.read t) (leave s t status)
  | enter {t : Nat} {operation : Operation} {name : Name} (pc : s.threads t = .entering operation name) :
      Transition s (.enter t) (note (goto s t (.running operation name)) (.began operation.callback name))
  | answer {t : Nat} {operation : Operation} {name : Name} {status : Status} {state : ComponentState}
      (pc : s.threads t = .running operation name) (writes : operation.writes status = some state) :
      Transition s (.answer t status)
        (goto (note s (.ended operation.callback name (some status))) t (.writing operation name state status))
  | executed {t : Nat} {operation : Operation} {name : Name} {status : Status} (pc : s.threads t = .running operation name)
      (writes : operation.writes status = none) :
      Transition s (.answer t status) (leave (note s (.ended operation.callback name (some status))) t status)
  | throw {t : Nat} {operation : Operation} {name : Name} (pc : s.threads t = .running operation name) :
      Transition s (.throw t) (note (goto s t .idle) (.ended operation.callback name none))
  | write {t : Nat} {operation : Operation} {name : Name} {state : ComponentState} {status : Status}
      (pc : s.threads t = .writing operation name state status) :
      Transition s (.write t) (leave (setState s name state) t status)

variable {s s' : State} {t : Nat} {operation : Operation} {name : Name}

theorem transition_of_step {move : Move} (h : step s move = some s') : Transition s move s' := by
  cases move with
  | call t operation name =>
    simp only [step] at h
    split at h
    · rename_i hpc
      split at h
      · rename_i hregistered
        cases h
        exact .call hpc hregistered
      · cases h
        exact .missing hpc
    · cases h
  | read t =>
    simp only [step] at h
    split at h
    · rename_i operation name hpc
      split at h
      · cases h
        exact .refuse _ hpc
      · rename_i state hstate
        split at h
        · rename_i hallowed
          cases h
          exact .read hpc hstate hallowed
        · cases h
          exact .refuse _ hpc
    · cases h
  | enter t =>
    simp only [step] at h
    split at h
    · rename_i operation name hpc
      cases h
      exact .enter hpc
    · cases h
  | answer t status =>
    simp only [step] at h
    split at h
    · rename_i operation name hpc
      split at h
      · rename_i state hwrites
        cases h
        exact .answer hpc hwrites
      · rename_i hwrites
        cases h
        exact .executed hpc hwrites
    · cases h
  | throw t =>
    simp only [step] at h
    split at h
    · rename_i operation name hpc
      cases h
      exact .throw hpc
    · cases h
  | write t =>
    simp only [step] at h
    split at h
    · rename_i operation name state status hpc
      cases h
      exact .write hpc
    · cases h

theorem goto_self {pc : Pc} : (goto s t pc).threads t = pc := Function.update_self _ _ _

theorem goto_other {pc : Pc} {b : Nat} (h : b ≠ t) : (goto s t pc).threads b = s.threads b := Function.update_of_ne h _ _

theorem setState_threads (state : ComponentState) : (setState s name state).threads = s.threads := by
  unfold setState
  split <;> rfl

/-! ## A call without other threads in between

What `RuntimeContext.begin` and `RuntimeContext.finish` do in one piece. -/

section Undivided

open RuntimeContext

example :
    (begin Operation.configure.toString Operation.configure.callback Operation.configure.allowed = configureComponent
      ∧ begin Operation.init.toString Operation.init.callback Operation.init.allowed = initializeComponent
      ∧ begin Operation.start.toString Operation.start.callback Operation.start.allowed = startComponent)
      ∧ begin Operation.stop.toString Operation.stop.callback Operation.stop.allowed = stopComponent
      ∧ begin Operation.shutdown.toString Operation.shutdown.callback Operation.shutdown.allowed = shutdownComponent :=
  ⟨⟨rfl, rfl, rfl⟩, rfl, rfl⟩

variable {runtime runtime' : RuntimeContext} {status : Status}

theorem call_registered {state : ComponentState} (hidle : s.threads t = .idle) (hstate : s.states name = some state) :
    step s (.call t operation name) = some (goto s t (.reading operation name)) := by
  simp only [step, hidle, hstate, Option.isSome_some, if_true]

theorem begin_agrees (hstates : s.states = runtime.states) (hidle : s.threads t = .idle)
    (h : begin operation.toString operation.callback operation.allowed runtime name = .ok runtime') :
    ∃ s', run step s [.call t operation name, .read t, .enter t] = some s' ∧ s'.threads t = .running operation name
      ∧ s'.states = runtime'.states ∧ s'.history = .began operation.callback name :: s.history := by
  obtain ⟨state, hallowed, hstate, rfl⟩ := begin_ok h
  rw [← hstates] at hstate
  refine ⟨note (goto (goto (goto s t (.reading operation name)) t (.entering operation name)) t (.running operation name))
    (.began operation.callback name), ?_, goto_self, hstates, rfl⟩
  have hcall : step s (.call t operation name) = some (goto s t (.reading operation name)) := call_registered hidle hstate
  have hread : step (goto s t (.reading operation name)) (.read t)
      = some (goto (goto s t (.reading operation name)) t (.entering operation name)) := by
    have hsame : (goto s t (.reading operation name)).states name = some state := hstate
    simp only [step, goto_self, hsame, if_pos hallowed]
  have henter : step (goto (goto s t (.reading operation name)) t (.entering operation name)) (.enter t)
      = some (note (goto (goto (goto s t (.reading operation name)) t (.entering operation name)) t (.running operation name))
          (.began operation.callback name)) := by
    simp only [step, goto_self]
  simp only [run, hcall, hread, henter, Option.bind_some]

theorem begin_refused_agrees (hstates : s.states = runtime.states) (hidle : s.threads t = .idle)
    (h : begin operation.toString operation.callback operation.allowed runtime name = .error status) :
    ∃ moves s', run step s moves = some s' ∧ s'.threads t = .idle ∧ s'.states = runtime.states
      ∧ s'.history = .returned t status :: s.history := by
  unfold begin at h
  rw [← hstates] at h
  split at h
  · rename_i hnone
    cases h
    refine ⟨[.call t operation name], leave s t (instanceMissing name), ?_, goto_self, hstates, rfl⟩
    simp [run, step, hidle, hnone]
  · rename_i state hstate
    split at h
    · cases h
    · rename_i hallowed
      cases h
      refine ⟨[.call t operation name, .read t],
        leave (goto s t (.reading operation name)) t (invalidTransition name operation.toString state), ?_, goto_self,
        hstates, rfl⟩
      have hcall : step s (.call t operation name) = some (goto s t (.reading operation name)) := call_registered hidle hstate
      have hread : step (goto s t (.reading operation name)) (.read t)
          = some (leave (goto s t (.reading operation name)) t (invalidTransition name operation.toString state)) := by
        have hsame : (goto s t (.reading operation name)).states name = some state := hstate
        simp only [step, goto_self, hsame, if_neg hallowed]
      simp only [run, hcall, hread, Option.bind_some]

theorem setState_agrees (hstates : s.states = runtime.states) (state : ComponentState) :
    (setState s name state).states = (runtime.setComponentState name state).states := by
  unfold setState setComponentState
  rw [hstates]
  split
  · rfl
  · exact hstates

theorem finish_agrees {next : ComponentState} (hstates : s.states = runtime.states)
    (hrunning : s.threads t = .running operation name) (hnext : operation.next = some next) :
    ∃ s', run step s [.answer t status, .write t] = some s' ∧ s'.threads t = .idle
      ∧ s'.states = (finish next runtime name status).states := by
  have hwrites : operation.writes status = some (if status.isOk then next else .error) := by
    unfold Operation.writes
    split
    · exact hnext
    · rfl
  let answered := goto (note s (.ended operation.callback name (some status))) t
    (.writing operation name (if status.isOk then next else .error) status)
  have hanswer : step s (.answer t status) = some answered := by
    simp only [step, hrunning, hwrites]
    rfl
  refine ⟨leave (setState answered name (if status.isOk then next else .error)) t status, ?_, goto_self,
    setState_agrees (s := answered) hstates _⟩
  have hwrite : step answered (.write t)
      = some (leave (setState answered name (if status.isOk then next else .error)) t status) := by
    have hwriting : answered.threads t = .writing operation name (if status.isOk then next else .error) status := goto_self
    simp only [step, hwriting]
  simp only [run, hanswer, hwrite, Option.bind_some]

end Undivided

/-! ## What has to stay apart -/

/-- A move that keeps clear of a `Shutdown` of the same component. Its callback ends well only when no other call stands
    between its check and its callback; until its state is written no check is passed; when it is written no other call
    has another state to write; and no call comes to have one afterwards. -/
def Apart (s : State) : Move → Prop
  | .read t => ∀ operation name, s.threads t = .reading operation name →
    (∃ b other status, s.threads b = .writing other name .shutdown status) →
      ∀ state, s.states name = some state → state ∉ operation.allowed
  | .answer t status => ∀ operation name, s.threads t = .running operation name →
    (operation = .shutdown → status.isOk = true → ∀ b other, s.threads b ≠ .entering other name)
    ∧ (s.states name = some .shutdown → ∀ state, operation.writes status = some state → state = .shutdown)
  | .write t => ∀ operation name status, s.threads t = .writing operation name .shutdown status →
    ∀ b other state answer, s.threads b = .writing other name state answer → state = .shutdown
  | _ => True

/-- A successful `Shutdown` callback of the component. -/
def EndedIn (history : List Event) (name : Name) : Prop :=
  ∃ status : Status, status.isOk = true ∧ .ended .shutdown name (some status) ∈ history

/-- No callback of a component begins after a successful `Shutdown` callback of it. -/
def ShutdownIsFinal (history : List Event) : Prop :=
  ∀ (later earlier : List Event) (name : Name) (status : Status),
    history = later ++ .ended .shutdown name (some status) :: earlier → status.isOk = true →
      ∀ callback, Event.began callback name ∉ later

theorem shutdownIsFinal_cons {history : List Event} {event : Event} (h : ShutdownIsFinal history)
    (hevent : ∀ callback name, event = .began callback name → ¬ EndedIn history name) :
    ShutdownIsFinal (event :: history) := by
  intro later earlier name status heq hok callback hmem
  cases later with
  | nil => cases hmem
  | cons first later =>
    obtain ⟨rfl, rfl⟩ := List.cons_eq_cons.mp heq
    rcases List.mem_cons.mp hmem with hfirst | hrest
    · exact hevent callback name hfirst.symm
        ⟨status, hok, List.mem_append_right _ List.mem_cons_self⟩
    · exact h later earlier name status rfl hok callback hrest

/-- The component a call is about. -/
def Pc.component : Pc → Option Name
  | .idle => none
  | .reading _ name => some name
  | .entering _ name => some name
  | .running _ name => some name
  | .writing _ name _ _ => some name

structure Inv (s : State) : Prop where
  registered : ∀ b name, (s.threads b).component = some name → (s.states name).isSome = true
  final : ShutdownIsFinal s.history
  /-- After a successful `Shutdown` callback nobody is about to begin one. -/
  quiet : ∀ name, EndedIn s.history name → ∀ b operation, s.threads b ≠ .entering operation name
  /-- Its state is about to be written, or was. -/
  written : ∀ name, EndedIn s.history name →
    (∃ b operation status, s.threads b = .writing operation name .shutdown status) ∨ s.states name = some .shutdown
  ended : ∀ b operation name status, s.threads b = .writing operation name .shutdown status → EndedIn s.history name
  stated : ∀ name, s.states name = some .shutdown → EndedIn s.history name
  /-- Nobody has another state to write to it. -/
  kept : ∀ name, s.states name = some .shutdown →
    ∀ b operation state status, s.threads b = .writing operation name state status → state = .shutdown

theorem initial_inv (names : List Name) : Inv (initial names) := by
  have hnone (name : Name) : ¬ EndedIn (initial names).history name := by
    intro h
    obtain ⟨status, -, hmem⟩ := h
    cases hmem
  have hcreated (name : Name) : (initial names).states name ≠ some .shutdown := by
    intro h
    simp only [initial, RuntimeContext.registered] at h
    split at h
    · cases h
    · cases h
  refine ⟨fun b name h => (by cases h), ?_, fun name h => absurd h (hnone name), fun name h => absurd h (hnone name),
    fun b operation name status h => (by cases h), fun name h => absurd h (hcreated name),
    fun name h => absurd h (hcreated name)⟩
  intro later earlier name status heq
  exact absurd (congrArg List.length heq) (by simp [initial])

/-- An event that neither ends a `Shutdown` well nor begins a callback too late. -/
theorem Inv.note (h : Inv s) {event : Event}
    (hended : ∀ name status, event = .ended .shutdown name (some status) → status.isOk = false)
    (hbegan : ∀ callback name, event = .began callback name → ¬ EndedIn s.history name) :
    Inv (note s event) := by
  have hsame (name : Name) : EndedIn (event :: s.history) name ↔ EndedIn s.history name := by
    constructor
    · intro hin
      obtain ⟨status, hok, hmem⟩ := hin
      rcases List.mem_cons.mp hmem with heq | hmem
      · rw [hended name status heq.symm] at hok
        cases hok
      · exact ⟨status, hok, hmem⟩
    · intro hin
      obtain ⟨status, hok, hmem⟩ := hin
      exact ⟨status, hok, List.mem_cons_of_mem _ hmem⟩
  exact ⟨h.registered, shutdownIsFinal_cons h.final hbegan, fun name hin => h.quiet name ((hsame name).mp hin),
    fun name hin => h.written name ((hsame name).mp hin),
    fun b operation name status hb => (hsame name).mpr (h.ended b operation name status hb),
    fun name hs => (hsame name).mpr (h.stated name hs), h.kept⟩

/-- A thread that leaves no `shutdown` unwritten behind goes to where it breaks nothing. -/
theorem Inv.goto (h : Inv s) {pc : Pc}
    (hleaves : ∀ operation name status, s.threads t = .writing operation name .shutdown status →
      s.states name = some .shutdown)
    (hregistered : ∀ name, pc.component = some name → (s.states name).isSome = true)
    (hentering : ∀ operation name, pc = .entering operation name → ¬ EndedIn s.history name)
    (hwriting : ∀ operation name state status, pc = .writing operation name state status →
      (state = .shutdown → EndedIn s.history name) ∧ (s.states name = some .shutdown → state = .shutdown)) :
    Inv (goto s t pc) := by
  refine ⟨?_, h.final, ?_, ?_, ?_, h.stated, ?_⟩
  · intro b name hb
    by_cases heq : b = t
    · subst heq
      rw [goto_self] at hb
      exact hregistered name hb
    · rw [goto_other heq] at hb
      exact h.registered b name hb
  · intro name hended b operation hb
    by_cases heq : b = t
    · subst heq
      rw [goto_self] at hb
      exact hentering operation name hb hended
    · rw [goto_other heq] at hb
      exact h.quiet name hended b operation hb
  · intro name hended
    rcases h.written name hended with ⟨b, operation, status, hb⟩ | hstate
    · by_cases heq : b = t
      · subst heq
        exact .inr (hleaves operation name status hb)
      · exact .inl ⟨b, operation, status, (goto_other heq).trans hb⟩
    · exact .inr hstate
  · intro b operation name status hb
    by_cases heq : b = t
    · subst heq
      rw [goto_self] at hb
      exact (hwriting operation name .shutdown status hb).1 rfl
    · rw [goto_other heq] at hb
      exact h.ended b operation name status hb
  · intro name hstate b operation state status hb
    by_cases heq : b = t
    · subst heq
      rw [goto_self] at hb
      exact (hwriting operation name state status hb).2 hstate
    · rw [goto_other heq] at hb
      exact h.kept name hstate b operation state status hb

/-- A move that only changes what thread `t` does, to something without consequences. -/
theorem Inv.leave (h : Inv s)
    (hleaves : ∀ operation name status, s.threads t = .writing operation name .shutdown status →
      s.states name = some .shutdown)
    (status : Status) : Inv (leave s t status) := by
  have hgoto : Inv (Concurrent.goto s t .idle) :=
    h.goto hleaves (fun name hn => by cases hn) (fun operation name hpc => by cases hpc)
      fun operation name state answer hpc => by cases hpc
  exact hgoto.note (fun name answer heq => by cases heq) fun callback name heq => by cases heq

theorem Inv.not_ended (h : Inv s) (ht : s.threads t = .entering operation name) : ¬ EndedIn s.history name :=
  fun hended => h.quiet name hended t operation ht

theorem shutdown_not_allowed (operation : Operation) : ComponentState.shutdown ∉ operation.allowed := by
  cases operation <;> decide

theorem writes_shutdown {status : Status} (h : operation.writes status = some .shutdown) :
    operation = .shutdown ∧ status.isOk = true := by
  unfold Operation.writes at h
  split at h
  · rename_i hok
    cases operation with
    | shutdown => exact ⟨rfl, hok⟩
    | _ => cases h
  · cases h

theorem callback_eq_shutdown (h : operation.callback = .shutdown) : operation = .shutdown := by
  cases operation with
  | shutdown => rfl
  | _ => cases h

/-- A `Shutdown` callback ends well: nobody stands before a callback, and the thread is about to write. -/
theorem Inv.ends (h : Inv s) {status : Status} (ht : s.threads t = .running .shutdown name) (hok : status.isOk = true)
    (hapart : ∀ b other, s.threads b ≠ .entering other name) :
    Inv (Concurrent.goto (Concurrent.note s (.ended .shutdown name (some status))) t
      (.writing .shutdown name .shutdown status)) := by
  have hnew : EndedIn (.ended .shutdown name (some status) :: s.history) name := ⟨status, hok, List.mem_cons_self⟩
  have hmono {n : Name} (hin : EndedIn s.history n) : EndedIn (.ended .shutdown name (some status) :: s.history) n := by
    obtain ⟨answer, hanswer, hmem⟩ := hin
    exact ⟨answer, hanswer, List.mem_cons_of_mem _ hmem⟩
  have hold {n : Name} (hne : n ≠ name) (hin : EndedIn (.ended .shutdown name (some status) :: s.history) n) :
      EndedIn s.history n := by
    obtain ⟨answer, hanswer, hmem⟩ := hin
    rcases List.mem_cons.mp hmem with heq | hmem
    · cases heq
      exact absurd rfl hne
    · exact ⟨answer, hanswer, hmem⟩
  refine ⟨?_, ?_, ?_, ?_, ?_, ?_, ?_⟩
  · intro b n hb
    by_cases heq : b = t
    · subst heq
      rw [goto_self] at hb
      cases hb
      exact h.registered b name (by rw [ht]; rfl)
    · rw [goto_other heq] at hb
      exact h.registered b n hb
  · exact shutdownIsFinal_cons h.final fun callback n heq => by cases heq
  · intro n hended b operation hb
    by_cases heq : b = t
    · subst heq
      rw [goto_self] at hb
      cases hb
    · rw [goto_other heq] at hb
      by_cases hn : n = name
      · subst hn
        exact hapart b operation hb
      · exact h.quiet n (hold hn hended) b operation hb
  · intro n hended
    by_cases hn : n = name
    · subst hn
      exact .inl ⟨t, .shutdown, status, goto_self⟩
    · rcases h.written n (hold hn hended) with ⟨b, operation, answer, hb⟩ | hstate
      · have hne : b ≠ t := by
          rintro rfl
          rw [ht] at hb
          cases hb
        exact .inl ⟨b, operation, answer, (goto_other hne).trans hb⟩
      · exact .inr hstate
  · intro b operation n answer hb
    by_cases heq : b = t
    · subst heq
      rw [goto_self] at hb
      cases hb
      exact hnew
    · rw [goto_other heq] at hb
      exact hmono (h.ended b operation n answer hb)
  · intro n hstate
    exact hmono (h.stated n hstate)
  · intro n hstate b operation state answer hb
    by_cases heq : b = t
    · subst heq
      rw [goto_self] at hb
      cases hb
      rfl
    · rw [goto_other heq] at hb
      exact h.kept n hstate b operation state answer hb

/-- A write; afterwards the thread has nothing left. -/
theorem Inv.write (h : Inv s) {state : ComponentState} {status : Status}
    (ht : s.threads t = .writing operation name state status) (hapart : Apart s (.write t)) :
    Inv (setState s name state) ∧ (state = .shutdown → (setState s name state).states name = some .shutdown) := by
  have hregistered : (s.states name).isSome = true := h.registered t name (by rw [ht]; rfl)
  have hset : setState s name state
      = Concurrent.note { s with states := Function.update s.states name (some state) } (.wrote name state) := if_pos hregistered
  have hself : Function.update s.states name (some state) name = some state := Function.update_self _ _ _
  have hother {n : Name} (hn : n ≠ name) : Function.update s.states name (some state) n = s.states n :=
    Function.update_of_ne hn _ _
  have hstates : Inv { s with states := Function.update s.states name (some state) } := by
    refine ⟨?_, h.final, h.quiet, ?_, h.ended, ?_, ?_⟩
    · intro b n hb
      show (Function.update s.states name (some state) n).isSome = true
      by_cases hn : n = name
      · rw [hn, hself]
        rfl
      · rw [hother hn]
        exact h.registered b n hb
    · intro n hended
      rcases h.written n hended with hwriting | hstate
      · exact .inl hwriting
      · by_cases hn : n = name
        · subst hn
          exact .inr (hself.trans (congrArg some (h.kept n hstate t operation state status ht)))
        · exact .inr ((hother hn).trans hstate)
    · intro n hstate
      by_cases hn : n = name
      · subst hn
        cases hself.symm.trans hstate
        exact h.ended t operation n status ht
      · exact h.stated n ((hother hn).symm.trans hstate)
    · intro n hstate b other written answer hb
      by_cases hn : n = name
      · subst hn
        cases hself.symm.trans hstate
        exact hapart operation n status ht b other written answer hb
      · exact h.kept n ((hother hn).symm.trans hstate) b other written answer hb
  rw [hset]
  refine ⟨hstates.note (fun n answer heq => by cases heq) fun callback n heq => (by cases heq), ?_⟩
  intro heq
  rw [← heq]
  exact hself

theorem step_inv (h : Inv s) {move : Move} (hapart : Apart s move) (hs : step s move = some s') : Inv s' := by
  -- a thread elsewhere than before a write leaves nothing unwritten
  have hfree {t : Nat} {pc : Pc} (hpc : s.threads t = pc)
      (hwriting : ∀ operation name state status, pc ≠ .writing operation name state status) (operation : Operation)
      (name : Name) (status : Status) (ht : s.threads t = .writing operation name .shutdown status) :
      s.states name = some .shutdown := absurd (hpc.symm.trans ht) (hwriting operation name .shutdown status)
  cases transition_of_step hs with
  | call pc registered =>
    refine h.goto (hfree pc (by simp)) ?_ (fun _ _ heq => by cases heq) fun _ _ _ _ heq => by cases heq
    intro n hn
    cases hn
    exact registered
  | missing pc => exact h.leave (hfree pc (by simp)) _
  | @read t operation name state pc found allowed =>
    refine h.goto (hfree pc (by simp)) ?_ ?_ fun _ _ _ _ heq => by cases heq
    · intro n hn
      cases hn
      rw [found]
      rfl
    · intro other n heq hended
      cases heq
      rcases h.written name hended with hwriting | hstate
      · exact hapart operation name pc hwriting state found allowed
      · cases found.symm.trans hstate
        exact shutdown_not_allowed operation allowed
  | refuse status pc => exact h.leave (hfree pc (by simp)) status
  | @enter t operation name pc =>
    have hnot := h.not_ended pc
    have hgoto : Inv (goto s t (.running operation name)) := by
      refine h.goto (hfree pc (by simp)) ?_ (fun _ _ heq => by cases heq) fun _ _ _ _ heq => by cases heq
      intro n hn
      cases hn
      exact h.registered t name (by rw [pc]; rfl)
    refine hgoto.note (fun n status heq => by cases heq) ?_
    intro callback n heq
    injection heq with _ hname
    exact hname ▸ hnot
  | @answer t operation name status state pc writes =>
    obtain ⟨hentering, hkept⟩ := hapart operation name pc
    by_cases hshutdown : operation = .shutdown ∧ status.isOk = true
    · obtain ⟨rfl, hok⟩ := hshutdown
      have hstate : state = .shutdown := by
        rw [Operation.writes, if_pos hok] at writes
        exact (Option.some.inj writes).symm
      subst hstate
      exact h.ends pc hok (hentering rfl hok)
    · have hnote : Inv (note s (.ended operation.callback name (some status))) := by
        refine h.note ?_ fun callback n heq => by cases heq
        intro n answer heq
        injection heq with hcallback _ hanswer
        cases hanswer
        exact Bool.eq_false_iff.mpr fun hok => hshutdown ⟨callback_eq_shutdown hcallback, hok⟩
      refine hnote.goto (hfree pc (by simp)) ?_ (fun _ _ heq => by cases heq) ?_
      · intro n hn
        cases hn
        exact h.registered t name (by rw [pc]; rfl)
      · intro other n written answer heq
        cases heq
        refine ⟨fun heq => ?_, fun hstate => hkept hstate state writes⟩
        subst heq
        exact absurd (writes_shutdown writes) hshutdown
  | @executed t operation name status pc writes =>
    have hnote : Inv (note s (.ended operation.callback name (some status))) := by
      refine h.note ?_ fun callback n heq => by cases heq
      intro n answer heq
      injection heq with hcallback _ hanswer
      cases hanswer
      rw [callback_eq_shutdown hcallback, Operation.writes] at writes
      split at writes
      · cases writes
      · cases writes
    exact hnote.leave (hfree pc (by simp)) status
  | @throw t operation name pc =>
    have hgoto : Inv (goto s t .idle) :=
      h.goto (hfree pc (by simp)) (fun _ heq => by cases heq) (fun _ _ heq => by cases heq) fun _ _ _ _ heq => by cases heq
    refine hgoto.note ?_ fun callback n heq => by cases heq
    intro n status heq
    injection heq with _ _ hnone
    cases hnone
  | @write t operation name state status pc =>
    obtain ⟨hwritten, hshutdown⟩ := h.write pc hapart
    refine hwritten.leave ?_ status
    intro other n answer ht
    rw [setState_threads, pc] at ht
    cases ht
    exact hshutdown rfl

/-! ## One thread

A runtime whose lifecycle calls all come from one thread, as `Application`'s do outside the scheduler, keeps them apart. -/

def Move.thread : Move → Nat
  | .call t _ _ => t
  | .read t => t
  | .enter t => t
  | .answer t _ => t
  | .throw t => t
  | .write t => t

/-- Nobody but `t` is in a call, and past its check the state is one it is meant for. -/
structure Alone (t : Nat) (s : State) : Prop where
  others : ∀ b, b ≠ t → s.threads b = .idle
  checked : ∀ operation name, s.threads t = .entering operation name ∨ s.threads t = .running operation name →
    ∃ state ∈ operation.allowed, s.states name = some state

theorem Alone.goto (h : Alone t s) {pc : Pc}
    (hchecked : ∀ operation name, pc = .entering operation name ∨ pc = .running operation name →
      ∃ state ∈ operation.allowed, s.states name = some state) : Alone t (goto s t pc) := by
  refine ⟨fun b hb => (goto_other hb).trans (h.others b hb), ?_⟩
  intro operation name hpc
  rw [goto_self] at hpc
  exact hchecked operation name hpc

theorem Alone.note (h : Alone t s) {event : Event} : Alone t (note s event) := ⟨h.others, h.checked⟩

/-- To where no check has been made. -/
theorem alone_goto (h : ∀ b, b ≠ t → s.threads b = .idle) {pc : Pc}
    (hpc : ∀ operation name, pc ≠ .entering operation name ∧ pc ≠ .running operation name) : Alone t (goto s t pc) := by
  refine ⟨fun b hb => (goto_other hb).trans (h b hb), ?_⟩
  intro operation name hat
  rw [goto_self] at hat
  rcases hat with hat | hat
  · exact absurd hat (hpc operation name).1
  · exact absurd hat (hpc operation name).2

theorem alone_step (h : Alone t s) {move : Move} (ht : move.thread = t) (hs : step s move = some s') : Alone t s' := by
  cases transition_of_step hs with
  | call pc registered =>
    cases ht
    exact alone_goto h.others (by simp)
  | missing pc =>
    cases ht
    exact (alone_goto h.others (by simp)).note
  | read pc found allowed =>
    cases ht
    refine h.goto fun operation name hpc => ?_
    rcases hpc with hpc | hpc
    · cases hpc
      exact ⟨_, allowed, found⟩
    · cases hpc
  | refuse status pc =>
    cases ht
    exact (alone_goto h.others (by simp)).note
  | enter pc =>
    cases ht
    refine (h.goto fun operation name hpc => ?_).note
    rcases hpc with hpc | hpc
    · cases hpc
    · cases hpc
      exact h.checked _ _ (.inl pc)
  | answer pc writes =>
    cases ht
    exact alone_goto h.note.others (by simp)
  | executed pc writes =>
    cases ht
    exact (alone_goto h.note.others (by simp)).note
  | throw pc =>
    cases ht
    exact (alone_goto h.others (by simp)).note
  | @write t operation name state status pc =>
    cases ht
    refine (alone_goto ?_ (by simp)).note
    rw [setState_threads]
    exact h.others

theorem alone_apart (h : Alone t s) {move : Move} (ht : move.thread = t) : Apart s move := by
  have honly {b : Nat} {pc : Pc} (hb : s.threads b = pc) (hpc : pc ≠ .idle) : b = t := by
    by_contra hne
    exact hpc (hb.symm.trans (h.others b hne))
  cases move with
  | read b =>
    cases ht
    intro operation name hreading hwriting
    obtain ⟨b, other, status, hb⟩ := hwriting
    obtain rfl := honly hb (by simp)
    cases hreading.symm.trans hb
  | answer b status =>
    cases ht
    intro operation name hrunning
    refine ⟨fun _ _ b other hb => ?_, fun hstate => ?_⟩
    · obtain rfl := honly hb (by simp)
      cases hrunning.symm.trans hb
    · obtain ⟨state, hallowed, hother⟩ := h.checked operation name (.inr hrunning)
      cases hstate.symm.trans hother
      exact absurd hallowed (shutdown_not_allowed operation)
  | write b =>
    cases ht
    intro operation name status hwriting b other state answer hb
    obtain rfl := honly hb (by simp)
    cases hwriting.symm.trans hb
    rfl
  | call b operation name => trivial
  | enter b => trivial
  | throw b => trivial

theorem initial_alone (t : Nat) (names : List Name) : Alone t (initial names) := by
  refine ⟨fun b _ => rfl, ?_⟩
  intro operation name hpc
  rcases hpc with hpc | hpc
  · cases hpc
  · cases hpc

theorem run_alone {moves : List Move} (h : Alone t s) (ht : ∀ move ∈ moves, move.thread = t)
    (hs : run step s moves = some s') : Alone t s' := by
  induction moves generalizing s with
  | nil =>
    cases hs
    exact h
  | cons move moves ih =>
    obtain ⟨s₁, hmove, hrest⟩ := run_cons hs
    exact ih (alone_step h (ht move List.mem_cons_self) hmove) (fun m hm => ht m (List.mem_cons_of_mem _ hm)) hrest

theorem one_thread_is_apart {moves : List Move} (h : Alone t s) (ht : ∀ move ∈ moves, move.thread = t) :
    RunOk step Apart s moves := by
  induction moves generalizing s with
  | nil => trivial
  | cons move moves ih =>
    have hmove : move.thread = t := ht move List.mem_cons_self
    exact ⟨alone_apart h hmove, fun s₁ hs => ih (alone_step h hmove hs) fun m hm => ht m (List.mem_cons_of_mem _ hm)⟩

/-! ## Shutdown is final -/

theorem inv_of_reach (h : Reach step Apart IsInitial s) : Inv s := by
  refine h.invariant ?_ fun s move s' hi hapart hs => step_inv hi hapart hs
  intro s hs
  obtain ⟨names, rfl⟩ := hs
  exact initial_inv names

/-- No write that is outstanding takes a component out of `shutdown`. -/
theorem stays_shutdown (h : Inv s) {move : Move} (hs : step s move = some s') (hstate : s.states name = some .shutdown) :
    s'.states name = some .shutdown := by
  cases transition_of_step hs with
  | @write t operation other state status pc =>
    show (setState s other state).states name = some .shutdown
    unfold setState
    split
    · by_cases hn : name = other
      · subst hn
        have hkept : state = .shutdown := h.kept name hstate t operation state status pc
        exact (Function.update_self _ _ _).trans (congrArg some hkept)
      · exact (Function.update_of_ne hn _ _).trans hstate
    · exact hstate
  | _ => exact hstate

theorem run_stays_shutdown {moves : List Move} (h : Inv s) (hapart : RunOk step Apart s moves)
    (hs : run step s moves = some s') (hstate : s.states name = some .shutdown) : s'.states name = some .shutdown := by
  induction moves generalizing s with
  | nil =>
    cases hs
    exact hstate
  | cons move moves ih =>
    obtain ⟨s₁, hmove, hrest⟩ := run_cons hs
    exact ih (step_inv h hapart.1 hmove) (hapart.2 s₁ hmove) hrest (stays_shutdown h hmove hstate)

/-- Whatever the threads do apart: no callback of a component begins after its `Shutdown` callback ended well, and once
    the component's state is `shutdown` it stays that. -/
theorem shutdown_is_final (h : Reach step Apart IsInitial s) :
    ShutdownIsFinal s.history
      ∧ ∀ name, s.states name = some .shutdown → ∀ moves s', RunOk step Apart s moves → run step s moves = some s' →
          s'.states name = some .shutdown :=
  ⟨(inv_of_reach h).final, fun _ hstate _ _ hapart hs => run_stays_shutdown (inv_of_reach h) hapart hs hstate⟩

/-- A thread configures a component and shuts it down. -/
def configuredAndShutDown : List Move :=
  [.call 0 .configure [97], .read 0, .enter 0, .answer 0 .ok, .write 0,
    .call 0 .shutdown [97], .read 0, .enter 0, .answer 0 .ok, .write 0]

/-- Afterwards it is refused another configuration, and is still shut down. -/
theorem configured_and_shut_down_is_final :
    ∃ s s', s.states [97] = some .shutdown ∧ EndedIn s.history [97] ∧ ShutdownIsFinal s.history
      ∧ run step s [.call 0 .configure [97], .read 0] = some s' ∧ s'.states [97] = some .shutdown := by
  obtain ⟨s, hs, hend⟩ : ∃ s, run step (initial [[97]]) configuredAndShutDown = some s
      ∧ (decide (s.states [97] = some .shutdown ∧ .ended .shutdown [97] (some .ok) ∈ s.history)
        && (run step s [.call 0 .configure [97], .read 0]).isSome) = true :=
    Option.map_eq_some_iff.mp (by decide +kernel)
  obtain ⟨hnow, hagain⟩ := Bool.and_eq_true_iff.mp hend
  obtain ⟨hstate, hended⟩ := of_decide_eq_true hnow
  obtain ⟨s', hagain⟩ := Option.isSome_iff_exists.mp hagain
  have halone : Alone 0 s := run_alone (initial_alone 0 [[97]]) (by decide) hs
  have hreach : Reach step Apart IsInitial s :=
    reach_run (.init ⟨[[97]], rfl⟩) (one_thread_is_apart (initial_alone 0 [[97]]) (by decide)) hs
  obtain ⟨hfinal, hstays⟩ := shutdown_is_final hreach
  exact ⟨s, s', hstate, ⟨.ok, rfl, hended⟩, hfinal, hagain,
    hstays [97] hstate _ s' (one_thread_is_apart halone (by decide)) hagain⟩

/-- Thread 1 has passed the check of `Configure` when thread 0 shuts the component down. -/
def lateStart : List Move :=
  [.call 0 .shutdown [97], .read 0, .call 1 .configure [97], .read 1, .enter 0, .answer 0 .ok, .enter 1, .write 0]

/-- Its callback starts after `Shutdown`'s has ended well, and its write takes the component out of `shutdown`. -/
theorem a_late_start_runs_after_shutdown :
    ∃ s s', Reach step anyMove IsInitial s ∧ ¬ ShutdownIsFinal s.history ∧ s.states [97] = some .shutdown
      ∧ run step s [.answer 1 .ok, .write 1] = some s' ∧ s'.states [97] = some .configured := by
  obtain ⟨s, hs, hend⟩ : ∃ s, run step (initial [[97]]) lateStart = some s
      ∧ (decide (s.states [97] = some .shutdown ∧ s.history = [.returned 0 .ok, .wrote [97] .shutdown, .began .configure [97],
            .ended .shutdown [97] (some .ok), .began .shutdown [97]])
        && decide ((run step s [.answer 1 .ok, .write 1]).map (·.states [97]) = some (some .configured))) = true :=
    Option.map_eq_some_iff.mp (by decide +kernel)
  obtain ⟨hnow, hlater⟩ := Bool.and_eq_true_iff.mp hend
  obtain ⟨hstate, hhistory⟩ := of_decide_eq_true hnow
  obtain ⟨s', hrun, hconfigured⟩ := Option.map_eq_some_iff.mp (of_decide_eq_true hlater)
  have hreach : Reach step anyMove IsInitial s := reach_run (.init ⟨[[97]], rfl⟩) (runOk_any _ _) hs
  refine ⟨s, s', hreach, ?_, hstate, hrun, hconfigured⟩
  intro hfinal
  refine hfinal [.returned 0 .ok, .wrote [97] .shutdown, .began .configure [97]] [.began .shutdown [97]] [97] .ok hhistory rfl
    .configure ?_
  decide

end PuppetMaster.Runtime.Concurrent
