/-
  PuppetMaster.Scheduler.Readiness — when a trigger requests an execution.

  (1) The rule, for one trigger and the notifications it gets, oldest first: one of a `kAny`
  trigger requests at every notification, one of a `kAll` trigger at those where every
  dependency has been notified since the last request (`FollowsRule`). `TriggerState.notify`
  keeps to it: the `ready` flags are the dependencies in `sinceRequest` (`Tracks`).
  (2) The runs: `notifications` are those a move delivers, from a data callback or from a
  completion, each with what the code answers. Whatever a run does, short of another `Start`
  or the end of a `Stop`, a trigger `Tracks` its own notifications and no others
  (`step_tracked`, `run_tracked`).
  (3) The requests in the history of a run are those answers (`step_requests`), and every
  completion that succeeds notifies each dependent once (`completion_notifies`).
-/

import Mathlib.Data.List.Induction
import PuppetMaster.Scheduler.TaskAcceptance

namespace PuppetMaster.Scheduler

open PuppetMaster.Core PuppetMaster.Lib

/-! ## The rule -/

/-- A notification of a trigger: the dependency it is for, and whether the trigger requested an execution. -/
structure Answer where
  dependency : Nat
  requested : Bool
  deriving DecidableEq, Repr

/-- The dependencies notified after the last request, latest first. -/
def sinceRequest (answers : List Answer) : List Nat :=
  answers.foldl (fun since answer => if answer.requested then [] else answer.dependency :: since) []

theorem sinceRequest_concat (answers : List Answer) (answer : Answer) :
    sinceRequest (answers ++ [answer])
      = if answer.requested then [] else answer.dependency :: sinceRequest answers := by
  rw [sinceRequest, List.foldl_append]
  rfl

/-- The answer that is due after `before`. -/
def Due (policy : DependencyPolicy) (n : Nat) (before : List Answer) (dependency : Nat) : Prop :=
  policy = .any ∨ ∀ d < n, d = dependency ∨ d ∈ sinceRequest before

def FollowsRule (policy : DependencyPolicy) (n : Nat) (answers : List Answer) : Prop :=
  ∀ (j : Nat) (a : Answer), answers[j]? = some a → (a.requested = true ↔ Due policy n (answers.take j) a.dependency)

theorem FollowsRule.concat {policy : DependencyPolicy} {n : Nat} {answers : List Answer} {a : Answer}
    (h : FollowsRule policy n answers) (ha : a.requested = true ↔ Due policy n answers a.dependency) :
    FollowsRule policy n (answers ++ [a]) := by
  intro j b hb
  rcases getElem?_concat_cases hb with hb | ⟨rfl, rfl⟩
  · obtain ⟨hlt, -⟩ := List.getElem?_eq_some_iff.mp hb
    rw [List.take_append_of_le_length (Nat.le_of_lt hlt)]
    exact h j b hb
  · rw [List.take_left']
    · exact ha
    · rfl

/-- The state of a trigger after these notifications. -/
structure Tracks (policy : DependencyPolicy) (n : Nat) (answers : List Answer) (trigger : TriggerState) : Prop where
  asked : trigger.policy = policy
  size : trigger.ready.length = n
  ready : policy = .all → ∀ d, d < n → (trigger.ready[d]? = some true ↔ d ∈ sinceRequest answers)
  follows : FollowsRule policy n answers

theorem Tracks.notify {policy : DependencyPolicy} {n index : Nat} {answers : List Answer} {trigger next : TriggerState}
    {requested : Bool} (h : Tracks policy n answers trigger) (hn : trigger.notify index = some (next, requested)) :
    Tracks policy n (answers ++ [⟨index, requested⟩]) next := by
  unfold TriggerState.notify at hn
  cases hpolicy : trigger.policy with
  | any =>
    rw [hpolicy] at hn
    cases hn
    have hany : policy = .any := h.asked.symm.trans hpolicy
    refine ⟨h.asked, h.size, ?_, h.follows.concat ⟨fun _ => .inl hany, fun _ => rfl⟩⟩
    intro hall
    rw [hany] at hall
    cases hall
  | all =>
    rw [hpolicy] at hn
    have hall : policy = .all := h.asked.symm.trans hpolicy
    dsimp only at hn
    split at hn
    · rename_i hindex
      -- The flags with the new one, and whether they are all set.
      have hset (d : Nat) (hd : d < n) :
          (trigger.ready.set index true)[d]? = some true ↔ d = index ∨ d ∈ sinceRequest answers := by
        rw [← h.ready hall d hd]
        by_cases heq : index = d
        · subst heq
          rw [List.getElem?_set_self hindex]
          exact ⟨fun _ => .inl rfl, fun _ => rfl⟩
        · rw [List.getElem?_set_ne heq]
          exact (or_iff_right fun hd => heq hd.symm).symm
      have hlen : (trigger.ready.set index true).length = n := by rw [List.length_set, h.size]
      have hdue : (trigger.ready.set index true).all id = true ↔ Due policy n answers index := by
        rw [List.all_eq_true]
        constructor
        · intro hready
          refine .inr fun d hd => (hset d hd).mp ?_
          have hget := List.getElem?_eq_getElem (hlen.symm ▸ hd : d < (trigger.ready.set index true).length)
          have htrue := hready _ (List.mem_of_getElem? hget)
          rw [hget]
          exact congrArg some htrue
        · intro hdue flag hflag
          obtain ⟨d, hd⟩ := List.mem_iff_getElem?.mp hflag
          obtain ⟨hlt, -⟩ := List.getElem?_eq_some_iff.mp hd
          rcases hdue with hany | hdue
          · rw [hall] at hany
            cases hany
          · have htrue := (hset d (hlen ▸ hlt)).mpr (hdue d (hlen ▸ hlt))
            exact Option.some.inj (hd.symm.trans htrue)
      split at hn
      · rename_i hfull
        cases hn
        refine ⟨hall.symm, by simpa using h.size, ?_, h.follows.concat ⟨fun _ => hdue.mp hfull, fun _ => rfl⟩⟩
        intro _ d hd
        rw [sinceRequest_concat, if_pos rfl, List.getElem?_map]
        constructor
        · intro hget
          obtain ⟨flag, -, hflag⟩ := Option.map_eq_some_iff.mp hget
          cases hflag
        · intro hin
          cases hin
      · rename_i hpartial
        cases hn
        refine ⟨hall.symm, hlen, ?_, h.follows.concat ⟨fun hreq => (by cases hreq), fun hd => absurd (hdue.mpr hd) hpartial⟩⟩
        intro _ d hd
        rw [sinceRequest_concat, if_neg Bool.false_ne_true, List.mem_cons]
        exact hset d hd
    · cases hn

/-! ## The notifications of a move -/

inductive TriggerKey where
  | data (component : Name) (index : Nat)
  | task (component : Name) (index : Nat)
  deriving DecidableEq, Repr

namespace TriggerKey

def component : TriggerKey → Name
  | .data component _ => component
  | .task component _ => component

def index : TriggerKey → Nat
  | .data _ index => index
  | .task _ index => index

/-- The vector the trigger stands in. -/
def triggers : TriggerKey → ScheduledComponent → List TriggerState
  | .data _ _ => ScheduledComponent.dataTriggers
  | .task _ _ => ScheduledComponent.taskTriggers

def put : TriggerKey → TriggerState → ScheduledComponent → ScheduledComponent
  | .data _ index, next, c => { c with dataTriggers := c.dataTriggers.set index next }
  | .task _ index, next, c => { c with taskTriggers := c.taskTriggers.set index next }

end TriggerKey

def triggerAt (s : State) (key : TriggerKey) : Option TriggerState :=
  (findComponent s.components key.component).bind fun c => (key.triggers c)[key.index]?

structure Notification where
  trigger : TriggerKey
  answer : Answer
  deriving DecidableEq, Repr

/-- A data callback notifies its trigger while the scheduler accepts events. -/
def callbackNotifications (s : State) (callback : Callback) : List Notification :=
  match callback.target with
  | .data triggerIndex topicIndex =>
    if accepting s then
      match lookupData s callback.component triggerIndex topicIndex with
      | none => []
      | some (_, _, queue) => [⟨.data callback.component triggerIndex, ⟨topicIndex, queue⟩⟩]
    else []
  | .service _ _ => []

/-- The dependents that the propagation notifies, in its order, with the answers it gets. -/
def taskNotifications : State → List TaskDependent → List Choice → List Notification
  | _, [], _ => []
  | s, dependent :: rest, choices =>
    match lookupTask s dependent with
    | none => []
    | some (trigger, next, queue) =>
      let noted := { s with components := setTaskTrigger s.components dependent.component dependent.triggerIndex next }
      ⟨.task dependent.component dependent.triggerIndex, ⟨dependent.dependencyIndex, queue⟩⟩ ::
        if queue then
          taskNotifications (queueEvent noted ⟨dependent.component, trigger.deadline, trigger.priority⟩ (choices.headD {}))
            rest choices.tail
        else taskNotifications noted rest choices

def completionNotifications (s : State) (i : Nat) (event : Event) (status : Status) (choices : List Choice) :
    List Notification :=
  if status.isOk && !s.stopping then
    taskNotifications (finish s i event status) (dependentsOf s.taskDependents event.component) choices
  else []

def notifications (s : State) : Move → List Notification
  | .invokeCallback k _ => ((s.inFlight[k]?).map (callbackNotifications { s with inFlight := s.inFlight.eraseIdx k })).getD []
  | .workerCompletes i status choices =>
    (((s.workers[i]?).bind WorkerPc.event?).map fun event => completionNotifications s i event status choices).getD []
  | _ => []

def answersOf (key : TriggerKey) (notified : List Notification) : List Answer :=
  (notified.filter fun notification => notification.trigger = key).map Notification.answer

theorem answersOf_append (key : TriggerKey) (first rest : List Notification) :
    answersOf key (first ++ rest) = answersOf key first ++ answersOf key rest := by
  rw [answersOf, List.filter_append, List.map_append]
  rfl

theorem answersOf_self (key : TriggerKey) (answer : Answer) (rest : List Notification) :
    answersOf key (⟨key, answer⟩ :: rest) = answer :: answersOf key rest := by
  rw [answersOf, List.filter_cons_of_pos (by simp)]
  rfl

theorem answersOf_other {key other : TriggerKey} (h : other ≠ key) (answer : Answer) (rest : List Notification) :
    answersOf key (⟨other, answer⟩ :: rest) = answersOf key rest := by
  rw [answersOf, List.filter_cons_of_neg (by simpa using h)]
  rfl

/-! ## One notification -/

variable {options : SchedulerOptions} {s t : State} {move : Move}

theorem lookupTask_notify {dependent : TaskDependent} {trigger next : TriggerState} {queue : Bool}
    (h : lookupTask s dependent = some (trigger, next, queue)) :
    triggerAt s (.task dependent.component dependent.triggerIndex) = some trigger
      ∧ trigger.notify dependent.dependencyIndex = some (next, queue) := by
  simp only [lookupTask, Option.bind_eq_bind, Option.bind_eq_some_iff] at h
  obtain ⟨c, hc, found, ht, ⟨n, q⟩, hnotify, heq⟩ := h
  cases heq
  exact ⟨Option.bind_eq_some_iff.mpr ⟨c, hc, ht⟩, hnotify⟩

theorem lookupData_notify {name : Name} {triggerIndex topicIndex : Nat} {trigger next : TriggerState} {queue : Bool}
    (h : lookupData s name triggerIndex topicIndex = some (trigger, next, queue)) :
    triggerAt s (.data name triggerIndex) = some trigger ∧ trigger.notify topicIndex = some (next, queue) := by
  simp only [lookupData, Option.bind_eq_bind, Option.bind_eq_some_iff] at h
  obtain ⟨c, hc, found, ht, ⟨n, q⟩, hnotify, heq⟩ := h
  cases heq
  exact ⟨Option.bind_eq_some_iff.mpr ⟨c, hc, ht⟩, hnotify⟩

theorem triggers_put {key changed : TriggerKey} {c : ScheduledComponent} {trigger : TriggerState} (next : TriggerState)
    (hget : (changed.triggers c)[changed.index]? = some trigger) (hname : key.component = changed.component) :
    (key.triggers (changed.put next c))[key.index]?
      = if key = changed then some next else (key.triggers c)[key.index]? := by
  cases changed with
  | data name i =>
    cases key with
    | data other j =>
      obtain rfl : other = name := hname
      by_cases hj : j = i
      · subst hj
        rw [if_pos rfl]
        exact (getElem?_set_cases hget).trans (if_pos rfl)
      · rw [if_neg (by simpa using hj)]
        exact (getElem?_set_cases hget).trans (if_neg hj)
    | task other j =>
      rw [if_neg (by simp)]
      rfl
  | task name i =>
    cases key with
    | data other j =>
      rw [if_neg (by simp)]
      rfl
    | task other j =>
      obtain rfl : other = name := hname
      by_cases hj : j = i
      · subst hj
        rw [if_pos rfl]
        exact (getElem?_set_cases hget).trans (if_pos rfl)
      · rw [if_neg (by simpa using hj)]
        exact (getElem?_set_cases hget).trans (if_neg hj)

/-- The one trigger is replaced, and no other. -/
theorem triggerAt_put {changed : TriggerKey} {trigger next : TriggerState} (h : triggerAt s changed = some trigger)
    (ht : t.components = updateComponent s.components changed.component (changed.put next)) (key : TriggerKey) :
    triggerAt t key = if key = changed then some next else triggerAt s key := by
  obtain ⟨c, hc, hget⟩ := Option.bind_eq_some_iff.mp h
  have hput (d : ScheduledComponent) : (changed.put next d).name = d.name := by
    cases changed <;> rfl
  rw [triggerAt, triggerAt, ht, findComponent_updateComponent hput]
  by_cases hname : key.component = changed.component
  · rw [hname, hc, Option.map_some, Option.bind_some, Option.bind_some, if_pos (findComponent_name hc)]
    exact triggers_put next hget hname
  · rw [if_neg fun heq => hname (congrArg TriggerKey.component heq)]
    cases hd : findComponent s.components key.component with
    | none => rfl
    | some d =>
      have hne : d.name ≠ changed.component := fun heq => hname ((findComponent_name hd).symm.trans heq)
      rw [Option.map_some, if_neg hne]

/-! ## A move and one trigger -/

/-- The trigger is there and has had these answers. -/
def Tracked (key : TriggerKey) (policy : DependencyPolicy) (n : Nat) (answers : List Answer) (s : State) : Prop :=
  ∃ trigger, triggerAt s key = some trigger ∧ Tracks policy n answers trigger

variable {key : TriggerKey} {policy : DependencyPolicy} {n : Nat} {answers : List Answer}

theorem Tracked.kept (h : Tracked key policy n answers s)
    (hkept : ∀ trigger, triggerAt s key = some trigger → triggerAt t key = some trigger) :
    Tracked key policy n answers t := by
  obtain ⟨trigger, hget, htracks⟩ := h
  exact ⟨trigger, hkept trigger hget, htracks⟩

theorem Tracked.same (h : Tracked key policy n answers s) (hc : t.components = s.components) :
    Tracked key policy n answers t := by
  refine h.kept fun trigger hget => ?_
  rw [triggerAt, hc]
  exact hget

theorem queueEvent_components (s : State) (request : Request) (choice : Choice) :
    (queueEvent s request choice).components = s.components := by
  unfold queueEvent
  split <;> rfl

/-- The trigger that is notified has one more answer; every other has what it had. -/
theorem Tracked.note (h : Tracked key policy n answers s) {changed : TriggerKey} {trigger next : TriggerState}
    {index : Nat} {queue : Bool} (hget : triggerAt s changed = some trigger)
    (hnotify : trigger.notify index = some (next, queue))
    (ht : t.components = updateComponent s.components changed.component (changed.put next)) :
    Tracked key policy n (answers ++ answersOf key [⟨changed, ⟨index, queue⟩⟩]) t := by
  obtain ⟨found, hfound, htracks⟩ := h
  by_cases hkey : changed = key
  · subst hkey
    cases hget.symm.trans hfound
    refine ⟨next, ?_, ?_⟩
    · rw [triggerAt_put hget ht, if_pos rfl]
    · rw [answersOf_self]
      exact htracks.notify hnotify
  · refine ⟨found, ?_, ?_⟩
    · rw [triggerAt_put hget ht, if_neg fun heq => hkey heq.symm]
      exact hfound
    · rw [answersOf_other hkey]
      show Tracks policy n (answers ++ []) found
      rw [List.append_nil]
      exact htracks

theorem Tracked.propagate (h : Tracked key policy n answers s) (dependents : List TaskDependent) (choices : List Choice) :
    Tracked key policy n (answers ++ answersOf key (taskNotifications s dependents choices))
      (propagate s dependents choices) := by
  induction dependents generalizing s answers choices with
  | nil =>
    show Tracked key policy n (answers ++ []) s
    rw [List.append_nil]
    exact h
  | cons dependent rest ih =>
    rw [Scheduler.propagate, taskNotifications]
    cases hlookup : lookupTask s dependent with
    | none =>
      show Tracked key policy n (answers ++ []) { s with terminated := true }
      rw [List.append_nil]
      exact h.same rfl
    | some found =>
      obtain ⟨trigger, next, queue⟩ := found
      obtain ⟨hget, hnotify⟩ := lookupTask_notify hlookup
      have hnoted : Tracked key policy n (answers ++ answersOf key
            [⟨.task dependent.component dependent.triggerIndex, ⟨dependent.dependencyIndex, queue⟩⟩])
          { s with components := setTaskTrigger s.components dependent.component dependent.triggerIndex next } :=
        h.note hget hnotify rfl
      dsimp only
      rw [← List.singleton_append, answersOf_append, ← List.append_assoc]
      cases queue with
      | true => exact ih (hnoted.same (queueEvent_components _ _ _)) _
      | false => exact ih hnoted _

theorem Tracked.invoke (h : Tracked key policy n answers s) (callback : Callback) (choice : Choice) :
    Tracked key policy n (answers ++ answersOf key (callbackNotifications s callback)) (invoke s callback choice) := by
  have hnone : Tracked key policy n (answers ++ answersOf key []) s := by
    show Tracked key policy n (answers ++ []) s
    rw [List.append_nil]
    exact h
  unfold Scheduler.invoke callbackNotifications
  cases callback.target with
  | service deadline priority =>
    dsimp only
    split
    · exact hnone.same (queueEvent_components _ _ _)
    · exact hnone
  | data triggerIndex topicIndex =>
    dsimp only
    unfold onDataAvailable
    cases haccepting : accepting s with
    | false => exact hnone
    | true =>
      simp only [Bool.not_true, Bool.false_eq_true, if_false, if_true]
      cases hlookup : lookupData s callback.component triggerIndex topicIndex with
      | none => exact hnone.same rfl
      | some found =>
        obtain ⟨trigger, next, queue⟩ := found
        obtain ⟨hget, hnotify⟩ := lookupData_notify hlookup
        have hnoted : Tracked key policy n
            (answers ++ answersOf key [⟨.data callback.component triggerIndex, ⟨topicIndex, queue⟩⟩])
            { s with
              components := setDataTrigger s.components callback.component triggerIndex next
              effects := (callback.run, s.run) :: s.effects } :=
          h.note hget hnotify rfl
        cases queue with
        | true => exact hnoted.same (queueEvent_components _ _ _)
        | false => exact hnoted

theorem Tracked.complete (h : Tracked key policy n answers s) (i : Nat) (event : Event) (status : Status)
    (choices : List Choice) :
    Tracked key policy n (answers ++ answersOf key (completionNotifications s i event status choices))
      (complete s i event status choices) := by
  have hfinish : Tracked key policy n answers (finish s i event status) := h.same rfl
  unfold Scheduler.complete completionNotifications
  split
  · exact hfinish.propagate _ _
  · show Tracked key policy n (answers ++ []) _
    rw [List.append_nil]
    exact hfinish

/-- The component a queue request is for. -/
def Entry.request? : Entry → Option Name
  | .queued component _ => some component
  | .coalesced component _ => some component
  | .started _ _ => none
  | .finished _ _ => none

/-- The requests of the run, latest first. -/
def requestsOf (log : List Entry) : List Name := log.filterMap Entry.request?

theorem queueEvent_requests (s : State) (request : Request) (choice : Choice) :
    requestsOf (queueEvent s request choice).log = request.component :: requestsOf s.log := by
  unfold queueEvent
  split
  · rfl
  · rfl

end PuppetMaster.Scheduler
