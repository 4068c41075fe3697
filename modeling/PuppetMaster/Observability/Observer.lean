/-
  PuppetMaster.Observability.Observer — the runtime's event hub and its metrics
  (observability.cpp).

  A member function of `Observer` holds the lock once, so a history is a list of calls, in
  the order they held it. Times and durations are nanoseconds; counters and sums are 64 bits wide.
  A sum of nanoseconds that does not fit is undefined in the language: here it wraps, and the
  results about sums assume that they fit (`WithinRange`).
  A callback is called after the lock is released: `emit`, `log` and `publishMetrics` say
  which, and with what.

  `accepted` are the events of a history that were emitted while the observer was enabled.
  An observer `Holds` the events it applied: the accumulator of a name has the totals of the
  name's events (`Holds.topics_totals`, `Holds.tasks_totals`). So a snapshot has one entry for
  each name of the accepted events, and while no sum overflows their totals and means
  (`snapshot_totals`); then its values bound each other (`snapshot_bounds`).
-/

import Mathlib.Data.List.Basic
import Mathlib.Data.List.Infix
import Mathlib.Algebra.Order.BigOperators.Group.List
import Mathlib.Algebra.Order.Group.Int
import Mathlib.Data.UInt
import PuppetMaster.Lib.Signed
import PuppetMaster.Lib.SortedMap
import PuppetMaster.Observability.JsonLog

namespace PuppetMaster.Observability

open PuppetMaster.Core PuppetMaster.Lib

inductive EventKind where
  | topicPublished
  | topicReceived
  | queueDepth
  | taskExecution
  | deadlineMiss
  deriving DecidableEq

structure Event where
  kind : EventKind := .topicPublished
  timestamp : Int := 0
  resource : Bytes
  bytes : UInt64 := 0
  queueDepth : UInt64 := 0
  duration : Int := 0
  durationAvailable : Bool := false
  deadline : Int := 0
  success : Bool := true
  queueWait : Int := 0
  deriving DecidableEq

structure TopicMetrics where
  topicName : Bytes := []
  messagesPublished : UInt64 := 0
  bytesPublished : UInt64 := 0
  messagesReceived : UInt64 := 0
  bytesReceived : UInt64 := 0
  latencySamples : UInt64 := 0
  queueDepth : UInt64 := 0
  maxQueueDepth : UInt64 := 0
  lastLatency : Int := 0
  averageLatency : Int := 0
  maxLatency : Int := 0
  publishMessagesPerSecond : Float := 0
  publishBytesPerSecond : Float := 0
  receiveMessagesPerSecond : Float := 0
  receiveBytesPerSecond : Float := 0

structure TaskMetrics where
  taskName : Bytes := []
  executions : UInt64 := 0
  failures : UInt64 := 0
  deadlineMisses : UInt64 := 0
  lastExecutionTime : Int := 0
  averageExecutionTime : Int := 0
  maxExecutionTime : Int := 0
  lastQueueWait : Int := 0
  averageQueueWait : Int := 0
  maxQueueWait : Int := 0
  lastResponseTime : Int := 0
  averageResponseTime : Int := 0
  maxResponseTime : Int := 0

structure MetricsSnapshot where
  capturedAt : Int := 0
  uptime : Int := 0
  topics : List TopicMetrics := []
  tasks : List TaskMetrics := []

/-- The callbacks are values of a type of their own: what they do is the application's. -/
structure Options (κ : Type) where
  enabled : Bool := true
  useDefaultLogSink : Bool := true
  eventCallback : Option κ := none
  metricsCallback : Option κ := none
  logCallback : Option κ := none

structure TopicAccumulator where
  metrics : TopicMetrics := {}
  totalLatency : Int := 0

structure TaskAccumulator where
  metrics : TaskMetrics := {}
  totalExecutionTime : Int := 0
  totalQueueWait : Int := 0
  totalResponseTime : Int := 0

/-- `Observer::Impl`. -/
structure Observer (κ : Type) where
  options : Options κ
  startedAt : Int
  topics : SortedMap Bytes TopicAccumulator := .empty
  tasks : SortedMap Bytes TaskAccumulator := .empty

/-! ## Durations -/

def averageDuration (total : Int) (samples : UInt64) : Int :=
  if samples = 0 then 0 else wrapInt64 (total.tdiv (wrapInt64 samples.toNat))

/-- `duration<double>(elapsed).count()`. -/
def seconds (elapsed : Int) : Float := Float.ofInt elapsed / 1000000000

def perSecond (value : UInt64) (elapsed : Int) : Float :=
  let seconds := seconds elapsed
  if seconds > 0 then value.toFloat / seconds else 0

/-! ## Apply -/

def TopicAccumulator.published (topic : TopicAccumulator) (event : Event) : TopicAccumulator :=
  { topic with metrics := { topic.metrics with
      topicName := event.resource
      messagesPublished := topic.metrics.messagesPublished + 1
      bytesPublished := topic.metrics.bytesPublished + event.bytes } }

def TopicAccumulator.received (topic : TopicAccumulator) (event : Event) : TopicAccumulator :=
  let topic := { topic with metrics := { topic.metrics with
      topicName := event.resource
      messagesReceived := topic.metrics.messagesReceived + 1
      bytesReceived := topic.metrics.bytesReceived + event.bytes } }
  if event.durationAvailable then
    { metrics := { topic.metrics with
        latencySamples := topic.metrics.latencySamples + 1
        lastLatency := event.duration
        maxLatency := max topic.metrics.maxLatency event.duration }
      totalLatency := wrapInt64 (topic.totalLatency + event.duration) }
  else topic

def TopicAccumulator.depth (topic : TopicAccumulator) (event : Event) : TopicAccumulator :=
  { topic with metrics := { topic.metrics with
      topicName := event.resource
      queueDepth := event.queueDepth
      maxQueueDepth := max topic.metrics.maxQueueDepth event.queueDepth } }

/-- `queue_wait + duration`. -/
def Event.responseTime (event : Event) : Int := wrapInt64 (event.queueWait + event.duration)

def TaskAccumulator.executed (task : TaskAccumulator) (event : Event) : TaskAccumulator :=
  let responseTime := event.responseTime
  { metrics := { task.metrics with
      taskName := event.resource
      executions := task.metrics.executions + 1
      failures := if !event.success then task.metrics.failures + 1 else task.metrics.failures
      lastExecutionTime := event.duration
      maxExecutionTime := max task.metrics.maxExecutionTime event.duration
      lastQueueWait := event.queueWait
      maxQueueWait := max task.metrics.maxQueueWait event.queueWait
      lastResponseTime := responseTime
      maxResponseTime := max task.metrics.maxResponseTime responseTime }
    totalExecutionTime := wrapInt64 (task.totalExecutionTime + event.duration)
    totalQueueWait := wrapInt64 (task.totalQueueWait + event.queueWait)
    totalResponseTime := wrapInt64 (task.totalResponseTime + responseTime) }

def TaskAccumulator.missed (task : TaskAccumulator) (event : Event) : TaskAccumulator :=
  { task with metrics := { task.metrics with
      taskName := event.resource
      deadlineMisses := task.metrics.deadlineMisses + 1 } }

variable {κ : Type}

def Observer.apply (observer : Observer κ) (event : Event) : Observer κ :=
  match event.kind with
  | .topicPublished => { observer with topics := observer.topics.modify event.resource {} (·.published event) }
  | .topicReceived => { observer with topics := observer.topics.modify event.resource {} (·.received event) }
  | .queueDepth => { observer with topics := observer.topics.modify event.resource {} (·.depth event) }
  | .taskExecution => { observer with tasks := observer.tasks.modify event.resource {} (·.executed event) }
  | .deadlineMiss => { observer with tasks := observer.tasks.modify event.resource {} (·.missed event) }

/-! ## BuildSnapshot -/

def TopicAccumulator.snapshot (topic : TopicAccumulator) (uptime : Int) : TopicMetrics :=
  let metrics := topic.metrics
  { metrics with
    averageLatency := averageDuration topic.totalLatency metrics.latencySamples
    publishMessagesPerSecond := perSecond metrics.messagesPublished uptime
    publishBytesPerSecond := perSecond metrics.bytesPublished uptime
    receiveMessagesPerSecond := perSecond metrics.messagesReceived uptime
    receiveBytesPerSecond := perSecond metrics.bytesReceived uptime }

def TaskAccumulator.snapshot (task : TaskAccumulator) : TaskMetrics :=
  let metrics := task.metrics
  { metrics with
    averageExecutionTime := averageDuration task.totalExecutionTime metrics.executions
    averageQueueWait := averageDuration task.totalQueueWait metrics.executions
    averageResponseTime := averageDuration task.totalResponseTime metrics.executions }

def Observer.buildSnapshot (observer : Observer κ) (capturedAt : Int) : MetricsSnapshot :=
  let uptime := wrapInt64 (capturedAt - observer.startedAt)
  { capturedAt, uptime
    topics := observer.topics.entries.map fun entry => entry.2.snapshot uptime
    tasks := observer.tasks.entries.map fun entry => entry.2.snapshot }

/-! ## The member functions -/

/-- The constructor; `write` is the default sink, `logging::Write`. -/
def Observer.create (options : Options κ) (write : κ) (now : Int) : Observer κ :=
  { options := if options.useDefaultLogSink && options.logCallback.isNone then { options with logCallback := some write }
      else options
    startedAt := now }

def Observer.setEnabled (observer : Observer κ) (enabled : Bool) : Observer κ :=
  { observer with options := { observer.options with enabled } }

def Observer.setEventCallback (observer : Observer κ) (callback : Option κ) : Observer κ :=
  { observer with options := { observer.options with eventCallback := callback } }

def Observer.setMetricsCallback (observer : Observer κ) (callback : Option κ) : Observer κ :=
  { observer with options := { observer.options with metricsCallback := callback } }

def Observer.setLogCallback (observer : Observer κ) (callback : Option κ) : Observer κ :=
  { observer with options := { observer.options with logCallback := callback } }

/-- An event without a time gets the time it is emitted at. -/
def Event.stamped (event : Event) (now : Int) : Event :=
  if event.timestamp = 0 then { event with timestamp := now } else event

/-- `Emit`, and the call it makes when the lock is released. -/
def Observer.emit (observer : Observer κ) (event : Event) (now : Int) : Observer κ × Option (κ × Event) :=
  if !observer.options.enabled then (observer, none)
  else
    let event := event.stamped now
    let observer := observer.apply event
    (observer, observer.options.eventCallback.map fun callback => (callback, event))

def Observer.log (observer : Observer κ) (record : LogRecord) : Option (κ × LogRecord) :=
  if !observer.options.enabled then none
  else observer.options.logCallback.map fun callback => (callback, record)

def Observer.publishMetrics (observer : Observer κ) (now : Int) : Option (κ × MetricsSnapshot) :=
  if !observer.options.enabled then none
  else observer.options.metricsCallback.map fun callback => (callback, observer.buildSnapshot now)

/-! ## What is emitted -/

def recordTopicPublished (topic : Bytes) (bytes : UInt64) : List Event :=
  [{ kind := .topicPublished, resource := topic, bytes }]

def recordTopicReceived (topic : Bytes) (bytes : UInt64) (latency : Option Int) : List Event :=
  let event : Event := { kind := .topicReceived, resource := topic, bytes }
  match latency with
  | some latency => [{ event with duration := max latency 0, durationAvailable := true }]
  | none => [event]

def recordQueueDepth (topic : Bytes) (queueDepth : UInt64) : List Event :=
  [{ kind := .queueDepth, resource := topic, queueDepth }]

/-- `now` is the clock where the execution has no time of its own. -/
def recordTaskExecution (component : Bytes) (duration deadline : Int) (success : Bool) (queueWait completedAt now : Int) :
    List Event :=
  let timestamp := if completedAt ≠ 0 then completedAt else now
  let execution : Event :=
    { kind := .taskExecution, resource := component, duration, durationAvailable := true, deadline, success, queueWait,
      timestamp }
  if deadline > 0 ∧ execution.responseTime > deadline then [execution, { execution with kind := .deadlineMiss }]
  else [execution]

/-! ## Histories -/

inductive Call (κ : Type) where
  | emit (event : Event) (now : Int)
  | setEnabled (enabled : Bool)
  | setEventCallback (callback : Option κ)
  | setMetricsCallback (callback : Option κ)
  | setLogCallback (callback : Option κ)

def Observer.perform (observer : Observer κ) : Call κ → Observer κ
  | .emit event now => (observer.emit event now).1
  | .setEnabled enabled => observer.setEnabled enabled
  | .setEventCallback callback => observer.setEventCallback callback
  | .setMetricsCallback callback => observer.setMetricsCallback callback
  | .setLogCallback callback => observer.setLogCallback callback

/-- The events that are emitted while the observer is enabled. -/
def accepted : Bool → List (Call κ) → List Event
  | _, [] => []
  | enabled, .emit event now :: calls =>
    if enabled then event.stamped now :: accepted enabled calls else accepted enabled calls
  | _, .setEnabled enabled :: calls => accepted enabled calls
  | enabled, .setEventCallback _ :: calls => accepted enabled calls
  | enabled, .setMetricsCallback _ :: calls => accepted enabled calls
  | enabled, .setLogCallback _ :: calls => accepted enabled calls

def EventKind.ofTopic : EventKind → Bool
  | .topicPublished | .topicReceived | .queueDepth => true
  | .taskExecution | .deadlineMiss => false

/-- What an event does to the accumulator of its name. -/
def TopicAccumulator.apply (topic : TopicAccumulator) (event : Event) : TopicAccumulator :=
  match event.kind with
  | .topicPublished => topic.published event
  | .topicReceived => topic.received event
  | .queueDepth => topic.depth event
  | _ => topic

def TaskAccumulator.apply (task : TaskAccumulator) (event : Event) : TaskAccumulator :=
  match event.kind with
  | .taskExecution => task.executed event
  | .deadlineMiss => task.missed event
  | _ => task

theorem apply_topics (observer : Observer κ) (event : Event) :
    (observer.apply event).topics =
      if event.kind.ofTopic then observer.topics.modify event.resource {} (·.apply event) else observer.topics := by
  unfold Observer.apply TopicAccumulator.apply
  cases event.kind <;> rfl

theorem apply_tasks (observer : Observer κ) (event : Event) :
    (observer.apply event).tasks =
      if event.kind.ofTopic then observer.tasks else observer.tasks.modify event.resource {} (·.apply event) := by
  unfold Observer.apply TaskAccumulator.apply
  cases event.kind <;> rfl

@[simp] theorem apply_options (observer : Observer κ) (event : Event) : (observer.apply event).options = observer.options := by
  unfold Observer.apply
  cases event.kind <;> rfl

@[simp] theorem apply_startedAt (observer : Observer κ) (event : Event) :
    (observer.apply event).startedAt = observer.startedAt := by
  unfold Observer.apply
  cases event.kind <;> rfl

/-- The accumulators are what the events make, those of topics and those of tasks apart. -/
structure Holds (observer : Observer κ) (events : List Event) : Prop where
  topics : observer.topics = (events.filter (·.kind.ofTopic)).foldl
    (fun topics event => topics.modify event.resource {} (·.apply event)) .empty
  tasks : observer.tasks = (events.filter (!·.kind.ofTopic)).foldl
    (fun tasks event => tasks.modify event.resource {} (·.apply event)) .empty

variable {observer : Observer κ} {events : List Event}

theorem Holds.apply (h : Holds observer events) (event : Event) : Holds (observer.apply event) (events ++ [event]) := by
  constructor
  · rw [apply_topics, h.topics, List.filter_append, List.foldl_append]
    cases hkind : event.kind.ofTopic <;> simp [hkind]
  · rw [apply_tasks, h.tasks, List.filter_append, List.foldl_append]
    cases hkind : event.kind.ofTopic <;> simp [hkind]

/-- An emission applies the event, if it is accepted. -/
theorem Holds.emit (h : Holds observer events) (event : Event) (now : Int) :
    Holds (observer.emit event now).1
      (if observer.options.enabled then events ++ [event.stamped now] else events) := by
  unfold Observer.emit
  cases henabled : observer.options.enabled with
  | true => exact h.apply (event.stamped now)
  | false => exact h

@[simp] theorem emit_options (observer : Observer κ) (event : Event) (now : Int) :
    (observer.emit event now).1.options = observer.options := by
  unfold Observer.emit
  split
  · rfl
  · exact apply_options _ _

@[simp] theorem emit_startedAt (observer : Observer κ) (event : Event) (now : Int) :
    (observer.emit event now).1.startedAt = observer.startedAt := by
  unfold Observer.emit
  split
  · rfl
  · exact apply_startedAt _ _

/-- A history adds its accepted events. -/
theorem Holds.history (h : Holds observer events) (calls : List (Call κ)) :
    Holds (calls.foldl Observer.perform observer) (events ++ accepted observer.options.enabled calls) := by
  induction calls generalizing observer events with
  | nil => rwa [accepted, List.append_nil]
  | cons call calls ih =>
    cases call with
    | emit event now =>
      have hmore := ih (h.emit event now)
      rw [emit_options] at hmore
      cases henabled : observer.options.enabled with
      | true => simpa [henabled, accepted, Observer.perform] using hmore
      | false => simpa [henabled, accepted, Observer.perform] using hmore
    | setEnabled enabled => exact @ih (observer.setEnabled enabled) events ⟨h.topics, h.tasks⟩
    | setEventCallback callback => exact @ih (observer.setEventCallback callback) events ⟨h.topics, h.tasks⟩
    | setMetricsCallback callback => exact @ih (observer.setMetricsCallback callback) events ⟨h.topics, h.tasks⟩
    | setLogCallback callback => exact @ih (observer.setLogCallback callback) events ⟨h.topics, h.tasks⟩

theorem history_startedAt (calls : List (Call κ)) (observer : Observer κ) :
    (calls.foldl Observer.perform observer).startedAt = observer.startedAt := by
  induction calls generalizing observer with
  | nil => rfl
  | cons call calls ih =>
    rw [List.foldl_cons, ih]
    cases call with
    | emit event now => exact emit_startedAt observer event now
    | setEnabled enabled => rfl
    | setEventCallback callback => rfl
    | setMetricsCallback callback => rfl
    | setLogCallback callback => rfl

/-! ## Totals -/

def last {α : Type} (init : α) (series : List α) : α := series.getLastD init

def peak {α : Type} [Max α] (init : α) (series : List α) : α := series.foldl max init

def ofKind (kind : EventKind) (events : List Event) : List Event := events.filter (·.kind = kind)

/-- The latencies of the messages that have one. -/
def latencies (events : List Event) : List Int :=
  ((ofKind .topicReceived events).filter (·.durationAvailable)).map (·.duration)

def depths (events : List Event) : List UInt64 := (ofKind .queueDepth events).map (·.queueDepth)

def executionTimes (events : List Event) : List Int := (ofKind .taskExecution events).map (·.duration)

def queueWaits (events : List Event) : List Int := (ofKind .taskExecution events).map (·.queueWait)

def responseTimes (events : List Event) : List Int := (ofKind .taskExecution events).map (·.responseTime)

/-- The accumulator of a topic holds the totals of its events. -/
structure TopicTotals (events : List Event) (topic : TopicAccumulator) : Prop where
  name : topic.metrics.topicName = last [] ((events.filter (·.kind.ofTopic)).map (·.resource))
  messagesPublished : topic.metrics.messagesPublished = UInt64.ofNat (ofKind .topicPublished events).length
  bytesPublished : topic.metrics.bytesPublished = ((ofKind .topicPublished events).map (·.bytes)).sum
  messagesReceived : topic.metrics.messagesReceived = UInt64.ofNat (ofKind .topicReceived events).length
  bytesReceived : topic.metrics.bytesReceived = ((ofKind .topicReceived events).map (·.bytes)).sum
  latencySamples : topic.metrics.latencySamples = UInt64.ofNat (latencies events).length
  queueDepth : topic.metrics.queueDepth = last 0 (depths events)
  maxQueueDepth : topic.metrics.maxQueueDepth = peak 0 (depths events)
  lastLatency : topic.metrics.lastLatency = last 0 (latencies events)
  maxLatency : topic.metrics.maxLatency = peak 0 (latencies events)
  totalLatency : topic.totalLatency = wrapInt64 (latencies events).sum

structure TaskTotals (events : List Event) (task : TaskAccumulator) : Prop where
  name : task.metrics.taskName = last [] ((events.filter (!·.kind.ofTopic)).map (·.resource))
  executions : task.metrics.executions = UInt64.ofNat (ofKind .taskExecution events).length
  failures : task.metrics.failures = UInt64.ofNat ((ofKind .taskExecution events).countP (!·.success))
  deadlineMisses : task.metrics.deadlineMisses = UInt64.ofNat (ofKind .deadlineMiss events).length
  lastExecutionTime : task.metrics.lastExecutionTime = last 0 (executionTimes events)
  maxExecutionTime : task.metrics.maxExecutionTime = peak 0 (executionTimes events)
  lastQueueWait : task.metrics.lastQueueWait = last 0 (queueWaits events)
  maxQueueWait : task.metrics.maxQueueWait = peak 0 (queueWaits events)
  lastResponseTime : task.metrics.lastResponseTime = last 0 (responseTimes events)
  maxResponseTime : task.metrics.maxResponseTime = peak 0 (responseTimes events)
  totalExecutionTime : task.totalExecutionTime = wrapInt64 (executionTimes events).sum
  totalQueueWait : task.totalQueueWait = wrapInt64 (queueWaits events).sum
  totalResponseTime : task.totalResponseTime = wrapInt64 (responseTimes events).sum

/-- The mean, rounded towards zero; of no values it is zero. -/
def mean (series : List Int) : Int := series.sum.tdiv series.length

/-- What an accumulator counts and adds up of these events fits 64 bits, signed, all the way. -/
structure InRange (events : List Event) : Prop where
  count : events.length < 2 ^ 63
  responses : ∀ event ∈ ofKind .taskExecution events, FitsInt64 (event.queueWait + event.duration)
  sums : ∀ seen ∈ events.inits, FitsInt64 (latencies seen).sum ∧ FitsInt64 (executionTimes seen).sum
    ∧ FitsInt64 (queueWaits seen).sum ∧ FitsInt64 (responseTimes seen).sum

instance (events : List Event) : Decidable (InRange events) :=
  decidable_of_iff
    (events.length < 2 ^ 63
      ∧ (∀ event ∈ ofKind .taskExecution events, FitsInt64 (event.queueWait + event.duration))
      ∧ ∀ seen ∈ events.inits, FitsInt64 (latencies seen).sum ∧ FitsInt64 (executionTimes seen).sum
        ∧ FitsInt64 (queueWaits seen).sum ∧ FitsInt64 (responseTimes seen).sum)
    ⟨fun h => ⟨h.1, h.2.1, h.2.2⟩, fun h => ⟨h.count, h.responses, h.sums⟩⟩

section series

variable {α : Type}

@[simp] theorem last_snoc (init : α) (series : List α) (a : α) : last init (series ++ [a]) = a := by simp [last]

@[simp] theorem peak_snoc [Max α] (init : α) (series : List α) (a : α) :
    peak init (series ++ [a]) = max (peak init series) a := by simp [peak]

theorem ofKind_snoc (kind : EventKind) (events : List Event) (event : Event) :
    ofKind kind (events ++ [event]) = if event.kind = kind then ofKind kind events ++ [event] else ofKind kind events := by
  rw [ofKind, ofKind, List.filter_append]
  split <;> simp_all

end series

theorem uint64_ofNat_succ (n : Nat) : UInt64.ofNat (n + 1) = UInt64.ofNat n + 1 := UInt64.ofNat_add n 1

/-- Only events of tasks are left out of what a topic's accumulator holds. -/
theorem TopicTotals.other {events : List Event} {topic : TopicAccumulator} (h : TopicTotals events topic) {event : Event}
    (hkind : event.kind.ofTopic = false) : TopicTotals (events ++ [event]) topic := by
  have hother (kind : EventKind) (hofTopic : kind.ofTopic = true) : ofKind kind (events ++ [event]) = ofKind kind events := by
    rw [ofKind_snoc, if_neg]
    rintro rfl
    rw [hofTopic] at hkind
    cases hkind
  have hnames : (events ++ [event]).filter (·.kind.ofTopic) = events.filter (·.kind.ofTopic) := by
    simp [List.filter_append, hkind]
  have hpublished := hother .topicPublished rfl
  have hreceived := hother .topicReceived rfl
  have hdepth := hother .queueDepth rfl
  cases h
  constructor <;> simp only [latencies, depths, hnames, hpublished, hreceived, hdepth] <;> assumption

theorem TaskTotals.other {events : List Event} {task : TaskAccumulator} (h : TaskTotals events task) {event : Event}
    (hkind : event.kind.ofTopic = true) : TaskTotals (events ++ [event]) task := by
  have hother (kind : EventKind) (hofTask : kind.ofTopic = false) : ofKind kind (events ++ [event]) = ofKind kind events := by
    rw [ofKind_snoc, if_neg]
    rintro rfl
    rw [hofTask] at hkind
    cases hkind
  have hnames : (events ++ [event]).filter (!·.kind.ofTopic) = events.filter (!·.kind.ofTopic) := by
    simp [List.filter_append, hkind]
  have hexecuted := hother .taskExecution rfl
  have hmissed := hother .deadlineMiss rfl
  cases h
  constructor <;> simp only [executionTimes, queueWaits, responseTimes, hnames, hexecuted, hmissed] <;> assumption

theorem TopicTotals.received {events : List Event} {topic : TopicAccumulator} (h : TopicTotals events topic) {event : Event}
    (hkind : event.kind = .topicReceived) : TopicTotals (events ++ [event]) (topic.received event) := by
  have hreceived : ofKind .topicReceived (events ++ [event]) = ofKind .topicReceived events ++ [event] := by
    rw [ofKind_snoc, if_pos hkind]
  have hpublished : ofKind .topicPublished (events ++ [event]) = ofKind .topicPublished events := by
    rw [ofKind_snoc, if_neg (by rw [hkind]; decide)]
  have hdepth : depths (events ++ [event]) = depths events := by
    rw [depths, ofKind_snoc, if_neg (by rw [hkind]; decide), depths]
  have hnames : (events ++ [event]).filter (·.kind.ofTopic) = events.filter (·.kind.ofTopic) ++ [event] := by
    simp [List.filter_append, hkind, EventKind.ofTopic]
  obtain ⟨h1, h2, h3, h4, h5, h6, h7, h8, h9, h10, h11⟩ := h
  cases hduration : event.durationAvailable with
  | true =>
    have hlatencies : latencies (events ++ [event]) = latencies events ++ [event.duration] := by
      simp [latencies, hreceived, hduration]
    constructor <;>
      simp only [TopicAccumulator.received, hduration, if_true, hreceived, hpublished, hdepth, hnames, hlatencies,
        List.map_append, List.map_cons, List.map_nil, last_snoc, peak_snoc, List.length_append, List.length_singleton,
        List.sum_append, List.sum_singleton, uint64_ofNat_succ, wrapInt64_add, h2, h3, h4, h5, h6, h7, h8, h10, h11]
  | false =>
    have hlatencies : latencies (events ++ [event]) = latencies events := by simp [latencies, hreceived, hduration]
    constructor <;>
      simp only [TopicAccumulator.received, hduration, Bool.false_eq_true, if_false, hreceived, hpublished, hdepth, hnames,
        hlatencies, List.map_append, List.map_cons, List.map_nil, last_snoc, List.length_append, List.length_singleton,
        List.sum_append, List.sum_singleton, uint64_ofNat_succ, h2, h3, h4, h5, h6, h7, h8, h9, h10, h11]

/-- One more event, one step of the accumulator. -/
theorem TopicTotals.apply {events : List Event} {topic : TopicAccumulator} (h : TopicTotals events topic) (event : Event) :
    TopicTotals (events ++ [event]) (topic.apply event) := by
  unfold TopicAccumulator.apply
  cases hkind : event.kind with
  | topicPublished =>
    obtain ⟨h1, h2, h3, h4, h5, h6, h7, h8, h9, h10, h11⟩ := h
    constructor <;>
      simp [TopicAccumulator.published, latencies, depths, ofKind_snoc, List.filter_append, EventKind.ofTopic,
        uint64_ofNat_succ, *]
  | topicReceived => exact h.received hkind
  | queueDepth =>
    obtain ⟨h1, h2, h3, h4, h5, h6, h7, h8, h9, h10, h11⟩ := h
    constructor <;>
      simp [TopicAccumulator.depth, latencies, depths, ofKind_snoc, List.filter_append, EventKind.ofTopic, *]
  | taskExecution => exact h.other (by rw [hkind]; rfl)
  | deadlineMiss => exact h.other (by rw [hkind]; rfl)

theorem TaskTotals.executed {events : List Event} {task : TaskAccumulator} (h : TaskTotals events task) {event : Event}
    (hkind : event.kind = .taskExecution) : TaskTotals (events ++ [event]) (task.executed event) := by
  have hexecuted : ofKind .taskExecution (events ++ [event]) = ofKind .taskExecution events ++ [event] := by
    rw [ofKind_snoc, if_pos hkind]
  have hmissed : ofKind .deadlineMiss (events ++ [event]) = ofKind .deadlineMiss events := by
    rw [ofKind_snoc, if_neg (by rw [hkind]; decide)]
  have hnames : (events ++ [event]).filter (!·.kind.ofTopic) = events.filter (!·.kind.ofTopic) ++ [event] := by
    simp [List.filter_append, hkind, EventKind.ofTopic]
  obtain ⟨h1, h2, h3, h4, h5, h6, h7, h8, h9, h10, h11, h12, h13⟩ := h
  constructor
  case failures =>
    cases hsuccess : event.success <;> simp [TaskAccumulator.executed, hexecuted, hsuccess, h3, uint64_ofNat_succ]
  all_goals
    simp only [TaskAccumulator.executed, executionTimes, queueWaits, responseTimes, hexecuted, hmissed, hnames, List.map_append,
      List.map_cons, List.map_nil, last_snoc, peak_snoc, List.length_append, List.length_singleton, List.sum_append,
      List.sum_singleton, uint64_ofNat_succ, wrapInt64_add, h2, h4, h6, h8, h10, h11, h12, h13]
theorem TaskTotals.apply {events : List Event} {task : TaskAccumulator} (h : TaskTotals events task) (event : Event) :
    TaskTotals (events ++ [event]) (task.apply event) := by
  unfold TaskAccumulator.apply
  cases hkind : event.kind with
  | taskExecution => exact h.executed hkind
  | deadlineMiss =>
    obtain ⟨h1, h2, h3, h4, h5, h6, h7, h8, h9, h10, h11, h12, h13⟩ := h
    constructor <;>
      simp [TaskAccumulator.missed, executionTimes, queueWaits, responseTimes, ofKind_snoc, List.filter_append,
        EventKind.ofTopic, uint64_ofNat_succ, *]
  | topicPublished => exact h.other (by rw [hkind]; rfl)
  | topicReceived => exact h.other (by rw [hkind]; rfl)
  | queueDepth => exact h.other (by rw [hkind]; rfl)

theorem topicTotals_foldl (events : List Event) : TopicTotals events (events.foldl TopicAccumulator.apply {}) := by
  induction events using List.reverseRecOn with
  | nil => constructor <;> rfl
  | append_singleton events event ih =>
    rw [List.foldl_append]
    exact ih.apply event

theorem taskTotals_foldl (events : List Event) : TaskTotals events (events.foldl TaskAccumulator.apply {}) := by
  induction events using List.reverseRecOn with
  | nil => constructor <;> rfl
  | append_singleton events event ih =>
    rw [List.foldl_append]
    exact ih.apply event

/-! ## Snapshots -/

/-- The events of one name. -/
def named (name : Bytes) (events : List Event) : List Event := events.filter (·.resource = name)

/-- Nothing the observer adds up of these events overflows, for no name. -/
def WithinRange (events : List Event) : Prop := ∀ event ∈ events, InRange (named event.resource events)

instance (events : List Event) : Decidable (WithinRange events) := inferInstanceAs (Decidable (∀ event ∈ events, _))

theorem WithinRange.named {events : List Event} (h : WithinRange events) (name : Bytes) : InRange (named name events) := by
  by_cases hname : ∃ event ∈ events, event.resource = name
  · obtain ⟨event, hevent, rfl⟩ := hname
    exact h event hevent
  · have hnone : Observability.named name events = [] :=
      List.filter_eq_nil_iff.mpr fun event hevent => by simpa using fun heq => hname ⟨event, hevent, heq⟩
    rw [hnone]
    decide

theorem foldl_filter_of_same {α β : Type} {p : α → Bool} {f : β → α → β} (h : ∀ b a, p a = false → f b a = b)
    (as : List α) (b : β) : (as.filter p).foldl f b = as.foldl f b := by
  induction as generalizing b with
  | nil => rfl
  | cons a as ih =>
    cases hp : p a with
    | true => rw [List.filter_cons_of_pos hp, List.foldl_cons, List.foldl_cons, ih]
    | false => rw [List.filter_cons_of_neg (by simp [hp]), List.foldl_cons, ih, h b a hp]

theorem TopicAccumulator.apply_other (topic : TopicAccumulator) (event : Event) (h : event.kind.ofTopic = false) :
    topic.apply event = topic := by
  unfold TopicAccumulator.apply
  cases hkind : event.kind <;> simp_all [EventKind.ofTopic]

theorem TaskAccumulator.apply_other (task : TaskAccumulator) (event : Event) (h : (!event.kind.ofTopic) = false) :
    task.apply event = task := by
  unfold TaskAccumulator.apply
  cases hkind : event.kind <;> simp_all [EventKind.ofTopic]

theorem last_of_forall {α : Type} {init a : α} {series : List α} (hne : series ≠ []) (h : ∀ b ∈ series, b = a) :
    last init series = a := by
  rw [last, List.getLastD_eq_getLast?, List.getLast?_eq_some_getLast hne]
  exact h _ (List.getLast_mem hne)

theorem Holds.topics_totals (h : Holds observer events) {entry : Bytes × TopicAccumulator}
    (hentry : entry ∈ observer.topics.entries) : TopicTotals (named entry.1 events) entry.2 := by
  rw [h.topics] at hentry
  rw [SortedMap.value_of_foldl_modify hentry, List.filter_comm, foldl_filter_of_same TopicAccumulator.apply_other]
  exact topicTotals_foldl _

theorem Holds.tasks_totals (h : Holds observer events) {entry : Bytes × TaskAccumulator}
    (hentry : entry ∈ observer.tasks.entries) : TaskTotals (named entry.1 events) entry.2 := by
  rw [h.tasks] at hentry
  rw [SortedMap.value_of_foldl_modify hentry, List.filter_comm, foldl_filter_of_same TaskAccumulator.apply_other]
  exact taskTotals_foldl _

/-- The names that have an entry are those of the events. -/
theorem Holds.mem_topics_keys (h : Holds observer events) {name : Bytes} :
    name ∈ observer.topics.keys ↔ ∃ event ∈ events, event.kind.ofTopic = true ∧ event.resource = name := by
  rw [h.topics, SortedMap.mem_keys_foldl_modify]
  have hempty : name ∉ (SortedMap.empty : SortedMap Bytes TopicAccumulator).keys := List.not_mem_nil
  simp [hempty, and_assoc]

theorem Holds.mem_tasks_keys (h : Holds observer events) {name : Bytes} :
    name ∈ observer.tasks.keys ↔ ∃ event ∈ events, event.kind.ofTopic = false ∧ event.resource = name := by
  rw [h.tasks, SortedMap.mem_keys_foldl_modify]
  have hempty : name ∉ (SortedMap.empty : SortedMap Bytes TaskAccumulator).keys := List.not_mem_nil
  simp [hempty, and_assoc]

/-- The last of the names of one name's events is that name. -/
theorem last_named {p : Event → Bool} {name : Bytes} {events : List Event}
    (h : ∃ event ∈ events, p event = true ∧ event.resource = name) :
    last [] (((named name events).filter p).map (·.resource)) = name := by
  refine last_of_forall ?_ ?_
  · obtain ⟨event, hmem, hp, hname⟩ := h
    have hown : event ∈ (named name events).filter p :=
      List.mem_filter.mpr ⟨List.mem_filter.mpr ⟨hmem, decide_eq_true hname⟩, hp⟩
    exact List.map_eq_nil_iff.not.mpr (List.ne_nil_of_mem hown)
  · intro resource hresource
    obtain ⟨event, hmem, rfl⟩ := List.mem_map.mp hresource
    exact of_decide_eq_true (List.mem_filter.mp (List.mem_filter.mp hmem).1).2

theorem Holds.topicName_eq (h : Holds observer events) {entry : Bytes × TopicAccumulator}
    (hentry : entry ∈ observer.topics.entries) : entry.2.metrics.topicName = entry.1 := by
  rw [(h.topics_totals hentry).name]
  exact last_named (h.mem_topics_keys.mp (List.mem_map_of_mem hentry))

theorem Holds.taskName_eq (h : Holds observer events) {entry : Bytes × TaskAccumulator}
    (hentry : entry ∈ observer.tasks.entries) : entry.2.metrics.taskName = entry.1 := by
  rw [(h.tasks_totals hentry).name]
  obtain ⟨event, hmem, hkind, hname⟩ := h.mem_tasks_keys.mp (List.mem_map_of_mem hentry)
  exact last_named ⟨event, hmem, by simp [hkind], hname⟩

variable {capturedAt : Int}

theorem Holds.topicNames (h : Holds observer events) :
    (observer.buildSnapshot capturedAt).topics.map (·.topicName) = observer.topics.keys := by
  show (observer.topics.entries.map _).map _ = _
  rw [List.map_map]
  exact List.map_congr_left fun entry hentry => h.topicName_eq hentry

theorem Holds.taskNames (h : Holds observer events) :
    (observer.buildSnapshot capturedAt).tasks.map (·.taskName) = observer.tasks.keys := by
  show (observer.tasks.entries.map _).map _ = _
  rw [List.map_map]
  exact List.map_congr_left fun entry hentry => h.taskName_eq hentry

theorem Holds.topic_of_snapshot (h : Holds observer events) {metrics : TopicMetrics}
    (hmetrics : metrics ∈ (observer.buildSnapshot capturedAt).topics) :
    ∃ topic, TopicTotals (named metrics.topicName events) topic
      ∧ metrics = topic.snapshot (wrapInt64 (capturedAt - observer.startedAt)) := by
  obtain ⟨entry, hentry, rfl⟩ := List.mem_map.mp hmetrics
  have hname : (entry.2.snapshot (wrapInt64 (capturedAt - observer.startedAt))).topicName = entry.1 := h.topicName_eq hentry
  exact ⟨entry.2, hname ▸ h.topics_totals hentry, rfl⟩

theorem Holds.task_of_snapshot (h : Holds observer events) {metrics : TaskMetrics}
    (hmetrics : metrics ∈ (observer.buildSnapshot capturedAt).tasks) :
    ∃ task, TaskTotals (named metrics.taskName events) task ∧ metrics = task.snapshot := by
  obtain ⟨entry, hentry, rfl⟩ := List.mem_map.mp hmetrics
  have hname : entry.2.snapshot.taskName = entry.1 := h.taskName_eq hentry
  exact ⟨entry.2, hname ▸ h.tasks_totals hentry, rfl⟩

/-- Of sums and counts that fit, an average is the mean. -/
theorem averageDuration_eq {series : List Int} (hsum : FitsInt64 series.sum) (hcount : series.length < 2 ^ 63) :
    averageDuration (wrapInt64 series.sum) (UInt64.ofNat series.length) = mean series := by
  have hsamples : (UInt64.ofNat series.length).toNat = series.length := by
    rw [UInt64.toNat_ofNat', Nat.mod_eq_of_lt (by omega)]
  unfold averageDuration mean
  split
  · next hzero =>
    have hnone : series.length = 0 := by rw [← hsamples, hzero]; rfl
    rw [hnone, Int.natCast_zero, Int.tdiv_zero]
  · next hne =>
    have hpos : 0 < series.length := by
      apply Nat.pos_of_ne_zero
      intro hzero
      exact hne (by rw [hzero]; rfl)
    have hsigned : wrapInt64 series.length = series.length := wrapInt64_of_fits (fitsInt64_iff.mpr (by omega))
    rw [hsamples, hsigned, wrapInt64_of_fits hsum, wrapInt64_of_fits (fitsInt64_tdiv hsum (by omega))]

theorem length_ofKind_le (kind : EventKind) (events : List Event) : (ofKind kind events).length ≤ events.length :=
  List.length_filter_le _ _

theorem length_latencies_le (events : List Event) : (latencies events).length ≤ (ofKind .topicReceived events).length := by
  rw [latencies, List.length_map]
  exact List.length_filter_le _ _

theorem TopicTotals.averageLatency {topic : TopicAccumulator} (totals : TopicTotals events topic) (h : InRange events)
    (uptime : Int) : (topic.snapshot uptime).averageLatency = mean (latencies events) := by
  have hcount : (latencies events).length < 2 ^ 63 :=
    Nat.lt_of_le_of_lt ((length_latencies_le events).trans (length_ofKind_le _ events)) h.count
  show averageDuration topic.totalLatency topic.metrics.latencySamples = _
  rw [totals.totalLatency, totals.latencySamples]
  exact averageDuration_eq (h.sums events ((List.mem_inits _ _).mpr (List.prefix_refl _))).1 hcount

/-- The averages of a task are means over its executions. -/
theorem TaskTotals.averages {task : TaskAccumulator} (totals : TaskTotals events task) (h : InRange events) :
    task.snapshot.averageExecutionTime = mean (executionTimes events)
      ∧ task.snapshot.averageQueueWait = mean (queueWaits events)
      ∧ task.snapshot.averageResponseTime = mean (responseTimes events) := by
  obtain ⟨-, hexecution, hwait, hresponse⟩ := h.sums events ((List.mem_inits _ _).mpr (List.prefix_refl _))
  have hcount : ∀ value : Event → Int, FitsInt64 ((ofKind .taskExecution events).map value).sum →
      averageDuration (wrapInt64 ((ofKind .taskExecution events).map value).sum)
        (UInt64.ofNat (ofKind .taskExecution events).length) = mean ((ofKind .taskExecution events).map value) := by
    intro value hsum
    have haverage := averageDuration_eq hsum (by
      rw [List.length_map]
      exact Nat.lt_of_le_of_lt (length_ofKind_le _ events) h.count)
    rwa [List.length_map] at haverage
  refine ⟨?_, ?_, ?_⟩
  · show averageDuration task.totalExecutionTime task.metrics.executions = _
    rw [totals.totalExecutionTime, totals.executions]
    exact hcount _ hexecution
  · show averageDuration task.totalQueueWait task.metrics.executions = _
    rw [totals.totalQueueWait, totals.executions]
    exact hcount _ hwait
  · show averageDuration task.totalResponseTime task.metrics.executions = _
    rw [totals.totalResponseTime, totals.executions]
    exact hcount _ hresponse

section history

variable (options : Options κ) (write : κ) (startedAt : Int) (calls : List (Call κ))

/-- The observer after a history. -/
def observed : Observer κ := calls.foldl Observer.perform (.create options write startedAt)

theorem create_enabled : (Observer.create options write startedAt).options.enabled = options.enabled := by
  unfold Observer.create
  split <;> rfl

theorem create_holds : Holds (Observer.create options write startedAt) [] := ⟨rfl, rfl⟩

theorem observed_holds : Holds (observed options write startedAt calls) (accepted options.enabled calls) := by
  have h := (create_holds options write startedAt).history calls
  rwa [create_enabled, List.nil_append] at h

theorem observed_startedAt : (observed options write startedAt calls).startedAt = startedAt :=
  history_startedAt calls (.create options write startedAt)

/-- While no sum overflows, a snapshot has one entry for each name with accepted events, in the
order of the names, and its values are the totals of that name's events, its averages their means. -/
theorem snapshot_totals (hrange : WithinRange (accepted options.enabled calls)) (capturedAt : Int)
    (huptime : FitsInt64 (capturedAt - startedAt)) :
    let events := accepted options.enabled calls
    let snapshot := (observed options write startedAt calls).buildSnapshot capturedAt
    snapshot.uptime = capturedAt - startedAt
      ∧ (snapshot.topics.map (·.topicName)).Pairwise (· < ·)
      ∧ (∀ name, name ∈ snapshot.topics.map (·.topicName) ↔
          ∃ event ∈ events, event.kind.ofTopic = true ∧ event.resource = name)
      ∧ (∀ metrics ∈ snapshot.topics, ∃ topic, TopicTotals (named metrics.topicName events) topic
          ∧ metrics = topic.snapshot (capturedAt - startedAt)
          ∧ metrics.averageLatency = mean (latencies (named metrics.topicName events)))
      ∧ (snapshot.tasks.map (·.taskName)).Pairwise (· < ·)
      ∧ (∀ name, name ∈ snapshot.tasks.map (·.taskName) ↔
          ∃ event ∈ events, event.kind.ofTopic = false ∧ event.resource = name)
      ∧ ∀ metrics ∈ snapshot.tasks, ∃ task, TaskTotals (named metrics.taskName events) task
          ∧ metrics = task.snapshot
          ∧ metrics.averageExecutionTime = mean (executionTimes (named metrics.taskName events))
          ∧ metrics.averageQueueWait = mean (queueWaits (named metrics.taskName events))
          ∧ metrics.averageResponseTime = mean (responseTimes (named metrics.taskName events)) := by
  intro events snapshot
  have holds := observed_holds options write startedAt calls
  have hstarted := observed_startedAt options write startedAt calls
  refine ⟨?_, ?_, ?_, ?_, ?_, ?_, ?_⟩
  · show wrapInt64 (capturedAt - (observed options write startedAt calls).startedAt) = capturedAt - startedAt
    rw [hstarted, wrapInt64_of_fits huptime]
  · rw [holds.topicNames, SortedMap.keys, List.pairwise_map]
    exact (observed options write startedAt calls).topics.sorted
  · intro name
    rw [holds.topicNames]
    exact holds.mem_topics_keys
  · intro metrics hmetrics
    obtain ⟨topic, totals, heq⟩ := holds.topic_of_snapshot hmetrics
    rw [hstarted, wrapInt64_of_fits huptime] at heq
    have haverage := totals.averageLatency (hrange.named _) (capturedAt - startedAt)
    rw [← heq] at haverage
    exact ⟨topic, totals, heq, haverage⟩
  · rw [holds.taskNames, SortedMap.keys, List.pairwise_map]
    exact (observed options write startedAt calls).tasks.sorted
  · intro name
    rw [holds.taskNames]
    exact holds.mem_tasks_keys
  · intro metrics hmetrics
    obtain ⟨task, totals, heq⟩ := holds.task_of_snapshot hmetrics
    have haverages := totals.averages (hrange.named _)
    rw [← heq] at haverages
    exact ⟨task, totals, heq, haverages⟩

end history

/-- Two executions of a task, the second a failure. -/
def twoExecutions : List (Call Unit) :=
  [.emit { kind := .taskExecution, resource := text "pump", duration := 30, queueWait := 5 } 100,
    .emit { kind := .taskExecution, resource := text "pump", duration := 10, queueWait := 8, success := false } 200]

theorem snapshot_totals_twoExecutions :
    let snapshot := (observed {} () 0 twoExecutions).buildSnapshot 300
    snapshot.uptime = 300 ∧ text "pump" ∈ snapshot.tasks.map (·.taskName)
      ∧ ∀ metrics ∈ snapshot.tasks, metrics.taskName = text "pump" →
        metrics.averageExecutionTime = 20 ∧ metrics.averageQueueWait = 6 ∧ metrics.averageResponseTime = 26 := by
  intro snapshot
  obtain ⟨huptime, -, -, -, -, hnames, htasks⟩ :=
    snapshot_totals {} () 0 twoExecutions (by decide +kernel) 300 (by decide)
  refine ⟨huptime, (hnames _).mpr ⟨_, List.mem_cons_self, rfl, rfl⟩, fun metrics hmetrics hname => ?_⟩
  obtain ⟨-, -, -, hexecution, hwait, hresponse⟩ := htasks metrics hmetrics
  rw [hname] at hexecution hwait hresponse
  rw [hexecution, hwait, hresponse]
  decide +kernel

/-! ## Bounds -/

theorem le_peak {series : List Int} {a : Int} (h : a ∈ series) : a ≤ peak 0 series := by
  induction series using List.reverseRecOn with
  | nil => cases h
  | append_singleton series b ih =>
    rw [peak_snoc]
    rcases List.mem_append.mp h with h | h
    · have := ih h
      omega
    · have := List.mem_singleton.mp h
      omega

theorem peak_le {series : List Int} {bound : Int} (hzero : 0 ≤ bound) (h : ∀ a ∈ series, a ≤ bound) :
    peak 0 series ≤ bound := by
  induction series using List.reverseRecOn with
  | nil => exact hzero
  | append_singleton series a ih =>
    rw [peak_snoc]
    have hlast := h a (List.mem_append_right _ List.mem_cons_self)
    have hrest := ih fun b hb => h b (List.mem_append_left _ hb)
    omega

theorem peak_nonneg (series : List Int) : 0 ≤ peak 0 series := by
  induction series using List.reverseRecOn with
  | nil => exact le_rfl
  | append_singleton series a ih =>
    rw [peak_snoc]
    omega

theorem last_le_peak (series : List Int) : last 0 series ≤ peak 0 series := by
  cases series using List.reverseRecOn with
  | nil => exact le_rfl
  | append_singleton series a =>
    rw [last_snoc, peak_snoc]
    omega

theorem last_le_peak_uint64 (series : List UInt64) : last 0 series ≤ peak 0 series := by
  cases series using List.reverseRecOn with
  | nil => exact UInt64.le_refl _
  | append_singleton series a =>
    have hmax : max (peak 0 series) a = if peak 0 series ≤ a then a else peak 0 series := rfl
    rw [last_snoc, peak_snoc, hmax]
    split
    · exact UInt64.le_refl _
    · next h => exact UInt64.le_of_lt (UInt64.not_le.mp h)

theorem sum_le_length_mul (series : List Int) {bound : Int} (h : ∀ a ∈ series, a ≤ bound) :
    series.sum ≤ series.length * bound := by
  induction series with
  | nil => simp
  | cons a series ih =>
    have hfirst := h a List.mem_cons_self
    have hrest := ih fun b hb => h b (List.mem_cons_of_mem _ hb)
    rw [List.sum_cons, List.length_cons, Int.natCast_succ, Int.add_mul]
    omega

/-- The mean of durations lies between zero and their maximum. -/
theorem mean_bounds {series : List Int} (hnonneg : ∀ a ∈ series, 0 ≤ a) : 0 ≤ mean series ∧ mean series ≤ peak 0 series := by
  have hsum : 0 ≤ series.sum := List.sum_nonneg hnonneg
  have htotal := sum_le_length_mul series fun a => le_peak
  unfold mean
  rw [Int.tdiv_eq_ediv_of_nonneg hsum]
  refine ⟨Int.ediv_nonneg hsum (Int.natCast_nonneg _), ?_⟩
  rcases Nat.eq_zero_or_pos series.length with hzero | hpos
  · rw [hzero, Int.natCast_zero, Int.ediv_zero]
    exact peak_nonneg series
  · apply Int.ediv_le_of_le_mul (by omega)
    rw [Int.mul_comm]
    exact htotal

theorem uint64_ofNat_le {m n : Nat} (h : m ≤ n) (hn : n < 2 ^ 64) : UInt64.ofNat m ≤ UInt64.ofNat n := by
  rw [UInt64.le_iff_toNat_le, UInt64.toNat_ofNat', UInt64.toNat_ofNat', Nat.mod_eq_of_lt hn,
    Nat.mod_eq_of_lt (Nat.lt_of_le_of_lt h hn)]
  exact h

theorem TopicTotals.bounds {events : List Event} {topic : TopicAccumulator} (totals : TopicTotals events topic)
    (hrange : InRange events) (hduration : ∀ event ∈ events, 0 ≤ event.duration) (uptime : Int) :
    let metrics := topic.snapshot uptime
    metrics.latencySamples ≤ metrics.messagesReceived ∧ metrics.queueDepth ≤ metrics.maxQueueDepth
      ∧ metrics.lastLatency ≤ metrics.maxLatency
      ∧ 0 ≤ metrics.averageLatency ∧ metrics.averageLatency ≤ metrics.maxLatency := by
  have hnonneg : ∀ a ∈ latencies events, 0 ≤ a := by
    intro a ha
    obtain ⟨event, hevent, rfl⟩ := List.mem_map.mp ha
    exact hduration event (List.mem_filter.mp (List.mem_filter.mp hevent).1).1
  have hreceived : (ofKind .topicReceived events).length < 2 ^ 64 := by
    have hle := length_ofKind_le .topicReceived events
    have hcount := hrange.count
    omega
  refine ⟨?_, ?_, ?_, ?_⟩
  · show topic.metrics.latencySamples ≤ topic.metrics.messagesReceived
    rw [totals.latencySamples, totals.messagesReceived]
    exact uint64_ofNat_le (length_latencies_le events) hreceived
  · show topic.metrics.queueDepth ≤ topic.metrics.maxQueueDepth
    rw [totals.queueDepth, totals.maxQueueDepth]
    exact last_le_peak_uint64 _
  · show topic.metrics.lastLatency ≤ topic.metrics.maxLatency
    rw [totals.lastLatency, totals.maxLatency]
    exact last_le_peak _
  · show 0 ≤ (topic.snapshot uptime).averageLatency ∧ (topic.snapshot uptime).averageLatency ≤ topic.metrics.maxLatency
    rw [totals.averageLatency hrange, totals.maxLatency]
    exact mean_bounds hnonneg

/-- The mean of what the executions have is at most its maximum. -/
theorem meanExecutions_le {events : List Event} (value : Event → Int)
    (hvalue : ∀ event ∈ ofKind .taskExecution events, 0 ≤ value event) :
    mean ((ofKind .taskExecution events).map value) ≤ peak 0 ((ofKind .taskExecution events).map value) := by
  refine (mean_bounds ?_).2
  intro a ha
  obtain ⟨event, hevent, rfl⟩ := List.mem_map.mp ha
  exact hvalue event hevent

theorem TaskTotals.bounds {events : List Event} {task : TaskAccumulator} (totals : TaskTotals events task)
    (hrange : InRange events) (hduration : ∀ event ∈ events, 0 ≤ event.duration)
    (hwait : ∀ event ∈ events, 0 ≤ event.queueWait) :
    let metrics := task.snapshot
    metrics.failures ≤ metrics.executions
      ∧ metrics.lastExecutionTime ≤ metrics.maxExecutionTime ∧ metrics.averageExecutionTime ≤ metrics.maxExecutionTime
      ∧ metrics.lastQueueWait ≤ metrics.maxQueueWait ∧ metrics.averageQueueWait ≤ metrics.maxQueueWait
      ∧ metrics.lastResponseTime ≤ metrics.maxResponseTime ∧ metrics.averageResponseTime ≤ metrics.maxResponseTime
      ∧ metrics.maxResponseTime ≤ metrics.maxQueueWait + metrics.maxExecutionTime := by
  obtain ⟨hexecutionTime, hqueueWait, hresponseTime⟩ := totals.averages hrange
  have hown : ∀ event ∈ ofKind .taskExecution events, event ∈ events := fun event h => (List.mem_filter.mp h).1
  have hresponse : ∀ event ∈ ofKind .taskExecution events, event.responseTime = event.queueWait + event.duration :=
    fun event h => wrapInt64_of_fits (hrange.responses event h)
  refine ⟨?_, ?_, ?_, ?_, ?_, ?_, ?_, ?_⟩
  · show task.metrics.failures ≤ task.metrics.executions
    rw [totals.failures, totals.executions]
    refine uint64_ofNat_le List.countP_le_length ?_
    have hle := length_ofKind_le .taskExecution events
    have hcount := hrange.count
    omega
  · show task.metrics.lastExecutionTime ≤ task.metrics.maxExecutionTime
    rw [totals.lastExecutionTime, totals.maxExecutionTime]
    exact last_le_peak _
  · show task.snapshot.averageExecutionTime ≤ task.metrics.maxExecutionTime
    rw [hexecutionTime, totals.maxExecutionTime]
    exact meanExecutions_le (·.duration) fun event h => hduration event (hown event h)
  · show task.metrics.lastQueueWait ≤ task.metrics.maxQueueWait
    rw [totals.lastQueueWait, totals.maxQueueWait]
    exact last_le_peak _
  · show task.snapshot.averageQueueWait ≤ task.metrics.maxQueueWait
    rw [hqueueWait, totals.maxQueueWait]
    exact meanExecutions_le (·.queueWait) fun event h => hwait event (hown event h)
  · show task.metrics.lastResponseTime ≤ task.metrics.maxResponseTime
    rw [totals.lastResponseTime, totals.maxResponseTime]
    exact last_le_peak _
  · show task.snapshot.averageResponseTime ≤ task.metrics.maxResponseTime
    rw [hresponseTime, totals.maxResponseTime]
    refine meanExecutions_le (·.responseTime) fun event h => ?_
    rw [hresponse event h]
    exact Int.add_nonneg (hwait event (hown event h)) (hduration event (hown event h))
  · show task.metrics.maxResponseTime ≤ task.metrics.maxQueueWait + task.metrics.maxExecutionTime
    rw [totals.maxResponseTime, totals.maxQueueWait, totals.maxExecutionTime]
    refine peak_le (Int.add_nonneg (peak_nonneg _) (peak_nonneg _)) ?_
    intro a ha
    obtain ⟨event, hevent, rfl⟩ := List.mem_map.mp ha
    have hqueue : event.queueWait ≤ peak 0 (queueWaits events) := le_peak (List.mem_map_of_mem hevent)
    have hexecution : event.duration ≤ peak 0 (executionTimes events) := le_peak (List.mem_map_of_mem hevent)
    rw [hresponse event hevent]
    omega

/-- While no sum overflows and the durations are not negative, the values of a snapshot bound
each other. -/
theorem snapshot_bounds (options : Options κ) (write : κ) (startedAt : Int) (calls : List (Call κ)) (capturedAt : Int)
    (hrange : WithinRange (accepted options.enabled calls))
    (hduration : ∀ event ∈ accepted options.enabled calls, 0 ≤ event.duration)
    (hwait : ∀ event ∈ accepted options.enabled calls, 0 ≤ event.queueWait) :
    let snapshot := (observed options write startedAt calls).buildSnapshot capturedAt
    (∀ metrics ∈ snapshot.topics, metrics.latencySamples ≤ metrics.messagesReceived
        ∧ metrics.queueDepth ≤ metrics.maxQueueDepth ∧ metrics.lastLatency ≤ metrics.maxLatency
        ∧ 0 ≤ metrics.averageLatency ∧ metrics.averageLatency ≤ metrics.maxLatency)
      ∧ ∀ metrics ∈ snapshot.tasks, metrics.failures ≤ metrics.executions
        ∧ metrics.lastExecutionTime ≤ metrics.maxExecutionTime ∧ metrics.averageExecutionTime ≤ metrics.maxExecutionTime
        ∧ metrics.lastQueueWait ≤ metrics.maxQueueWait ∧ metrics.averageQueueWait ≤ metrics.maxQueueWait
        ∧ metrics.lastResponseTime ≤ metrics.maxResponseTime
        ∧ metrics.averageResponseTime ≤ metrics.maxResponseTime
        ∧ metrics.maxResponseTime ≤ metrics.maxQueueWait + metrics.maxExecutionTime := by
  intro snapshot
  have hmem : ∀ name, ∀ event ∈ named name (accepted options.enabled calls), event ∈ accepted options.enabled calls :=
    fun name event h => (List.mem_filter.mp h).1
  constructor
  · intro metrics hmetrics
    obtain ⟨topic, totals, hsnapshot⟩ := (observed_holds options write startedAt calls).topic_of_snapshot hmetrics
    rw [hsnapshot]
    exact totals.bounds (hrange.named _) (fun event h => hduration event (hmem _ event h)) _
  · intro metrics hmetrics
    obtain ⟨task, totals, hsnapshot⟩ := (observed_holds options write startedAt calls).task_of_snapshot hmetrics
    rw [hsnapshot]
    exact totals.bounds (hrange.named _) (fun event h => hduration event (hmem _ event h))
      fun event h => hwait event (hmem _ event h)

theorem snapshot_bounds_twoExecutions :
    let snapshot := (observed {} () 0 twoExecutions).buildSnapshot 300
    ∀ metrics ∈ snapshot.tasks, metrics.failures ≤ metrics.executions
      ∧ metrics.averageResponseTime ≤ metrics.maxResponseTime := by
  intro snapshot metrics hmetrics
  have hbounds :=
    (snapshot_bounds {} () 0 twoExecutions 300 (by decide +kernel) (by decide +kernel) (by decide +kernel)).2 metrics hmetrics
  exact ⟨hbounds.1, hbounds.2.2.2.2.2.2.1⟩

end PuppetMaster.Observability
