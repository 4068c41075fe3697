/-
  PuppetMaster.Observability.Prometheus — a metrics snapshot as text for a Prometheus scraper
  (prometheus_exporter.cpp).

  `number` is how a stream with `max_digits10` shows a `double`; all that is needed of it here is
  that it writes no line break. Counters are shown in decimal.

  - `render_eq`: the text is that of the families in `families`, one for each metric, with one
    sample for each topic or task of the snapshot.
  - `render_reads_back`: so whatever the names of the topics and tasks are, a reader of the
    format gets these families, and no name can add a line or a label of its own.
  - `scraped_series`: of what an observer has recorded, every series appears once.
-/

import PuppetMaster.Lib.Exposition
import PuppetMaster.Core.Decimal
import PuppetMaster.Observability.Observer

namespace PuppetMaster.Observability.Prometheus

open PuppetMaster.Core PuppetMaster.Lib PuppetMaster.Lib.Exposition

/-! ## The exporter -/

def escapeLabel (value : Bytes) : Bytes :=
  value.flatMap fun character =>
    if character = 0x5c then text "\\\\"
    else if character = 0x22 then text "\\\""
    else if character = 0x0a then text "\\n"
    else [character]

/-- A metric of a topic or of a task: its name, help and type, and how it shows the value. -/
structure Metric (μ : Type) where
  name : Bytes
  help : Bytes
  type : Bytes
  value : μ → Bytes

def appendFamily {μ : Type} (metric : Metric μ) (metrics : List μ) (labelName : Bytes) (label : μ → Bytes) : Bytes :=
  text "# HELP " ++ metric.name ++ text " " ++ metric.help ++ text "\n"
    ++ text "# TYPE " ++ metric.name ++ text " " ++ metric.type ++ text "\n"
    ++ metrics.flatMap fun entry =>
      metric.name ++ text "\x7b" ++ labelName ++ text "=\"" ++ escapeLabel (label entry) ++ text "\"\x7d " ++ metric.value entry
        ++ text "\n"

/-- `output << value` of an unsigned counter. -/
def counter (value : UInt64) : Bytes := toText value.toNat

section render

variable (number : Float → Bytes)

def topic (name help type : String) (field : TopicMetrics → Bytes) : Metric TopicMetrics :=
  { name := text "puppet_master_topic_" ++ text name, help := text help, type := text type, value := field }

def topicSeconds (name help : String) (field : TopicMetrics → Int) : Metric TopicMetrics :=
  { name := text "puppet_master_topic_" ++ text name ++ text "_seconds", help := text help, type := text "gauge"
    value := fun metrics => number (seconds (field metrics)) }

def task (name help type : String) (field : TaskMetrics → Bytes) : Metric TaskMetrics :=
  { name := text "puppet_master_task_" ++ text name, help := text help, type := text type, value := field }

def taskSeconds (name help : String) (field : TaskMetrics → Int) : Metric TaskMetrics :=
  { name := text "puppet_master_task_" ++ text name ++ text "_seconds", help := text help, type := text "gauge"
    value := fun metrics => number (seconds (field metrics)) }

def topicMetrics : List (Metric TopicMetrics) :=
  [topic "messages_published_total" "Published messages." "counter" fun m => counter m.messagesPublished,
    topic "bytes_published_total" "Published bytes." "counter" fun m => counter m.bytesPublished,
    topic "messages_received_total" "Received messages." "counter" fun m => counter m.messagesReceived,
    topic "bytes_received_total" "Received bytes." "counter" fun m => counter m.bytesReceived,
    topic "latency_samples_total" "Received messages with latency samples." "counter" fun m => counter m.latencySamples,
    topic "queue_depth" "Current queue depth." "gauge" fun m => counter m.queueDepth,
    topic "max_queue_depth" "Maximum observed queue depth." "gauge" fun m => counter m.maxQueueDepth,
    topicSeconds number "last_latency" "Last observed message latency." (·.lastLatency),
    topicSeconds number "average_latency" "Average observed message latency." (·.averageLatency),
    topicSeconds number "max_latency" "Maximum observed message latency." (·.maxLatency),
    topic "publish_messages_per_second" "Average published messages per second since observer creation." "gauge"
      fun m => number m.publishMessagesPerSecond,
    topic "publish_bytes_per_second" "Average published bytes per second since observer creation." "gauge"
      fun m => number m.publishBytesPerSecond,
    topic "receive_messages_per_second" "Average received messages per second since observer creation." "gauge"
      fun m => number m.receiveMessagesPerSecond,
    topic "receive_bytes_per_second" "Average received bytes per second since observer creation." "gauge"
      fun m => number m.receiveBytesPerSecond]

def taskMetrics : List (Metric TaskMetrics) :=
  [task "executions_total" "Task executions." "counter" fun m => counter m.executions,
    task "failures_total" "Failed task executions." "counter" fun m => counter m.failures,
    task "deadline_misses_total" "Task deadline misses." "counter" fun m => counter m.deadlineMisses,
    taskSeconds number "last_execution_time" "Last task execution time." (·.lastExecutionTime),
    taskSeconds number "average_execution_time" "Average task execution time." (·.averageExecutionTime),
    taskSeconds number "max_execution_time" "Maximum task execution time." (·.maxExecutionTime),
    taskSeconds number "last_queue_wait" "Last task queue wait." (·.lastQueueWait),
    taskSeconds number "average_queue_wait" "Average task queue wait." (·.averageQueueWait),
    taskSeconds number "max_queue_wait" "Maximum task queue wait." (·.maxQueueWait),
    taskSeconds number "last_response_time" "Last task response time." (·.lastResponseTime),
    taskSeconds number "average_response_time" "Average task response time." (·.averageResponseTime),
    taskSeconds number "max_response_time" "Maximum task response time." (·.maxResponseTime)]

/-- `PrometheusExporter::Render`. -/
def render (snapshot : MetricsSnapshot) : Bytes :=
  text "# HELP puppet_master_uptime_seconds Time since observer creation in seconds.\n"
    ++ text "# TYPE puppet_master_uptime_seconds gauge\n"
    ++ text "puppet_master_uptime_seconds " ++ number (seconds snapshot.uptime) ++ text "\n"
    ++ (topicMetrics number).flatMap (fun metric => appendFamily metric snapshot.topics (text "topic") (·.topicName))
    ++ (taskMetrics number).flatMap (fun metric => appendFamily metric snapshot.tasks (text "task") (·.taskName))

/-! ## The families of a snapshot -/

def Metric.family {μ : Type} (metric : Metric μ) (metrics : List μ) (labelName : Bytes) (label : μ → Bytes) : Family :=
  { name := metric.name, help := metric.help, type := metric.type
    samples := metrics.map fun entry => { labels := [(labelName, label entry)], value := metric.value entry } }

def uptimeFamily (snapshot : MetricsSnapshot) : Family :=
  { name := text "puppet_master_uptime_seconds", help := text "Time since observer creation in seconds.", type := text "gauge"
    samples := [{ labels := [], value := number (seconds snapshot.uptime) }] }

def families (snapshot : MetricsSnapshot) : List Family :=
  uptimeFamily number snapshot ::
    (topicMetrics number).map (fun metric => metric.family snapshot.topics (text "topic") (·.topicName))
      ++ (taskMetrics number).map fun metric => metric.family snapshot.tasks (text "task") (·.taskName)

/-- What stands around a name, a label or a number. -/
theorem markText : text " " = [space] ∧ text "\n" = [newline] ∧ text "# HELP " = helpMark ∧ text "# TYPE " = typeMark
    ∧ text "\x7b" = [opening] ∧ text "=\"" = [equals, quote] ∧ text "\"\x7d " = [quote, closing, space]
    ∧ text "\\\\" = [backslash, backslash] ∧ text "\\\"" = [backslash, quote] ∧ text "\\n" = [backslash, 0x6e] := by
  decide +kernel

theorem escapeLabel_eq (value : Bytes) : escapeLabel value = Exposition.escape value := by
  obtain ⟨-, -, -, -, -, -, -, hbackslash, hquote, hnewline⟩ := markText
  rw [escapeLabel, Exposition.escape, hbackslash, hquote, hnewline]
  rfl

theorem appendFamily_eq {μ : Type} (metric : Metric μ) (metrics : List μ) (labelName : Bytes) (label : μ → Bytes) :
    appendFamily metric metrics labelName label = ended (metric.family metrics labelName label).lines := by
  obtain ⟨hspace, hnewline, hhelp, htype, hopening, hequals, hclosing, -⟩ := markText
  simp only [appendFamily, ended, Family.lines, Metric.family, List.flatMap_cons, List.map_map, List.flatMap_map, hhelp,
    htype, hopening, hequals, hclosing, hspace, hnewline, List.append_assoc, List.cons_append, List.nil_append]
  congr 9
  apply congrArg
  apply List.flatMap_congr
  intro entry _
  simp [sampleLine, labelsText, labelText, escapeLabel_eq]

theorem render_eq (snapshot : MetricsSnapshot) : render number snapshot = write (families number snapshot) := by
  have hcomments : text "# HELP puppet_master_uptime_seconds Time since observer creation in seconds.\n"
      ++ text "# TYPE puppet_master_uptime_seconds gauge\n" ++ text "puppet_master_uptime_seconds "
        = ended [helpMark ++ (text "puppet_master_uptime_seconds" ++ space :: text "Time since observer creation in seconds."),
            typeMark ++ (text "puppet_master_uptime_seconds" ++ space :: text "gauge")]
          ++ (text "puppet_master_uptime_seconds" ++ [space]) := by decide +kernel
  have huptime : text "# HELP puppet_master_uptime_seconds Time since observer creation in seconds.\n"
      ++ text "# TYPE puppet_master_uptime_seconds gauge\n" ++ text "puppet_master_uptime_seconds "
      ++ number (seconds snapshot.uptime) ++ text "\n" = ended (uptimeFamily number snapshot).lines := by
    rw [hcomments]
    simp [ended, Family.lines, uptimeFamily, sampleLine, markText.2.1]
  rw [render, huptime, families, write, List.flatMap_append, List.flatMap_cons, List.flatMap_map, List.flatMap_map]
  simp only [appendFamily_eq]

/-! ## What a scraper reads -/

/-- What a metric writes stays on its line. -/
structure Metric.OnItsLine {μ : Type} (metric : Metric μ) : Prop where
  name : ∀ byte ∈ metric.name, isNameByte byte = true
  help : newline ∉ metric.help
  type : newline ∉ metric.type
  value : ∀ entry, newline ∉ metric.value entry

def Metric.texts {μ : Type} (metric : Metric μ) : Bytes × Bytes × Bytes := (metric.name, metric.help, metric.type)

theorem newline_not_mem_counter (value : UInt64) : newline ∉ counter value := by
  intro hmem
  have hall := List.all_eq_true.mp (toText_spec value.toNat).2.1
  exact absurd (hall newline hmem) (by decide)

/-- A name, a help text and a type that stay on their line. -/
def onOneLine (texts : Bytes × Bytes × Bytes) : Bool :=
  texts.1.all isNameByte && texts.2.1.all (· != newline) && texts.2.2.all (· != newline)

theorem onOneLine_iff {texts : Bytes × Bytes × Bytes} :
    onOneLine texts = true ↔ (∀ byte ∈ texts.1, isNameByte byte = true) ∧ newline ∉ texts.2.1 ∧ newline ∉ texts.2.2 := by
  have hline : ∀ line : Bytes, line.all (· != newline) = true ↔ newline ∉ line := fun line => by
    simp only [List.all_eq_true, bne_iff_ne]
    exact ⟨fun h hmem => h newline hmem rfl, fun h byte hmem heq => h (heq ▸ hmem)⟩
  rw [onOneLine, Bool.and_eq_true, Bool.and_eq_true, hline, hline, List.all_eq_true, and_assoc]

/-- The texts are the same for every `number`. -/
theorem metric_texts : ((topicMetrics fun _ => []).map Metric.texts).all onOneLine = true
    ∧ ((taskMetrics fun _ => []).map Metric.texts).all onOneLine = true
    ∧ onOneLine (text "puppet_master_uptime_seconds", text "Time since observer creation in seconds.", text "gauge") = true
    ∧ (text "topic").all isNameByte = true ∧ (text "task").all isNameByte = true := by decide +kernel

theorem topic_texts : ∀ texts ∈ (topicMetrics number).map Metric.texts, onOneLine texts = true :=
  List.all_eq_true.mp metric_texts.1

theorem task_texts : ∀ texts ∈ (taskMetrics number).map Metric.texts, onOneLine texts = true :=
  List.all_eq_true.mp metric_texts.2.1

variable {number} in
theorem topicMetrics_onItsLine (hnumber : ∀ value, newline ∉ number value) : ∀ metric ∈ topicMetrics number,
    metric.OnItsLine := by
  have hvalue : ∀ metric ∈ topicMetrics number, ∀ entry, newline ∉ metric.value entry := by
    simp only [topicMetrics, topic, topicSeconds, List.forall_mem_cons, newline_not_mem_counter, hnumber,
      not_false_eq_true, implies_true, List.not_mem_nil, false_implies, and_self]
  intro metric hmetric
  obtain ⟨hname, hhelp, htype⟩ := onOneLine_iff.mp (topic_texts number metric.texts (List.mem_map_of_mem hmetric))
  exact ⟨hname, hhelp, htype, hvalue metric hmetric⟩

variable {number} in
theorem taskMetrics_onItsLine (hnumber : ∀ value, newline ∉ number value) : ∀ metric ∈ taskMetrics number, metric.OnItsLine := by
  have hvalue : ∀ metric ∈ taskMetrics number, ∀ entry, newline ∉ metric.value entry := by
    simp only [taskMetrics, task, taskSeconds, List.forall_mem_cons, newline_not_mem_counter, hnumber,
      not_false_eq_true, implies_true, List.not_mem_nil, false_implies, and_self]
  intro metric hmetric
  obtain ⟨hname, hhelp, htype⟩ := onOneLine_iff.mp (task_texts number metric.texts (List.mem_map_of_mem hmetric))
  exact ⟨hname, hhelp, htype, hvalue metric hmetric⟩

theorem Metric.OnItsLine.family {μ : Type} {metric : Metric μ} (h : metric.OnItsLine) (metrics : List μ) {labelName : Bytes}
    (hlabel : ∀ byte ∈ labelName, isNameByte byte = true) (label : μ → Bytes) :
    (metric.family metrics labelName label).WellFormed := by
  refine ⟨h.name, h.help, h.type, fun sample hsample => ?_⟩
  obtain ⟨entry, -, rfl⟩ := List.mem_map.mp hsample
  refine ⟨fun label hmem => ?_, h.value entry⟩
  obtain rfl := List.mem_singleton.mp hmem
  exact hlabel

variable {number} in
theorem families_wellFormed (hnumber : ∀ value, newline ∉ number value) (snapshot : MetricsSnapshot) :
    ∀ family ∈ families number snapshot, family.WellFormed := by
  obtain ⟨-, -, huptime, htopic, htask⟩ := metric_texts
  intro family hmem
  rcases List.mem_append.mp hmem with hmem | hmem
  · rcases List.mem_cons.mp hmem with rfl | hmem
    · obtain ⟨hname, hhelp, htype⟩ := onOneLine_iff.mp huptime
      refine ⟨hname, hhelp, htype, fun sample hsample => ?_⟩
      obtain rfl := List.mem_singleton.mp hsample
      exact ⟨fun label hlabel => (nomatch hlabel), hnumber _⟩
    · obtain ⟨metric, hmetric, rfl⟩ := List.mem_map.mp hmem
      exact (topicMetrics_onItsLine hnumber metric hmetric).family _ (List.all_eq_true.mp htopic) _
  · obtain ⟨metric, hmetric, rfl⟩ := List.mem_map.mp hmem
    exact (taskMetrics_onItsLine hnumber metric hmetric).family _ (List.all_eq_true.mp htask) _

/-- Whatever the names of the topics and tasks are, a reader gets the families of the snapshot. -/
theorem render_reads_back (hnumber : ∀ value, newline ∉ number value) (snapshot : MetricsSnapshot) :
    parse (render number snapshot) = some (families number snapshot) := by
  rw [render_eq]
  exact parse_write (families_wellFormed hnumber snapshot)

/-! ## What is scraped of an observer -/

theorem names_nodup (snapshot : MetricsSnapshot) : ((families number snapshot).map (·.name)).Nodup := by
  show ((families (fun _ => []) {}).map (·.name)).Nodup
  decide +kernel

/-- The samples of a family are told apart by the names in their labels. -/
theorem Metric.labels_nodup {μ : Type} (metric : Metric μ) {metrics : List μ} (labelName : Bytes) {label : μ → Bytes}
    (h : (metrics.map label).Nodup) : ((metric.family metrics labelName label).samples.map (·.labels)).Nodup := by
  have hlabels : (metric.family metrics labelName label).samples.map (·.labels) =
      (metrics.map label).map fun name => [(labelName, name)] := by
    simp only [Metric.family, List.map_map]
    rfl
  rw [hlabels]
  exact h.map fun name other heq => by simpa using heq

theorem labels_nodup {snapshot : MetricsSnapshot} (htopics : (snapshot.topics.map (·.topicName)).Nodup)
    (htasks : (snapshot.tasks.map (·.taskName)).Nodup) :
    ∀ family ∈ families number snapshot, (family.samples.map (·.labels)).Nodup := by
  intro family hmem
  rcases List.mem_append.mp hmem with hmem | hmem
  · rcases List.mem_cons.mp hmem with rfl | hmem
    · exact List.nodup_singleton _
    · obtain ⟨metric, -, rfl⟩ := List.mem_map.mp hmem
      exact metric.labels_nodup _ htopics
  · obtain ⟨metric, -, rfl⟩ := List.mem_map.mp hmem
    exact metric.labels_nodup _ htasks

end render

section scraped

variable {κ : Type} (number : Float → Bytes) (options : Options κ) (write : κ) (startedAt : Int) (calls : List (Call κ))

/-- The series of a metric: the label of each, and the value shown with it. -/
theorem Metric.mem_family_labels {μ : Type} (metric : Metric μ) (metrics : List μ) (labelName : Bytes) (label : μ → Bytes)
    (name : Bytes) :
    [(labelName, name)] ∈ (metric.family metrics labelName label).samples.map (·.labels) ↔ name ∈ metrics.map label := by
  simp [Metric.family]

/-- A scrape of what an observer recorded has no series twice. A metric of topics has one for each
topic of the accepted events, and it shows the totals of that topic's events; likewise for tasks. -/
theorem scraped_series (hnumber : ∀ value, newline ∉ number value)
    (hrange : WithinRange (accepted options.enabled calls)) (capturedAt : Int)
    (huptime : FitsInt64 (capturedAt - startedAt)) :
    let events := accepted options.enabled calls
    let snapshot := (observed options write startedAt calls).buildSnapshot capturedAt
    ∃ scraped, parse (render number snapshot) = some scraped
      ∧ (scraped.map (·.name)).Nodup
      ∧ (∀ family ∈ scraped, (family.samples.map (·.labels)).Nodup)
      ∧ (∀ metric ∈ topicMetrics number, ∃ family ∈ scraped, family.name = metric.name
        ∧ (∀ name, [(text "topic", name)] ∈ family.samples.map (·.labels) ↔
            ∃ event ∈ events, event.kind.ofTopic = true ∧ event.resource = name)
        ∧ ∀ sample ∈ family.samples, ∃ name topic, TopicTotals (named name events) topic
            ∧ (topic.snapshot (capturedAt - startedAt)).averageLatency = mean (latencies (named name events))
            ∧ sample = { labels := [(text "topic", name)], value := metric.value (topic.snapshot (capturedAt - startedAt)) })
      ∧ ∀ metric ∈ taskMetrics number, ∃ family ∈ scraped, family.name = metric.name
        ∧ (∀ name, [(text "task", name)] ∈ family.samples.map (·.labels) ↔
            ∃ event ∈ events, event.kind.ofTopic = false ∧ event.resource = name)
        ∧ ∀ sample ∈ family.samples, ∃ name task, TaskTotals (named name events) task
            ∧ task.snapshot.averageExecutionTime = mean (executionTimes (named name events))
            ∧ task.snapshot.averageQueueWait = mean (queueWaits (named name events))
            ∧ task.snapshot.averageResponseTime = mean (responseTimes (named name events))
            ∧ sample = { labels := [(text "task", name)], value := metric.value task.snapshot } := by
  intro events snapshot
  have holds := observed_holds options write startedAt calls
  refine ⟨families number snapshot, ?_, names_nodup number _, ?_, ?_, ?_⟩
  · rw [render_eq]
    exact parse_write (families_wellFormed hnumber _)
  · apply labels_nodup
    · rw [holds.topicNames]
      exact SortedMap.keys_nodup _
    · rw [holds.taskNames]
      exact SortedMap.keys_nodup _
  · intro metric hmetric
    refine ⟨_, List.mem_append_left _ (List.mem_cons_of_mem _ (List.mem_map_of_mem hmetric)), rfl, fun name => ?_,
      fun sample hsample => ?_⟩
    · rw [metric.mem_family_labels, holds.topicNames]
      exact holds.mem_topics_keys
    · obtain ⟨entry, hentry, rfl⟩ := List.mem_map.mp hsample
      obtain ⟨topic, htotals, hentry⟩ := holds.topic_of_snapshot hentry
      rw [observed_startedAt, wrapInt64_of_fits huptime] at hentry
      exact ⟨entry.topicName, topic, htotals, htotals.averageLatency (hrange.named _) _, by rw [← hentry]⟩
  · intro metric hmetric
    refine ⟨_, List.mem_append_right _ (List.mem_map_of_mem hmetric), rfl, fun name => ?_, fun sample hsample => ?_⟩
    · rw [metric.mem_family_labels, holds.taskNames]
      exact holds.mem_tasks_keys
    · obtain ⟨entry, hentry, rfl⟩ := List.mem_map.mp hsample
      obtain ⟨task, htotals, hentry⟩ := holds.task_of_snapshot hentry
      obtain ⟨hexecution, hwait, hresponse⟩ := htotals.averages (hrange.named _)
      exact ⟨entry.taskName, task, htotals, hexecution, hwait, hresponse, by rw [← hentry]⟩

end scraped

/-- What a stream shows of zero. -/
def shownZero (_ : Float) : Bytes := text "0"

theorem newline_not_mem_shownZero (value : Float) : newline ∉ shownZero value := by
  show newline ∉ text "0"
  decide +kernel

theorem render_reads_back_twoLines :
    parse (render shownZero { topics := [{ topicName := text "a\"\nb" }] })
      = some (families shownZero { topics := [{ topicName := text "a\"\nb" }] }) :=
  render_reads_back shownZero newline_not_mem_shownZero _

/-- Two lines and a quote in a name are one label of one series. -/
theorem scraped_series_twoLines :
    let calls : List (Call Unit) := [.emit { resource := text "a\"\nb" } 7]
    ∃ scraped, parse (render shownZero ((observed {} () 7 calls).buildSnapshot 7)) = some scraped
      ∧ ∃ family ∈ scraped, family.name = text "puppet_master_topic_messages_published_total"
        ∧ [(text "topic", text "a\"\nb")] ∈ family.samples.map (·.labels) := by
  intro calls
  obtain ⟨scraped, hparse, -, -, htopics, -⟩ :=
    scraped_series shownZero {} () 7 calls newline_not_mem_shownZero (by decide +kernel) 7 (by decide)
  obtain ⟨family, hfamily, hname, hlabels, -⟩ := htopics _ List.mem_cons_self
  refine ⟨scraped, hparse, family, hfamily, ?_, (hlabels _).mpr ⟨_, List.mem_cons_self, rfl, rfl⟩⟩
  have htext : text "puppet_master_topic_" ++ text "messages_published_total" =
    text "puppet_master_topic_messages_published_total" := by
    decide +kernel
  exact hname.trans htext

end PuppetMaster.Observability.Prometheus
