/-
  PuppetMaster.Recording.Format — `RecordingWriter` and `RecordingReader`.

  A recording is a file header and records: a kind, the size of the body, the body. The
  writer's stream never fails; `out` is everything it was given. The reader works on a
  file of fixed contents: `input` is what its stream has not given out yet, `position` and
  `fileSize` count from the start of the file.

  `turn` is one turn of the loop of `RecordingReader::Next`; each uses up bytes or ends the
  reader (`turn_remaining`), so the loop ends.
-/

import Mathlib.Algebra.Group.Nat.Defs
import PuppetMaster.Core.Message
import PuppetMaster.Core.Name
import PuppetMaster.Lib.LittleEndian
import PuppetMaster.Lib.SortedMap

namespace PuppetMaster.Recording

open PuppetMaster.Core PuppetMaster.Lib

def kMagic : Bytes := ['P', 'M', 'R', 'E', 'C', '0', '0', '1'].map fun c => UInt8.ofNat c.toNat
def kFormatVersion : UInt32 := 1
def kFileHeaderSize : Nat := 16
def kRecordHeaderSize : Nat := 8
def kTopicRecord : UInt32 := 1
def kMessageRecord : UInt32 := 2
def kMessageFixedSize : Nat := 4 + 8 + 8
def kMaxRecordSize : Nat := 2 ^ 32 - 1

/-! ## Fields -/

def putU32 (out : Bytes) (value : UInt32) : Bytes := out ++ putLe 4 value.toNat

def putU64 (out : Bytes) (value : UInt64) : Bytes := out ++ putLe 8 value.toNat

def putString (out : Bytes) (text : Bytes) : Bytes := putU32 out (UInt32.ofNat text.length) ++ text

def getU32 (data : Bytes) : UInt32 := UInt32.ofNat (getLe (data.take 4))

def getU64 (data : Bytes) : UInt64 := UInt64.ofNat (getLe (data.take 8))

/-- `BodyReader`: bounds-checked reads from one record body. -/
structure BodyReader where
  body : Bytes
  offset : Nat := 0

namespace BodyReader

def left (r : BodyReader) : Nat := r.body.length - r.offset

def u32 (r : BodyReader) : Option (UInt32 × BodyReader) :=
  if r.left < 4 then none else some (getU32 (r.body.drop r.offset), { r with offset := r.offset + 4 })

def string (r : BodyReader) : Option (Bytes × BodyReader) := do
  let (size, r) ← r.u32
  if r.left < size.toNat then none
  else some ((r.body.drop r.offset).take size.toNat, { r with offset := r.offset + size.toNat })

end BodyReader

def tooLong (text : Bytes) : Bool := 2 ^ 32 - 1 < text.length

/-! ## Topics and messages -/

abbrev Parameters := SortedMap Bytes Bytes

structure RecordedTopic where
  id : UInt32
  name : Bytes
  descriptor : MessageDescriptor
  parameters : Parameters

structure RecordedMessage where
  topic : UInt32
  time : Int64
  sequence : UInt64
  payload : Bytes
  deriving DecidableEq

/-! ## RecordingWriter -/

structure RecordingWriter where
  path : Bytes
  out : Bytes
  /-- Declared ids, in order. -/
  topics : List UInt32 := []
  messages : UInt64 := 0
  closed : Bool := false

namespace RecordingWriter

def fileHeader : Bytes := putU32 (putU32 kMagic kFormatVersion) 0

def create (path : Bytes) : RecordingWriter := { path, out := fileHeader }

def emit (w : RecordingWriter) (kind : UInt32) (body tail : Bytes) : Status × RecordingWriter :=
  if w.closed then (.error .failedPrecondition (text "recording " ++ w.path ++ text " is closed"), w)
  else
    let size := body.length + tail.length
    if kMaxRecordSize < size then
      (.error .invalidArgument (text s!"record of {size} bytes is too large"), w)
    else
      let header := putU32 (putU32 [] kind) (UInt32.ofNat size)
      (.ok, { w with out := w.out ++ header ++ body ++ tail })

/-- The loop over the parameters: none at one that is too long. -/
def putParameters : Bytes → List (Bytes × Bytes) → Option Bytes
  | body, [] => some body
  | body, entry :: entries =>
    if tooLong entry.1 || tooLong entry.2 then none
    else putParameters (putString (putString body entry.1) entry.2) entries

def addTopic (w : RecordingWriter) (topic : RecordedTopic) : Result UInt32 × RecordingWriter :=
  let status := validateName "topic name" topic.name
  let status := if status.isOk then topic.descriptor.validate else status
  if !status.isOk then (.fromStatus status, w)
  else
    let id := UInt32.ofNat (w.topics.length + 1)
    let body := putU32 [] id
    let body := putString body topic.name
    let body := putString body topic.descriptor.typeName
    let body := putString body topic.descriptor.encoding
    let body := putU32 body topic.descriptor.version
    let body := putU32 body (UInt32.ofNat topic.parameters.entries.length)
    match putParameters body topic.parameters.entries with
    | none => (.fromStatus (.error .invalidArgument (text "topic parameter is too long")), w)
    | some body =>
      let (status, w) := w.emit kTopicRecord body []
      if !status.isOk then (.fromStatus status, w) else (.ok id, { w with topics := w.topics ++ [id] })

def write (w : RecordingWriter) (topic : UInt32) (time : Int64) (sequence : UInt64) (payload : Bytes) :
    Status × RecordingWriter :=
  if topic = 0 ∨ w.topics.length < topic.toNat then
    (.error .invalidArgument (text s!"topic id {topic} was not added"), w)
  else if time < 0 then (.error .invalidArgument (text "message time must not be negative"), w)
  else
    let body := putU64 (putU64 (putU32 [] topic) time.toUInt64) sequence
    let (status, w) := w.emit kMessageRecord body payload
    if status.isOk then (status, { w with messages := w.messages + 1 }) else (status, w)

def flush (w : RecordingWriter) : Status × RecordingWriter :=
  if w.closed then (.error .failedPrecondition (text "recording " ++ w.path ++ text " is closed"), w) else (.ok, w)

def close (w : RecordingWriter) : Status × RecordingWriter :=
  if w.closed then (.ok, w) else (.ok, { w with closed := true })

end RecordingWriter

/-! ## RecordingReader -/

structure RecordingReader where
  path : Bytes
  input : Bytes
  topics : List RecordedTopic := []
  fileSize : Nat
  /-- Of the next record. -/
  position : Nat := kFileHeaderSize
  truncated : Bool := false
  ended : Bool := false

namespace RecordingReader

def corrupt (r : RecordingReader) (what : Bytes) : Status :=
  .error .dataLoss (text "recording " ++ r.path ++ text ": " ++ what)

def findTopic (r : RecordingReader) (id : UInt32) : Option RecordedTopic := r.topics.find? (·.id == id)

/-- The loop over the parameters of a topic record. -/
def readParameters : Nat → BodyReader → Parameters → Option Parameters
  | 0, _, parameters => some parameters
  | count + 1, reader, parameters => do
    let (key, reader) ← reader.string
    let (value, reader) ← reader.string
    readParameters count reader (parameters.insert key value)

def readTopic (body : Bytes) : Option RecordedTopic := do
  let (id, reader) ← BodyReader.u32 { body }
  let (name, reader) ← reader.string
  let (typeName, reader) ← reader.string
  let (encoding, reader) ← reader.string
  let (version, reader) ← reader.u32
  let (count, reader) ← reader.u32
  let parameters ← readParameters count.toNat reader .empty
  some { id, name, descriptor := { typeName, encoding, version }, parameters }

def decodeTopic (r : RecordingReader) (body : Bytes) : Status × RecordingReader :=
  match readTopic body with
  | none => (r.corrupt (text "malformed topic record"), r)
  | some topic =>
    if topic.id = 0 ∨ (r.findTopic topic.id).isSome then
      (r.corrupt (text s!"topic id {topic.id} is invalid or declared twice"), r)
    else (.ok, { r with topics := r.topics ++ [topic] })

/-- `Open` on a file that exists. -/
def openFile (path file : Bytes) : Result RecordingReader :=
  let header := file.take kFileHeaderSize
  if header.length ≠ kFileHeaderSize ∨ header.take kMagic.length ≠ kMagic then
    .fromStatus (.error .invalidArgument (path ++ text " is not a PuppetMaster recording"))
  else
    let version := getU32 (header.drop 8)
    if version ≠ kFormatVersion then
      .fromStatus (.error .unsupported (text "recording " ++ path ++
        text s!" has format version {version}, expected {kFormatVersion}"))
    else .ok { path, input := file.drop kFileHeaderSize, fileSize := file.length }

/-- The message of a record body, once its size was checked. -/
def readMessage (r : RecordingReader) (body : Bytes) : Result RecordedMessage :=
  let topic := getU32 body
  let time := getU64 (body.drop 4)
  if 2 ^ 63 - 1 < time.toNat then .fromStatus (r.corrupt (text "message time out of range"))
  else
    let sequence := getU64 (body.drop 12)
    if (r.findTopic topic).isNone then
      .fromStatus (r.corrupt (text s!"message of undeclared topic id {topic}"))
    else .ok { topic, time := time.toInt64, sequence, payload := body.drop kMessageFixedSize }

/-- One turn of the loop of `Next`: what it returned, or none if the loop goes on. -/
def turn (r : RecordingReader) : Option (Result RecordedMessage) × RecordingReader :=
  let header := r.input.take kRecordHeaderSize
  let r := { r with input := r.input.drop kRecordHeaderSize }
  if header.length ≠ kRecordHeaderSize then
    -- a clean end falls between records
    (none, { r with truncated := header.length != 0, ended := true })
  else
    let kind := getU32 header
    let size := (getU32 (header.drop 4)).toNat
    let r := { r with position := r.position + kRecordHeaderSize }
    if r.fileSize - min r.fileSize r.position < size then (none, { r with truncated := true, ended := true })
    else
      let body := r.input.take size
      let r := { r with input := r.input.drop size }
      if body.length ≠ size then (none, { r with truncated := true, ended := true })
      else
        let r := { r with position := r.position + size }
        if kind = kTopicRecord then
          let (status, r) := r.decodeTopic body
          if !status.isOk then (some (.fromStatus status), r) else (none, r)
        else if kind ≠ kMessageRecord then (none, r)
        else if size < kMessageFixedSize then (some (.fromStatus (r.corrupt (text "malformed message record"))), r)
        else (some (r.readMessage body), r)

/-- What a reader still has to do. -/
def remaining (r : RecordingReader) : Nat := if r.ended then 0 else r.input.length + 1

theorem decodeTopic_input (r : RecordingReader) (body : Bytes) : (r.decodeTopic body).2.input = r.input := by
  unfold decodeTopic
  split
  · rfl
  · split <;> rfl

theorem remaining_of_input {r r' : RecordingReader} (h : r.ended = false) (hlt : r'.input.length < r.input.length) :
    r'.remaining < r.remaining := by
  unfold remaining
  rw [h, if_neg Bool.false_ne_true]
  split <;> omega

theorem turn_remaining {r : RecordingReader} (h : r.ended = false) : r.turn.2.remaining < r.remaining := by
  have hstop : ∀ r' : RecordingReader, r'.ended = true → r'.remaining < r.remaining := by
    intro r' hended
    unfold remaining
    rw [h, hended, if_pos rfl, if_neg Bool.false_ne_true]
    omega
  unfold turn
  simp only
  split
  · exact hstop _ rfl
  · next hheader =>
    -- the header is used up, and the body is no longer than what follows
    have hlen : kRecordHeaderSize ≤ r.input.length := by
      rw [ne_eq, Decidable.not_not, List.length_take] at hheader
      omega
    have hused : ∀ size, ((r.input.drop kRecordHeaderSize).drop size).length < r.input.length := by
      intro size
      rw [List.length_drop, List.length_drop]
      have : 0 < kRecordHeaderSize := by decide
      omega
    split
    · exact hstop _ rfl
    · split
      · exact hstop _ rfl
      · split
        · split <;>
          · refine remaining_of_input h ?_
            rw [decodeTopic_input]
            exact hused _
        · split
          · exact remaining_of_input h (hused _)
          · split <;> exact remaining_of_input h (hused _)

/-- `RecordingReader::Next`. -/
def next (r : RecordingReader) : Result (Option RecordedMessage) × RecordingReader :=
  if _h : r.ended then (.ok none, r)
  else
    match _ht : r.turn with
    | (some result, r') => (result.map some, r')
    | (none, r') => next r'
termination_by r.remaining
decreasing_by
  have hlt := turn_remaining (Bool.eq_false_iff.mpr _h)
  rwa [_ht] at hlt

end RecordingReader

end PuppetMaster.Recording
