/-
  PuppetMaster.Recording.RoundTrip — a recording read back.

  A writer that takes `Call`s in any order, with calls it rejects among them, writes the
  records of the calls it accepted and nothing else (`run_out`). These are `Orderly`: the
  topics are numbered from 1 in the order of their declaration, and a message has the number
  of a topic before it. Records of other kinds between them change nothing.

  Ids have 32 bits, and nothing checks that they suffice: the topic after 2^32 - 1 others
  gets id 0, which no reader takes. So what was accepted is read back exactly when fewer
  than 2^32 topics were (`recording_round_trip_iff`).
-/

import Mathlib.Algebra.Group.Nat.Defs
import PuppetMaster.Recording.Records

namespace PuppetMaster.Recording

open PuppetMaster.Core PuppetMaster.Lib

/-! ## Calls -/

inductive Call where
  | addTopic (topic : RecordedTopic)
  | write (topic : UInt32) (time : Int64) (sequence : UInt64) (payload : Bytes)
  | flush
  | close

namespace RecordingWriter

def step (w : RecordingWriter) : Call → RecordingWriter
  | .addTopic topic => (w.addTopic topic).2
  | .write topic time sequence payload => (w.write topic time sequence payload).2
  | .flush => w.flush.2
  | .close => w.close.2

def run (w : RecordingWriter) (calls : List Call) : RecordingWriter := calls.foldl step w

/-- The topic, with the id the call returned, or the message of a call that succeeded. -/
def acceptedBy (w : RecordingWriter) : Call → Option Record
  | .addTopic topic =>
    match (w.addTopic topic).1 with
    | .ok id => some (.topic { topic with id })
    | .error _ => none
  | .write topic time sequence payload =>
    if (w.write topic time sequence payload).1.isOk then some (.message { topic, time, sequence, payload }) else none
  | .flush => none
  | .close => none

def accepted : RecordingWriter → List Call → List Record
  | _, [] => []
  | w, call :: calls => (w.acceptedBy call).toList ++ accepted (w.step call) calls

end RecordingWriter

/-- What `AddTopic` asks of a topic. -/
def acceptable (topic : RecordedTopic) : Bool :=
  (validateName "topic name" topic.name).isOk && topic.descriptor.validate.isOk &&
    topic.parameters.entries.all (fun entry => !(tooLong entry.1 || tooLong entry.2)) &&
    decide ((topicBody topic).length ≤ kMaxRecordSize)

/-- The calls that declare an acceptable topic while the file is open. -/
def declarations : List Call → Nat
  | [] => 0
  | .close :: _ => 0
  | .addTopic topic :: calls => (acceptable topic).toNat + declarations calls
  | _ :: calls => declarations calls

def topicsOf (recs : List Record) : List RecordedTopic :=
  recs.filterMap fun
    | .topic t => some t
    | _ => none

def messagesOf (recs : List Record) : List RecordedMessage :=
  recs.filterMap fun
    | .message m => some m
    | _ => none

/-- Topics are numbered on from `n`, and messages are of topics that are there. -/
def Orderly : Nat → List Record → Prop
  | _, [] => True
  | n, .topic t :: recs => t.id = UInt32.ofNat (n + 1) ∧ Orderly (n + 1) recs
  | n, .message m :: recs => (m.topic ≠ 0 ∧ m.topic.toNat ≤ n) ∧ Orderly n recs
  | n, .other _ _ :: recs => Orderly n recs

/-! ## What a call writes -/

theorem length_putU32 (out : Bytes) (value : UInt32) : (putU32 out value).length = out.length + 4 := by
  rw [putU32, List.length_append, length_putLe]

theorem length_putString (out s : Bytes) : (putString out s).length = out.length + (4 + s.length) := by
  rw [putString, List.length_append, length_putU32, Nat.add_assoc]

theorem toNat_ofNat {n : Nat} (h : n < 2 ^ 32) : (UInt32.ofNat n).toNat = n := UInt32.toNat_ofNat_of_lt' h

theorem putString_eq {s : Bytes} (h : s.length < 2 ^ 32) (out : Bytes) : putString out s = out ++ str s := by
  rw [putString, putU32, toNat_ofNat h, str, List.append_assoc]

namespace RecordingWriter

variable {w : RecordingWriter}

/-- A record is written whole or not at all. -/
theorem emit_cases (kind : UInt32) (body tail : Bytes) :
    (body ++ tail).length < 2 ^ 32 ∧ w.closed = false ∧
        w.emit kind body tail = (.ok, { w with out := w.out ++ rawRecord kind (body ++ tail) }) ∨
      ∃ s : Status, s.isOk = false ∧ w.emit kind body tail = (s, w) := by
  unfold emit
  split
  · exact .inr ⟨_, rfl, rfl⟩
  · next hopen =>
    simp only
    split
    · exact .inr ⟨_, rfl, rfl⟩
    · next hsize =>
      have hlt : body.length + tail.length < 2 ^ 32 := by
        simp only [kMaxRecordSize] at hsize
        omega
      refine .inl ⟨by rwa [List.length_append], Bool.eq_false_iff.mpr hopen, ?_⟩
      simp only [putU32, List.nil_append, toNat_ofNat hlt, rawRecord, List.length_append, List.append_assoc]

theorem putParameters_eq {es : List (Bytes × Bytes)} {body out : Bytes} (h : putParameters body es = some out) :
    out = body ++ es.flatMap entryBytes := by
  induction es generalizing body with
  | nil =>
    cases h
    rw [List.flatMap_nil, List.append_nil]
  | cons e es ih =>
    unfold putParameters at h
    split at h
    · cases h
    · next hshort =>
      simp only [tooLong, Bool.or_eq_true, decide_eq_true_eq, not_or] at hshort
      rw [ih h, putString_eq (by omega), putString_eq (by omega), List.flatMap_cons, entryBytes]
      simp only [List.append_assoc]

/-- The body of a topic record that fits is the topic's. -/
theorem topicBody_eq {topic : RecordedTopic} {id : UInt32} {out : Bytes}
    (h : putParameters (putU32 (putU32 (putString (putString (putString (putU32 [] id) topic.name)
        topic.descriptor.typeName) topic.descriptor.encoding) topic.descriptor.version)
        (UInt32.ofNat topic.parameters.entries.length)) topic.parameters.entries = some out)
    (hsize : out.length < 2 ^ 32) : out = topicBody { topic with id } := by
  have hout := putParameters_eq h
  have hlen := congrArg List.length hout
  simp only [List.length_append, length_putU32, length_putString, List.length_nil] at hlen
  have hentries := length_entries topic.parameters.entries
  have hname : topic.name.length < 2 ^ 32 := by omega
  have htype : topic.descriptor.typeName.length < 2 ^ 32 := by omega
  have hencoding : topic.descriptor.encoding.length < 2 ^ 32 := by omega
  have hcount : topic.parameters.entries.length < 2 ^ 32 := by omega
  rw [hout, putString_eq hname, putString_eq htype, putString_eq hencoding]
  simp only [putU32, toNat_ofNat hcount, List.nil_append, topicBody, List.append_assoc]

theorem putParameters_some {es : List (Bytes × Bytes)}
    (h : es.all (fun entry => !(tooLong entry.1 || tooLong entry.2)) = true) (body : Bytes) :
    ∃ out, putParameters body es = some out := by
  induction es generalizing body with
  | nil => exact ⟨body, rfl⟩
  | cons e es ih =>
    obtain ⟨hfirst, hrest⟩ := Bool.and_eq_true_iff.mp h
    rw [putParameters, if_neg (by simpa using hfirst)]
    exact ih hrest _

theorem putParameters_none {es : List (Bytes × Bytes)}
    (h : es.all (fun entry => !(tooLong entry.1 || tooLong entry.2)) = false) (body : Bytes) :
    putParameters body es = none := by
  induction es generalizing body with
  | nil => cases h
  | cons e es ih =>
    rw [putParameters]
    split
    · rfl
    · next hfirst =>
      rw [List.all_cons, Bool.eq_false_iff.mpr hfirst] at h
      exact ih h _

/-- A topic is declared under the next id, or the call fails and nothing changes. -/
theorem addTopic_cases (w : RecordingWriter) (topic : RecordedTopic) :
    (∃ t : RecordedTopic, t = { topic with id := UInt32.ofNat (w.topics.length + 1) } ∧ (topicBody t).length < 2 ^ 32 ∧
        w.addTopic topic =
          (.ok t.id, { w with out := w.out ++ (Record.topic t).bytes, topics := w.topics ++ [t.id] })) ∨
      ∃ s, w.addTopic topic = (.error s, w) := by
  unfold addTopic
  simp only
  generalize (if (validateName "topic name" topic.name).isOk then topic.descriptor.validate
    else validateName "topic name" topic.name) = status
  split
  · exact .inr ⟨_, rfl⟩
  · split
    · exact .inr ⟨_, rfl⟩
    · next body hbody =>
      rcases emit_cases (w := w) kTopicRecord body [] with ⟨hsize, -, hemit⟩ | ⟨s, herr, hemit⟩
      · rw [List.append_nil] at hsize
        have heq := topicBody_eq hbody hsize
        refine .inl ⟨_, rfl, heq ▸ hsize, ?_⟩
        rw [hemit, List.append_nil, heq]
        rfl
      · rw [hemit]
        simp only [herr, Bool.not_false, if_true]
        exact .inr ⟨_, rfl⟩

theorem emit_isOk (kind : UInt32) (body tail : Bytes) :
    (w.emit kind body tail).1.isOk = (!w.closed && decide (body.length + tail.length ≤ kMaxRecordSize)) := by
  unfold emit
  cases w.closed with
  | true => rfl
  | false =>
    by_cases hsize : body.length + tail.length ≤ kMaxRecordSize
    · simp only [Bool.false_eq_true, if_false, if_neg (Nat.not_lt.mpr hsize), decide_eq_true hsize]
      rfl
    · simp only [Bool.false_eq_true, if_false, if_pos (Nat.not_le.mp hsize), decide_eq_false hsize]
      rfl

/-- `AddTopic` succeeds for an acceptable topic on an open file, and for no other. -/
theorem addTopic_accepts (w : RecordingWriter) (topic : RecordedTopic) :
    (∃ id, (w.addTopic topic).1 = .ok id) ↔ (!w.closed && acceptable topic) = true := by
  have hstatus : (if (validateName "topic name" topic.name).isOk then topic.descriptor.validate
      else validateName "topic name" topic.name).isOk =
      ((validateName "topic name" topic.name).isOk && topic.descriptor.validate.isOk) := by
    cases h : (validateName "topic name" topic.name).isOk with
    | true => rfl
    | false => exact h
  unfold addTopic acceptable
  simp only [hstatus]
  cases (validateName "topic name" topic.name).isOk && topic.descriptor.validate.isOk with
  | false =>
    constructor
    · intro h
      obtain ⟨id, h⟩ := h
      cases h
    · intro h
      simp at h
  | true =>
    cases hall : topic.parameters.entries.all (fun entry => !(tooLong entry.1 || tooLong entry.2)) with
    | false =>
      simp only [putParameters_none hall]
      constructor
      · intro h
        obtain ⟨id, h⟩ := h
        cases h
      · intro h
        simp at h
    | true =>
      obtain ⟨out, hout⟩ := putParameters_some hall
        (putU32 (putU32 (putString (putString (putString (putU32 [] (UInt32.ofNat (w.topics.length + 1))) topic.name)
          topic.descriptor.typeName) topic.descriptor.encoding) topic.descriptor.version)
          (UInt32.ofNat topic.parameters.entries.length))
      have hlen : out.length = (topicBody topic).length := by
        have := congrArg List.length (putParameters_eq hout)
        simp only [List.length_append, length_putU32, length_putString, List.length_nil] at this
        simp only [topicBody, List.length_append, length_putLe, length_str]
        omega
      simp only [hout, emit_isOk, List.length_nil, Nat.add_zero, hlen, Bool.not_true, Bool.true_and]
      cases hok : !w.closed && decide ((topicBody topic).length ≤ kMaxRecordSize) with
      | false =>
        constructor
        · intro h
          obtain ⟨id, h⟩ := h
          cases h
        · intro h
          cases h
      | true => exact ⟨fun _ => rfl, fun _ => ⟨_, rfl⟩⟩

theorem write_cases (w : RecordingWriter) (topic : UInt32) (time : Int64) (sequence : UInt64) (payload : Bytes) :
    (∃ m : RecordedMessage, m = { topic, time, sequence, payload } ∧ m.topic ≠ 0 ∧ m.topic.toNat ≤ w.topics.length ∧
        0 ≤ m.time ∧ (messageBody m).length < 2 ^ 32 ∧
        w.write topic time sequence payload =
          (.ok, { w with out := w.out ++ (Record.message m).bytes, messages := w.messages + 1 })) ∨
      ∃ s : Status, s.isOk = false ∧ w.write topic time sequence payload = (s, w) := by
  unfold write
  split
  · exact .inr ⟨_, rfl, rfl⟩
  · next hdeclared =>
    rw [not_or, Nat.not_lt] at hdeclared
    split
    · exact .inr ⟨_, rfl, rfl⟩
    · next htime =>
      have hbody : putU64 (putU64 (putU32 [] topic) time.toUInt64) sequence ++ payload =
          messageBody { topic, time, sequence, payload } := by
        simp only [putU64, putU32, List.nil_append, messageBody, List.append_assoc]
      rcases emit_cases (w := w) kMessageRecord (putU64 (putU64 (putU32 [] topic) time.toUInt64) sequence) payload with
        ⟨hsize, -, hemit⟩ | ⟨s, herr, hemit⟩
      · rw [hbody] at hsize hemit
        refine .inl ⟨_, rfl, hdeclared.1, hdeclared.2, Int64.not_lt.mp htime, hsize, ?_⟩
        simp only [hemit]
        rfl
      · simp only [hemit, herr, Bool.false_eq_true, if_false]
        exact .inr ⟨_, herr, rfl⟩

/-- What a call can do: write the record of what it accepts, or nothing. -/
theorem step_cases (w : RecordingWriter) (call : Call) :
    (∃ t : RecordedTopic, t.id = UInt32.ofNat (w.topics.length + 1) ∧ (topicBody t).length < 2 ^ 32 ∧
        w.acceptedBy call = some (.topic t) ∧ (w.step call).out = w.out ++ (Record.topic t).bytes ∧
        (w.step call).topics.length = w.topics.length + 1) ∨
      (∃ m : RecordedMessage, (m.topic ≠ 0 ∧ m.topic.toNat ≤ w.topics.length) ∧ 0 ≤ m.time ∧
        (messageBody m).length < 2 ^ 32 ∧ w.acceptedBy call = some (.message m) ∧
        (w.step call).out = w.out ++ (Record.message m).bytes ∧ (w.step call).topics = w.topics) ∨
      (w.acceptedBy call = none ∧ (w.step call).out = w.out ∧ (w.step call).topics = w.topics) := by
  cases call with
  | addTopic topic =>
    rcases w.addTopic_cases topic with ⟨t, ht, hsize, h⟩ | ⟨s, h⟩
    · refine .inl ⟨t, by rw [ht], hsize, ?_, ?_, ?_⟩
      · simp only [acceptedBy, h]
        rw [ht]
      · simp only [step, h]
      · simp only [step, h, List.length_append, List.length_singleton]
    · refine .inr (.inr ⟨?_, ?_, ?_⟩)
      · simp only [acceptedBy, h]
      · simp only [step, h]
      · simp only [step, h]
  | write topic time sequence payload =>
    rcases w.write_cases topic time sequence payload with ⟨m, hm, hzero, hle, htime, hsize, h⟩ | ⟨s, herr, h⟩
    · refine .inr (.inl ⟨m, ⟨hzero, hle⟩, htime, hsize, ?_, ?_, ?_⟩)
      · simp only [acceptedBy, h, hm]
        rfl
      · simp only [step, h]
      · simp only [step, h]
    · refine .inr (.inr ⟨?_, ?_, ?_⟩)
      · simp only [acceptedBy, h, herr, Bool.false_eq_true, if_false]
      · simp only [step, h]
      · simp only [step, h]
  | flush =>
    refine .inr (.inr ⟨rfl, ?_, ?_⟩) <;>
    · simp only [step, flush]
      split <;> rfl
  | close =>
    refine .inr (.inr ⟨rfl, ?_, ?_⟩) <;>
    · simp only [step, close]
      split <;> rfl

/-! ## What a run writes -/

theorem run_cons (w : RecordingWriter) (call : Call) (calls : List Call) :
    w.run (call :: calls) = (w.step call).run calls := rfl

/-- The accepted calls' records stand one after the other, and nothing else does. -/
theorem run_out (w : RecordingWriter) (calls : List Call) :
    (w.run calls).out = w.out ++ (w.accepted calls).flatMap Record.bytes := by
  induction calls generalizing w with
  | nil => exact (List.append_nil _).symm
  | cons call calls ih =>
    rw [run_cons, ih, accepted, List.flatMap_append]
    rcases w.step_cases call with ⟨t, -, -, hacc, hout, -⟩ | ⟨m, -, -, -, hacc, hout, -⟩ | ⟨hacc, hout, -⟩
    · rw [hacc, hout]
      simp only [Option.toList_some, List.flatMap_singleton, List.append_assoc]
    · rw [hacc, hout]
      simp only [Option.toList_some, List.flatMap_singleton, List.append_assoc]
    · rw [hacc, hout]
      rfl

theorem accepted_valid (w : RecordingWriter) (calls : List Call) : ∀ rec ∈ w.accepted calls, rec.Valid := by
  induction calls generalizing w with
  | nil => exact fun rec hrec => nomatch hrec
  | cons call calls ih =>
    intro rec hrec
    rw [accepted] at hrec
    rcases List.mem_append.mp hrec with hnow | hlater
    · rcases w.step_cases call with ⟨t, -, hsize, hacc, -⟩ | ⟨m, -, htime, hsize, hacc, -⟩ | ⟨hacc, -⟩
      · rw [hacc] at hnow
        cases List.mem_singleton.mp hnow
        exact ⟨hsize, fun m => (nomatch ·), fun kind body => (nomatch ·)⟩
      · rw [hacc] at hnow
        cases List.mem_singleton.mp hnow
        refine ⟨hsize, fun m' h => ?_, fun kind body => (nomatch ·)⟩
        cases h
        exact htime
      · rw [hacc] at hnow
        exact nomatch hnow
    · exact ih (w.step call) rec hlater

theorem step_closed (w : RecordingWriter) (call : Call) (h : call ≠ .close) : (w.step call).closed = w.closed := by
  cases call with
  | addTopic topic =>
    rcases w.addTopic_cases topic with ⟨t, -, -, h⟩ | ⟨s, h⟩ <;> simp only [step, h]
  | write topic time sequence payload =>
    rcases w.write_cases topic time sequence payload with ⟨m, -, -, -, -, -, h⟩ | ⟨s, -, h⟩ <;> simp only [step, h]
  | flush =>
    simp only [step, flush]
    split <;> rfl
  | close => exact absurd rfl h

theorem close_closed (w : RecordingWriter) : (w.step .close).closed = true := by
  simp only [step, close]
  split
  · assumption
  · rfl

theorem length_topicsOf_addTopic (w : RecordingWriter) (topic : RecordedTopic) :
    (topicsOf (w.acceptedBy (.addTopic topic)).toList).length = (!w.closed && acceptable topic).toNat := by
  have haccepts := w.addTopic_accepts topic
  cases hresult : (w.addTopic topic).1 with
  | ok id =>
    simp only [acceptedBy, hresult, haccepts.mp ⟨id, hresult⟩]
    rfl
  | error s =>
    have hnot : (!w.closed && acceptable topic) = false := by
      apply Bool.eq_false_iff.mpr
      intro h
      obtain ⟨id, hid⟩ := haccepts.mpr h
      cases hresult.symm.trans hid
    simp only [acceptedBy, hresult, hnot]
    rfl

/-- The accepted topics are those of the calls that declare one. -/
theorem length_topicsOf_accepted (w : RecordingWriter) (calls : List Call) :
    (topicsOf (w.accepted calls)).length = if w.closed then 0 else declarations calls := by
  induction calls generalizing w with
  | nil =>
    rw [declarations, ite_self]
    rfl
  | cons call calls ih =>
    have happend : topicsOf (w.accepted (call :: calls)) =
        topicsOf (w.acceptedBy call).toList ++ topicsOf ((w.step call).accepted calls) := List.filterMap_append
    rw [happend, List.length_append, ih]
    cases call with
    | addTopic topic =>
      rw [length_topicsOf_addTopic, step_closed _ _ (Call.noConfusion ·), declarations]
      cases w.closed with
      | true => rfl
      | false => simp
    | write topic time sequence payload =>
      have hnone : topicsOf (w.acceptedBy (.write topic time sequence payload)).toList = [] := by
        simp only [acceptedBy]
        split <;> rfl
      rw [hnone, step_closed _ _ (Call.noConfusion ·), List.length_nil, Nat.zero_add]
      rfl
    | flush =>
      rw [step_closed _ _ (Call.noConfusion ·)]
      exact Nat.zero_add _
    | close =>
      rw [close_closed, declarations, ite_self]
      rfl

theorem accepted_orderly (w : RecordingWriter) (calls : List Call) : Orderly w.topics.length (w.accepted calls) := by
  induction calls generalizing w with
  | nil => exact trivial
  | cons call calls ih =>
    have hrest := ih (w.step call)
    rw [accepted]
    rcases w.step_cases call with ⟨t, hid, -, hacc, -, hlen⟩ | ⟨m, hm, -, -, hacc, -, htopics⟩ | ⟨hacc, -, htopics⟩
    · rw [hlen] at hrest
      rw [hacc]
      exact ⟨hid, hrest⟩
    · rw [htopics] at hrest
      rw [hacc]
      exact ⟨hm, hrest⟩
    · rw [htopics] at hrest
      rw [hacc]
      exact hrest

end RecordingWriter

/-! ## The scan of orderly records -/

/-- Topics with the ids 1, 2, 3 and so on. -/
def Numbered (ts : List RecordedTopic) : Prop :=
  ts.map (·.id) = (List.range ts.length).map fun i => UInt32.ofNat (i + 1)

theorem numbered_mem {ts : List RecordedTopic} (h : Numbered ts) (hlen : ts.length < 2 ^ 32) (id : UInt32) :
    id ∈ ts.map (·.id) ↔ id ≠ 0 ∧ id.toNat ≤ ts.length := by
  rw [h, List.mem_map]
  constructor
  · intro h
    obtain ⟨i, hi, rfl⟩ := h
    have hlt := List.mem_range.mp hi
    have hval : (UInt32.ofNat (i + 1)).toNat = i + 1 := toNat_ofNat (by omega)
    refine ⟨fun hzero => ?_, by omega⟩
    rw [hzero] at hval
    exact absurd hval (Nat.succ_ne_zero i).symm
  · intro h
    obtain ⟨hzero, hle⟩ := h
    have hpos : 0 < id.toNat := Nat.pos_of_ne_zero fun h0 => hzero (UInt32.toNat_inj.mp h0)
    refine ⟨id.toNat - 1, List.mem_range.mpr (by omega), ?_⟩
    rw [Nat.sub_add_cancel hpos, UInt32.ofNat_toNat]

theorem numbered_snoc {ts : List RecordedTopic} {t : RecordedTopic} (h : Numbered ts)
    (hid : t.id = UInt32.ofNat (ts.length + 1)) : Numbered (ts ++ [t]) := by
  unfold Numbered at h ⊢
  rw [List.map_append, h, List.length_append, List.length_singleton, List.range_succ, List.map_append]
  simp only [List.map_cons, List.map_nil, hid]

/-- The ids of orderly records last for 2^32 - 1 topics. -/
theorem scan_orderly {recs : List Record} {ts : List RecordedTopic} (hts : Numbered ts) (hlen : ts.length < 2 ^ 32)
    (horderly : Orderly ts.length recs) :
    scan ts recs = if ts.length + (topicsOf recs).length < 2 ^ 32 then some (messagesOf recs, ts ++ topicsOf recs)
      else none := by
  induction recs generalizing ts with
  | nil =>
    have hfew : ts.length + (topicsOf []).length < 2 ^ 32 := hlen
    rw [if_pos hfew, scan, topicsOf, messagesOf, List.filterMap_nil, List.filterMap_nil, List.append_nil]
  | cons rec recs ih =>
    cases rec with
    | topic t =>
      obtain ⟨hid, hrest⟩ := horderly
      have htopics : topicsOf (.topic t :: recs) = t :: topicsOf recs := rfl
      have hmessages : messagesOf (.topic t :: recs) = messagesOf recs := rfl
      rw [htopics, hmessages, List.length_cons, scan]
      by_cases hnext : ts.length + 1 < 2 ^ 32
      · have hval : t.id.toNat = ts.length + 1 := by rw [hid, toNat_ofNat hnext]
        have hnot : ¬ (t.id = 0 ∨ t.id ∈ ts.map (·.id)) := by
          rw [numbered_mem hts hlen]
          intro h
          rcases h with hzero | ⟨-, hle⟩
          · rw [hzero] at hval
            exact absurd hval (Nat.succ_ne_zero ts.length).symm
          · omega
        have hlen' : (ts ++ [t]).length = ts.length + 1 := by rw [List.length_append, List.length_singleton]
        rw [if_neg hnot, ih (numbered_snoc hts hid) (by omega) (hlen' ▸ hrest), hlen', List.append_assoc,
          List.singleton_append, Nat.add_assoc, Nat.add_comm 1]
      · -- the number after the last one is 0 again
        have hfull : ts.length + 1 = 2 ^ 32 := by omega
        have hzero : t.id = 0 := by
          rw [hid, hfull]
          rfl
        rw [if_pos (.inl hzero), if_neg (by omega)]
    | message m =>
      obtain ⟨hm, hrest⟩ := horderly
      have htopics : topicsOf (.message m :: recs) = topicsOf recs := rfl
      have hmessages : messagesOf (.message m :: recs) = m :: messagesOf recs := rfl
      rw [htopics, hmessages, scan, if_pos ((numbered_mem hts hlen m.topic).mpr hm), ih hts hlen hrest]
      split <;> rfl
    | other kind body => exact ih hts hlen horderly

/-! ## Records of unknown kinds -/

/-- The second is the first with records of unknown kinds inserted between its records. -/
inductive WithUnknown : Bytes → Bytes → Prop
  | nil : WithUnknown [] []
  | keep {rest rest' : Bytes} (kind : UInt32) (body : Bytes) (hsize : body.length < 2 ^ 32)
      (h : WithUnknown rest rest') : WithUnknown (rawRecord kind body ++ rest) (rawRecord kind body ++ rest')
  | insert {rest rest' : Bytes} (kind : UInt32) (body : Bytes) (hkind : kind ≠ kTopicRecord ∧ kind ≠ kMessageRecord)
      (hsize : body.length < 2 ^ 32) (h : WithUnknown rest rest') : WithUnknown rest (rawRecord kind body ++ rest')

theorem rawRecord_inj {kind kind' : UInt32} {body body' rest rest' : Bytes} (hsize : body.length < 2 ^ 32)
    (hsize' : body'.length < 2 ^ 32) (h : rawRecord kind body ++ rest = rawRecord kind' body' ++ rest') :
    kind = kind' ∧ body = body' ∧ rest = rest' := by
  simp only [rawRecord, List.append_assoc] at h
  obtain ⟨hkind, h⟩ := List.append_inj h (by rw [length_putLe, length_putLe])
  obtain ⟨hlen, h⟩ := List.append_inj h (by rw [length_putLe, length_putLe])
  replace hlen : body.length = body'.length := by
    rw [← getLe_putLe_of_lt (w := 4) hsize, hlen, getLe_putLe_of_lt hsize']
  obtain ⟨hbody, hrest⟩ := List.append_inj h hlen
  refine ⟨UInt32.toNat_inj.mp ?_, hbody, hrest⟩
  rw [← getLe_putLe_of_lt (w := 4) kind.toNat_lt, hkind, getLe_putLe_of_lt kind'.toNat_lt]

theorem scan_congr {recs recs' : List Record} (h : ∀ ts, scan ts recs' = scan ts recs) (rec : Record)
    (ts : List RecordedTopic) : scan ts (rec :: recs') = scan ts (rec :: recs) := by
  cases rec <;> simp only [scan, h]

/-- Inserted records make no difference to the scan. -/
theorem withUnknown_records {bytes bytes' : Bytes} (h : WithUnknown bytes bytes') {recs : List Record}
    (hvalid : ∀ rec ∈ recs, rec.Valid) (hbytes : bytes = recs.flatMap Record.bytes) :
    ∃ recs' : List Record, bytes' = recs'.flatMap Record.bytes ∧ (∀ rec ∈ recs', rec.Valid) ∧
      ∀ ts, scan ts recs' = scan ts recs := by
  induction h generalizing recs with
  | nil =>
    cases recs with
    | nil => exact ⟨[], rfl, hvalid, fun _ => rfl⟩
    | cons rec recs =>
      have hlen := congrArg List.length hbytes
      rw [List.flatMap_cons, List.length_append, Record.bytes, length_rawRecord, List.length_nil] at hlen
      omega
  | keep kind body hsize h ih =>
    cases recs with
    | nil =>
      have hlen := congrArg List.length hbytes
      rw [List.length_append, length_rawRecord, List.flatMap_nil, List.length_nil] at hlen
      omega
    | cons rec recs =>
      have hrec := hvalid rec List.mem_cons_self
      obtain ⟨rfl, rfl, hrest⟩ := rawRecord_inj hsize hrec.size hbytes
      obtain ⟨recs', hbytes', hvalid', hscan⟩ := ih (fun rec' h' => hvalid rec' (List.mem_cons_of_mem _ h')) hrest
      refine ⟨rec :: recs', ?_, ?_, scan_congr hscan rec⟩
      · rw [hbytes', List.flatMap_cons]
        rfl
      · intro rec' h'
        rcases List.mem_cons.mp h' with rfl | h'
        · exact hrec
        · exact hvalid' rec' h'
  | insert kind body hkind hsize h ih =>
    obtain ⟨recs', hbytes', hvalid', hscan⟩ := ih hvalid hbytes
    refine ⟨.other kind body :: recs', ?_, ?_, fun ts => hscan ts⟩
    · rw [hbytes', List.flatMap_cons]
      rfl
    · intro rec' h'
      rcases List.mem_cons.mp h' with rfl | h'
      · refine ⟨hsize, fun m heq => ?_, fun kind' body' heq => ?_⟩
        · cases heq
        · cases heq
          exact hkind
      · exact hvalid' rec' h'

/-! ## There and back -/

/-- A reader at the first record. -/
def RecordingReader.opened (path body : Bytes) : RecordingReader :=
  { path, input := body, fileSize := kFileHeaderSize + body.length }

theorem RecordingReader.opened_positioned (path body : Bytes) : (opened path body).Positioned := ⟨rfl, rfl, rfl⟩

theorem openFile_header (path body : Bytes) :
    RecordingReader.openFile path (RecordingWriter.fileHeader ++ body) = .ok (.opened path body) := by
  have hlen : RecordingWriter.fileHeader.length = kFileHeaderSize := by decide
  have htake : (RecordingWriter.fileHeader ++ body).take kFileHeaderSize = RecordingWriter.fileHeader := by
    rw [← hlen, List.take_left]
  have hdrop : (RecordingWriter.fileHeader ++ body).drop kFileHeaderSize = body := by rw [← hlen, List.drop_left]
  have hmagic : ¬ (RecordingWriter.fileHeader.length ≠ kFileHeaderSize ∨
      RecordingWriter.fileHeader.take kMagic.length ≠ kMagic) := by decide
  have hversion : ¬ getU32 (RecordingWriter.fileHeader.drop 8) ≠ kFormatVersion := by decide
  simp only [RecordingReader.openFile, htake, if_neg hmagic, if_neg hversion, hdrop]
  rw [List.length_append, hlen]
  rfl

theorem run_records (path : Bytes) (calls : List Call) :
    ((RecordingWriter.create path).run calls).out =
      RecordingWriter.fileHeader ++ ((RecordingWriter.create path).accepted calls).flatMap Record.bytes :=
  RecordingWriter.run_out _ calls

theorem scan_accepted (path : Bytes) (calls : List Call) :
    scan [] ((RecordingWriter.create path).accepted calls) =
      if declarations calls < 2 ^ 32 then
        some (messagesOf ((RecordingWriter.create path).accepted calls),
          topicsOf ((RecordingWriter.create path).accepted calls))
      else none := by
  have hnumbered : Numbered [] := rfl
  have hscan := scan_orderly hnumbered (by decide) (RecordingWriter.accepted_orderly (.create path) calls)
  rwa [List.length_nil, Nat.zero_add, List.nil_append, RecordingWriter.length_topicsOf_accepted] at hscan

/-- A reader of the file returns the messages in order and then none, without an error and
    without a cut, and then has the topics. -/
def ReadsBack (path file : Bytes) (messages : List RecordedMessage) (topics : List RecordedTopic) : Prop :=
  ∃ r r', RecordingReader.openFile path file = .ok r ∧ RecordingReader.Reads r messages r' ∧ r'.truncated = false ∧
    r'.topics = topics

/-- A file of whole records is read back as its scan. -/
theorem readsBack_iff (path : Bytes) {recs : List Record} (hvalid : ∀ rec ∈ recs, rec.Valid)
    (messages : List RecordedMessage) (topics : List RecordedTopic) :
    ReadsBack path (RecordingWriter.fileHeader ++ recs.flatMap Record.bytes) messages topics ↔
      scan [] recs = some (messages, topics) := by
  have hwhole : RecordingReader.CutOff [] := .inl rfl
  obtain ⟨hscan, hreads⟩ := RecordingReader.reads_iff hvalid hwhole
    (RecordingReader.opened_positioned path (recs.flatMap Record.bytes)) (List.append_nil _).symm messages
  unfold ReadsBack
  rw [openFile_header]
  constructor
  · intro h
    obtain ⟨r, r', hopen, h, -, rfl⟩ := h
    cases hopen
    exact (hscan r' h).1
  · intro h
    obtain ⟨r', hr'⟩ := hreads topics h
    obtain ⟨heq, htruncated⟩ := hscan r' hr'
    have htopics := Option.some.inj (heq.symm.trans h)
    exact ⟨_, r', rfl, hr', htruncated, congrArg Prod.snd htopics⟩

theorem recording_round_trip_iff (path readerPath : Bytes) (calls : List Call) (records : Bytes)
    (h : WithUnknown (((RecordingWriter.create path).run calls).out.drop kFileHeaderSize) records) :
    ReadsBack readerPath (((RecordingWriter.create path).run calls).out.take kFileHeaderSize ++ records)
        (messagesOf ((RecordingWriter.create path).accepted calls))
        (topicsOf ((RecordingWriter.create path).accepted calls)) ↔
      declarations calls < 2 ^ 32 := by
  have hlen : RecordingWriter.fileHeader.length = kFileHeaderSize := by decide
  rw [run_records, ← hlen, List.drop_left] at h
  obtain ⟨recs, rfl, hvalid, hscan⟩ := withUnknown_records h (RecordingWriter.accepted_valid _ calls) rfl
  rw [run_records, ← hlen, List.take_left, readsBack_iff _ hvalid, hscan, scan_accepted]
  split
  · next hfew => exact ⟨fun _ => hfew, fun _ => rfl⟩
  · next hmany => exact ⟨(nomatch ·), fun hfew => absurd hfew hmany⟩

theorem withUnknown_refl {recs : List Record} (hvalid : ∀ rec ∈ recs, rec.Valid) :
    WithUnknown (recs.flatMap Record.bytes) (recs.flatMap Record.bytes) := by
  induction recs with
  | nil => exact .nil
  | cons rec recs ih =>
    rw [List.flatMap_cons]
    exact .keep rec.kind rec.body (hvalid rec List.mem_cons_self).size
      (ih fun rec' h => hvalid rec' (List.mem_cons_of_mem _ h))

/-- A file as the writer left it. -/
theorem withUnknown_run (path : Bytes) (calls : List Call) :
    WithUnknown (((RecordingWriter.create path).run calls).out.drop kFileHeaderSize)
      (((RecordingWriter.create path).run calls).out.drop kFileHeaderSize) := by
  have hlen : RecordingWriter.fileHeader.length = kFileHeaderSize := by decide
  rw [run_records, ← hlen, List.drop_left]
  exact withUnknown_refl (RecordingWriter.accepted_valid _ calls)

/-- Topic `a` of type `t`, encoded as `e`. -/
def plainTopic : RecordedTopic := ⟨0, [97], ⟨[116], [101], 0⟩, .empty⟩

/-- A message, with a call before its topic, one with a negative time and one on the closed
    file that are rejected. -/
def fewCalls : List Call :=
  [.write 1 0 6 [8], .addTopic plainTopic, .write 1 (-1) 6 [8], .write 1 5 7 [9], .close, .write 1 6 8 []]

/-- A record of kind 7 stands before the others. -/
theorem a_newer_kind_is_skipped :
    messagesOf ((RecordingWriter.create []).accepted fewCalls) = [⟨1, 5, 7, [9]⟩] ∧
      ReadsBack [] (((RecordingWriter.create []).run fewCalls).out.take kFileHeaderSize ++
          (rawRecord 7 [1, 2] ++ ((RecordingWriter.create []).run fewCalls).out.drop kFileHeaderSize))
        (messagesOf ((RecordingWriter.create []).accepted fewCalls))
        (topicsOf ((RecordingWriter.create []).accepted fewCalls)) := by
  refine ⟨by decide, (recording_round_trip_iff [] [] fewCalls _ ?_).mpr (by decide)⟩
  exact .insert 7 [1, 2] (by decide) (by decide) (withUnknown_run [] fewCalls)

theorem declarations_replicate (n : Nat) : declarations (List.replicate n (.addTopic plainTopic)) = n := by
  have haccept : acceptable plainTopic = true := by decide
  induction n with
  | zero => rfl
  | succ n ih =>
    rw [List.replicate_succ, declarations, ih, haccept, Bool.toNat_true, Nat.add_comm]

/-- 2^32 times one topic: every call succeeds, and the last returns id 0. -/
theorem a_topic_gets_id_zero :
    ¬ ∀ (path readerPath : Bytes) (calls : List Call) (records : Bytes),
      WithUnknown (((RecordingWriter.create path).run calls).out.drop kFileHeaderSize) records →
        ReadsBack readerPath (((RecordingWriter.create path).run calls).out.take kFileHeaderSize ++ records)
          (messagesOf ((RecordingWriter.create path).accepted calls))
          (topicsOf ((RecordingWriter.create path).accepted calls)) := by
  intro hall
  let calls := List.replicate (2 ^ 32) (Call.addTopic plainTopic)
  have hread := hall [] [] calls _ (withUnknown_run [] calls)
  rw [List.take_append_drop, run_records, readsBack_iff _ (RecordingWriter.accepted_valid _ calls), scan_accepted,
    declarations_replicate, if_neg (Nat.lt_irrefl _)] at hread
  cases hread

end PuppetMaster.Recording
