/-
  PuppetMaster.Recording.Records — what stands in a recording, and how it is read back.

  A `Record` is a topic, a message or a record of another kind; `Record.bytes` is how it
  stands in the file. A topic body is read back as the topic (`readTopic_topicBody`), so a
  turn of the reader at a whole record does what `Record.accept` says (`turn_record`), and
  at a record that is cut off it ends the reader (`turn_tail`).

  `scan` reads a list of records: none at an id that is 0, declared twice or not declared.
  `reads_iff`: the messages `Next` returns until there is none are those of the scan.
-/

import Mathlib.Algebra.Group.Nat.Defs
import PuppetMaster.Lib.Cursor
import PuppetMaster.Recording.Format

namespace PuppetMaster.Recording

open PuppetMaster.Core PuppetMaster.Lib

/-! ## Records -/

def str (s : Bytes) : Bytes := putLe 4 s.length ++ s

def entryBytes (entry : Bytes × Bytes) : Bytes := str entry.1 ++ str entry.2

def topicBody (t : RecordedTopic) : Bytes :=
  putLe 4 t.id.toNat ++ (str t.name ++ (str t.descriptor.typeName ++ (str t.descriptor.encoding ++
    (putLe 4 t.descriptor.version.toNat ++ (putLe 4 t.parameters.entries.length ++
      t.parameters.entries.flatMap entryBytes)))))

def messageBody (m : RecordedMessage) : Bytes :=
  putLe 4 m.topic.toNat ++ (putLe 8 m.time.toUInt64.toNat ++ (putLe 8 m.sequence.toNat ++ m.payload))

/-- A record of any kind. -/
def rawRecord (kind : UInt32) (body : Bytes) : Bytes := putLe 4 kind.toNat ++ (putLe 4 body.length ++ body)

inductive Record where
  | topic (t : RecordedTopic)
  | message (m : RecordedMessage)
  | other (kind : UInt32) (body : Bytes)

namespace Record

def kind : Record → UInt32
  | .topic _ => kTopicRecord
  | .message _ => kMessageRecord
  | .other kind _ => kind

def body : Record → Bytes
  | .topic t => topicBody t
  | .message m => messageBody m
  | .other _ body => body

def bytes (rec : Record) : Bytes := rawRecord rec.kind rec.body

/-- The size fits its field, a time is not negative, and another kind is another. -/
structure Valid (rec : Record) : Prop where
  size : rec.body.length < 2 ^ 32
  time : ∀ m, rec = .message m → 0 ≤ m.time
  kind : ∀ kind body, rec = .other kind body → kind ≠ kTopicRecord ∧ kind ≠ kMessageRecord

end Record

theorem length_rawRecord (kind : UInt32) (body : Bytes) : (rawRecord kind body).length = 8 + body.length := by
  simp only [rawRecord, List.length_append, length_putLe]
  omega

theorem getU32_put (value : UInt32) (rest : Bytes) : getU32 (putLe 4 value.toNat ++ rest) = value := by
  rw [getU32, take_put, getLe_putLe_of_lt value.toNat_lt, UInt32.ofNat_toNat]

theorem getU64_put (value : UInt64) (rest : Bytes) : getU64 (putLe 8 value.toNat ++ rest) = value := by
  rw [getU64, take_put, getLe_putLe_of_lt value.toNat_lt, UInt64.ofNat_toNat]

theorem toNat_getU32_put {n : Nat} (hn : n < 2 ^ 32) (rest : Bytes) : (getU32 (putLe 4 n ++ rest)).toNat = n := by
  rw [getU32, take_put, getLe_putLe_of_lt hn, UInt32.toNat_ofNat_of_lt' hn]

/-! ## A topic body read back -/

namespace BodyReader

variable {r : BodyReader} {rest : Bytes}

def advance (r : BodyReader) (n : Nat) : BodyReader := { r with offset := r.offset + n }

theorem u32_put {n : Nat} {after : Bytes} (h : Ahead r.body r.offset (putLe 4 n ++ after) rest) :
    r.u32 = some (getU32 (putLe 4 n ++ (after ++ rest)), r.advance 4) := by
  have hleft := h.left_eq
  rw [List.length_append, length_putLe] at hleft
  rw [u32, left, if_neg (by omega), h.ahead, List.append_assoc]
  rfl

theorem string_put {s after : Bytes} (h : Ahead r.body r.offset (str s ++ after) rest) (hs : s.length < 2 ^ 32) :
    r.string = some (s, r.advance (str s).length) := by
  have hsize : Ahead r.body r.offset (putLe 4 s.length ++ (s ++ after)) rest := by
    rwa [str, List.append_assoc] at h
  have hbytes := hsize.next
  rw [length_putLe] at hbytes
  have hleft := hbytes.left_eq
  rw [List.length_append] at hleft
  have hle : ¬ (r.advance 4).left < s.length := by
    show ¬ r.body.length - (r.offset + 4) < s.length
    omega
  have htake : (r.body.drop (r.offset + 4)).take s.length = s := hbytes.first.take_front
  rw [string, u32_put hsize]
  simp only [Option.bind_eq_bind, Option.bind_some, toNat_getU32_put hs, if_neg hle, str, List.length_append, length_putLe]
  simp only [advance, htake, Nat.add_assoc]

theorem next_of {front after : Bytes} (h : Ahead r.body r.offset (front ++ after) rest) :
    Ahead (r.advance front.length).body (r.advance front.length).offset after rest := h.next

end BodyReader

theorem length_str (s : Bytes) : (str s).length = 4 + s.length := by
  rw [str, List.length_append, length_putLe]

theorem length_entries (es : List (Bytes × Bytes)) : es.length ≤ (es.flatMap entryBytes).length := by
  induction es with
  | nil => exact Nat.le_refl _
  | cons e es ih =>
    rw [List.flatMap_cons, List.length_append, entryBytes, List.length_append, length_str, List.length_cons]
    omega

/-- The parameters are inserted in the order they stand in. -/
theorem readParameters_put {r : BodyReader} {rest : Bytes} (es : List (Bytes × Bytes)) (parameters : Parameters)
    (h : Ahead r.body r.offset (es.flatMap entryBytes) rest) (hsize : (es.flatMap entryBytes).length < 2 ^ 32) :
    RecordingReader.readParameters es.length r parameters =
      some (es.foldl (fun m e => m.insert e.1 e.2) parameters) := by
  induction es generalizing r parameters with
  | nil => rfl
  | cons e es ih =>
    rw [List.flatMap_cons, List.length_append, entryBytes, List.length_append, length_str, length_str] at hsize
    rw [List.flatMap_cons, entryBytes, List.append_assoc] at h
    have hkey := BodyReader.string_put h (by omega)
    have hnext := BodyReader.next_of h
    have hvalue := BodyReader.string_put hnext (by omega)
    have hrest := BodyReader.next_of hnext
    rw [List.length_cons, RecordingReader.readParameters, hkey]
    simp only [Option.bind_eq_bind, Option.bind_some, hvalue]
    rw [ih _ hrest (by omega), List.foldl_cons]

theorem readTopic_topicBody (t : RecordedTopic) (hsize : (topicBody t).length < 2 ^ 32) :
    RecordingReader.readTopic (topicBody t) = some t := by
  have hlen := hsize
  simp only [topicBody, List.length_append, length_putLe, length_str] at hlen
  have hentries := length_entries t.parameters.entries
  have hid : Ahead (topicBody t) 0 (topicBody t) [] := .start _
  have hname := hid.next
  rw [length_putLe] at hname
  have htype := hname.next
  have hencoding := htype.next
  have hversion := hencoding.next
  have hcount := hversion.next
  rw [length_putLe] at hcount
  have hparameters := hcount.next
  rw [length_putLe] at hparameters
  have rid := BodyReader.u32_put (r := ⟨topicBody t, 0⟩) hid
  have rname := BodyReader.string_put (r := ⟨topicBody t, 0 + 4⟩) hname (by omega)
  have rtype := BodyReader.string_put (r := ⟨topicBody t, _⟩) htype (by omega)
  have rencoding := BodyReader.string_put (r := ⟨topicBody t, _⟩) hencoding (by omega)
  have rversion := BodyReader.u32_put (r := ⟨topicBody t, _⟩) hversion
  have rcount := BodyReader.u32_put (r := ⟨topicBody t, _⟩) hcount
  have rparameters := readParameters_put (r := ⟨topicBody t, _⟩) _ .empty hparameters (by omega)
  simp only [getU32_put, BodyReader.advance] at rid rname rtype rencoding rversion rcount
  simp only [RecordingReader.readTopic, Option.bind_eq_bind, rid, Option.bind_some, rname, rtype, rencoding, rversion,
    rcount, toNat_getU32_put (show t.parameters.entries.length < 2 ^ 32 by omega), rparameters,
    SortedMap.foldl_insert_entries]

/-! ## A turn at a record -/

/-- A time that is not negative fits the check of the reader. -/
theorem toNat_toUInt64_lt {t : Int64} (h : 0 ≤ t) : t.toUInt64.toNat < 2 ^ 63 := by
  have hint : (0 : Int) ≤ t.toBitVec.toInt := by simpa [Int64.le_iff_toInt_le] using h
  have hcond := BitVec.toInt_eq_toNat_cond t.toBitVec
  have hlt := t.toBitVec.isLt
  show t.toBitVec.toNat < 2 ^ 63
  split at hcond <;> omega

namespace RecordingReader

/-- Bytes are left exactly up to the end of the file. -/
structure Positioned (r : RecordingReader) : Prop where
  ended : r.ended = false
  truncated : r.truncated = false
  position : r.position + r.input.length = r.fileSize

def declares (r : RecordingReader) (id : UInt32) : Prop := id ∈ r.topics.map (·.id)

instance (r : RecordingReader) (id : UInt32) : Decidable (r.declares id) := inferInstanceAs (Decidable (_ ∈ _))

theorem findTopic_isSome (r : RecordingReader) (id : UInt32) : (r.findTopic id).isSome = decide (r.declares id) := by
  rw [Bool.eq_iff_iff, findTopic, List.find?_isSome, decide_eq_true_eq, declares, List.mem_map]
  simp only [beq_iff_eq]

/-- The reader past the first `n` bytes. -/
def past (r : RecordingReader) (n : Nat) (rest : Bytes) : RecordingReader :=
  { r with input := rest, position := r.position + n }

theorem readMessage_messageBody {r : RecordingReader} {m : RecordedMessage} (htime : 0 ≤ m.time) :
    (r.declares m.topic → r.readMessage (messageBody m) = .ok m) ∧
      (¬ r.declares m.topic → ∃ s, r.readMessage (messageBody m) = .error s) := by
  have htopic : getU32 (messageBody m) = m.topic := getU32_put _ _
  have hdrop : (messageBody m).drop 4 = putLe 8 m.time.toUInt64.toNat ++ (putLe 8 m.sequence.toNat ++ m.payload) :=
    drop_put _ _ _
  have hsequence : (messageBody m).drop 12 = putLe 8 m.sequence.toNat ++ m.payload := by
    rw [show (12 : Nat) = 4 + 8 from rfl, ← List.drop_drop, hdrop, drop_put]
  have hpayload : (messageBody m).drop kMessageFixedSize = m.payload := by
    rw [show kMessageFixedSize = 12 + 8 from rfl, ← List.drop_drop, hsequence, drop_put]
  have hnotlate : ¬ 2 ^ 63 - 1 < m.time.toUInt64.toNat := by
    have := toNat_toUInt64_lt htime
    omega
  unfold readMessage
  simp only [htopic, hdrop, hsequence, hpayload, getU64_put, if_neg hnotlate]
  constructor
  · intro h
    have hfound : (r.findTopic m.topic).isNone = false := by
      rw [← Option.not_isSome, findTopic_isSome, decide_eq_true h]
      rfl
    rw [hfound, if_neg Bool.false_ne_true]
    simp
  · intro h
    have hmissing : (r.findTopic m.topic).isNone = true := by
      rw [← Option.not_isSome, findTopic_isSome, decide_eq_false h]
      rfl
    rw [hmissing, if_pos rfl]
    exact ⟨_, rfl⟩

/-- What a turn does at a whole record: it returns a message, goes on, or fails. -/
inductive Accepts : RecordingReader → Record → Option (Result RecordedMessage) → RecordingReader → Prop
  | topic {r t} (hzero : t.id ≠ 0) (hnew : ¬ r.declares t.id) :
      Accepts r (.topic t) none { r with topics := r.topics ++ [t] }
  | badTopic {r t s} (hbad : t.id = 0 ∨ r.declares t.id) : Accepts r (.topic t) (some (.error s)) r
  | message {r m} (hdeclared : r.declares m.topic) : Accepts r (.message m) (some (.ok m)) r
  | badMessage {r m s} (hbad : ¬ r.declares m.topic) : Accepts r (.message m) (some (.error s)) r
  | other {r kind body} : Accepts r (.other kind body) none r

/-- The header of a record, at the front of what is left. -/
theorem header_rawRecord (kind : UInt32) {body : Bytes} (hsize : body.length < 2 ^ 32) (rest : Bytes) :
    ((rawRecord kind body ++ rest).take kRecordHeaderSize).length = kRecordHeaderSize ∧
      getU32 ((rawRecord kind body ++ rest).take kRecordHeaderSize) = kind ∧
      (getU32 (((rawRecord kind body ++ rest).take kRecordHeaderSize).drop 4)).toNat = body.length ∧
      (rawRecord kind body ++ rest).drop kRecordHeaderSize = body ++ rest := by
  have hsplit : rawRecord kind body ++ rest = (putLe 4 kind.toNat ++ putLe 4 body.length) ++ (body ++ rest) := by
    simp only [rawRecord, List.append_assoc]
  have hlen : (putLe 4 kind.toNat ++ putLe 4 body.length).length = kRecordHeaderSize := by
    rw [List.length_append, length_putLe, length_putLe]
    rfl
  rw [hsplit, ← hlen, List.take_left, List.drop_left]
  refine ⟨rfl, getU32_put _ _, ?_, rfl⟩
  rw [drop_put, ← List.append_nil (putLe 4 body.length), toNat_getU32_put hsize]

/-- The same for a record of a known kind. -/
theorem header_bytes (rec : Record) (hsize : rec.body.length < 2 ^ 32) (rest : Bytes) :
    ((rec.bytes ++ rest).take kRecordHeaderSize).length = kRecordHeaderSize ∧
      getU32 ((rec.bytes ++ rest).take kRecordHeaderSize) = rec.kind ∧
      (getU32 (((rec.bytes ++ rest).take kRecordHeaderSize).drop 4)).toNat = rec.body.length ∧
      (rec.bytes ++ rest).drop kRecordHeaderSize = rec.body ++ rest :=
  header_rawRecord rec.kind hsize rest

theorem decodeTopic_topicBody {r : RecordingReader} {t : RecordedTopic} (hsize : (topicBody t).length < 2 ^ 32) :
    (¬ (t.id = 0 ∨ r.declares t.id) → r.decodeTopic (topicBody t) = (.ok, { r with topics := r.topics ++ [t] })) ∧
      (t.id = 0 ∨ r.declares t.id →
        ∃ s : Status, s.isOk = false ∧ r.decodeTopic (topicBody t) = (s, r)) := by
  unfold decodeTopic
  simp only [readTopic_topicBody t hsize, findTopic_isSome, decide_eq_true_eq]
  constructor
  · intro h
    rw [if_neg h]
  · intro h
    rw [if_pos h]
    exact ⟨_, rfl, rfl⟩

theorem turn_record {r : RecordingReader} {rec : Record} {rest : Bytes} (hr : r.Positioned) (hvalid : rec.Valid)
    (hinput : r.input = rec.bytes ++ rest) :
    ∃ result r', r.turn = (result, r') ∧ Accepts (r.past rec.bytes.length rest) rec result r' := by
  obtain ⟨hlen, hkind, hbody, hdrop⟩ := header_bytes rec hvalid.size rest
  have hbytes : rec.bytes.length = kRecordHeaderSize + rec.body.length := length_rawRecord _ _
  have hroom : ¬ r.fileSize - min r.fileSize (r.position + kRecordHeaderSize) < rec.body.length := by
    have hposition := hr.position
    rw [hinput, List.length_append, hbytes] at hposition
    omega
  have htake : (rec.body ++ rest).take rec.body.length = rec.body := List.take_left
  have hpast : { r with input := rest, position := r.position + kRecordHeaderSize + rec.body.length } =
      r.past rec.bytes.length rest := by
    rw [past, hbytes, Nat.add_assoc]
  unfold turn
  simp only [hinput, hlen, hkind, hbody, hdrop, ne_eq, not_true, if_false, if_neg hroom, htake, List.drop_left, hpast]
  cases rec with
  | topic t =>
    obtain ⟨hgood, hbad⟩ := decodeTopic_topicBody (r := r.past (Record.topic t).bytes.length rest) hvalid.size
    by_cases h : t.id = 0 ∨ (r.past (Record.topic t).bytes.length rest).declares t.id
    · obtain ⟨s, herr, hdecode⟩ := hbad h
      simp only [Record.kind, Record.body, if_true, hdecode, herr, Bool.not_false]
      exact ⟨_, _, rfl, .badTopic h⟩
    · simp only [Record.kind, Record.body, if_true, hgood h]
      exact ⟨_, _, rfl, .topic (fun hzero => h (.inl hzero)) fun hold => h (.inr hold)⟩
  | message m =>
    have hnotTopic : ¬ (Record.message m).kind = kTopicRecord := show ¬ kMessageRecord = kTopicRecord by decide
    have hmessage : ¬ ¬ (Record.message m).kind = kMessageRecord := not_not_intro rfl
    have hfixed : ¬ (Record.message m).body.length < kMessageFixedSize := by
      simp only [Record.body, messageBody, List.length_append, length_putLe, kMessageFixedSize]
      omega
    obtain ⟨hgood, hbad⟩ := readMessage_messageBody (r := r.past (Record.message m).bytes.length rest)
      (hvalid.time m rfl)
    rw [if_neg hnotTopic, if_neg hmessage, if_neg hfixed, Record.body]
    by_cases h : (r.past (Record.message m).bytes.length rest).declares m.topic
    · rw [hgood h]
      exact ⟨_, _, rfl, .message h⟩
    · obtain ⟨s, herr⟩ := hbad h
      rw [herr]
      exact ⟨_, _, rfl, .badMessage h⟩
  | other kind body =>
    obtain ⟨hone, htwo⟩ := hvalid.kind kind body rfl
    have hnotTopic : ¬ (Record.other kind body).kind = kTopicRecord := hone
    have hnotMessage : ¬ (Record.other kind body).kind = kMessageRecord := htwo
    rw [if_neg hnotTopic, if_pos hnotMessage]
    exact ⟨_, _, rfl, .other⟩

/-! ## A turn at the end -/

/-- Nothing, or a record that lacks its last bytes. -/
def CutOff (tail : Bytes) : Prop :=
  tail = [] ∨ ∃ rec : Record, rec.Valid ∧ ∃ missing, missing ≠ [] ∧ tail ++ missing = rec.bytes

theorem turn_tail {r : RecordingReader} {tail : Bytes} (hr : r.Positioned) (hinput : r.input = tail) (hcut : CutOff tail) :
    ∃ r', r.turn = (none, r') ∧ r'.ended = true ∧ r'.truncated = decide (tail ≠ []) ∧ r'.topics = r.topics := by
  unfold turn
  by_cases hshort : tail.length < kRecordHeaderSize
  · have hheader : tail.take kRecordHeaderSize = tail := List.take_of_length_le (Nat.le_of_lt hshort)
    simp only [hinput, hheader, if_pos (Nat.ne_of_lt hshort)]
    refine ⟨_, rfl, rfl, ?_, rfl⟩
    cases tail <;> rfl
  · -- the header is whole, so it is the body that is cut
    have hpos : 0 < kRecordHeaderSize := by decide
    have hne : tail ≠ [] := by
      rintro rfl
      exact hshort hpos
    obtain ⟨rec, hvalid, missing, hmissing, hbytes⟩ := hcut.resolve_left hne
    have hfront : (rec.bytes ++ []).take kRecordHeaderSize = tail.take kRecordHeaderSize := by
      rw [List.append_nil, ← hbytes, List.take_append_of_le_length (by omega)]
    obtain ⟨hlen, hkind, hbody, -⟩ := header_bytes rec hvalid.size []
    rw [hfront] at hlen hkind hbody
    have hlack : tail.length < kRecordHeaderSize + rec.body.length := by
      have htotal := congrArg List.length hbytes
      have := List.length_pos_iff.mpr hmissing
      rw [List.length_append, Record.bytes, length_rawRecord] at htotal
      simp only [kRecordHeaderSize]
      omega
    have hposition := hr.position
    rw [hinput] at hposition
    have hroom : r.fileSize - min r.fileSize (r.position + kRecordHeaderSize) < rec.body.length := by omega
    simp only [hinput, hlen, hbody, ne_eq, not_true, if_false, if_pos hroom]
    exact ⟨_, rfl, rfl, (decide_eq_true hne).symm, rfl⟩

/-! ## Reading to the end -/

/-- `Next` returns these messages one after the other, and then none. -/
inductive Reads : RecordingReader → List RecordedMessage → RecordingReader → Prop
  | done {r r'} (h : r.next = (.ok none, r')) : Reads r [] r'
  | more {r r' r'' m ms} (h : r.next = (.ok (some m), r')) (hrest : Reads r' ms r'') : Reads r (m :: ms) r''

theorem next_of_go_on {r r' : RecordingReader} (h : r.ended = false) (ht : r.turn = (none, r')) : r.next = r'.next := by
  rw [next, dif_neg (by rw [h]; exact Bool.false_ne_true)]
  split
  · next heq =>
    rw [ht] at heq
    cases heq
  · next heq =>
    rw [ht] at heq
    cases heq
    rfl

theorem next_of_return {r r' : RecordingReader} {result : Result RecordedMessage} (h : r.ended = false)
    (ht : r.turn = (some result, r')) : r.next = (result.map some, r') := by
  rw [next, dif_neg (by rw [h]; exact Bool.false_ne_true)]
  split
  · next heq =>
    rw [ht] at heq
    cases heq
    rfl
  · next heq =>
    rw [ht] at heq
    cases heq

theorem reads_of_next_eq {r r₁ r' : RecordingReader} {ms : List RecordedMessage} (h : r.next = r₁.next) :
    Reads r ms r' ↔ Reads r₁ ms r' := by
  constructor
  · intro hreads
    cases hreads with
    | done hnext => exact .done (h ▸ hnext)
    | more hnext hrest => exact .more (h ▸ hnext) hrest
  · intro hreads
    cases hreads with
    | done hnext => exact .done (h.symm ▸ hnext)
    | more hnext hrest => exact .more (h.symm ▸ hnext) hrest

theorem reads_of_ended {r r' : RecordingReader} {ms : List RecordedMessage} (h : r.ended = true) :
    Reads r ms r' ↔ ms = [] ∧ r' = r := by
  have hnext : r.next = (.ok none, r) := by rw [next, dif_pos h]
  constructor
  · intro hreads
    cases hreads with
    | done heq =>
      rw [hnext] at heq
      cases heq
      exact ⟨rfl, rfl⟩
    | more heq =>
      rw [hnext] at heq
      cases heq
  · intro h
    obtain ⟨rfl, rfl⟩ := h
    exact .done hnext

theorem reads_of_message {r r₁ r' : RecordingReader} {m : RecordedMessage} {ms : List RecordedMessage}
    (hnext : r.next = (.ok (some m), r₁)) : Reads r ms r' ↔ ∃ rest, ms = m :: rest ∧ Reads r₁ rest r' := by
  constructor
  · intro hreads
    cases hreads with
    | done heq =>
      rw [hnext] at heq
      cases heq
    | more heq hrest =>
      rw [hnext] at heq
      cases heq
      exact ⟨_, rfl, hrest⟩
  · intro h
    obtain ⟨rest, rfl, hrest⟩ := h
    exact .more hnext hrest

theorem not_reads_of_error {r r₁ r' : RecordingReader} {s : Status} {ms : List RecordedMessage}
    (hnext : r.next = (.error s, r₁)) : ¬ Reads r ms r' := by
  intro hreads
  cases hreads with
  | done heq =>
    rw [hnext] at heq
    cases heq
  | more heq =>
    rw [hnext] at heq
    cases heq

end RecordingReader

/-- The messages and topics of a list of records, after `topics`. -/
def scan : List RecordedTopic → List Record → Option (List RecordedMessage × List RecordedTopic)
  | topics, [] => some ([], topics)
  | topics, .topic t :: recs =>
    if t.id = 0 ∨ t.id ∈ topics.map (·.id) then none else scan (topics ++ [t]) recs
  | topics, .message m :: recs =>
    if m.topic ∈ topics.map (·.id) then (scan topics recs).map (fun result => (m :: result.1, result.2)) else none
  | topics, .other _ _ :: recs => scan topics recs

namespace RecordingReader

theorem past_positioned {r : RecordingReader} {front rest : Bytes} (hr : r.Positioned) (hinput : r.input = front ++ rest) :
    (r.past front.length rest).Positioned := by
  refine ⟨hr.ended, hr.truncated, ?_⟩
  have hposition := hr.position
  rw [hinput, List.length_append] at hposition
  simp only [past]
  omega

/-- Reading to the end: the messages and topics of the scan, or an error where it has none. -/
theorem reads_iff {recs : List Record} {tail : Bytes} (hvalid : ∀ rec ∈ recs, rec.Valid) (hcut : CutOff tail)
    {r : RecordingReader} (hr : r.Positioned) (hinput : r.input = recs.flatMap Record.bytes ++ tail)
    (ms : List RecordedMessage) :
    (∀ r', Reads r ms r' → scan r.topics recs = some (ms, r'.topics) ∧ r'.truncated = decide (tail ≠ [])) ∧
      (∀ ts, scan r.topics recs = some (ms, ts) → ∃ r', Reads r ms r') := by
  induction recs generalizing r ms with
  | nil =>
    rw [List.flatMap_nil, List.nil_append] at hinput
    obtain ⟨r₁, hturn, hended, htruncated, htopics⟩ := turn_tail hr hinput hcut
    simp only [reads_of_next_eq (next_of_go_on hr.ended hturn), reads_of_ended hended, scan, Option.some.injEq,
      Prod.mk.injEq]
    constructor
    · intro r' h
      obtain ⟨rfl, rfl⟩ := h
      exact ⟨⟨rfl, htopics.symm⟩, htruncated⟩
    · intro ts h
      obtain ⟨rfl, -⟩ := h
      exact ⟨r₁, rfl, rfl⟩
  | cons rec recs ih =>
    rw [List.flatMap_cons, List.append_assoc] at hinput
    have hrec := hvalid rec List.mem_cons_self
    replace ih := @ih fun rec' hrec' => hvalid rec' (List.mem_cons_of_mem _ hrec')
    obtain ⟨result, r₁, hturn, haccepts⟩ := turn_record hr hrec hinput
    have hpast := past_positioned hr hinput
    cases haccepts with
    | @topic t hzero hnew =>
      have hnot : ¬ (t.id = 0 ∨ t.id ∈ r.topics.map (·.id)) := fun h => h.elim hzero hnew
      simp only [reads_of_next_eq (next_of_go_on hr.ended hturn), scan, if_neg hnot]
      have hdeclared : Positioned { r.past (Record.topic t).bytes.length (recs.flatMap Record.bytes ++ tail) with
          topics := r.topics ++ [t] } := ⟨hpast.ended, hpast.truncated, hpast.position⟩
      exact ih hdeclared rfl ms
    | @badTopic t _ hbad =>
      replace hbad : t.id = 0 ∨ t.id ∈ r.topics.map (·.id) := hbad
      simp only [scan, if_pos hbad]
      exact ⟨fun r' hreads => absurd hreads (not_reads_of_error (next_of_return hr.ended hturn)), fun ts h => nomatch h⟩
    | @message m hdeclared =>
      replace hdeclared : m.topic ∈ r.topics.map (·.id) := hdeclared
      simp only [reads_of_message (next_of_return hr.ended hturn), scan, if_pos hdeclared]
      constructor
      · intro r' h
        obtain ⟨rest, rfl, hrest⟩ := h
        obtain ⟨hscan, htruncated⟩ := (ih hpast rfl rest).1 r' hrest
        exact ⟨by rw [show scan r.topics recs = some (rest, r'.topics) from hscan]; rfl, htruncated⟩
      · intro ts hscan
        obtain ⟨⟨rest, ts'⟩, hrest, heq⟩ := Option.map_eq_some_iff.mp hscan
        cases heq
        obtain ⟨r', hreads⟩ := (ih hpast rfl rest).2 _ hrest
        exact ⟨r', rest, rfl, hreads⟩
    | @badMessage m _ hbad =>
      replace hbad : ¬ m.topic ∈ r.topics.map (·.id) := hbad
      simp only [scan, if_neg hbad]
      exact ⟨fun r' hreads => absurd hreads (not_reads_of_error (next_of_return hr.ended hturn)), fun ts h => nomatch h⟩
    | other =>
      simp only [reads_of_next_eq (next_of_go_on hr.ended hturn), scan]
      exact ih hpast rfl ms

end RecordingReader

end PuppetMaster.Recording
