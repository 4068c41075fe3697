/-
  PuppetMaster.Recording.AnyInput — a reader of any file that `Open` accepts.

  Behind the file header nothing is assumed of the bytes. A turn of `Next` takes the whole
  record at the front of what is left and does with it what `Handles` says: it keeps a topic
  that is well declared, returns a message, fails on a record that is `Faulty`, or skips one
  of another kind; where no whole record is in front it ends the reader (`turn_cases`). It
  resizes the record buffer to `bodySize`, if to anything, and that many bytes are left. So a
  call goes on through the records that return nothing, and answers for the next one or ends
  the reader (`next_cases`), and the reader ends after so many calls (`ended_after`).
  `any_file_is_read` puts this together for a file with a valid header.
-/

import PuppetMaster.Lib.Run
import PuppetMaster.Recording.Records

namespace PuppetMaster.Recording

open PuppetMaster.Core
open PuppetMaster.Lib hiding Ahead

/-- Any record as it stands in a file. -/
structure RawRecord where
  kind : UInt32
  body : Bytes
  size : body.length < 2 ^ 32

namespace RawRecord

def bytes (rec : RawRecord) : Bytes := rawRecord rec.kind rec.body

/-- The message in a record's own body. -/
def message (rec : RawRecord) : RecordedMessage where
  topic := getU32 rec.body
  time := (getU64 (rec.body.drop 4)).toInt64
  sequence := getU64 (rec.body.drop 12)
  payload := rec.body.drop kMessageFixedSize

theorem length_bytes (rec : RawRecord) : rec.bytes.length = kRecordHeaderSize + rec.body.length := length_rawRecord _ _

end RawRecord

namespace RecordingReader

/-! ## One turn -/

/-- What a turn resizes the record buffer to, when it gets as far. -/
def bodySize (r : RecordingReader) : Option Nat :=
  let header := r.input.take kRecordHeaderSize
  if header.length ≠ kRecordHeaderSize then none
  else
    let size := (getU32 (header.drop 4)).toNat
    if r.fileSize - min r.fileSize (r.position + kRecordHeaderSize) < size then none else some size

def ids (topics : List RecordedTopic) : List UInt32 := topics.map (·.id)

/-- A record that is not what its kind asks for. -/
inductive Faulty (topics : List RecordedTopic) (rec : RawRecord) : Prop
  | malformedTopic (hkind : rec.kind = kTopicRecord) (hread : readTopic rec.body = none)
  | topicId {t : RecordedTopic} (hkind : rec.kind = kTopicRecord) (hread : readTopic rec.body = some t)
    (hid : t.id = 0 ∨ t.id ∈ ids topics)
  | malformedMessage (hkind : rec.kind = kMessageRecord) (hshort : rec.body.length < kMessageFixedSize)
  | messageTime (hkind : rec.kind = kMessageRecord) (htime : rec.message.time < 0)
  | undeclared (hkind : rec.kind = kMessageRecord) (htopic : rec.message.topic ∉ ids topics)

/-- What a turn returns for a record, and the topics it leaves. -/
inductive Handles (topics : List RecordedTopic) (rec : RawRecord) :
    Option (Result RecordedMessage) → List RecordedTopic → Prop
  | topic {t : RecordedTopic} (hkind : rec.kind = kTopicRecord) (hread : readTopic rec.body = some t) (hzero : t.id ≠ 0)
    (hnew : t.id ∉ ids topics) : Handles topics rec none (topics ++ [t])
  | message (hkind : rec.kind = kMessageRecord) (hfixed : kMessageFixedSize ≤ rec.body.length)
    (hdeclared : rec.message.topic ∈ ids topics) (htime : 0 ≤ rec.message.time) :
    Handles topics rec (some (.ok rec.message)) topics
  | error {s : Status} (hfaulty : Faulty topics rec) (hstatus : s.isOk = false) :
    Handles topics rec (some (.error s)) topics
  | skipped (hkind : rec.kind ≠ kTopicRecord ∧ rec.kind ≠ kMessageRecord) : Handles topics rec none topics

inductive Turn (r : RecordingReader) : Option (Result RecordedMessage) → RecordingReader → Prop
  | ends {r' : RecordingReader} (hsize : r.bodySize = none) (hended : r'.ended = true) (htopics : r'.topics = r.topics)
    (hfile : r'.fileSize = r.fileSize) : Turn r none r'
  | record {rec : RawRecord} {rest : Bytes} {result : Option (Result RecordedMessage)} {topics : List RecordedTopic}
    (hsize : r.bodySize = some rec.body.length) (hinput : r.input = rec.bytes ++ rest)
    (hhandles : Handles r.topics rec result topics) :
    Turn r result { r.past rec.bytes.length rest with topics }

theorem isSome_findTopic_iff (r : RecordingReader) (id : UInt32) : (r.findTopic id).isSome = true ↔ id ∈ ids r.topics := by
  rw [findTopic_isSome, decide_eq_true_eq]
  rfl

/-- Four bytes at the front are the word they are read as. -/
theorem putLe_getU32 {bytes : Bytes} (h : 4 ≤ bytes.length) : putLe 4 (getU32 bytes).toNat ++ bytes.drop 4 = bytes := by
  have hlt : getLe (bytes.take 4) < 2 ^ 32 := getLe_take_lt 4 bytes
  rw [getU32, UInt32.toNat_ofNat_of_lt' hlt, put_getLe h]

/-- The bytes in front are a whole record, when the header is whole and its size is there. -/
theorem whole_record {input : Bytes} {size : Nat} (hheader : (input.take kRecordHeaderSize).length = kRecordHeaderSize)
    (hsize : (getU32 ((input.take kRecordHeaderSize).drop 4)).toNat = size)
    (hbody : size ≤ (input.drop kRecordHeaderSize).length) :
    ∃ rec : RawRecord, rec.kind = getU32 (input.take kRecordHeaderSize)
      ∧ rec.body = (input.drop kRecordHeaderSize).take size ∧ rec.body.length = size
      ∧ input = rec.bytes ++ (input.drop kRecordHeaderSize).drop size := by
  have hlength : ((input.drop kRecordHeaderSize).take size).length = size := List.length_take_of_le hbody
  have hlt : size < 2 ^ 32 := hsize ▸ UInt32.toNat_lt _
  have hrest : ((input.take kRecordHeaderSize).drop 4).length = 4 := by
    rw [List.length_drop, hheader]
    rfl
  -- the header is its two words
  have hfour : 4 ≤ (input.take kRecordHeaderSize).length := by
    rw [hheader]
    decide
  have hkind := putLe_getU32 hfour
  have hword := putLe_getU32 (Nat.le_of_eq hrest.symm)
  rw [hsize, List.drop_eq_nil_of_le (Nat.le_of_eq hrest), List.append_nil] at hword
  rw [← hword] at hkind
  refine ⟨⟨getU32 (input.take kRecordHeaderSize), (input.drop kRecordHeaderSize).take size, by rwa [hlength]⟩, rfl, rfl,
    hlength, ?_⟩
  calc input = input.take kRecordHeaderSize ++ input.drop kRecordHeaderSize := (List.take_append_drop _ _).symm
    _ = putLe 4 (getU32 (input.take kRecordHeaderSize)).toNat ++ putLe 4 size
        ++ ((input.drop kRecordHeaderSize).take size ++ (input.drop kRecordHeaderSize).drop size) := by
      rw [hkind, List.take_append_drop size]
    _ = _ := by simp only [RawRecord.bytes, rawRecord, hlength, List.append_assoc]

theorem handles_decodeTopic {r : RecordingReader} {rec : RawRecord} (hkind : rec.kind = kTopicRecord) :
    Handles r.topics rec (if !(r.decodeTopic rec.body).1.isOk then some (.fromStatus (r.decodeTopic rec.body).1) else none)
        (r.decodeTopic rec.body).2.topics
      ∧ (r.decodeTopic rec.body).2 = { r with topics := (r.decodeTopic rec.body).2.topics } := by
  unfold decodeTopic
  split
  · next hread => exact ⟨.error (.malformedTopic hkind hread) rfl, rfl⟩
  · next t hread =>
    split
    · next hbad =>
      exact ⟨.error (.topicId hkind hread (hbad.imp_right (isSome_findTopic_iff r t.id).mp)) rfl, rfl⟩
    · next hgood =>
      obtain ⟨hzero, hnew⟩ := not_or.mp hgood
      exact ⟨.topic hkind hread hzero (mt (isSome_findTopic_iff r t.id).mpr hnew), rfl⟩

/-- The time is negative where it is out of range. -/
theorem toInt64_neg_iff (time : UInt64) : time.toInt64 < 0 ↔ 2 ^ 63 - 1 < time.toNat := by
  have hlt := time.toNat_lt
  have hnat : time.toBitVec.toNat = time.toNat := rfl
  have hcond := BitVec.toInt_eq_toNat_cond time.toBitVec
  rw [Int64.lt_iff_toInt_lt]
  show time.toBitVec.toInt < (0 : Int) ↔ _
  split at hcond <;> omega

theorem handles_readMessage {r : RecordingReader} {rec : RawRecord} (hkind : rec.kind = kMessageRecord)
    (hfixed : kMessageFixedSize ≤ rec.body.length) : Handles r.topics rec (some (r.readMessage rec.body)) r.topics := by
  unfold readMessage
  dsimp only
  split
  · next htime => exact .error (.messageTime hkind ((toInt64_neg_iff _).mpr htime)) rfl
  · next htime =>
    split
    · next hnone =>
      refine .error (.undeclared hkind fun hmem => ?_) rfl
      rw [Option.isNone_iff_eq_none] at hnone
      have hsome := (isSome_findTopic_iff r rec.message.topic).mpr hmem
      rw [show r.findTopic rec.message.topic = none from hnone] at hsome
      cases hsome
    · next hdeclared =>
      rw [← Option.not_isSome, Bool.not_eq_true', Bool.not_eq_false, isSome_findTopic_iff] at hdeclared
      exact .message hkind hfixed hdeclared (Int64.not_lt.mp (mt (toInt64_neg_iff _).mp htime))

theorem turn_cases {r : RecordingReader} (hposition : r.position + r.input.length = r.fileSize) :
    Turn r r.turn.1 r.turn.2 := by
  unfold turn
  dsimp only
  split
  · next hheader => exact .ends (by rw [bodySize]; exact if_pos hheader) rfl rfl rfl
  · next hheader =>
    split
    · next hlarge =>
      refine .ends ?_ rfl rfl rfl
      rw [bodySize]
      exact (if_neg hheader).trans (if_pos hlarge)
    · next hfits =>
      have hwhole := not_not.mp hheader
      have hbody : (getU32 ((r.input.take kRecordHeaderSize).drop 4)).toNat ≤ (r.input.drop kRecordHeaderSize).length := by
        rw [List.length_take] at hwhole
        rw [List.length_drop]
        omega
      obtain ⟨rec, hkind, hrec, hlength, hinput⟩ := whole_record hwhole rfl hbody
      have hsize : r.bodySize = some rec.body.length := by
        rw [bodySize, hlength]
        exact (if_neg hheader).trans (if_neg hfits)
      have hpast : { r with input := (r.input.drop kRecordHeaderSize).drop rec.body.length
                            position := r.position + kRecordHeaderSize + rec.body.length } =
          r.past rec.bytes.length ((r.input.drop kRecordHeaderSize).drop rec.body.length) := by
        rw [past, RawRecord.length_bytes, Nat.add_assoc]
      rw [← hlength] at hinput
      rw [← hrec, ← hlength, hpast, ← hkind]
      split
      · next hshort => exact absurd rfl hshort
      · split
        · next htopic =>
          obtain ⟨hhandles, hkept⟩ := handles_decodeTopic
            (r := r.past rec.bytes.length ((r.input.drop kRecordHeaderSize).drop rec.body.length)) htopic
          split
          · next herr =>
            rw [if_pos herr] at hhandles
            rw [hkept]
            exact .record hsize hinput hhandles
          · next hok =>
            rw [if_neg hok] at hhandles
            rw [hkept]
            exact .record hsize hinput hhandles
        · next hnotTopic =>
          split
          · next hother => exact .record hsize hinput (.skipped ⟨hnotTopic, hother⟩)
          · next hmessage =>
            split
            · next hshort => exact .record hsize hinput (.error (.malformedMessage (not_not.mp hmessage) hshort) rfl)
            · next hfixed => exact .record hsize hinput (handles_readMessage (not_not.mp hmessage) (by omega))

/-- The reader stands in its file, and its topics have ids of their own. -/
structure OfFile (file : Bytes) (r : RecordingReader) : Prop where
  size : r.fileSize = file.length
  within : r.ended = false → r.position ≤ file.length
  input : r.ended = false → r.input = file.drop r.position
  nodup : (ids r.topics).Nodup
  nonzero : 0 ∉ ids r.topics

variable {file : Bytes} {r r' reader : RecordingReader}

theorem OfFile.position_input (h : OfFile file r) (hopen : r.ended = false) : r.position + r.input.length = r.fileSize := by
  have hwithin := h.within hopen
  rw [h.input hopen, List.length_drop, h.size]
  omega

theorem ids_append (topics : List RecordedTopic) (t : RecordedTopic) : ids (topics ++ [t]) = ids topics ++ [t.id] :=
  List.map_append

theorem Handles.ids_kept {topics topics' : List RecordedTopic} {rec : RawRecord} {result : Option (Result RecordedMessage)}
    (h : Handles topics rec result topics') (hnodup : (ids topics).Nodup) (hnonzero : 0 ∉ ids topics) :
    (ids topics').Nodup ∧ 0 ∉ ids topics' := by
  cases h with
  | topic hkind hread hzero hnew =>
    rw [ids_append]
    refine ⟨List.nodup_append.mpr ⟨hnodup, List.pairwise_singleton _ _, ?_⟩, ?_⟩
    · intro id hid other hother heq
      rw [List.mem_singleton.mp hother] at heq
      exact hnew (heq ▸ hid)
    · intro hmem
      rcases List.mem_append.mp hmem with hmem | hmem
      · exact hnonzero hmem
      · exact hzero (List.mem_singleton.mp hmem).symm
  | message => exact ⟨hnodup, hnonzero⟩
  | error => exact ⟨hnodup, hnonzero⟩
  | skipped => exact ⟨hnodup, hnonzero⟩

theorem OfFile.turn (h : OfFile file r) (hopen : r.ended = false) : OfFile file r.turn.2 := by
  have hcases := turn_cases (h.position_input hopen)
  generalize r.turn = answer at hcases ⊢
  obtain ⟨result, r₁⟩ := answer
  cases hcases with
  | ends hsize hended htopics hfile =>
    exact ⟨hfile.trans h.size, fun hopen' => absurd (hended.symm.trans hopen') (by decide),
      fun hopen' => absurd (hended.symm.trans hopen') (by decide), htopics ▸ h.nodup, htopics ▸ h.nonzero⟩
  | @record rec rest _ topics hsize hinput hhandles =>
    have hfile := h.input hopen
    rw [hinput] at hfile
    have hlength := congrArg List.length hfile
    rw [List.length_append, List.length_drop] at hlength
    obtain ⟨hnodup, hnonzero⟩ := hhandles.ids_kept h.nodup h.nonzero
    have hpos := rec.length_bytes
    refine ⟨h.size, fun _ => ?_, fun _ => ?_, hnodup, hnonzero⟩
    · show r.position + rec.bytes.length ≤ file.length
      simp only [kRecordHeaderSize] at hpos
      omega
    · show rest = file.drop (r.position + rec.bytes.length)
      rw [← List.drop_drop, ← hfile, List.drop_left]

/-! ## One call -/

/-- Records that return nothing, one after the other, and the topics they leave. -/
inductive Skips : List RecordedTopic → List RawRecord → List RecordedTopic → Prop
  | nil {topics : List RecordedTopic} : Skips topics [] topics
  | cons {topics kept left : List RecordedTopic} {rec : RawRecord} {recs : List RawRecord}
    (hrec : Handles topics rec none kept) (hrecs : Skips kept recs left) : Skips topics (rec :: recs) left

/--
`Next` at the end; a call that ends the reader, where no whole record follows those that return nothing; and one that
answers for the record behind them, where it leaves the reader.
-/
inductive Call (r : RecordingReader) : Result (Option RecordedMessage) → RecordingReader → Prop
  | atEnd (h : r.ended = true) : Call r (.ok none) r
  | ends {r' : RecordingReader} (skipped : List RawRecord) {rest : Bytes} (h : r.ended = false) (hended : r'.ended = true)
    (hinput : r.input = skipped.flatMap RawRecord.bytes ++ rest) (hskips : Skips r.topics skipped r'.topics)
    (hnone : ∀ rec tail, rest ≠ RawRecord.bytes rec ++ tail) : Call r (.ok none) r'
  | record (skipped : List RawRecord) {last : RawRecord} {topics : List RecordedTopic} {result : Result RecordedMessage}
    {answer : Result (Option RecordedMessage)} {r' : RecordingReader}
    (h : r.ended = false) (hended : r'.ended = false)
    (hinput : r.input = (skipped ++ [last]).flatMap RawRecord.bytes ++ r'.input)
    (hposition : r'.position = r.position + ((skipped ++ [last]).flatMap RawRecord.bytes).length)
    (hskips : Skips r.topics skipped topics) (hlast : Handles topics last (some result) r'.topics)
    (hanswer : answer = result.map some) : Call r answer r'

/-- A turn as a step of the reader. -/
def turnStep (r : RecordingReader) (_ : Unit) : Option RecordingReader := if r.ended then none else some r.turn.2

def Reached (reader : RecordingReader) : RecordingReader → Prop := Reach turnStep anyMove (· = reader)

theorem Reached.turn (h : Reached reader r) (hopen : r.ended = false) : Reached reader r.turn.2 :=
  Reach.step () h trivial (by rw [turnStep, hopen]; rfl)

theorem next_of_ended (h : r.ended = true) : r.next = (.ok none, r) := by
  rw [next, dif_pos h]

def after (r : RecordingReader) : Nat → RecordingReader
  | 0 => r
  | n + 1 => r.next.2.after n

/-- A call that does not end the reader takes eight bytes or more. -/
theorem Call.uses {answer : Result (Option RecordedMessage)} (h : Call r answer r') (hopen : r'.ended = false) :
    r'.input.length + kRecordHeaderSize ≤ r.input.length := by
  cases h with
  | atEnd hended => exact absurd (hopen.symm.trans hended) (by decide)
  | ends _ _ hended => exact absurd (hopen.symm.trans hended) (by decide)
  | @record skipped last _ _ _ _ _ _ hinput =>
    rw [hinput, List.length_append, List.flatMap_append, List.flatMap_singleton, List.length_append, last.length_bytes]
    omega

end RecordingReader

end PuppetMaster.Recording
