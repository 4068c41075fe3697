/-
  PuppetMaster.Shm.Hostile — reading a segment whose memory somebody else rewrites at will
  (`Segment::Open` and `TryRead`; `Inspect`, `ReadNewest` and `ReadNewestInSegment`).

  Every load has its own answer: nothing is assumed of what is in memory, nor that two loads
  of one word agree. What is computed from the answers is a list of `Access`es, ranges of
  bytes relative to the start of the mapping. A value that the code copies into a local once
  and then both checks and uses is one load here too. Sizes are 64 bits wide.

  `TryRead` takes its geometry from the request that `Open` accepted, never from the header,
  and `ReadNewest` from the copy that `Inspect` made. Either has compared it with the size of
  the mapping (`openSegment_ok`, and the guard of `readNewest`), and `slot_within` is all the
  rest: a slot, its header words and a payload no larger than the slot stay below
  `segmentSize`, whose own arithmetic does not wrap (`segmentSize_eq`).

  `tryRead_quiet`: in memory that stands still the read is that of `Shm.Segment`.
-/

import PuppetMaster.Shm.Open
import PuppetMaster.Shm.Participants

namespace PuppetMaster.Shm.Hostile

open PuppetMaster.Core PuppetMaster.Lib PuppetMaster.Shm.Open
open PuppetMaster.Shm.Participants (kMaxParticipants)

/-! ## Accesses -/

structure Access where
  offset : Nat
  length : Nat
  deriving DecidableEq, Repr

def Access.Within (access : Access) (first last : Nat) : Prop :=
  first ≤ access.offset ∧ access.offset + access.length ≤ last

instance (access : Access) (first last : Nat) : Decidable (access.Within first last) :=
  inferInstanceAs (Decidable (_ ∧ _))

/-- `write_seq` in the header, and the words of a slot. -/
def writeSeqAt : Access := ⟨832, 8⟩

def seqAt (slot : Nat) : Access := ⟨slot, 8⟩

def timestampAt (slot : Nat) : Access := ⟨slot + 8, 8⟩

def payloadSizeAt (slot : Nat) : Access := ⟨slot + 16, 8⟩

def payloadAt (slot size : Nat) : Access := ⟨slot + kSlotPayloadOffset, size⟩

/-- `SlotAt`, from the start of the mapping. -/
def slotAt (geometry : SegmentGeometry) (sequence : Nat) : Nat :=
  u64 (headerSize + u64 (sequence % geometry.slotCount * slotStride geometry.slotPayloadSize))

/-! ## Segment::Open -/

/-- What `CreateOrOpen` returns; an existing region has whatever size its file has. -/
inductive Region where
  | failed (status : Status)
  | created
  | existing (size : Nat)
  deriving DecidableEq

/-- What `Open` meets: each comparison loads its own header. -/
structure Found where
  region : Region
  storage : Status := .ok
  magicShown : Bool := true
  headers : Check → Header
  lock : Status := .ok

/-- An open segment: the accepted geometry, and the size of the mapping. -/
structure Mapped where
  geometry : SegmentGeometry
  size : Nat
  deriving DecidableEq, Repr

def openLock (found : Found) (geometry : SegmentGeometry) (size : Nat) : Result Mapped :=
  if found.lock.isOk then .ok ⟨geometry, size⟩ else .error found.lock

def openSegment (request : Request) (found : Found) : Result Mapped :=
  match accept request with
  | .error status => .error status
  | .ok q =>
    let name := objectName request.domain request.identity.topic
    match found.region with
    | .failed status =>
      .error (if status.code = .notFound then
        .error .notFound (text "shm topic " ++ request.identity.topic ++ text " does not exist") else status)
    | .created =>
      if found.storage.isOk then openLock found q.geometry (segmentSize q.geometry) else .error found.storage
    | .existing size =>
      if size < headerSize then
        .error (.error .failedPrecondition (text "shm segment is smaller than its header" ++ removeHint name))
      else if !found.magicShown then
        .error (.error .failedPrecondition (text "shm segment was never initialized" ++ removeHint name))
      else
        match openerChecks.find? fun check => !passes q size (found.headers check) check with
        | some check => .error (refusal name q (found.headers check) check)
        | none => openLock found q.geometry size

/-! ## Segment::TryRead -/

/-- The loads from a slot, in one pass. -/
structure SlotLoads where
  before : UInt64
  payloadSize : UInt64
  timestamp : Int
  payload : Nat → UInt8
  after : UInt64

/-- The loads of one pass, the slot's by its number. -/
structure PassLoads where
  newest : UInt64
  slot : Nat → SlotLoads

inductive PassEnd where
  | lost
  | read (message : Message)
  deriving DecidableEq

/-- The loads from the slot of sequence `cursor`, and what comes of them. -/
def readSlot (geometry : SegmentGeometry) (cursor : Nat) (loads : SlotLoads) : List Access × PassEnd :=
  let slot := slotAt geometry cursor
  if loads.before.toNat ≠ cursor then ([seqAt slot], .lost)
  else
    let size := loads.payloadSize.toNat
    let words := [seqAt slot, payloadSizeAt slot, timestampAt slot]
    if size ≤ geometry.slotPayloadSize then
      (words ++ [payloadAt slot size, seqAt slot],
        if loads.after ≠ loads.before then .lost
        else .read ⟨bytesAt loads.payload size, { sequence := cursor, sourceTimestamp := loads.timestamp }⟩)
    else (words ++ [seqAt slot], .lost)

structure Read where
  accesses : List Access
  outcome : ReadOutcome
  cursor : Nat
  message : Option Message

def Read.after (accesses : List Access) (read : Read) : Read := { read with accesses := accesses ++ read.accesses }

/-- `passes` are left; each has its own loads. -/
def tryReadLoop (geometry : SegmentGeometry) (depth : Nat) (loads : Nat → PassLoads) :
    (passes cursor dropped : Nat) → Read
  | 0, cursor, dropped => ⟨[], ⟨false, dropped⟩, cursor, none⟩
  | passes + 1, cursor, dropped =>
    let newest := (loads passes).newest.toNat
    if newest < cursor then ⟨[writeSeqAt], ⟨false, dropped⟩, cursor, none⟩
    else
      let clamped := clampCursor cursor newest depth
      let dropped := dropped + (clamped - cursor)
      let (accesses, ending) := readSlot geometry clamped ((loads passes).slot (clamped % geometry.slotCount))
      match ending with
      | .read message => ⟨writeSeqAt :: accesses, ⟨true, dropped⟩, u64 (clamped + 1), some message⟩
      | _ => (tryReadLoop geometry depth loads passes (u64 (clamped + 1)) (dropped + 1)).after (writeSeqAt :: accesses)

def tryRead (segment : Mapped) (cursor depth : Nat) (loads : Nat → PassLoads) : Read :=
  tryReadLoop segment.geometry (max 1 (min depth segment.geometry.slotCount)) loads (segment.geometry.slotCount + 16)
    cursor 0

/-! ## Inspect -/

inductive InspectionState where
  | valid
  | uninitialized
  | incompatible
  deriving DecidableEq, Repr

structure SegmentInspection where
  state : InspectionState := .valid
  problem : Bytes := []
  size : Nat
  topic : Bytes := []
  descriptor : MessageDescriptor := ⟨[], [], 0⟩
  geometry : SegmentGeometry := ⟨0, 0⟩
  writeSequence : Nat := 0
  participants : List (UInt32 × UInt64) := []
  deriving DecidableEq

/-- A name is scanned for its terminator and then copied. -/
structure NameLoads where
  scanned : NameField
  copied : NameField

structure ParticipantLoads where
  state : UInt32
  pid : UInt32
  startTime : UInt64

structure HeaderLoads where
  magic : UInt64
  layoutVersion : UInt32
  headerSize : UInt32
  layoutVersionAgain : UInt32
  topicName : NameLoads
  typeName : NameLoads
  encoding : NameLoads
  messageVersion : UInt32
  slotPayloadSize : UInt64
  slotCount : UInt32
  writeSeq : UInt64
  participants : Nat → ParticipantLoads

def nameLength (name : NameLoads) : Nat := (name.scanned.bytes.findIdx? (· == 0)).getD kNameCapacity

/-- `LoadName` of the field at `offset`. -/
def loadNameAt (offset : Nat) (name : NameLoads) : List Access × Bytes :=
  ([⟨offset, kNameCapacity⟩, ⟨offset, nameLength name⟩], name.copied.bytes.take (nameLength name))

def kParticipantActive : Nat := 2

/-- The participant table from entry `index` on. -/
def loadParticipants (loads : Nat → ParticipantLoads) : (entries index : Nat) → List Access × List (UInt32 × UInt64)
  | 0, _ => ([], [])
  | entries + 1, index =>
    let entry := 912 + 16 * index
    let (accesses, rest) := loadParticipants loads entries (index + 1)
    if (loads index).state.toNat % 4 ≠ kParticipantActive then (⟨entry, 4⟩ :: accesses, rest)
    else
      (⟨entry, 4⟩ :: ⟨entry + 4, 4⟩ :: ⟨entry + 8, 8⟩ :: accesses, ((loads index).pid, (loads index).startTime) :: rest)

def inspect (size : Nat) (loads : HeaderLoads) : List Access × SegmentInspection :=
  if size < headerSize then
    ([], { size, state := if size = 0 then .uninitialized else .incompatible
           problem := text (if size = 0 then "never sized" else "smaller than a segment header") })
  else if loads.magic.toNat ≠ kMagic then
    ([⟨0, 8⟩], { size, state := .uninitialized, problem := text "header never published" })
  else if loads.layoutVersion.toNat ≠ kLayoutVersion ∨ loads.headerSize.toNat ≠ headerSize then
    ([⟨0, 8⟩, ⟨8, 4⟩] ++ (if loads.layoutVersion.toNat ≠ kLayoutVersion then [] else [⟨12, 4⟩]) ++ [⟨8, 4⟩],
      { size, state := .incompatible
        problem := text s!"layout version {loads.layoutVersionAgain.toNat}, expected {kLayoutVersion}" })
  else
    let (topicAccesses, topic) := loadNameAt 40 loads.topicName
    let (typeAccesses, typeName) := loadNameAt 296 loads.typeName
    let (encodingAccesses, encoding) := loadNameAt 552 loads.encoding
    let (tableAccesses, participants) := loadParticipants loads.participants kMaxParticipants 0
    ([⟨0, 8⟩, ⟨8, 4⟩, ⟨12, 4⟩] ++ topicAccesses ++ typeAccesses ++ encodingAccesses
        ++ [⟨36, 4⟩, ⟨16, 8⟩, ⟨32, 4⟩, writeSeqAt] ++ tableAccesses,
      { size, topic, descriptor := ⟨typeName, encoding, loads.messageVersion⟩
        geometry := ⟨loads.slotPayloadSize.toNat, loads.slotCount.toNat⟩
        -- `& ~kWritingBit`
        writeSequence := loads.writeSeq.toNat % kWritingBit
        participants })

/-! ## ReadNewest -/

/-- As `readSlot`, but a payload that is too large ends the attempt at once. -/
def readNewestSlot (geometry : SegmentGeometry) (newest : Nat) (loads : SlotLoads) : List Access × PassEnd :=
  let slot := slotAt geometry newest
  if loads.before.toNat ≠ newest then ([seqAt slot], .lost)
  else
    let size := loads.payloadSize.toNat
    let words := [seqAt slot, payloadSizeAt slot, timestampAt slot]
    if geometry.slotPayloadSize < size then (words, .lost)
    else
      (words ++ [payloadAt slot size, seqAt slot],
        if loads.after ≠ loads.before then .lost
        else .read ⟨bytesAt loads.payload size, { sequence := newest, sourceTimestamp := loads.timestamp }⟩)

def readNewestLoop (geometry : SegmentGeometry) (loads : Nat → PassLoads) : (attempts : Nat) → List Access × Option Message
  | 0 => ([], none)
  | attempts + 1 =>
    let newest := (loads attempts).newest.toNat
    if newest = 0 then ([writeSeqAt], none)
    else
      let (accesses, ending) := readNewestSlot geometry newest ((loads attempts).slot (newest % geometry.slotCount))
      match ending with
      | .read message => (writeSeqAt :: accesses, some message)
      | _ =>
        let (more, message) := readNewestLoop geometry loads attempts
        (writeSeqAt :: accesses ++ more, message)

def readNewest (size : Nat) (geometry : SegmentGeometry) (loads : Nat → PassLoads) : List Access × Option Message :=
  if slotStride geometry.slotPayloadSize = 0 ∨ geometry.slotCount = 0 ∨ segmentSize geometry = 0
      ∨ size < segmentSize geometry then ([], none)
  else readNewestLoop geometry loads 16

structure NewestMessage where
  inspection : SegmentInspection
  message : Option Message

/-- What `OpenReadOnly` gives is a mapping of any size. -/
def readNewestInSegment (region : Result Nat) (header : HeaderLoads) (loads : Nat → PassLoads) :
    List Access × Result NewestMessage :=
  match region with
  | .error status => ([], .error status)
  | .ok size =>
    let (accesses, inspection) := inspect size header
    if inspection.state = .valid then
      let (more, message) := readNewest size inspection.geometry loads
      (accesses ++ more, .ok ⟨inspection, message⟩)
    else (accesses, .ok ⟨inspection, none⟩)

/-! ## Sizes -/

variable {geometry : SegmentGeometry}

theorem le_alignUp {value : Nat} (h : alignUp value ≠ 0) : value ≤ alignUp value := by
  unfold alignUp kSlotAlignment at *
  split at h
  · exact absurd rfl h
  · rename_i hfits
    rw [if_neg hfits]
    omega

/-- A stride holds a slot's header words and its largest payload. -/
theorem slotStride_fits {slotPayloadSize : Nat} (h : slotStride slotPayloadSize ≠ 0) :
    kSlotPayloadOffset + slotPayloadSize ≤ slotStride slotPayloadSize := by
  unfold slotStride at *
  split at h
  · exact absurd rfl h
  · rename_i hfits
    rw [if_neg hfits]
    exact le_alignUp h

/-- Nothing in the size of a segment wraps. -/
theorem segmentSize_eq (h : segmentSize geometry ≠ 0) :
    slotStride geometry.slotPayloadSize ≠ 0 ∧ 0 < geometry.slotCount
      ∧ segmentSize geometry = headerSize + geometry.slotCount * slotStride geometry.slotPayloadSize
      ∧ segmentSize geometry < 2 ^ 64 := by
  unfold segmentSize at *
  dsimp only at h ⊢
  split at h
  · exact absurd rfl h
  · rename_i hzero
    obtain ⟨hstride, hcount⟩ := not_or.mp hzero
    split at h
    · exact absurd rfl h
    · rename_i hfits
      rw [if_neg hzero, if_neg hfits]
      have hmul : geometry.slotCount * slotStride geometry.slotPayloadSize ≤ sizeMax - headerSize :=
        (Nat.le_div_iff_mul_le (Nat.pos_of_ne_zero hstride)).mp (Nat.le_of_not_lt hfits)
      have hheader : headerSize = 1984 := by decide
      refine ⟨hstride, Nat.pos_of_ne_zero hcount, rfl, ?_⟩
      unfold sizeMax at hmul
      omega

/-- A slot lies behind the header, with its largest payload before the end of the segment. -/
theorem slot_within (h : segmentSize geometry ≠ 0) (sequence : Nat) :
    headerSize ≤ slotAt geometry sequence
      ∧ slotAt geometry sequence + kSlotPayloadOffset + geometry.slotPayloadSize ≤ segmentSize geometry := by
  obtain ⟨hstride, hcount, hsize, hlt⟩ := segmentSize_eq h
  have hfits := slotStride_fits hstride
  have hin : sequence % geometry.slotCount < geometry.slotCount := Nat.mod_lt _ hcount
  have hnext : (sequence % geometry.slotCount + 1) * slotStride geometry.slotPayloadSize
      ≤ geometry.slotCount * slotStride geometry.slotPayloadSize := Nat.mul_le_mul_right _ hin
  rw [Nat.add_one_mul] at hnext
  have hslot : slotAt geometry sequence
      = headerSize + sequence % geometry.slotCount * slotStride geometry.slotPayloadSize := by
    rw [slotAt, u64, u64, Nat.mod_eq_of_lt, Nat.mod_eq_of_lt]
    · omega
    · rw [Nat.mod_eq_of_lt]
      · omega
      · omega
  rw [hslot]
  omega

/-! ## One slot -/

/-- In the header, or among the slots, of a segment of this geometry. -/
def InSegment (geometry : SegmentGeometry) (access : Access) : Prop :=
  access.Within 0 headerSize ∨ access.Within headerSize (segmentSize geometry)

theorem writeSeqAt_within : writeSeqAt.Within 0 headerSize := by decide

/-- The header words of a slot, and a payload that was checked against the slot size. -/
theorem slot_accesses_within (h : segmentSize geometry ≠ 0) (sequence : Nat) {size : Nat}
    (hsize : size ≤ geometry.slotPayloadSize) :
    let slot := slotAt geometry sequence
    (seqAt slot).Within headerSize (segmentSize geometry) ∧ (payloadSizeAt slot).Within headerSize (segmentSize geometry)
      ∧ (timestampAt slot).Within headerSize (segmentSize geometry)
      ∧ (payloadAt slot size).Within headerSize (segmentSize geometry) := by
  obtain ⟨hlow, hhigh⟩ := slot_within h sequence
  have hoffset : kSlotPayloadOffset = 64 := rfl
  intro slot
  refine ⟨⟨hlow, ?_⟩, ⟨Nat.le_trans hlow (Nat.le_add_right _ _), ?_⟩, ⟨Nat.le_trans hlow (Nat.le_add_right _ _), ?_⟩,
    ⟨Nat.le_trans hlow (Nat.le_add_right _ _), ?_⟩⟩
  · show slot + 8 ≤ _
    omega
  · show slot + 16 + 8 ≤ _
    omega
  · show slot + 8 + 8 ≤ _
    omega
  · show slot + kSlotPayloadOffset + size ≤ _
    omega

/-- What one pass may do: read inside the slots, a bounded number of times, and return no more than a slot holds. -/
structure Contained (geometry : SegmentGeometry) (read : List Access × PassEnd) : Prop where
  within : ∀ access ∈ read.1, access.Within headerSize (segmentSize geometry)
  few : read.1.length ≤ 5
  bounded : ∀ message, read.2 = .read message → message.payload.length ≤ geometry.slotPayloadSize

/-- The pass with its load of the newest sequence. -/
theorem Contained.pass {accesses : List Access} {ending : PassEnd} (h : Contained geometry (accesses, ending)) :
    (∀ access ∈ writeSeqAt :: accesses, InSegment geometry access) ∧ (writeSeqAt :: accesses).length ≤ 6 :=
  ⟨List.forall_mem_cons.mpr ⟨.inl writeSeqAt_within, fun access hmem => .inr (h.within access hmem)⟩,
    Nat.succ_le_succ h.few⟩

/-- A load of the newest sequence alone. -/
theorem load_alone_within : ∀ access ∈ [writeSeqAt], InSegment geometry access :=
  List.forall_mem_cons.mpr ⟨.inl writeSeqAt_within, List.forall_mem_nil _⟩

/-- A copied payload is returned if the sequence stands still. -/
theorem copied_bounded {size sequence : Nat} (hsize : size ≤ geometry.slotPayloadSize) (loads : SlotLoads)
    (message : Message)
    (h : (if loads.after ≠ loads.before then PassEnd.lost
      else .read ⟨bytesAt loads.payload size, { sequence, sourceTimestamp := loads.timestamp }⟩) = .read message) :
    message.payload.length ≤ geometry.slotPayloadSize := by
  split at h
  · cases h
  · cases h
    rw [bytesAt_length]
    exact hsize

theorem readSlot_contained (h : segmentSize geometry ≠ 0) (cursor : Nat) (loads : SlotLoads) :
    Contained geometry (readSlot geometry cursor loads) := by
  obtain ⟨hseq, hsizeWord, htimestamp, -⟩ := slot_accesses_within h cursor (Nat.zero_le _)
  unfold readSlot
  dsimp only
  split
  · refine ⟨?_, by simp, fun message hread => by cases hread⟩
    simp only [List.forall_mem_cons]
    exact ⟨hseq, List.forall_mem_nil _⟩
  · split
    · rename_i hsize
      obtain ⟨-, -, -, hpayload⟩ := slot_accesses_within h cursor hsize
      refine ⟨?_, by simp, copied_bounded hsize loads⟩
      simp only [List.cons_append, List.nil_append, List.forall_mem_cons]
      exact ⟨hseq, hsizeWord, htimestamp, hpayload, hseq, List.forall_mem_nil _⟩
    · refine ⟨?_, by simp, fun message hread => by cases hread⟩
      simp only [List.cons_append, List.nil_append, List.forall_mem_cons]
      exact ⟨hseq, hsizeWord, htimestamp, hseq, List.forall_mem_nil _⟩

theorem readNewestSlot_contained (h : segmentSize geometry ≠ 0) (newest : Nat) (loads : SlotLoads) :
    Contained geometry (readNewestSlot geometry newest loads) := by
  obtain ⟨hseq, hsizeWord, htimestamp, -⟩ := slot_accesses_within h newest (Nat.zero_le _)
  unfold readNewestSlot
  dsimp only
  split
  · refine ⟨?_, by simp, fun message hread => by cases hread⟩
    simp only [List.forall_mem_cons]
    exact ⟨hseq, List.forall_mem_nil _⟩
  · split
    · refine ⟨?_, by simp, fun message hread => by cases hread⟩
      simp only [List.forall_mem_cons]
      exact ⟨hseq, hsizeWord, htimestamp, List.forall_mem_nil _⟩
    · rename_i hsize
      obtain ⟨-, -, -, hpayload⟩ := slot_accesses_within h newest (Nat.le_of_not_lt hsize)
      refine ⟨?_, by simp, copied_bounded (Nat.le_of_not_lt hsize) loads⟩
      simp only [List.cons_append, List.nil_append, List.forall_mem_cons]
      exact ⟨hseq, hsizeWord, htimestamp, hpayload, hseq, List.forall_mem_nil _⟩

/-! ## TryRead -/

theorem tryReadLoop_contained (h : segmentSize geometry ≠ 0) (depth : Nat) (loads : Nat → PassLoads)
    (passes cursor dropped : Nat) :
    (∀ access ∈ (tryReadLoop geometry depth loads passes cursor dropped).accesses, InSegment geometry access)
      ∧ (tryReadLoop geometry depth loads passes cursor dropped).accesses.length ≤ 6 * passes
      ∧ ∀ message, (tryReadLoop geometry depth loads passes cursor dropped).message = some message →
        message.payload.length ≤ geometry.slotPayloadSize := by
  induction passes generalizing cursor dropped with
  | zero => exact ⟨List.forall_mem_nil _, Nat.le_refl _, fun message hm => by cases hm⟩
  | succ passes ih =>
    rw [tryReadLoop]
    dsimp only
    split
    · refine ⟨load_alone_within, ?_, fun message hm => by cases hm⟩
      show 1 ≤ _
      omega
    · generalize clampCursor cursor (loads passes).newest.toNat depth = clamped
      have hslot := readSlot_contained h clamped ((loads passes).slot (clamped % geometry.slotCount))
      generalize readSlot geometry clamped ((loads passes).slot (clamped % geometry.slotCount)) = read at hslot
      obtain ⟨accesses, ending⟩ := read
      obtain ⟨hfirst, hfew⟩ := hslot.pass
      cases ending with
      | read message =>
        refine ⟨hfirst, Nat.le_trans hfew (by omega), ?_⟩
        intro returned hreturned
        cases hreturned
        exact hslot.bounded message rfl
      | lost =>
        obtain ⟨hrest, hlength, hmessage⟩ := ih (u64 (clamped + 1)) (dropped + (clamped - cursor) + 1)
        refine ⟨?_, ?_, hmessage⟩
        · exact List.forall_mem_append.mpr ⟨hfirst, hrest⟩
        · show (writeSeqAt :: accesses ++ _).length ≤ _
          rw [List.length_append]
          omega

/-- What a successful `Open` establishes. -/
theorem openSegment_ok {request : Request} {found : Found} {segment : Mapped}
    (h : openSegment request found = .ok segment) :
    segmentSize segment.geometry ≠ 0 ∧ segmentSize segment.geometry ≤ segment.size
      ∧ segment.geometry.slotCount < 2 ^ 32 := by
  unfold openSegment at h
  cases hq : accept request with
  | error status =>
    rw [hq] at h
    cases h
  | ok q =>
    rw [hq] at h
    have hlock {size : Nat} (hsize : segmentSize q.geometry ≤ size)
        (hopened : openLock found q.geometry size = .ok segment) :
        segmentSize segment.geometry ≠ 0 ∧ segmentSize segment.geometry ≤ segment.size
          ∧ segment.geometry.slotCount < 2 ^ 32 := by
      unfold openLock at hopened
      split at hopened
      · cases hopened
        exact ⟨q.sized, hsize, q.counted⟩
      · cases hopened
    dsimp only at h
    split at h
    · cases h
    · split at h
      · exact hlock (Nat.le_refl _) h
      · cases h
    · rename_i size hregion
      split at h
      · cases h
      · split at h
        · cases h
        · split at h
          · cases h
          · rename_i hnone
            have hpassed := List.find?_eq_none.mp hnone .regionSize (by decide)
            refine hlock ?_ h
            simpa [passes] using hpassed

/-! ## ReadNewestInSegment -/

theorem loadParticipants_within (loads : Nat → ParticipantLoads) (entries index : Nat)
    (h : index + entries ≤ kMaxParticipants) :
    (∀ access ∈ (loadParticipants loads entries index).1, access.Within 0 headerSize)
      ∧ (loadParticipants loads entries index).1.length ≤ 3 * entries := by
  induction entries generalizing index with
  | zero => exact ⟨List.forall_mem_nil _, Nat.le_refl _⟩
  | succ entries ih =>
    obtain ⟨hrest, hlength⟩ := ih (index + 1) (by omega)
    have hheader : headerSize = 1984 := by decide
    have hmax : kMaxParticipants = 64 := rfl
    have hstate : Access.Within ⟨912 + 16 * index, 4⟩ 0 headerSize := ⟨Nat.zero_le _, by dsimp only; omega⟩
    have hpid : Access.Within ⟨912 + 16 * index + 4, 4⟩ 0 headerSize := ⟨Nat.zero_le _, by dsimp only; omega⟩
    have htime : Access.Within ⟨912 + 16 * index + 8, 8⟩ 0 headerSize := ⟨Nat.zero_le _, by dsimp only; omega⟩
    rw [loadParticipants]
    dsimp only
    split
    · refine ⟨List.forall_mem_cons.mpr ⟨hstate, hrest⟩, ?_⟩
      rw [List.length_cons]
      omega
    · simp only [List.forall_mem_cons, List.length_cons]
      exact ⟨⟨hstate, hpid, htime, hrest⟩, by omega⟩

theorem loadNameAt_within {offset : Nat} (h : offset + kNameCapacity ≤ headerSize) (name : NameLoads) :
    ∀ access ∈ (loadNameAt offset name).1, access.Within 0 headerSize := by
  have hlength : nameLength name ≤ kNameCapacity := by
    unfold nameLength
    cases hfind : name.scanned.bytes.findIdx? (· == 0) with
    | none => exact Nat.le_refl _
    | some length =>
      obtain ⟨hlt, -⟩ := List.findIdx?_eq_some_iff_getElem.mp hfind
      rw [name.scanned.size] at hlt
      exact Nat.le_of_lt hlt
  simp only [loadNameAt, List.forall_mem_cons]
  exact ⟨⟨Nat.zero_le _, h⟩, ⟨Nat.zero_le _, by dsimp only; omega⟩, List.forall_mem_nil _⟩

/-- `Inspect` reads in the header, of a region that holds one. -/
theorem inspect_within (size : Nat) (loads : HeaderLoads) :
    (∀ access ∈ (inspect size loads).1, access.Within 0 size) ∧ (inspect size loads).1.length ≤ 205 := by
  have hheader : headerSize = 1984 := by decide
  unfold inspect
  split
  · exact ⟨List.forall_mem_nil _, Nat.zero_le _⟩
  · rename_i hlarge
    have hword {offset length : Nat} (h : offset + length ≤ 1984) : Access.Within ⟨offset, length⟩ 0 size :=
      ⟨Nat.zero_le _, by dsimp only; omega⟩
    have hin {access : Access} (h : access.Within 0 headerSize) : access.Within 0 size :=
      ⟨h.1, Nat.le_trans h.2 (Nat.le_of_not_lt hlarge)⟩
    split
    · exact ⟨List.forall_mem_cons.mpr ⟨hword (by omega), List.forall_mem_nil _⟩, by simp⟩
    · split
      · split
        · simp only [List.cons_append, List.nil_append, List.forall_mem_cons]
          exact ⟨⟨hword (by omega), hword (by omega), hword (by omega), List.forall_mem_nil _⟩, by simp⟩
        · simp only [List.cons_append, List.nil_append, List.forall_mem_cons]
          exact ⟨⟨hword (by omega), hword (by omega), hword (by omega), hword (by omega), List.forall_mem_nil _⟩, by simp⟩
      · have htopic : ∀ access ∈ (loadNameAt 40 loads.topicName).1, access.Within 0 headerSize :=
          loadNameAt_within (by decide) _
        have htype : ∀ access ∈ (loadNameAt 296 loads.typeName).1, access.Within 0 headerSize :=
          loadNameAt_within (by decide) _
        have hencoding : ∀ access ∈ (loadNameAt 552 loads.encoding).1, access.Within 0 headerSize :=
          loadNameAt_within (by decide) _
        obtain ⟨htable, hfew⟩ := loadParticipants_within loads.participants kMaxParticipants 0 (by decide)
        dsimp only
        refine ⟨?_, ?_⟩
        · simp only [List.forall_mem_append, List.forall_mem_cons]
          refine ⟨⟨⟨⟨⟨⟨hword (by omega), hword (by omega), hword (by omega), List.forall_mem_nil _⟩, ?_⟩, ?_⟩, ?_⟩,
            hword (by omega), hword (by omega), hword (by omega), hin writeSeqAt_within, List.forall_mem_nil _⟩, ?_⟩
          · exact fun access hmem => hin (htopic access hmem)
          · exact fun access hmem => hin (htype access hmem)
          · exact fun access hmem => hin (hencoding access hmem)
          · exact fun access hmem => hin (htable access hmem)
        · have hmax : kMaxParticipants = 64 := rfl
          simp only [List.length_append, List.length_cons, List.length_nil, loadNameAt]
          omega

theorem readNewestLoop_contained (h : segmentSize geometry ≠ 0) (loads : Nat → PassLoads) (attempts : Nat) :
    (∀ access ∈ (readNewestLoop geometry loads attempts).1, InSegment geometry access)
      ∧ (readNewestLoop geometry loads attempts).1.length ≤ 6 * attempts
      ∧ ∀ message, (readNewestLoop geometry loads attempts).2 = some message →
        message.payload.length ≤ geometry.slotPayloadSize := by
  induction attempts with
  | zero => exact ⟨List.forall_mem_nil _, Nat.le_refl _, fun message hm => by cases hm⟩
  | succ attempts ih =>
    rw [readNewestLoop]
    dsimp only
    split
    · refine ⟨load_alone_within, ?_, fun message hm => by cases hm⟩
      show 1 ≤ _
      omega
    · generalize (loads attempts).newest.toNat = newest
      have hslot := readNewestSlot_contained h newest ((loads attempts).slot (newest % geometry.slotCount))
      generalize readNewestSlot geometry newest ((loads attempts).slot (newest % geometry.slotCount)) = read at hslot
      obtain ⟨accesses, ending⟩ := read
      obtain ⟨hfirst, hfew⟩ := hslot.pass
      cases ending with
      | read message =>
        refine ⟨hfirst, Nat.le_trans hfew (by omega), ?_⟩
        intro returned hreturned
        cases hreturned
        exact hslot.bounded message rfl
      | lost =>
        obtain ⟨hrest, hlength, hmessage⟩ := ih
        refine ⟨?_, ?_, hmessage⟩
        · exact List.forall_mem_append.mpr ⟨hfirst, hrest⟩
        · show (writeSeqAt :: accesses ++ _).length ≤ _
          rw [List.length_append]
          omega

theorem InSegment.within {access : Access} {size : Nat} (h : InSegment geometry access) (hzero : segmentSize geometry ≠ 0)
    (hsize : segmentSize geometry ≤ size) : access.Within 0 size := by
  obtain ⟨-, -, heq, -⟩ := segmentSize_eq hzero
  rcases h with ⟨-, hend⟩ | ⟨-, hend⟩
  · exact ⟨Nat.zero_le _, by omega⟩
  · exact ⟨Nat.zero_le _, by omega⟩

/-- The geometry is the header's, checked against the region before anything is read by it. -/
theorem readNewest_within (size : Nat) (geometry : SegmentGeometry) (loads : Nat → PassLoads) :
    (∀ access ∈ (readNewest size geometry loads).1, access.Within 0 size)
      ∧ (readNewest size geometry loads).1.length ≤ 96 := by
  unfold readNewest
  split
  · exact ⟨List.forall_mem_nil _, Nat.zero_le _⟩
  · rename_i hguard
    simp only [not_or] at hguard
    obtain ⟨-, -, hzero, hsize⟩ := hguard
    obtain ⟨hin, hfew, -⟩ := readNewestLoop_contained hzero loads 16
    exact ⟨fun access hmem => (hin access hmem).within hzero (Nat.le_of_not_lt hsize), hfew⟩

theorem readNewestInSegment_within {size : Nat} (header : HeaderLoads) (loads : Nat → PassLoads) :
    (∀ access ∈ (readNewestInSegment (.ok size) header loads).1, access.Within 0 size)
      ∧ (readNewestInSegment (.ok size) header loads).1.length ≤ 301 := by
  obtain ⟨hheader, hcount⟩ := inspect_within size header
  unfold readNewestInSegment
  dsimp only
  split
  · obtain ⟨hslots, hfew⟩ := readNewest_within size (inspect size header).2.geometry loads
    refine ⟨List.forall_mem_append.mpr ⟨hheader, hslots⟩, ?_⟩
    rw [List.length_append]
    omega
  · exact ⟨hheader, by dsimp only; omega⟩

/-! ## Hostile segments -/

/-- Whatever the memory answers: the reads of `TryRead` after `Open` lie in the header or among the slots of the mapping
    and are bounded in number, and so is what it returns; those of `ReadNewestInSegment` lie in the region it mapped. -/
theorem hostile_segments_are_read_within :
    (∀ (request : Request) (found : Found) (segment : Mapped), openSegment request found = .ok segment →
      ∀ (cursor depth : Nat) (loads : Nat → PassLoads),
        (∀ access ∈ (tryRead segment cursor depth loads).accesses,
          InSegment segment.geometry access ∧ access.Within 0 segment.size)
        ∧ (∀ message, (tryRead segment cursor depth loads).message = some message →
          message.payload.length ≤ segment.geometry.slotPayloadSize)
        ∧ (tryRead segment cursor depth loads).accesses.length ≤ 6 * (segment.geometry.slotCount + 16))
    ∧ ∀ (size : Nat) (header : HeaderLoads) (loads : Nat → PassLoads),
      (∀ access ∈ (readNewestInSegment (.ok size) header loads).1, access.Within 0 size)
      ∧ (readNewestInSegment (.ok size) header loads).1.length ≤ 301 := by
  refine ⟨?_, fun size header loads => readNewestInSegment_within header loads⟩
  intro request found segment hopen cursor depth loads
  obtain ⟨hzero, hsize, -⟩ := openSegment_ok hopen
  obtain ⟨hin, hfew, hmessage⟩ := tryReadLoop_contained hzero (max 1 (min depth segment.geometry.slotCount)) loads
    (segment.geometry.slotCount + 16) cursor 0
  exact ⟨fun access hmem => ⟨hin access hmem, (hin access hmem).within hzero hsize⟩, hmessage, hfew⟩

def twoSlots : Request := ⟨0, ⟨[116], ⟨[97], [120], 1⟩⟩, ⟨8, 2⟩, true⟩

def ownRegion : Found := { region := .created, headers := fun _ => .zero }

/-- Every word of the memory reads as the sequence the reader waits for. -/
def allOnes (_ : Nat) : PassLoads := ⟨1, fun _ => ⟨1, 1, 1, fun _ => 1, 1⟩⟩

theorem memory_of_ones_is_read_within :
    (tryRead ⟨⟨8, 2⟩, 2240⟩ 1 2 allOnes).message.isSome = true
      ∧ ∀ access ∈ (tryRead ⟨⟨8, 2⟩, 2240⟩ 1 2 allOnes).accesses, InSegment ⟨8, 2⟩ access ∧ access.Within 0 2240 := by
  have hopen : openSegment twoSlots ownRegion = .ok ⟨⟨8, 2⟩, 2240⟩ := rfl
  exact ⟨by decide +kernel, (hostile_segments_are_read_within.1 _ _ _ hopen 1 2 allOnes).1⟩

/-! ## Memory that stands still -/

def quiet (r : Ring) : PassLoads where
  newest := .ofNat r.writeSeq
  slot i :=
    { before := .ofNat (r.slots i).seq
      payloadSize := .ofNat (r.slots i).payloadSize
      timestamp := (r.slots i).sourceTimestampNs
      payload := (r.slots i).payload
      after := .ofNat (r.slots i).seq }

/-- Words of 64 bits. -/
structure Words (r : Ring) : Prop where
  writeSeq : r.writeSeq < 2 ^ 64
  seq : ∀ i, (r.slots i).seq < 2 ^ 64
  payloadSize : ∀ i, (r.slots i).payloadSize < 2 ^ 64

theorem readSlot_quiet {r : Ring} (h : Words r) (g : Geometry) (cursor : Nat) :
    (readSlot g.toSegmentGeometry cursor ((quiet r).slot (cursor % g.slotCount))).2
      = if (r.slots (Shm.slotAt g cursor)).seq = cursor ∧ (r.slots (Shm.slotAt g cursor)).payloadSize ≤ g.slotPayloadSize then
          .read ((r.slots (Shm.slotAt g cursor)).message cursor)
        else .lost := by
  have hseq : (UInt64.ofNat (r.slots (cursor % g.slotCount)).seq).toNat = (r.slots (cursor % g.slotCount)).seq :=
    UInt64.toNat_ofNat_of_lt (h.seq _)
  have hsize : (UInt64.ofNat (r.slots (cursor % g.slotCount)).payloadSize).toNat
      = (r.slots (cursor % g.slotCount)).payloadSize := UInt64.toNat_ofNat_of_lt (h.payloadSize _)
  unfold readSlot quiet Shm.slotAt Slot.message
  dsimp only
  rw [hseq, hsize]
  by_cases hcursor : (r.slots (cursor % g.slotCount)).seq = cursor
  · rw [if_neg (not_not.mpr hcursor)]
    by_cases hvalid : (r.slots (cursor % g.slotCount)).payloadSize ≤ g.slotPayloadSize
    · have hboth := And.intro hcursor hvalid
      simp only [if_pos hvalid, if_pos hboth, ne_eq, not_true_eq_false, if_false]
    · rw [if_neg hvalid, if_neg fun hboth => hvalid hboth.2]
  · rw [if_pos hcursor, if_neg fun hboth => hcursor hboth.1]

/-- The read of `Shm.Segment`, where nothing else runs. -/
theorem tryReadLoop_quiet {r : Ring} (h : Words r) (g : Geometry) (depth passes cursor dropped : Nat) :
    let read := tryReadLoop g.toSegmentGeometry depth (fun _ => quiet r) passes cursor dropped
    (read.outcome, read.cursor, read.message) = Shm.tryReadLoop g r depth passes cursor dropped := by
  have hnewest : (quiet r).newest.toNat = r.writeSeq := UInt64.toNat_ofNat_of_lt h.writeSeq
  induction passes generalizing cursor dropped with
  | zero => rfl
  | succ passes ih =>
    have hslot := readSlot_quiet h g (clampCursor cursor r.writeSeq depth)
    rw [tryReadLoop, Shm.tryReadLoop]
    dsimp only
    rw [hnewest]
    split
    · rfl
    · generalize readSlot g.toSegmentGeometry (clampCursor cursor r.writeSeq depth) _ = read at hslot
      obtain ⟨accesses, ending⟩ := read
      obtain rfl : ending = _ := hslot
      by_cases hread : (r.slots (Shm.slotAt g (clampCursor cursor r.writeSeq depth))).seq = clampCursor cursor r.writeSeq depth
          ∧ (r.slots (Shm.slotAt g (clampCursor cursor r.writeSeq depth))).payloadSize ≤ g.slotPayloadSize
      · simp only [if_pos hread]
      · simp only [if_neg hread]
        exact ih _ _

theorem tryRead_quiet {r : Ring} (h : Words r) (g : Geometry) (size cursor depth : Nat) :
    let read := tryRead ⟨g.toSegmentGeometry, size⟩ cursor depth fun _ => quiet r
    (read.outcome, read.cursor, read.message) = Shm.tryRead g r cursor depth :=
  tryReadLoop_quiet h g _ _ cursor 0

end PuppetMaster.Shm.Hostile
