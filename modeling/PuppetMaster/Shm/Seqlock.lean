/-
  PuppetMaster.Shm.Seqlock — publishers and readers of one segment, one shared load or
  store at a time (`Segment::PublishWith`, `Segment::TryRead`).

  Writers. `call` is the capacity check; `lock` takes the robust writer lock, from
  nobody or from an owner that died; then one move for each shared access: load
  `write_seq`, `mark` the slot, any number of byte `store`s by the fill function,
  `fillReturn` (a failed fill goes straight to the unlock), `size`, `stamp`, `storeSeq`
  (`slot.seq = s`), `commit` (`write_seq = s`), `unlock`. A writer may `die` anywhere.
  `buffer` is the fill function's own view of the bytes it was handed.

  Readers. `attach` is CreateReader, which sets the cursor past the newest sequence, so
  to at least 1; `tryRead` starts a TryRead; then `newest`, `seq`, `loadSize`, `loadStamp`,
  a `copy` for each payload byte, and `recheck`, which returns the message or counts a
  drop and starts the next pass.

  `commits` is history: what each publish that stored its sequence into `write_seq`
  had in its buffer. The invariant (`Inv`) says, for each slot, which sequence it can
  show: none yet, a committed one with exactly that publish's contents, or the next one
  (marked, or sealed by a writer that may have died before its commit). A reader only
  accepts sequences up to the `write_seq` it loaded, and a slot that has left such a
  sequence never shows it again, so what it read before a successful recheck is one
  publish's contents. `seqBelow` is the assumption that sequences stay below 2^63.
-/

import PuppetMaster.Lib.Run
import PuppetMaster.Shm.Segment

namespace PuppetMaster.Shm.Seqlock

open PuppetMaster.Core PuppetMaster.Lib PuppetMaster.Shm

/-! ## The machine -/

/-- A publish that holds the writer lock. -/
structure Publication where
  capacity : Nat
  sourceTimestamp : Int
  sequence : Nat
  buffer : Nat → UInt8
  used : Nat

/-- The bytes the fill function left in the buffer and reported as used. -/
def Publication.payload (p : Publication) : Bytes := bytesAt p.buffer p.used

/-- Where a writer is; each case names the access it makes next. -/
inductive WriterPc where
  | idle
  | locking (capacity : Nat) (sourceTimestamp : Int)
  | loading (capacity : Nat) (sourceTimestamp : Int)
  | marking (p : Publication)
  | filling (p : Publication)
  | sizing (p : Publication)
  | stamping (p : Publication)
  | sealing (p : Publication)
  | committing (p : Publication)
  | unlocking
  | dead

/-- Where a reader is inside one pass of TryRead; each case names what it loads next. -/
inductive Stage where
  | newest
  | seq
  | size (before : Nat)
  | stamp (before size : Nat)
  | copy (before size : Nat) (timestamp : Int) (copied : Bytes)

inductive ReaderPc where
  | idle
  | reading (stage : Stage) (passes dropped : Nat)
  | returned (outcome : ReadOutcome) (message : Option Message)

structure Reader where
  cursor : Nat
  depth : Nat
  pc : ReaderPc

/-- A publish that stored its sequence into `write_seq`. -/
structure Commit where
  sequence : Nat
  writer : Nat
  payload : Bytes
  sourceTimestamp : Int
  deriving DecidableEq, Repr

structure St where
  ring : Ring
  lock : Option Nat
  writers : Nat → WriterPc
  readers : Nat → Option Reader
  commits : List Commit

inductive Act where
  | call (w capacity : Nat) (sourceTimestamp : Int)
  | lock (w : Nat)
  | lockFails (w : Nat)
  | load (w : Nat)
  | mark (w : Nat)
  | store (w i : Nat) (v : UInt8)
  | fillReturn (w : Nat) (r : FillReturn)
  | size (w : Nat)
  | stamp (w : Nat)
  | storeSeq (w : Nat)
  | commit (w : Nat)
  | unlock (w : Nat)
  | die (w : Nat)
  | attach (r cursor depth : Nat)
  | tryRead (r : Nat)
  | newest (r : Nat)
  | seq (r : Nat)
  | loadSize (r : Nat)
  | loadStamp (r : Nat)
  | copy (r : Nat)
  | recheck (r : Nat)

variable (g : Geometry)

def setWriter (s : St) (w : Nat) (pc : WriterPc) : St := { s with writers := Function.update s.writers w pc }

def setReader (s : St) (r : Nat) (rd : Reader) : St := { s with readers := Function.update s.readers r (some rd) }

def setSlot (s : St) (sequence : Nat) (f : Slot → Slot) : St :=
  { s with ring := s.ring.setSlot (slotAt g sequence) (f (s.ring.slots (slotAt g sequence))) }

/-- `++outcome.dropped; ++cursor; continue;`, leaving the loop when no pass is left. -/
def nextPass (rd : Reader) (passes dropped : Nat) : Reader :=
  { rd with
    cursor := rd.cursor + 1
    pc := if passes = 0 then .returned ⟨false, dropped + 1⟩ none else .reading .newest (passes - 1) (dropped + 1) }

def canLock (s : St) : Bool :=
  match s.lock with
  | none => true
  | some owner => match s.writers owner with
    | .dead => true
    | _ => false

def writerStep (s : St) : Act → Option St
  | .call w capacity sourceTimestamp =>
    match s.writers w with
    | .idle =>
      if g.slotPayloadSize < capacity then some s else some (setWriter s w (.locking capacity sourceTimestamp))
    | _ => none
  | .lock w =>
    match s.writers w with
    | .locking capacity sourceTimestamp =>
      if canLock s then some { setWriter s w (.loading capacity sourceTimestamp) with lock := some w } else none
    | _ => none
  | .lockFails w =>
    match s.writers w with
    | .locking _ _ => some (setWriter s w .idle)
    | _ => none
  | .load w =>
    match s.writers w with
    | .loading capacity sourceTimestamp =>
      let sequence := u64 (s.ring.writeSeq + 1)
      some (setWriter s w (.marking
        ⟨capacity, sourceTimestamp, sequence, (s.ring.slots (slotAt g sequence)).payload, 0⟩))
    | _ => none
  | .mark w =>
    match s.writers w with
    | .marking p =>
      some (setWriter (setSlot g s p.sequence fun slot => { slot with seq := p.sequence ||| kWritingBit }) w (.filling p))
    | _ => none
  | .store w i v =>
    match s.writers w with
    | .filling p =>
      if i < p.capacity then
        some (setWriter
          (setSlot g s p.sequence fun slot => { slot with payload := Function.update slot.payload i v }) w
          (.filling { p with buffer := Function.update p.buffer i v }))
      else none
    | _ => none
  | .fillReturn w r =>
    match s.writers w with
    | .filling p =>
      match invokeFill p.capacity r with
      | .ok used => some (setWriter s w (.sizing { p with used := used }))
      | .error _ => some (setWriter s w .unlocking)
    | _ => none
  | .size w =>
    match s.writers w with
    | .sizing p =>
      some (setWriter (setSlot g s p.sequence fun slot => { slot with payloadSize := p.used }) w (.stamping p))
    | _ => none
  | .stamp w =>
    match s.writers w with
    | .stamping p =>
      some (setWriter (setSlot g s p.sequence fun slot => { slot with sourceTimestampNs := p.sourceTimestamp }) w
        (.sealing p))
    | _ => none
  | .storeSeq w =>
    match s.writers w with
    | .sealing p =>
      some (setWriter (setSlot g s p.sequence fun slot => { slot with seq := p.sequence }) w (.committing p))
    | _ => none
  | .commit w =>
    match s.writers w with
    | .committing p =>
      some { setWriter s w .unlocking with
        ring := { s.ring with writeSeq := p.sequence }
        commits := s.commits ++ [⟨p.sequence, w, p.payload, p.sourceTimestamp⟩] }
    | _ => none
  | .unlock w =>
    match s.writers w with
    | .unlocking => some { setWriter s w .idle with lock := none }
    | _ => none
  | .die w => some (setWriter s w .dead)
  | _ => none

/-- One pass's moves, for a reader at `stage` with `passes` passes left after this one. -/
def readerStep (ring : Ring) (rd : Reader) : Act → Option Reader
  | .tryRead _ =>
    match rd.pc with
    | .reading _ _ _ => none
    | _ => some { rd with pc := .reading .newest (maxPasses g - 1) 0 }
  | .newest _ =>
    match rd.pc with
    | .reading .newest passes dropped =>
      if ring.writeSeq < rd.cursor then some { rd with pc := .returned ⟨false, dropped⟩ none }
      else
        let clamped := clampCursor rd.cursor ring.writeSeq (effectiveDepth g rd.depth)
        some { rd with cursor := clamped, pc := .reading .seq passes (dropped + (clamped - rd.cursor)) }
    | _ => none
  | .seq _ =>
    match rd.pc with
    | .reading .seq passes dropped =>
      let before := (ring.slots (slotAt g rd.cursor)).seq
      if before = rd.cursor then some { rd with pc := .reading (.size before) passes dropped }
      else some (nextPass rd passes dropped)
    | _ => none
  | .loadSize _ =>
    match rd.pc with
    | .reading (.size before) passes dropped =>
      some { rd with pc := .reading (.stamp before (ring.slots (slotAt g rd.cursor)).payloadSize) passes dropped }
    | _ => none
  | .loadStamp _ =>
    match rd.pc with
    | .reading (.stamp before size) passes dropped =>
      some { rd with
        pc := .reading (.copy before size (ring.slots (slotAt g rd.cursor)).sourceTimestampNs []) passes dropped }
    | _ => none
  | .copy _ =>
    match rd.pc with
    | .reading (.copy before size timestamp copied) passes dropped =>
      if size ≤ g.slotPayloadSize ∧ copied.length < size then
        some { rd with pc := .reading (.copy before size timestamp
          (copied ++ [(ring.slots (slotAt g rd.cursor)).payload copied.length])) passes dropped }
      else none
    | _ => none
  | .recheck _ =>
    match rd.pc with
    | .reading (.copy before size timestamp copied) passes dropped =>
      if size ≤ g.slotPayloadSize then
        if copied.length < size then none
        else if (ring.slots (slotAt g rd.cursor)).seq = before then
          some { rd with
            cursor := rd.cursor + 1
            pc := .returned ⟨true, dropped⟩
              (some ⟨copied, { sequence := rd.cursor, sourceTimestamp := timestamp }⟩) }
        else some (nextPass rd passes dropped)
      else some (nextPass rd passes dropped)
    | _ => none
  | _ => none

def step (s : St) (a : Act) : Option St :=
  match a with
  | .attach r cursor depth =>
    if s.readers r = none ∧ 1 ≤ cursor then some (setReader s r ⟨cursor, depth, .idle⟩) else none
  | .tryRead r | .newest r | .seq r | .loadSize r | .loadStamp r | .copy r | .recheck r =>
    (s.readers r).bind fun rd => (readerStep g s.ring rd a).map (setReader s r)
  | _ => writerStep g s a

def init : St := ⟨.fresh, none, fun _ => .idle, fun _ => none, []⟩

/-- Sequences stay below 2^63: no writer takes the sequence `2^63`. -/
def seqBelow (s : St) : Act → Prop
  | .load _ => s.ring.writeSeq + 1 < 2 ^ 63
  | _ => True

/-! ## What a move can do -/

inductive Step (s : St) : Act → St → Prop
  | refuse (w capacity : Nat) (ts : Int) : Step s (.call w capacity ts) s
  | call (w capacity : Nat) (ts : Int) : s.writers w = .idle → capacity ≤ g.slotPayloadSize →
      Step s (.call w capacity ts) (setWriter s w (.locking capacity ts))
  | lock (w capacity : Nat) (ts : Int) : s.writers w = .locking capacity ts → canLock s = true →
      Step s (.lock w) { setWriter s w (.loading capacity ts) with lock := some w }
  | lockFails (w capacity : Nat) (ts : Int) : s.writers w = .locking capacity ts →
      Step s (.lockFails w) (setWriter s w .idle)
  | load (w capacity : Nat) (ts : Int) : s.writers w = .loading capacity ts →
      Step s (.load w) (setWriter s w (.marking ⟨capacity, ts, u64 (s.ring.writeSeq + 1),
        (s.ring.slots (slotAt g (u64 (s.ring.writeSeq + 1)))).payload, 0⟩))
  | mark (w : Nat) (p : Publication) : s.writers w = .marking p →
      Step s (.mark w)
        (setWriter (setSlot g s p.sequence fun slot => { slot with seq := p.sequence ||| kWritingBit }) w (.filling p))
  | store (w i : Nat) (v : UInt8) (p : Publication) : s.writers w = .filling p → i < p.capacity →
      Step s (.store w i v) (setWriter
        (setSlot g s p.sequence fun slot => { slot with payload := Function.update slot.payload i v }) w
        (.filling { p with buffer := Function.update p.buffer i v }))
  | fillOk (w : Nat) (r : FillReturn) (p : Publication) (used : Nat) : s.writers w = .filling p →
      invokeFill p.capacity r = .ok used → Step s (.fillReturn w r) (setWriter s w (.sizing { p with used := used }))
  | fillFails (w : Nat) (r : FillReturn) (p : Publication) : s.writers w = .filling p →
      Step s (.fillReturn w r) (setWriter s w .unlocking)
  | size (w : Nat) (p : Publication) : s.writers w = .sizing p →
      Step s (.size w)
        (setWriter (setSlot g s p.sequence fun slot => { slot with payloadSize := p.used }) w (.stamping p))
  | stamp (w : Nat) (p : Publication) : s.writers w = .stamping p →
      Step s (.stamp w)
        (setWriter (setSlot g s p.sequence fun slot => { slot with sourceTimestampNs := p.sourceTimestamp }) w
          (.sealing p))
  | storeSeq (w : Nat) (p : Publication) : s.writers w = .sealing p →
      Step s (.storeSeq w) (setWriter (setSlot g s p.sequence fun slot => { slot with seq := p.sequence }) w (.committing p))
  | commit (w : Nat) (p : Publication) : s.writers w = .committing p →
      Step s (.commit w) { setWriter s w .unlocking with
        ring := { s.ring with writeSeq := p.sequence }
        commits := s.commits ++ [⟨p.sequence, w, p.payload, p.sourceTimestamp⟩] }
  | unlock (w : Nat) : s.writers w = .unlocking → Step s (.unlock w) { setWriter s w .idle with lock := none }
  | die (w : Nat) : Step s (.die w) (setWriter s w .dead)
  | attach (r cursor depth : Nat) : s.readers r = none → 1 ≤ cursor →
      Step s (.attach r cursor depth) (setReader s r ⟨cursor, depth, .idle⟩)
  | reader (a : Act) (r : Nat) (rd rd' : Reader) : s.readers r = some rd → readerStep g s.ring rd a = some rd' →
      Step s a (setReader s r rd')

variable {g}

theorem reader_cases {s t : St} {a : Act} {r : Nat}
    (h : ((s.readers r).bind fun rd => (readerStep g s.ring rd a).map (setReader s r)) = some t) : Step g s a t := by
  obtain ⟨rd, hr, h⟩ := Option.bind_eq_some_iff.mp h
  obtain ⟨rd', hs, rfl⟩ := Option.map_eq_some_iff.mp h
  exact .reader a r rd rd' hr hs

theorem writer_cases {s t : St} {a : Act} (h : writerStep g s a = some t) : Step g s a t := by
  cases a with
  | call w capacity ts =>
    simp only [writerStep] at h
    split at h
    · split at h
      · cases h; exact .refuse w capacity ts
      · cases h; exact .call w capacity ts ‹_› (by omega)
    · cases h
  | lock w =>
    simp only [writerStep] at h
    split at h
    · split at h
      · cases h; exact .lock w _ _ ‹_› ‹_›
      · cases h
    · cases h
  | store w i v =>
    simp only [writerStep] at h
    split at h
    · split at h
      · cases h; exact .store w i v _ ‹_› ‹_›
      · cases h
    · cases h
  | fillReturn w r =>
    simp only [writerStep] at h
    split at h
    · split at h
      · cases h; exact .fillOk w r _ _ ‹_› ‹_›
      · cases h; exact .fillFails w r _ ‹_›
    · cases h
  | lockFails w => simp only [writerStep] at h; split at h <;> cases h; exact .lockFails w _ _ ‹_›
  | load w => simp only [writerStep] at h; split at h <;> cases h; exact .load w _ _ ‹_›
  | mark w => simp only [writerStep] at h; split at h <;> cases h; exact .mark w _ ‹_›
  | size w => simp only [writerStep] at h; split at h <;> cases h; exact .size w _ ‹_›
  | stamp w => simp only [writerStep] at h; split at h <;> cases h; exact .stamp w _ ‹_›
  | storeSeq w => simp only [writerStep] at h; split at h <;> cases h; exact .storeSeq w _ ‹_›
  | commit w => simp only [writerStep] at h; split at h <;> cases h; exact .commit w _ ‹_›
  | unlock w => simp only [writerStep] at h; split at h <;> cases h; exact .unlock w ‹_›
  | die w => simp only [writerStep, Option.some.injEq] at h; subst h; exact .die w
  | _ => cases h

theorem step_cases {s t : St} {a : Act} (h : step g s a = some t) : Step g s a t := by
  cases a with
  | attach r cursor depth =>
    simp only [step] at h
    split at h
    · rename_i hc; cases h; exact .attach r cursor depth hc.1 hc.2
    · cases h
  | tryRead r => exact reader_cases h
  | newest r => exact reader_cases h
  | seq r => exact reader_cases h
  | loadSize r => exact reader_cases h
  | loadStamp r => exact reader_cases h
  | copy r => exact reader_cases h
  | recheck r => exact reader_cases h
  | _ => exact writer_cases h

end PuppetMaster.Shm.Seqlock
