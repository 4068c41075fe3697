/-
  PuppetMaster.Shm.Segment — the ring of one shared-memory topic (segment.h,
  segment.cpp): publishing and reading with nothing else running.

  Sequence `s` lives in slot `s % slot_count`. `publishWith` marks the slot with
  `s | kWritingBit`, lets the fill function write the slot's payload in place, then
  stores size, timestamp, `slot.seq = s` and `write_seq = s`; a failed fill returns with
  the mark left behind. `tryRead` walks from the reader's cursor, clamped to `depth`
  messages behind the newest, past slots whose sequence is not the cursor, and returns
  the first message it finds; `pending` counts from the same clamp without looking at
  the slots. `writeWith` is the default `Writer::WriteWith`, which fills a private
  buffer and then writes it.

  64-bit values are naturals, with `u64` at the additions and subtractions that can
  wrap. The interleaved machine over the same ring is `PuppetMaster.Shm.Seqlock`.
-/

import Mathlib.Algebra.Group.Nat.Defs
import Mathlib.Logic.Function.Basic
import PuppetMaster.Core.Message

namespace PuppetMaster.Shm

open PuppetMaster.Core

def kWritingBit : Nat := 2 ^ 63

/-- An unsigned 64-bit result. -/
def u64 (n : Nat) : Nat := n % 2 ^ 64

structure SegmentGeometry where
  slotPayloadSize : Nat
  slotCount : Nat
  deriving DecidableEq, Repr

/-- The geometry of an open segment: `Segment::Open` refuses one without slots. -/
structure Geometry extends SegmentGeometry where
  slotCount_pos : 0 < slotCount

/-- A slot: its header words and its payload bytes. -/
structure Slot where
  seq : Nat
  sourceTimestampNs : Int
  payloadSize : Nat
  payload : Nat → UInt8

/-- The shared words of the ring: `write_seq` and the slots. -/
structure Ring where
  writeSeq : Nat
  slots : Nat → Slot

/-- A fresh segment is zero-filled. -/
def Ring.fresh : Ring := ⟨0, fun _ => ⟨0, 0, 0, fun _ => 0⟩⟩

def Ring.setSlot (r : Ring) (i : Nat) (slot : Slot) : Ring := { r with slots := Function.update r.slots i slot }

@[simp] theorem Ring.setSlot_writeSeq (r : Ring) (i : Nat) (slot : Slot) : (r.setSlot i slot).writeSeq = r.writeSeq := rfl

@[simp] theorem Ring.setSlot_self (r : Ring) (i : Nat) (slot : Slot) : (r.setSlot i slot).slots i = slot := by
  simp [Ring.setSlot]

theorem Ring.setSlot_ne (r : Ring) {i j : Nat} (slot : Slot) (h : j ≠ i) : (r.setSlot i slot).slots j = r.slots j := by
  simp [Ring.setSlot, h]

variable (g : Geometry)

def slotAt (sequence : Nat) : Nat := sequence % g.slotCount

/-! ## Publishing -/

def publishWith (r : Ring) (locked : Result Bool) (capacity : Nat) (fill : FillFunction) (sourceTimestamp : Int) :
    Result Nat × Ring :=
  if g.slotPayloadSize < capacity then
    (.error (.error .outOfRange
      (text s!"payload of {capacity} bytes exceeds the shm slot size of {g.slotPayloadSize}")), r)
  else
    match locked with
    | .error status => (.error status, r)
    | .ok _ =>
      let sequence := u64 (r.writeSeq + 1)
      let i := slotAt g sequence
      -- From here the slot's previous message is gone.
      let marked := r.setSlot i { r.slots i with seq := sequence ||| kWritingBit }
      let filled := fill capacity (r.slots i).payload
      let slot := { marked.slots i with payload := overwrite capacity filled.1 (r.slots i).payload }
      match invokeFill capacity filled.2 with
      | .error status => (.error status, marked.setSlot i slot)
      | .ok used =>
        (.ok sequence,
          { marked.setSlot i { slot with payloadSize := used, sourceTimestampNs := sourceTimestamp, seq := sequence } with
            writeSeq := sequence })

/-- `Publish`: the fill function copies `payload`. -/
def publish (r : Ring) (locked : Result Bool) (payload : Bytes) (sourceTimestamp : Int) : Result Nat × Ring :=
  publishWith g r locked payload.length
    (fun _ _ => (fun i => payload.getD i 0, .returned (.ok payload.length))) sourceTimestamp

/-- The default `Writer::WriteWith`: `fill` gets a private zeroed buffer, and the bytes
    it used are written. -/
def writeWith (r : Ring) (locked : Result Bool) (capacity : Nat) (fill : FillFunction) (sourceTimestamp : Int) :
    Result Nat × Ring :=
  let filled := fill capacity fun _ => 0
  match invokeFill capacity filled.2 with
  | .error status => (.error status, r)
  | .ok used => publish g r locked (bytesAt filled.1 used) sourceTimestamp

/-! ## Reading -/

structure ReadOutcome where
  hasMessage : Bool
  dropped : Nat
  deriving DecidableEq, Repr

def clampCursor (cursor newest depth : Nat) : Nat := max cursor (if depth ≤ newest then newest - depth + 1 else 1)

def effectiveDepth (depth : Nat) : Nat := max 1 (min depth g.slotCount)

/-- How many passes `TryRead` makes before it gives up. -/
def maxPasses : Nat := g.slotCount + 16

/-- The message a slot holds, read as sequence `cursor`. -/
def Slot.message (slot : Slot) (cursor : Nat) : Message :=
  ⟨bytesAt slot.payload slot.payloadSize, { sequence := cursor, sourceTimestamp := slot.sourceTimestampNs }⟩

/-- The loop of `TryRead`, `passes` still allowed: its outcome, the cursor it leaves, and
    the message it returns. -/
def tryReadLoop (r : Ring) (depth : Nat) : (passes cursor dropped : Nat) → ReadOutcome × Nat × Option Message
  | 0, cursor, dropped => (⟨false, dropped⟩, cursor, none)
  | passes + 1, cursor, dropped =>
    if r.writeSeq < cursor then (⟨false, dropped⟩, cursor, none)
    else
      let clamped := clampCursor cursor r.writeSeq depth
      let dropped := dropped + (clamped - cursor)
      let slot := r.slots (slotAt g clamped)
      if slot.seq = clamped ∧ slot.payloadSize ≤ g.slotPayloadSize then
        (⟨true, dropped⟩, u64 (clamped + 1), some (slot.message clamped))
      else tryReadLoop r depth passes (u64 (clamped + 1)) (dropped + 1)

def tryRead (r : Ring) (cursor depth : Nat) : ReadOutcome × Nat × Option Message :=
  tryReadLoop g r (effectiveDepth g depth) (maxPasses g) cursor 0

def pending (r : Ring) (cursor depth : Nat) : Nat :=
  if r.writeSeq < cursor then 0
  else u64 (r.writeSeq + 2 ^ 64 - clampCursor cursor r.writeSeq (effectiveDepth g depth) + 1)

/-- The messages successive `TryRead`s return, up to the first that returns none;
    `fuel` bounds how many are made. -/
def readAll (r : Ring) (depth : Nat) : (fuel cursor : Nat) → List Message
  | 0, _ => []
  | fuel + 1, cursor =>
    match tryRead g r cursor depth with
    | (_, cursor', some message) => message :: readAll r depth fuel cursor'
    | (_, _, none) => []

end PuppetMaster.Shm
