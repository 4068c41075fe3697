/-
  PuppetMaster.Shm.Layout — where the slots of a segment are, computed in `std::size_t`.

  `alignUp`, `slotStride`, `segmentSize` and `slotAt` are those of segment.cpp on 64-bit
  words that wrap. `Shm.Open` has the same functions on unlimited numbers; they agree
  (`toNat_segmentSize`, `toNat_slotAt`), so the guards leave nothing to wrap but the sum
  inside `AlignUp`, which comes back into range before it is used (`toNat_alignUp`).

  `segment_geometry`: the size is that of the header and the slots exactly when there is a
  slot and that size fits in 64 bits, and the slots behind the header are apart.
-/

import Mathlib.Order.Bounds.Defs
import PuppetMaster.Shm.Hostile

namespace PuppetMaster.Shm.Layout

/-! ## In machine words -/

def sizeMax : UInt64 := 0xffffffffffffffff
def kSlotAlignment : UInt64 := 64
def kSlotPayloadOffset : UInt64 := kSlotAlignment
def sizeofSegmentHeader : UInt64 := 1984

/-- Three words of 8 bytes. -/
def sizeofSlotHeader : UInt64 := 24

structure SegmentGeometry where
  slotPayloadSize : UInt64
  slotCount : UInt64

/-- Rounds up to a multiple of `kSlotAlignment`, or 0 on overflow. -/
def alignUp (value : UInt64) : UInt64 :=
  if sizeMax - (kSlotAlignment - 1) < value then 0
  else (value + kSlotAlignment - 1) / kSlotAlignment * kSlotAlignment

def slotStride (slotPayloadSize : UInt64) : UInt64 :=
  if sizeMax - kSlotPayloadOffset < slotPayloadSize then 0 else alignUp (kSlotPayloadOffset + slotPayloadSize)

def headerSize : UInt64 := alignUp sizeofSegmentHeader

def segmentSize (geometry : SegmentGeometry) : UInt64 :=
  let stride := slotStride geometry.slotPayloadSize
  if stride = 0 ∨ geometry.slotCount = 0 then 0
  else
    let header := headerSize
    if (sizeMax - header) / stride < geometry.slotCount then 0 else header + geometry.slotCount * stride

/-- Where the system maps a segment: at the start of a page, and a page is a multiple of the
    alignment; all of it has addresses. -/
structure Mapping (geometry : SegmentGeometry) where
  data : UInt64
  aligned : kSlotAlignment.toNat ∣ data.toNat
  within : data.toNat + (segmentSize geometry).toNat ≤ 2 ^ 64

/-- `SlotAt`: the address of the slot of a sequence number. -/
def slotAt {geometry : SegmentGeometry} (mapping : Mapping geometry) (sequence : UInt64) : UInt64 :=
  let slots := mapping.data + headerSize
  slots + sequence % geometry.slotCount * slotStride geometry.slotPayloadSize

/-! ## Without a limit -/

def SegmentGeometry.unlimited (geometry : SegmentGeometry) : Shm.SegmentGeometry :=
  ⟨geometry.slotPayloadSize.toNat, geometry.slotCount.toNat⟩

/-- Up to a multiple of the alignment. -/
def roundUp (n : Nat) : Nat := (n + 63) / 64 * 64

def exactStride (geometry : SegmentGeometry) : Nat := roundUp (64 + geometry.slotPayloadSize.toNat)

def exactSize (geometry : SegmentGeometry) : Nat :=
  headerSize.toNat + geometry.slotCount.toNat * exactStride geometry

theorem roundUp_isLeast (n : Nat) : IsLeast {m | n ≤ m ∧ kSlotAlignment.toNat ∣ m} (roundUp n) := by
  refine ⟨⟨?_, Nat.dvd_mul_left _ _⟩, ?_⟩
  · unfold roundUp
    omega
  · rintro m ⟨hle, k, rfl⟩
    have halign : kSlotAlignment.toNat = 64 := rfl
    rw [halign] at hle ⊢
    unfold roundUp
    omega

theorem le_roundUp (n : Nat) : n ≤ roundUp n := (roundUp_isLeast n).1.1

variable {geometry : SegmentGeometry}

/-! ## The words hold the numbers -/

/-- At the last multiple of the alignment the sum wraps to 0, and the subtraction takes it back. -/
theorem toNat_alignUp (value : UInt64) : (alignUp value).toNat = Open.alignUp value.toNat := by
  have hguard : sizeMax - (kSlotAlignment - 1) < value ↔ Open.sizeMax - (Open.kSlotAlignment - 1) < value.toNat :=
    UInt64.lt_iff_toNat_lt
  unfold alignUp Open.alignUp
  by_cases h : Open.sizeMax - (Open.kSlotAlignment - 1) < value.toNat
  · rw [if_pos h, if_pos (hguard.mpr h)]
    rfl
  · rw [if_neg h, if_neg (mt hguard.mp h), UInt64.toNat_mul, UInt64.toNat_div, UInt64.toNat_sub, UInt64.toNat_add]
    have halign : kSlotAlignment.toNat = 64 := rfl
    have hone : (1 : UInt64).toNat = 1 := rfl
    rw [halign, hone]
    simp only [Open.sizeMax, Open.kSlotAlignment] at h ⊢
    omega

theorem toNat_slotStride (slotPayloadSize : UInt64) :
    (slotStride slotPayloadSize).toNat = Open.slotStride slotPayloadSize.toNat := by
  have hguard : sizeMax - kSlotPayloadOffset < slotPayloadSize ↔
      Open.sizeMax - Open.kSlotPayloadOffset < slotPayloadSize.toNat := UInt64.lt_iff_toNat_lt
  unfold slotStride Open.slotStride
  by_cases h : Open.sizeMax - Open.kSlotPayloadOffset < slotPayloadSize.toNat
  · rw [if_pos h, if_pos (hguard.mpr h)]
    rfl
  · have hsum : (kSlotPayloadOffset + slotPayloadSize).toNat = Open.kSlotPayloadOffset + slotPayloadSize.toNat := by
      have hoffset : kSlotPayloadOffset.toNat = 64 := rfl
      rw [UInt64.toNat_add, hoffset]
      simp only [Open.sizeMax, Open.kSlotPayloadOffset, Open.kSlotAlignment] at h ⊢
      omega
    rw [if_neg h, if_neg (mt hguard.mp h), toNat_alignUp, hsum]

theorem toNat_headerSize : headerSize.toNat = Open.headerSize := by decide

/-- The last guard is that of the product and of the sum. -/
theorem toNat_segmentSize (geometry : SegmentGeometry) :
    (segmentSize geometry).toNat = Open.segmentSize geometry.unlimited := by
  have hstride := toNat_slotStride geometry.slotPayloadSize
  have hempty : slotStride geometry.slotPayloadSize = 0 ∨ geometry.slotCount = 0 ↔
      Open.slotStride geometry.slotPayloadSize.toNat = 0 ∨ geometry.slotCount.toNat = 0 := by
    rw [← hstride, ← UInt64.toNat_inj, ← UInt64.toNat_inj]
    rfl
  have hguard : (sizeMax - headerSize) / slotStride geometry.slotPayloadSize < geometry.slotCount ↔
      (Open.sizeMax - Open.headerSize) / Open.slotStride geometry.slotPayloadSize.toNat < geometry.slotCount.toNat := by
    rw [UInt64.lt_iff_toNat_lt, UInt64.toNat_div, hstride]
    rfl
  unfold segmentSize Open.segmentSize SegmentGeometry.unlimited
  dsimp only
  by_cases hzero : Open.slotStride geometry.slotPayloadSize.toNat = 0 ∨ geometry.slotCount.toNat = 0
  · rw [if_pos hzero, if_pos (hempty.mpr hzero)]
    rfl
  · rw [if_neg hzero, if_neg (mt hempty.mp hzero)]
    by_cases hlarge : (Open.sizeMax - Open.headerSize) / Open.slotStride geometry.slotPayloadSize.toNat <
        geometry.slotCount.toNat
    · rw [if_pos hlarge, if_pos (hguard.mpr hlarge)]
      rfl
    · have hpos : 0 < Open.slotStride geometry.slotPayloadSize.toNat := Nat.pos_of_ne_zero (not_or.mp hzero).1
      have hslots : geometry.slotCount.toNat * Open.slotStride geometry.slotPayloadSize.toNat ≤
          Open.sizeMax - Open.headerSize := (Nat.le_div_iff_mul_le hpos).mp (Nat.le_of_not_lt hlarge)
      have hheader : Open.headerSize = 1984 := by decide
      rw [if_neg hlarge, if_neg (mt hguard.mp hlarge), UInt64.toNat_add, UInt64.toNat_mul, hstride, toNat_headerSize]
      unfold Open.sizeMax at hslots
      rw [Nat.mod_eq_of_lt (a := geometry.slotCount.toNat * _) (by omega), Nat.mod_eq_of_lt (by omega)]

/-! ## The numbers are exact -/

theorem alignUp_eq (n : Nat) : Open.alignUp n = if roundUp n < 2 ^ 64 then roundUp n else 0 := by
  unfold Open.alignUp Open.sizeMax Open.kSlotAlignment roundUp
  split <;> split <;> omega

theorem slotStride_eq (geometry : SegmentGeometry) :
    Open.slotStride geometry.slotPayloadSize.toNat = if exactStride geometry < 2 ^ 64 then exactStride geometry else 0 := by
  unfold Open.slotStride exactStride
  split
  · next hlarge =>
    have hle := le_roundUp (64 + geometry.slotPayloadSize.toNat)
    rw [if_neg]
    simp only [Open.sizeMax, Open.kSlotPayloadOffset, Open.kSlotAlignment] at hlarge
    omega
  · exact alignUp_eq _

theorem exactStride_pos (geometry : SegmentGeometry) : 0 < exactStride geometry := by
  have := le_roundUp (64 + geometry.slotPayloadSize.toNat)
  unfold exactStride
  omega

/-- A slot's stride is no longer than a segment with a slot. -/
theorem exactStride_le (h : 0 < geometry.slotCount.toNat) : headerSize.toNat + exactStride geometry ≤ exactSize geometry :=
  Nat.add_le_add_left (Nat.le_mul_of_pos_left _ h) _

theorem segmentSize_exact (geometry : SegmentGeometry) :
    (segmentSize geometry).toNat =
      if 0 < geometry.slotCount.toNat ∧ exactSize geometry < 2 ^ 64 then exactSize geometry else 0 := by
  have hpos := exactStride_pos geometry
  have hheader : Open.headerSize = 1984 := by decide
  rw [toNat_segmentSize]
  unfold Open.segmentSize SegmentGeometry.unlimited
  dsimp only
  rw [slotStride_eq]
  by_cases hcount : 0 < geometry.slotCount.toNat
  · have hle := exactStride_le hcount
    by_cases hfits : exactStride geometry < 2 ^ 64
    · have hguard : (Open.sizeMax - Open.headerSize) / exactStride geometry < geometry.slotCount.toNat ↔
          ¬ exactSize geometry < 2 ^ 64 := by
        rw [Nat.div_lt_iff_lt_mul hpos, exactSize, toNat_headerSize]
        unfold Open.sizeMax
        omega
      rw [if_pos hfits, if_neg (by omega)]
      by_cases hexact : exactSize geometry < 2 ^ 64
      · rw [if_neg (fun h => hguard.mp h hexact), if_pos ⟨hcount, hexact⟩, exactSize, toNat_headerSize]
      · rw [if_pos (hguard.mpr hexact), if_neg (fun h => hexact h.2)]
    · rw [if_neg hfits, if_pos (.inl rfl), if_neg]
      intro h
      omega
  · rw [if_pos (.inr (by omega)), if_neg (fun h => hcount h.1)]

theorem segmentSize_ne_zero_iff (geometry : SegmentGeometry) :
    segmentSize geometry ≠ 0 ↔ 0 < geometry.slotCount.toNat ∧ exactSize geometry < 2 ^ 64 := by
  have hexact := segmentSize_exact geometry
  have hheader : headerSize.toNat = 1984 := by decide
  have hsize : 0 < exactSize geometry := by
    unfold exactSize
    omega
  rw [ne_eq, ← UInt64.toNat_inj, hexact]
  split
  · next h => exact ⟨fun _ => h, fun _ hzero => absurd hzero (Nat.ne_of_gt hsize)⟩
  · next h => exact ⟨fun hne => absurd rfl hne, fun hfits => absurd hfits h⟩

/-! ## Slots -/

theorem toNat_slotStride_of_ne_zero (h : segmentSize geometry ≠ 0) :
    (slotStride geometry.slotPayloadSize).toNat = exactStride geometry := by
  obtain ⟨hcount, hfits⟩ := (segmentSize_ne_zero_iff geometry).mp h
  have hle := exactStride_le hcount
  rw [toNat_slotStride, slotStride_eq, if_pos (by omega)]

/-- The slots up to one lie within the segment. -/
theorem slot_end_le (h : segmentSize geometry ≠ 0) (sequence : UInt64) :
    headerSize.toNat + (sequence.toNat % geometry.slotCount.toNat * exactStride geometry + exactStride geometry) ≤
      exactSize geometry := by
  have hcount := ((segmentSize_ne_zero_iff geometry).mp h).1
  have hnext : (sequence.toNat % geometry.slotCount.toNat + 1) * exactStride geometry ≤
      geometry.slotCount.toNat * exactStride geometry := Nat.mul_le_mul_right _ (Nat.mod_lt _ hcount)
  rw [Nat.add_one_mul] at hnext
  exact Nat.add_le_add_left hnext _

/-- Nothing in the address of a slot wraps. -/
theorem toNat_slotAt (h : segmentSize geometry ≠ 0) (mapping : Mapping geometry) (sequence : UInt64) :
    (slotAt mapping sequence).toNat = mapping.data.toNat + headerSize.toNat +
      sequence.toNat % geometry.slotCount.toNat * exactStride geometry := by
  have hwithin := mapping.within
  have hend := slot_end_le h sequence
  have hpos := exactStride_pos geometry
  obtain ⟨hcount, hfits⟩ := (segmentSize_ne_zero_iff geometry).mp h
  rw [segmentSize_exact, if_pos ⟨hcount, hfits⟩] at hwithin
  have hmul : (sequence % geometry.slotCount * slotStride geometry.slotPayloadSize).toNat =
      sequence.toNat % geometry.slotCount.toNat * exactStride geometry := by
    rw [UInt64.toNat_mul, UInt64.toNat_mod, toNat_slotStride_of_ne_zero h, Nat.mod_eq_of_lt (by omega)]
  unfold slotAt
  dsimp only
  rw [UInt64.toNat_add, UInt64.toNat_add, hmul]
  omega

/-- Two multiples of a stride are a stride apart. -/
theorem slots_apart {i j : Nat} (stride : Nat) (h : i ≠ j) :
    i * stride + stride ≤ j * stride ∨ j * stride + stride ≤ i * stride := by
  rcases Nat.lt_or_gt_of_ne h with hlt | hgt
  · left
    rw [← Nat.succ_mul]
    exact Nat.mul_le_mul_right _ hlt
  · right
    rw [← Nat.succ_mul]
    exact Nat.mul_le_mul_right _ hgt

/-- A slot is aligned, lies between the header and the end of the segment, and has room for
    its header and its payload; slots of other numbers do not meet it. -/
structure WellPlaced (mapping : Mapping geometry) (sequence : UInt64) : Prop where
  aligned : kSlotAlignment.toNat ∣ (slotAt mapping sequence).toNat
  after_header : mapping.data.toNat + headerSize.toNat ≤ (slotAt mapping sequence).toNat
  ends : (slotAt mapping sequence).toNat + exactStride geometry ≤ mapping.data.toNat + (segmentSize geometry).toNat
  header : sizeofSlotHeader ≤ kSlotPayloadOffset
  payload : kSlotPayloadOffset.toNat + geometry.slotPayloadSize.toNat ≤ exactStride geometry
  apart : ∀ other : UInt64, sequence.toNat % geometry.slotCount.toNat ≠ other.toNat % geometry.slotCount.toNat →
    (slotAt mapping sequence).toNat + exactStride geometry ≤ (slotAt mapping other).toNat
      ∨ (slotAt mapping other).toNat + exactStride geometry ≤ (slotAt mapping sequence).toNat

theorem slot_wellPlaced (h : segmentSize geometry ≠ 0) (mapping : Mapping geometry) (sequence : UInt64) :
    WellPlaced mapping sequence where
  aligned := by
    have hheader : kSlotAlignment.toNat ∣ headerSize.toNat := by decide
    have hslot : kSlotAlignment.toNat ∣ sequence.toNat % geometry.slotCount.toNat * exactStride geometry :=
      Nat.dvd_mul_left_of_dvd (roundUp_isLeast _).1.2 _
    rw [toNat_slotAt h]
    exact Nat.dvd_add (Nat.dvd_add mapping.aligned hheader) hslot
  after_header := by
    rw [toNat_slotAt h]
    exact Nat.le_add_right _ _
  ends := by
    have hend := slot_end_le h sequence
    rw [toNat_slotAt h, segmentSize_exact, if_pos ((segmentSize_ne_zero_iff geometry).mp h)]
    omega
  header := by decide
  payload := le_roundUp _
  apart := by
    intro other hne
    rw [toNat_slotAt h, toNat_slotAt h]
    rcases slots_apart (exactStride geometry) hne with hle | hle
    · left
      omega
    · right
      omega

theorem segment_geometry (geometry : SegmentGeometry) :
    (segmentSize geometry ≠ 0 ↔ 0 < geometry.slotCount.toNat ∧ exactSize geometry < 2 ^ 64)
      ∧ (segmentSize geometry ≠ 0 → (segmentSize geometry).toNat = exactSize geometry
        ∧ (slotStride geometry.slotPayloadSize).toNat = exactStride geometry
        ∧ ∀ (mapping : Mapping geometry) (sequence : UInt64), WellPlaced mapping sequence) := by
  refine ⟨segmentSize_ne_zero_iff geometry, fun h => ⟨?_, toNat_slotStride_of_ne_zero h, slot_wellPlaced h⟩⟩
  rw [segmentSize_exact, if_pos ((segmentSize_ne_zero_iff geometry).mp h)]

/-- Four slots of 65 bytes, mapped at the second page. -/
def fourSlots : SegmentGeometry := ⟨65, 4⟩

theorem four_slots_are_well_placed :
    (segmentSize fourSlots).toNat = 1984 + 4 * 192
      ∧ WellPlaced (⟨4096, by decide, by decide⟩ : Mapping fourSlots) 0xffffffffffffffff := by
  have hsize : segmentSize fourSlots ≠ 0 := by decide
  obtain ⟨hexact, -, hplaced⟩ := (segment_geometry fourSlots).2 hsize
  exact ⟨hexact, hplaced _ _⟩

end PuppetMaster.Shm.Layout
